import Mathlib
import ByteAtlas.Proofs.Flat.History

/-!
# The answers of a fresh workspace

What has been asked before makes no difference to an answer: it is the one of a fresh workspace with
the same schema and files, in which the instance has the properties that it has now
(`Workspace.Consulted.same_as_fresh`). A lazy answer is the same, if it tells anything
(`Workspace.Consulted.lazy_as_fresh`). And so it is where frames were refused before, unless that
began something that may be wrong (`Workspace.Consulted.same_after_refusals`).
-/

namespace ByteAtlas

namespace Workspace

/-- **Whether a workspace is a fresh one in place of another**: nothing is known in it yet. It has
the same schema and files, and an instance with the same number and properties. -/
structure Renews (fresh ws : Workspace) (i : Instance) : Prop where
  schema : fresh.schema = ws.schema
  files : fresh.files = ws.files
  maxElements : fresh.limits.maxElements = ws.limits.maxElements
  unknown : ∀ id : InstanceId, fresh.layouts[id]? = none
  placed : ∃ version, fresh.find? i.id = some { i with version }

section

variable {ws fresh : Workspace} {n : Nat} {i : Instance} {cutShort : Bool}

/-- **The answer that the facts give**, for an instance of which only what is true is known. -/
theorem Truthful.result_eq (h : ws.Truthful n) (hi : ws.find? i.id = some i) (q : Inquiry)
    (hrefused : ((q.ask i.ref false).runIn ws).2.refusals = ws.refusals) :
    ((q.ask i.ref false).runIn ws).1 = q.answer (ws.siteOf i) :=
  ((q.leads_of_knows h.flat hi (h.knows i hi) false nofun).result trivial trivial hrefused).1.1 rfl

/-- What a question that is not lazy does to the workspace. -/
theorem Truthful.turns_ask (h : ws.Truthful n) (hi : ws.find? i.id = some i) (q : Inquiry) :
    ws.Turns i.ref ((q.ask i.ref false).runIn ws).2 :=
  (q.leads_of_knows h.flat hi (h.knows i hi) false nofun).changes

/-- A fresh workspace gives the answer that the facts give. -/
theorem Renews.result_eq (h : fresh.Renews ws i) (hflat : ws.schema.Flat) (q : Inquiry)
    (hrefused : ((q.ask i.ref false).runIn fresh).2.refusals = fresh.refusals) :
    ((q.ask i.ref false).runIn fresh).1 = q.answer (ws.siteOf i) := by
  obtain ⟨version, hi⟩ := h.placed
  have hsite : fresh.siteOf { i with version } = ws.siteOf i := by
    unfold siteOf structOf?
    rw [h.schema, h.files, h.maxElements]
    rfl
  have hleads := q.leads_of_knows (i := { i with version }) (h.schema ▸ hflat) hi
    (knows_of_unknown (h.unknown i.id)) false nofun
  rw [hsite] at hleads
  exact (hleads.result trivial trivial hrefused).1.1 rfl

/-- **What has been asked before makes no difference.** -/
theorem Consulted.same_as_fresh (h : ws.Consulted false n) (hn : n < Schema.versionLimit)
    (hi : ws.find? i.id = some i) (hfresh : fresh.Renews ws i) (q : Inquiry)
    (hrefused : ((q.ask i.ref false).runIn ws).2.refusals = ws.refusals)
    (hrefused' : ((q.ask i.ref false).runIn fresh).2.refusals = fresh.refusals) :
    ((q.ask i.ref false).runIn ws).1 = ((q.ask i.ref false).runIn fresh).1 := by
  have htruthful := h.truthful hn
  rw [htruthful.result_eq hi q hrefused, hfresh.result_eq htruthful.flat q hrefused']

/-- **Frames that were refused before make no difference** either, once the limit admits as many as
are needed. -/
theorem Consulted.same_after_refusals (h : ws.Consulted true n) (hn : n < Schema.versionLimit)
    (hi : ws.find? i.id = some i) (hfresh : fresh.Renews ws i) (q : Inquiry) (maxDepth : Nat)
    (hrefused : ((q.ask i.ref false).runIn (ws.setLimits { ws.limits with maxDepth })).2.refusals =
      ws.refusals)
    (hrefused' : ((q.ask i.ref false).runIn fresh).2.refusals = fresh.refusals) :
    ((q.ask i.ref false).runIn (ws.setLimits { ws.limits with maxDepth })).1 =
      ((q.ask i.ref false).runIn fresh).1 := by
  have htruthful := (h.setMaxDepth maxDepth).truthful hn
  rw [htruthful.result_eq hi q hrefused, hfresh.result_eq htruthful.flat q hrefused']
  rfl

/-- **A lazy answer that tells anything is the answer**, unless it was taken from what is out of
date. And no later answer is another one because of it. -/
theorem Consulted.lazy_as_fresh (h : ws.Consulted cutShort n) (hn : n < Schema.versionLimit)
    (hi : ws.find? i.id = some i) (q : Inquiry) (houtdated : ¬ q.ReadsOutdated ws i.ref)
    {a : q.Answer} {ws' : Workspace} (hrun : (q.ask i.ref true).runIn ws = (.ok a, ws'))
    (hrefused : ws'.refusals = ws.refusals) :
    (∀ fresh : Workspace, fresh.Renews ws i → q.Tells a →
      ((q.ask i.ref false).runIn fresh).2.refusals = fresh.refusals →
      ((q.ask i.ref false).runIn fresh).1 = .ok a) ∧
    ∀ (j : Instance) (later : Inquiry), ws.find? j.id = some j →
      ((later.ask j.ref false).runIn ws).2.refusals = ws.refusals →
      ((later.ask j.ref false).runIn ws').2.refusals = ws'.refusals →
      ((later.ask j.ref false).runIn ws').1 = ((later.ask j.ref false).runIn ws).1 := by
  have htruthful := h.truthful hn
  have hafter := (h.call hi (fun _ => houtdated) hrun fun hne => absurd hrefused hne).truthful hn
  have hleads := q.leads_of_knows htruthful.flat hi (htruthful.knows i hi) true fun _ => houtdated
  obtain ⟨hturns, _, _, hresult⟩ := hleads
  rw [hrun] at hturns hresult
  refine ⟨fun fresh hfresh htells hrefused' => ?_, fun j later hj hrefusedj hrefusedj' => ?_⟩
  · rw [hfresh.result_eq htruthful.flat q hrefused']
    exact (hresult trivial trivial hrefused).1.2 a rfl htells
  · have hj' : ws'.find? j.id = some j := by
      rw [hturns.find?]
      exact hj
    rw [htruthful.result_eq hj later hrefusedj, hafter.result_eq hj' later hrefusedj',
      hturns.siteOf]

end

/-! ## 2. A row of characters -/

/-- A packed struct of a length, so many characters, and a mark that lies where the length says. -/
def row : StructDef :=
  { StructDef.empty with
    isPacked := true
    fields := ⟨[("length", .ofType (.scalar .char)),
      ("text", { Field.ofType (.scalar .char) with count := 0, countSource := .named "length" }),
      ("mark", { Field.ofType (.scalar .char) with
        offsetFormula := some ⟨"length", .member none "length" none false, by cbv⟩ })], by decide⟩ }

def rowSchema : Schema := ⟨(∅ : Std.TreeMap String StructDef).insert "Row" row, 0⟩

/-- An instance of it. -/
def rowInstance : Instance := .ofPlacement 0 (.single ⟨"Row", 0, 0⟩ .user)

/-- A workspace with this instance, and a file of five characters. -/
def withRow : Workspace :=
  ((ofSchema rowSchema .default).addSource (.ofBytes "row" #[3, 65, 66, 67, 68])).2.place
    rowInstance.toPlacement |>.2

theorem made_rowSchema : rowSchema.Made 0 := .of_toList rfl (by decide)

theorem consulted_withRow (cutShort : Bool) : withRow.Consulted cutShort 0 :=
  .start made_rowSchema (by decide) fun _ => rfl

theorem runIn_of_toOption {α : Type} {step : Resolve α} {ws : Workspace} {a : α}
    (h : (step.runIn ws).1.toOption = some a) : step.runIn ws = (.ok a, (step.runIn ws).2) := by
  refine Prod.ext ?_ rfl
  cases hresult : (step.runIn ws).1 with
  | error _ =>
    rw [hresult] at h
    cases h
  | ok b =>
    rw [hresult] at h
    cases h
    rfl

/-- After a question to the row that is not lazy. -/
theorem Consulted.askRow {ws : Workspace} {n : Nat} {cutShort : Bool}
    (h : ws.Consulted cutShort n) (hi : ws.find? 0 = some rowInstance) {q : Inquiry} {a : q.Answer}
    (hresult : ((q.ask rowInstance.ref false).runIn ws).1.toOption = some a)
    (hspares : ((q.ask rowInstance.ref false).runIn ws).2.refusals ≠ ws.refusals →
      cutShort = true ∧ ws.Spares rowInstance.ref ((q.ask rowInstance.ref false).runIn ws).2) :
    ((q.ask rowInstance.ref false).runIn ws).2.Consulted cutShort n :=
  .call h hi (fun hlazy => absurd hlazy Bool.false_ne_true) (runIn_of_toOption hresult) hspares

theorem find?_withRow : withRow.find? 0 = some rowInstance := rfl

/-- The row after its mark has been read. -/
def readRow : Workspace := (((Inquiry.intValue 2 0).ask rowInstance.ref false).runIn withRow).2

/-- Then an argument hides the length from the expression. -/
def editedRow : Workspace := readRow.modify 0 (.setArg "length" 4)

/-- A fresh row with the argument. -/
def freshRow : Workspace := withRow.modify 0 (.setArg "length" 4)

/-- Whether a question to the row is answered in this way, so many frames being refused. -/
abbrev RowAnswers (ws : Workspace) (q : Inquiry) (isLazy : Bool) (refused : Nat) (a : q.Answer) :
    Prop :=
  ((q.ask rowInstance.ref isLazy).runIn ws).1.toOption = some a ∧
    ((q.ask rowInstance.ref isLazy).runIn ws).2.refusals = ws.refusals + refused

theorem answers_withRow : withRow.RowAnswers (.intValue 2 0) false 0 (67 : Int64) ∧
    withRow.RowAnswers (.isPresent 2) false 0 (some true) := by
  decide +kernel

theorem answers_editedRow : editedRow.RowAnswers (.intValue 2 0) false 0 (68 : Int64) ∧
    freshRow.RowAnswers (.intValue 2 0) false 0 (68 : Int64) ∧
    editedRow.RowAnswers (.totalSize 1) true 0 (some (3 : Int64)) ∧
    freshRow.RowAnswers (.totalSize 1) false 0 (some (3 : Int64)) := by
  decide +kernel

theorem turns_readRow : withRow.Turns rowInstance.ref readRow :=
  ((consulted_withRow false).truthful (by decide)).turns_ask find?_withRow (.intValue 2 0)

theorem find?_editedRow : editedRow.find? 0 = some (rowInstance.setArg "length" 4) := by
  rw [editedRow, find?_modify, if_pos rfl, turns_readRow.find?, find?_withRow]
  rfl

theorem consulted_editedRow (cutShort : Bool) : editedRow.Consulted cutShort 1 := by
  obtain ⟨hresult, hrefused⟩ := answers_withRow.1
  exact .edit 0 ((consulted_withRow cutShort).askRow find?_withRow hresult
    fun hne => absurd hrefused hne) (.setArg "length" 4)

theorem renews_freshRow : freshRow.Renews editedRow (rowInstance.setArg "length" 4) where
  schema := turns_readRow.schema.symm
  files := turns_readRow.files.symm
  maxElements := congrArg Limits.maxElements turns_readRow.limits.symm
  unknown _ := rfl
  placed := ⟨2, rfl⟩

/-- The mark of the row that has been edited is the one of the fresh row. -/
theorem same_as_fresh_editedRow : editedRow.Consulted false 1 ∧
    (((Inquiry.intValue 2 0).ask rowInstance.ref false).runIn editedRow).1 = .ok (68 : Int64) ∧
    (((Inquiry.intValue 2 0).ask rowInstance.ref false).runIn editedRow).1 =
      (((Inquiry.intValue 2 0).ask rowInstance.ref false).runIn freshRow).1 := by
  obtain ⟨⟨hresult, hrefused⟩, ⟨_, hrefused'⟩, _⟩ := answers_editedRow
  have hconsulted := consulted_editedRow false
  have hsame := hconsulted.same_as_fresh (by decide) find?_editedRow renews_freshRow (.intValue 2 0)
    hrefused hrefused'
  exact ⟨hconsulted, congrArg Prod.fst (runIn_of_toOption hresult), hsame⟩

/-- The length of the text is told lazily after the edit as well. -/
theorem lazy_as_fresh_editedRow : editedRow.Consulted false 1 ∧
    ((((Inquiry.totalSize 1).ask rowInstance.ref true).runIn editedRow).1 =
      .ok (some (3 : Int64))) ∧
    (((Inquiry.totalSize 1).ask rowInstance.ref false).runIn freshRow).1 =
      .ok (some (3 : Int64)) := by
  obtain ⟨_, _, ⟨hresult, hrefused⟩, ⟨_, hrefused'⟩⟩ := answers_editedRow
  have hconsulted := consulted_editedRow false
  have hrun : ((Inquiry.totalSize 1).ask (rowInstance.setArg "length" 4).ref true).runIn editedRow =
      (.ok (some (3 : Int64)), _) := runIn_of_toOption hresult
  have hlazy := hconsulted.lazy_as_fresh (by decide) find?_editedRow (.totalSize 1)
    (fun houtdated => nomatch houtdated.1) hrun hrefused
  have htells : (Inquiry.totalSize 1).Tells (some (3 : Int64)) := rfl
  exact ⟨hconsulted, congrArg Prod.fst hrun, hlazy.1 freshRow renews_freshRow htells hrefused'⟩

/-- The row after its fields have been laid out. -/
def laidOutRow : Workspace := (((Inquiry.isPresent 2).ask rowInstance.ref false).runIn withRow).2

/-- Then the limit admits no frame. -/
def shallowRow : Workspace := laidOutRow.setLimits { laidOutRow.limits with maxDepth := 0 }

/-- So the expression for the offset of the mark has no value. -/
def refusedRow : Workspace :=
  (((Inquiry.fieldOffset 2).ask rowInstance.ref false).runIn shallowRow).2

/-- Nothing is kept of the offset that was refused. -/
theorem answers_shallowRow : shallowRow.RowAnswers (.fieldOffset 2) false 1 none ∧
    refusedRow.layoutOf rowInstance.ref = shallowRow.layoutOf rowInstance.ref ∧
    (refusedRow.setLimits { refusedRow.limits with maxDepth := 64 }).RowAnswers (.intValue 2 0)
      false 0 (67 : Int64) := by
  decide +kernel

theorem turns_laidOutRow : withRow.Turns rowInstance.ref laidOutRow :=
  ((consulted_withRow true).truthful (by decide)).turns_ask find?_withRow (.isPresent 2)

theorem find?_shallowRow : shallowRow.find? 0 = some rowInstance :=
  turns_laidOutRow.find? 0

theorem consulted_shallowRow : shallowRow.Consulted true 0 := by
  obtain ⟨hresult, hrefused⟩ := answers_withRow.2
  exact ((consulted_withRow true).askRow find?_withRow hresult
    fun hne => absurd hrefused hne).setMaxDepth 0

theorem turns_refusedRow : shallowRow.Turns rowInstance.ref refusedRow :=
  (consulted_shallowRow.truthful (by decide)).turns_ask find?_shallowRow (.fieldOffset 2)

theorem consulted_refusedRow : refusedRow.Consulted true 0 := by
  obtain ⟨⟨hresult, _⟩, hlayout, _⟩ := answers_shallowRow
  exact consulted_shallowRow.askRow find?_shallowRow hresult
    fun _ => ⟨rfl, .of_layoutOf hlayout turns_refusedRow.stampNow?⟩

theorem renews_withRow : withRow.Renews refusedRow rowInstance := by
  refine ⟨?_, ?_, ?_, fun _ => rfl, 1, find?_withRow⟩
  · exact (turns_refusedRow.schema.trans turns_laidOutRow.schema).symm
  · exact (turns_refusedRow.files.trans turns_laidOutRow.files).symm
  · have hlimit : withRow.limits.maxElements = laidOutRow.limits.maxElements :=
      congrArg Limits.maxElements turns_laidOutRow.limits.symm
    rw [turns_refusedRow.limits, hlimit]
    rfl

/-- With frames again the mark is the one of the fresh row. -/
theorem same_after_refusals_refusedRow : refusedRow.Consulted true 0 ∧
    refusedRow.refusals = shallowRow.refusals + 1 ∧
    (((Inquiry.intValue 2 0).ask rowInstance.ref false).runIn
      (refusedRow.setLimits { refusedRow.limits with maxDepth := 64 })).1 =
        (((Inquiry.intValue 2 0).ask rowInstance.ref false).runIn withRow).1 := by
  obtain ⟨⟨_, hrefusals⟩, _, _, hrefused⟩ := answers_shallowRow
  have hfind : refusedRow.find? 0 = some rowInstance :=
    (turns_refusedRow.find? 0).trans find?_shallowRow
  exact ⟨consulted_refusedRow, hrefusals, consulted_refusedRow.same_after_refusals (by decide)
    hfind renews_withRow (.intValue 2 0) 64 hrefused answers_withRow.1.2⟩

end Workspace

end ByteAtlas
