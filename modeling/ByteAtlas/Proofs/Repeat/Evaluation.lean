import ByteAtlas.Proofs.Directory.Roll
import ByteAtlas.Proofs.Resolve.Walks
import ByteAtlas.Proofs.Repeat.Walks

/-!
# Expressions repeat themselves

From questions about fields and walks it goes to queries, from there to expressions, because it is a
law (`Law.repeats`), and to resolvers with any number of frames left (`Resolver.repeating_within`).
A query for all instances of a struct finds the same ones again if none has become new, and a query
for children finds those that it has placed.

Whoever has the text of an expression evaluated twice gets the same value under these conditions
(`Workspace.Reached.evaluate_again`), and may get two values without any of them
(`Workspace.answers_differ`).
-/

namespace ByteAtlas

open Resolve (Ends Repeats RepeatsIf)

/-- **The instances of a struct of which none has become new.** -/
theorem Workspace.Later.instancesOf {once : Prop} {seen : String → Prop} {ws ws' : Workspace}
    (h : ws.Later seen ws') (hs : ws.Sound once) (hs' : ws'.Sound once) {struct : String}
    (hseen : seen struct) (file : Option FileId) :
    (ws'.directory.instancesOf struct file).map Instance.ref =
      (ws.directory.instancesOf struct file).map Instance.ref := by
  have hpair {w : Workspace} (hw : w.Sound once) :
      ((w.directory.instancesOf struct file).map Instance.ref).Pairwise fun a b => a.id < b.id :=
    List.pairwise_map.mpr (hw.directory.pairwise_toList.filter _)
  have hmem {w : Workspace} (hw : w.Sound once) (r : InstanceRef) :
      r ∈ (w.directory.instancesOf struct file).map Instance.ref ↔
        w.IsLive r ∧ r.struct = struct ∧ file.all (r.file == ·) := by
    simp only [Directory.instancesOf, List.mem_map, List.mem_filter, Bool.and_eq_true, beq_iff_eq,
      hw.directory.mem_toList]
    constructor
    · rintro ⟨i, ⟨hi, hstruct, hfile⟩, rfl⟩
      exact ⟨⟨i, hi, rfl⟩, hstruct, hfile⟩
    · rintro ⟨⟨i, hi, rfl⟩, hstruct, hfile⟩
      exact ⟨i, ⟨hi, hstruct, hfile⟩, rfl⟩
  refine (hpair hs').eq_of_mem_iff (hpair hs) fun r => ?_
  rw [hmem hs', hmem hs]
  refine ⟨fun hthere => ⟨?_, hthere.2⟩, fun hthere => ⟨h.isLive hthere.1, hthere.2⟩⟩
  obtain ⟨⟨i, hi, rfl⟩, hrest⟩ := hthere
  cases hold : ws.find? i.ref.id with
  | none =>
    have hstruct : i.struct = struct := hrest.1
    exact absurd (hstruct ▸ hseen) (h.unseen _ i hi hold)
  | some j =>
    obtain ⟨i', hi', hsame⟩ := h.instances _ j hold
    rw [hi] at hi'
    cases hi'
    exact ⟨j, hold, hsame.ref.symm⟩

namespace Resolver.Repeating

variable {once : Prop} {schema : Schema} {seen : String → Prop} {resolver : Resolver}
  (h : resolver.Repeating once schema seen)

section

variable {ws : Workspace} (hc : ws.Calm once schema) {r : InstanceRef} (hr : ws.IsLive r)
include h hc hr

/-! ## 1. Conditions -/

theorem matchesTexts {d : StructDef} (hd : ws.structOf? r = some d) (cs : List TextCondition) :
    Repeats once schema seen ws (resolver.matchesTexts r d cs) fun _ _ => True := by
  induction cs generalizing ws with
  | nil => exact .pure hc trivial
  | cons c cs ih =>
    unfold Resolver.matchesTexts
    split
    · exact .pure hc trivial
    · rename_i i hi
      obtain ⟨f, hf⟩ := StructDef.field?_of_fieldIndex? hi
      refine .bind (h.fieldPreview hc hr ((Workspace.fieldOf?_eq hd i).trans hf))
        fun preview ws₁ hc₁ hg₁ _ => ?_
      split
      · exact ih hc₁ (hg₁.isLive hr) ((hg₁.structOf? r).trans hd)
      · exact .pure hc₁ trivial

theorem matchesValues {d : StructDef} (hd : ws.structOf? r = some d) (cs : List ValueCondition) :
    Repeats once schema seen ws (resolver.matchesValues r d cs) fun _ _ => True := by
  induction cs generalizing ws with
  | nil => exact .pure hc trivial
  | cons c cs ih =>
    unfold Resolver.matchesValues
    refine .bind (h.namedValue hc hr hd c.name) fun value ws₁ hc₁ hg₁ _ => ?_
    split
    · exact ih hc₁ (hg₁.isLive hr) ((hg₁.structOf? r).trans hd)
    · exact .pure hc₁ trivial

theorem meets (filter : QueryFilter) :
    Repeats once schema seen ws (resolver.meets r filter) fun _ _ => True := by
  unfold Resolver.meets
  split
  · exact .pure hc trivial
  · refine .ask (fun w _ hlater => hlater.structOf? r) ?_
    cases hd : ws.structOf? r with
    | none => exact .pure hc trivial
    | some d =>
      refine .bind (h.matchesTexts hc hr hd filter.texts) fun met ws₁ hc₁ hg₁ _ => ?_
      split
      · exact h.matchesValues hc₁ (hg₁.isLive hr) ((hg₁.structOf? r).trans hd) filter.values
      · exact .pure hc₁ trivial

end

/-! ## 2. Children -/

include h

/-- Each child is asked for the conditions only. -/
theorem repeating_gatherMeeting (filter : QueryFilter) :
    (resolver.gatherMeeting filter).Repeating once schema seen where
  repeats found hc hr := by
    unfold Resolver.gatherMeeting
    split
    · exact .pure hc trivial
    · refine .bind (h.meets hc hr filter) fun met ws₁ hc₁ _ _ => ?_
      split
      · exact .pure hc₁ trivial
      · exact .pure hc₁ trivial
  onlyAdds found hclosed hasked := .ite (fun _ => .done) fun _ =>
    .bind (((h.onlyAdds hclosed).answers hasked).meets filter) fun _ _ =>
      .ite (fun _ => .done) fun _ => .done

theorem gatherFrom {ws : Workspace} (hc : ws.Calm once schema) {r : InstanceRef}
    (hr : ws.IsLive r) (field : String) (filter : QueryFilter) (found : List InstanceRef) :
    Repeats once schema seen ws (resolver.gatherFrom field filter r found) fun _ _ => True := by
  unfold Resolver.gatherFrom
  refine .ask (fun w _ hlater => hlater.structOf? r) ?_
  split
  · exact .pure hc trivial
  · rename_i i hi
    obtain ⟨d, hd, hi⟩ := Option.bind_eq_some_iff.mp hi
    obtain ⟨f, hfield⟩ := StructDef.field?_of_fieldIndex? hi
    have hf := (Workspace.fieldOf?_eq hd i).trans hfield
    refine .ask (fun w _ hlater => by rw [Workspace.holdsChildren, hlater.fieldOf?]; rfl) ?_
    split
    · refine .bind (h.isPresent hc hr hf) fun present ws₁ hc₁ hg₁ _ => ?_
      split
      · exact .bind (h.walk hc₁ (hg₁.isLive hr) ((hg₁.fieldOf? r i).trans hf)
          (h.repeating_gatherMeeting filter) none .query found) fun _ _ hc₂ _ _ => .pure hc₂ trivial
      · exact .pure hc₁ trivial
    · exact .pure hc trivial

/-! ## 3. Names -/

section

variable {ws : Workspace} (hc : ws.Calm once schema) {r : InstanceRef} (hr : ws.IsLive r)
include hc hr

theorem lookup (scope : Scope) (name : String) (index : Int64) (isOffset : Bool) :
    Repeats once schema seen ws (resolver.lookup scope r name index isOffset) fun _ _ => True := by
  unfold Resolver.lookup
  refine .ask (fun w _ hlater => hlater.argOf? hr name) ?_
  split
  · exact .pure hc trivial
  · refine .ask (fun w _ hlater => hlater.structOf? r) ?_
    cases hd : ws.structOf? r with
    | none => exact .pure hc trivial
    | some d =>
      dsimp only
      split
      · exact .pure hc trivial
      · rename_i i hi
        obtain ⟨f, hfield⟩ := StructDef.field?_of_fieldIndex? hi
        have hf := (Workspace.fieldOf?_eq hd i).trans hfield
        split
        · exact .pure hc trivial
        · split
          · exact h.valueOffset hc hr hf _
          · exact .map (h.intValue hc hr hf _)

theorem namedPreview (scope : Scope) (name : String) :
    Repeats once schema seen ws (resolver.namedPreview scope r name) fun _ _ => True := by
  unfold Resolver.namedPreview
  refine .ask (fun w _ hlater => hlater.structOf? r) ?_
  split
  · exact .pure hc trivial
  · rename_i i hi
    obtain ⟨d, hd, hi⟩ := Option.bind_eq_some_iff.mp hi
    obtain ⟨f, hfield⟩ := StructDef.field?_of_fieldIndex? hi
    split
    · exact .pure hc trivial
    · exact .map (h.fieldPreview hc hr ((Workspace.fieldOf?_eq hd i).trans hfield))

end

end Resolver.Repeating

/-! ## 4. Expressions -/

/-- **Repeating itself is a law**, as long as only structs are asked for of which no instance
becomes new. -/
def Law.repeats (once : Prop) (schema : Schema) (seen : String → Prop) :
    Law Resolve InstanceRef Workspace where
  Holds ws step _ tells := ws.Calm once schema →
    Repeats once schema seen ws step fun a ws' => ws'.AllLive (tells a)
  Later := Workspace.Grows
  Found := Workspace.IsLive
  Asked := seen
  stays := @Workspace.Grows.live
  pure hfound hc := .pure hc hfound
  bind h hn hc := .bind (h hc) fun a _ hc₁ hg₁ ha => hn a _ hg₁ ha hc₁

namespace Resolver.Repeating

variable {once : Prop} {schema : Schema} {seen : String → Prop} {resolver : Resolver}
  (h : resolver.Repeating once schema seen)
include h

theorem searches : (Law.repeats once schema seen).Searches resolver resolver where
  read file offset length hc := .asked hc .none fun w _ hlater => by
    rw [Workspace.read, Workspace.file?, hlater.files]
    rfl
  instances file hseen hc := .asked hc (hc.sound.allLive_instancesOf _ file) fun w hw hlater => by
    rw [hlater.instancesOf hc.sound hw.sound hseen file]
  lookup scope name index isOffset hr hc := (h.lookup hc hr scope name index isOffset).mono
    fun _ _ _ _ _ => .none
  preview scope name hr hc := (h.namedPreview hc hr scope name).mono fun _ _ _ _ _ => .none
  meets filter hr hc := (h.meets hc hr filter).mono fun _ _ _ _ _ => .none
  gather field filter hr hfound hc := (h.gatherFrom hc hr field filter _).withPost
    (h.reliable.searches.gather field filter hr hfound hc.sound)

/-- **Evaluating for a live instance** repeats itself. -/
theorem evaluateIn {ws : Workspace} (hc : ws.Calm once schema) (scope : Scope)
    (hr : ws.IsLive scope.root) (expr : Expr) (hq : ∀ struct ∈ expr.queried, seen struct) :
    Repeats once schema seen ws (resolver.evaluateIn scope expr) fun _ _ => True :=
  ((h.searches.environment scope).evaluate expr (List.forall_mem_singleton.mpr hr) hq hc).mono
    fun _ _ _ _ _ => trivial

end Resolver.Repeating

/-- **Evaluating repeats itself**, with any number of frames left. -/
theorem Resolver.repeating_within {once : Prop} {schema : Schema} {seen : String → Prop}
    (hasks : ∀ {struct : String}, schema.AsksFor struct → seen struct) (frames : Nat) :
    (Resolver.within frames).Repeating once schema seen := by
  induction frames with
  | zero =>
    refine ⟨reliable_within 0, fun hclosed => onlyAdds_within hclosed 0, hasks, ?_⟩
    exact fun _ _ hc _ _ => .of_refused hc (.call (ends_refuseFrame hc.sound)
      fun _ _ hs hg hlt => .pure hs hg hlt)
  | succ frames ih =>
    refine ⟨reliable_within _, fun hclosed => onlyAdds_within hclosed _, hasks, ?_⟩
    exact fun scope expr hc hr hq => .inFrame hc fun depth =>
      ih.evaluateIn (hc.setDepth depth) scope hr expr hq

namespace Workspace

/-! ## 5. Asking twice -/

/-- **Whether the text of an expression has these values** when it is evaluated twice in a row. -/
def Answers (ws : Workspace) (r : InstanceRef) (source : String) (first second : Int64) : Prop :=
  ∃ ws', (r.evaluate source).runIn ws = (.ok first, ws') ∧
    ((r.evaluate source).runIn ws').1 = .ok second

/-- **After every history an expression has the same value twice**, if evaluating it for the first
time is refused no frame and adds no instance of a struct that it asks for by name, or that the
expressions of the schema ask for; and if the schema makes sure that chains go on as their counts
say, which excludes chains whose children get an argument that is taken from a field
(`Field.ChainKept`). -/
theorem Reached.evaluate_again {ws : Workspace} {n : Nat} {edited : Bool}
    (h : ws.Reached n edited) {r : InstanceRef} (hr : ws.IsLive r) (source : String) :
    ∃ value ws', (r.evaluate source).runIn ws = (.ok value, ws') ∧
      (ws'.refusals = ws.refusals →
        (∀ id i, ws'.find? id = some i → ws.find? id = none →
          i.struct ∉ (Expr.compile source).tree.queried ∧ ¬ ws.schema.AsksFor i.struct) →
        ws'.ChainsKept → ws.Answers r source value value) := by
  have hc : ws.Calm (n < Schema.versionLimit) ws.schema :=
    ⟨h.atRest.sound, h.atRest.idle, rfl⟩
  let seen (struct : String) : Prop :=
    struct ∈ (Expr.compile source).tree.queried ∨ ws.schema.AsksFor struct
  have hres : (Resolver.within (ws.limits.maxDepth - ws.depth)).Repeating
      (n < Schema.versionLimit) ws.schema seen :=
    Resolver.repeating_within .inr _
  obtain ⟨value, ws', hrun, hc', hg, _, hagain⟩ :=
    hres.evaluateIn hc (.whole r) hr (Expr.compile source).tree fun _ hq => .inl hq
  have hfirst : (r.evaluate source).runIn ws = (.ok value, ws') := by
    rw [InstanceRef.evaluate, Resolve.runIn_resolving _ rfl]
    exact hrun
  refine ⟨value, ws', hfirst, fun hquiet hnew hkept => ⟨ws', hfirst, ?_⟩⟩
  obtain ⟨ws'', hrun', _⟩ := hagain ⟨hg, hquiet, fun id i hi hnone hseen =>
    hseen.elim (hnew id i hi hnone).1 (hnew id i hi hnone).2⟩ hkept ws' hc' (.refl _ ws') trivial
  rw [InstanceRef.evaluate, Resolve.runIn_resolving _ (by rw [hg.limits, hg.depth]), hrun']

/-- A struct of one character. -/
def stripCell : StructDef :=
  { StructDef.empty with
    size := 1
    fields := ⟨[("v", .ofType (.scalar .char))], by decide⟩ }

/-- A struct of two of them and a mark, of which the first cell says where it is. -/
def strip : StructDef :=
  { StructDef.empty with
    size := 2
    fields := ⟨[("cells", { Field.ofType (.struct "Cell") with count := 2 }),
      ("mark", { Field.ofType (.scalar .char) with
        offsetFormula := some ⟨"cells.v + 1", .binary .add
          (.member (some (.sub none "cells" (.mk [] [] none))) "v" none false) (.constant 1),
          by cbv⟩ })], by decide⟩ }

def stripSchema : Schema :=
  ⟨((∅ : Std.TreeMap String StructDef).insert "Strip" strip).insert "Cell" stripCell, 0⟩

/-- An instance of it. -/
def stripRef : InstanceRef := ⟨0, ⟨"Strip", 0, 0⟩⟩

/-- A workspace with this instance. -/
def withStrip (limits : Limits) : Workspace :=
  ((ofSchema stripSchema limits).place (.single stripRef.location .user)).2

theorem mem_stripSchema {name : String} {d : StructDef} (hd : stripSchema.get? name = some d) :
    (name = "Cell" ∧ d = stripCell) ∨ (name = "Strip" ∧ d = strip) := by
  have hmem := Std.TreeMap.mem_toList_iff_getElem?_eq_some.mpr hd
  have hlist : stripSchema.structs.toList = [("Cell", stripCell), ("Strip", strip)] := rfl
  rw [hlist] at hmem
  rcases List.mem_cons.mp hmem with h | h
  · cases h
    exact .inl ⟨rfl, rfl⟩
  · cases List.mem_singleton.mp h
    exact .inr ⟨rfl, rfl⟩

theorem reached_withStrip {limits : Limits} (hlimit : 0 ≤ limits.maxElements) :
    (withStrip limits).Reached 0 false := by
  refine .request (.start (.read rfl fun name d hd => ?_) trivial hlimit) (.place _)
  rcases mem_stripSchema hd with ⟨_, rfl⟩ | ⟨_, rfl⟩ <;> rfl

/-- Nothing is asked for by name in it. -/
theorem not_asksFor_stripSchema (struct : String) : ¬ stripSchema.AsksFor struct := by
  rintro ⟨name, d, f, formula, hd, hf, hformula, hq⟩
  rcases mem_stripSchema hd with ⟨_, rfl⟩ | ⟨_, rfl⟩
  · cases List.mem_singleton.mp hf
    cases hformula
  · rcases List.mem_cons.mp hf with rfl | hf
    · cases hformula
    · cases List.mem_singleton.mp hf
      cases List.mem_singleton.mp hformula
      simp [Expr.queried, Query.queried, Filters.queried, valuesQueried] at hq

/-- Cells lead to no cells, so nothing is placed again in a strip. -/
theorem chainsKept_of_stripSchema {ws : Workspace} (hs : ws.schema = stripSchema) :
    ws.ChainsKept := by
  have happart : stripSchema.Apart "Cell" := by
    refine ⟨(· = "Cell"), fun _ => False, ⟨False.elim, fun hname hd hf htype => ?_,
      fun hname hd hf hformula _ => ?_⟩, rfl, id⟩
    all_goals
      subst hname
      cases hd
      cases List.mem_singleton.mp hf
    · cases htype
    · cases hformula
  intro r d i f e struct count _ hd _ hf _ _ _ _ htype _
  rw [structOf?, hs] at hd
  have hf := List.mem_of_getElem? hf
  rw [hs]
  rcases mem_stripSchema hd with ⟨_, rfl⟩ | ⟨_, rfl⟩
  · cases List.mem_singleton.mp hf
    cases htype
  · rcases List.mem_cons.mp hf with rfl | hf
    · cases htype
      exact ⟨happart, fun b hb => by cases hb⟩
    · cases List.mem_singleton.mp hf
      cases htype

/-- The second cell of a strip is the same one twice. -/
theorem evaluate_again_withStrip : (withStrip .default).Reached 0 false ∧
    (withStrip .default).find? 2 = none ∧
    (withStrip .default).Answers stripRef "$iid(cells[#=1])" 2 2 := by
  have htree : (Expr.compile "$iid(cells[#=1])").tree =
      .instanceId (some (.sub none "cells" (.mk [] [] (some (.constant 1))))) := by
    cbv
  have hreached : (withStrip .default).Reached 0 false := reached_withStrip (by decide)
  have hvalue : ((stripRef.evaluate "$iid(cells[#=1])").runIn (withStrip .default)).1 =
      .ok 2 := by
    rw [InstanceRef.evaluate, htree]
    cbv
  have hrefusals : ((stripRef.evaluate "$iid(cells[#=1])").runIn (withStrip .default)).2.refusals =
      (withStrip .default).refusals := by
    rw [InstanceRef.evaluate, htree]
    decide +kernel
  obtain ⟨value, ws', hrun, hagain⟩ := hreached.evaluate_again (r := stripRef) ⟨_, rfl, rfl⟩
    "$iid(cells[#=1])"
  obtain ⟨_, hg, _⟩ := (Resolve.ends_resolving fun _ hres =>
    hres.evaluateIn hreached.atRest.sound (.whole stripRef) ⟨_, rfl, rfl⟩ _).of_run hrun
  rw [hrun] at hvalue hrefusals
  cases hvalue
  refine ⟨hreached, rfl, hagain hrefusals (fun id i _ _ => ⟨?_, not_asksFor_stripSchema _⟩)
    (chainsKept_of_stripSchema hg.schema)⟩
  rw [htree]
  simp [Expr.queried, Query.queried, Filters.queried, valuesQueried]

/-- An expression may have two values: one that asks for cells before it has them placed, one for
which there are frames only once a part of it is known, and one that makes a chain longer because
the size of the child that ended it is known. -/
theorem answers_differ :
    ((withStrip .default).Reached 0 false ∧ (withStrip .default).IsLive stripRef ∧
      (withStrip .default).Answers stripRef "$iid(#Cell) + cells.v * 0" (-1) 1) ∧
    ((withStrip { Limits.default with maxDepth := 1 }).Reached 0 false ∧
      (withStrip { Limits.default with maxDepth := 1 }).IsLive stripRef ∧
      (withStrip { Limits.default with maxDepth := 1 }).Answers stripRef "@mark + cells.v * 0" 0
        1) ∧
    (withTable.Reached 0 false ∧ withTable.IsLive tableRef ∧
      withTable.Answers tableRef "$iid(cells[#id=2])" (-1) 2) := by
  have hanswers {ws : Workspace} {r : InstanceRef} {source : String} {first second : Int64}
      {tree : Expr} (htree : (Expr.compile source).tree = tree)
      (hfirst : ((Scope.evaluate (.whole r) tree).runIn ws).1 = .ok first)
      (hsecond : ((Scope.evaluate (.whole r) tree).runIn
        ((Scope.evaluate (.whole r) tree).runIn ws).2).1 = .ok second) :
      ws.Answers r source first second := by
    subst htree
    exact ⟨_, Prod.ext hfirst rfl, hsecond⟩
  have hasked : (Expr.compile "$iid(#Cell) + cells.v * 0").tree =
      .binary .add (.instanceId (some (.root "Cell" false (.mk [] [] none)))) (.binary .mul
        (.member (some (.sub none "cells" (.mk [] [] none))) "v" none false) (.constant 0)) := by
    cbv
  have hrefused : (Expr.compile "@mark + cells.v * 0").tree =
      .binary .add (.member none "mark" none true) (.binary .mul
        (.member (some (.sub none "cells" (.mk [] [] none))) "v" none false) (.constant 0)) := by
    cbv
  have hchain : (Expr.compile "$iid(cells[#id=2])").tree =
      .instanceId (some (.sub none "cells" (.mk [] [("id", .constant 2)] none))) := by
    cbv
  refine ⟨⟨reached_withStrip (by decide), ⟨_, rfl, rfl⟩, hanswers hasked ?_ ?_⟩,
    ⟨reached_withStrip (by decide), ⟨_, rfl, rfl⟩, hanswers hrefused ?_ ?_⟩,
    ⟨.request (.start made_tableSchema trivial (by decide)) (.place _), ⟨_, rfl, rfl⟩,
      hanswers hchain ?_ ?_⟩⟩
  · decide +kernel
  · decide +kernel
  · decide +kernel
  · decide +kernel
  · decide +kernel
  · decide +kernel

end Workspace

end ByteAtlas
