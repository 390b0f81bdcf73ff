import ByteAtlas.Proofs.Repeat.Fields

/-!
# Walks repeat themselves

A walk that is repeated finds the children where it has placed them. The first of a chain gets the
budget of the field once more, and each of the others the one that is left by the one before it. So
the chain is as long as before if no child lost its budget between being placed and being gone on
from, neither the first time nor later: what is asked about it must not have it placed again
(`Schema.Apart`).
-/

namespace ByteAtlas

open Resolve (Ends Repeats RepeatsIf)

/-! ## 1. Budgets -/

namespace Workspace

variable {once : Prop} {schema : Schema} {ws ws' : Workspace} {r : InstanceRef}

/-- The budget of an instance. -/
def budgetOf? (ws : Workspace) (r : InstanceRef) : Option Budget :=
  (ws.find? r.id).map fun i => i.budget

/-- What is placed has the budget that it is placed with. -/
theorem budgetOf?_place (hw : ws.directory.WellFormed) (p : Placement) :
    (ws.place p).2.budgetOf? (ws.place p).1.ref = some p.budget := by
  cases hp : ws.directory.findAt? p.location with
  | some i =>
    obtain ⟨hi, _⟩ := hw.findAt?_eq_some.mp hp
    rw [Workspace.place, Directory.add_of_taken hp]
    show ((ws.directory.modify i.id _).find? i.id).map _ = _
    rw [Directory.find?_modify, if_pos rfl, hi]
    rfl
  | none =>
    have hfree := hw.findAt?_eq_none hp
    rw [Workspace.place, (Directory.add_of_free hfree).1]
    show ((ws.directory.add p).2.find? ws.directory.nextId).map _ = _
    rw [Directory.find?_add_of_free hp, if_pos rfl]
    rfl

/-- **What has been placed is found** when it is placed again. -/
theorem place_again (hw : ws.directory.WellFormed) (hr : ws.IsLive r) {p : Placement}
    (hl : r.location = p.location) :
    ws.place p = (⟨r, false⟩, ws.modify r.id (Instance.merge p.reason p.budget)) := by
  obtain ⟨i, hi, rfl⟩ := hr
  rw [Workspace.place, Directory.add_of_taken (hw.findAt?_eq_some.mpr ⟨hi, hl⟩)]
  rfl

/-- No instance is new then. -/
theorem learns_place_again (hs : ws.Sound once) (hr : ws.IsLive r) {p : Placement}
    (hl : r.location = p.location) : ws.Learns (ws.place p).2 := by
  refine ⟨(hs.place p).2.1, rfl, fun id i hi hnone => ?_⟩
  rw [place_again hs.directory hr hl, find?_modify] at hi
  split at hi
  · rename_i he
    rw [he, hnone] at hi
    cases hi
  · rw [hnone] at hi
    cases hi

/-- Arguments have nothing to do with the budget. -/
theorem budgetOf?_bindArgs (ws : Workspace) (id : InstanceId) (args : List Arg) (r : InstanceRef) :
    (ws.modify id (Instance.bindArgs args)).budgetOf? r = ws.budgetOf? r := by
  rw [budgetOf?, find?_modify, budgetOf?]
  split
  · rename_i he
    rw [he]
    cases ws.find? r.id <;> rfl
  · rfl

/-- The next instance of a chain is placed as before if the budget is as before. -/
theorem SameInstance.nextPlacement {i j : Instance} (h : SameInstance i j)
    (hb : j.budget = i.budget) (size : Int64) (reason : Reason) :
    j.budgetAfter size = i.budgetAfter size ∧
      Resolver.nextPlacement j size reason = Resolver.nextPlacement i size reason := by
  have hi : i = { j with reason := i.reason } := by
    rw [SameInstance, ← hb] at h
    exact h.symm
  rw [hi]
  exact ⟨rfl, rfl⟩

/-- Two instances with a budget have the same one. -/
theorem find?_of_budgetOf? (h : ws'.budgetOf? r = ws.budgetOf? r) (hg : ws.Grows ws')
    {i : Instance} (hi : ws.find? r.id = some i) :
    ∃ j, ws'.find? r.id = some j ∧ SameInstance i j ∧ j.budget = i.budget := by
  obtain ⟨j, hj, hsame⟩ := hg.instances r.id i hi
  rw [budgetOf?, hj, budgetOf?, hi] at h
  exact ⟨j, hj, hsame, Option.some.inj h⟩

end Workspace

namespace Resolve

variable {once : Prop} {schema : Schema} {seen : String → Prop} {α : Type} {ws : Workspace}
  {step : Resolve α} {post : α → Workspace → Prop} {r : InstanceRef}

/-- **What is asked about an instance apart** leaves the budget of the instance alone, the first
time and later. -/
theorem Repeats.keepBudget (h : Repeats once schema seen ws step post)
    (hc : ws.Calm once schema) (hr : ws.IsLive r)
    (hadds : ∀ {asked placed : String → Prop}, schema.Closed asked placed → asked r.struct →
      Resolve.OnlyAdds schema .query placed step fun _ => True) :
    RepeatsIf once schema seen ws
      (fun w => schema.Apart r.struct ∧ w.budgetOf? r = ws.budgetOf? r) step post
      fun _ ws' w' => schema.Apart r.struct ∧ w'.budgetOf? r = ws'.budgetOf? r := by
  have hkeep {w w' : Workspace} {a : α} (happart : schema.Apart r.struct)
      (hw : w.Calm once schema) (hlive : w.IsLive r) (hrun : step.runIn w = (.ok a, w')) :
      w'.budgetOf? r = w.budgetOf? r := by
    obtain ⟨asked, placed, hclosed, hasked, hnot⟩ := happart
    obtain ⟨i, hi, rfl⟩ := hlive
    have hadds := (hadds hclosed hasked w hw.sound.directory hw.schema).1
    rw [hrun] at hadds
    obtain ⟨i', hi', _, hsame⟩ := hadds.kept _ i hi
    rw [Workspace.budgetOf?, hi', hsame hnot, Workspace.budgetOf?, hi]
  obtain ⟨a, ws', hrun, hc', hg, hpost, hagain⟩ := h
  refine ⟨a, ws', hrun, hc', hg, hpost, fun hlater hkept w hw hlater' ⟨happart, hbudget⟩ => ?_⟩
  obtain ⟨w', hw', hcw', hlearns, _⟩ := hagain hlater hkept w hw hlater' trivial
  refine ⟨w', hw', hcw', hlearns, happart, ?_⟩
  rw [hkeep happart hw (hlater'.isLive (hlater.isLive hr)) hw', hbudget,
    hkeep happart hc hr hrun]

/-- **Placing an instance.** When that is repeated the instance is there, so what only a new one
takes is left out. -/
theorem RepeatsIf.place {p : Placement} {next : Directory.Added → Resolve InstanceRef}
    (hc : ws.Calm once schema) {same : Workspace → Prop} {fact : Prop}
    {last : InstanceRef → Workspace → Prop} (hfact : ∀ w, same w → fact)
    (hagain : ∀ child, next ⟨child, false⟩ = Pure.pure child)
    (hnext : ∀ added ws₁, ws₁.Sound once → ws.Grows ws₁ → ws₁.IsLive added.ref →
      (added.inserted = true → ws.find? added.ref.id = none) →
      ws₁.budgetOf? added.ref = some p.budget → Ends once ws (next added) ws₁ fun child ws' =>
        child = added.ref ∧ ws'.IsLive child ∧ last child ws') :
    RepeatsIf once schema seen ws same (Resolve.update (fun ws => ws.place p) >>= next)
      (fun child ws' => ws'.IsLive child ∧ child.location = p.location ∧ last child ws')
      fun child _ w' => fact ∧ w'.budgetOf? child = some p.budget := by
  obtain ⟨hs₁, hg₁, hlive₁, hl, hnew⟩ := hc.sound.place p
  obtain ⟨child, ws', hrun, hs, hg, rfl, hlive, hlast⟩ := hnext _ _ hs₁ hg₁ hlive₁ hnew
    (Workspace.budgetOf?_place hc.sound.directory p)
  refine ⟨_, ws', hrun, hc.grows hs hg, hg, ⟨hlive, hl, hlast⟩, fun _ _ w hw hlater hsame => ?_⟩
  have hfound := Workspace.place_again hw.sound.directory (hlater.isLive hlive) hl
  have hlearns := Workspace.learns_place_again hw.sound (hlater.isLive hlive) hl
  have hbudget := Workspace.budgetOf?_place hw.sound.directory p
  rw [hfound] at hbudget
  refine ⟨(w.place p).2, ?_, hw.grows (hw.sound.place p).1 hlearns.toGrows, hlearns,
    hfact w hsame, ?_⟩
  · rw [Resolve.runIn_bind, Resolve.runIn_update, hfound]
    dsimp only
    rw [hagain]
    rfl
  · rw [hfound]
    exact hbudget

end Resolve

/-- **Whether a visitor repeats itself**, and only adds what the children lead to. -/
structure Visitor.Repeating (once : Prop) (schema : Schema) (seen : String → Prop) {σ : Type}
    (visit : Visitor σ) : Prop where
  repeats : ∀ {ws : Workspace} {child : InstanceRef} (s : σ), ws.Calm once schema →
    ws.IsLive child → Repeats once schema seen ws (visit s child) fun _ _ => True
  onlyAdds : ∀ {asked placed : String → Prop} {child : InstanceRef} (s : σ),
    schema.Closed asked placed → asked child.struct →
    Resolve.OnlyAdds schema .query placed (visit s child) fun _ => True

namespace Resolver.Repeating

variable {once : Prop} {schema : Schema} {seen : String → Prop} {resolver : Resolver}
  (h : resolver.Repeating once schema seen) {ws : Workspace} (hc : ws.Calm once schema)
  {r : InstanceRef} (hr : ws.IsLive r)
include h hc hr

/-! ## 2. Sizes and chains -/

theorem size : Repeats once schema seen ws (resolver.size r false) fun _ _ => True := by
  obtain ⟨a, ws', hrun, hs, hg, _, _, _, hsome⟩ := h.reliable.size hc.sound hr false
  refine ⟨a, ws', hrun, hc.grows hs hg, hg, trivial, fun hlater _ w hw hlater' _ => ?_⟩
  obtain ⟨size, rfl⟩ := Option.ne_none_iff_exists'.mp (hsome rfl hlater.quiet (hc.idle r hr))
  exact ⟨w, h.reliable.runIn_size_again hc.sound hr hrun hlater'.toGrows, hw, .refl _ w, trivial⟩

/-- What is known of an instance apart, whose budget is the one that it has had. -/
theorem sizeApart : RepeatsIf once schema seen ws
    (fun w => schema.Apart r.struct ∧ w.budgetOf? r = ws.budgetOf? r) (resolver.size r false)
    (fun _ _ => True) fun _ ws' w' => schema.Apart r.struct ∧ w'.budgetOf? r = ws'.budgetOf? r :=
  (h.size hc hr).keepBudget hc hr fun hclosed hasked =>
      ((h.onlyAdds hclosed).answers hasked).size false

theorem canCreateNext : RepeatsIf once schema seen ws
    (fun w => schema.Apart r.struct ∧ w.budgetOf? r = ws.budgetOf? r)
    (resolver.canCreateNext r false false) (fun _ _ => True)
    fun _ ws' w' => schema.Apart r.struct ∧ w'.budgetOf? r = ws'.budgetOf? r := by
  unfold Resolver.canCreateNext
  refine .bind (h.sizeApart hc hr) fun size ws₁ hc₁ hg₁ _ => ?_
  cases size with
  | none => exact .pure hc₁ trivial fun _ _ hsame => hsame
  | some size =>
    refine .ask (fun w _ hlater ⟨_, hbudget⟩ => ?_) (.pure hc₁ trivial fun _ _ hsame => hsame)
    obtain ⟨i, hi, _⟩ := hg₁.isLive hr
    obtain ⟨j, hj, hsame, hb⟩ := Workspace.find?_of_budgetOf? hbudget hlater.toGrows hi
    rw [hi, hj]
    exact (hsame.nextPlacement hb size .query).1

/-- **The next instance of a chain** is found where it has been placed, and it has the budget again
that it was placed with. -/
theorem createNext (reason : Reason) : RepeatsIf once schema seen ws
    (fun w => schema.Apart r.struct ∧ w.budgetOf? r = ws.budgetOf? r)
    (resolver.createNext r reason)
    (fun a ws' => ∀ next, a = some next → ws'.IsLive next)
    fun a ws' w' => ∀ next, a = some next →
      schema.Apart next.struct ∧ w'.budgetOf? next = ws'.budgetOf? next := by
  unfold Resolver.createNext
  refine .bind (h.sizeApart hc hr) fun size ws₁ hc₁ hg₁ _ => ?_
  cases size with
  | none => exact .pure hc₁ (fun _ e => nomatch e) fun _ _ _ _ e => nomatch e
  | some size =>
    dsimp only
    split
    · exact .pure hc₁ (fun _ e => nomatch e) fun _ _ _ _ e => nomatch e
    · obtain ⟨i, hi, hir⟩ := hg₁.isLive hr
      refine .look (fun w _ hlater ⟨_, hbudget⟩ => ?_) ?_
      · obtain ⟨j, hj, hsame, hb⟩ := Workspace.find?_of_budgetOf? hbudget hlater.toGrows hi
        obtain ⟨hleft, hnext⟩ := hsame.nextPlacement hb size reason
        rw [hi, hj]
        simp only [hleft, hnext]
      · rw [hi]
        dsimp only
        split
        · exact .pure hc₁ (fun _ e => nomatch e) fun _ _ _ _ e => nomatch e
        · have hstruct : (nextPlacement i size reason).location.struct = r.struct := by
            rw [← hir]
            rfl
          generalize nextPlacement i size reason = p at hstruct ⊢
          have hplace : RepeatsIf once schema seen ws₁
              (fun w => schema.Apart r.struct ∧ w.budgetOf? r = ws₁.budgetOf? r)
              (do
                let added ← Resolve.update fun ws => ws.place p
                pure added.ref)
              (fun child ws' => ws'.IsLive child ∧ child.location = p.location ∧
                ws'.budgetOf? child = some p.budget)
              fun child _ w' => schema.Apart r.struct ∧ w'.budgetOf? child = some p.budget :=
            .place hc₁ (fun _ hsame => hsame.1) (fun _ => rfl)
              fun _ _ hs₂ hg₂ hlive _ hb => .pure hs₂ hg₂ ⟨rfl, hlive, hb⟩
          refine hplace.bind fun child ws₂ hc₂ _ ⟨hlive, hl, hb⟩ => .pure hc₂ ?_ ?_
          · rintro _ ⟨⟩
            exact hlive
          · rintro w _ ⟨happart, hbudget⟩ _ ⟨⟩
            rw [InstanceRef.struct, hl, hstruct, hbudget, hb]
            exact ⟨happart, rfl⟩

/-! ## 3. Children -/

/-- **A child that is placed** in a field. When that is repeated it has the budget of the field
again; the first time too, if its arguments are not taken from fields. -/
theorem placeChild {d : StructDef} (hd : ws.structOf? r = some d) (field : Field) (struct : String)
    (reason : Reason) (offset : Int64) (budget : Budget) (fact : Prop) :
    RepeatsIf once schema seen ws (fun _ => fact)
      (resolver.placeChild r field struct reason offset budget)
      (fun child ws' => ws'.IsLive child ∧ child.location = ⟨struct, r.file, offset⟩ ∧
        (field.PlainArgs d → ws'.budgetOf? child = some budget))
      fun child _ w' => fact ∧ w'.budgetOf? child = some budget := by
  unfold Resolver.placeChild
  refine .place hc (fun _ hsame => hsame) (fun _ => rfl) fun added ws₁ hs₁ hg₁ hlive hnew hb => ?_
  dsimp only
  split
  · rename_i hargs
    simp only [Bool.and_eq_true] at hargs
    have hkeeps := Workspace.keepsVersion_bindArgs
    have hvalues : Ends once ws₁ (resolver.argValues r field.args) ws₁
        fun _ ws₂ => field.PlainArgs d → ws₂ = ws₁ := by
      obtain ⟨args, ws₂, hrun, hs₂, hg₂, _⟩ :=
        (h.reliable.answers r).argValues field.args hs₁ (hg₁.isLive hr)
      refine ⟨args, ws₂, hrun, hs₂, hg₂, fun hplain => ?_⟩
      obtain ⟨_, hrun'⟩ :=
        resolver.runIn_argValues_of_plain ((hg₁.structOf? r).trans hd) field.args hplain
      rw [hrun] at hrun'
      cases hrun'
      rfl
    refine .call hvalues fun args ws₂ hs₂ hg₂ hsame => ?_
    refine .change (.pure (hs₂.modify (hkeeps args) _)
      ((hg₁.trans hg₂).modify_new (hkeeps args) (hnew hargs.1)) ⟨rfl, ?_, fun hplain => ?_⟩)
    · exact (Workspace.isLive_modify (hkeeps args).toKeepsPlace _).mpr (hg₂.isLive hlive)
    · rw [Workspace.budgetOf?_bindArgs, hsame hplain]
      exact hb
  · exact .pure hs₁ hg₁ ⟨rfl, hlive, fun _ => hb⟩

section

variable {σ : Type} {visit : Visitor σ} (hv : visit.Repeating once schema seen)
  (upTo : Option Nat) (reason : Reason)
include hv

omit hc hr in
/-- **The rest of a chain**, by induction on what is left of it. -/
theorem walkChain (left : Nat) : ∀ (n : Nat) (s : σ) {child : InstanceRef} {ws : Workspace},
    ws.Calm once schema → ws.IsLive child → RepeatsIf once schema seen ws
      (fun w => schema.Apart child.struct ∧ w.budgetOf? child = ws.budgetOf? child)
      (resolver.walkChain upTo reason visit left n s child) (fun _ _ => True)
      fun _ _ _ => True := by
  induction left with
  | zero => exact fun _ _ _ _ hc _ => .pure hc trivial fun _ _ _ => trivial
  | succ left ih =>
    intro n s child ws hc hlive
    unfold Resolver.walkChain
    split
    · exact .pure hc trivial fun _ _ _ => trivial
    · refine .bind (h.canCreateNext hc hlive) fun more ws₁ hc₁ hg₁ _ => ?_
      split
      · refine .bind (h.createNext hc₁ (hg₁.isLive hlive) reason) fun next ws₂ hc₂ _ hnext => ?_
        cases next with
        | none => exact .pure hc₂ trivial fun _ _ _ => trivial
        | some next =>
          have hlive₂ := hnext next rfl
          have hvisit := (hv.repeats s hc₂ hlive₂).keepBudget hc₂ hlive₂ (hv.onlyAdds s)
          refine .bind (hvisit.of_same fun w _ hsame => hsame next rfl) fun a ws₃ hc₃ hg₃ _ => ?_
          dsimp only
          split
          · exact ih (n + 1) a.1 hc₃ (hg₃.isLive hlive₂)
          · exact .pure hc₃ trivial fun _ _ _ => trivial
      · exact .pure hc₁ trivial fun _ _ _ => trivial

end

section

variable {i : Nat} {f : String × Field} (hf : ws.fieldOf? r i = some f)
include hf

theorem hasElement (origin index offset : Int64) :
    Repeats once schema seen ws (resolver.hasElement r f.2 origin index offset) fun _ _ => True := by
  unfold Resolver.hasElement
  refine .ask (fun w _ hlater => ?_) ?_
  · rw [Workspace.fileSize, Workspace.file?, hlater.files]
    rfl
  · split
    · exact .pure hc trivial
    · split
      · exact .pure hc trivial
      · rename_i condition hcondition
        have hin : condition ∈ f.2.elementFormulas := by
          simp [Field.elementFormulas, hcondition]
        exact .bind (h.evaluateField hc hr hf hin _) fun _ _ hc₁ _ _ => .pure hc₁ trivial

variable {σ : Type} {visit : Visitor σ} (hv : visit.Repeating once schema seen)
  (upTo : Option Nat) (reason : Reason)
include hv

/-- Children with offsets of their own do not depend on their budgets. -/
theorem walkOffsets {formula : Formula} (hformula : f.2.offsetFormula = some formula)
    (struct : String) (origin : Int64) (left : Nat) : ∀ (n : Nat) (s : σ),
      Repeats once schema seen ws
        (resolver.walkOffsets r f.2 struct formula origin upTo reason visit left n s)
        fun _ _ => True := by
  obtain ⟨d, hd, _⟩ := Workspace.structOf?_of_fieldOf? hf
  have hin : formula ∈ f.2.elementFormulas := by
    simp [Field.elementFormulas, Field.placingFormulas, hformula]
  induction left generalizing ws with
  | zero => exact fun _ _ => .pure hc trivial
  | succ left ih =>
    intro n s
    have hrest {ws₁ : Workspace} (hc₁ : ws₁.Calm once schema) (hg₁ : ws.Grows ws₁) :=
      ih hc₁ (hg₁.isLive hr) ((hg₁.fieldOf? r i).trans hf) ((hg₁.structOf? r).trans hd)
    unfold Resolver.walkOffsets
    dsimp only
    refine .bind (h.evaluateField hc hr hf hin _) fun offset ws₁ hc₁ hg₁ _ => ?_
    cases offset with
    | none => exact .pure hc₁ trivial
    | some offset =>
      have hr₁ := hg₁.isLive hr
      have hf₁ := (hg₁.fieldOf? r i).trans hf
      refine .bind (h.hasElement hc₁ hr₁ hf₁ _ _ _) fun there ws₂ hc₂ hg₂ _ => ?_
      have hg₂' := hg₁.trans hg₂
      split
      · have hplace := h.placeChild hc₂ (hg₂.isLive hr₁) ((hg₂'.structOf? r).trans hd) f.2 struct
          reason offset .one True
        refine .bind (hplace.mono (fun _ _ _ _ hp => hp.1) fun _ _ _ _ _ => trivial)
          fun child ws₃ hc₃ hg₃ hlive => ?_
        refine .bind (hv.repeats s hc₃ hlive) fun a ws₄ hc₄ hg₄ _ => ?_
        split
        · exact .pure hc₄ trivial
        · exact hrest hc₄ ((hg₂'.trans hg₃).trans hg₄) (n + 1) a.1
      · exact hrest hc₂ hg₂' (n + 1) s

/-- **A chain from the offset of the field on**, with the count as the budget. -/
theorem walkFrom {d : StructDef} (hd : ws.structOf? r = some d) (struct : String) (count : Int64)
    (s : σ) :
    RepeatsIf once schema seen ws (fun _ => 1 < count → f.2.ChainKept schema d struct)
      (do
        let offset := (← resolver.fieldOffset r i false).getD 0
        let child ← resolver.placeChild r f.2 struct reason offset ⟨count, f.2.countIsBytes⟩
        let (s, goOn) ← visit s child
        if goOn then resolver.walkChain upTo reason visit (count.toInt.toNat - 1) 0 s child
        else pure (s, some child))
      (fun _ _ => True) fun _ _ _ => True := by
  refine .bind ((h.fieldOffset hc hr hf).keep _) fun offset ws₁ hc₁ hg₁ _ => ?_
  dsimp only
  refine .bind (h.placeChild hc₁ (hg₁.isLive hr) ((hg₁.structOf? r).trans hd) f.2 struct reason _ _
    _) fun child ws₂ hc₂ _ ⟨hlive, hl, hplaced⟩ => ?_
  have hvisit := hv.repeats s hc₂ hlive
  by_cases hone : 1 < count
  · have hkept := hvisit.keepBudget hc₂ hlive (hv.onlyAdds s)
    refine .bind (hkept.of_same fun w _ ⟨hchain, hbudget⟩ => ?_) fun a ws₃ hc₃ hg₃ _ => ?_
    · have hchain := hchain hone
      rw [InstanceRef.struct, hl, hbudget, hplaced hchain.args]
      exact ⟨hchain.apart, rfl⟩
    · split
      · exact h.walkChain hv upTo reason _ 0 a.1 hc₃ (hg₃.isLive hlive)
      · exact .pure hc₃ trivial fun _ _ _ => trivial
  · -- A chain of one child ends with it, whatever its budget has become.
    have hnone : count.toInt.toNat - 1 = 0 := by
      have hle : count.toInt ≤ 1 := Int64.le_iff_toInt_le.mp (Int64.not_lt.mp hone)
      omega
    refine .of_repeats (.bind hvisit fun a ws₃ hc₃ _ _ => ?_)
    rw [hnone]
    split
    · exact .pure hc₃ trivial
    · exact .pure hc₃ trivial

/-- **A walk that is repeated** visits the same children. -/
theorem walk (s : σ) :
    Repeats once schema seen ws (resolver.walk r i upTo reason visit s) fun _ _ => True := by
  obtain ⟨d, hd, hfield⟩ := Workspace.structOf?_of_fieldOf? hf
  unfold Resolver.walk
  refine .ask (fun w _ hlater => hlater.fieldOf? r i) ?_
  rw [hf]
  dsimp only
  split
  · exact .pure hc trivial
  · exact .pure hc trivial
  · rename_i struct hvalue htype
    refine .ask (fun w _ hlater => by rw [hlater.schema]) ?_
    split
    · exact .pure hc trivial
    · refine .call (h.elementCount hc hr hf) fun a ws₁ hc₁ hg₁ hcounted => ?_
      have hr₁ := hg₁.isLive hr
      have hf₁ := (hg₁.fieldOf? r i).trans hf
      have hd₁ := (hg₁.structOf? r).trans hd
      split
      · exact .pure hc₁ trivial fun _ _ _ => trivial
      · rename_i hpos
        split
        · rename_i formula _ hformula
          cases he : ws₁.entryOf? r i with
          | none =>
            refine .of_not_same hc₁ (.ask ?_) fun _ ⟨hlater, _⟩ => ?_
            · rw [he]
              exact .pure hc₁.sound (.refl ws₁) trivial
            · obtain ⟨e, hknows⟩ := hc.knows hr hf hlater hcounted.reaches
              rw [hknows.entry] at he
              cases he
          | some e =>
            have hknows := Workspace.KnowsField.of_entry hf₁ hcounted.reaches.1 he
            refine .look (fun w _ hlater _ => ?_) ?_
            · obtain ⟨e', hknows', hgrow⟩ := hknows.grows hr₁ hlater.toGrows
              rw [hknows'.entry, he]
              simp only [hgrow.origin]
            · rw [he]
              exact .of_repeats (h.walkOffsets hc₁ hr₁ hf₁ hv upTo reason hformula struct _ _ 0 s)
        · rename_i hchain
          refine (h.walkFrom hc₁ hr₁ hf₁ hv upTo reason hd₁ struct _ s).of_same
            fun _ _ ⟨_, hkept⟩ hone => ?_
          cases a with
          | none => exact absurd hone (by decide)
          | some count =>
            obtain ⟨e, he, hcount⟩ := hcounted.noted d count hd₁ rfl
            rw [← hc₁.schema]
            refine hkept r d i f e struct count hr₁ hd₁ hcounted.reaches.1 hfield he hcount hone
              hvalue htype fun ⟨hindividual, hsome⟩ => ?_
            obtain ⟨formula, hformula⟩ := Option.isSome_iff_exists.mp hsome
            exact hchain formula hindividual hformula

end

/-! ## 4. Offsets of elements -/

omit h hc hr in
theorem repeating_idle (once : Prop) (schema : Schema) (seen : String → Prop) :
    Visitor.idle.Repeating once schema seen where
  repeats _ hc _ := .pure hc trivial
  onlyAdds _ _ _ := .done

theorem valueOffset {i : Nat} {f : String × Field} (hf : ws.fieldOf? r i = some f) (n : Nat) :
    Repeats once schema seen ws (resolver.valueOffset r i n false) fun _ _ => True := by
  unfold Resolver.valueOffset
  refine .bind (h.fieldOffset hc hr hf) fun offset ws₁ hc₁ hg₁ _ => ?_
  have hr₁ := hg₁.isLive hr
  have hf₁ := (hg₁.fieldOf? r i).trans hf
  cases offset with
  | none => exact .pure hc₁ trivial
  | some offset =>
    dsimp only
    split
    · exact .pure hc₁ trivial
    · refine .ask (fun w _ hlater => ?_) ?_
      · rw [Workspace.holdsChildren, hlater.fieldOf?]
        rfl
      · split
        · exact .bind (h.walk hc₁ hr₁ hf₁ (repeating_idle once schema seen) (some n) .query ())
            fun _ _ hc₂ _ _ => .pure hc₂ trivial
        · simp only [Bool.not_false, if_true]
          refine .call (h.readValues hc₁ hr₁ hf₁ n) fun _ ws₂ hc₂ hg₂ ⟨hreached, hread⟩ => ?_
          refine .look (fun w _ hlater ⟨hfirst, _⟩ => ?_) (.pure hc₂ trivial fun _ _ _ => trivial)
          obtain ⟨e, hknows⟩ := hc₁.knows hr₁ hf₁ hfirst hreached
          rw [hknows.element_eq (hg₂.isLive hr₁) (hread hfirst.quiet n rfl).1 hlater.toGrows]

end Resolver.Repeating

end ByteAtlas
