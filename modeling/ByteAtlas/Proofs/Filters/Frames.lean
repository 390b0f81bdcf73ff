import ByteAtlas.Proofs.Filters.Measures
import ByteAtlas.Proofs.Expr.Evaluation

/-!
# Frames about a flat instance

Expressions without queries have the value that is settled, and laying out reaches each field as it
is settled. So all frames answer what is settled, whatever their number (`Resolver.settled_within`).
-/

namespace ByteAtlas

theorem Site.Covers.subset {site : Site} {v : View} {found : Findings} {scope : Scope}
    {names names' : List String} {ws : Workspace} (h : site.Covers v found scope names ws)
    (hsub : names' ⊆ names) : site.Covers v found scope names' ws :=
  fun name hname => h name (hsub hname)

theorem Site.Covers.onward {site : Site} {v : View} {found : Findings} {scope : Scope}
    {names : List String} {ws ws' : Workspace} (h : site.Covers v found scope names ws)
    (ho : site.Onward ws ws') : site.Covers v found scope names ws' :=
  fun name hname i hi => (h name hname i hi).imp_right fun ⟨hdue, hsame⟩ => ⟨hdue.onward ho, hsame⟩

/-- Looking for one in a row of one. -/
theorem anyM_singleton_id {ι : Type} (f : ι → Id Bool) (a : ι) :
    Id.run ([a].anyM f) = Id.run (f a) := by
  unfold List.anyM
  cases f a <;> rfl

namespace Resolver.Settled

variable {resolver : Resolver} {site : Site} {v : View} (h : resolver.Settled site v)
include h

/-! ## 1. Expressions -/

section

variable {found : Findings} {scope : Scope} {ws : Workspace} (hs : site.SeenIn ws)
include hs

/-- **What a name stands for.** -/
theorem lookup (name : String) (index : Int64) (isOffset : Bool) :
    site.Answers v (site.Covers v found scope [name] ws) ws
      (resolver.lookup scope site.ref name index isOffset)
      fun a _ => a = found.lookup site scope name index isOffset := by
  unfold Resolver.lookup Findings.lookup
  refine .ask ?_
  rw [hs.args]
  dsimp only
  cases (scope.constant? site.ref name).or (argValue? name site.args) with
  | some n => exact .pure fun _ _ => rfl
  | none =>
    refine .ask ?_
    rw [hs.struct]
    dsimp only
    cases hi : site.struct.fieldIndex? name with
    | none => exact .pure fun _ _ => rfl
    | some i =>
      obtain ⟨field, hfield⟩ := StructDef.field?_of_fieldIndex? hi
      dsimp only
      refine .ite (fun hhidden => .pure fun _ _ => (if_pos hhidden).symm) fun hhidden => ?_
      rw [if_neg hhidden]
      have hcovered (hcovers : site.Covers v found scope [name] ws) :
          site.Due v i ws ∧ found[i]? = v.fields[i]? :=
        (hcovers name (List.mem_singleton_self _) i hi).resolve_left fun hhides =>
          hhidden (by rw [hhides, Bool.true_or])
      cases isOffset with
      | true =>
        exact (h.valueOffset hs hfield _).mono (fun _ hg => (hcovered hg).1)
          fun a _ _ hg _ _ ha => by rw [ha, (hcovered hg).2]; rfl
      | false =>
        exact .map ((h.intValue hs hfield _).mono (fun _ hg => (hcovered hg).1)
          fun a _ _ hg _ _ ha => by rw [ha, (hcovered hg).2]; rfl)

/-- The joined preview of a field that is not hidden. -/
theorem namedPreview (name : String) :
    site.Answers v (site.Covers v found scope [name] ws) ws
      (resolver.namedPreview scope site.ref name)
      fun a _ => a = found.namedPreview site scope name := by
  unfold Resolver.namedPreview Findings.namedPreview
  refine .ask ?_
  rw [hs.struct, Option.bind_some]
  cases hi : site.struct.fieldIndex? name with
  | none => exact .pure fun _ _ => rfl
  | some i =>
    obtain ⟨field, hfield⟩ := StructDef.field?_of_fieldIndex? hi
    dsimp only
    rw [Option.bind_some]
    refine .ite (fun hhidden => .pure fun _ _ => (if_pos hhidden).symm) fun hhidden => ?_
    rw [if_neg hhidden]
    exact .map ((h.fieldPreview hs hfield).mono
      (fun _ hg => ((hg name (List.mem_singleton_self _) i hi).resolve_left hhidden).1)
      fun a _ _ hg _ _ ha => by
        rw [ha, ((hg name (List.mem_singleton_self _) i hi).resolve_left hhidden).2])

end

section

variable {found : Findings} {scope : Scope} (hroot : scope.root = site.ref)
include hroot

/-- **Expressions without queries** have the value that is settled. -/
theorem evaluateIn : (expr : Expr) → expr.hasQuery = false → {ws : Workspace} → site.SeenIn ws →
    site.Answers v (site.Covers v found scope expr.names ws) ws (resolver.evaluateIn scope expr)
      fun a _ => a = found.evaluate site scope expr
  | .constant n, _, _, _ => by
    unfold Resolver.evaluateIn Findings.evaluate Expr.evaluate
    exact .pure fun _ _ => rfl
  | .error, _, _, _ => by
    unfold Resolver.evaluateIn Findings.evaluate Expr.evaluate
    exact .pure fun _ _ => rfl
  | .unary op a, hq, ws, hs => by
    unfold Expr.hasQuery at hq
    have iha := evaluateIn a hq hs
    unfold Resolver.evaluateIn Findings.evaluate at iha ⊢
    unfold Expr.evaluate Expr.names
    exact iha.bind hs fun x _ _ => .pure fun _ hg => hg.2.2 ▸ rfl
  | .binary op a b, hq, ws, hs => by
    unfold Expr.hasQuery at hq
    rw [Bool.or_eq_false_iff] at hq
    have iha := evaluateIn a hq.1 hs
    have ihb {ws : Workspace} (hs : site.SeenIn ws) := evaluateIn b hq.2 hs
    unfold Resolver.evaluateIn Findings.evaluate at iha ihb ⊢
    unfold Expr.evaluate Expr.names
    refine .bind hs (iha.mono (fun _ hg => hg.subset (List.subset_append_left _ _))
      fun _ _ _ _ _ _ => id) fun x ws₁ hs₁ => .bind hs₁ ((ihb hs₁).mono
        (fun _ hg => (hg.1.2.subset (List.subset_append_right _ _)).onward hg.2.1)
        fun _ _ _ _ _ _ => id) fun y _ _ => .pure fun _ hg => ?_
    rw [hg.1.2.2.2, hg.2.2]
    rfl
  | .rawRead t a, hq, ws, hs => by
    unfold Expr.hasQuery at hq
    have iha := evaluateIn a hq hs
    unfold Resolver.evaluateIn Findings.evaluate at iha ⊢
    unfold Expr.evaluate Expr.names
    refine iha.bind hs fun offset ws₁ hs₁ => .ask (.pure fun _ hg => ?_)
    rw [hroot, hs₁.read, hg.2.2]
    rfl
  | .member none name none isOffset, _, ws, hs => by
    unfold Resolver.evaluateIn Findings.evaluate
    rw [Expr.evaluate_member, Expr.evaluate_member, Query.runOrRoots, Query.runOrRoots, pure_bind]
    unfold Expr.names
    show site.Answers v _ ws (resolver.lookup scope scope.root name 0 isOffset >>= _) _
    rw [hroot]
    exact .bind hs (h.lookup hs name 0 isOffset) fun x _ _ => .pure fun _ hg => hg.2.2 ▸ rfl
  | .member none name (some e) isOffset, hq, ws, hs => by
    unfold Expr.hasQuery at hq
    have ihe := evaluateIn e hq hs
    unfold Resolver.evaluateIn Findings.evaluate at ihe ⊢
    rw [Expr.evaluate_member, Expr.evaluate_member, Query.runOrRoots, Query.runOrRoots, pure_bind]
    unfold Expr.names
    refine .bind hs (ihe.mono (fun _ hg => hg.subset (List.subset_cons_self _ _))
      fun _ _ _ _ _ _ => id) fun index ws₁ hs₁ => ?_
    show site.Answers v _ ws₁ (resolver.lookup scope scope.root name index isOffset >>= _) _
    rw [hroot]
    refine .bind hs₁ ((h.lookup hs₁ name index isOffset).mono (fun _ hg =>
      (hg.1.2.subset (List.cons_subset_cons _ (List.nil_subset _))).onward hg.2.1)
      fun _ _ _ _ _ _ => id) fun x _ _ => .pure fun _ hg => ?_
    rw [hg.2.2, hg.1.2.2.2]
    rfl
  | .previewTest none name text invert, _, ws, hs => by
    unfold Resolver.evaluateIn Findings.evaluate
    rw [Expr.evaluate_previewTest, Expr.evaluate_previewTest, Query.runOrRoots, Query.runOrRoots,
      pure_bind]
    unfold Expr.names
    show site.Answers v _ ws ([scope.root].anyM (fun inst => do
      let preview ← resolver.namedPreview scope inst name
      pure ((preview == some text) != invert)) >>= _) _
    rw [hroot]
    have hhit : site.Answers v (site.Covers v found scope [name] ws) ws
        ([site.ref].anyM fun inst => do
          let preview ← resolver.namedPreview scope inst name
          pure ((preview == some text) != invert))
        fun a _ => a = ((found.namedPreview site scope name == some text) != invert) := by
      unfold List.anyM
      refine .bind hs (.bind hs (h.namedPreview hs name)
        (q := fun a _ => a = ((found.namedPreview site scope name == some text) != invert))
        fun preview _ _ => .pure fun _ hg => hg.2.2 ▸ rfl) fun hit _ _ => ?_
      cases hit with
      | true => exact .pure fun _ hg => hg.2.2
      | false => exact .pure fun _ hg => hg.2.2
    refine .bind hs hhit fun hit _ _ => .pure fun _ hg => ?_
    rw [hg.2.2]
    exact congrArg BinaryOp.truth (anyM_singleton_id (fun r => do
      let preview ← (found.environment site scope).preview r name
      pure ((preview == some text) != invert)) site.ref).symm
  | .instanceId none, _, ws, hs => by
    unfold Resolver.evaluateIn Findings.evaluate
    rw [Expr.evaluate_instanceId, Expr.evaluate_instanceId]
    refine .pure fun _ _ => ?_
    show Int64.ofNat scope.root.id = _
    rw [hroot]
    rfl
  | .member (some _) _ _ _, hq, _, _ | .structOffset _, hq, _, _
  | .previewTest (some _) _ _ _, hq, _, _ | .instanceId (some _), hq, _, _ => by
    unfold Expr.hasQuery at hq
    cases hq

end

/-! ## 2. Laying out -/

/-- The value of a condition sees the fields before its own. -/
theorem conditionValue {ws : Workspace} (hs : site.SeenIn ws) {i : Nat} {field : String × Field}
    (hfield : site.struct.field? i = some field) :
    site.Answers v (∀ j, j < i → site.Due v j ws) ws (resolver.conditionValue site.ref i field.2)
      fun a _ => a = some ((v.upTo i).conditionOf site i field.2) := by
  unfold Resolver.conditionValue Findings.conditionOf
  cases hcondition : field.2.condition with
  | none => exact .pure fun _ _ => rfl
  | some condition =>
    have hmem : condition ∈ field.2.formulas := by
      rw [Field.formulas, hcondition]
      exact List.mem_append_left _ (List.mem_append_right _ (List.mem_singleton_self _))
    refine .unlessCutShort ((h.evaluate (v.upTo i) hs rfl (h.flat.simple hfield condition hmem)).mono
      (fun _ hdue name _ j _ => ?_) fun _ _ _ _ _ _ => id)
    by_cases hlt : j < i
    · exact .inr ⟨hdue j hlt, v.getElem?_upTo hlt⟩
    · refine .inl ?_
      rw [Scope.hides,
        decide_eq_true (show site.ref.id = (Scope.upToField site.ref i).root.id from rfl),
        Bool.true_and]
      exact decide_eq_true (Nat.not_lt.mp hlt)

end Resolver.Settled

/-- **The course of laying out a field**: so many entries are there, and the cursor is here. -/
structure Site.Measures (site : Site) (v : View) (i count : Nat) (cursor : Int64) (depth : Nat)
    (ws : Workspace) : Prop where
  knows : site.Knows v ws
  stamped : site.Stamped ws
  measuring : (site.now ws).measuring = some i
  count : (site.now ws).entries.size = count
  cursor : (site.now ws).cursor = cursor
  depth : ws.depth = depth

/-- **Between two fields.** -/
structure Site.Between (site : Site) (v : View) (count depth : Nat) (ws : Workspace) : Prop where
  knows : site.Knows v ws
  stamped : site.Stamped ws
  measuring : (site.now ws).measuring = none
  count : (site.now ws).entries.size = count
  depth : ws.depth = depth

namespace Site

variable {site : Site} {v : View} {ws ws' : Workspace} {i count depth : Nat} {cursor : Int64}

theorem Measures.onward (h : site.Measures v i count cursor depth ws) (hk : site.Knows v ws')
    (ho : site.Onward ws ws') : site.Measures v i count cursor depth ws' := by
  obtain ⟨hcount, hcursor⟩ := ho.held (by rw [h.measuring]; rfl)
  exact ⟨hk, ho.stamped h.stamped, ho.measuring.trans h.measuring, hcount.trans h.count,
    hcursor.trans h.cursor, ho.depth.trans h.depth⟩

/-- The fields laid out so far may be asked for. -/
theorem Measures.due (h : site.Measures v i count cursor depth ws) {j : Nat} (hj : j < count) :
    site.Due v j ws :=
  .inl (by rw [h.count]; exact hj)

/-- What is settled about a field that is about to be laid out. -/
theorem Between.next (h : site.Between v count depth ws) {field : String × Field}
    (hfield : site.struct.field? count = some field) :
    ∃ f, v.fields[count]? = some f ∧ f.origin = (site.now ws).cursor ∧
      f = (v.upTo count).ofEntry site count field.2
        (Resolver.firstEntry site.struct field.2 f.present f.origin) ∧
      f.present = decide ((v.upTo count).conditionOf site count field.2 ≠ 0) ∧
      v.startOf (count + 1) = some (f.origin + f.room site.struct field.2) := by
  obtain ⟨f, hf⟩ := h.knows.fits.all h.measuring hfield
  obtain ⟨field', hfield', hsame, hpresent, hstart⟩ :=
    h.knows.fits.later (Nat.le_of_eq h.count) hf
  cases hfield.symm.trans hfield'
  have horigin := h.knows.fits.cursor h.measuring
  rw [h.count, View.startOf, hf, Option.elim_some, Option.some_inj] at horigin
  exact ⟨f, hf, horigin, hsame, hpresent, hstart⟩

/-- A field is begun. -/
theorem Between.begin (h : site.Between v count depth ws) :
    site.Measures v count count (site.now ws).cursor depth
      (ws.modifyLayout site.ref (·.setMeasuring (some count))) := by
  obtain ⟨hstamped, hnow⟩ := now_modifyLayout h.stamped (f := (·.setMeasuring (some count))) rfl
  refine ⟨h.knows.modifyLayout h.stamped (fun _ => rfl) (fun _ => rfl) ?_, hstamped, ?_, ?_, ?_,
    h.depth⟩
  · exact ⟨h.knows.fits.entry, h.knows.fits.later, (fun e => nomatch e), (fun e => nomatch e)⟩
  · rw [hnow]
    rfl
  · rw [hnow]
    exact h.count
  · rw [hnow]
    rfl

/-- The entry of the field is there. -/
theorem Measures.push (h : site.Measures v i i cursor depth ws) {field : String × Field}
    (hfield : site.struct.field? i = some field) {f : Finding} (hf : v.fields[i]? = some f)
    (hsame : f = (v.upTo i).ofEntry site i field.2
      (Resolver.firstEntry site.struct field.2 f.present f.origin)) :
    site.Measures v i (i + 1) cursor depth (ws.modifyLayout site.ref
      (·.push (Resolver.firstEntry site.struct field.2 f.present f.origin))) := by
  generalize Resolver.firstEntry site.struct field.2 f.present f.origin = e at hsame ⊢
  obtain ⟨hstamped, hnow⟩ := now_modifyLayout h.stamped (f := (·.push e)) rfl
  have hcount : ((site.now ws).push e).entries.size = i + 1 := by
    show ((site.now ws).entries.push e).size = _
    rw [Array.size_push, h.count]
  refine ⟨h.knows.modifyLayout h.stamped (fun _ => rfl) (fun _ => rfl) ?_, hstamped, ?_, ?_, ?_,
    h.depth⟩
  · refine ⟨fun {j e' field'} he' hfield' => ?_, fun hle => h.knows.fits.later ?_,
      fun hm => ?_, fun hm => ?_⟩
    · have he' : ((site.now ws).entries.push e)[j]? = some e' := he'
      rw [Array.getElem?_push, h.count] at he'
      split at he'
      · rename_i hj
        subst hj
        cases hfield.symm.trans hfield'
        cases he'
        rw [hf, ← hsame]
      · exact h.knows.fits.entry he' hfield'
    · rw [hcount] at hle
      rw [h.count]
      exact Nat.le_of_succ_le hle
    · have hm : (site.now ws).measuring = none := hm
      rw [h.measuring] at hm
      cases hm
    · have hm : (site.now ws).measuring = none := hm
      rw [h.measuring] at hm
      cases hm
  · rw [hnow]
    exact h.measuring
  · rw [hnow, hcount]
  · rw [hnow]
    exact h.cursor

/-- The cursor is moved on. -/
theorem Measures.advance (h : site.Measures v i count cursor depth ws) (size : Int64) :
    site.Measures v i count (cursor + size) depth
      (ws.modifyLayout site.ref (·.advance size)) := by
  obtain ⟨hstamped, hnow⟩ := now_modifyLayout h.stamped (f := (·.advance size)) rfl
  refine ⟨h.knows.modifyLayout h.stamped (fun _ => rfl) (fun _ => rfl) ?_, hstamped, ?_, ?_, ?_,
    h.depth⟩
  · refine ⟨h.knows.fits.entry, h.knows.fits.later, fun hm => ?_, fun hm => ?_⟩ <;>
      · have hm : (site.now ws).measuring = none := hm
        rw [h.measuring] at hm
        cases hm
  · rw [hnow]
    exact h.measuring
  · rw [hnow]
    exact h.count
  · rw [hnow, ← h.cursor]
    rfl

/-- The field is done. -/
theorem Measures.done (h : site.Measures v i count cursor depth ws)
    (hstart : v.startOf count = some cursor)
    (hall : ∀ {i : Nat} {field : String × Field}, site.struct.field? i = some field →
      ∃ f, v.fields[i]? = some f) :
    site.Between v count depth (ws.modifyLayout site.ref (·.setMeasuring none)) := by
  obtain ⟨hstamped, hnow⟩ := now_modifyLayout h.stamped (f := (·.setMeasuring none)) rfl
  refine ⟨h.knows.modifyLayout h.stamped (fun _ => rfl) (fun _ => rfl) ?_, hstamped, ?_, ?_, h.depth⟩
  · refine ⟨h.knows.fits.entry, h.knows.fits.later, fun _ => ?_, fun _ => hall⟩
    show v.startOf (site.now ws).entries.size = some (site.now ws).cursor
    rw [h.count, h.cursor, hstart]
  · rw [hnow]
    rfl
  · rw [hnow]
    exact h.count

end Site

namespace Resolver.Settled

variable {resolver : Resolver} {site : Site} {v : View} (h : resolver.Settled site v)
  {ws : Workspace} (hs : site.SeenIn ws)
include h hs

/-- The cursor is moved past a field. -/
theorem passField {i depth : Nat} {cursor : Int64} {field : String × Field}
    (hfield : site.struct.field? i = some field) (present : Bool) :
    site.Quietly (site.Measures v i (i + 1) cursor depth ws ∧
        ∃ f, v.fields[i]? = some f ∧ f.present = present) ws
      (resolver.passField site.ref site.struct i field.2 present false) fun a ws' => a = true ∧
        ∃ f, v.fields[i]? = some f ∧
          site.Measures v i (i + 1) (cursor + f.room site.struct field.2) depth ws' := by
  unfold Resolver.passField
  by_cases hroom : (present && site.struct.isPacked && !field.2.isComputed) = true
  · rw [if_pos hroom]
    refine .bind (p := fun a ws₁ => a = v.fields[i]?.map Finding.total ∧
        site.Measures v i (i + 1) cursor depth ws₁)
      (Site.Quietly.mono (h.totalSize hs hfield)
        (fun ⟨hm, _⟩ => ⟨hm.knows, hm.due (Nat.lt_succ_self i)⟩)
        fun ⟨hm, _⟩ a ws₁ ⟨hk, ho, _, ha⟩ => ⟨ha, hm.onward hk ho⟩) fun a ws₁ _ => ?_
    have htotal (hf : ∃ f, v.fields[i]? = some f ∧ f.present = present)
        (ha : a = v.fields[i]?.map Finding.total) :
        ∃ f, v.fields[i]? = some f ∧ a = some (f.room site.struct field.2) := by
      obtain ⟨f, hf, rfl⟩ := hf
      refine ⟨f, hf, ?_⟩
      rw [ha, hf, Finding.room, if_pos hroom]
      rfl
    cases a with
    | none =>
      refine .bind (p := fun _ _ => False) (.change (.modifyLayout _) rfl
        fun ⟨⟨_, hf⟩, ha, _⟩ => ?_) fun _ _ _ => .pure fun ⟨_, hfalse⟩ => hfalse.elim
      obtain ⟨_, _, hsome⟩ := htotal hf ha
      cases hsome
    | some total =>
      refine .bind (.change (.modifyLayout _) rfl fun ⟨⟨_, hf⟩, ha, hm⟩ => ?_) fun _ _ _ =>
        .pure fun ⟨_, hm⟩ => ⟨rfl, hm⟩
      obtain ⟨f, hf, hsome⟩ := htotal hf ha
      cases hsome
      exact ⟨f, hf, hm.advance _⟩
  · rw [if_neg hroom]
    refine .pure fun ⟨hm, f, hf, hpresent⟩ => ⟨rfl, f, hf, ?_⟩
    rw [Finding.room, hpresent, if_neg hroom, Int64.add_zero]
    exact hm

/-- **One more field.** -/
theorem layOutField {count depth : Nat} :
    site.Quietly (site.Between v count depth ws ∧ count < site.struct.fieldCount) ws
      (resolver.layOutField site.ref site.struct false)
      fun a ws' => a = true ∧ site.Between v (count + 1) depth ws' := by
  unfold Resolver.layOutField
  refine .ask ?_
  dsimp only
  generalize hi : (ws.layoutOf site.ref).entries.size = i
  generalize hc : (ws.layoutOf site.ref).cursor = cursor
  have hthere (hb : site.Between v count depth ws) :
      i = count ∧ (site.now ws).cursor = cursor := by
    have hnow := Site.now_of_stamped hb.stamped
    rw [← hi, ← hc, ← hb.count, hnow]
    exact ⟨rfl, rfl⟩
  cases hfield : site.struct.field? i with
  | none =>
    refine .pure fun ⟨hb, hlt⟩ => ?_
    obtain ⟨field, hfield'⟩ := Layout.field?_isSome hlt
    rw [(hthere hb).1, hfield'] at hfield
    cases hfield
  | some field =>
    dsimp only
    have hnext (hb : site.Between v count depth ws) :
        ∃ f, v.fields[i]? = some f ∧ f.origin = cursor ∧
          f = (v.upTo i).ofEntry site i field.2
            (Resolver.firstEntry site.struct field.2 f.present f.origin) ∧
          f.present = decide ((v.upTo i).conditionOf site i field.2 ≠ 0) ∧
          v.startOf (i + 1) = some (f.origin + f.room site.struct field.2) := by
      obtain ⟨rfl, rfl⟩ := hthere hb
      exact hb.next hfield
    refine .bind (p := fun _ ws₁ => site.Measures v i i cursor depth ws₁)
      (.change (.modifyLayout _) rfl fun ⟨hb, _⟩ => ?_) fun _ ws₁ hb₁ => ?_
    · obtain ⟨rfl, rfl⟩ := hthere hb
      exact hb.begin
    have hs₁ := hs.beside hb₁
    refine .bind (p := fun a ws₂ => a = some ((v.upTo i).conditionOf site i field.2) ∧
        site.Measures v i i cursor depth ws₂)
      (Site.Quietly.mono (h.conditionValue hs₁ hfield)
        (fun ⟨_, hm⟩ => ⟨hm.knows, fun j hj => hm.due hj⟩)
        fun ⟨_, hm⟩ a ws₂ ⟨hk, ho, ha⟩ => ⟨ha, hm.onward hk ho⟩) fun a ws₂ hb₂ => ?_
    have hs₂ := hs₁.beside hb₂
    cases a with
    | none =>
      refine .bind (p := fun _ _ => False) (.change (.modifyLayout _) rfl fun ⟨_, ha, _⟩ => ?_)
        fun _ _ _ => .pure fun ⟨_, hfalse⟩ => hfalse.elim
      cases ha
    | some condition =>
      dsimp only
      refine .bind (p := fun _ ws₃ => site.Measures v i (i + 1) cursor depth ws₃ ∧
          ∃ f, v.fields[i]? = some f ∧ f.present = decide (condition ≠ 0))
        (.change (.modifyLayout _) rfl fun ⟨⟨⟨hb, _⟩, _⟩, ha, hm⟩ => ?_) fun _ ws₃ hb₃ => ?_
      · obtain ⟨f, hf, horigin, hsame, hpresent, _⟩ := hnext hb
        rw [← Option.some.inj ha] at hpresent
        rw [← hpresent, ← horigin]
        exact ⟨horigin ▸ hm.push hfield hf hsame, f, hf, rfl⟩
      have hs₃ := hs₂.beside hb₃
      refine .bind ((h.passField hs₃ hfield (decide (condition ≠ 0))).mono And.right
        fun _ _ _ => id) fun passed ws₄ hb₄ => ?_
      refine .bind (.change (.modifyLayout _) rfl fun hg => ?_) fun _ _ _ =>
        .pure fun ⟨hg, hb⟩ => ⟨hg.2.1, hb⟩
      obtain ⟨⟨⟨⟨⟨hb, _⟩, _⟩, _⟩, _⟩, _, f', hf', hm⟩ := hg
      obtain ⟨f, hf, horigin, _, _, hstart⟩ := hnext hb
      cases hf.symm.trans hf'
      obtain ⟨rfl, _⟩ := hthere hb
      exact hm.done (horigin ▸ hstart) (hb.knows.fits.all hb.measuring)

omit hs in
/-- **So many more fields.** -/
theorem layOutFields (left : Nat) : ∀ {count depth : Nat} {ws : Workspace}, site.SeenIn ws →
    site.Quietly (site.Between v count depth ws ∧ count + left ≤ site.struct.fieldCount) ws
      (resolver.layOutFields site.ref site.struct false left)
      fun _ ws' => site.Between v (count + left) depth ws' := by
  induction left with
  | zero => exact fun _ => .pure fun hg => hg.1
  | succ left ih =>
    intro count depth ws hs
    unfold Resolver.layOutFields
    refine .bind ((h.layOutField hs).mono
      (fun hg => ⟨hg.1, Nat.lt_of_lt_of_le (by omega) hg.2⟩) fun _ _ _ => id)
      fun passed ws₁ hb₁ => ?_
    cases passed with
    | false => exact .pure fun hg => absurd hg.2.1 Bool.false_ne_true
    | true =>
      have hrest : site.Quietly
          (site.Between v (count + 1) depth ws₁ ∧ count + 1 + left ≤ site.struct.fieldCount) ws₁
          (resolver.layOutFields site.ref site.struct false left)
          fun _ ws' => site.Between v (count + 1 + left) depth ws' := ih (hs.beside hb₁)
      refine hrest.mono (fun hg => ⟨hg.2.2, by omega⟩) fun _ _ ws' hb => ?_
      rw [Nat.add_right_comm] at hb
      exact hb

/-- **The first fields.** -/
theorem layOutFirst {upTo : Nat} (hle : upTo ≤ site.struct.fieldCount) :
    site.Quietly (site.Knows v ws ∧ site.Stamped ws ∧ (site.now ws).measuring = none) ws
      (resolver.layOutFirst site.ref site.struct upTo false) fun _ ws' =>
        ∃ count, upTo ≤ count ∧ (site.now ws).entries.size ≤ count ∧
          site.Between v count ws.depth ws' := by
  unfold Resolver.layOutFirst
  refine .ask ?_
  generalize hcount : (ws.layoutOf site.ref).entries.size = count
  have hbegun : site.Knows v ws ∧ site.Stamped ws ∧ (site.now ws).measuring = none →
      site.Between v count ws.depth ws := fun ⟨hk, hstamped, hm⟩ =>
    ⟨hk, hstamped, hm, by rw [Site.now_of_stamped hstamped, hcount], rfl⟩
  rcases Nat.le_total upTo count with hdone | hmore
  · rw [Nat.sub_eq_zero_of_le hdone]
    exact .pure fun hg => ⟨count, hdone, Nat.le_of_eq (hbegun hg).count, hbegun hg⟩
  · refine (h.layOutFields _ hs).mono (fun hg => ⟨hbegun hg, by omega⟩) fun hg _ _ hb =>
      ⟨_, by omega, ?_, hb⟩
    rw [(hbegun hg).count]
    omega

end Resolver.Settled

/-! ## 3. Frames -/

namespace Site

variable {site : Site} {v : View} {ws ws' : Workspace}

theorem SeenIn.setDepth (h : site.SeenIn ws) (depth : Nat) : site.SeenIn { ws with depth } :=
  ⟨h.struct, h.args, h.files, h.limit⟩

theorem Knows.setDepth (h : site.Knows v ws) (depth : Nat) : site.Knows v { ws with depth } :=
  h.of_now (h.seen.setDepth depth) rfl rfl

/-- What goes on one frame further in. -/
theorem Onward.outOfFrame (h : site.Onward { ws with depth := ws.depth + 1 } ws') :
    site.Onward ws { ws' with depth := ws'.depth - 1 } := by
  refine ⟨?_, h.stamped, h.measuring, h.count, h.held⟩
  show ws'.depth - 1 = ws.depth
  rw [h.depth]
  exact Nat.add_sub_cancel ..

/-- A frame that is refused is not quiet. -/
theorem Quietly.refuse {α : Type} {given : Prop} {a : α} {post : α → Workspace → Prop} :
    site.Quietly given ws
      (do
        refuseFrame
        Pure.pure a) post := by
  refine ⟨fun hrun => ?_, fun _ _ _ hrun hr => ?_⟩ <;> cases hrun
  · exact ⟨⟨rfl, rfl, rfl, rfl, fun _ _ => rfl⟩, Nat.le_succ _⟩
  · exact absurd hr (Nat.succ_ne_self _)

end Site

/-- One frame further in. -/
theorem Resolver.Settled.within_succ {site : Site} {v : View} {frames : Nat}
    (h : (Resolver.within frames).Settled site v) :
    (Resolver.within (frames + 1)).Settled site v where
  flat := h.flat
  layOut {ws upTo} hs hle := by
    have hfirst := h.layOutFirst (hs.setDepth (ws.depth + 1)) hle
    refine Site.Quietly.bind (p := fun _ ws' => site.Knows v ws' ∧ site.Onward ws ws' ∧
      upTo ≤ (site.now ws').entries.size) (.inFrame (hfirst.mono
        (fun ⟨hk, hstamped, hm⟩ => ⟨hk.setDepth _, hstamped, hm⟩)
        fun ⟨_, _, hm⟩ _ ws₁ ⟨count, hupTo, hcount, hb⟩ => ?_)) fun _ _ _ => .pure And.right
    have hsize : count = (site.now { ws₁ with depth := ws₁.depth - 1 }).entries.size :=
      hb.count.symm
    refine ⟨hb.knows.setDepth _, ⟨?_, fun _ => hb.stamped, hb.measuring.trans hm.symm,
      hcount.trans_eq hsize, fun hsome => ?_⟩, hupTo.trans_eq hsize⟩
    · show ws₁.depth - 1 = ws.depth
      rw [hb.depth]
      exact Nat.add_sub_cancel ..
    · rw [hm] at hsome
      cases hsome
  evaluate {ws scope expr} found hs hroot hquery :=
    .inFrame (Site.Quietly.mono (h.evaluateIn hroot expr hquery (hs.setDepth (ws.depth + 1)))
      (fun ⟨hk, hcovers⟩ => ⟨hk.setDepth _, hcovers⟩)
      fun _ a ws₁ ⟨hk, ho, ha⟩ => ⟨hk.setDepth _, ho.outOfFrame, congrArg some ha⟩)

/-- **All frames answer what is settled.** -/
theorem Resolver.settled_within {site : Site} (hflat : site.struct.Flat) (v : View)
    (frames : Nat) : (Resolver.within frames).Settled site v := by
  induction frames with
  | zero => exact ⟨hflat, fun _ _ => .refuse, fun _ _ _ _ => .refuse⟩
  | succ frames ih => exact ih.within_succ

end ByteAtlas
