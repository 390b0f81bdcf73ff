import ByteAtlas.Proofs.Alike.Fields

/-!
# Placing children in alike workspaces

Whatever the reasons for them, the same children are placed in workspaces that are alike, and chains
go on in the same way. In which likeness the workspaces are alike may change from child to child
(`Likeness.Among`).
-/

namespace ByteAtlas

open Resolve (Agree noRefs)

/-! ## 1. Likenesses that change -/

/-- **Whether workspaces are alike** in one of some likenesses. -/
def Likeness.Among (some : Likeness → Prop) (ws ws' : Workspace) : Prop :=
  ∃ k, some k ∧ k.Alike ws ws'

/-- All references. -/
def Resolve.anyRef (_ : InstanceRef) : Prop := True

open Resolve (anyRef)

theorem Resolve.Agree.among {α β : Type} {among : Likeness → Prop} {live : InstanceRef → Prop}
    {step : Resolve α} {step' : Resolve β} {related : α → β → Prop} {new : α → InstanceRef → Prop}
    (hm : step.KeepsRefusals) (hm' : step'.KeepsRefusals)
    (h : ∀ k, among k → Agree k.Alike live step step' related new) :
    Agree (Likeness.Among among) live step step' related new := by
  refine ⟨hm, hm', fun ⟨k, hk, hrel⟩ hlive hrun hrun' hquiet hquiet' => ?_⟩
  obtain ⟨hrelated, hrel₁, hrest⟩ := (h k hk).quiet hrel hlive hrun hrun' hquiet hquiet'
  exact ⟨hrelated, ⟨k, hk, hrel₁⟩, hrest⟩

/-- **Placing the same instance**, for whatever reasons. A new one is not loose. -/
theorem Likeness.agree_place {k : Likeness} {live : InstanceRef → Prop} {p p' : Placement}
    (hp : p' = { p with reason := p'.reason }) :
    Agree k.Alike live (Resolve.update fun ws => ws.place p) (Resolve.update fun ws => ws.place p')
      (fun added added' => added' = added ∧ added.ref.location = p.location ∧
        (added.inserted = true → ∀ r, k.loose r → r.id ≠ added.ref.id))
      fun added r => r = added.ref := by
  have hrefusals (p : Placement) (ws : Workspace) : (ws.place p).2.refusals = ws.refusals := rfl
  refine .update (hrefusals p) (hrefusals p') fun {ws ws'} h _ => ?_
  obtain ⟨he, halike⟩ := h.place hp
  obtain ⟨hkept, hplaced, hnew⟩ := Workspace.isLive_place h.directory p
  refine ⟨⟨he, Workspace.location_place h.directory p, fun hinserted r hl hid => ?_⟩, halike, hkept,
    fun r hr => hr ▸ hplaced⟩
  obtain ⟨i, hi, _⟩ := h.live r hl
  rw [hid, hnew hinserted] at hi
  cases hi

namespace Resolver.Steady

variable {k : Likeness} {resolver : Resolver} {live : InstanceRef → Prop} {r : InstanceRef}

/-! ## 2. Placing children -/

section

variable (h : resolver.Steady k) (hr : live r)
include h hr

/-- **The next instance of a chain**, for whatever reason. It has the same struct. -/
theorem createNext (reason reason' : Reason) :
    Agree k.Alike live (resolver.createNext r reason) (resolver.createNext r reason')
      (fun a b => b = a ∧ ∀ next, a = some next → next.struct = r.struct)
      fun next r => next = some r := by
  have hnone : Agree k.Alike live (pure none : Resolve (Option InstanceRef)) (pure none)
      (fun a b => b = a ∧ ∀ next, a = some next → next.struct = r.struct)
      fun next r => next = some r := .pure ⟨rfl, fun _ he => nomatch he⟩ fun _ he => nomatch he
  have hplace {i i' : Instance} (size : Int64) (hcore : i'.core = i.core) (hi : i.ref = r) :
      Agree k.Alike live
        (if i.budgetAfter size ≤ 0 then pure none
          else do
            let added ← Resolve.update fun ws => ws.place (nextPlacement i size reason)
            pure (some added.ref))
        (if i'.budgetAfter size ≤ 0 then pure none
          else do
            let added ← Resolve.update fun ws => ws.place (nextPlacement i' size reason')
            pure (some added.ref))
        (fun a b => b = a ∧ ∀ next, a = some next → next.struct = r.struct)
        fun next r => next = some r := by
    rw [Instance.eq_of_core hcore]
    refine .ite (fun _ => hnone) fun _ => ?_
    refine .bindAny (Likeness.agree_place rfl) (fun _ => .pure _) (fun _ => .pure _)
      fun _ added ⟨he, hlocation, _⟩ => ?_
    subst he
    refine .pure ⟨rfl, fun next hnext => ?_⟩ fun r hr => .inl ?_
    · cases hnext
      rw [InstanceRef.struct, hlocation, ← hi]
      rfl
    · cases hr
      rfl
  have hkeeps (reason : Reason) (size : Int64) (i : Instance) : Resolve.KeepsRefusals
      (if i.budgetAfter size ≤ 0 then pure none
        else do
          let added ← Resolve.update fun ws => ws.place (nextPlacement i size reason)
          pure (some added.ref)) :=
    .ite (.pure _) (.bind (.update fun _ => rfl) fun _ => .pure _)
  refine .bind (h.size hr) fun
    | none => hnone
    | some size => .ite (fun _ => hnone) fun _ => ?_
  have hfound : Agree k.Alike live (Resolve.ask fun ws => ws.find? r.id)
      (Resolve.ask fun ws => ws.find? r.id)
      (fun a b => b.map Instance.core = a.map Instance.core ∧ ∀ i, a = some i → i.ref = r)
      noRefs := .ask fun halike hlive => by
    refine ⟨⟨halike.instances r.id, fun i hi => ?_⟩, fun _ hr => nomatch hr⟩
    obtain ⟨i', hi', hr⟩ := hlive r hr
    cases hi.symm.trans hi'
    exact hr
  refine hfound.bindAny ?_ ?_ fun a b ⟨hab, hi⟩ => ?_
  · rintro (_ | i)
    · exact hnone.refusals
    · exact hkeeps reason size i
  · rintro (_ | i)
    · exact hnone.refusals'
    · exact hkeeps reason' size i
  · cases a with
    | none =>
      cases Option.map_eq_none_iff.mp hab
      exact hnone.more fun _ hr => .inr hr
    | some i =>
      obtain ⟨i', rfl, hcore⟩ := Option.map_eq_some_iff.mp hab
      exact (hplace size hcore (hi i rfl)).more fun _ hr => .inr hr

/-- **A child at an offset**, for whatever reason. Only a new one gets its arguments, and that one
is not loose. -/
theorem placeChild (hn : ¬ k.loose r) (field : Field) (struct : String) (reason reason' : Reason)
    (offset : Int64) (budget : Budget) :
    Agree k.Alike live (resolver.placeChild r field struct reason offset budget)
      (resolver.placeChild r field struct reason' offset budget)
      (fun child child' => child' = child ∧ child.struct = struct) fun child r => r = child := by
  let placement (reason : Reason) : Placement :=
    { Placement.single ⟨struct, r.file, offset⟩ reason with budget }
  have hplace : Agree k.Alike live (Resolve.update fun ws => ws.place (placement reason))
      (Resolve.update fun ws => ws.place (placement reason'))
      (fun added added' => added' = added ∧ added.ref.location = ⟨struct, r.file, offset⟩ ∧
        (added.inserted = true → ∀ r, k.loose r → r.id ≠ added.ref.id))
      fun added r => r = added.ref := Likeness.agree_place rfl
  let bind (added : Directory.Added) : Resolve InstanceRef :=
    if added.inserted && !field.args.isEmpty then do
      let args ← resolver.argValues r field.args
      Resolve.change fun ws => ws.modify added.ref.id (Instance.bindArgs args)
      pure added.ref
    else pure added.ref
  have hkeeps (added : Directory.Added) : (bind added).KeepsRefusals :=
    .ite
      (.bind (Agree.refusals ((h.answers hr hn).argValues field.args)) fun _ =>
        .bind (.change fun _ => Nat.le_refl _) fun _ => .pure _)
      (.pure _)
  refine hplace.bindAny hkeeps hkeeps fun _ added ⟨he, hlocation, hnew⟩ => ?_
  subst he
  have hstruct : added.ref.struct = struct := by
    rw [InstanceRef.struct, hlocation]
  refine .ite (fun hinserted => ?_) fun _ => .pure ⟨rfl, hstruct⟩ fun _ => .inl
  have hinserted := (Bool.and_eq_true _ _ ▸ hinserted).1
  refine .bind ((h.answers (.inr hr) hn).argValues field.args) fun args =>
    .bind (.change (fun _ => rfl) (fun _ => rfl) fun halike _ => ⟨?_, fun r hr => ?_⟩)
      fun _ => .pure ⟨rfl, hstruct⟩ fun _ => .inl
  · have hkeeps := (Workspace.keepsVersion_bindArgs args).toKeepsPlace
    refine halike.modify hkeeps hkeeps (fun i i' hcore => ?_)
      fun r hl hid => absurd hid (hnew hinserted r hl)
    rw [Instance.eq_of_core hcore]
    rfl
  · exact (Workspace.isLive_modify (Workspace.keepsVersion_bindArgs args).toKeepsPlace _).mpr hr

theorem hasElement (hn : ¬ k.loose r) (field : Field) (origin index offset : Int64) :
    k.Steady live (resolver.hasElement r field origin index offset) := by
  unfold Resolver.hasElement
  refine .bind (.ask fun halike _ => halike.fileSize r.file) fun _ => .ite (fun _ => .pure false)
    fun _ => ?_
  cases field.elementCondition with
  | none => exact .pure true
  | some condition => exact .bind (h.evaluate condition.expr hr hn) fun _ => .pure _

end

end Resolver.Steady

end ByteAtlas
