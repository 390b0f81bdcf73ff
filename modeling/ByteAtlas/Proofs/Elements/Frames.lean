import ByteAtlas.Proofs.Elements.Children
import ByteAtlas.Proofs.Resolve.Frames

/-!
# Expressions and frames are one move after another

From walks it goes to queries and to expressions (`Resolver.Moves.searches`), to laying out, and
from there to resolvers with any number of frames left (`Resolver.moves_within`). A field that is
laid out is reached with nothing known about its elements, and it is given up again if the room that
it takes does not become known.
-/

namespace ByteAtlas

open Resolve (Ends MovesFrom Proceeds)

namespace Resolver.Moves

variable {resolver : Resolver} (h : resolver.Moves) {ws : Workspace} {r : InstanceRef}
include h

/-! ## 1. Queries and expressions -/

theorem searches : Law.proceeds.Searches resolver resolver :=
  (h.walks .query).searches
    (fun _ _ _ hws => ⟨⟨_, _, rfl, hws.sound, .refl _, trivial⟩, .refl, fun _ _ => .none⟩)
    (fun file _ hws => ⟨⟨_, _, rfl, hws.sound, .refl _, trivial⟩, .refl, fun _ ha =>
      Except.ok.inj ha ▸ hws.sound.allLive_instancesOf _ file⟩)
    fun _ => h.walk_idle

/-- **Evaluating for a live instance.** -/
theorem evaluateIn (scope : Scope) (expr : Expr) :
    Resolve.Moves scope.root (resolver.evaluateIn scope expr) := fun _ hws hr =>
  ((h.searches.environment scope).evaluate expr (List.forall_mem_singleton.mpr hr) (fun _ _ => trivial)
    hws).weaken

/-! ## 2. Laying out -/

theorem conditionValue (i : Nat) (field : Field) :
    Resolve.Moves r (resolver.conditionValue r i field) := by
  unfold Resolver.conditionValue
  cases field.condition with
  | none => exact fun _ hws _ => .pure hws trivial
  | some condition => exact (h.evaluate (.upToField r i) condition.expr).unlessCutShort

/-- **The field that has just been reached is passed**, or it is given up again. -/
theorem passField {start : Workspace} {d : StructDef} {i : Nat} {f : Field} {present : Bool}
    (hws : ws.Ordered) (hl : Workspace.LaysOut True start ws r d i (i + 1)) (isLazy : Bool) :
    MovesFrom ws
      (do
        let passed ← resolver.passField r d i f present isLazy
        modifyLayout r (·.setMeasuring none)
        pure passed) fun _ _ => True := by
  unfold Resolver.passField
  split
  · rw [bind_assoc]
    refine (h.totalSize i isLazy).call hws hl.isLive fun total ws₁ hws₁ hg₁ hr₁ => ?_
    have hd₁ := (hl.grows hws₁.sound hg₁).structOf?_eq
    cases total with
    | some total =>
      simp only [bind_assoc, pure_bind]
      exact .rewrite hr₁ hd₁ (.same rfl rfl rfl)
        (.rewrite hr₁ hd₁ (.same rfl rfl rfl) (.pure trivial))
    | none =>
      simp only [bind_assoc, pure_bind]
      exact .rewrite hr₁ hd₁ .pop (.rewrite hr₁ hd₁ (.same rfl rfl rfl) (.pure trivial))
  · rw [pure_bind]
    exact .rewrite hl.isLive hl.structOf?_eq (.same rfl rfl rfl) (.pure trivial)

/-- **Laying out one more field.** -/
theorem layOutField {d : StructDef} (hws : ws.Ordered) (hr : ws.IsLive r)
    (hd : ws.structOf? r = some d) (hc : (ws.layoutOf r).stamp = some (ws.stampOf r d))
    (hm : (ws.layoutOf r).measuring = none) (isLazy : Bool) :
    MovesFrom ws (resolver.layOutField r d isLazy) fun _ _ => True := by
  unfold Resolver.layOutField
  refine .ask ?_
  dsimp only
  generalize hi : (ws.layoutOf r).entries.size = i
  cases hf : d.field? i with
  | none => exact .pure trivial
  | some f =>
    have h₁ := Workspace.LaysOut.begin hws.sound hr hd hc hm hi (Layout.lt_fieldCount hf)
    refine .rewrite hr hd (.same rfl rfl rfl) ?_
    have hws₁ := hws.rewrite (g := (·.setMeasuring (some i))) hr hd (.same rfl rfl rfl) h₁.sound
    refine (h.conditionValue i f.2).call hws₁ h₁.isLive fun condition ws₂ hws₂ hg₂ hr₂ => ?_
    have h₂ := h₁.grows hws₂.sound hg₂
    cases condition with
    | none => exact .rewrite hr₂ h₂.structOf?_eq (.same rfl rfl rfl) (.pure trivial)
    | some condition =>
      have h₃ := h₂.push hf (firstEntry_origin d f.2 (condition ≠ 0) (ws.layoutOf r).cursor)
        firstEntry_offset
      have hreach : ws₂.Rewrites r d (ws₂.layoutOf r)
          ((ws₂.layoutOf r).push (firstEntry d f.2 (condition ≠ 0) (ws.layoutOf r).cursor)) :=
        .reach _ _ h₂.current (by rw [h₂.reached, hf])
      have hws₃ := hws₂.rewrite
        (g := (·.push (firstEntry d f.2 (condition ≠ 0) (ws.layoutOf r).cursor))) hr₂
        h₂.structOf?_eq hreach h₃.sound
      exact .rewrite hr₂ h₂.structOf?_eq hreach (h.passField hws₃ h₃ isLazy)

theorem layOutFields {d : StructDef} (isLazy : Bool) (left : Nat) : ∀ {ws : Workspace},
    ws.Ordered → ws.IsLive r → ws.structOf? r = some d →
      (ws.layoutOf r).stamp = some (ws.stampOf r d) → (ws.layoutOf r).measuring = none →
      MovesFrom ws (resolver.layOutFields r d isLazy left) fun _ _ => True := by
  induction left with
  | zero => exact fun _ _ _ _ _ => .pure trivial
  | succ left ih =>
    intro ws hws hr hd hc hm
    unfold Resolver.layOutFields
    have hone : Proceeds ws (resolver.layOutField r d isLazy) fun _ _ => True :=
      .of_ends (h.reliable.layOutField hws.sound hr hd hc hm isLazy).weaken
        (h.layOutField hws hr hd hc hm isLazy)
    refine hone.call hws fun more ws₁ hws₁ hg₁ _ _ => ?_
    split
    · have hc₁ : ws₁.Current r := hg₁.current hr fun d' hd' => by
        rw [hd] at hd'
        cases hd'
        exact hc
      have hd₁ := (hg₁.structOf? r).trans hd
      exact ih hws₁ (hg₁.isLive hr) hd₁ (hc₁ d hd₁) ((hg₁.layouts r hr).measuring.trans hm)
    · exact .pure trivial

theorem layOutFirst {d : StructDef} (hws : ws.Ordered) (hr : ws.IsLive r)
    (hd : ws.structOf? r = some d) (hc : (ws.layoutOf r).stamp = some (ws.stampOf r d))
    (hm : (ws.layoutOf r).measuring = none) (upTo : Nat) (isLazy : Bool) :
    MovesFrom ws (resolver.layOutFirst r d upTo isLazy) fun _ _ => True :=
  .ask (h.layOutFields isLazy _ hws hr hd hc hm)

end Resolver.Moves

/-! ## 3. Frames -/

/-- **Whatever is resolved is one move after another**, with any number of frames left. -/
theorem Resolver.moves_within (frames : Nat) : (Resolver.within frames).Moves := by
  induction frames with
  | zero =>
    refine ⟨reliable_within 0, fun _ _ _ _ _ _ _ => Resolve.movesFrom_refuseFrame,
        fun _ _ ws hws hr => ?_⟩
    refine ⟨((reliable_within 0).evaluate _ _ hws.sound hr).weaken,
        Resolve.movesFrom_refuseFrame.1, ?_⟩
    exact fun _ _ => trivial
  | succ frames ih =>
    refine ⟨reliable_within (frames + 1), fun {ws r d} upTo isLazy hws hr hd hc hm => ?_,
      fun scope expr ws hws hr => ?_⟩
    · have hlaid := Resolve.movesFrom_inFrame (ih.layOutFirst
          (hws.setDepth (ws.depth + 1)) hr hd hc hm upTo
        isLazy)
      exact .map (f := fun _ => ()) (hlaid.mono fun _ _ _ => trivial)
    · refine ⟨((reliable_within (frames + 1)).evaluate scope expr hws.sound hr).weaken, ?_⟩
      exact Resolve.movesFrom_inFrame
        (ih.evaluateIn scope expr _ (hws.setDepth (ws.depth + 1)) hr).moves

end ByteAtlas
