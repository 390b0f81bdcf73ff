import ByteAtlas.Resolve.Basic

/-!
# What a step leaves behind

`Resolve.Through kept ws step post`: wherever the step ends that is taken in `ws`, with a fault or
without, `kept` holds of the workspace, and `post` holds of its result. What is kept is a parameter:
which instances have been added, that none has been, by which moves the workspace has come there. A
proof about a step of several parts goes from part to part in the same way for each of them.
-/

namespace ByteAtlas

namespace Resolve

variable {α β : Type}

/-- **Whether something holds of the workspace that a step leaves behind**, and `post` of its
result. -/
def Through (kept : Workspace → Prop) (ws : Workspace) (step : Resolve α)
    (post : α → Workspace → Prop) : Prop :=
  kept (step.runIn ws).2 ∧ ∀ a, (step.runIn ws).1 = .ok a → post a (step.runIn ws).2

namespace Through

variable {kept kept' : Workspace → Prop} {ws ws₁ : Workspace} {step : Resolve α} {next : α → Resolve β}
  {post mid : α → Workspace → Prop} {last : β → Workspace → Prop}

theorem pure {a : α} (hk : kept ws) (h : post a ws) : Through kept ws (Pure.pure a) post :=
  ⟨hk, fun _ ha => Except.ok.inj ha ▸ h⟩

theorem throw (fault : Fault) (hk : kept ws) :
    Through kept ws (MonadExcept.throw fault : Resolve α) post :=
  ⟨hk, fun _ ha => nomatch ha⟩

theorem mono (h : Through kept ws step mid) (hk : ∀ ws', kept ws' → kept' ws')
    (hp : ∀ a ws', kept ws' → mid a ws' → post a ws') : Through kept' ws step post :=
  ⟨hk _ h.1, fun a ha => hp a _ h.1 (h.2 a ha)⟩

/-- **One step after another.** What the first part keeps is enough where it fails. -/
theorem bind (h : Through kept ws step mid) (hk : ∀ ws', kept ws' → kept' ws')
    (hn : ∀ a ws₁, kept ws₁ → mid a ws₁ → Through kept' ws₁ (next a) last) :
    Through kept' ws (step >>= next) last := by
  obtain ⟨hkept, hmid⟩ := h
  unfold Through
  rw [runIn_bind]
  rcases hrun : step.runIn ws with ⟨result, ws₁⟩
  rw [hrun] at hkept hmid
  cases result with
  | error fault => exact ⟨hk ws₁ hkept, fun _ ha => nomatch ha⟩
  | ok a => exact hn a ws₁ hkept (hmid a rfl)

/-- **A step of which it is known how it ends.** -/
theorem run {a : α} (hrun : step.runIn ws = (.ok a, ws₁)) (h : Through kept ws₁ (next a) last) :
    Through kept ws (step >>= next) last := by
  unfold Through at h ⊢
  rw [runIn_bind, hrun]
  exact h

/-- Looking at the workspace. -/
theorem ask {f : Workspace → α} (h : Through kept ws (next (f ws)) last) :
    Through kept ws (Resolve.ask f >>= next) last :=
  .run (runIn_ask f ws) h

/-- Changing the workspace. -/
theorem change {f : Workspace → Workspace} {next : Unit → Resolve β}
    (h : Through kept (f ws) (next ()) last) :
    Through kept ws (Resolve.change f >>= next) last :=
  .run (runIn_change f ws) h

/-- Changing the workspace with a result. -/
theorem update {f : Workspace → α × Workspace}
    (h : Through kept (f ws).2 (next (f ws).1) last) :
    Through kept ws (Resolve.update f >>= next) last :=
  .run (runIn_update f ws) h

theorem map {f : α → β} (h : Through kept ws step fun a ws' => last (f a) ws') :
    Through kept ws (f <$> step) last := by
  rw [map_eq_pure_bind]
  exact h.bind (fun _ hk => hk) fun _ _ hk hl => .pure hk hl

/-- What was cut short has no result, and nothing else changes its result. -/
theorem unlessCutShort {step : Resolve (Option α)} {post : Option α → Workspace → Prop}
    (h : Through kept ws step post) : Through kept ws (ByteAtlas.unlessCutShort step) fun a ws' =>
      (ws'.refusals = ws.refusals ∧ post a ws') ∨ (ws'.refusals ≠ ws.refusals ∧ a = none) := by
  refine .ask (h.bind (fun _ hk => hk) fun a ws₁ hk hp => .ask (.pure hk ?_))
  by_cases hsame : ws₁.refusals = ws.refusals
  · rw [if_pos hsame]
    exact .inl ⟨hsame, hp⟩
  · rw [if_neg hsame]
    exact .inr ⟨hsame, rfl⟩

end Through

end Resolve

end ByteAtlas
