import ByteAtlas.Resolve.Frames
import ByteAtlas.Proofs.Resolve.Sound

/-!
# Steps that end soundly

`Resolve.Ends once start step ws post`: the step, taken in `ws`, ends without a fault in a sound
workspace that has grown from `start`, and `post` holds of its result there. A proof about a step of
several parts goes from part to part: what only looks at the workspace is run (`Ends.ask`), what
changes it is run as well (`Ends.change`), and a step of which the theorem is known already is
called (`Ends.call`). `start` stays the workspace in which the whole step began, because a part by
itself may undo what another part has noted since.
-/

namespace ByteAtlas

namespace Resolve

variable {α β : Type}

/-- **A step that ends soundly.** -/
def Ends (once : Prop) (start : Workspace) (step : Resolve α) (ws : Workspace)
    (post : α → Workspace → Prop) : Prop :=
  ∃ a ws', step.runIn ws = (.ok a, ws') ∧ ws'.Sound once ∧ start.Grows ws' ∧ post a ws'

namespace Ends

variable {once : Prop} {start ws ws₁ : Workspace} {step : Resolve α} {next : α → Resolve β}
  {post mid : α → Workspace → Prop} {last : β → Workspace → Prop}

theorem pure {a : α} (hs : ws.Sound once) (hg : start.Grows ws) (h : post a ws) :
    Ends once start (Pure.pure a) ws post :=
  ⟨a, ws, rfl, hs, hg, h⟩

theorem mono (h : Ends once start step ws mid)
    (hp : ∀ a ws', ws'.Sound once → start.Grows ws' → mid a ws' → post a ws') :
    Ends once start step ws post := by
  obtain ⟨a, ws', hrun, hs, hg, hm⟩ := h
  exact ⟨a, ws', hrun, hs, hg, hp a ws' hs hg hm⟩

/-- Only that the step ends soundly. -/
theorem weaken (h : Ends once start step ws post) : Ends once start step ws fun _ _ => True :=
  h.mono fun _ _ _ _ _ => trivial

/-- **A step whose theorem is known**, in the course of another one. -/
theorem call (h : Ends once ws step ws mid)
    (hn : ∀ a ws', ws'.Sound once → ws.Grows ws' → mid a ws' → Ends once start (next a) ws' last) :
    Ends once start (step >>= next) ws last := by
  obtain ⟨a, ws', hrun, hs, hg, hm⟩ := h
  obtain ⟨b, ws'', hrun', hrest⟩ := hn a ws' hs hg hm
  refine ⟨b, ws'', ?_, hrest⟩
  rw [runIn_bind, hrun]
  exact hrun'

/-- **A step of which it is known how it ends.** -/
theorem run {a : α} (hrun : step.runIn ws = (.ok a, ws₁)) (h : Ends once start (next a) ws₁ last) :
    Ends once start (step >>= next) ws last := by
  obtain ⟨b, ws', hrun', hrest⟩ := h
  refine ⟨b, ws', ?_, hrest⟩
  rw [runIn_bind, hrun]
  exact hrun'

/-- What is known of a step that has been taken. -/
theorem of_run (h : Ends once start step ws post) {a : α} (hrun : step.runIn ws = (.ok a, ws₁)) :
    ws₁.Sound once ∧ start.Grows ws₁ ∧ post a ws₁ := by
  obtain ⟨b, ws', hrun', hs, hg, hp⟩ := h
  rw [hrun] at hrun'
  cases hrun'
  exact ⟨hs, hg, hp⟩

/-- The last of several steps. -/
theorem finish (hg : start.Grows ws) (h : Ends once ws step ws mid)
    (hp : ∀ a ws', ws'.Sound once → ws.Grows ws' → mid a ws' → post a ws') :
    Ends once start step ws post := by
  obtain ⟨a, ws', hrun, hs, hg', hm⟩ := h
  exact ⟨a, ws', hrun, hs, hg.trans hg', hp a ws' hs hg' hm⟩

/-- Only what happens from here on matters. -/
theorem rebase (hg : start.Grows ws) (h : Ends once ws step ws post) : Ends once start step ws post :=
  finish hg h fun _ _ _ _ hp => hp

/-- Looking at the workspace. -/
theorem ask {f : Workspace → α} (h : Ends once start (next (f ws)) ws last) :
    Ends once start (Resolve.ask f >>= next) ws last := by
  obtain ⟨b, ws', hrun, hrest⟩ := h
  exact ⟨b, ws', by rw [runIn_bind, runIn_ask]; exact hrun, hrest⟩

/-- Looking at all of the workspace. -/
theorem get {next : Workspace → Resolve β} (h : Ends once start (next ws) ws last) :
    Ends once start (MonadState.get >>= next) ws last := by
  obtain ⟨b, ws', hrun, hrest⟩ := h
  exact ⟨b, ws', hrun, hrest⟩

/-- Changing the workspace. -/
theorem change {f : Workspace → Workspace} {next : Unit → Resolve β}
    (h : Ends once start (next ()) (f ws) last) :
    Ends once start (Resolve.change f >>= next) ws last := by
  obtain ⟨b, ws', hrun, hrest⟩ := h
  exact ⟨b, ws', by rw [runIn_bind, runIn_change]; exact hrun, hrest⟩

/-- Changing the workspace with a result. -/
theorem update {f : Workspace → α × Workspace} (h : Ends once start (next (f ws).1) (f ws).2 last) :
    Ends once start (Resolve.update f >>= next) ws last := by
  obtain ⟨b, ws', hrun, hrest⟩ := h
  exact ⟨b, ws', by rw [runIn_bind, runIn_update]; exact hrun, hrest⟩

/-- Changing the workspace last. -/
theorem change_last {f : Workspace → Workspace} {post : Unit → Workspace → Prop}
    (hs : (f ws).Sound once) (hg : start.Grows (f ws)) (h : post () (f ws)) :
    Ends once start (Resolve.change f) ws post :=
  ⟨(), f ws, runIn_change f ws, hs, hg, h⟩

theorem map {f : α → β} (h : Ends once start step ws fun a ws' => last (f a) ws') :
    Ends once start (f <$> step) ws last := by
  obtain ⟨a, ws', hrun, hs, hg, hl⟩ := h
  exact ⟨f a, ws', by rw [runIn_map, hrun]; rfl, hs, hg, hl⟩

end Ends

/-- **A step that ends soundly wherever an instance is live.** -/
def EndsFor (once : Prop) (r : InstanceRef) (step : Resolve α) : Prop :=
  ∀ ⦃ws : Workspace⦄, ws.Sound once → ws.IsLive r → Ends once ws step ws fun _ _ => True

theorem EndsFor.look {once : Prop} {r : InstanceRef} (f : Workspace → α) :
    EndsFor once r (Resolve.ask f) :=
  fun ws hs _ => ⟨f ws, ws, rfl, hs, .refl ws, trivial⟩

end Resolve

open Resolve (Ends)

/-! ## 1. Counters -/

section

variable {once : Prop} {ws : Workspace}

/-- Another number of frames open does not matter. -/
theorem Workspace.Sound.setDepth (h : ws.Sound once) (depth : Nat) :
    Workspace.Sound once { ws with depth } :=
  ⟨h.directory, h.limit, h.known, h.fits, h.measuring, h.versions, h.stamps, h.sizes⟩

theorem Workspace.Sound.count (h : ws.Sound once) (refusals limitHits : Nat) :
    Workspace.Sound once { ws with refusals, limitHits } :=
  ⟨h.directory, h.limit, h.known, h.fits, h.measuring, h.versions, h.stamps, h.sizes⟩

theorem Workspace.Grows.count {refusals : Nat} (h : ws.refusals ≤ refusals) (limitHits : Nat) :
    ws.Grows { ws with refusals, limitHits } :=
  { Workspace.Grows.refl ws with refusals := h }

theorem ends_noteLimitHit (hs : ws.Sound once) : Ends once ws noteLimitHit ws fun _ _ => True :=
  .change_last (hs.count ws.refusals _) (.count (Nat.le_refl _) _) trivial

theorem ends_refuseFrame (hs : ws.Sound once) :
    Ends once ws refuseFrame ws fun _ ws' => ws.refusals < ws'.refusals :=
  .change_last (hs.count _ _) (.count (Nat.le_succ _) _) (Nat.lt_succ_self _)

/-- **A step within one more frame** ends as the step does, or the frame is refused. -/
theorem ends_inFrame {α : Type} {step : Resolve α} {post : α → Workspace → Prop} (hs : ws.Sound once)
    (h : ∀ depth, Ends once { ws with depth } step { ws with depth } post)
    (hpost : ∀ a ws' depth, post a ws' → post a { ws' with depth }) :
    Ends once ws (inFrame step) ws fun a ws' =>
      (∀ x, a = some x → post x ws') ∧ (a = none → ws.refusals < ws'.refusals) := by
  by_cases hd : ws.depth < ws.limits.maxDepth
  · obtain ⟨a, ws', hrun, hs', hg, hp⟩ := h (ws.depth + 1)
    refine ⟨some a, { ws' with depth := ws'.depth - 1 }, ?_, hs'.setDepth _, ?_, ?_, ?_⟩
    · rw [runIn_inFrame_of_lt step hd, hrun]
    · have hdepth : ws'.depth - 1 = ws.depth := by
        rw [hg.depth]
        exact Nat.add_sub_cancel ws.depth 1
      exact ⟨⟨hg.schema, hg.files, hg.limits, hdepth, hg.refusals, hg.nextId, hg.instances,
        hg.added⟩, hg.layouts, hg.idle, hg.settled⟩
    · rintro x ⟨⟩
      exact hpost _ _ _ hp
    · exact fun e => nomatch e
  · have hrun := runIn_inFrame_of_le step (Nat.not_lt.mp hd)
    obtain ⟨a, ws', hrun', hs', hg, hlt⟩ := ends_refuseFrame hs
    rw [hrun'] at hrun
    exact ⟨none, ws', hrun, hs', hg, (fun x e => nomatch e), fun _ => hlt⟩

/-- What was cut short has no result, and nothing else changes its result. -/
theorem ends_unlessCutShort {α : Type} {step : Resolve (Option α)}
    {post : Option α → Workspace → Prop} (h : Ends once ws step ws post) :
    Ends once ws (unlessCutShort step) ws fun a ws' =>
      (ws'.refusals = ws.refusals ∧ post a ws') ∨ (ws'.refusals ≠ ws.refusals ∧ a = none) := by
  unfold unlessCutShort
  refine .ask (.call h fun a ws' hs hg hp => .ask (.pure hs hg ?_))
  by_cases hsame : ws'.refusals = ws.refusals
  · rw [if_pos hsame]
    exact .inl ⟨hsame, hp⟩
  · rw [if_neg hsame]
    exact .inr ⟨hsame, rfl⟩

end

end ByteAtlas
