import ByteAtlas.Resolve.Frames
import ByteAtlas.Proofs.Elements.Moves
import ByteAtlas.Proofs.Resolve.Through

/-!
# Steps that move

A step that is taken in a workspace with every entry in order ends soundly, and leads there by one
move after another (`Resolve.Proceeds`). Soundness is known of every step of a resolver as a whole;
here it is told how it moves. Its parts are taken one after the other, each from the workspace
that the one before it has left (`Resolve.Proceeds.call`), so what a part says of its own outcome is
at hand when the next one is looked at.
-/

namespace ByteAtlas

namespace Workspace

variable {ws ws' : Workspace}

/-- A workspace that is sound, and to which moves have led from one in order. -/
theorem Ordered.moved (h : ws.Ordered) (hs : ws'.Sound True) (hm : ws.Moved ws') : ws'.Ordered :=
  ⟨hs, hm.inOrder h.inOrder⟩

/-- Another number of frames open does not matter. -/
theorem Ordered.setDepth (h : ws.Ordered) (depth : Nat) : Ordered { ws with depth } :=
  ⟨h.sound.setDepth depth, h.inOrder⟩

/-- A change of a layout keeps everything else. -/
theorem keeps_modifyLayout (ws : Workspace) (r : InstanceRef) (g : Layout → Layout) :
    ws.Keeps (ws.modifyLayout r g) :=
  (sets_modifyLayout ws r g).keeps

/-- A layout is changed. -/
theorem Ordered.rewrite (h : ws.Ordered) {r : InstanceRef} {d : StructDef} {g : Layout → Layout}
    (hr : ws.IsLive r) (hd : ws.structOf? r = some d)
    (hrewrites : ws.Rewrites r d (ws.layoutOf r) (g (ws.layoutOf r)))
    (hs : (ws.modifyLayout r g).Sound True) : (ws.modifyLayout r g).Ordered :=
  h.moved hs ((Move.layout hr hd hrewrites).moved (ws.keeps_modifyLayout r g).within)

end Workspace

namespace Resolve

variable {α β : Type}

/-- **Whether a step makes moves only**, and `post` holds of its result. -/
def MovesFrom (ws : Workspace) (step : Resolve α) (post : α → Workspace → Prop) : Prop :=
  Through ws.Moved ws step post

/-- **Whether a step ends soundly, by one move after another.** -/
structure Proceeds (ws : Workspace) (step : Resolve α) (post : α → Workspace → Prop) : Prop where
  ends : Ends True ws step ws fun _ _ => True
  moves : MovesFrom ws step post

/-- The same in every workspace in which an instance is live. -/
def Moves (r : InstanceRef) (step : Resolve α) : Prop :=
  ∀ ws : Workspace, ws.Ordered → ws.IsLive r → Proceeds ws step fun _ _ => True

namespace MovesFrom

variable {ws : Workspace} {step : Resolve α} {next : α → Resolve β}
  {post mid : α → Workspace → Prop} {last : β → Workspace → Prop}

theorem pure {a : α} (h : post a ws) : MovesFrom ws (Pure.pure a) post :=
  Through.pure .refl h

theorem mono (h : MovesFrom ws step mid) (hp : ∀ a ws', mid a ws' → post a ws') :
    MovesFrom ws step post :=
  Through.mono h (fun _ hmoved => hmoved) fun a ws' _ => hp a ws'

/-- Looking at the workspace. -/
theorem ask {f : Workspace → α} (h : MovesFrom ws (next (f ws)) last) :
    MovesFrom ws (Resolve.ask f >>= next) last :=
  Through.ask h

/-- Looking at all of the workspace. -/
theorem get {next : Workspace → Resolve β} (h : MovesFrom ws (next ws) last) :
    MovesFrom ws (MonadState.get >>= next) last := h

/-- What moves have led to, in the course of a step. -/
theorem after {ws₁ : Workspace} (hmoved : ws.Moved ws₁) (h : MovesFrom ws₁ step post) :
    Through ws.Moved ws₁ step post :=
  Through.mono h (fun _ => hmoved.trans) fun _ _ _ hp => hp

/-- **A move.** -/
theorem change {f : Workspace → Workspace} {next : Unit → Resolve β} (h : ws.Move (f ws))
    (hk : ws.KeepsWithin (f ws)) (hn : MovesFrom (f ws) (next ()) last) :
    MovesFrom ws (Resolve.change f >>= next) last :=
  Through.change (hn.after (h.moved hk))

/-- A change of the layout of an instance. -/
theorem rewrite {r : InstanceRef} {d : StructDef} {g : Layout → Layout} {next : Unit → Resolve β}
    (hr : ws.IsLive r) (hd : ws.structOf? r = some d)
    (h : ws.Rewrites r d (ws.layoutOf r) (g (ws.layoutOf r)))
    (hn : MovesFrom (ws.modifyLayout r g) (next ()) last) :
    MovesFrom ws (modifyLayout r g >>= next) last :=
  .change (.layout hr hd h) (ws.keeps_modifyLayout r g).within hn

theorem map {f : α → β} (h : MovesFrom ws step fun a ws' => last (f a) ws') :
    MovesFrom ws (f <$> step) last :=
  Through.map h

end MovesFrom

namespace Proceeds

variable {ws : Workspace} {step : Resolve α} {next : α → Resolve β}
  {post mid : α → Workspace → Prop} {last : β → Workspace → Prop}

/-- A step that moves, with what is known about its end. -/
theorem of_ends (h : Ends True ws step ws post) (hm : MovesFrom ws step mid) :
    Proceeds ws step post := by
  refine ⟨h.weaken, hm.1, fun a ha => ?_⟩
  obtain ⟨a', ws', hrun, _, _, hp⟩ := h
  rw [hrun] at ha ⊢
  cases ha
  exact hp

theorem mono (h : Proceeds ws step mid) (hp : ∀ a ws', mid a ws' → post a ws') :
    Proceeds ws step post :=
  ⟨h.ends, h.moves.mono hp⟩

/-- Whatever comes of it. -/
theorem weaken (h : Proceeds ws step post) : Proceeds ws step fun _ _ => True :=
  h.mono fun _ _ _ => trivial

theorem pure {a : α} (hws : ws.Ordered) (h : post a ws) : Proceeds ws (Pure.pure a) post :=
  ⟨.pure hws.sound (.refl ws) trivial, .pure h⟩

theorem ask {f : Workspace → α} (h : Proceeds ws (next (f ws)) last) :
    Proceeds ws (Resolve.ask f >>= next) last :=
  ⟨.ask h.ends, .ask h.moves⟩

theorem map {f : α → β} (h : Proceeds ws step fun a ws' => last (f a) ws') :
    Proceeds ws (f <$> step) last :=
  ⟨.map h.ends, h.moves.map⟩

theorem thenPure {f : α → β} (h : Proceeds ws step fun a ws' => last (f a) ws') :
    Proceeds ws (step >>= fun a => Pure.pure (f a)) last := by
  rw [← map_eq_pure_bind]
  exact h.map

/-- **A step whose outcome is known**, in the course of another one. -/
theorem call (h : Proceeds ws step mid) (hws : ws.Ordered)
    (hn : ∀ a ws₁, ws₁.Ordered → ws.Grows ws₁ → ws.Moved ws₁ → mid a ws₁ →
      MovesFrom ws₁ (next a) last) : MovesFrom ws (step >>= next) last := by
  obtain ⟨⟨a, ws₁, hrun, hs, hg, _⟩, hmoved, hmid⟩ := h
  rw [hrun] at hmoved hmid
  exact Through.run hrun
    ((hn a ws₁ (hws.moved hs hmoved) hg hmoved (hmid a rfl)).after hmoved)

/-- **One step after another.** -/
theorem bind (h : Proceeds ws step mid) (hws : ws.Ordered)
    (hn : ∀ a ws₁, ws₁.Ordered → ws.Grows ws₁ → mid a ws₁ → Proceeds ws₁ (next a) last) :
    Proceeds ws (step >>= next) last := by
  refine ⟨?_, h.call hws fun a ws₁ hws₁ hg₁ _ hp => (hn a ws₁ hws₁ hg₁ hp).moves⟩
  obtain ⟨⟨a, ws₁, hrun, hs₁, hg₁, _⟩, hmoved, hmid⟩ := h
  rw [hrun] at hmoved hmid
  exact .run hrun (.rebase hg₁ (hn a ws₁ (hws.moved hs₁ hmoved) hg₁ (hmid a rfl)).ends)

/-- What was cut short has no result. -/
theorem unlessCutShort {step : Resolve (Option α)} {post : Option α → Workspace → Prop}
    (h : Proceeds ws step post) : Proceeds ws (ByteAtlas.unlessCutShort step) fun a ws' =>
      (ws'.refusals = ws.refusals ∧ post a ws') ∨ (ws'.refusals ≠ ws.refusals ∧ a = none) :=
  ⟨(ends_unlessCutShort h.ends).weaken, Through.unlessCutShort h.moves⟩

end Proceeds

namespace Moves

variable {r : InstanceRef} {step : Resolve α} {next : α → Resolve β} {ws : Workspace}
  {post : α → Workspace → Prop} {last : β → Workspace → Prop}

/-- With what is known about the end of the step. -/
theorem proceeds (h : Moves r step) (hws : ws.Ordered) (hr : ws.IsLive r)
    (hends : Ends True ws step ws post) : Proceeds ws step post :=
  .of_ends hends (h ws hws hr).moves

/-- **A step that moves**, in the course of another one. -/
theorem call (h : Moves r step) (hws : ws.Ordered) (hr : ws.IsLive r)
    (hn : ∀ a ws₁, ws₁.Ordered → ws.Grows ws₁ → ws₁.IsLive r → MovesFrom ws₁ (next a) last) :
    MovesFrom ws (step >>= next) last :=
  (h ws hws hr).call hws fun a ws₁ hws₁ hg _ _ => hn a ws₁ hws₁ hg (hg.isLive hr)

theorem look (f : Workspace → α) : Moves r (Resolve.ask f) :=
  fun ws hws _ => ⟨⟨f ws, ws, rfl, hws.sound, .refl ws, trivial⟩, .refl, fun _ _ => trivial⟩

theorem unlessCutShort {step : Resolve (Option α)} (h : Moves r step) :
    Moves r (ByteAtlas.unlessCutShort step) := fun ws hws hr =>
  let h := (h ws hws hr).unlessCutShort
  ⟨h.ends, h.moves.mono fun _ _ _ => trivial⟩

end Moves

/-- A limit is hit. -/
theorem movesFrom_noteLimitHit {ws : Workspace} : MovesFrom ws noteLimitHit fun _ ws' =>
    ws' = { ws with limitHits := ws.limitHits + 1 } := by
  refine ⟨(Workspace.Move.count ws.depth ws.refusals (ws.limitHits + 1)).moved
    { Workspace.Keeps.refl ws with }, fun _ _ => rfl⟩

/-- A frame is refused. -/
theorem movesFrom_refuseFrame {ws : Workspace} : MovesFrom ws refuseFrame fun _ _ => True :=
  ⟨(Workspace.Move.count ws.depth (ws.refusals + 1) (ws.limitHits + 1)).moved
    { Workspace.Keeps.refl ws with refusals := Nat.le_succ _ }, fun _ _ => trivial⟩

/-- **One frame further in.** -/
theorem movesFrom_inFrame {ws : Workspace} {step : Resolve α} {post : α → Workspace → Prop}
    (h : MovesFrom { ws with depth := ws.depth + 1 } step post) :
    MovesFrom ws (inFrame step) fun _ _ => True := by
  have hk (depth : Nat) : ws.KeepsWithin { ws with depth } :=
    { Workspace.Keeps.refl ws with }
  refine ⟨?_, fun _ _ => trivial⟩
  by_cases hd : ws.depth < ws.limits.maxDepth
  · rw [runIn_inFrame_of_lt step hd]
    have hin :=
      ((Workspace.Move.count (ws.depth + 1) ws.refusals ws.limitHits).moved (hk _)).trans h.1
    rcases hrun : step.runIn { ws with depth := ws.depth + 1 } with ⟨_ | a, ws'⟩ <;>
      rw [hrun] at hin
    · exact hin
    · exact .tail hin (.count (ws'.depth - 1) ws'.refusals ws'.limitHits) hin.keeps
  · rw [runIn_inFrame_of_le step (Nat.not_lt.mp hd)]
    exact movesFrom_refuseFrame.1

end Resolve

/-- **Whether the steps of a resolver that take a frame move**, and end soundly. -/
structure Resolver.Moves (resolver : Resolver) : Prop where
  reliable : resolver.Reliable True
  layOut : ∀ {ws : Workspace} {r : InstanceRef} {d : StructDef} (upTo : Nat) (isLazy : Bool),
    ws.Ordered → ws.IsLive r → ws.structOf? r = some d →
    (ws.layoutOf r).stamp = some (ws.stampOf r d) → (ws.layoutOf r).measuring = none →
    Resolve.MovesFrom ws (resolver.layOut r d upTo isLazy) fun _ _ => True
  evaluate : ∀ (scope : Scope) (expr : Expr), Resolve.Moves scope.root (resolver.evaluate scope expr)

end ByteAtlas
