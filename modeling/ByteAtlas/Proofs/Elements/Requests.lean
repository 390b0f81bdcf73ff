import ByteAtlas.Proofs.Elements.Frames
import ByteAtlas.Proofs.Resolve.Requests

/-!
# Every request is one move after another

Questions to an instance, expanding everything, and whatever programs are made of them
(`Request.proceeds`).
-/

namespace ByteAtlas

open Resolve (MovesFrom Proceeds)

namespace Resolve

/-- A request with as many frames as the limit admits. -/
theorem moves_resolving {α : Type} {r : InstanceRef} {request : Resolver → Resolve α}
    (h : ∀ resolver : Resolver, resolver.Moves → Moves r (request resolver)) :
    Moves r (Resolve.resolving request) := fun ws hws hr =>
  .ask (h _ (Resolver.moves_within _) ws hws hr)

/-- With no instance to ask. -/
theorem proceeds_resolving {α : Type} {ws : Workspace} {request : Resolver → Resolve α}
    {post : α → Workspace → Prop}
    (h : ∀ resolver : Resolver, resolver.Moves → Proceeds ws (request resolver) post) :
    Proceeds ws (Resolve.resolving request) post :=
  .ask (h _ (Resolver.moves_within _))

end Resolve

/-! ## 1. Questions -/

/-- **Every question to a live instance.** -/
theorem Question.moves {α : Type} {question : InstanceRef → Resolve α} (h : Question question)
    (r : InstanceRef) : Resolve.Moves r (question r) := by
  cases h with
  | enumerate upTo isLazy => exact Resolve.moves_resolving fun _ h => h.enumerate upTo isLazy
  | isPresent i isLazy => exact Resolve.moves_resolving fun _ h => (h.answers r).isPresent i isLazy
  | fieldOffset i isLazy => exact Resolve.moves_resolving fun _ h => h.fieldOffset i isLazy
  | valueOffset i n isLazy =>
    exact Resolve.moves_resolving fun _ h => (h.answers r).valueOffset (h.walk_idle i n) isLazy
  | elementCount i isLazy => exact Resolve.moves_resolving fun _ h => h.elementCount i isLazy
  | totalSize i isLazy => exact Resolve.moves_resolving fun _ h => h.totalSize i isLazy
  | fieldPreview i isLazy => exact Resolve.moves_resolving fun _ h => h.fieldPreview i isLazy
  | valuePreview i n => exact Resolve.moves_resolving fun _ h => (h.answers r).valuePreview i n
  | intValue i n => exact Resolve.moves_resolving fun _ h => (h.answers r).intValue i n
  | fieldSummary i => exact Resolve.moves_resolving fun _ h => (h.answers r).fieldSummary i
  | size isLazy => exact Resolve.moves_resolving fun _ h => h.size isLazy
  | canCreateNext isLazy loose =>
    exact Resolve.moves_resolving fun _ h => (h.answers r).canCreateNext isLazy loose
  | nextInfo isLazy => exact Resolve.moves_resolving fun _ h => (h.answers r).nextInfo isLazy
  | createNext reason => exact Resolve.moves_resolving fun _ h => h.createNext reason
  | argValue binding => exact Resolve.moves_resolving fun _ h => (h.answers r).argValue binding
  | evaluate source => exact Resolve.moves_resolving fun _ h => h.evaluateIn (.whole r) _
  | lookup scope name index isOffset =>
    exact Resolve.moves_resolving fun _ h => (h.answers r).lookup h.walk_idle scope name index isOffset
  | preview scope name => exact Resolve.moves_resolving fun _ h =>
      (h.answers r).namedPreview scope name
  | instancesOf scope struct isGlobal filter =>
    exact Resolve.moves_resolving fun _ h ws hws _ =>
      ((h.searches.environment _).instancesOf isGlobal filter trivial hws).weaken
  | evaluateIn scope expr =>
    exact Resolve.moves_resolving fun _ h => h.evaluateIn { scope with root := r } expr
  | select scope query =>
    exact Resolve.moves_resolving fun _ h ws hws hr =>
      ((h.searches.environment { scope with root := r }).run query (List.forall_mem_singleton.mpr hr)
        (fun _ _ => trivial) hws).weaken

/-! ## 2. Expanding everything -/

section

variable {r : InstanceRef} {ws : Workspace}

theorem moves_walk {σ : Type} {visit : Visitor σ}
    (hv : ∀ s child, Resolve.Moves child (visit s child)) (i : Nat) (upTo : Option Nat)
    (reason : Reason) (s : σ) : Resolve.Moves r (r.walk i upTo reason visit s) :=
  Resolve.moves_resolving fun _ h => h.walk hv i upTo reason s

theorem moves_expandFields (start budget left : Nat) : ∀ i : Nat,
    Resolve.Moves r (Resolve.expandFields start budget r left i) := by
  induction left with
  | zero => exact fun _ _ hws _ => .pure hws trivial
  | succ left ih =>
    intro i ws hws hr
    unfold Resolve.expandFields
    refine .ask ?_
    split
    · refine ((Question.isPresent i false).moves r ws hws hr).bind hws
        fun present ws₁ hws₁ hg₁ _ => ?_
      have hr₁ := hg₁.isLive hr
      split
      · have hvisit (s : Unit) (child : InstanceRef) :
            Resolve.Moves child (Resolve.visitWithin start budget s child) :=
          fun _ hws _ => .ask (.pure hws trivial)
        exact (moves_walk hvisit i none .autoExpand () ws₁ hws₁ hr₁).bind hws₁
          fun _ ws₂ hws₂ hg₂ _ => ih (i + 1) ws₂ hws₂ (hg₂.isLive hr₁)
      · exact ih (i + 1) ws₁ hws₁ hr₁
    · exact ih (i + 1) ws hws hr

theorem moves_expandInstance (start budget : Nat) :
    Resolve.Moves r (Resolve.expandInstance start budget r) := by
  have hrest : Resolve.Moves r
      (do
        let fieldCount ← Resolve.ask fun ws => (ws.structOf? r).elim 0 StructDef.fieldCount
        Resolve.expandFields start budget r fieldCount 0) :=
    fun ws hws hr => .ask (moves_expandFields start budget _ 0 ws hws hr)
  intro ws hws hr
  unfold Resolve.expandInstance
  refine ((Question.canCreateNext false false).moves r ws hws hr).bind hws
    fun more ws₁ hws₁ hg₁ _ => ?_
  have hr₁ := hg₁.isLive hr
  split
  · exact ((Question.createNext .autoExpand).moves r ws₁ hws₁ hr₁).bind hws₁
      fun _ ws₂ hws₂ hg₂ _ => hrest ws₂ hws₂ (hg₂.isLive hr₁)
  · exact hrest ws₁ hws₁ hr₁

/-- The turns of the instances, by induction on how many there may be. -/
theorem proceeds_expandFrom (file : Option FileId) (start budget left : Nat) :
    ∀ (index : Nat) {ws : Workspace}, ws.Ordered →
      Proceeds ws (Resolve.expandFrom file start budget left index) fun _ _ => True := by
  induction left with
  | zero => exact fun _ _ hws => .pure hws trivial
  | succ left ih =>
    intro index ws hws
    unfold Resolve.expandFrom
    refine .ask ?_
    split
    · refine .ask ?_
      split
      · exact .of_ends (ends_noteLimitHit hws.sound) Resolve.movesFrom_noteLimitHit
      · exact .pure hws trivial
    · refine .ask ?_
      cases hi : ws.directory.atIndex? index with
      | none => exact .pure hws trivial
      | some i =>
        dsimp only
        split
        · exact (moves_expandInstance start budget ws hws (isLive_atIndex? hws.sound hi)).bind hws
            fun _ _ hws₁ _ _ => ih (index + 1) hws₁
        · exact ih (index + 1) hws

end

/-! ## 3. Requests -/

/-- **Every request is one move after another.** -/
theorem Request.proceeds {α : Type} {step : Resolve α} (h : Request step) :
    ∀ {ws : Workspace}, ws.Ordered → Proceeds ws step fun _ _ => True := by
  have hinstance {α : Type} {question : InstanceRef → Resolve α} {ws : Workspace} (hws : ws.Ordered)
      (hq : ∀ r, ws.IsLive r → Proceeds ws (question r) fun _ _ => True) (id : InstanceId) :
      Proceeds ws (toInstance id question) fun _ _ => True := by
    unfold toInstance
    refine .ask ?_
    cases hi : ws.find? id with
    | none => exact .pure hws trivial
    | some i => exact (hq i.ref (hws.sound.isLive_of_find? hi)).map
  induction h with
  | done a => exact fun hws => .pure hws trivial
  | next _ _ ih ihs => exact fun hws => (ih hws).bind hws fun a _ hws₁ _ _ => ihs a hws₁
  | look f => exact fun hws => ⟨⟨_, _, rfl, hws.sound, .refl _, trivial⟩, .refl, fun _ _ => trivial⟩
  | question id hq => exact fun hws => hinstance hws (fun r hr => hq.moves r _ hws hr) id
  | children ids scope field filter =>
    intro ws hws
    have hlive : ws.AllLive (ids.filterMap fun id => (ws.find? id).map Instance.ref) := by
      intro r hr
      obtain ⟨id, _, hid⟩ := List.mem_filterMap.mp hr
      obtain ⟨i, hi, rfl⟩ := Option.map_eq_some_iff.mp hid
      exact hws.sound.isLive_of_find? hi
    exact .ask (Resolve.proceeds_resolving fun _ h =>
      ((h.searches.environment scope).children field filter hlive hws).weaken)
  | @walk σ id i upTo reason visit s hvisits ih =>
    intro ws hws
    exact hinstance hws (fun r hr => moves_walk (fun s child _ hws _ => ih s child hws) i upTo
      reason s ws hws hr) id
  | place p =>
    intro ws hws
    obtain ⟨hs', hg', _⟩ := hws.sound.place p
    exact ⟨⟨_, _, rfl, hs', hg', trivial⟩, (hws.sound.move_place p).moved hg'.toKeeps.within,
      fun _ _ => trivial⟩
  | create l =>
    intro ws hws
    obtain ⟨hs', hg'⟩ := hws.sound.create l
    refine ⟨⟨_, _, rfl, hs', hg', trivial⟩, ?_, fun _ _ => trivial⟩
    show ws.Moved (ws.create l).2
    unfold Workspace.create
    split
    · exact .refl
    · split
      · exact .refl
      · exact (hws.sound.move_place _).moved (hws.sound.place _).2.1.toKeeps.within
  | expandAll file =>
    exact fun hws => .ask (.ask ((proceeds_expandFrom file _ _ _ 0 hws).bind hws
      fun _ _ hws₁ _ _ => ⟨⟨_, _, rfl, hws₁.sound, .refl _, trivial⟩, .refl, fun _ _ => trivial⟩))

end ByteAtlas
