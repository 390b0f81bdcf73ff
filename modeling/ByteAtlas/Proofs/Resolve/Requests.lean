import ByteAtlas.Resolve.Expand
import ByteAtlas.Proofs.Resolve.Frames

/-!
# Requests

A `Question` is what can be asked of an instance, a `Request` what can be asked of a workspace: any
program made of questions, walks whose visitors make requests in turn, placing instances and
expanding everything. Instances are named by their numbers, so a request reaches live instances
only.

Every request ends soundly (`Request.ends`): it does not fault, and the workspace grows.
-/

namespace ByteAtlas

open Resolve (Ends)

/-! ## 1. Questions to an instance -/

/-- What can be asked of an instance. -/
inductive Question : {α : Type} → (InstanceRef → Resolve α) → Prop where
  | enumerate (upTo : Nat) (isLazy : Bool) : Question fun r => r.enumerate upTo isLazy
  | isPresent (i : Nat) (isLazy : Bool) : Question fun r => r.isPresent i isLazy
  | fieldOffset (i : Nat) (isLazy : Bool) : Question fun r => r.fieldOffset i isLazy
  | valueOffset (i n : Nat) (isLazy : Bool) : Question fun r => r.valueOffset i n isLazy
  | elementCount (i : Nat) (isLazy : Bool) : Question fun r => r.elementCount i isLazy
  | totalSize (i : Nat) (isLazy : Bool) : Question fun r => r.totalSize i isLazy
  | fieldPreview (i : Nat) (isLazy : Bool) : Question fun r => r.fieldPreview i isLazy
  | valuePreview (i n : Nat) : Question fun r => r.valuePreview i n
  | intValue (i n : Nat) : Question fun r => r.intValue i n
  | fieldSummary (i : Nat) : Question fun r => r.fieldSummary i
  | size (isLazy : Bool) : Question fun r => r.size isLazy
  | canCreateNext (isLazy loose : Bool) : Question fun r => r.canCreateNext isLazy loose
  | nextInfo (isLazy : Bool) : Question fun r => r.nextInfo isLazy
  | createNext (reason : Reason) : Question fun r => r.createNext reason
  | argValue (binding : ArgBinding) : Question fun r => r.argValue binding
  | evaluate (source : String) : Question fun r => r.evaluate source
  | lookup (scope : Scope) (name : String) (index : Int64) (isOffset : Bool) :
    Question fun r => scope.lookup r name index isOffset
  | preview (scope : Scope) (name : String) : Question fun r => scope.preview r name
  | instancesOf (scope : Scope) (struct : String) (isGlobal : Bool) (filter : QueryFilter) :
    Question fun r => Scope.instancesOf { scope with root := r } struct isGlobal filter
  | evaluateIn (scope : Scope) (expr : Expr) :
    Question fun r => Scope.evaluate { scope with root := r } expr
  | select (scope : Scope) (query : Query) :
    Question fun r => Scope.select { scope with root := r } query

section

variable {once : Prop} {α : Type} {ws : Workspace} {r : InstanceRef}

/-- **Every question to a live instance** ends soundly. -/
theorem Question.ends {question : InstanceRef → Resolve α} (h : Question question)
    (hs : ws.Sound once) (hr : ws.IsLive r) : Ends once ws (question r) ws fun _ _ => True := by
  cases h with
  | enumerate upTo isLazy =>
    exact Resolve.ends_resolving fun _ h => (h.enumerate hs hr upTo isLazy).weaken
  | isPresent i isLazy =>
    exact Resolve.ends_resolving fun _ h => (h.isPresent hs hr i isLazy).weaken
  | fieldOffset i isLazy =>
    exact Resolve.ends_resolving fun _ h => (h.fieldOffset hs hr i isLazy).weaken
  | valueOffset i n isLazy =>
    exact Resolve.ends_resolving fun _ h => (h.answers r).valueOffset (h.walk_idle i n) isLazy hs hr
  | elementCount i isLazy =>
    exact Resolve.ends_resolving fun _ h => (h.answers r).elementCount i isLazy hs hr
  | totalSize i isLazy => exact Resolve.ends_resolving fun _ h => (h.totalSize hs hr i isLazy).weaken
  | fieldPreview i isLazy =>
    exact Resolve.ends_resolving fun _ h => (h.fieldPreview hs hr i isLazy).weaken
  | valuePreview i n => exact Resolve.ends_resolving fun _ h => (h.valuePreview hs hr i n).weaken
  | intValue i n => exact Resolve.ends_resolving fun _ h => (h.intValue hs hr i n).weaken
  | fieldSummary i => exact Resolve.ends_resolving fun _ h => (h.answers r).fieldSummary i hs hr
  | size isLazy => exact Resolve.ends_resolving fun _ h => (h.size hs hr isLazy).weaken
  | canCreateNext isLazy loose =>
    exact Resolve.ends_resolving fun _ h => (h.answers r).canCreateNext isLazy loose hs hr
  | nextInfo isLazy => exact Resolve.ends_resolving fun _ h => (h.answers r).nextInfo isLazy hs hr
  | createNext reason =>
    exact Resolve.ends_resolving fun _ h => (h.createNext hs hr reason).weaken
  | argValue binding => exact Resolve.ends_resolving fun _ h => (h.answers r).argValue binding hs hr
  | evaluate source => exact Resolve.ends_resolving fun _ h => h.evaluateIn hs _ hr _
  | lookup scope name index isOffset =>
    exact Resolve.ends_resolving fun _ h =>
      (h.answers r).lookup h.walk_idle scope name index isOffset hs hr
  | preview scope name =>
    exact Resolve.ends_resolving fun _ h => (h.answers r).namedPreview scope name hs hr
  | instancesOf scope struct isGlobal filter =>
    exact Resolve.ends_resolving fun _ h =>
      ((h.searches.environment _).instancesOf isGlobal filter trivial hs).weaken
  | evaluateIn scope expr => exact Resolve.ends_resolving fun _ h => h.evaluateIn hs _ hr expr
  | select scope query =>
    exact Resolve.ends_resolving fun _ h =>
      (h.select hs { scope with root := r } hr query).weaken

/-! ## 2. Expanding everything -/

theorem ends_walk {σ : Type} {visit : Visitor σ}
    (hv : ∀ s child, Resolve.EndsFor once child (visit s child)) (hs : ws.Sound once)
    (hr : ws.IsLive r) (i : Nat) (upTo : Option Nat) (reason : Reason) (s : σ) :
    Ends once ws (r.walk i upTo reason visit s) ws fun _ _ => True :=
  Resolve.ends_resolving fun _ h => h.walk hv i upTo reason s hs hr

theorem ends_expandFields (start budget left : Nat) : ∀ (i : Nat) {ws : Workspace},
    ws.Sound once → ws.IsLive r →
    Ends once ws (Resolve.expandFields start budget r left i) ws fun _ _ => True := by
  induction left with
  | zero => exact fun i _ hs _ => .pure hs (.refl _) trivial
  | succ left ih =>
    intro i ws hs hr
    have hrest {ws₁ : Workspace} (hs₁ : ws₁.Sound once) (hg₁ : ws.Grows ws₁) :
        Ends once ws (Resolve.expandFields start budget r left (i + 1)) ws₁ fun _ _ => True :=
      .rebase hg₁ (ih (i + 1) hs₁ (hg₁.isLive hr))
    unfold Resolve.expandFields
    refine .ask ?_
    split
    · refine .call ((Question.isPresent i false).ends hs hr) fun present ws₁ hs₁ hg₁ _ => ?_
      split
      · have hvisit (s : Unit) (child : InstanceRef) :
            Resolve.EndsFor once child (Resolve.visitWithin start budget s child) :=
          fun _ hs _ => .ask (.pure hs (.refl _) trivial)
        refine .call (ends_walk hvisit hs₁ (hg₁.isLive hr) i none .autoExpand ())
          fun _ ws₂ hs₂ hg₂ _ => ?_
        exact hrest hs₂ (hg₁.trans hg₂)
      · exact hrest hs₁ hg₁
    · exact hrest hs (.refl ws)

theorem ends_expandInstance (hs : ws.Sound once) (hr : ws.IsLive r) (start budget : Nat) :
    Ends once ws (Resolve.expandInstance start budget r) ws fun _ _ => True := by
  have hrest {ws₁ : Workspace} (hs₁ : ws₁.Sound once) (hg₁ : ws.Grows ws₁) :
      Ends once ws
        (do
          let fieldCount ← Resolve.ask fun ws => (ws.structOf? r).elim 0 StructDef.fieldCount
          Resolve.expandFields start budget r fieldCount 0)
        ws₁ fun _ _ => True :=
    .ask (.rebase hg₁ (ends_expandFields start budget _ 0 hs₁ (hg₁.isLive hr)))
  unfold Resolve.expandInstance
  refine .call ((Question.canCreateNext false false).ends hs hr) fun more ws₁ hs₁ hg₁ _ => ?_
  split
  · refine .call ((Question.createNext .autoExpand).ends hs₁ (hg₁.isLive hr))
      fun _ ws₂ hs₂ hg₂ _ => ?_
    exact hrest hs₂ (hg₁.trans hg₂)
  · exact hrest hs₁ hg₁

/-- The instance at a place in the order is live. -/
theorem isLive_atIndex? (hs : ws.Sound once) {index : Nat} {i : Instance}
    (hi : ws.directory.atIndex? index = some i) : ws.IsLive i.ref := by
  rw [Directory.atIndex?_eq_getElem?] at hi
  exact ⟨i, hs.directory.mem_toList.mp (List.mem_of_getElem? hi), rfl⟩

theorem ends_expandFrom (file : Option FileId) (start budget left : Nat) :
    ∀ (index : Nat) {ws : Workspace}, ws.Sound once →
    Ends once ws (Resolve.expandFrom file start budget left index) ws fun _ _ => True := by
  induction left with
  | zero => exact fun index _ hs => .pure hs (.refl _) trivial
  | succ left ih =>
    intro index ws hs
    unfold Resolve.expandFrom
    refine .ask ?_
    split
    · refine .ask ?_
      split
      · exact ends_noteLimitHit hs
      · exact .pure hs (.refl ws) trivial
    · refine .ask ?_
      cases hi : ws.directory.atIndex? index with
      | none => exact .pure hs (.refl ws) trivial
      | some i =>
        dsimp only
        split
        · refine .call (ends_expandInstance hs (isLive_atIndex? hs hi) start budget)
            fun _ ws₁ hs₁ hg₁ _ => ?_
          exact .rebase hg₁ (ih (index + 1) hs₁)
        · exact ih (index + 1) hs

theorem ends_expandAll (hs : ws.Sound once) (file : Option FileId) :
    Ends once ws (Resolve.expandAll file) ws fun _ _ => True :=
  .ask (.ask (.call (ends_expandFrom file _ _ _ 0 hs) fun _ _ hs₁ hg₁ _ =>
    ⟨_, _, rfl, hs₁, hg₁, trivial⟩))

end

/-! ## 3. Requests to a workspace -/

/-- A question to the instance with a number. -/
def toInstance {α : Type} (id : InstanceId) (question : InstanceRef → Resolve α) :
    Resolve (Option α) := do
  match ← Resolve.ask fun ws => ws.find? id with
  | none => pure none
  | some i => some <$> question i.ref

/-- A question to the instances with some numbers. -/
def toInstances {α : Type} (ids : List InstanceId) (question : List InstanceRef → Resolve α) :
    Resolve α := do
  let found ← Resolve.ask fun ws => ids.filterMap fun id => (ws.find? id).map Instance.ref
  question found

/-- **What can be asked of a workspace.** -/
inductive Request : {α : Type} → Resolve α → Prop where
  | done {α : Type} (a : α) : Request (pure a)
  | next {α β : Type} {step : Resolve α} {rest : α → Resolve β} :
    Request step → (∀ a, Request (rest a)) → Request (step >>= rest)
  /-- Reading anything of the workspace, without having it resolved. -/
  | look {α : Type} (f : Workspace → α) : Request (Resolve.ask f)
  | question {α : Type} (id : InstanceId) {question : InstanceRef → Resolve α} :
    Question question → Request (toInstance id question)
  | children (ids : List InstanceId) (scope : Scope) (field : String) (filter : QueryFilter) :
    Request (toInstances ids fun parents => scope.children parents field filter)
  /-- A walk, with a visitor that makes requests in turn. -/
  | walk {σ : Type} (id : InstanceId) (i : Nat) (upTo : Option Nat) (reason : Reason)
    {visit : Visitor σ} (s : σ) : (∀ s child, Request (visit s child)) →
    Request (toInstance id fun r => r.walk i upTo reason visit s)
  | place (p : Placement) : Request (Resolve.update fun ws => ws.place p)
  | create (l : Location) : Request (Resolve.update fun ws => ws.create l)
  | expandAll (file : Option FileId) : Request (Resolve.expandAll file)

section

variable {once : Prop} {α : Type} {ws : Workspace}

theorem ends_toInstance {question : InstanceRef → Resolve α} (hs : ws.Sound once)
    (hq : ∀ r, ws.IsLive r → Ends once ws (question r) ws fun _ _ => True) (id : InstanceId) :
    Ends once ws (toInstance id question) ws fun _ _ => True := by
  unfold toInstance
  refine .ask ?_
  cases hi : ws.find? id with
  | none => exact .pure hs (.refl ws) trivial
  | some i =>
    exact .map (hq i.ref (hs.isLive_of_find? hi))

/-- **Every request ends soundly.** -/
theorem Request.ends {step : Resolve α} (h : Request step) :
    ∀ {ws : Workspace}, ws.Sound once → Ends once ws step ws fun _ _ => True := by
  induction h with
  | done a => exact fun hs => .pure hs (.refl _) trivial
  | next _ _ ih ihs =>
    exact fun hs => .call (ih hs) fun a _ hs₁ hg₁ _ => .rebase hg₁ (ihs a hs₁)
  | look f => exact fun hs => ⟨_, _, rfl, hs, .refl _, trivial⟩
  | question id hq => exact fun hs => ends_toInstance hs (fun _ hr => hq.ends hs hr) id
  | children ids scope field filter =>
    intro ws hs
    refine .ask (Resolve.ends_resolving fun _ h => ?_)
    have hlive : ws.AllLive (ids.filterMap fun id => (ws.find? id).map Instance.ref) := by
      intro r hr
      obtain ⟨id, _, hid⟩ := List.mem_filterMap.mp hr
      obtain ⟨i, hi, rfl⟩ := Option.map_eq_some_iff.mp hid
      exact hs.isLive_of_find? hi
    exact ((h.searches.environment scope).children field filter hlive hs).weaken
  | @walk σ id i upTo reason visit s _ ih =>
    intro ws hs
    exact ends_toInstance hs (fun _ hr => ends_walk (fun s child _ hs _ => ih s child hs) hs hr i
      upTo reason s) id
  | place p =>
    intro ws hs
    obtain ⟨hs', hg', _⟩ := hs.place p
    exact ⟨_, _, rfl, hs', hg', trivial⟩
  | create l =>
    intro ws hs
    obtain ⟨hs', hg'⟩ := hs.create l
    exact ⟨_, _, rfl, hs', hg', trivial⟩
  | expandAll file => exact fun hs => ends_expandAll hs file

end

end ByteAtlas
