import Mathlib
import ByteAtlas.Resolve.Expand
import ByteAtlas.Proofs.Directory.WellFormed
import ByteAtlas.Proofs.Resolve.Depth

/-!
# Resolution ends

Laying out fields and evaluating expressions lead to one another, as often as a schema makes them.
`Resolver.unrolled` follows them so many frames deep; what lies further in is left open, it may be
anything. With more frames than the limit still admits, what is left open is never asked for
(`Resolver.sameAt_unrolled`): by then every frame is refused. So every call returns, in no more
frames than the limit admits, and gives back the frames that it took
(`Call.returns_within_limit`).

The bounds on turns never take effect either. Joining a preview stops as soon as it is long enough
(`Resolver.takePreviews_of_le`), and an expand pass no later than at the place after the last
instance that it may make (`Resolver.SameAt.expandFrom`).
-/

namespace ByteAtlas

open Resolve (SameAt ask)

/-! ## 1. Resolvers that go so many frames deep -/

/-- A step with an alarm where more frames are open than the limit admits. -/
def watched {α : Type} (alarm : Resolve Unit) (step : Resolve α) : Resolve α := do
  if ← ask fun ws => decide (ws.limits.maxDepth < ws.depth) then alarm
  step

/-- Within the limit there is no alarm. -/
theorem Resolve.SameAt.watched {α : Type} {depth : Nat} {limits : Limits} {step step' : Resolve α}
    (h : SameAt depth limits step step') (hdepth : depth ≤ limits.maxDepth)
    (alarm : Resolve Unit) : SameAt depth limits step (ByteAtlas.watched alarm step') := by
  rintro ws rfl rfl
  obtain ⟨a, ws', hrun, hrun', hrest⟩ := h ws rfl rfl
  refine ⟨a, ws', hrun, ?_, hrest⟩
  have hquiet : decide (ws.limits.maxDepth < ws.depth) = false :=
    decide_eq_false (Nat.not_lt.mpr hdepth)
  rw [ByteAtlas.watched, runIn_bind, runIn_ask, hquiet]
  exact hrun'

namespace Resolver

/-- **The resolver unrolled so many frames deep**, with any resolver for what lies further in, and
with an alarm in every frame. -/
def unrolled (base : Resolver) (alarm : Resolve Unit) : (frames : Nat) → Resolver
  | 0 => base
  | frames + 1 =>
    { layOut := fun r d upTo isLazy => do
        let _ ← inFrame (watched alarm ((unrolled base alarm frames).layOutFirst r d upTo isLazy))
        pure ()
      evaluate := fun scope expr =>
        inFrame (watched alarm ((unrolled base alarm frames).evaluateIn scope expr)) }

/-- **What lies deeper than the limit is never asked for.** -/
theorem sameAt_unrolled {limits : Limits} (hlimit : 0 ≤ limits.maxElements) (base : Resolver)
    (alarm : Resolve Unit) (frames : Nat) : ∀ {depth : Nat}, limits.maxDepth - depth < frames →
      (within (limits.maxDepth - depth)).SameAt depth limits (unrolled base alarm frames) := by
  induction frames with
  | zero => exact fun h => absurd h (Nat.not_lt_zero _)
  | succ frames ih =>
    intro depth hframes
    by_cases hdepth : depth < limits.maxDepth
    · have hnext : limits.maxDepth - depth = limits.maxDepth - (depth + 1) + 1 := by omega
      have hdeeper : (within (limits.maxDepth - (depth + 1))).SameAt (depth + 1) limits
          (unrolled base alarm frames) := ih (by omega)
      rw [hnext]
      exact ⟨hlimit,
        fun r d upTo isLazy => .bind
          (.inFrame_of_lt hdepth ((hdeeper.layOutFirst r d upTo isLazy).watched hdepth alarm))
          fun _ => .pure (),
        fun scope expr =>
          .inFrame_of_lt hdepth ((hdeeper.evaluateIn scope expr).watched hdepth alarm)⟩
    · have hnone : limits.maxDepth - depth = 0 := by omega
      have hle := Nat.not_lt.mp hdepth
      rw [hnone]
      exact ⟨hlimit, fun r d upTo isLazy => .bind (.refused hle _) fun _ => .pure (),
        fun scope expr => .refused hle _⟩

end Resolver

/-- A request takes the resolver that the depth and the limits tell. -/
theorem Resolve.sameAt_resolving {α : Type} {depth : Nat} {limits : Limits}
    {request : Resolver → Resolve α} {step : Resolve α}
    (h : SameAt depth limits (request (.within (limits.maxDepth - depth))) step) :
    SameAt depth limits (resolving request) step := by
  rintro ws rfl rfl
  obtain ⟨a, ws', hrun, hrest⟩ := h ws rfl rfl
  refine ⟨a, ws', ?_, hrest⟩
  rw [resolving, runIn_bind, runIn_ask]
  exact hrun

/-! ## 2. Joining previews -/

/-- **Joining a preview never runs out of turns**: each preview that is taken makes it longer, and
there are as many turns as bytes. -/
theorem Resolver.takePreviews_of_le (resolver : Resolver) (r : InstanceRef) (i : Nat)
    (separated : Bool) (left : Nat) : ∀ {left' n : Nat} {joined : String},
      joined.utf8ByteSize < previewLimit → previewLimit ≤ joined.utf8ByteSize + left →
      previewLimit ≤ joined.utf8ByteSize + left' →
      resolver.takePreviews r i separated left n joined =
        resolver.takePreviews r i separated left' n joined := by
  induction left with
  | zero => exact fun hlt hleft _ => absurd hleft (by omega)
  | succ left ih =>
    intro left' n joined hlt hleft hleft'
    obtain ⟨left', rfl⟩ : ∃ k, left' = k + 1 := ⟨left' - 1, by omega⟩
    unfold Resolver.takePreviews
    congr 1
    funext preview
    cases preview with
    | none => rfl
    | some p =>
      dsimp only
      split
      · rfl
      · rename_i hmore
        rw [Bool.or_eq_true, not_or] at hmore
        have hp : p.utf8ByteSize ≠ 0 := fun hzero => hmore.1 (decide_eq_true hzero)
        have hshort := of_decide_eq_false (Bool.eq_false_iff.mpr hmore.2)
        have hsize :
            (joined ++ previewSeparator separated (n == 0) ++ p).utf8ByteSize =
              joined.utf8ByteSize + (previewSeparator separated (n == 0)).utf8ByteSize +
                p.utf8ByteSize := by
          rw [String.utf8ByteSize_append, String.utf8ByteSize_append]
        rw [@ih left' _ _ (by omega) (by omega) (by omega)]

/-! ## 3. Expanding everything -/

namespace Resolver

variable (resolver : Resolver)

/-- Placing the children in the fields of an instance, with a given resolver. -/
def expandFields (start budget : Nat) (r : InstanceRef) : (left i : Nat) → Resolve Unit
  | 0, _ => pure ()
  | left + 1, i => do
    if ← ask fun ws => ws.holdsChildren r i then
      if (← resolver.isPresent r i false) = some true then
        let _ ← resolver.walk r i none .autoExpand (Resolve.visitWithin start budget) ()
    expandFields start budget r left (i + 1)

/-- The turn of an instance, with a given resolver. -/
def expandInstance (start budget : Nat) (r : InstanceRef) : Resolve Unit := do
  if (← resolver.canCreateNext r false false) = some true then
    let _ ← resolver.createNext r .autoExpand
  let fieldCount ← ask fun ws => (ws.structOf? r).elim 0 StructDef.fieldCount
  resolver.expandFields start budget r fieldCount 0

/-- The turns of the instances from a place on, with a given resolver. -/
def expandFrom (file : Option FileId) (start budget : Nat) : (left index : Nat) → Resolve Unit
  | 0, _ => pure ()
  | left + 1, index => do
    let created ← Resolve.createdSince start
    if budget ≤ created then
      if ← ask fun ws => (ws.directory.toList.drop index).any (·.expandsIn file) then noteLimitHit
    else
      match ← ask fun ws => ws.directory.atIndex? index with
      | none => pure ()
      | some i =>
        if i.expandsIn file then resolver.expandInstance start budget i.ref
        expandFrom file start budget left (index + 1)

/-- **Expanding every instance**, with a given resolver and with more turns than are needed. -/
def expandAll (file : Option FileId) (more : Nat) : Resolve Nat := do
  let start ← ask fun ws => ws.directory.size
  let budget ← ask fun ws => ws.limits.maxExpandInstances
  resolver.expandFrom file start budget (start + budget + 1 + more) 0
  Resolve.createdSince start

end Resolver

section

variable {limits : Limits} {depth : Nat} {resolver : Resolver}
  (h : (Resolver.within (limits.maxDepth - depth)).SameAt depth limits resolver)
include h

namespace Resolver.SameAt

theorem expandFields (start budget : Nat) (r : InstanceRef) (left : Nat) : ∀ i : Nat,
    Resolve.SameAt depth limits (Resolve.expandFields start budget r left i)
      (resolver.expandFields start budget r left i) := by
  induction left with
  | zero => exact fun _ => .pure ()
  | succ left ih =>
    exact fun i => .bind (.ask _) fun _ => .ite
      (fun _ => .bind (Resolve.sameAt_resolving ((h.answers r).isPresent i false)) fun _ => .ite
        (fun _ => .bind (Resolve.sameAt_resolving
          (h.walk (fun _ _ => .bind (.ask _) fun _ => .pure _) r i none .autoExpand ())) fun _ => ih _)
        fun _ => ih _)
      fun _ => ih _

theorem expandInstance (start budget : Nat) (r : InstanceRef) :
    Resolve.SameAt depth limits (Resolve.expandInstance start budget r)
      (resolver.expandInstance start budget r) := by
  have hrest : Resolve.SameAt depth limits
      (do
        let fieldCount ← ask fun ws => (ws.structOf? r).elim 0 StructDef.fieldCount
        Resolve.expandFields start budget r fieldCount 0)
      (do
        let fieldCount ← ask fun ws => (ws.structOf? r).elim 0 StructDef.fieldCount
        resolver.expandFields start budget r fieldCount 0) :=
    .bind (.ask _) fun _ => h.expandFields start budget r _ 0
  exact .bind (Resolve.sameAt_resolving ((h.answers r).canCreateNext false false)) fun _ => .ite
    (fun _ => .bind (Resolve.sameAt_resolving (h.createNext r .autoExpand)) fun _ => hrest)
    fun _ => hrest

/-- **The pass stops of itself**: at the place after the last instance that it may make there is
none, or it has made as many as it may. -/
theorem expandFrom (file : Option FileId) (start budget left : Nat) : ∀ {left' index : Nat},
    start + budget < left + index → start + budget < left' + index → index ≤ start + budget →
    Resolve.SameAt depth limits (Resolve.expandFrom file start budget left index)
      (resolver.expandFrom file start budget left' index) := by
  induction left with
  | zero => exact fun hleft _ hindex => absurd hleft (by omega)
  | succ left ih =>
    intro left' index hleft hleft' hindex
    obtain ⟨left', rfl⟩ : ∃ n, left' = n + 1 := ⟨left' - 1, by omega⟩
    rintro ws rfl rfl
    refine .ask ?_
    by_cases hmade : budget ≤ ws.directory.size - start
    · rw [if_pos hmade, if_pos hmade]
      exact Resolve.SameAt.bind (.ask _)
        (fun _ => .ite (fun _ => .noteLimitHit) fun _ => .pure ()) ws rfl rfl
    · rw [if_neg hmade, if_neg hmade]
      refine .ask ?_
      cases hplace : ws.directory.atIndex? index with
      | none => exact Resolve.SameAt.pure () ws rfl rfl
      | some i =>
        have hlt : index < ws.directory.size := by
          refine Nat.lt_of_not_le fun hle => ?_
          rw [Directory.atIndex?_of_le hle] at hplace
          cases hplace
        have hrest := @ih left' (index + 1) (by omega) (by omega) (by omega)
        exact Resolve.SameAt.ite
          (fun _ => .bind (h.expandInstance start budget i.ref) fun _ => hrest) (fun _ => hrest)
          ws rfl rfl

theorem expandAll (file : Option FileId) (more : Nat) :
    Resolve.SameAt depth limits (Resolve.expandAll file) (resolver.expandAll file more) :=
  .bind (.ask _) fun start => .bind (.ask _) fun budget =>
    .bind (h.expandFrom file start budget _ (by omega) (by omega) (Nat.zero_le _)) fun _ => .ask _

end Resolver.SameAt

end

/-! ## 4. Calls -/

/-- **What can be asked**, each with the resolution that it stands for: of any instance, with any
indices, in any workspace. A visitor may ask in turn and may change what is neither the depth nor
the limits. An expand pass may be given any number of turns beyond those that it needs. -/
inductive Call : {α : Type} → Resolve α → (Resolver → Resolve α) → Prop where
  | done {α : Type} (a : α) : Call (pure a) fun _ => pure a
  | next {α β : Type} {step : Resolve α} {rest : α → Resolve β} {body : Resolver → Resolve α}
    {rest' : α → Resolver → Resolve β} : Call step body → (∀ a, Call (rest a) (rest' a)) →
    Call (step >>= rest) fun resolver => body resolver >>= fun a => rest' a resolver
  | update {α : Type} {f : Workspace → α × Workspace} : (∀ ws, (f ws).2.depth = ws.depth) →
    (∀ ws, (f ws).2.limits = ws.limits) → Call (Resolve.update f) fun _ => Resolve.update f
  | enumerate (r : InstanceRef) (upTo : Nat) (isLazy : Bool) :
    Call (r.enumerate upTo isLazy) (·.enumerate r upTo isLazy)
  | isPresent (r : InstanceRef) (i : Nat) (isLazy : Bool) :
    Call (r.isPresent i isLazy) (·.isPresent r i isLazy)
  | fieldOffset (r : InstanceRef) (i : Nat) (isLazy : Bool) :
    Call (r.fieldOffset i isLazy) (·.fieldOffset r i isLazy)
  | valueOffset (r : InstanceRef) (i n : Nat) (isLazy : Bool) :
    Call (r.valueOffset i n isLazy) (·.valueOffset r i n isLazy)
  | elementCount (r : InstanceRef) (i : Nat) (isLazy : Bool) :
    Call (r.elementCount i isLazy) (·.elementCount r i isLazy)
  | totalSize (r : InstanceRef) (i : Nat) (isLazy : Bool) :
    Call (r.totalSize i isLazy) (·.totalSize r i isLazy)
  | fieldPreview (r : InstanceRef) (i : Nat) (isLazy : Bool) :
    Call (r.fieldPreview i isLazy) (·.fieldPreview r i isLazy)
  | valuePreview (r : InstanceRef) (i n : Nat) : Call (r.valuePreview i n) (·.valuePreview r i n)
  | intValue (r : InstanceRef) (i n : Nat) : Call (r.intValue i n) (·.intValue r i n)
  | fieldSummary (r : InstanceRef) (i : Nat) : Call (r.fieldSummary i) (·.fieldSummary r i)
  | size (r : InstanceRef) (isLazy : Bool) : Call (r.size isLazy) (·.size r isLazy)
  | canCreateNext (r : InstanceRef) (isLazy loose : Bool) :
    Call (r.canCreateNext isLazy loose) (·.canCreateNext r isLazy loose)
  | nextInfo (r : InstanceRef) (isLazy : Bool) : Call (r.nextInfo isLazy) (·.nextInfo r isLazy)
  | createNext (r : InstanceRef) (reason : Reason) :
    Call (r.createNext reason) (·.createNext r reason)
  | walk {σ : Type} (r : InstanceRef) (i : Nat) (upTo : Option Nat) (reason : Reason)
    {visit : Visitor σ} {visit' : Resolver → Visitor σ} (s : σ) :
    (∀ s child, Call (visit s child) fun resolver => visit' resolver s child) →
    Call (r.walk i upTo reason visit s) fun resolver =>
      resolver.walk r i upTo reason (visit' resolver) s
  | argValue (r : InstanceRef) (binding : ArgBinding) :
    Call (r.argValue binding) (·.argValue r binding)
  | evaluate (r : InstanceRef) (source : String) :
    Call (r.evaluate source) (·.evaluateIn (.whole r) (Expr.compile source).tree)
  | evaluateIn (scope : Scope) (expr : Expr) :
    Call (scope.evaluate expr) (·.evaluateIn scope expr)
  | select (scope : Scope) (query : Query) :
    Call (scope.select query) fun resolver => query.run (resolver.environment scope)
  | expandAll (file : Option FileId) (more : Nat) :
    Call (Resolve.expandAll file) (·.expandAll file more)

/-- **A call is the resolution that it stands for**, with the frames that the limit admits. -/
theorem Call.sameAt {α : Type} {call : Resolve α} {body : Resolver → Resolve α}
    (hcall : Call call body) {depth : Nat} {limits : Limits} {resolver : Resolver}
    (h : (Resolver.within (limits.maxDepth - depth)).SameAt depth limits resolver) :
    SameAt depth limits call (body resolver) := by
  induction hcall with
  | done a => exact .pure a
  | next _ _ ih ihs => exact .bind ih ihs
  | update hdepth hlimits => exact .update hdepth hlimits
  | enumerate r upTo isLazy => exact Resolve.sameAt_resolving ((h.answers r).enumerate upTo isLazy)
  | isPresent r i isLazy => exact Resolve.sameAt_resolving ((h.answers r).isPresent i isLazy)
  | fieldOffset r i isLazy => exact Resolve.sameAt_resolving ((h.answers r).fieldOffset i isLazy)
  | valueOffset r i n isLazy =>
    exact Resolve.sameAt_resolving ((h.answers r).valueOffset (h.walk_idle r i n) isLazy)
  | elementCount r i isLazy => exact Resolve.sameAt_resolving ((h.answers r).elementCount i isLazy)
  | totalSize r i isLazy =>
    exact Resolve.sameAt_resolving ((h.notes r).totalSize (h.walk_addSize r) i isLazy)
  | fieldPreview r i isLazy => exact Resolve.sameAt_resolving ((h.answers r).fieldPreview i isLazy)
  | valuePreview r i n => exact Resolve.sameAt_resolving ((h.answers r).valuePreview i n)
  | intValue r i n => exact Resolve.sameAt_resolving ((h.answers r).intValue i n)
  | fieldSummary r i => exact Resolve.sameAt_resolving ((h.answers r).fieldSummary i)
  | size r isLazy => exact Resolve.sameAt_resolving ((h.answers r).size isLazy)
  | canCreateNext r isLazy loose =>
    exact Resolve.sameAt_resolving ((h.answers r).canCreateNext isLazy loose)
  | nextInfo r isLazy => exact Resolve.sameAt_resolving ((h.answers r).nextInfo isLazy)
  | createNext r reason => exact Resolve.sameAt_resolving (h.createNext r reason)
  | walk r i upTo reason s _ ih =>
    exact Resolve.sameAt_resolving (h.walk ih r i upTo reason s)
  | argValue r binding => exact Resolve.sameAt_resolving ((h.answers r).argValue binding)
  | evaluate r source => exact Resolve.sameAt_resolving (h.evaluateIn _ _)
  | evaluateIn scope expr => exact Resolve.sameAt_resolving (h.evaluateIn scope expr)
  | select scope query => exact Resolve.sameAt_resolving (h.select scope query)
  | expandAll file more => exact h.expandAll file more

/-- **Every call returns**, in any workspace with a limit that admits elements. The depth is then
what it was. No more frames lie within each other than the limit admits: whatever would be done in a
frame further in, and whatever would be done on an alarm, the call runs the same. -/
theorem Call.returns_within_limit {α : Type} {call : Resolve α} {body : Resolver → Resolve α}
    (hcall : Call call body) {ws : Workspace} (hlimit : 0 ≤ ws.limits.maxElements) :
    ∃ a ws', call.runIn ws = (.ok a, ws') ∧ ws'.depth = ws.depth ∧
      ∀ (base : Resolver) (alarm : Resolve Unit) (frames : Nat),
        ws.limits.maxDepth - ws.depth < frames →
        (body (.unrolled base alarm frames)).runIn ws = (.ok a, ws') := by
  have hbody (base : Resolver) (alarm : Resolve Unit) (frames : Nat)
      (h : ws.limits.maxDepth - ws.depth < frames) :=
    hcall.sameAt (Resolver.sameAt_unrolled hlimit base alarm frames h) ws rfl rfl
  obtain ⟨a, ws', hrun, _, hdepth, _⟩ := hbody (.within 0) (pure ()) _ (Nat.lt_succ_self _)
  refine ⟨a, ws', hrun, hdepth, fun base alarm frames h => ?_⟩
  obtain ⟨a', ws'', hrun', hunrolled, _⟩ := hbody base alarm frames h
  rw [hrun] at hrun'
  cases hrun'
  exact hunrolled

namespace Workspace

/-- A struct with a field that lies where its own value says. -/
def selfPointing : StructDef :=
  { StructDef.empty with
    size := 4
    fields := ⟨[("at", { Field.ofType (.scalar .char) with
      offsetFormula := some ⟨"at", .member none "at" none false, by cbv⟩ })], by decide⟩ }

/-- An instance of it. -/
def selfPointingRef : InstanceRef := ⟨0, ⟨"Loop", 0, 0⟩⟩

/-- A workspace with this instance, and three frames. -/
def withSelfPointing : Workspace :=
  ((ofSchema ⟨(∅ : Std.TreeMap String StructDef).insert "Loop" selfPointing, 0⟩
    { Limits.default with maxDepth := 3 }).place (.single selfPointingRef.location .user)).2

/-- The offset of the field is asked for within itself until a frame is refused. -/
theorem returns_withSelfPointing : 0 ≤ withSelfPointing.limits.maxElements ∧
    ∃ a ws', (selfPointingRef.fieldOffset 0 false).runIn withSelfPointing = (.ok a, ws') ∧
      ws'.depth = 0 ∧ ws'.refusals = 1 ∧
      ∀ (base : Resolver) (alarm : Resolve Unit) (frames : Nat), 3 < frames →
        ((Resolver.unrolled base alarm frames).fieldOffset selfPointingRef 0 false).runIn
          withSelfPointing = (.ok a, ws') := by
  have hlimit : 0 ≤ withSelfPointing.limits.maxElements := by decide
  have hrefusals : ((selfPointingRef.fieldOffset 0 false).runIn withSelfPointing).2.refusals = 1 := by
    decide +kernel
  obtain ⟨a, ws', hrun, hdepth, hunrolled⟩ :=
    (Call.fieldOffset selfPointingRef 0 false).returns_within_limit hlimit
  rw [hrun] at hrefusals
  exact ⟨hlimit, a, ws', hrun, hdepth, hrefusals, hunrolled⟩

end Workspace

end ByteAtlas
