import ByteAtlas.Proofs.Resolve.QueryLaw

/-!
# Steps at a depth

Two resolvers that do the same wherever a step within the limits can ask them are as good as each
other. `Resolve.SameAt depth limits` relates steps: from every workspace at the depth and with the
limits both end with the same result in the same workspace, without a fault, and the depth and the
limits are as they were. That is a law of the questions about one instance (`Resolver.SameAt.law`),
of walks (`Resolver.SameAt.walks`) and of evaluating (`Law.sameAt`).

Nothing is asked of the workspace besides: any schema, any directory, any layouts.
-/

namespace ByteAtlas

namespace Resolve

variable {α β : Type}

/-- Whether two steps do the same from a workspace on, and leave its depth and its limits. -/
def SameFrom (ws : Workspace) (step step' : Resolve α) : Prop :=
  ∃ a ws', step.runIn ws = (.ok a, ws') ∧ step'.runIn ws = (.ok a, ws') ∧
    ws'.depth = ws.depth ∧ ws'.limits = ws.limits

/-- **Whether two steps do the same** at a depth and within limits. -/
def SameAt (depth : Nat) (limits : Limits) (step step' : Resolve α) : Prop :=
  ∀ ws, ws.depth = depth → ws.limits = limits → SameFrom ws step step'

/-- Looking at the workspace. -/
theorem SameFrom.ask {ws : Workspace} {f : Workspace → α} {next next' : α → Resolve β}
    (h : SameFrom ws (next (f ws)) (next' (f ws))) :
    SameFrom ws (Resolve.ask f >>= next) (Resolve.ask f >>= next') := by
  obtain ⟨b, ws', hrun, hrun', hrest⟩ := h
  refine ⟨b, ws', ?_, ?_, hrest⟩ <;> rw [runIn_bind, runIn_ask]
  · exact hrun
  · exact hrun'

namespace SameAt

variable {depth : Nat} {limits : Limits} {step step' : Resolve α} {next next' : α → Resolve β}

/-! ## 1. Rules -/

theorem pure (a : α) : SameAt depth limits (Pure.pure a) (Pure.pure a) :=
  fun ws _ _ => ⟨a, ws, rfl, rfl, rfl, rfl⟩

theorem ask (f : Workspace → α) : SameAt depth limits (Resolve.ask f) (Resolve.ask f) :=
  fun ws _ _ => ⟨f ws, ws, rfl, rfl, rfl, rfl⟩

theorem get : SameAt depth limits (MonadState.get : Resolve Workspace) MonadState.get :=
  fun ws _ _ => ⟨ws, ws, rfl, rfl, rfl, rfl⟩

theorem update {f : Workspace → α × Workspace} (hf : ∀ ws, (f ws).2.depth = ws.depth)
    (hf' : ∀ ws, (f ws).2.limits = ws.limits) :
    SameAt depth limits (Resolve.update f) (Resolve.update f) :=
  fun ws _ _ => ⟨_, _, rfl, rfl, hf ws, hf' ws⟩

theorem change {f : Workspace → Workspace} (hf : ∀ ws, (f ws).depth = ws.depth)
    (hf' : ∀ ws, (f ws).limits = ws.limits) :
    SameAt depth limits (Resolve.change f) (Resolve.change f) :=
  fun ws _ _ => ⟨_, _, rfl, rfl, hf ws, hf' ws⟩

theorem modifyLayout (r : InstanceRef) (f : Layout → Layout) :
    SameAt depth limits (ByteAtlas.modifyLayout r f) (ByteAtlas.modifyLayout r f) :=
  change (fun _ => rfl) fun _ => rfl

theorem modifyEntry (r : InstanceRef) (i : Nat) (f : FieldEntry → FieldEntry) :
    SameAt depth limits (ByteAtlas.modifyEntry r i f) (ByteAtlas.modifyEntry r i f) :=
  modifyLayout r _

/-- **One step after another.** -/
theorem bind (h : SameAt depth limits step step')
    (hn : ∀ a, SameAt depth limits (next a) (next' a)) :
    SameAt depth limits (step >>= next) (step' >>= next') := by
  intro ws hd hl
  obtain ⟨a, ws₁, hrun, hrun', hd₁, hl₁⟩ := h ws hd hl
  obtain ⟨b, ws₂, hrun₁, hrun₁', hd₂, hl₂⟩ := hn a ws₁ (hd₁.trans hd) (hl₁.trans hl)
  refine ⟨b, ws₂, ?_, ?_, hd₂.trans hd₁, hl₂.trans hl₁⟩
  · rw [runIn_bind, hrun]
    exact hrun₁
  · rw [runIn_bind, hrun']
    exact hrun₁'

theorem ite {c : Prop} [Decidable c] {other other' : Resolve α}
    (h : c → SameAt depth limits step step') (h' : ¬ c → SameAt depth limits other other') :
    SameAt depth limits (if c then step else other) (if c then step' else other') := by
  split
  · exact h ‹c›
  · exact h' ‹¬ c›

theorem unlessCutShort {step step' : Resolve (Option α)} (h : SameAt depth limits step step') :
    SameAt depth limits (ByteAtlas.unlessCutShort step) (ByteAtlas.unlessCutShort step') :=
  .bind (.ask _) fun _ => .bind h fun _ => .bind (.ask _) fun _ => .pure _

theorem noteLimitHit : SameAt depth limits ByteAtlas.noteLimitHit ByteAtlas.noteLimitHit :=
  change (fun _ => rfl) fun _ => rfl

/-! ## 2. Frames -/

/-- **One frame further in**, as long as the limit admits one more. -/
theorem inFrame_of_lt (hlt : depth < limits.maxDepth)
    (h : SameAt (depth + 1) limits step step') :
    SameAt depth limits (ByteAtlas.inFrame step) (ByteAtlas.inFrame step') := by
  rintro ws rfl rfl
  obtain ⟨a, ws', hrun, hrun', hd', hl'⟩ := h { ws with depth := ws.depth + 1 } rfl rfl
  refine ⟨some a, { ws' with depth := ws'.depth - 1 }, ?_, ?_, ?_, hl'⟩
  · rw [runIn_inFrame_of_lt step hlt, hrun]
  · rw [runIn_inFrame_of_lt step' hlt, hrun']
  · show ws'.depth - 1 = ws.depth
    rw [hd']
    exact Nat.add_sub_cancel ws.depth 1

/-- **Beyond the limit** no step is taken, whatever it is. -/
theorem refused (hle : limits.maxDepth ≤ depth) (step : Resolve α) :
    SameAt depth limits
      (do
        ByteAtlas.refuseFrame
        Pure.pure none)
      (ByteAtlas.inFrame step) := by
  rintro ws rfl rfl
  exact ⟨none, (ByteAtlas.refuseFrame.runIn ws).2, rfl, runIn_inFrame_of_le step hle, rfl, rfl⟩

end SameAt

end Resolve

open Resolve (SameAt)

/-- **A count within the limit** is a number unless the limit is less than none. -/
theorem sameAt_limitCount {depth : Nat} {limits : Limits} (hlimit : 0 ≤ limits.maxElements)
    (count : Int64) : SameAt depth limits (limitCount count) (limitCount count) := by
  rintro ws rfl rfl
  have hlast : SameAt ws.depth ws.limits
      (if ws.limits.maxElements < 0 then throw .negativeElementLimit
        else pure (if count < 0 then 0
          else if ws.limits.maxElements < count then ws.limits.maxElements else count))
      (if ws.limits.maxElements < 0 then throw .negativeElementLimit
        else pure (if count < 0 then 0
          else if ws.limits.maxElements < count then ws.limits.maxElements else count)) := by
    rw [if_neg (Int64.not_lt.mpr hlimit)]
    exact .pure _
  exact .ask (SameAt.ite (fun _ => .bind .noteLimitHit fun _ => hlast) (fun _ => hlast) ws rfl rfl)

/-- **Whether two resolvers do the same** at a depth and within limits that admit elements. -/
structure Resolver.SameAt (depth : Nat) (limits : Limits) (a b : Resolver) : Prop where
  limit : 0 ≤ limits.maxElements
  layOut : ∀ r d upTo isLazy,
    Resolve.SameAt depth limits (a.layOut r d upTo isLazy) (b.layOut r d upTo isLazy)
  evaluate : ∀ scope expr, Resolve.SameAt depth limits (a.evaluate scope expr) (b.evaluate scope expr)

/-- **Doing the same is a law** of what is asked of one instance. -/
def Resolver.SameAt.law {depth : Nat} {limits : Limits} {a b : Resolver}
    (h : a.SameAt depth limits b) (r : InstanceRef) : a.FieldLaw b r where
  Holds := Resolve.SameAt depth limits
  Defines _ := True
  pure := .pure
  bind := .bind
  struct hn := .bind (.ask _) fun d => hn d fun _ _ => trivial
  schema _ := .ask _
  fileSize := .ask _
  layout := .ask _
  instance? _ _ := .ask _
  evaluate constants before _ _ _ := h.evaluate ⟨r, constants, before⟩ _

theorem Resolver.SameAt.notes {depth : Nat} {limits : Limits} {a b : Resolver}
    (h : a.SameAt depth limits b) (r : InstanceRef) : (h.law r).Notes where
  modifyLayout := .modifyLayout r
  validate _ := .change (fun _ => rfl) fun _ => rfl
  readOn i field type wanted start count := .bind .get fun ws => by
    cases ws.entryOf? r i with
    | none => exact .pure false
    | some entry => exact .bind (.modifyEntry r i _) fun _ => .pure _
  limitCount := sameAt_limitCount h.limit
  unlessCutShort := .unlessCutShort
  layOut {d} upTo isLazy _ := h.layOut r d upTo isLazy

theorem Resolver.SameAt.answers {depth : Nat} {limits : Limits} {a b : Resolver}
    (h : a.SameAt depth limits b) (r : InstanceRef) : (h.law r).Answers :=
  (h.notes r).answers

namespace Resolver.SameAt

variable {depth : Nat} {limits : Limits} {a b : Resolver} (h : a.SameAt depth limits b)
  (r : InstanceRef)
include h

/-! ## 3. Children -/

theorem createNext (reason : Reason) :
    Resolve.SameAt depth limits (a.createNext r reason) (b.createNext r reason) :=
  .bind ((h.answers r).size false) fun
    | none => .pure none
    | some _ => .ite (fun _ => .pure none) fun _ => .bind (.ask _) fun
      | none => .pure none
      | some _ => .ite (fun _ => .pure none) fun _ =>
        .bind (.update (fun _ => rfl) fun _ => rfl) fun _ => .pure _

theorem placeChild (field : Field) (struct : String) (reason : Reason) (offset : Int64)
    (budget : Budget) :
    Resolve.SameAt depth limits (a.placeChild r field struct reason offset budget)
      (b.placeChild r field struct reason offset budget) :=
  .bind (.update (fun _ => rfl) fun _ => rfl) fun _ => .ite
    (fun _ => .bind ((h.answers r).argValues _) fun _ => .bind (.change (fun _ => rfl) fun _ => rfl)
      fun _ => .pure _)
    fun _ => .pure _

end Resolver.SameAt

/-! ## 4. Walks and queries -/

/-- **Doing the same is a law** of steps side by side. -/
def Law.sameAt (depth : Nat) (limits : Limits) : Law Resolve InstanceRef Unit where
  Holds _ step step' _ := Resolve.SameAt depth limits step step'
  Later _ _ := True
  Found _ _ := True
  Asked _ := True
  stays _ _ := trivial
  pure _ := .pure _
  bind h hn := .bind h fun a => hn a () trivial fun _ _ => trivial

namespace Resolver.SameAt

variable {depth : Nat} {limits : Limits} {a b : Resolver} (h : a.SameAt depth limits b)

/-- It is a law of walks, for whatever reason. -/
def walks (reason : Reason) : (Law.sameAt depth limits).Walks a b reason where
  Has _ r field := (h.law r).Has field
  Child _ _ := True
  found _ := trivial
  childStays _ _ := trivial
  hasStays _ hfield := hfield
  fields {_ r} _ := h.law r
  answers {_ r} _ := h.answers r
  asks _ _ _ _ hsame := hsame
  has _ _ hfield := hfield
  field {_ r _ _ _ _} i _ hn := (h.law r).field i hn
  createNext _ hn := .bind (h.createNext _ reason) fun c => hn c () trivial fun _ _ => trivial
  placeChild offset budget _ _ _ hn :=
    .bind (h.placeChild _ _ _ reason offset budget) fun c => hn c () trivial trivial

include h

theorem walk {σ : Type} {visit visit' : Visitor σ}
    (hv : ∀ s child, Resolve.SameAt depth limits (visit s child) (visit' s child))
    (r : InstanceRef) (i : Nat) (upTo : Option Nat) (reason : Reason) (s : σ) :
    Resolve.SameAt depth limits (a.walk r i upTo reason visit s) (b.walk r i upTo reason visit' s) :=
  (h.walks reason).walk_tellsNone _ _ (w := ()) (fun s _ => hv s _) trivial i upTo s

theorem walk_addSize (r : InstanceRef) (i : Nat) : Resolve.SameAt depth limits
    (a.walk r i none .query a.addSize 0) (b.walk r i none .query b.addSize 0) :=
  (h.walks .query).walk_addSize (w := ()) trivial i

theorem walk_idle (r : InstanceRef) (i n : Nat) : Resolve.SameAt depth limits
    (a.walk r i (some n) .query .idle ()) (b.walk r i (some n) .query .idle ()) :=
  (h.walks .query).walk_idle (w := ()) trivial i n

theorem environment (scope : Scope) :
    (Law.sameAt depth limits).Governs (a.environment scope) (b.environment scope) :=
  ((h.walks .query).searches (fun _ _ _ => .ask _) (fun _ _ => .ask _)
    fun _ => h.walk_idle _).environment scope

theorem evaluateIn (scope : Scope) (expr : Expr) :
    Resolve.SameAt depth limits (a.evaluateIn scope expr) (b.evaluateIn scope expr) :=
  (h.environment scope).evaluate expr (w := ()) (fun _ _ => trivial) fun _ _ => trivial

theorem select (scope : Scope) (query : Query) :
    Resolve.SameAt depth limits (query.run (a.environment scope))
      (query.run (b.environment scope)) :=
  (h.environment scope).run query (w := ()) (fun _ _ => trivial) fun _ _ => trivial

theorem layOutFirst (r : InstanceRef) (d : StructDef) (upTo : Nat) (isLazy : Bool) :
    Resolve.SameAt depth limits (a.layOutFirst r d upTo isLazy) (b.layOutFirst r d upTo isLazy) :=
  (h.notes r).layOutFirst (h.walk_addSize r) trivial upTo isLazy

end Resolver.SameAt

end ByteAtlas
