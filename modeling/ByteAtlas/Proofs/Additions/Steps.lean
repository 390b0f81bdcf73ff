import ByteAtlas.Resolve.Frames
import ByteAtlas.Proofs.Expr.Laws
import ByteAtlas.Proofs.Flat.Reference
import ByteAtlas.Proofs.Resolve.Sound
import ByteAtlas.Proofs.Resolve.Through

/-!
# What a resolution does to the instances

Whatever is resolved, the instances that are there stay. Of such an instance at most the chain
budget is another afterwards, and the reason if it is placed for a stronger one; the new instances
come after it (`Workspace.Adds`). Nothing is asked of the layouts for that, so it holds in every
state and for every step, whether it ends with a result or not (`Resolve.OnlyAdds`).

It is also told of which structs instances are placed. Children have the types of the fields that
hold them, so if some structs are closed under what their definitions hold and ask about
(`Schema.Closed`), no step that is about their instances places any other. What it does not place
keeps its budget.
-/

namespace ByteAtlas

/-! ## 1. Structs that lead to one another -/

/-- **Whether what a schema says about the structs `asked` leads to no others**: the fields hold
children of the structs `placed` only, and the expressions ask for instances of the structs `asked`
only. -/
structure Schema.Closed (s : Schema) (asked placed : String → Prop) : Prop where
  asks : ∀ {name : String}, placed name → asked name
  children : ∀ {name struct : String} {d : StructDef} {f : String × Field}, asked name →
    s.get? name = some d → f ∈ d.fields.entries → f.2.type = .struct struct → placed struct
  queries : ∀ {name struct : String} {d : StructDef} {f : String × Field} {formula : Formula},
    asked name → s.get? name = some d → f ∈ d.fields.entries → formula ∈ f.2.formulas →
    struct ∈ formula.expr.queried → asked struct

/-- All structs lead to some struct. -/
theorem Schema.closed_all (s : Schema) : s.Closed (fun _ => True) fun _ => True :=
  ⟨fun _ => trivial, fun _ _ _ _ => trivial, fun _ _ _ _ _ => trivial⟩

/-! ## 2. Instances that are added -/

/-- **Whether an instance is the same but for its budget**, and for the reason `reason`, if it has
been placed again for that. -/
structure Instance.Retouched (reason : Reason) (i i' : Instance) : Prop where
  same : Workspace.SameInstance i i'
  reason : i'.reason = i.reason ∨ i'.reason = i.reason.stronger reason

namespace Instance.Retouched

variable {reason : Reason} {a b c : Instance}

theorem refl (reason : Reason) (i : Instance) : i.Retouched reason i := ⟨.refl i, .inl rfl⟩

theorem trans (hab : a.Retouched reason b) (hbc : b.Retouched reason c) :
    a.Retouched reason c := by
  refine ⟨hab.same.trans hbc.same, ?_⟩
  have hidem (x y : Reason) : (x.stronger y).stronger y = x.stronger y := by
    cases x <;> cases y <;> rfl
  rcases hab.reason with hb | hb <;> rcases hbc.reason with hc | hc <;> rw [hc, hb]
  · exact .inl rfl
  · exact .inr rfl
  · exact .inr rfl
  · exact .inr (hidem _ _)

theorem struct (h : a.Retouched reason b) : b.struct = a.struct :=
  congrArg InstanceRef.struct h.same.ref

/-- No reason is weaker than a query. -/
theorem stronger_query (why : Reason) : why.stronger .query = why := by
  cases why <;> rfl

theorem of_query (h : a.Retouched .query b) : a.Retouched reason b := by
  refine ⟨h.same, .inl ?_⟩
  rcases h.reason with hb | hb
  · exact hb
  · rw [hb, stronger_query]

end Instance.Retouched

namespace Workspace

/-- **What a step that places instances of the structs `placed`** for a reason, or for a query, does
to the instances: those that were there are still there, the others come after them. -/
structure Adds (reason : Reason) (placed : String → Prop) (ws ws' : Workspace) : Prop where
  wellFormed : ws'.directory.WellFormed
  schema : ws'.schema = ws.schema
  nextId : ws.directory.nextId ≤ ws'.directory.nextId
  kept : ∀ id i, ws.find? id = some i → ∃ i', ws'.find? id = some i' ∧ i.Retouched reason i' ∧
    (¬ placed i.struct → i' = i)
  added : ∀ id i, ws'.find? id = some i → ws.find? id = none →
    ws.directory.nextId ≤ id ∧ placed i.struct ∧ (i.reason = reason ∨ i.reason = .query)
  /-- Each frame that is refused is a limit that is hit. -/
  hits : ws'.refusals + ws.limitHits ≤ ws.refusals + ws'.limitHits

/-- Whether an instance with a number, if there is one, is of one of some structs. -/
def Holds (ws : Workspace) (placed : String → Prop) (id : InstanceId) : Prop :=
  ∀ i, ws.find? id = some i → placed i.struct

namespace Adds

variable {reason : Reason} {placed : String → Prop} {ws ws' : Workspace} {a b c : Workspace}

/-- Nothing happens to the instances. -/
theorem of_directory (hw : ws.directory.WellFormed) (hschema : ws'.schema = ws.schema)
    (hd : ws'.directory = ws.directory)
    (hits : ws'.refusals + ws.limitHits ≤ ws.refusals + ws'.limitHits) :
    ws.Adds reason placed ws' := by
  have hfind (id : InstanceId) : ws'.find? id = ws.find? id := by
    rw [Workspace.find?, hd, Workspace.find?]
  refine ⟨hd ▸ hw, hschema, Nat.le_of_eq (by rw [hd]), ?_, ?_, hits⟩
  · intro id i hi
    exact ⟨i, (hfind id).trans hi, .refl reason i, fun _ => rfl⟩
  · intro id i hi hnone
    rw [hfind, hnone] at hi
    cases hi

theorem refl (hw : ws.directory.WellFormed) : ws.Adds reason placed ws :=
  .of_directory hw rfl rfl (Nat.le_refl _)

theorem trans (hab : a.Adds reason placed b) (hbc : b.Adds reason placed c) :
    a.Adds reason placed c := by
  refine ⟨hbc.wellFormed, hbc.schema.trans hab.schema, Nat.le_trans hab.nextId hbc.nextId, ?_, ?_,
    ?_⟩
  · intro id i hi
    obtain ⟨i₁, hi₁, h₁, hsame₁⟩ := hab.kept id i hi
    obtain ⟨i₂, hi₂, h₂, hsame₂⟩ := hbc.kept id i₁ hi₁
    refine ⟨i₂, hi₂, h₁.trans h₂, fun hp => ?_⟩
    rw [← hsame₁ hp]
    exact hsame₂ (by rwa [h₁.struct])
  · intro id i hi hnone
    cases hb : b.find? id with
    | none =>
      obtain ⟨hle, hrest⟩ := hbc.added id i hi hb
      exact ⟨Nat.le_trans hab.nextId hle, hrest⟩
    | some i₁ =>
      obtain ⟨hle, hp, hreason⟩ := hab.added id i₁ hb hnone
      obtain ⟨i₂, hi₂, h₂, _⟩ := hbc.kept id i₁ hb
      rw [hi] at hi₂
      cases hi₂
      refine ⟨hle, by rwa [h₂.struct], ?_⟩
      -- What was placed for a query may have been placed again for the reason.
      have hidem (x : Reason) : x.stronger x = x := by cases x <;> rfl
      have hquery (x : Reason) : Reason.query.stronger x = x := by cases x <;> rfl
      rcases h₂.reason with h | h <;> rcases hreason with hr | hr <;> rw [h, hr]
      · exact .inl rfl
      · exact .inr rfl
      · exact .inl (hidem reason)
      · exact .inl (hquery reason)
  · have h₁ := hab.hits
    have h₂ := hbc.hits
    omega

/-- What is placed for queries may be said to be placed for any reason. -/
theorem of_query (h : ws.Adds .query placed ws') : ws.Adds reason placed ws' where
  wellFormed := h.wellFormed
  schema := h.schema
  nextId := h.nextId
  kept id i hi := by
    obtain ⟨i', hi', hr, hsame⟩ := h.kept id i hi
    exact ⟨i', hi', hr.of_query, hsame⟩
  added id i hi hnone := by
    obtain ⟨hle, hp, hreason⟩ := h.added id i hi hnone
    exact ⟨hle, hp, .inr (hreason.elim (fun h => h) fun h => h)⟩
  hits := h.hits

/-- What is under a number stays there. -/
theorem holds (h : ws.Adds reason placed ws') {id : InstanceId} (hid : ws.Holds placed id) :
    ws'.Holds placed id := by
  intro i hi
  cases hold : ws.find? id with
  | none => exact (h.added id i hi hold).2.1
  | some i₀ =>
    obtain ⟨i', hi', hr, _⟩ := h.kept id i₀ hold
    rw [hi] at hi'
    cases hi'
    rw [hr.struct]
    exact hid i₀ hold

/-- **Placing an instance.** -/
theorem place (hw : ws.directory.WellFormed) (p : Placement) (hp : placed p.location.struct) :
    ws.Adds p.reason placed (ws.place p).2 := by
  refine ⟨hw.add p, rfl, ?_, ?_, ?_, Nat.le_refl _⟩
  · show ws.directory.nextId ≤ (ws.directory.add p).2.nextId
    unfold Directory.add
    split
    · exact Nat.le_refl _
    · exact Nat.le_succ _
  · intro id i hi
    show ∃ i', (ws.directory.add p).2.find? id = some i' ∧ _
    have hi : ws.directory.find? id = some i := hi
    cases hfound : ws.directory.findAt? p.location with
    | some there =>
      rw [Directory.add_of_taken hfound, Directory.find?_modify]
      by_cases he : there.id = id
      · obtain ⟨hthere, hl⟩ := hw.findAt?_eq_some.mp hfound
        rw [he, hi] at hthere
        cases hthere
        rw [if_pos he, he, hi]
        refine ⟨i.merge p.reason p.budget, rfl, ⟨rfl, .inr rfl⟩, fun hno => absurd ?_ hno⟩
        show placed i.location.struct
        rwa [hl]
      · exact ⟨i, by rw [if_neg he, hi], .refl _ i, fun _ => rfl⟩
    | none =>
      refine ⟨i, ?_, .refl _ i, fun _ => rfl⟩
      rw [Directory.find?_add_of_free hfound, if_neg (Nat.ne_of_gt (hw.lt id i hi)), hi]
  · intro id i hi hnone
    have hi : (ws.directory.add p).2.find? id = some i := hi
    have hnone : ws.directory.find? id = none := hnone
    cases hfound : ws.directory.findAt? p.location with
    | some there =>
      rw [Directory.add_of_taken hfound, Directory.find?_modify] at hi
      split at hi
      · rename_i he
        rw [he, hnone] at hi
        cases hi
      · rw [hnone] at hi
        cases hi
    | none =>
      rw [Directory.find?_add_of_free hfound] at hi
      split at hi
      · rename_i he
        cases hi
        exact ⟨Nat.le_of_eq he, hp, .inl rfl⟩
      · rw [hnone] at hi
        cases hi

/-- A new instance may still be changed, but for its reason. -/
theorem modify_new (h : ws.Adds reason placed ws') {id : InstanceId} (hnew : ws.find? id = none)
    {f : Instance → Instance} (hf : KeepsPlace f) (hreason : ∀ i, (f i).reason = i.reason) :
    ws.Adds reason placed (ws'.modify id f) := by
  have hfind (other : InstanceId) : (ws'.modify id f).find? other =
      if id = other then (ws'.find? id).map f else ws'.find? other :=
    Directory.find?_modify ws'.directory id other f
  refine ⟨h.wellFormed.modify id hf.id hf.location, h.schema, h.nextId, ?_, ?_, h.hits⟩
  · intro other i hi
    obtain ⟨i', hi', hrest⟩ := h.kept other i hi
    refine ⟨i', ?_, hrest⟩
    rw [hfind, if_neg, hi']
    rintro rfl
    rw [hnew] at hi
    cases hi
  · intro other i hi hnone
    rw [hfind] at hi
    split at hi
    · rename_i he
      subst he
      obtain ⟨i₀, hi₀, rfl⟩ := Option.map_eq_some_iff.mp hi
      obtain ⟨hle, hp, hr⟩ := h.added id i₀ hi₀ hnone
      refine ⟨hle, ?_, by rwa [hreason]⟩
      show placed (f i₀).location.struct
      rwa [hf.location]
    · exact h.added other i hi hnone

end Adds

end Workspace

/-! ## 3. Steps that only add -/

namespace Resolve

variable {α β : Type}

/-- Whether a step only adds instances of some structs, for a reason, in one workspace, and `post`
holds of its result there. -/
def AddsFrom (reason : Reason) (placed : String → Prop) (ws : Workspace) (step : Resolve α)
    (post : α → Workspace → Prop) : Prop :=
  Through (ws.Adds reason placed) ws step post

/-- **Whether a step only adds** instances of some structs, for a reason, in every workspace with a
schema, and `post` holds of its result. -/
def OnlyAdds (schema : Schema) (reason : Reason) (placed : String → Prop) (step : Resolve α)
    (post : α → Prop) : Prop :=
  ∀ ws : Workspace, ws.directory.WellFormed → ws.schema = schema →
    AddsFrom reason placed ws step fun a _ => post a

namespace AddsFrom

variable {reason : Reason} {placed : String → Prop} {ws : Workspace} {step : Resolve α}
  {next : α → Resolve β} {mid : α → Workspace → Prop} {last : β → Workspace → Prop}

theorem pure {a : α} {post : α → Workspace → Prop} (hw : ws.directory.WellFormed)
    (h : post a ws) : AddsFrom reason placed ws (Pure.pure a) post :=
  Through.pure (.refl hw) h

/-- **One step after another.** -/
theorem bind (h : AddsFrom reason placed ws step mid) (hn : ∀ a ws₁, ws.Adds reason placed ws₁ →
      mid a ws₁ → AddsFrom reason placed ws₁ (next a) last) :
    AddsFrom reason placed ws (step >>= next) last :=
  Through.bind h (fun _ hadds => hadds) fun a ws₁ hadds ha =>
    (hn a ws₁ hadds ha).mono (fun _ => hadds.trans) fun _ _ _ hlast => hlast

theorem mono {post : α → Workspace → Prop} (h : AddsFrom reason placed ws step mid)
    (hp : ∀ a ws', mid a ws' → post a ws') : AddsFrom reason placed ws step post :=
  Through.mono h (fun _ hadds => hadds) fun a ws' _ => hp a ws'

/-- Looking at the workspace. -/
theorem ask {f : Workspace → α} (h : AddsFrom reason placed ws (next (f ws)) last) :
    AddsFrom reason placed ws (Resolve.ask f >>= next) last :=
  Through.ask h

theorem of_query (h : AddsFrom .query placed ws step mid) : AddsFrom reason placed ws step mid :=
  ⟨h.1.of_query, h.2⟩

end AddsFrom

namespace OnlyAdds

variable {schema : Schema} {reason : Reason} {placed : String → Prop} {step : Resolve α}
  {next : α → Resolve β} {post mid : α → Prop} {last : β → Prop}

theorem pure {a : α} (h : post a) : OnlyAdds schema reason placed (Pure.pure a) post :=
  fun _ hw _ => AddsFrom.pure hw h

theorem done {a : α} : OnlyAdds schema reason placed (Pure.pure a) fun _ => True := pure trivial

theorem throw (fault : Fault) :
    OnlyAdds schema reason placed (MonadExcept.throw fault : Resolve α) post :=
  fun _ hw _ => Through.throw fault (.refl hw)

theorem ask {f : Workspace → α} (h : ∀ ws : Workspace, ws.directory.WellFormed →
    ws.schema = schema → post (f ws)) : OnlyAdds schema reason placed (Resolve.ask f) post :=
  fun ws hw hs => ⟨.refl hw, fun _ ha => Except.ok.inj ha ▸ h ws hw hs⟩

/-- Looking at something of which nothing has to be known. -/
theorem look (f : Workspace → α) :
    OnlyAdds schema reason placed (Resolve.ask f) fun _ => True :=
  .ask fun _ _ _ => trivial

theorem get : OnlyAdds schema reason placed (MonadState.get : Resolve Workspace) fun _ => True :=
  fun _ hw _ => ⟨.refl hw, fun _ _ => trivial⟩

/-- A change of something else than the instances. -/
theorem change {f : Workspace → Workspace} (hschema : ∀ ws, (f ws).schema = ws.schema)
    (hd : ∀ ws, (f ws).directory = ws.directory) (hits : ∀ ws : Workspace,
      (f ws).refusals + ws.limitHits ≤ ws.refusals + (f ws).limitHits) :
    OnlyAdds schema reason placed (Resolve.change f) fun _ => True :=
  fun ws hw _ => ⟨.of_directory hw (hschema ws) (hd ws) (hits ws), fun _ _ => trivial⟩

theorem modifyLayout (r : InstanceRef) (f : Layout → Layout) :
    OnlyAdds schema reason placed (ByteAtlas.modifyLayout r f) fun _ => True :=
  .change (fun _ => rfl) (fun _ => rfl) fun _ => Nat.le_refl _

theorem modifyEntry (r : InstanceRef) (i : Nat) (f : FieldEntry → FieldEntry) :
    OnlyAdds schema reason placed (ByteAtlas.modifyEntry r i f) fun _ => True :=
  modifyLayout r _

theorem validateLayout (r : InstanceRef) (d : StructDef) :
    OnlyAdds schema reason placed (ByteAtlas.validateLayout r d) fun _ => True :=
  .change (fun _ => rfl) (fun _ => rfl) fun _ => Nat.le_refl _

theorem noteLimitHit : OnlyAdds schema reason placed ByteAtlas.noteLimitHit fun _ => True :=
  .change (fun _ => rfl) (fun _ => rfl) fun _ => Nat.add_le_add_left (Nat.le_succ _) _

theorem refuseFrame : OnlyAdds schema reason placed ByteAtlas.refuseFrame fun _ => True :=
  .change (fun _ => rfl) (fun _ => rfl) fun ws => by
    show ws.refusals + 1 + ws.limitHits ≤ ws.refusals + (ws.limitHits + 1)
    omega

theorem mono (h : OnlyAdds schema reason placed step mid) (hp : ∀ a, mid a → post a) :
    OnlyAdds schema reason placed step post :=
  fun ws hw hs => ⟨(h ws hw hs).1, fun a ha => hp a ((h ws hw hs).2 a ha)⟩

/-- **One step after another.** -/
theorem bind (h : OnlyAdds schema reason placed step mid)
    (hn : ∀ a, mid a → OnlyAdds schema reason placed (next a) last) :
    OnlyAdds schema reason placed (step >>= next) last :=
  fun ws hw hs => (h ws hw hs).bind fun a ws₁ hadds ha =>
    hn a ha ws₁ hadds.wellFormed (hadds.schema.trans hs)

theorem ite {c : Prop} [Decidable c] {other : Resolve α}
    (h : c → OnlyAdds schema reason placed step post)
    (h' : ¬ c → OnlyAdds schema reason placed other post) :
    OnlyAdds schema reason placed (if c then step else other) post := by
  split
  · exact h ‹c›
  · exact h' ‹¬ c›

theorem unlessCutShort {step : Resolve (Option α)}
    (h : OnlyAdds schema reason placed step fun _ => True) :
    OnlyAdds schema reason placed (ByteAtlas.unlessCutShort step) fun _ => True :=
  (look _).bind fun _ _ => h.bind fun _ _ => (look _).bind fun _ _ => .pure trivial

/-- One frame further in. -/
theorem inFrame (h : OnlyAdds schema reason placed step fun _ => True) :
    OnlyAdds schema reason placed (ByteAtlas.inFrame step) fun _ => True := by
  have hdepth (f : Nat → Nat) : OnlyAdds schema reason placed
      (Resolve.change fun ws => { ws with depth := f ws.depth }) fun _ => True :=
    .change (fun _ => rfl) (fun _ => rfl) fun _ => Nat.le_refl _
  exact (look _).bind fun _ _ => .ite
    (fun _ => (hdepth (· + 1)).bind fun _ _ => h.bind fun _ _ =>
      (hdepth (· - 1)).bind fun _ _ => .pure trivial)
    fun _ => refuseFrame.bind fun _ _ => .pure trivial

end OnlyAdds

end Resolve

/-- **Whether the steps of a resolver that take a frame only add**, for the instances of the structs
`asked`. -/
structure Resolver.OnlyAdds (schema : Schema) (asked placed : String → Prop)
    (resolver : Resolver) : Prop where
  closed : schema.Closed asked placed
  layOut : ∀ (r : InstanceRef) (d : StructDef) (upTo : Nat) (isLazy : Bool), asked r.struct →
    schema.get? r.struct = some d →
    Resolve.OnlyAdds schema .query placed (resolver.layOut r d upTo isLazy) fun _ => True
  evaluate : ∀ (scope : Scope) (expr : Expr), asked scope.root.struct →
    (∀ struct ∈ expr.queried, asked struct) →
    Resolve.OnlyAdds schema .query placed (resolver.evaluate scope expr) fun _ => True

end ByteAtlas
