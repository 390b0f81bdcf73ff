import ByteAtlas.Proofs.Additions.Steps
import ByteAtlas.Proofs.Resolve.QueryLaw

/-!
# Children are of the structs of their fields

What is placed to answer questions about an instance is placed for queries, because only adding is a
law of such questions (`Resolver.OnlyAdds.law`). A walk places instances of the struct of the field,
and the next instance of a chain is of the same struct (`Resolver.OnlyAdds.walks`). From there it
goes to queries, to expressions and to resolvers with any number of frames left
(`Resolver.onlyAdds_within`).
-/

namespace ByteAtlas

namespace Resolver.OnlyAdds

variable {schema : Schema} {reason : Reason} {asked placed : String → Prop} {resolver : Resolver}
  (h : resolver.OnlyAdds schema asked placed) {r : InstanceRef} (hr : asked r.struct)

/-! ## 1. Questions -/

/-- A field of an instance is one of its definition. -/
theorem askField (schema : Schema) (reason : Reason) (placed : String → Prop) (r : InstanceRef)
    (i : Nat) :
    Resolve.OnlyAdds schema reason placed (fieldOf? r i) fun f => ∀ field, f = some field →
      ∃ d, schema.get? r.struct = some d ∧ field ∈ d.fields.entries :=
  .ask fun _ _ hs _ hf => hs ▸ Workspace.hasField_of_fieldOf? hf

theorem askStruct (schema : Schema) (reason : Reason) (placed : String → Prop) (r : InstanceRef) :
    Resolve.OnlyAdds schema reason placed (structOf? r) fun d => d = schema.get? r.struct := by
  refine .ask ?_
  rintro ws _ rfl
  rfl

theorem limitCount (schema : Schema) (reason : Reason) (placed : String → Prop) (count : Int64) :
    Resolve.OnlyAdds schema reason placed (ByteAtlas.limitCount count) fun _ => True := by
  have hlast (limit : Int64) : Resolve.OnlyAdds schema reason placed
      (if limit < 0 then throw .negativeElementLimit
        else pure (if count < 0 then 0 else if limit < count then limit else count) :
          Resolve Int64) fun _ => True :=
    .ite (fun _ => .throw _) fun _ => .done
  exact .bind (.look _) fun limit _ =>
    .ite (fun _ => .bind .noteLimitHit fun _ _ => hlast limit) fun _ => hlast limit

/-- **Only adding is a law** of what is asked of an instance of one of the structs `asked`. -/
def law : resolver.FieldLaw resolver r where
  Holds step _ := Resolve.OnlyAdds schema .query placed step fun _ => True
  Defines d := schema.get? r.struct = some d
  pure _ := .done
  bind h hn := .bind h fun a _ => hn a
  struct hn := .bind (askStruct schema .query placed r) fun d hd => hn d fun _ he => hd ▸ he
  schema _ := .look _
  fileSize := .look _
  layout := .look _
  instance? _ _ := .look _
  evaluate _ _ hd hmem hformula :=
    h.evaluate _ _ hr fun _ hq => h.closed.queries hr hd hmem hformula hq

theorem notes : (h.law hr).Notes where
  modifyLayout := .modifyLayout r
  validate := .validateLayout r
  readOn i field type wanted start count := .bind .get fun ws _ => by
    cases ws.entryOf? r i with
    | none => exact .done
    | some entry => exact .bind (.modifyEntry r i _) fun _ _ => .done
  limitCount := limitCount schema .query placed
  unlessCutShort := .unlessCutShort
  layOut {d} upTo isLazy hd := h.layOut r d upTo isLazy hr hd

theorem answers : (h.law hr).Answers := (h.notes hr).answers

/-! ## 2. Chains -/

/-- **Placing an instance** of one of the structs `placed`. -/
theorem place {ws : Workspace} (hw : ws.directory.WellFormed) (p : Placement)
    (hp : placed p.location.struct) :
    Resolve.AddsFrom p.reason placed ws (Resolve.update fun ws => ws.place p) fun added ws' =>
      placed added.ref.struct ∧ ws'.Holds placed added.ref.id ∧
        (added.inserted = true → ws.find? added.ref.id = none) := by
  have hadds := Workspace.Adds.place hw p hp
  refine ⟨hadds, fun added ha => ?_⟩
  have ha : (ws.directory.add p).1 = added := Except.ok.inj ha
  subst ha
  cases hfound : ws.directory.findAt? p.location with
  | some i =>
    obtain ⟨hi, hl⟩ := hw.findAt?_eq_some.mp hfound
    have hstruct : placed i.location.struct := by rwa [hl]
    have hthere : ws.Holds placed i.id := by
      intro j hj
      rw [show ws.find? i.id = some i from hi] at hj
      cases hj
      exact hstruct
    rw [Directory.add_of_taken hfound]
    exact ⟨hstruct, hadds.holds hthere, fun hno => nomatch hno⟩
  | none =>
    have hnew : ws.find? ws.directory.nextId = none := hw.find?_nextId
    have hthere : ws.Holds placed ws.directory.nextId := by
      intro j hj
      rw [hnew] at hj
      cases hj
    rw [(Directory.add_of_free (hw.findAt?_eq_none hfound)).1]
    exact ⟨hp, hadds.holds hthere, fun _ => hnew⟩

include h hr

/-- The next instance of a chain is of the same struct. -/
theorem createNext (reason : Reason) {ws : Workspace} (hw : ws.directory.WellFormed)
    (hs : ws.schema = schema) (hthere : ws.Holds placed r.id) :
    Resolve.AddsFrom reason placed ws (resolver.createNext r reason) fun next ws' =>
      ∀ n, next = some n → placed n.struct ∧ ws'.Holds placed n.id := by
  refine .bind ((h.answers hr).size false ws hw hs).of_query fun size ws₁ hadds₁ _ => ?_
  have hw₁ := hadds₁.wellFormed
  cases size with
  | none => exact .pure hw₁ fun _ hn => nomatch hn
  | some size =>
    dsimp only
    split
    · exact .pure hw₁ fun _ hn => nomatch hn
    · refine .ask ?_
      cases hi : ws₁.find? r.id with
      | none => exact .pure hw₁ fun _ hn => nomatch hn
      | some i =>
        dsimp only
        split
        · exact .pure hw₁ fun _ hn => nomatch hn
        · have hp : placed i.struct := hadds₁.holds hthere i hi
          refine .bind (place hw₁ (nextPlacement i size reason) hp) fun added ws₂ hadds₂ hadded => ?_
          obtain ⟨hstruct, hholds, _⟩ := hadded
          refine .pure hadds₂.wellFormed fun n hn => ?_
          cases hn
          exact ⟨hstruct, hholds⟩

/-! ## 3. Children -/

/-- The arguments of a child that was not there in the beginning are bound to it. -/
theorem bindArgs {start ws : Workspace} (hstart : start.Adds reason placed ws)
    (hs : ws.schema = schema) {child : InstanceRef} (hnew : start.find? child.id = none)
    (bindings : List ArgBinding) :
    Resolve.Through (start.Adds reason placed) ws
      (do
        let args ← resolver.argValues r bindings
        Resolve.change fun ws => ws.modify child.id (Instance.bindArgs args)
        pure child)
      fun a _ => a = child := by
  have hargs := (h.answers hr).argValues bindings ws hstart.wellFormed hs
  refine Resolve.Through.bind hargs (fun _ hadds => hstart.trans hadds.of_query)
    fun args ws₁ hadds _ => .change (.pure ?_ rfl)
  exact (hstart.trans hadds.of_query).modify_new hnew ⟨fun _ => rfl, fun _ => rfl⟩ fun _ => rfl

/-- **A child is of the struct of its field.** -/
theorem placeChild (field : Field) {struct : String} (hp : placed struct) (reason : Reason)
    (offset : Int64) (budget : Budget) {ws : Workspace} (hw : ws.directory.WellFormed)
    (hs : ws.schema = schema) :
    Resolve.AddsFrom reason placed ws
      (resolver.placeChild r field struct reason offset budget) fun child ws' =>
        placed child.struct ∧ ws'.Holds placed child.id := by
  obtain ⟨hadds, hadded⟩ := place hw
    { Placement.single ⟨struct, r.file, offset⟩ reason with budget } hp
  obtain ⟨hstruct, hholds, hnew⟩ := hadded _ rfl
  unfold Resolver.placeChild
  refine Resolve.Through.update ?_
  dsimp only
  split
  · rename_i hinserted
    have hnone := hnew (Bool.and_eq_true_iff.mp hinserted).1
    refine (h.bindArgs hr hadds hs hnone field.args).mono (fun _ hadds' => hadds') ?_
    rintro _ ws' hadds' rfl
    exact ⟨hstruct, hadds'.holds fun i hi => nomatch hnone.symm.trans hi⟩
  · exact .pure hadds ⟨hstruct, hholds⟩

end Resolver.OnlyAdds

/-! ## 4. Walks -/

/-- **Only adding is a law.** Instances found are of the structs `asked`, and so are those that may
be asked for. -/
def Law.onlyAdds (schema : Schema) (reason : Reason) (asked placed : String → Prop) :
    Law Resolve InstanceRef Workspace where
  Holds ws step _ tells := ws.directory.WellFormed → ws.schema = schema →
    Resolve.AddsFrom reason placed ws step fun a _ => ∀ r ∈ tells a, asked r.struct
  Later := Workspace.Adds reason placed
  Found _ r := asked r.struct
  Asked := asked
  stays _ hr := hr
  pure hfound hw _ := .pure hw hfound
  bind h hn hw hs := .bind (h hw hs) fun a ws₁ hadds ha =>
    hn a ws₁ hadds ha hadds.wellFormed (hadds.schema.trans hs)

namespace Resolver.OnlyAdds

variable {schema : Schema} {asked placed : String → Prop} {resolver : Resolver}
  (h : resolver.OnlyAdds schema asked placed)

/-- **It is a law of walks.** Children that have been placed are of the structs `placed`, and so is
whatever comes after them in a chain. -/
def walks (reason : Reason) :
    (Law.onlyAdds schema reason asked placed).Walks resolver resolver reason where
  Has _ r field := ∃ d, schema.get? r.struct = some d ∧ field ∈ d.fields.entries
  Child ws child := placed child.struct ∧ ws.Holds placed child.id
  found hc := h.closed.asks hc.1
  childStays hadds hc := ⟨hc.1, hadds.holds hc.2⟩
  hasStays _ hfield := hfield
  fields hr := h.law hr
  answers hr := h.answers hr
  asks _ _ _ _ honly hw hs :=
    (honly _ hw hs).of_query.mono fun _ _ _ _ hr => absurd hr List.not_mem_nil
  has _ _ hfield := hfield
  field {ws _ _ _ _ _} i _ hn hw hs :=
    .ask (hn (ws.fieldOf? _ i) (fun _ hf => hs ▸ Workspace.hasField_of_fieldOf? hf) hw hs)
  createNext hc hn hw hs := .bind (h.createNext (h.closed.asks hc.1) reason hw hs hc.2)
    fun next ws₁ hadds hnext => hn next ws₁ hadds hnext hadds.wellFormed (hadds.schema.trans hs)
  placeChild offset budget hr hfield htype hn hw hs := by
    obtain ⟨d, hd, hmem⟩ := hfield
    exact .bind (h.placeChild hr _ (h.closed.children hr hd hmem htype) reason offset budget hw hs)
      fun child ws₁ hadds hchild =>
        hn child ws₁ hadds hchild hadds.wellFormed (hadds.schema.trans hs)

include h

theorem walk_addSize {r : InstanceRef} (hr : asked r.struct) (i : Nat) :
    Resolve.OnlyAdds schema .query placed (resolver.walk r i none .query resolver.addSize 0)
      fun _ => True := fun _ hw hs =>
  ((h.walks .query).walk_addSize hr i hw hs).mono fun _ _ _ => trivial

theorem walk_idle {r : InstanceRef} (hr : asked r.struct) (i n : Nat) :
    Resolve.OnlyAdds schema .query placed (resolver.walk r i (some n) .query .idle ())
      fun _ => True := fun _ hw hs =>
  ((h.walks .query).walk_idle hr i n hw hs).mono fun _ _ _ => trivial

/-! ## 5. Queries and expressions -/

theorem searches : (Law.onlyAdds schema .query asked placed).Searches resolver resolver :=
  (h.walks .query).searches
    (fun _ _ _ => Resolve.OnlyAdds.ask (fun _ _ _ _ hr => absurd hr List.not_mem_nil) _)
    (fun {_ struct} file hstruct => Resolve.OnlyAdds.ask (fun ws _ _ r hmem => by
      obtain ⟨i, hi, rfl⟩ := List.mem_map.mp hmem
      have hname : i.struct = struct := by
        simpa using (Bool.and_eq_true_iff.mp (List.mem_filter.mp hi).2).1
      show asked i.struct
      rwa [hname]) _)
    fun hr => h.walk_idle hr

/-- **Evaluating** for an instance of one of the structs `asked`. -/
theorem evaluateIn (scope : Scope) (hroot : asked scope.root.struct) (expr : Expr)
    (hq : ∀ struct ∈ expr.queried, asked struct) :
    Resolve.OnlyAdds schema .query placed (resolver.evaluateIn scope expr) fun _ => True :=
  fun _ hw hs => ((h.searches.environment scope).evaluate expr
    (List.forall_mem_singleton.mpr hroot) hq hw hs).mono fun _ _ _ => trivial

/-! ## 6. Frames -/

theorem layOutFirst {r : InstanceRef} (hr : asked r.struct) {d : StructDef}
    (hd : schema.get? r.struct = some d) (upTo : Nat) (isLazy : Bool) :
    Resolve.OnlyAdds schema .query placed (resolver.layOutFirst r d upTo isLazy) fun _ => True :=
  (h.notes hr).layOutFirst (h.walk_addSize hr) hd upTo isLazy

end Resolver.OnlyAdds

/-- **Whatever is resolved only adds**, with any number of frames left. -/
theorem Resolver.onlyAdds_within {schema : Schema} {asked placed : String → Prop}
    (hclosed : schema.Closed asked placed) (frames : Nat) :
    (Resolver.within frames).OnlyAdds schema asked placed := by
  induction frames with
  | zero =>
    exact ⟨hclosed, fun _ _ _ _ _ _ => .refuseFrame, fun _ _ _ _ =>
      Resolve.OnlyAdds.refuseFrame.bind fun _ _ => .done⟩
  | succ frames ih =>
    refine ⟨hclosed, fun r d upTo isLazy hr hd => ?_, fun scope expr hroot hq => ?_⟩
    · exact .bind (.inFrame (ih.layOutFirst hr hd upTo isLazy)) fun _ _ => .done
    · exact .inFrame (ih.evaluateIn scope hroot expr hq)

/-- The steps of a request with as many frames as the limit admits. -/
theorem Resolve.onlyAdds_resolving {α : Type} {schema : Schema} {reason : Reason}
    {asked placed : String → Prop} (hclosed : schema.Closed asked placed)
    {request : Resolver → Resolve α} {post : α → Prop}
    (h : ∀ resolver : Resolver, resolver.OnlyAdds schema asked placed →
      OnlyAdds schema reason placed (request resolver) post) :
    OnlyAdds schema reason placed (Resolve.resolving request) post :=
  .bind (.look _) fun frames _ => h _ (Resolver.onlyAdds_within hclosed frames)

end ByteAtlas
