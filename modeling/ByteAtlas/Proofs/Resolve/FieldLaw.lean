import ByteAtlas.Resolve.Frames
import ByteAtlas.Proofs.Flat.Reference

/-!
# What asking about one instance keeps

Every question about the fields of an instance, and about its size, is made of the same few steps:
looking at what is known about the instance, evaluating expressions of its fields, and other such
questions. So a property of steps that holds of these, and of one step after another, holds of all
questions. Such a property is a `Resolver.FieldLaw`. It may be about two resolvers side by side.

Six questions note what they have found out. A law holds of them if it holds whatever is noted
(`Resolver.FieldLaw.Notes`), or it takes an argument about what is noted in each case. From there on
both kinds go along the other questions in the same way (`Resolver.FieldLaw.Answers`).

Questions for which children are placed are none of these. What a law says of them depends on the
property.
-/

namespace ByteAtlas

namespace Workspace

/-- Whether a field is one of the definition of an instance. -/
def HasField (ws : Workspace) (r : InstanceRef) (field : String × Field) : Prop :=
  ∃ d, ws.structOf? r = some d ∧ field ∈ d.fields.entries

theorem hasField_of_fieldOf? {ws : Workspace} {r : InstanceRef} {i : Nat} {field : String × Field}
    (h : ws.fieldOf? r i = some field) : ws.HasField r field := by
  unfold fieldOf? at h
  split at h
  · rename_i d hd
    exact ⟨d, hd, List.mem_of_getElem? h⟩
  · cases h

/-- For laws that take any definition. -/
theorem HasField.ofAny {ws : Workspace} {r : InstanceRef} {field : String × Field}
    (h : ws.HasField r field) : ∃ d : StructDef, True ∧ field ∈ d.fields.entries :=
  h.imp fun _ hd => ⟨trivial, hd.2⟩

end Workspace

namespace Resolver

/-- The last part of reading elements of a scalar type: from where the ones before have ended. -/
def readOn (r : InstanceRef) (i : Nat) (field : Field) (type : ScalarType) (wanted : Wanted)
    (start count : Int64) : Resolve Bool := do
  let ws ← get
  match ws.entryOf? r i with
  | none => pure false
  | some entry =>
    let (values, next) := ws.readElements r.file field type count start
      (wanted.missing entry.values.size (ws.fileSize r.file))
      (entry.nextElement.getD start) entry.values
    modifyEntry r i fun e => { e with values := values, nextElement := some next }
    pure (wanted.metBy values.size)

theorem readScalars_eq (resolver : Resolver) (count : Resolve (Option Int64)) (r : InstanceRef)
    (i : Nat) (field : Field) (type : ScalarType) (wanted : Wanted) :
    resolver.readScalars count r i field type wanted = (do
      let offset ← resolver.fieldOffset r i false
      let count ← count
      readOn r i field type wanted (offset.getD 0) (count.getD 0)) := rfl

/-- A field of an instance is one of its definition. -/
theorem fieldOf?_eq (r : InstanceRef) (i : Nat) :
    fieldOf? r i = (fun d : Option StructDef => d.bind fun d => d.field? i) <$> structOf? r := by
  have hfield (ws : Workspace) :
      ws.fieldOf? r i = (ws.structOf? r).bind fun d => d.field? i := by
    unfold Workspace.fieldOf?
    cases ws.structOf? r <;> rfl
  unfold fieldOf? structOf?
  simp only [hfield]
  rfl

/-! ## 1. Laws -/

/-- **A property of steps that goes from step to step**, as long as they are about one instance: of
the steps of one resolver, and of those of another one beside them. -/
structure FieldLaw (a b : Resolver) (r : InstanceRef) where
  /-- Whether it holds of two steps. -/
  Holds : {α : Type} → Resolve α → Resolve α → Prop
  /-- What is known of the definition of the instance. -/
  Defines : StructDef → Prop
  pure : ∀ {α : Type} (x : α), Holds (Pure.pure x) (Pure.pure x)
  bind : ∀ {α β : Type} {step step' : Resolve α} {next next' : α → Resolve β}, Holds step step' →
    (∀ x, Holds (next x) (next' x)) → Holds (step >>= next) (step' >>= next')
  struct : ∀ {α : Type} {next next' : Option StructDef → Resolve α},
    (∀ d, (∀ d', d = some d' → Defines d') → Holds (next d) (next' d)) →
    Holds (structOf? r >>= next) (structOf? r >>= next')
  schema : ∀ {α : Type} (g : Schema → α),
    Holds (Resolve.ask fun ws => g ws.schema) (Resolve.ask fun ws => g ws.schema)
  fileSize : Holds (Resolve.ask fun ws => ws.fileSize r.file)
    (Resolve.ask fun ws => ws.fileSize r.file)
  layout : Holds (layoutOf r) (layoutOf r)
  /-- Something of the instance that does not depend on the reason for it. -/
  instance? : ∀ {α : Type} (g : Option Instance → α),
    (∀ (i : Instance) (reason : Reason), g (some (i.setReason reason)) = g (some i)) →
    Holds (Resolve.ask fun ws => g (ws.find? r.id)) (Resolve.ask fun ws => g (ws.find? r.id))
  evaluate : ∀ {d : StructDef} {f : String × Field} {formula : Formula}
    (constants : List (String × Int64)) (before : Option Nat), Defines d → f ∈ d.fields.entries →
    formula ∈ f.2.formulas → Holds (a.evaluate ⟨r, constants, before⟩ formula.expr)
      (b.evaluate ⟨r, constants, before⟩ formula.expr)

namespace FieldLaw

variable {a b : Resolver} {r : InstanceRef} (law : a.FieldLaw b r)

theorem map {α β : Type} {step step' : Resolve α} (f : α → β) (h : law.Holds step step') :
    law.Holds (f <$> step) (f <$> step') := by
  rw [map_eq_pure_bind, map_eq_pure_bind]
  exact law.bind h fun x => law.pure (f x)

theorem ite {α : Type} {c : Prop} [Decidable c] {step step' other other' : Resolve α}
    (h : c → law.Holds step step') (h' : ¬ c → law.Holds other other') :
    law.Holds (if c then step else other) (if c then step' else other') := by
  split
  · exact h ‹c›
  · exact h' ‹¬ c›

theorem structOf : law.Holds (structOf? r) (structOf? r) := by
  have h := law.struct (fun d _ => law.pure d)
  rwa [bind_pure] at h

/-- **Whether a field may be one of the instance.** -/
def Has (field : String × Field) : Prop := ∃ d, law.Defines d ∧ field ∈ d.fields.entries

theorem field {α : Type} (i : Nat) {next next' : Option (String × Field) → Resolve α}
    (h : ∀ f, (∀ f', f = some f' → law.Has f') → law.Holds (next f) (next' f)) :
    law.Holds (fieldOf? r i >>= next) (fieldOf? r i >>= next') := by
  rw [fieldOf?_eq, bind_map_left, bind_map_left]
  refine law.struct fun d hd => h _ fun f' hf => ?_
  obtain ⟨d, rfl, hf⟩ := Option.bind_eq_some_iff.mp hf
  exact ⟨d, hd d rfl, List.mem_of_getElem? hf⟩

/-- The expressions of a field. -/
theorem evaluateField {field : String × Field} {formula : Formula} (hfield : law.Has field)
    (hformula : formula ∈ field.2.formulas) (constants : List (String × Int64))
    (before : Option Nat) : law.Holds (a.evaluate ⟨r, constants, before⟩ formula.expr)
      (b.evaluate ⟨r, constants, before⟩ formula.expr) := by
  obtain ⟨d, hd, hmem⟩ := hfield
  exact law.evaluate constants before hd hmem hformula

theorem entry (i : Nat) : law.Holds (entryOf? r i) (entryOf? r i) :=
  law.map (fun layout : Layout => layout.entries[i]?) law.layout

theorem holdsChildren (i : Nat) : law.Holds (Resolve.ask fun ws => ws.holdsChildren r i)
    (Resolve.ask fun ws => ws.holdsChildren r i) :=
  law.field i fun field _ =>
    law.pure (field.any fun f => f.2.value.isNone && f.2.type.structName?.isSome)

theorem arg (name : String) : law.Holds (Resolve.ask fun ws => ws.argOf? r name)
    (Resolve.ask fun ws => ws.argOf? r name) := by
  simp only [Workspace.argOf?_eq]
  exact law.instance? (fun i => i.bind fun i => i.arg? name) fun _ _ => rfl

theorem argOrParam (d : StructDef) (name : String) :
    law.Holds (ByteAtlas.argOrParam r d name) (ByteAtlas.argOrParam r d name) :=
  law.map (fun arg : Option Int64 => arg.or (d.param? name)) (law.arg name)

theorem stamp (d : StructDef) : law.Holds (Resolve.ask fun ws => ws.stampOf r d)
    (Resolve.ask fun ws => ws.stampOf r d) := by
  simp only [Workspace.stampOf, Workspace.versionOf_eq]
  exact law.instance? (fun i => Stamp.mk (i.elim initialVersion Instance.version) d.version)
    fun _ _ => rfl

theorem budgetAfter (size : Int64) :
    law.Holds (Resolver.budgetAfter r size) (Resolver.budgetAfter r size) :=
  law.instance? (fun i => i.elim 0 fun i => i.budgetAfter size) fun _ _ => rfl

/-- Whether an element is there takes the condition on it. -/
theorem hasElementWith {field : Field} (h : ∀ condition, field.elementCondition = some condition →
      ∀ (constants : List (String × Int64)) (before : Option Nat),
        law.Holds (a.evaluate ⟨r, constants, before⟩ condition.expr)
          (b.evaluate ⟨r, constants, before⟩ condition.expr)) (origin index offset : Int64) :
    law.Holds (a.hasElement r field origin index offset)
      (b.hasElement r field origin index offset) := by
  unfold Resolver.hasElement
  refine law.bind law.fileSize fun _ => law.ite (fun _ => law.pure false) fun _ => ?_
  cases hcondition : field.elementCondition with
  | none => exact law.pure true
  | some condition => exact law.bind (h condition hcondition _ _) fun _ => law.pure _

theorem hasElement {field : String × Field} (hfield : law.Has field) (origin index offset : Int64) :
    law.Holds (a.hasElement r field.2 origin index offset)
      (b.hasElement r field.2 origin index offset) :=
  law.hasElementWith
    (fun _ hcondition => law.evaluateField hfield (by simp [Field.formulas, hcondition]))
    origin index offset

/-! ## 2. Elements that are read -/

/-- The integer reading of an element, once elements have been read. -/
theorem intValueWith {count count' : Resolve (Option Int64)} {i n : Nat}
    (hread : law.Holds (a.readValuesWith count r i (.first (n + 1)))
      (b.readValuesWith count' r i (.first (n + 1)))) :
    law.Holds (a.intValueWith count r i n) (b.intValueWith count' r i n) :=
  law.bind hread fun _ => law.ite (fun _ => law.bind (law.entry i) fun _ => law.pure _)
    fun _ => law.pure 0

section

variable (hread : ∀ (i : Nat) (wanted : Wanted),
  law.Holds (a.readValues r i wanted) (b.readValues r i wanted))
include hread

theorem intValue (i n : Nat) : law.Holds (a.intValue r i n) (b.intValue r i n) :=
  law.intValueWith (hread i _)

theorem namedValue (d : StructDef) (name : String) :
    law.Holds (a.namedValue r d name) (b.namedValue r d name) := by
  unfold Resolver.namedValue
  cases d.fieldIndex? name with
  | none => exact law.argOrParam d name
  | some i => exact law.map some (law.intValue hread i 0)

theorem valuePreview (i n : Nat) : law.Holds (a.valuePreview r i n) (b.valuePreview r i n) :=
  law.bind (hread i _) fun _ =>
    law.ite (fun _ => law.bind (law.entry i) fun _ => law.pure _) fun _ => law.pure none

theorem takePreviews (i : Nat) (separated : Bool) (left : Nat) : ∀ (n : Nat) (joined : String),
    law.Holds (a.takePreviews r i separated left n joined)
      (b.takePreviews r i separated left n joined) := by
  induction left with
  | zero => exact fun _ _ => law.pure []
  | succ left ih =>
    exact fun n joined => law.bind (law.valuePreview hread i n) fun
      | none => law.pure []
      | some _ => law.ite (fun _ => law.pure _) fun _ => law.bind (ih _ _) fun _ => law.pure _

theorem measureSize (henumerate : ∀ upTo : Nat,
      law.Holds (a.enumerate r upTo false) (b.enumerate r upTo false)) (d : StructDef)
    (isLazy : Bool) : law.Holds (a.measureSize r d isLazy) (b.measureSize r d isLazy) := by
  unfold Resolver.measureSize
  cases d.sizeSource with
  | some source =>
    exact law.ite (fun _ => law.pure none) fun _ =>
      law.bind (law.namedValue hread d source) fun _ => law.pure _
  | none =>
    have hlast : law.Holds
        (do
          let layout ← layoutOf r
          if layout.entries.size < d.fieldCount || layout.measuring.isSome then Pure.pure none
          else Pure.pure (some (layout.cursor - r.offset)))
        (do
          let layout ← layoutOf r
          if layout.entries.size < d.fieldCount || layout.measuring.isSome then Pure.pure none
          else Pure.pure (some (layout.cursor - r.offset))) :=
      law.bind law.layout fun _ => law.ite (fun _ => law.pure none) fun _ => law.pure _
    exact law.ite
      (fun _ => law.ite (fun _ => law.bind (henumerate _) fun _ => hlast) fun _ => hlast)
      fun _ => law.pure _

end

end FieldLaw

/-! ## 3. Questions -/

/-- **Whether a law holds of the questions that note** what they have found out. -/
structure FieldLaw.Answers {a b : Resolver} {r : InstanceRef} (law : a.FieldLaw b r) : Prop where
  enumerate : ∀ (upTo : Nat) (isLazy : Bool),
    law.Holds (a.enumerate r upTo isLazy) (b.enumerate r upTo isLazy)
  fieldOffset : ∀ (i : Nat) (isLazy : Bool),
    law.Holds (a.fieldOffset r i isLazy) (b.fieldOffset r i isLazy)
  elementCount : ∀ (i : Nat) (isLazy : Bool),
    law.Holds (a.elementCount r i isLazy) (b.elementCount r i isLazy)
  readValues : ∀ (i : Nat) (wanted : Wanted),
    law.Holds (a.readValues r i wanted) (b.readValues r i wanted)
  fieldPreview : ∀ (i : Nat) (isLazy : Bool),
    law.Holds (a.fieldPreview r i isLazy) (b.fieldPreview r i isLazy)
  size : ∀ isLazy : Bool, law.Holds (a.size r isLazy) (b.size r isLazy)

namespace FieldLaw.Answers

variable {a b : Resolver} {r : InstanceRef} {law : a.FieldLaw b r} (h : law.Answers)
include h

theorem isPresent (i : Nat) (isLazy : Bool) :
    law.Holds (a.isPresent r i isLazy) (b.isPresent r i isLazy) :=
  law.bind (h.enumerate _ isLazy) fun _ => law.bind (law.entry i) fun _ => law.pure _

theorem intValue (i n : Nat) : law.Holds (a.intValue r i n) (b.intValue r i n) :=
  law.intValue h.readValues i n

theorem namedValue (d : StructDef) (name : String) :
    law.Holds (a.namedValue r d name) (b.namedValue r d name) :=
  law.namedValue h.readValues d name

theorem valuePreview (i n : Nat) : law.Holds (a.valuePreview r i n) (b.valuePreview r i n) :=
  law.valuePreview h.readValues i n

theorem fieldSummary (i : Nat) : law.Holds (a.fieldSummary r i) (b.fieldSummary r i) := by
  unfold Resolver.fieldSummary
  refine law.field i fun
    | none, _ => law.pure _
    | some (name, field), _ => law.bind (h.enumerate _ true) fun _ => ?_
  have hrest (count : String) : law.Holds
      (do
        let offset ← a.fieldOffset r i true
        let preview ← a.fieldPreview r i true
        Pure.pure (name ++ ": " ++ field.type.name ++ count ++ "@" ++ knownText offset ++ "=" ++
          preview))
      (do
        let offset ← b.fieldOffset r i true
        let preview ← b.fieldPreview r i true
        Pure.pure (name ++ ": " ++ field.type.name ++ count ++ "@" ++ knownText offset ++ "=" ++
          preview)) :=
    law.bind (h.fieldOffset i true) fun _ => law.bind (h.fieldPreview i true) fun _ => law.pure _
  exact law.ite (fun _ => law.bind (h.elementCount i true) fun _ => law.bind (law.pure _) hrest)
    fun _ => law.bind (law.pure _) hrest

/-! ## 4. The chain -/

theorem canCreateNext (isLazy loose : Bool) :
    law.Holds (a.canCreateNext r isLazy loose) (b.canCreateNext r isLazy loose) :=
  law.bind (h.size isLazy) fun
    | none => law.pure none
    | some size => law.bind (law.budgetAfter size) fun _ => law.pure _

theorem nextInfo (isLazy : Bool) : law.Holds (a.nextInfo r isLazy) (b.nextInfo r isLazy) :=
  law.bind (law.instance? (fun i => i.any fun i => i.budget.inBytes) fun _ _ => rfl) fun _ =>
    law.bind (h.size isLazy) fun
      | none => law.pure _
      | some size => law.bind
        (law.instance? (fun i => (i.bind fun i => i.sizeOverride).getD size) fun _ _ => rfl)
        fun _ => law.bind (law.budgetAfter size) fun _ => law.pure _

/-! ## 5. What children and queries ask for -/

theorem argValue (binding : ArgBinding) :
    law.Holds (a.argValue r binding) (b.argValue r binding) := by
  unfold Resolver.argValue
  cases binding.source with
  | none => exact law.pure _
  | some source =>
    exact law.struct fun _ _ => law.bind (h.namedValue _ source) fun _ => law.pure _

theorem argValues (bindings : List ArgBinding) :
    law.Holds (a.argValues r bindings) (b.argValues r bindings) := by
  induction bindings with
  | nil => exact law.pure []
  | cons binding bindings ih =>
    exact law.bind (h.argValue binding) fun _ => law.bind ih fun _ => law.pure _

theorem occupiedCount (i : Nat) (field : Field) (size : Int64) :
    law.Holds (a.occupiedCount r i field size) (b.occupiedCount r i field size) :=
  law.bind (h.elementCount i false) fun _ => law.ite
    (fun _ => law.bind (h.readValues i _) fun _ => law.bind (law.entry i) fun _ => law.pure _)
    fun _ => law.ite (fun _ => law.pure _) fun _ => law.pure _

theorem matchesTexts (d : StructDef) (cs : List TextCondition) :
    law.Holds (a.matchesTexts r d cs) (b.matchesTexts r d cs) := by
  induction cs with
  | nil => exact law.pure true
  | cons c cs ih =>
    unfold Resolver.matchesTexts
    cases d.fieldIndex? c.field with
    | none => exact law.pure false
    | some i =>
      exact law.bind (h.fieldPreview i false) fun _ => law.ite (fun _ => ih) fun _ => law.pure false

theorem matchesValues (d : StructDef) (cs : List ValueCondition) :
    law.Holds (a.matchesValues r d cs) (b.matchesValues r d cs) := by
  induction cs with
  | nil => exact law.pure true
  | cons c cs ih =>
    exact law.bind (h.namedValue d c.name) fun _ => law.ite (fun _ => ih) fun _ => law.pure false

/-- **The conditions on an instance.** -/
theorem meets (filter : QueryFilter) : law.Holds (a.meets r filter) (b.meets r filter) :=
  law.ite (fun _ => law.pure true) fun _ => law.struct fun
    | none, _ => law.pure false
    | some d, _ => law.bind (h.matchesTexts d _) fun _ =>
      law.ite (fun _ => h.matchesValues d _) fun _ => law.pure false

theorem namedPreview (scope : Scope) (name : String) :
    law.Holds (a.namedPreview scope r name) (b.namedPreview scope r name) := by
  unfold Resolver.namedPreview
  refine law.struct fun d _ => ?_
  cases d.bind fun d => d.fieldIndex? name with
  | none => exact law.pure none
  | some i =>
    exact law.ite (fun _ => law.pure none) fun _ => law.map some (h.fieldPreview i false)

/-! ## 6. Questions that may take a walk -/

theorem valueOffset {i n : Nat} (hwalk : law.Holds (a.walk r i (some n) .query .idle ())
    (b.walk r i (some n) .query .idle ())) (isLazy : Bool) :
    law.Holds (a.valueOffset r i n isLazy) (b.valueOffset r i n isLazy) := by
  unfold Resolver.valueOffset
  have hlast : law.Holds
      (do
        let entry ← entryOf? r i
        Pure.pure ((entry.bind fun e => e.values[n]?).map Element.offset))
      (do
        let entry ← entryOf? r i
        Pure.pure ((entry.bind fun e => e.values[n]?).map Element.offset)) :=
    law.bind (law.entry i) fun _ => law.pure _
  exact law.bind (h.fieldOffset i isLazy) fun
    | none => law.pure none
    | some _ => law.ite (fun _ => law.pure _) fun _ => law.bind (law.holdsChildren i) fun _ =>
      law.ite (fun _ => law.bind hwalk fun _ => law.pure _) fun _ =>
        law.ite (fun _ => law.bind (h.readValues i _) fun _ => hlast) fun _ => hlast

/-- **What a name stands for**, where walks that look for one child go along. -/
theorem lookup (hwalk : ∀ i n : Nat, law.Holds (a.walk r i (some n) .query .idle ())
      (b.walk r i (some n) .query .idle ())) (scope : Scope) (name : String) (index : Int64)
    (isOffset : Bool) :
    law.Holds (a.lookup scope r name index isOffset) (b.lookup scope r name index isOffset) := by
  unfold Resolver.lookup
  refine law.bind (law.arg name) fun arg => ?_
  cases (scope.constant? r name).or arg with
  | some n => exact law.pure _
  | none =>
    refine law.struct fun
      | none, _ => law.pure none
      | some d, _ => ?_
    dsimp only
    cases d.fieldIndex? name with
    | none => exact law.pure _
    | some i =>
      exact law.ite (fun _ => law.pure none) fun _ => law.ite
        (fun _ => h.valueOffset (hwalk i _) false) fun _ => law.map some (h.intValue i _)

theorem measureField {i : Nat} (hwalk : law.Holds (a.walk r i none .query a.addSize 0)
      (b.walk r i none .query b.addSize 0)) (field : Field) (fixed : Option Int64) :
    law.Holds (a.measureField r i field fixed) (b.measureField r i field fixed) := by
  unfold Resolver.measureField
  refine law.ite (fun _ => law.pure 0) fun _ => ?_
  cases fixed with
  | some size => exact law.bind (h.occupiedCount i field size) fun _ => law.pure _
  | none => exact law.bind hwalk fun _ => law.pure _

end FieldLaw.Answers

/-! ## 7. Noting -/

/-- **Whether a law holds whatever is noted** about the instance, and whenever the resolvers lay out
fields. -/
structure FieldLaw.Notes {a b : Resolver} {r : InstanceRef} (law : a.FieldLaw b r) : Prop where
  modifyLayout : ∀ g : Layout → Layout,
    law.Holds (ByteAtlas.modifyLayout r g) (ByteAtlas.modifyLayout r g)
  validate : ∀ d : StructDef, law.Holds (validateLayout r d) (validateLayout r d)
  readOn : ∀ (i : Nat) (field : Field) (type : ScalarType) (wanted : Wanted) (start count : Int64),
    law.Holds (readOn r i field type wanted start count)
      (readOn r i field type wanted start count)
  limitCount : ∀ count : Int64,
    law.Holds (ByteAtlas.limitCount count) (ByteAtlas.limitCount count)
  unlessCutShort : ∀ {α : Type} {step step' : Resolve (Option α)}, law.Holds step step' →
    law.Holds (ByteAtlas.unlessCutShort step) (ByteAtlas.unlessCutShort step')
  layOut : ∀ {d : StructDef} (upTo : Nat) (isLazy : Bool), law.Defines d →
    law.Holds (a.layOut r d upTo isLazy) (b.layOut r d upTo isLazy)

namespace FieldLaw.Notes

variable {a b : Resolver} {r : InstanceRef} {law : a.FieldLaw b r} (h : law.Notes)
include h

theorem modifyEntry (i : Nat) (g : FieldEntry → FieldEntry) :
    law.Holds (ByteAtlas.modifyEntry r i g) (ByteAtlas.modifyEntry r i g) :=
  h.modifyLayout _

theorem enumerate (upTo : Nat) (isLazy : Bool) :
    law.Holds (a.enumerate r upTo isLazy) (b.enumerate r upTo isLazy) :=
  law.struct fun
    | none, _ => law.pure ()
    | some d, hd => law.bind (h.validate d) fun _ => law.bind law.layout fun _ =>
      law.ite (fun _ => law.pure ()) fun _ => h.layOut _ isLazy (hd d rfl)

theorem fieldOffset (i : Nat) (isLazy : Bool) :
    law.Holds (a.fieldOffset r i isLazy) (b.fieldOffset r i isLazy) := by
  unfold Resolver.fieldOffset
  refine law.bind (h.enumerate _ isLazy) fun _ => law.bind (law.entry i) fun
    | none => law.pure none
    | some entry => law.ite (fun _ => law.pure _) fun _ => law.field i fun field hfield => ?_
  cases field with
  | none => exact law.pure none
  | some field =>
    dsimp only [Option.bind_some]
    cases hformula : field.2.offsetFormula with
    | none => exact law.pure none
    | some formula =>
      have hin : formula ∈ field.2.formulas := by
        simp [Field.formulas, Field.placingFormulas, hformula]
      exact law.bind (h.unlessCutShort (law.evaluateField (hfield field rfl) hin _ _)) fun
        | none => law.pure none
        | some offset => law.bind (h.modifyEntry i _) fun _ => law.pure _

theorem readFormula {field : String × Field} {formula : Formula} (hfield : law.Has field)
    (hformula : field.2.value = some formula) (i : Nat) (entry : FieldEntry) (wanted : Wanted) :
    law.Holds (a.readFormula r i entry formula wanted)
      (b.readFormula r i entry formula wanted) := by
  have hin : formula ∈ field.2.formulas := by
    simp [Field.formulas, Field.placingFormulas, hformula]
  exact law.bind (h.unlessCutShort (law.evaluateField hfield hin _ _)) fun
    | none => law.pure false
    | some _ => law.bind (h.modifyEntry i _) fun _ => law.pure _

theorem readValuesWith {count count' : Resolve (Option Int64)} (hcount : law.Holds count count')
    (i : Nat) (wanted : Wanted) :
    law.Holds (a.readValuesWith count r i wanted) (b.readValuesWith count' r i wanted) := by
  have hscalars (field : Field) (type : ScalarType) :
      law.Holds (a.readScalars count r i field type wanted)
        (b.readScalars count' r i field type wanted) := by
    rw [readScalars_eq, readScalars_eq]
    exact law.bind (h.fieldOffset i false) fun _ => law.bind hcount fun _ =>
      h.readOn i field type wanted _ _
  unfold Resolver.readValuesWith
  refine law.bind (h.enumerate _ false) fun _ => law.bind (law.entry i) fun
    | none => law.pure false
    | some entry => law.ite (fun _ => law.pure true) fun _ => law.field i fun
      | none, _ => law.pure false
      | some field, hfield => ?_
  dsimp only
  split
  · rename_i hvalue
    exact h.readFormula (hfield field rfl) hvalue i entry wanted
  · exact hscalars field.2 _
  · exact law.pure false

/-- A count is bounded and noted. -/
theorem keepCount (i : Nat) (count : Option Int64) :
    law.Holds
      (match count with
        | none => Pure.pure none
        | some count => do
          let count ← ByteAtlas.limitCount count
          ByteAtlas.modifyEntry r i fun e => { e with count := some count }
          Pure.pure (some count))
      (match count with
        | none => Pure.pure none
        | some count => do
          let count ← ByteAtlas.limitCount count
          ByteAtlas.modifyEntry r i fun e => { e with count := some count }
          Pure.pure (some count)) := by
  cases count with
  | none => exact law.pure none
  | some count =>
    exact law.bind (h.limitCount count) fun _ => law.bind (h.modifyEntry i _) fun _ => law.pure _

/-- **Counting** first has the fields up to the one asked for laid out. It goes down in the index of
the field. -/
theorem elementCount_after (i : Nat) : ∀ isLazy : Bool, ∃ rest rest' : Resolve (Option Int64),
    a.elementCount r i isLazy = (a.enumerate r (i + 1) isLazy >>= fun _ => rest) ∧
      b.elementCount r i isLazy = (b.enumerate r (i + 1) isLazy >>= fun _ => rest') ∧
      law.Holds rest rest' := by
  induction i using Nat.strongRecOn with
  | _ i ih =>
    intro isLazy
    have hkeep (count : Option Int64) := h.keepCount i count
    unfold Resolver.elementCount
    refine ⟨_, _, rfl, rfl, law.bind (law.entry i) fun entry => ?_⟩
    cases entry with
    | none => exact law.pure none
    | some entry =>
    refine law.ite (fun _ => law.pure _) fun _ => law.ite (fun _ => law.bind (law.pure _) hkeep)
      fun _ => law.bind (h.unlessCutShort (law.struct fun d _ => ?_)) hkeep
    dsimp only
    cases (d.getD .empty).field? i with
    | none => exact law.pure _
    | some field =>
      refine law.ite (fun _ => law.pure _) fun _ => ?_
      cases field.2.countSource with
      | literal => exact law.pure _
      | fileSize => exact law.bind law.fileSize fun _ => law.pure _
      | named source =>
        dsimp only
        cases (d.getD .empty).fieldIndex? source with
        | none => exact law.bind (law.argOrParam _ source) fun _ => law.pure _
        | some j =>
          by_cases hj : j < i
          · simp only [hj, dite_true]
            obtain ⟨lower, lower', hlower, hlower', hholds⟩ := ih j hj false
            rw [hlower, hlower']
            have hcount := law.bind (h.enumerate (j + 1) false) fun _ => hholds
            exact law.bind (law.map some (law.intValueWith (h.readValuesWith hcount j _)))
              fun _ => law.pure _
          · simp only [hj, dite_false]
            exact law.bind (law.argOrParam _ source) fun _ => law.pure _

theorem elementCount (i : Nat) (isLazy : Bool) :
    law.Holds (a.elementCount r i isLazy) (b.elementCount r i isLazy) := by
  obtain ⟨rest, rest', hrest, hrest', hholds⟩ := h.elementCount_after i isLazy
  rw [hrest, hrest']
  exact law.bind (h.enumerate _ isLazy) fun _ => hholds

theorem readValues (i : Nat) (wanted : Wanted) :
    law.Holds (a.readValues r i wanted) (b.readValues r i wanted) :=
  h.readValuesWith (h.elementCount i false) i wanted

theorem fieldPreview (i : Nat) (isLazy : Bool) :
    law.Holds (a.fieldPreview r i isLazy) (b.fieldPreview r i isLazy) := by
  unfold Resolver.fieldPreview
  refine law.bind (h.enumerate _ isLazy) fun _ => law.bind (law.entry i) fun
    | none => law.pure _
    | some entry => law.ite (fun _ => law.pure _) fun _ => ?_
  cases entry.preview with
  | some preview => exact law.pure preview
  | none =>
    exact law.bind (h.fieldOffset i isLazy) fun _ => law.ite (fun _ => law.pure _) fun _ =>
      law.field i fun _ _ => law.bind (law.takePreviews h.readValues i _ _ _ _) fun _ =>
        law.bind (h.modifyEntry i _) fun _ => law.pure _

theorem size (isLazy : Bool) : law.Holds (a.size r isLazy) (b.size r isLazy) := by
  have hmeasure (d : StructDef) :=
    law.measureSize h.readValues (fun upTo => h.enumerate upTo false) d isLazy
  unfold Resolver.size
  refine law.struct fun
    | none, _ => law.pure _
    | some d, _ => law.bind (law.stamp d) fun stamp => law.bind law.layout fun layout => ?_
  cases layout.sizeFor? stamp with
  | some size => exact law.pure _
  | none =>
    exact law.bind (h.unlessCutShort (hmeasure d)) fun
      | none => law.pure none
      | some _ => law.bind (h.modifyLayout _) fun _ => law.pure _

/-- **A law that holds whatever is noted** holds of all questions. -/
theorem answers : law.Answers where
  enumerate := h.enumerate
  fieldOffset := h.fieldOffset
  elementCount := h.elementCount
  readValues := h.readValues
  fieldPreview := h.fieldPreview
  size := h.size

/-! ## 8. Laying out -/

theorem conditionValue {field : String × Field} (hfield : law.Has field) (i : Nat) :
    law.Holds (a.conditionValue r i field.2) (b.conditionValue r i field.2) := by
  unfold Resolver.conditionValue
  cases hcondition : field.2.condition with
  | none => exact law.pure _
  | some condition =>
    have hin : condition ∈ field.2.formulas := by simp [Field.formulas, hcondition]
    exact h.unlessCutShort (law.evaluateField hfield hin _ _)

section

-- Measuring a field may take a walk along its children.
variable (hwalk : ∀ i : Nat, law.Holds (a.walk r i none .query a.addSize 0)
  (b.walk r i none .query b.addSize 0))
include hwalk

theorem totalSize (i : Nat) (isLazy : Bool) :
    law.Holds (a.totalSize r i isLazy) (b.totalSize r i isLazy) := by
  have hmeasure (field : Field) (fixed : Option Int64) :=
    law.map some (h.answers.measureField (hwalk i) field fixed)
  exact law.bind (h.enumerate _ isLazy) fun _ => law.bind (law.entry i) fun
    | none => law.pure none
    | some _ => law.ite (fun _ => law.pure _) fun _ => law.field i fun
      | none, _ => law.pure none
      | some (_, field), _ => law.bind (law.schema fun s => s.fixedSize? field.type) fun fixed =>
        law.ite (fun _ => law.pure none) fun _ =>
          law.bind (h.unlessCutShort (hmeasure field fixed)) fun
            | none => law.pure none
            | some _ => law.bind (h.modifyEntry i _) fun _ => law.pure _

theorem passField (d : StructDef) (i : Nat) (field : Field) (present isLazy : Bool) :
    law.Holds (a.passField r d i field present isLazy) (b.passField r d i field present isLazy) :=
  law.ite
    (fun _ => law.bind (h.totalSize hwalk i isLazy) fun
      | none => law.bind (h.modifyLayout _) fun _ => law.pure false
      | some _ => law.bind (h.modifyLayout _) fun _ => law.pure true)
    fun _ => law.pure true

variable {d : StructDef} (hd : law.Defines d)
include hd

theorem layOutField (isLazy : Bool) :
    law.Holds (a.layOutField r d isLazy) (b.layOutField r d isLazy) := by
  unfold Resolver.layOutField
  refine law.bind law.layout fun layout => ?_
  dsimp only
  cases hfield : d.field? layout.entries.size with
  | none => exact law.pure false
  | some field =>
    exact law.bind (h.modifyLayout _) fun _ =>
      law.bind (h.conditionValue ⟨d, hd, List.mem_of_getElem? hfield⟩ _) fun
        | none => law.bind (h.modifyLayout _) fun _ => law.pure false
        | some _ => law.bind (h.modifyLayout _) fun _ =>
          law.bind (h.passField hwalk d _ field.2 _ isLazy) fun _ =>
            law.bind (h.modifyLayout _) fun _ => law.pure _

theorem layOutFields (isLazy : Bool) (left : Nat) :
    law.Holds (a.layOutFields r d isLazy left) (b.layOutFields r d isLazy left) := by
  induction left with
  | zero => exact law.pure ()
  | succ left ih =>
    exact law.bind (h.layOutField hwalk hd isLazy) fun _ =>
      law.ite (fun _ => ih) fun _ => law.pure ()

/-- **Laying out the first fields.** -/
theorem layOutFirst (upTo : Nat) (isLazy : Bool) :
    law.Holds (a.layOutFirst r d upTo isLazy) (b.layOutFirst r d upTo isLazy) :=
  law.bind law.layout fun _ => h.layOutFields hwalk hd isLazy _

end

end FieldLaw.Notes

end Resolver

end ByteAtlas
