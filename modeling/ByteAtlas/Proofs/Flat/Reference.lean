import ByteAtlas.Resolve.Instance
import ByteAtlas.Proofs.Resolve.Elements
import ByteAtlas.Proofs.Expr.Evaluation

/-!
# What flat definitions mean

In a flat definition every field has a scalar type, no expression has a query, and what an
expression tells about the place or the value of a field depends on the fields before it
(`StructDef.Flat`). Then what is asked of an instance has one answer, whatever has been asked
before.

The answer is computed here without a workspace to keep anything in. A `Site` is what it depends on.
The fields are laid out from the first on (`Site.layOut`), and of each of them the `FieldFacts` tell
all that there is to know. Where the limit does not admit any number of elements an answer is a
fault.
-/

namespace ByteAtlas

/-! ## 1. Flat definitions -/

namespace Expr

/-- Whether there is a query in an expression. -/
def hasQuery : Expr → Bool
  | .constant _ => false
  | .unary _ a => a.hasQuery
  | .binary _ a b => a.hasQuery || b.hasQuery
  | .rawRead _ a => a.hasQuery
  | .member q _ i _ =>
    q.isSome || match i with
      | some e => e.hasQuery
      | none => false
  | .structOffset _ => true
  | .previewTest q _ _ _ => q.isSome
  | .instanceId q => q.isSome
  | .error => false

/-- The names in an expression without queries. -/
def names : Expr → List String
  | .constant _ => []
  | .unary _ a => a.names
  | .binary _ a b => a.names ++ b.names
  | .rawRead _ a => a.names
  | .member _ name i _ =>
    name :: match i with
      | some e => e.names
      | none => []
  | .structOffset _ => []
  | .previewTest _ name _ _ => [name]
  | .instanceId _ => []
  | .error => []

end Expr

/-- The expressions that give a field its value or its offset. -/
def Field.placingFormulas (f : Field) : List Formula := f.value.toList ++ f.offsetFormula.toList

/-- All expressions of a field. -/
def Field.formulas (f : Field) : List Formula :=
  f.placingFormulas ++ f.condition.toList ++ f.elementCondition.toList

/-- **Flat definitions**, in which each field depends on those before it. -/
structure StructDef.Flat (d : StructDef) : Prop where
  scalar : ∀ {i : Nat} {f : String × Field}, d.field? i = some f → ∃ t, f.2.type = .scalar t
  simple : ∀ {i : Nat} {f : String × Field}, d.field? i = some f →
    ∀ formula ∈ f.2.formulas, formula.expr.hasQuery = false
  backward : ∀ {i : Nat} {f : String × Field}, d.field? i = some f →
    ∀ formula ∈ f.2.placingFormulas, ∀ name ∈ formula.expr.names,
      ∀ j, d.fieldIndex? name = some j → j < i

/-- Whether the field at an index is as in a flat definition. -/
def StructDef.FlatAt (d : StructDef) (field : String × Field) (i : Nat) : Prop :=
  field.2.type.scalar?.isSome ∧ (∀ formula ∈ field.2.formulas, formula.expr.hasQuery = false) ∧
    ∀ formula ∈ field.2.placingFormulas, ∀ name ∈ formula.expr.names,
      (d.fieldIndex? name).all (· < i)

instance (d : StructDef) (field : String × Field) (i : Nat) : Decidable (d.FlatAt field i) :=
  inferInstanceAs (Decidable (_ ∧ _ ∧ _))

theorem StructDef.flat_iff {d : StructDef} :
    d.Flat ↔ ∀ p ∈ d.fields.entries.zipIdx, d.FlatAt p.1 p.2 := by
  have hmem {p : (String × Field) × Nat} :
      p ∈ d.fields.entries.zipIdx ↔ d.field? p.2 = some p.1 := List.mem_zipIdx_iff_getElem?
  refine ⟨fun h p hp => ?_, fun h => ⟨fun {i f} hf => ?_, fun {i f} hf => ?_, fun {i f} hf => ?_⟩⟩
  · have hf := hmem.mp hp
    refine ⟨?_, h.simple hf, fun formula hformula name hname => ?_⟩
    · obtain ⟨t, ht⟩ := h.scalar hf
      rw [ht]
      rfl
    · rw [Option.all_eq_true]
      exact fun j hj => decide_eq_true (h.backward hf formula hformula name hname j hj)
  · obtain ⟨hscalar, _⟩ := h (f, i) (hmem.mpr hf)
    cases htype : f.2.type with
    | scalar t => exact ⟨t, rfl⟩
    | struct name =>
      rw [htype] at hscalar
      cases hscalar
  · exact (h (f, i) (hmem.mpr hf)).2.1
  · intro formula hformula name hname j hj
    have hall := (h (f, i) (hmem.mpr hf)).2.2 formula hformula name hname
    rw [hj] at hall
    exact of_decide_eq_true hall

instance (d : StructDef) : Decidable d.Flat :=
  decidable_of_iff' _ StructDef.flat_iff

/-- **A schema of flat definitions.** -/
def Schema.Flat (s : Schema) : Prop :=
  ∀ (name : String) (d : StructDef), s.get? name = some d → d.Flat

instance (s : Schema) : Decidable s.Flat :=
  decidable_of_iff (∀ e ∈ s.structs.toList, e.2.Flat)
    ⟨fun h name d hd => h (name, d) (Std.TreeMap.mem_toList_iff_getElem?_eq_some.mpr hd),
      fun h e he => h e.1 e.2 (Std.TreeMap.mem_toList_iff_getElem?_eq_some.mp he)⟩

/-! ## 2. Facts about a field -/

/-- **What the answers about an instance depend on.** -/
structure Site where
  struct : StructDef
  ref : InstanceRef
  args : List Arg
  budget : Budget
  sizeOverride : Option Int64
  files : Array Source
  maxElements : Int64

namespace Site

variable (site : Site)

/-- A workspace with the files of the site and nothing else. -/
def workspace : Workspace :=
  { Workspace.ofSchema .empty .default with files := site.files }

def fileSize : Nat := site.workspace.fileSize site.ref.file

/-- What a name stands for where it is no field. -/
def argOrParam (name : String) : Option Int64 :=
  (argValue? name site.args).or (site.struct.param? name)

/-- A count within the limit. -/
def limited (count : Int64) : Except Fault Int64 :=
  if site.maxElements < 0 then throw .negativeElementLimit
  else pure (if count < 0 then 0
    else if site.maxElements < count then site.maxElements else count)

end Site

/-- **What there is to know about a field.** The value is the one that an expression gives. -/
structure FieldFacts where
  field : Field
  present : Bool
  origin : Int64
  offset : Except Fault Int64
  count : Except Fault Int64
  value : Except Fault Int64

instance : Inhabited FieldFacts := ⟨⟨default, true, 0, pure 0, pure 0, pure 0⟩⟩

namespace FieldFacts

variable (f : FieldFacts) (site : Site)

/-- How the elements of the field are read. -/
def reading (type : ScalarType) (count start : Int64) : Reading :=
  ⟨site.workspace, site.ref.file, f.field, type, count, start⟩

/-- The element of a number. -/
def element (n : Nat) : Except Fault (Option Element) :=
  match f.field.value, f.field.type with
  | some _, _ => do
    let value ← f.value
    pure (if n = 0 then some ⟨0, .int value⟩ else none)
  | none, .scalar t => do
    let start ← f.offset
    let count ← f.count
    pure ((f.reading site t count start).first (n + 1)).1[n]?
  | none, .struct _ => pure none

def intValue (n : Nat) : Except Fault Int64 := do
  let element ← f.element site n
  pure (element.elim 0 fun e => e.value.toInt)

def valueOffset (n : Nat) : Except Fault (Option Int64) := do
  let offset ← f.offset
  if n = 0 then pure (some offset)
  else
    let element ← f.element site n
    pure (element.map Element.offset)

/-- The previews that the joined preview takes. -/
def takePreviews (separated : Bool) :
    (left n : Nat) → (joined : String) → Except Fault (List String)
  | 0, _, _ => pure []
  | left + 1, n, joined => do
    let element ← f.element site n
    match element.map fun e => e.value.preview with
    | none => pure []
    | some p =>
      let longer := joined ++ previewSeparator separated (n == 0) ++ p
      if p.isEmpty || previewLimit ≤ longer.utf8ByteSize then pure [p]
      else
        let rest ← takePreviews separated left (n + 1) longer
        pure (p :: rest)

def isSeparated : Bool := f.field.type.scalar?.elim true ScalarType.isSeparated

/-- The joined preview of a field that is present. -/
def joined : Except Fault String := do
  let _ ← f.offset
  let previews ← f.takePreviews site f.isSeparated previewLimit 0 ""
  pure (joinPreviews f.isSeparated previews)

def preview : Except Fault String :=
  if f.present then f.joined site else pure notPresentPreview

/-- The number of elements that take up room. -/
def occupied (type : ScalarType) : Except Fault Int64 := do
  let count ← f.count
  if f.field.untilZero then
    let start ← f.offset
    pure (Int64.ofNat ((f.reading site type count start).first (site.fileSize + 1)).1.size)
  else if f.field.countIsBytes then pure (count / Int64.ofNat type.size)
  else pure count

/-- The room that the field takes up. -/
def total : Except Fault Int64 :=
  match f.field.value, f.field.type with
  | some _, _ | none, .struct _ => pure 0
  | none, .scalar t => do
    let n ← f.occupied site t
    pure (Int64.ofNat t.size * n)

end FieldFacts

/-! ## 3. Laying out -/

namespace Site

variable (site : Site)

section

variable (facts : List FieldFacts) (constants : List (String × Int64)) (before : Option Nat)

/-- What a name stands for, given what is known about the first fields. -/
def lookup (name : String) (index : Int64) (isOffset : Bool) : Except Fault (Option Int64) :=
  let value (n : Int64) : Int64 := if isOffset then 0 else n
  match ((constants.find? fun c => c.1 == name).map Prod.snd).or (argValue? name site.args) with
  | some n => pure (some (value n))
  | none =>
    match site.struct.fieldIndex? name with
    | none => pure ((site.struct.param? name).map value)
    | some i =>
      if before.any (· ≤ i) || index < 0 then pure none
      else
        match facts[i]? with
        | none => pure none
        | some f =>
          if isOffset then f.valueOffset site index.toInt.toNat
          else some <$> f.intValue site index.toInt.toNat

def namedPreview (name : String) : Except Fault (Option String) :=
  match site.struct.fieldIndex? name with
  | none => pure none
  | some i =>
    if before.any (· ≤ i) then pure none
    else
      match facts[i]? with
      | none => pure none
      | some f => some <$> f.preview site

/-- The environment of the expressions of a field. -/
def environment : Environment (Except Fault) InstanceRef where
  lookup _ := site.lookup facts constants before
  roots := [site.ref]
  children _ _ _ := pure []
  instancesOf _ _ _ := pure []
  read offset length := pure (site.workspace.read site.ref.file offset length)
  offsetOf := InstanceRef.offset
  idOf r := Int64.ofNat r.id
  preview _ := site.namedPreview facts before

def evaluate (expr : Expr) : Except Fault Int64 :=
  expr.evaluate (site.environment facts constants before)

end

section

variable (facts : List FieldFacts) (i : Nat) (field : Field)

/-- The value of the condition; a field without one is present. -/
def conditionValue : Except Fault Int64 :=
  match field.condition with
  | none => pure 1
  | some condition => site.evaluate facts [] (some i) condition.expr

def offsetOf (present : Bool) (origin : Int64) : Except Fault Int64 :=
  if field.value.isSome then pure 0
  else
    match field.offsetFormula with
    | some formula =>
      site.evaluate facts [indexConstant 0, originConstant origin] none formula.expr
    | none => pure (if present && !site.struct.isPacked then origin + field.offset else origin)

/-- A count before it is cut to the limit. -/
def unlimitedCount : Except Fault Int64 :=
  match field.countSource with
  | .literal => pure field.count
  | .fileSize => pure (Int64.ofNat site.fileSize + field.count)
  | .named source => do
    let base ←
      match site.struct.fieldIndex? source with
      | some j =>
        match if j < i then facts[j]? else none with
        | some f => some <$> f.intValue site 0
        | none => pure (site.argOrParam source)
      | none => pure (site.argOrParam source)
    pure (base.elim 0 (· + field.count))

def countOf (present : Bool) : Except Fault Int64 :=
  if field.value.isSome then pure 1
  else do
    let count ← if present then site.unlimitedCount facts i field else pure 0
    site.limited count

def valueOf (origin : Int64) : Except Fault Int64 :=
  match field.value with
  | some formula => site.evaluate facts [originConstant origin] none formula.expr
  | none => pure 0

/-- The facts about a field, given those about the fields before it. -/
def factsOf (present : Bool) (origin : Int64) : FieldFacts where
  field := field
  present := present
  origin := origin
  offset := site.offsetOf facts field present origin
  count := site.countOf facts i field present
  value := site.valueOf facts field origin

end

/-- **The facts about the first fields**, and where the next one starts. -/
def layOut : (k : Nat) → Except Fault (List FieldFacts × Int64)
  | 0 => pure ([], site.ref.offset)
  | k + 1 => do
    let (facts, cursor) ← layOut k
    match site.struct.field? k with
    | none => pure (facts, cursor)
    | some (_, field) =>
      let condition ← site.conditionValue facts k field
      let present : Bool := condition ≠ 0
      let f := site.factsOf facts k field present cursor
      if present && site.struct.isPacked && !field.isComputed then
        let total ← f.total site
        pure (facts ++ [f], cursor + total)
      else pure (facts ++ [f], cursor)

/-! ## 4. Answers -/

/-- What is to know about a field; nothing if there is none. -/
def fieldFacts (i : Nat) : Except Fault (Option FieldFacts) := do
  let (facts, _) ← site.layOut (i + 1)
  pure facts[i]?

/-- The size of the instance. -/
def size : Except Fault Int64 :=
  match site.struct.sizeSource with
  | some source => do
    let base ←
      match site.struct.fieldIndex? source with
      | some i => do
        let f ← site.fieldFacts i
        some <$> f.elim (pure 0) fun f => f.intValue site 0
      | none => pure (site.argOrParam source)
    pure (base.getD 0 + site.struct.size)
  | none =>
    if site.struct.isPacked then do
      let (_, cursor) ← site.layOut site.struct.fieldCount
      pure (cursor - site.ref.offset)
    else pure site.struct.size

/-- Whether the chain goes on after the instance, which has a size. With `loose`, anything left
counts, also less than nothing. -/
def goesOn (loose : Bool) (size : Int64) : Bool :=
  let step := if site.budget.inBytes then site.sizeOverride.getD size else 1
  let left := site.budget.left - step
  if loose then left ≠ 0 else 0 < left

end Site

/-- **What may be asked of an instance.** -/
inductive Inquiry where
  | isPresent (i : Nat)
  | fieldOffset (i : Nat)
  | valueOffset (i n : Nat)
  | elementCount (i : Nat)
  | totalSize (i : Nat)
  | fieldPreview (i : Nat)
  | valuePreview (i n : Nat)
  | intValue (i n : Nat)
  | size
  | canCreateNext (loose : Bool)

namespace Inquiry

/-- What kind of answer there is. -/
def Answer : Inquiry → Type
  | isPresent _ | canCreateNext _ => Option Bool
  | fieldOffset _ | valueOffset _ _ | elementCount _ | totalSize _ | size => Option Int64
  | fieldPreview _ => String
  | valuePreview _ _ => Option String
  | intValue _ _ => Int64

instance : (q : Inquiry) → DecidableEq q.Answer
  | isPresent _ | canCreateNext _ => inferInstanceAs (DecidableEq (Option Bool))
  | fieldOffset _ | valueOffset _ _ | elementCount _ | totalSize _ | size =>
    inferInstanceAs (DecidableEq (Option Int64))
  | fieldPreview _ => inferInstanceAs (DecidableEq String)
  | valuePreview _ _ => inferInstanceAs (DecidableEq (Option String))
  | intValue _ _ => inferInstanceAs (DecidableEq Int64)

/-- Asks an instance. -/
def ask (r : InstanceRef) (isLazy : Bool) : (q : Inquiry) → Resolve q.Answer
  | isPresent i => r.isPresent i isLazy
  | fieldOffset i => r.fieldOffset i isLazy
  | valueOffset i n => r.valueOffset i n isLazy
  | elementCount i => r.elementCount i isLazy
  | totalSize i => r.totalSize i isLazy
  | fieldPreview i => r.fieldPreview i isLazy
  | valuePreview i n => r.valuePreview i n
  | intValue i n => r.intValue i n
  | size => r.size isLazy
  | canCreateNext loose => r.canCreateNext isLazy loose

/-- The answer where nothing is known. -/
def nothing : (q : Inquiry) → q.Answer
  | isPresent _ | canCreateNext _ => (none : Option Bool)
  | fieldOffset _ | valueOffset _ _ | elementCount _ | totalSize _ | size => (none : Option Int64)
  | fieldPreview _ => notLoadedPreview
  | valuePreview _ _ => (none : Option String)
  | intValue _ _ => (0 : Int64)

/-- The answer about a field of which all is known. -/
def about (site : Site) (f : FieldFacts) : (q : Inquiry) → Except Fault q.Answer
  | isPresent _ => pure (some f.present)
  | fieldOffset _ => some <$> f.offset
  | valueOffset _ n => f.valueOffset site n
  | elementCount _ => some <$> f.count
  | totalSize _ => some <$> f.total site
  | fieldPreview _ => f.preview site
  | valuePreview _ n => (Option.map fun e => e.value.preview) <$> f.element site n
  | intValue _ n => f.intValue site n
  | size => some <$> site.size
  | canCreateNext loose => (fun size => some (site.goesOn loose size)) <$> site.size

/-- The field that is asked about. -/
def field? : Inquiry → Option Nat
  | isPresent i | fieldOffset i | valueOffset i _ | elementCount i | totalSize i
  | fieldPreview i | valuePreview i _ | intValue i _ => some i
  | size | canCreateNext _ => none

/-- **The answer**, without a workspace. -/
def answer (site : Site) (q : Inquiry) : Except Fault q.Answer :=
  match q.field? with
  | some i => do
    let f ← site.fieldFacts i
    f.elim (pure q.nothing) fun f => q.about site f
  | none => q.about site default

end Inquiry

end ByteAtlas
