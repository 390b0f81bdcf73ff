import ByteAtlas.Resolve.Basic

/-!
# Fields: presence, offset, count and elements

For each field of an instance: whether it is there (`Resolver.isPresent`), where it starts
(`Resolver.fieldOffset`), how many elements it has or how many bytes they may take
(`Resolver.elementCount`), and the elements of a scalar type (`Resolver.readValues`), with their
integers and previews.

Every question first has the fields up to this one laid out (`Resolver.enumerate`). A lazy question
reads no elements for that and measures no children; what would need either is not known. Answers
are kept in the layout and are not computed twice.

A count may refer to an earlier field, so counting goes down in the index of the field.
-/

namespace ByteAtlas

open Resolve (ask change)

/-- The size of every element of a type, where no instance has to be measured for it. An undefined
    struct has the size 0. -/
def Schema.fixedSize? (s : Schema) : ElementType → Option Int64
  | .scalar t => some (Int64.ofNat t.size)
  | .struct name =>
    match s.get? name with
    | none => some 0
    | some d => if !d.isPacked && d.sizeSource.isNone then some d.size else none

/-- Which elements are to be read. -/
inductive Wanted where
  /-- So many of the first. -/
  | first (count : Nat)
  /-- All up to the first that is zero, in a field that ends there. Those before it lie within the
      file. -/
  | throughZero
  deriving DecidableEq, Repr

namespace Wanted

/-- Whether so many elements are enough. -/
def metBy (w : Wanted) (count : Nat) : Bool :=
  match w with
  | first n => n ≤ count
  | throughZero => false

/-- An element is there if it is among those read. -/
theorem metBy_first {n count : Nat} : (first (n + 1)).metBy count = true ↔ n < count :=
  decide_eq_true_iff

/-- How many elements are to be read at most, where some have been read. -/
def missing (w : Wanted) (count fileSize : Nat) : Nat :=
  match w with
  | first n => n - count
  | throughZero => fileSize + 1

end Wanted

/-- Whether a field has an element after those read: its count or its bytes are not used up, and the
    last one is not a zero at which the field ends. `start` is the offset of the field, `next` where
    the element would be. -/
def Field.hasNext (f : Field) (size count start next : Int64) (values : Array Element) : Bool :=
  (if f.countIsBytes then next - start + size ≤ count
    else Int64.ofNat values.size < count) &&
  !(f.untilZero && values.back?.any fun e => e.value.toInt = 0)

/-- **Reads on**: up to `left` more elements, from `next` on. The elements, and where the next one
    would be. -/
def Workspace.readElements (ws : Workspace) (file : FileId) (f : Field) (t : ScalarType)
    (count start : Int64) : (left : Nat) → (next : Int64) → Array Element → Array Element × Int64
  | 0, next, values => (values, next)
  | left + 1, next, values =>
    if f.hasNext (Int64.ofNat t.size) count start next values then
      let value := Scalar.decode t (ws.read file next t.size)
      ws.readElements file f t count start left (next + Int64.ofNat t.size)
        (values.push ⟨next, value⟩)
    else (values, next)

/-- What a name stands for where it is no field: the argument, or else the parameter. -/
def argOrParam (r : InstanceRef) (d : StructDef) (name : String) : Resolve (Option Int64) :=
  ask fun ws => (ws.argOf? r name).or (d.param? name)

/-- **A count within the limit.** -/
def limitCount (count : Int64) : Resolve Int64 := do
  let limit ← ask fun ws => ws.limits.maxElements
  if limit < count then noteLimitHit
  if limit < 0 then throw .negativeElementLimit
  else pure (if count < 0 then 0 else if limit < count then limit else count)

/-- A number, or a question mark. -/
def knownText (n : Option Int64) : String :=
  n.elim "?" decimalText

/-- The constant for where a field would start. -/
def originConstant (origin : Int64) : String × Int64 := ("orig", origin)

/-- The constant for the index of an element. -/
def indexConstant (index : Int64) : String × Int64 := ("i", index)

/-- The constant for the offset of an element. -/
def offsetConstant (offset : Int64) : String × Int64 := ("off", offset)

namespace Resolver

variable (resolver : Resolver)

/-! ## 1. Laying out -/

/-- **Has the first fields of an instance laid out.** While one of them is being laid out, this goes
    no further. -/
def enumerate (r : InstanceRef) (upTo : Nat) (isLazy : Bool) : Resolve Unit := do
  match ← structOf? r with
  | none => pure ()
  | some d =>
    let upTo := min upTo d.fieldCount
    validateLayout r d
    let layout ← layoutOf r
    if upTo ≤ layout.entries.size || layout.measuring.isSome then pure ()
    else resolver.layOut r d upTo isLazy

/-- Whether the condition of a field holds. -/
def isPresent (r : InstanceRef) (i : Nat) (isLazy : Bool) : Resolve (Option Bool) := do
  resolver.enumerate r (i + 1) isLazy
  let entry ← entryOf? r i
  pure (entry.map FieldEntry.present)

/-! ## 2. Offsets -/

/-- Where a field starts. -/
def fieldOffset (r : InstanceRef) (i : Nat) (isLazy : Bool) : Resolve (Option Int64) := do
  resolver.enumerate r (i + 1) isLazy
  match ← entryOf? r i with
  | none => pure none
  | some entry =>
    if entry.offset.isSome || isLazy then pure entry.offset
    else
      let field ← fieldOf? r i
      match field.bind fun f => f.2.offsetFormula with
      | none => pure none
      | some formula =>
        let offset ← unlessCutShort (resolver.evaluate
          (.withConstants r [indexConstant 0, originConstant entry.origin]) formula.expr)
        match offset with
        | none => pure none
        | some offset =>
          modifyEntry r i fun e => { e with offset := some offset }
          pure (some offset)

/-! ## 3. Elements, given how to count -/

/-- The value that an expression gives to a field is its only element. -/
def readFormula (r : InstanceRef) (i : Nat) (entry : FieldEntry) (formula : Formula)
    (wanted : Wanted) : Resolve Bool := do
  let value ← unlessCutShort
    (resolver.evaluate (.withConstants r [originConstant entry.origin]) formula.expr)
  match value with
  | none => pure false
  | some value =>
    modifyEntry r i fun e =>
      if e.values.isEmpty then { e with values := #[⟨0, .int value⟩] } else e
    pure (wanted.metBy 1)

/-- The elements of a scalar type, from the file. -/
def readScalars (countElements : Resolve (Option Int64)) (r : InstanceRef) (i : Nat) (field : Field)
    (type : ScalarType) (wanted : Wanted) : Resolve Bool := do
  let offset ← resolver.fieldOffset r i false
  let start := offset.getD 0
  let count ← countElements
  let ws ← get
  match ws.entryOf? r i with
  | none => pure false
  | some entry =>
    let (values, next) := ws.readElements r.file field type (count.getD 0) start
      (wanted.missing entry.values.size (ws.fileSize r.file))
      (entry.nextElement.getD start) entry.values
    modifyEntry r i fun e => { e with values := values, nextElement := some next }
    pure (wanted.metBy values.size)

/-- The elements of a field; whether those wanted are there. Elements of a struct type have no
    values. -/
def readValuesWith (countElements : Resolve (Option Int64)) (r : InstanceRef) (i : Nat)
    (wanted : Wanted) : Resolve Bool := do
  resolver.enumerate r (i + 1) false
  match ← entryOf? r i with
  | none => pure false
  | some entry =>
    if wanted.metBy entry.values.size then pure true
    else
      match ← fieldOf? r i with
      | none => pure false
      | some (_, field) =>
        match field.value, field.type with
        | some formula, _ => resolver.readFormula r i entry formula wanted
        | none, .scalar type => resolver.readScalars countElements r i field type wanted
        | none, .struct _ => pure false

/-- The integer reading of an element, 0 if it is not there. -/
def intValueWith (countElements : Resolve (Option Int64)) (r : InstanceRef) (i n : Nat) :
    Resolve Int64 := do
  if ← resolver.readValuesWith countElements r i (.first (n + 1)) then
    let entry ← entryOf? r i
    pure ((entry.bind fun e => e.values[n]?).elim 0 fun e => e.value.toInt)
  else pure 0

/-! ## 4. Counts -/

/-- **The number of elements of a field**, or of bytes that they may take. A field that is not
    present has none. A count may refer to an earlier field; where it refers to nothing, it is 0. -/
def elementCount (r : InstanceRef) (i : Nat) (isLazy : Bool) : Resolve (Option Int64) := do
  resolver.enumerate r (i + 1) isLazy
  match ← entryOf? r i with
  | none => pure none
  | some entry =>
    if entry.count.isSome then pure entry.count
    else
      let count ←
        if !entry.present then pure (some 0)
        else unlessCutShort do
          let d ← structOf? r
          let d := d.getD .empty
          match d.field? i with
          | none => pure (some 0)
          | some (_, field) =>
            if field.value.isSome then pure (some 1)
            else
              match field.countSource with
              | .literal => pure (some field.count)
              | .fileSize =>
                let size ← ask fun ws => ws.fileSize r.file
                pure (some (Int64.ofNat size + field.count))
              | .named source =>
                let base ←
                  match d.fieldIndex? source with
                  | some j =>
                    if _h : j < i then
                      some <$> resolver.intValueWith (elementCount r j false) r j 0
                    else argOrParam r d source
                  | none => argOrParam r d source
                pure (some (base.elim 0 (· + field.count)))
      match count with
      | none => pure none
      | some count =>
        let count ← limitCount count
        modifyEntry r i fun e => { e with count := some count }
        pure (some count)
termination_by i

/-! ## 5. Elements -/

/-- **Reads the elements of a field**; whether those wanted are there. -/
def readValues (r : InstanceRef) (i : Nat) (wanted : Wanted) : Resolve Bool :=
  resolver.readValuesWith (resolver.elementCount r i false) r i wanted

/-- The integer reading of an element, 0 if it is not there. -/
def intValue (r : InstanceRef) (i n : Nat) : Resolve Int64 :=
  resolver.intValueWith (resolver.elementCount r i false) r i n

/-- The preview of an element. -/
def valuePreview (r : InstanceRef) (i n : Nat) : Resolve (Option String) := do
  if ← resolver.readValues r i (.first (n + 1)) then
    let entry ← entryOf? r i
    pure ((entry.bind fun e => e.values[n]?).map fun e => e.value.preview)
  else pure none

/-- The value of a name in an instance: of the first element of a field, of an argument or of a
    parameter. -/
def namedValue (r : InstanceRef) (d : StructDef) (name : String) : Resolve (Option Int64) := do
  match d.fieldIndex? name with
  | some i => some <$> resolver.intValue r i 0
  | none => argOrParam r d name

/-! ## 6. Previews -/

/-- The previews that a joined preview takes, from element `n` on. `left` is how many more it can
    take: each is at least one byte long. -/
def takePreviews (r : InstanceRef) (i : Nat) (separated : Bool) :
    (left n : Nat) → (joined : String) → Resolve (List String)
  | 0, _, _ => pure []
  | left + 1, n, joined => do
    match ← resolver.valuePreview r i n with
    | none => pure []
    | some p =>
      let longer := joined ++ previewSeparator separated (n == 0) ++ p
      if p.isEmpty || previewLimit ≤ longer.utf8ByteSize then pure [p]
      else
        let rest ← takePreviews r i separated left (n + 1) longer
        pure (p :: rest)

/-- **The joined preview of a field.** -/
def fieldPreview (r : InstanceRef) (i : Nat) (isLazy : Bool) : Resolve String := do
  resolver.enumerate r (i + 1) isLazy
  match ← entryOf? r i with
  | none => pure notLoadedPreview
  | some entry =>
    if !entry.present then pure notPresentPreview
    else
      match entry.preview with
      | some preview => pure preview
      | none =>
        let offset ← resolver.fieldOffset r i isLazy
        if offset.isNone then pure notLoadedPreview
        else
          let field ← fieldOf? r i
          let type := field.bind fun f => f.2.type.scalar?
          let separated := type.elim true ScalarType.isSeparated
          let previews ← resolver.takePreviews r i separated previewLimit 0 ""
          let preview := joinPreviews separated previews
          modifyEntry r i fun e => { e with preview := some preview }
          pure preview

/-- **A line about a field**: name, type, count, offset and preview, as far as they can be told
    lazily. -/
def fieldSummary (r : InstanceRef) (i : Nat) : Resolve String := do
  match ← fieldOf? r i with
  | none => pure ""
  | some (name, field) =>
    resolver.enumerate r (i + 1) true
    let count ←
      if field.countIsBytes || !field.isOne then do
        let count ← resolver.elementCount r i true
        pure ("[" ++ (if field.countIsBytes then "up to " else "") ++ knownText count ++ "]")
      else pure ""
    let offset ← resolver.fieldOffset r i true
    let preview ← resolver.fieldPreview r i true
    pure (name ++ ": " ++ field.type.name ++ count ++ "@" ++ knownText offset ++ "=" ++ preview)

end Resolver

end ByteAtlas
