import ByteAtlas.Resolve.Chain

/-!
# Children and total sizes

A struct-typed field holds child instances. `Resolver.walk` places them in the order of the
elements, or finds those that are there, and shows each to a visitor, which may stop it. The
children form a chain from the offset of the field on, with the count as the budget; or each of them
has an offset that an expression gives, and those that lie outside of the file or fail the element
condition are passed over.

The total size of a field is its count times the size of an element where all elements have the same
size, and else the sum of the sizes of its children (`Resolver.totalSize`).
-/

namespace ByteAtlas

open Resolve (ask update change)

/-- Looks at a child. The result is what the visitor has gathered, and whether to go on. -/
abbrev Visitor (σ : Type) := σ → InstanceRef → Resolve (σ × Bool)

/-- The visitor that goes on in any case. -/
def Visitor.idle : Visitor Unit := fun _ _ => pure ((), true)

/-- Whether a field of an instance holds child instances. -/
def Workspace.holdsChildren (ws : Workspace) (r : InstanceRef) (i : Nat) : Bool :=
  (ws.fieldOf? r i).any fun f => f.2.value.isNone && f.2.type.structName?.isSome

namespace Resolver

variable (resolver : Resolver)

/-! ## 1. Placing children -/

/-- The value of an argument for children: its own, added to what it refers to. A name that stands
    for nothing makes it 0. -/
def argValue (r : InstanceRef) (binding : ArgBinding) : Resolve Int64 := do
  match binding.source with
  | none => pure binding.value
  | some source =>
    let d ← structOf? r
    let base ← resolver.namedValue r (d.getD .empty) source
    pure (base.elim 0 (· + binding.value))

/-- The arguments for children, one after the other. -/
def argValues (r : InstanceRef) : List ArgBinding → Resolve (List Arg)
  | [] => pure []
  | b :: bs => do
    let value ← resolver.argValue r b
    let rest ← argValues r bs
    pure (⟨b.name, value⟩ :: rest)

/-- Places a child at an offset, or finds the one that is there. A new one gets its arguments once
    it is placed. -/
def placeChild (r : InstanceRef) (field : Field) (struct : String) (reason : Reason)
    (offset : Int64) (budget : Budget) : Resolve InstanceRef := do
  let added ← update fun ws =>
    ws.place { Placement.single ⟨struct, r.file, offset⟩ reason with budget }
  if added.inserted && !field.args.isEmpty then
    let args ← resolver.argValues r field.args
    change fun ws => ws.modify added.ref.id (Instance.bindArgs args)
  pure added.ref

/-! ## 2. Walks -/

section

variable {σ : Type}

/-- The rest of a chain of children, after the one numbered `n`. `left` is how many elements the
    field has after it. The result is the child at which the walk was stopped, or the one numbered
    `upTo`. -/
def walkChain (upTo : Option Nat) (reason : Reason) (visit : Visitor σ) :
    (left n : Nat) → σ → InstanceRef → Resolve (σ × Option InstanceRef)
  | 0, n, s, child => pure (s, if upTo = some n then some child else none)
  | left + 1, n, s, child => do
    if upTo = some n then pure (s, some child)
    else if (← resolver.canCreateNext child false false) = some true then
      match ← resolver.createNext child reason with
      | none => pure (s, none)
      | some next =>
        let (s, goOn) ← visit s next
        if goOn then walkChain upTo reason visit left (n + 1) s next
        else pure (s, some next)
    else pure (s, none)

/-- Whether an offset lies within a file. -/
def withinFile (fileSize : Nat) (offset : Int64) : Bool :=
  0 ≤ offset && offset.toInt < fileSize

/-- Whether an individually offset element exists. -/
def hasElement (r : InstanceRef) (field : Field) (origin index offset : Int64) : Resolve Bool := do
  let fileSize ← ask fun ws => ws.fileSize r.file
  if !withinFile fileSize offset then pure false
  else
    match field.elementCondition with
    | none => pure true
    | some condition =>
      let value ← resolver.evaluate (.withConstants r
        [indexConstant index, offsetConstant offset, originConstant origin]) condition.expr
      pure (value.getD 0 ≠ 0)

/-- The individually offset children from the one numbered `n` on; `left` elements remain. The walk
    also ends where an offset is not known. -/
def walkOffsets (r : InstanceRef) (field : Field) (struct : String) (formula : Formula)
    (origin : Int64) (upTo : Option Nat) (reason : Reason) (visit : Visitor σ) :
    (left n : Nat) → σ → Resolve (σ × Option InstanceRef)
  | 0, _, s => pure (s, none)
  | left + 1, n, s => do
    let index := Int64.ofNat n
    match ← resolver.evaluate
        (.withConstants r [indexConstant index, originConstant origin]) formula.expr with
    | none => pure (s, none)
    | some offset =>
      if ← resolver.hasElement r field origin index offset then
        let child ← resolver.placeChild r field struct reason offset .one
        let (s, goOn) ← visit s child
        if !goOn || upTo = some n then pure (s, some child)
        else walkOffsets r field struct formula origin upTo reason visit left (n + 1) s
      else walkOffsets r field struct formula origin upTo reason visit left (n + 1) s

/-- **Places the children in a field and shows them to a visitor**, up to the element numbered
    `upTo`. The result is the child at which the walk was stopped, or the one numbered `upTo` if the
    walk got there. -/
def walk (r : InstanceRef) (i : Nat) (upTo : Option Nat) (reason : Reason) (visit : Visitor σ)
    (s : σ) : Resolve (σ × Option InstanceRef) := do
  match ← fieldOf? r i with
  | none => pure (s, none)
  | some (_, field) =>
    match field.value, field.type with
    | some _, _ | none, .scalar _ => pure (s, none)
    | none, .struct struct =>
      if ← ask fun ws => (ws.schema.get? struct).isNone then pure (s, none)
      else
        let count := (← resolver.elementCount r i false).getD 0
        if count ≤ 0 then pure (s, none)
        else
          match field.individualOffsets, field.offsetFormula with
          | true, some formula =>
            match ← entryOf? r i with
            | none => pure (s, none)
            | some entry =>
              resolver.walkOffsets r field struct formula entry.origin upTo reason visit
                count.toInt.toNat 0 s
          | _, _ =>
            let offset := (← resolver.fieldOffset r i false).getD 0
            let child ← resolver.placeChild r field struct reason offset
              ⟨count, field.countIsBytes⟩
            let (s, goOn) ← visit s child
            if goOn then
              resolver.walkChain upTo reason visit (count.toInt.toNat - 1) 0 s child
            else pure (s, some child)

end

/-! ## 3. Total sizes -/

/-- The number of elements that take up room, all of them being of one size. -/
def occupiedCount (r : InstanceRef) (i : Nat) (field : Field) (size : Int64) : Resolve Int64 := do
  let count := (← resolver.elementCount r i false).getD 0
  if field.untilZero then
    let _ ← resolver.readValues r i .throughZero
    let entry ← entryOf? r i
    pure (entry.elim 0 fun e => Int64.ofNat e.values.size)
  else if field.countIsBytes then pure (if 0 < size then count / size else 0)
  else pure count

/-- The visitor that adds up the sizes of children. -/
def addSize : Visitor Int64 := fun total child => do
  let size ← resolver.size child false
  pure (total + size.getD 0, true)

/-- The room that a field takes up in the file. -/
def measureField (r : InstanceRef) (i : Nat) (field : Field) (fixed : Option Int64) :
    Resolve Int64 := do
  if field.value.isSome then pure 0
  else
    match fixed with
    | some size =>
      let count ← resolver.occupiedCount r i field size
      pure (size * count)
    | none =>
      let (total, _) ← resolver.walk r i none .query resolver.addSize 0
      pure total

/-- **The room that a field takes up in the file.** -/
def totalSize (r : InstanceRef) (i : Nat) (isLazy : Bool) : Resolve (Option Int64) := do
  resolver.enumerate r (i + 1) isLazy
  match ← entryOf? r i with
  | none => pure none
  | some entry =>
    if entry.totalSize.isSome then pure entry.totalSize
    else
      match ← fieldOf? r i with
      | none => pure none
      | some (_, field) =>
        let fixed ← ask fun ws => ws.schema.fixedSize? field.type
        if isLazy && field.value.isNone && fixed.isNone then pure none
        else
          match ← unlessCutShort (some <$> resolver.measureField r i field fixed) with
          | none => pure none
          | some total =>
            modifyEntry r i fun e => { e with totalSize := some total }
            pure (some total)

/-! ## 4. Offsets of elements -/

/-- **The offset of an element**, in the file or of a child. -/
def valueOffset (r : InstanceRef) (i n : Nat) (isLazy : Bool) : Resolve (Option Int64) := do
  match ← resolver.fieldOffset r i isLazy with
  | none => pure none
  | some offset =>
    if n = 0 then pure (some offset)
    else if !isLazy && (← ask fun ws => ws.holdsChildren r i) then
      let (_, child) ← resolver.walk r i (some n) .query .idle ()
      pure (child.map InstanceRef.offset)
    else
      if !isLazy then
        let _ ← resolver.readValues r i (.first (n + 1))
      let entry ← entryOf? r i
      pure ((entry.bind fun e => e.values[n]?).map Element.offset)

end Resolver

end ByteAtlas
