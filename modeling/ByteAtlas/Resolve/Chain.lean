import ByteAtlas.Resolve.Fields

/-!
# Sizes and chains

The size of an instance is the one its definition tells, or where its last field ends if the struct
is packed, or it depends on a field, an argument or a parameter (`Resolver.size`). An instance of an
undefined struct has the size 0.

The size is the distance to the next instance of the same chain, unless an override is set. A chain
goes on as long as something is left of the budget (`Resolver.createNext`).
-/

namespace ByteAtlas

open Resolve (ask update)

namespace Resolver

variable (resolver : Resolver)

/-! ## 1. Sizes -/

/-- The size of an instance as its definition tells it. -/
def measureSize (r : InstanceRef) (d : StructDef) (isLazy : Bool) : Resolve (Option Int64) := do
  match d.sizeSource with
  | some source =>
    if isLazy then pure none
    else
      let base ← resolver.namedValue r d source
      pure (some (base.getD 0 + d.size))
  | none =>
    if d.isPacked then
      if !isLazy then resolver.enumerate r d.fieldCount false
      let layout ← layoutOf r
      if layout.entries.size < d.fieldCount || layout.measuring.isSome then pure none
      else pure (some (layout.cursor - r.offset))
    else pure (some d.size)

/-- **The size of an instance.** -/
def size (r : InstanceRef) (isLazy : Bool) : Resolve (Option Int64) := do
  match ← structOf? r with
  | none => pure (some 0)
  | some d =>
    let stamp ← ask fun ws => ws.stampOf r d
    let layout ← layoutOf r
    match layout.sizeFor? stamp with
    | some size => pure (some size)
    | none =>
      match ← unlessCutShort (resolver.measureSize r d isLazy) with
      | none => pure none
      | some size =>
        modifyLayout r (·.setSize stamp size)
        pure (some size)

/-! ## 2. Chains -/

/-- What is left of the budget after an instance of a size. -/
def budgetAfter (r : InstanceRef) (size : Int64) : Resolve Int64 :=
  ask fun ws => (ws.find? r.id).elim 0 fun i => i.budgetAfter size

/-- Whether the chain goes on after an instance. With `loose`, anything left counts, also less than
    nothing. -/
def canCreateNext (r : InstanceRef) (isLazy loose : Bool) : Resolve (Option Bool) := do
  match ← resolver.size r isLazy with
  | none => pure none
  | some size =>
    let left ← budgetAfter r size
    pure (some (if loose then left ≠ 0 else 0 < left))

/-- **A line about the next instance**: where it would be, how far from this one, and what is left
    of the budget. -/
def nextInfo (r : InstanceRef) (isLazy : Bool) : Resolve String := do
  let inBytes ← ask fun ws => (ws.find? r.id).any fun i => i.budget.inBytes
  let unit := if inBytes then "size" else "count"
  match ← resolver.size r isLazy with
  | none => pure ("@?, after ?, rem. " ++ unit ++ ": ?")
  | some size =>
    let stride ← ask fun ws => ((ws.find? r.id).bind fun i => i.sizeOverride).getD size
    let left ← budgetAfter r size
    pure ("@" ++ decimalText (r.offset + size) ++ ", after " ++ decimalText stride ++ ", rem. " ++
      unit ++ ": " ++ decimalText left)

/-- The placement of the next instance of a chain. It keeps everything but the override. -/
def nextPlacement (i : Instance) (size : Int64) (reason : Reason) : Placement where
  location := { i.location with offset := i.offset + i.sizeOverride.getD size }
  notes := i.notes
  reason := reason
  allowAutoExpand := i.allowAutoExpand
  budget := { i.budget with left := i.budgetAfter size }
  sizeOverride := none
  args := i.args

/-- **Places the next instance of a chain**, if there is one. An instance of the size 0 has none. -/
def createNext (r : InstanceRef) (reason : Reason) : Resolve (Option InstanceRef) := do
  match ← resolver.size r false with
  | none => pure none
  | some size =>
    if size = 0 then pure none
    else
      match ← ask fun ws => ws.find? r.id with
      | none => pure none
      | some i =>
        if i.budgetAfter size ≤ 0 then pure none
        else
          let added ← update fun ws => ws.place (nextPlacement i size reason)
          pure (some added.ref)

end Resolver

end ByteAtlas
