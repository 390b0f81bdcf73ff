import ByteAtlas.Resolve.Query

/-!
# Laying out and evaluating

The two steps that take a frame, and the knot: `Resolver.within n` is the resolver with `n` frames
left. Its steps run in a frame of their own, with the resolver of one frame less for what they need
in turn. So resolution ends whatever the schema says. At the outermost `maxDepth` frames are left
(`Resolve.resolving`), as many as `inFrame` admits.
-/

namespace ByteAtlas

open Resolve (ask)

namespace Resolver

variable (resolver : Resolver)

/-! ## 1. Laying out -/

/-- What is known about a field as soon as it is reached. A value that an expression gives takes no
    room; an offset that an expression gives is not computed yet. -/
def firstEntry (d : StructDef) (field : Field) (present : Bool) (cursor : Int64) : FieldEntry :=
  let entry := FieldEntry.reached present cursor
  if field.value.isSome then
    { entry with offset := some 0, count := some 1, totalSize := some 0 }
  else if field.isComputed then entry
  else
    { entry with offset := some (if present && !d.isPacked then cursor + field.offset else cursor) }

/-- The value of a condition; a field without one is there. -/
def conditionValue (r : InstanceRef) (i : Nat) (field : Field) : Resolve (Option Int64) :=
  match field.condition with
  | none => pure (some 1)
  | some condition => unlessCutShort (resolver.evaluate (.upToField r i) condition.expr)

/-- **Moves the cursor past a field**, if it takes room; whether its size is known. If it is not,
    the field is not laid out. -/
def passField (r : InstanceRef) (d : StructDef) (i : Nat) (field : Field) (present isLazy : Bool) :
    Resolve Bool := do
  if present && d.isPacked && !field.isComputed then
    match ← resolver.totalSize r i isLazy with
    | some size =>
      modifyLayout r (·.advance size)
      pure true
    | none =>
      modifyLayout r Layout.pop
      pure false
  else pure true

/-- Lays out one more field; whether that was possible. -/
def layOutField (r : InstanceRef) (d : StructDef) (isLazy : Bool) : Resolve Bool := do
  let layout ← layoutOf r
  let i := layout.entries.size
  match d.field? i with
  | none => pure false
  | some (_, field) =>
    modifyLayout r (·.setMeasuring (some i))
    match ← resolver.conditionValue r i field with
    | none =>
      modifyLayout r (·.setMeasuring none)
      pure false
    | some condition =>
      let present : Bool := condition ≠ 0
      modifyLayout r (·.push (firstEntry d field present layout.cursor))
      let passed ← resolver.passField r d i field present isLazy
      modifyLayout r (·.setMeasuring none)
      pure passed

/-- Lays out up to `left` more fields, as long as it is possible. -/
def layOutFields (r : InstanceRef) (d : StructDef) (isLazy : Bool) : (left : Nat) → Resolve Unit
  | 0 => pure ()
  | left + 1 => do
    if ← resolver.layOutField r d isLazy then layOutFields r d isLazy left else pure ()

/-- **Lays out the first fields of an instance.** -/
def layOutFirst (r : InstanceRef) (d : StructDef) (upTo : Nat) (isLazy : Bool) : Resolve Unit := do
  let layout ← layoutOf r
  resolver.layOutFields r d isLazy (upTo - layout.entries.size)

/-! ## 2. Evaluating -/

/-- The value of an expression for an instance. -/
def evaluateIn (scope : Scope) (expr : Expr) : Resolve Int64 :=
  expr.evaluate (resolver.environment scope)

/-! ## 3. Frames left -/

/-- **The resolver with so many frames left.** -/
def within : (frames : Nat) → Resolver
  | 0 =>
    { layOut := fun _ _ _ _ => refuseFrame
      evaluate := fun _ _ => do
        refuseFrame
        pure none }
  | frames + 1 =>
    { layOut := fun r d upTo isLazy => do
        let _ ← inFrame ((within frames).layOutFirst r d upTo isLazy)
        pure ()
      evaluate := fun scope expr => inFrame ((within frames).evaluateIn scope expr) }

end Resolver

/-- A request, with as many frames as the limit admits. -/
def Resolve.resolving {α : Type} (request : Resolver → Resolve α) : Resolve α := do
  let frames ← ask fun ws => ws.limits.maxDepth - ws.depth
  request (.within frames)

end ByteAtlas
