import ByteAtlas.Resolve.Instance

/-!
# Expanding everything

`Resolve.expandAll` goes through the instances in the order in which they were made. For each that
allows it, the next instance of its chain is placed, and the children in all its struct-typed
fields. New instances come last, so they have their turn too. The pass ends when there are no more,
or when it has made as many as the limit allows and another instance would have its turn.
-/

namespace ByteAtlas

/-- Whether an expand pass over a file, or over all, starts from an instance. -/
def Instance.expandsIn (i : Instance) (file : Option FileId) : Bool :=
  file.all (i.file == ·) && i.allowAutoExpand

namespace Resolve

/-- The number of instances made since there were `start`. -/
def createdSince (start : Nat) : Resolve Nat :=
  ask fun ws => ws.directory.size - start

/-- The visitor that goes on while fewer instances than `budget` have been made. -/
def visitWithin (start budget : Nat) : Visitor Unit := fun _ _ => do
  let created ← createdSince start
  pure ((), created < budget)

/-- Places the children in the fields of an instance from index `i` on; `left` fields remain. -/
def expandFields (start budget : Nat) (r : InstanceRef) : (left i : Nat) → Resolve Unit
  | 0, _ => pure ()
  | left + 1, i => do
    if ← ask fun ws => ws.holdsChildren r i then
      if (← r.isPresent i false) = some true then
        let _ ← r.walk i none .autoExpand (visitWithin start budget) ()
    expandFields start budget r left (i + 1)

/-- Places what follows an instance and what is in it. -/
def expandInstance (start budget : Nat) (r : InstanceRef) : Resolve Unit := do
  if (← r.canCreateNext false false) = some true then
    let _ ← r.createNext .autoExpand
  let fieldCount ← ask fun ws => (ws.structOf? r).elim 0 StructDef.fieldCount
  expandFields start budget r fieldCount 0

/-- The turns of the instances from the place `index` on. `left` bounds the turns: none comes after
    `budget` new instances. -/
def expandFrom (file : Option FileId) (start budget : Nat) : (left index : Nat) → Resolve Unit
  | 0, _ => pure ()
  | left + 1, index => do
    let created ← createdSince start
    if budget ≤ created then
      if ← ask fun ws => (ws.directory.toList.drop index).any (·.expandsIn file) then noteLimitHit
    else
      match ← ask fun ws => ws.directory.atIndex? index with
      | none => pure ()
      | some i =>
        if i.expandsIn file then expandInstance start budget i.ref
        expandFrom file start budget left (index + 1)

/-- **Expands every instance in a file, or in all**; the number of new instances. -/
def expandAll (file : Option FileId) : Resolve Nat := do
  let start ← ask fun ws => ws.directory.size
  let budget ← ask fun ws => ws.limits.maxExpandInstances
  expandFrom file start budget (start + budget + 1) 0
  createdSince start

end Resolve

end ByteAtlas
