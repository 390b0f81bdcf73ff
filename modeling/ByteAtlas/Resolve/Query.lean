import ByteAtlas.Resolve.Children

/-!
# What expressions see of a workspace

`Resolver.environment` gives names, queries and reads in an expression their meaning: a name is a
constant, an argument, a field or a parameter of the instance it is asked of, in this order; a query
finds live instances, or children, which it places as it goes.

While the root is laid out, only its fields before the current one are seen, and queries find
nothing. So a condition cannot depend on what is not laid out yet.
-/

namespace ByteAtlas

open Resolve (ask)

namespace Scope

/-- Whether a field of an instance is hidden, because the root is laid out only up to it. -/
def hides (scope : Scope) (r : InstanceRef) (i : Nat) : Bool :=
  r.id = scope.root.id && scope.before.any (· ≤ i)

/-- The value of a constant, for the root alone. -/
def constant? (scope : Scope) (r : InstanceRef) (name : String) : Option Int64 :=
  if r.id = scope.root.id then (scope.constants.find? fun c => c.1 == name).map Prod.snd else none

end Scope

namespace Resolver

variable (resolver : Resolver)

/-! ## 1. Conditions -/

/-- Whether the previews of fields are the texts asked for. -/
def matchesTexts (r : InstanceRef) (d : StructDef) : List TextCondition → Resolve Bool
  | [] => pure true
  | c :: cs =>
    match d.fieldIndex? c.field with
    | none => pure false
    | some i => do
      let preview ← resolver.fieldPreview r i false
      if preview = c.text then matchesTexts r d cs else pure false

/-- Whether names have the values asked for. -/
def matchesValues (r : InstanceRef) (d : StructDef) : List ValueCondition → Resolve Bool
  | [] => pure true
  | c :: cs => do
    let value ← resolver.namedValue r d c.name
    if value = some c.value then matchesValues r d cs else pure false

/-- **Whether an instance meets all conditions.** A condition on a field that it does not have is
    not met. -/
def meets (r : InstanceRef) (filter : QueryFilter) : Resolve Bool := do
  if filter.isEmpty then pure true
  else
    match ← structOf? r with
    | none => pure false
    | some d =>
      if ← resolver.matchesTexts r d filter.texts then resolver.matchesValues r d filter.values
      else pure false

/-- The instances that meet all conditions, in the order given. -/
def keepMeeting (filter : QueryFilter) : List InstanceRef → Resolve (List InstanceRef)
  | [] => pure []
  | r :: rs => do
    let keep ← resolver.meets r filter
    let rest ← keepMeeting filter rs
    pure (if keep then r :: rest else rest)

/-! ## 2. Queries -/

/-- The live instances of a struct that meet all conditions, in the order in which they were
    made. -/
def findInstances (struct : String) (file : Option FileId) (filter : QueryFilter) :
    Resolve (List InstanceRef) := do
  let found ← ask fun ws => (ws.directory.instancesOf struct file).map Instance.ref
  resolver.keepMeeting filter found

/-- The visitor that gathers the children that meet all conditions, each once. -/
def gatherMeeting (filter : QueryFilter) : Visitor (List InstanceRef) := fun found child => do
  if found.any fun r => r.id = child.id then pure (found, true)
  else if ← resolver.meets child filter then pure (found ++ [child], true)
  else pure (found, true)

/-- **The children in a field of some instances that meet all conditions**, each once, in the order
    in which they are reached. -/
def findChildren (field : String) (filter : QueryFilter) :
    (parents : List InstanceRef) → (found : List InstanceRef) → Resolve (List InstanceRef)
  | [], found => pure found
  | r :: rs, found => do
    match (← structOf? r).bind fun d => d.fieldIndex? field with
    | none => findChildren field filter rs found
    | some i =>
      if (← ask fun ws => ws.holdsChildren r i) then
        if (← resolver.isPresent r i false) = some true then
          let (found, _) ← resolver.walk r i none .query (resolver.gatherMeeting filter) found
          findChildren field filter rs found
        else findChildren field filter rs found
      else findChildren field filter rs found

/-! ## 3. Names -/

/-- **What a name stands for in an instance**, or where. Only elements of fields have an offset;
    that of anything else is 0. -/
def lookup (scope : Scope) (r : InstanceRef) (name : String) (index : Int64) (isOffset : Bool) :
    Resolve (Option Int64) := do
  let value (n : Int64) : Int64 := if isOffset then 0 else n
  match (scope.constant? r name).or (← ask fun ws => ws.argOf? r name) with
  | some n => pure (some (value n))
  | none =>
    match ← structOf? r with
    | none => pure none
    | some d =>
      match d.fieldIndex? name with
      | none => pure ((d.param? name).map value)
      | some i =>
        if scope.hides r i || index < 0 then pure none
        else if isOffset then resolver.valueOffset r i index.toInt.toNat false
        else some <$> resolver.intValue r i index.toInt.toNat

/-- The joined preview of a field that is not hidden. -/
def namedPreview (scope : Scope) (r : InstanceRef) (name : String) : Resolve (Option String) := do
  match (← structOf? r).bind fun d => d.fieldIndex? name with
  | none => pure none
  | some i =>
    if scope.hides r i then pure none
    else some <$> resolver.fieldPreview r i false

/-- **The environment of an expression.** -/
def environment (scope : Scope) : Environment Resolve InstanceRef where
  lookup := resolver.lookup scope
  roots := [scope.root]
  children parents field filter :=
    if scope.before.isSome then pure [] else resolver.findChildren field filter parents []
  instancesOf struct isGlobal filter :=
    if scope.before.isSome then pure []
    else resolver.findInstances struct (if isGlobal then none else some scope.root.file) filter
  read offset length := ask fun ws => ws.read scope.root.file offset length
  offsetOf := InstanceRef.offset
  idOf r := Int64.ofNat r.id
  preview := resolver.namedPreview scope

end Resolver

end ByteAtlas
