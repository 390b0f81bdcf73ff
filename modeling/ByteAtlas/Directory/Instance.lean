import ByteAtlas.Schema.Basic

/-!
# Instances

An `Instance` is a struct definition placed at an offset of a file. What it is and where it is, its
`Location`, never changes; the rest can be edited. An edit that may change what is read at the
instance gives it a new version.

Instances follow each other in chains. The `Budget` of an instance is how much of its chain is left,
counted in instances or in bytes, itself included.
-/

namespace ByteAtlas

/-! ## 1. Identity -/

/-- The number of an instance within its directory. -/
abbrev InstanceId := Nat

/-- The number of a file or buffer. -/
abbrev FileId := Nat

/-- What an instance is, and where. -/
structure Location where
  struct : String
  file : FileId
  offset : Int64
  deriving DecidableEq, Repr, Inhabited

namespace Location

/-- Locations are ordered by offset, then by file, then by struct. -/
def order : Location → Location → Ordering :=
  compareLex (compareOn fun l => l.offset.toInt)
    (compareLex (compareOn Location.file) (compareOn Location.struct))

instance : Std.TransCmp order := by
  unfold order
  infer_instance

/-- Of two locations neither of which comes first, both are the same. -/
instance : Std.LawfulEqCmp order where
  compare_self := by simp [order, compareLex, compareOn]
  eq_of_compare := by
    intro a b h
    simp only [order, compareLex, compareOn, Ordering.then_eq_eq,
      Std.LawfulEqOrd.compare_eq_iff_eq] at h
    obtain ⟨offsets, files, structs⟩ := h
    cases a
    cases b
    simp_all [Int64.toInt_inj]

end Location

/-- An instance by its number and its location, which both stay the same. -/
structure InstanceRef where
  id : InstanceId
  location : Location
  deriving DecidableEq, Repr, Inhabited

namespace InstanceRef

def struct (r : InstanceRef) : String := r.location.struct

def file (r : InstanceRef) : FileId := r.location.file

def offset (r : InstanceRef) : Int64 := r.location.offset

end InstanceRef

/-! ## 2. Properties -/

/-- Why an instance exists, the most intentional reason first. -/
inductive Reason where
  /-- The user placed it. -/
  | user
  /-- The user had a field or a chain expanded. -/
  | manualExpand
  /-- A pass that expands everything made it. -/
  | autoExpand
  /-- A query or a measurement needed it. -/
  | query
  deriving DecidableEq, Repr, Inhabited

namespace Reason

/-- The place of a reason, the most intentional first. -/
def rank : Reason → Nat
  | user => 0
  | manualExpand => 1
  | autoExpand => 2
  | query => 3

/-- The more intentional of two reasons. -/
def stronger (a b : Reason) : Reason :=
  if a.rank ≤ b.rank then a else b

/-- Whether a cleanup keeps the instance. -/
def isManual (r : Reason) : Bool :=
  r.rank ≤ manualExpand.rank

def text : Reason → String
  | user => "user"
  | manualExpand => "manual expand"
  | autoExpand => "auto expand"
  | query => "query"

end Reason

/-- How much of a chain is left, the instance itself included. -/
structure Budget where
  left : Int64
  inBytes : Bool
  deriving DecidableEq, Repr, Inhabited

/-- A chain of one instance. -/
def Budget.one : Budget := ⟨1, false⟩

/-- A value bound to a name. It hides the parameter of that name. -/
structure Arg where
  name : String
  value : Int64
  deriving DecidableEq, Repr

/-- The first value bound to a name. -/
def argValue? (name : String) : List Arg → Option Int64
  | [] => none
  | a :: as => if a.name = name then some a.value else argValue? name as

/-- Binds a name: in place of the first binding it has, or at the end. -/
def bindArg (name : String) (value : Int64) : List Arg → List Arg
  | [] => [⟨name, value⟩]
  | a :: as => if a.name = name then ⟨name, value⟩ :: as else a :: bindArg name value as

/-- A name has the value that was bound to it last; the others keep theirs. -/
theorem argValue?_bindArg (name other : String) (value : Int64) (as : List Arg) :
    argValue? other (bindArg name value as) =
      if name = other then some value else argValue? other as := by
  induction as with
  | nil => simp [bindArg, argValue?]
  | cons a as ih => grind [bindArg, argValue?]

/-- Once its bindings are removed a name has no value. -/
theorem argValue?_filter_ne (name : String) (as : List Arg) :
    argValue? name (as.filter fun a => a.name ≠ name) = none := by
  induction as with
  | nil => rfl
  | cons a as ih => grind [argValue?]

/-- An instance to be placed. -/
structure Placement where
  location : Location
  notes : String
  reason : Reason
  /-- Whether expanding everything may start from the instance. -/
  allowAutoExpand : Bool
  budget : Budget
  /-- The distance to the next instance of the chain, in place of the size. -/
  sizeOverride : Option Int64
  args : List Arg
  deriving DecidableEq, Repr

/-- A single instance without notes and arguments. -/
def Placement.single (location : Location) (reason : Reason) : Placement where
  location := location
  notes := ""
  reason := reason
  allowAutoExpand := true
  budget := .one
  sizeOverride := none
  args := []

/-- A struct definition placed at an offset of a file. -/
structure Instance extends Placement where
  id : InstanceId
  version : Version
  deriving DecidableEq, Repr

namespace Instance

def ref (i : Instance) : InstanceRef := ⟨i.id, i.location⟩

def struct (i : Instance) : String := i.location.struct

def file (i : Instance) : FileId := i.location.file

def offset (i : Instance) : Int64 := i.location.offset

/-- The instance as it is when it has just been placed. -/
def ofPlacement (id : InstanceId) (p : Placement) : Instance :=
  { p with id, version := initialVersion }

/-- The value bound to a name. -/
def arg? (i : Instance) (name : String) : Option Int64 := argValue? name i.args

/-! ## 3. Edits -/

/-- An edit that may change what is read at the instance. -/
def edited (i : Instance) : Instance := { i with version := i.version + 1 }

def setNotes (notes : String) (i : Instance) : Instance := edited { i with notes }

/-- The reason has no effect on what is read, so the version stays. -/
def setReason (reason : Reason) (i : Instance) : Instance := { i with reason }

def setAllowAutoExpand (allow : Bool) (i : Instance) : Instance :=
  edited { i with allowAutoExpand := allow }

def setBudget (budget : Budget) (i : Instance) : Instance := edited { i with budget }

def setSizeOverride (size : Option Int64) (i : Instance) : Instance :=
  edited { i with sizeOverride := size }

def setArg (name : String) (value : Int64) (i : Instance) : Instance :=
  edited { i with args := bindArg name value i.args }

def removeArg (name : String) (i : Instance) : Instance :=
  edited { i with args := i.args.filter fun a => a.name ≠ name }

/-- Arguments bound to a new child. They are part of making it, so the version stays. -/
def bindArgs (args : List Arg) (i : Instance) : Instance :=
  { i with args := i.args ++ args }

/-- **What placing an instance a second time changes**: the stronger reason counts, and the budget
    is the new one. The version stays. -/
def merge (reason : Reason) (budget : Budget) (i : Instance) : Instance :=
  { i with reason := i.reason.stronger reason, budget }

/-- How much of its chain's budget an instance of a size uses up. -/
def chainStep (i : Instance) (size : Int64) : Int64 :=
  if i.budget.inBytes then i.sizeOverride.getD size else 1

/-- What is left of the budget after an instance of a size. -/
def budgetAfter (i : Instance) (size : Int64) : Int64 :=
  i.budget.left - i.chainStep size

end Instance

end ByteAtlas
