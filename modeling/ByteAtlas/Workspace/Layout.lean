import ByteAtlas.Directory.Instance
import ByteAtlas.Scalar.Value

/-!
# Layouts

A `Layout` is what is known so far about the fields and the size of one instance. The entries belong
to the first fields of its definition, in order. The cursor is where the next field of a packed
struct starts: each field that takes room in the file has moved it past itself.

What is known holds for one version of the instance and one of the definition, the `Stamp`.
`Layout.validated` drops the entries if the stamp is another. The size has a stamp of its own and is
compared when it is asked for.
-/

namespace ByteAtlas

/-- The versions that something was computed from. -/
structure Stamp where
  instanceVersion : Version
  structVersion : Version
  deriving DecidableEq, Repr

/-- One element of a field, as read. -/
structure Element where
  offset : Int64
  value : Scalar
  deriving DecidableEq, Repr

/-- What is known about one field. -/
structure FieldEntry where
  present : Bool
  /-- Where the cursor was when the field was reached. -/
  origin : Int64
  offset : Option Int64
  count : Option Int64
  totalSize : Option Int64
  /-- Where the next element is to be read. -/
  nextElement : Option Int64
  /-- The elements read so far. -/
  values : Array Element
  preview : Option String
  deriving DecidableEq, Repr

/-- A field of which nothing but its presence is known. -/
def FieldEntry.reached (present : Bool) (origin : Int64) : FieldEntry where
  present := present
  origin := origin
  offset := none
  count := none
  totalSize := none
  nextElement := none
  values := #[]
  preview := none

/-- What is known about the fields and the size of an instance. -/
structure Layout where
  /-- What the entries were computed from. -/
  stamp : Option Stamp
  /-- Where the next field of a packed struct starts. -/
  cursor : Int64
  entries : Array FieldEntry
  /-- The field that is being laid out. -/
  measuring : Option Nat
  /-- The size, with what it was computed from. -/
  size : Option (Stamp × Int64)
  deriving DecidableEq, Repr

namespace Layout

/-- Nothing is known about an instance at an offset. -/
def unknown (offset : Int64) : Layout where
  stamp := none
  cursor := offset
  entries := #[]
  measuring := none
  size := none

/-- **The entries, if they hold for a stamp**; otherwise none, from the offset on. -/
def validated (l : Layout) (stamp : Stamp) (offset : Int64) : Layout :=
  if l.stamp = some stamp then l
  else { l with stamp := some stamp, cursor := offset, entries := #[], measuring := none }

/-- The size, if it holds for a stamp. -/
def sizeFor? (l : Layout) (stamp : Stamp) : Option Int64 :=
  match l.size with
  | some (s, size) => if s = stamp then some size else none
  | none => none

def setSize (l : Layout) (stamp : Stamp) (size : Int64) : Layout :=
  { l with size := some (stamp, size) }

/-- The layout while a field is being laid out, or once it is. -/
def setMeasuring (l : Layout) (field : Option Nat) : Layout :=
  { l with measuring := field }

def push (l : Layout) (e : FieldEntry) : Layout :=
  { l with entries := l.entries.push e }

/-- The layout without its last entry. -/
def pop (l : Layout) : Layout :=
  { l with entries := l.entries.pop }

/-- The layout with the cursor moved on. -/
def advance (l : Layout) (size : Int64) : Layout :=
  { l with cursor := l.cursor + size }

def modifyEntry (l : Layout) (i : Nat) (f : FieldEntry → FieldEntry) : Layout :=
  { l with entries := l.entries.modify i f }

end Layout

end ByteAtlas
