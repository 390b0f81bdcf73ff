/-!
# The types of field elements

A field holds elements of one type: one of a closed set of scalars, or a struct that the schema
defines. This file fixes the types and their names:

* `IntType`: the eight fixed-width integers, with their width, their signedness and the little
  endian reading `IntType.decode`;
* `ScalarType`: padding, characters, integers and the two float formats;
* `ElementType`: a scalar, or a struct by name. Reading a type name never fails
  (`ElementType.ofName`): a name that is no scalar's is taken for a struct's. Whether that struct
  exists is a question for the schema.
-/

namespace ByteAtlas

/-! ## 1. Integers -/

/-- The fixed-width integer types. -/
inductive IntType where
  | u8
  | i8
  | u16
  | i16
  | u32
  | i32
  | u64
  | i64
  deriving DecidableEq, Repr, Inhabited

/-- A name that no type has. -/
structure UnknownType where
  name : String
  deriving DecidableEq, Repr

/-- The wording of the error. -/
def UnknownType.message (e : UnknownType) : String :=
  "unknown type name: " ++ e.name

/-- The number that bytes denote, least significant byte first. -/
def littleEndian : List UInt8 → Nat
  | [] => 0
  | b :: bs => b.toNat + 256 * littleEndian bs

namespace IntType

/-- Every integer type, in the order of declaration. -/
def all : List IntType :=
  [u8, i8, u16, i16, u32, i32, u64, i64]

/-- The width in bytes. -/
def size : IntType → Nat
  | u8 | i8 => 1
  | u16 | i16 => 2
  | u32 | i32 => 4
  | u64 | i64 => 8

def isSigned : IntType → Bool
  | i8 | i16 | i32 | i64 => true
  | u8 | u16 | u32 | u64 => false

/-- The name used in schemas and in raw reads. -/
def name : IntType → String
  | u8 => "u8"
  | i8 => "i8"
  | u16 => "u16"
  | i16 => "i16"
  | u32 => "u32"
  | i32 => "i32"
  | u64 => "u64"
  | i64 => "i64"

/-- The type a name stands for. -/
def ofName? (text : String) : Option IntType :=
  all.find? fun t => t.name == text

/-- The type a name stands for, or the error that names it. -/
def parse (text : String) : Except UnknownType IntType :=
  match ofName? text with
  | some t => .ok t
  | none => .error ⟨text⟩

/-- **The value of the first `size` bytes**, least significant first, sign or zero extended to 64
    bits. An unsigned 64 bit value wraps around. -/
def decode (t : IntType) (bytes : List UInt8) : Int64 :=
  let n := littleEndian (bytes.take t.size)
  if t.isSigned then Int64.ofInt ((n : Int).bmod (Nat.pow 2 (8 * t.size))) else Int64.ofNat n

end IntType

/-! ## 2. Scalars -/

/-- The scalar element types. -/
inductive ScalarType where
  /-- A byte that takes up room and has no value. -/
  | pad
  /-- A single character byte. -/
  | char
  | int (type : IntType)
  /-- A 32 bit float. -/
  | f32
  /-- A 64 bit float. -/
  | f64
  deriving DecidableEq, Repr, Inhabited

namespace ScalarType

/-- The size of one element in bytes. -/
def size : ScalarType → Nat
  | pad | char => 1
  | int t => t.size
  | f32 => 4
  | f64 => 8

/-- Numbers are shown with commas between them; characters and padding as one run. -/
def isSeparated : ScalarType → Bool
  | pad | char => false
  | int _ | f32 | f64 => true

def intType? : ScalarType → Option IntType
  | int t => some t
  | pad | char | f32 | f64 => none

def name : ScalarType → String
  | pad => "pad"
  | char => "char"
  | int t => t.name
  | f32 => "f32"
  | f64 => "f64"

/-- The scalar type a name stands for. -/
def ofName? (text : String) : Option ScalarType :=
  if text == "pad" then some pad
  else if text == "char" then some char
  else if text == "f32" then some f32
  else if text == "f64" then some f64
  else (IntType.ofName? text).map int

/-- The scalar type a name stands for, or the error that names it. -/
def parse (text : String) : Except UnknownType ScalarType :=
  match ofName? text with
  | some t => .ok t
  | none => .error ⟨text⟩

/-- No element is empty, so a byte budget holds finitely many. -/
theorem size_pos (t : ScalarType) : 0 < t.size := by
  cases t with
  | int i => cases i <;> decide
  | pad | char | f32 | f64 => decide

end ScalarType

/-! ## 3. Element types -/

/-- The type of a field's elements: a scalar, or a struct definition by name. -/
inductive ElementType where
  | scalar (type : ScalarType)
  | struct (name : String)
  deriving DecidableEq, Repr, Inhabited

namespace ElementType

/-- The type a name stands for: a name that is no scalar's names a struct. -/
def ofName (text : String) : ElementType :=
  match ScalarType.ofName? text with
  | some t => scalar t
  | none => struct text

def name : ElementType → String
  | scalar t => t.name
  | struct n => n

def scalar? : ElementType → Option ScalarType
  | scalar t => some t
  | struct _ => none

def structName? : ElementType → Option String
  | scalar _ => none
  | struct n => some n

end ElementType

/-! ## 4. Names read back -/

theorem IntType.ofName?_name (t : IntType) : IntType.ofName? t.name = some t := by
  cases t <;> decide

theorem ScalarType.ofName?_name (t : ScalarType) : ScalarType.ofName? t.name = some t := by
  cases t with
  | int i => cases i <;> decide
  | pad | char | f32 | f64 => decide

end ByteAtlas
