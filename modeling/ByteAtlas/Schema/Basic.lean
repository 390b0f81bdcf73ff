import ByteAtlas.Schema.NameMap
import ByteAtlas.Schema.Field
import ByteAtlas.Json.Decode
import ByteAtlas.Source.Basic
import Std.Data.TreeMap

/-!
# Struct definitions and schemas

A `StructDef` lays out a record: its fields in order, its parameters, its size. A `Schema` holds the
definitions by name. Whoever keeps something computed from a definition can tell by the definition's
version whether it still holds: every edit gives a version that no definition has had before
(`Schema.edit`, `Schema.insert`), from one counter for all of them. The counter also moves on when
the struct to edit is not there.
-/

namespace ByteAtlas

/-! ## 1. Definitions -/

/-- Counts the edits of a definition or of an instance. -/
abbrev Version := UInt32

/-- The version of a definition that has never been edited. -/
def initialVersion : Version := 1

/-- The layout of a record. -/
structure StructDef where
  /-- Fields follow each other without gaps; otherwise each has its literal offset. -/
  isPacked : Bool
  params : List Param
  fields : NameMap Field
  /-- The size, or what is added to the size source. -/
  size : Int64
  /-- The field, argument or parameter that the size is added to. -/
  sizeSource : Option String
  version : Version
  deriving DecidableEq

namespace StructDef

/-- No fields and no size. -/
def empty : StructDef where
  isPacked := false
  params := []
  fields := .empty
  size := 0
  sizeSource := none
  version := initialVersion

instance : Inhabited StructDef := ⟨empty⟩

def fieldCount (d : StructDef) : Nat := d.fields.size

/-- The name and the field at an index. -/
def field? (d : StructDef) (i : Nat) : Option (String × Field) := d.fields.at? i

def fieldIndex? (d : StructDef) (name : String) : Option Nat := d.fields.indexOf? name

/-- The value of a parameter where no argument is bound. -/
def param? (d : StructDef) (name : String) : Option Int64 := paramValue? name d.params

end StructDef

/-! ## 2. Schemas -/

/-- What is wrong with a schema or with a request to one. -/
inductive SchemaError where
  | undefinedStruct (name : String)
  | undefinedFieldType (struct field type : String)
  /-- A count or, without a field, a size refers to nothing. -/
  | undefinedSource (struct : String) (field : Option String) (source : String)
  | json (error : DecodeError)
  | file (fault : FileFault)
  deriving DecidableEq, Repr

def SchemaError.message : SchemaError → String
  | undefinedStruct name => "undefined struct: " ++ name
  | undefinedFieldType s f t => "field " ++ s ++ "." ++ f ++ " has undefined type " ++ t
  | undefinedSource s (some f) source =>
    "count of " ++ s ++ "." ++ f ++ " refers to undefined name " ++ source
  | undefinedSource s none source => "size of " ++ s ++ " refers to undefined name " ++ source
  | json e => "invalid schema: " ++ e.message?.getD "malformed JSON"
  | file f => f.message

/-- The struct definitions by name, and the last version given out. -/
structure Schema where
  structs : Std.TreeMap String StructDef
  lastVersion : Version

namespace Schema

def empty : Schema := ⟨∅, 0⟩

instance : Inhabited Schema := ⟨empty⟩

def get? (s : Schema) (name : String) : Option StructDef := s.structs[name]?

/-- A definition that has to be there. -/
def require (s : Schema) (name : String) : Except SchemaError StructDef :=
  match s.get? name with
  | some d => .ok d
  | none => .error (.undefinedStruct name)

def size (s : Schema) : Nat := s.structs.size

def isEmpty (s : Schema) : Bool := s.structs.isEmpty

/-- The names of the definitions, sorted. -/
def names (s : Schema) : List String := s.structs.keys

/-- **The next version.** Definitions start with the version 1, so none is given out below 2. -/
def nextVersion (s : Schema) : Version := max s.lastVersion 1 + 1

/-- Adds a definition or replaces one, with a new version. -/
def insert (s : Schema) (name : String) (d : StructDef) : Schema :=
  let v := s.nextVersion
  ⟨s.structs.insert name { d with version := v }, v⟩

/-- Edits a definition, which gets a new version. If there is none, the version is gone as well. -/
def edit {ρ : Type} (s : Schema) (name : String) (f : StructDef → ρ × StructDef) :
    Except SchemaError ρ × Schema :=
  let v := s.nextVersion
  match s.get? name with
  | none => (.error (.undefinedStruct name), { s with lastVersion := v })
  | some d =>
    let (result, d) := f d
    (.ok result, ⟨s.structs.insert name { d with version := v }, v⟩)

/-- Removes a definition. Its versions are not given out again. -/
def remove (s : Schema) (name : String) : Option StructDef × Schema :=
  (s.get? name, { s with structs := s.structs.erase name })

/-! ## 3. References that lead nowhere -/

/-- What the fields of a definition refer to in vain. -/
def fieldProblems (s : Schema) (struct : String) (d : StructDef) :
    List (String × Field) → List SchemaError
  | [] => []
  | (name, f) :: fs =>
    (match f.type with
      | .struct type =>
        if (s.get? type).isSome then [] else [SchemaError.undefinedFieldType struct name type]
      | .scalar _ => []) ++
    (match f.countSource with
      | .named source =>
        if d.fields.contains source || (d.param? source).isSome then []
        else [SchemaError.undefinedSource struct (some name) source]
      | .literal | .fileSize => []) ++
    s.fieldProblems struct d fs

/-- What a definition refers to in vain. -/
def structProblems (s : Schema) (struct : String) (d : StructDef) : List SchemaError :=
  s.fieldProblems struct d d.fields.entries ++
    match d.sizeSource with
    | some source =>
      if d.fields.contains source || (d.param? source).isSome then []
      else [SchemaError.undefinedSource struct none source]
    | none => []

/-- **Every reference that leads nowhere**: to a struct, a count source or a size source. What a
    schema with such references describes can still be resolved; the values count as 0. -/
def check (s : Schema) : List SchemaError :=
  s.structs.toList.flatMap fun e => s.structProblems e.1 e.2

end Schema

end ByteAtlas
