import ByteAtlas.Schema.Basic
import ByteAtlas.Json.Printer

/-!
# Schemas as JSON

For each part of a schema, what it is in JSON (`encode`) and how it is taken out of JSON (`decode`).
Written members stand in a fixed order, and those that have their default value are left out, except
for a parameter's value, a field's offset and a definition's layout, fields and size. Versions are
not written: what is read has the initial one.
-/

namespace ByteAtlas

open Json (toText toBool toWord toOption toList toEntries toRecord required ofWord)

/-- A member that is left out if there is nothing to write. -/
def optional (key : String) (value : Option Json) : List (String × Json) :=
  match value with
  | some j => [(key, j)]
  | none => []

/-- A flag that is left out if it is not set. -/
def flag (key : String) (value : Bool) : List (String × Json) :=
  if value then [(key, .bool true)] else []

/-! ## 1. Types -/

/-- The word for an integer type as a value of its own. -/
def IntType.tag : IntType → String
  | u8 => "U8"
  | i8 => "I8"
  | u16 => "U16"
  | i16 => "I16"
  | u32 => "U32"
  | i32 => "I32"
  | u64 => "U64"
  | i64 => "I64"

def IntType.encode (t : IntType) : Json := .string t.tag

def IntType.decodeJson (j : Json) : Decoded IntType :=
  j.toVariant (fun tag => IntType.all.find? fun t => t.tag == tag) (fun _ => none)

def ScalarType.encode (t : ScalarType) : Json := .string t.name

def ScalarType.decode (j : Json) : Decoded ScalarType :=
  match toText j with
  | .error e => .error e
  | .ok text => (ScalarType.parse text).mapError .unknownType

def ElementType.encode (t : ElementType) : Json := .string t.name

/-- A type has a name. -/
def ElementType.decode (j : Json) : Decoded ElementType :=
  match toText j with
  | .error e => .error e
  | .ok text => if text.isEmpty then .error .emptyTypeName else .ok (.ofName text)

/-! ## 2. Parts of fields -/

def CountSource.encode (c : CountSource) : Json := .string c.text

/-- A colon in front is for special sources. -/
def CountSource.decode (j : Json) : Decoded CountSource :=
  match toText j with
  | .error e => .error e
  | .ok text =>
    if text.isEmpty then .ok .literal
    else if text = CountSource.fileSizeText then .ok .fileSize
    else if text.toList.head? = some ':' then .error (.unknownCountSource text)
    else .ok (.named text)

def Formula.encode (f : Formula) : Json := .string f.source

def Formula.decode (j : Json) : Decoded Formula :=
  (toText j).map Formula.ofSource

def Param.encode (p : Param) : Json :=
  .record [("name", .string p.name), ("value", ofWord p.value)]

/-- A record while its members are taken up: the one that must be there, and the rest. -/
structure Draft (α β : Type) where
  needed : Option α
  rest : β

namespace Draft

variable {α β : Type}

/-- The draft with the needed member. -/
def withNeeded (d : Draft α β) (result : Decoded α) : Decoded (Draft α β) :=
  result.map fun a => { d with needed := some a }

/-- The draft with another member. -/
def withRest {γ : Type} (d : Draft α β) (result : Decoded γ) (set : β → γ → β) :
    Decoded (Draft α β) :=
  result.map fun c => { d with rest := set d.rest c }

/-- The finished record, if nothing needed is missing. -/
def finish (make : α → β → β) (result : Decoded (Draft α β)) : Decoded β :=
  match result with
  | .error e => .error e
  | .ok d => (required d.needed).map fun a => make a d.rest

end Draft

def Param.keys : List String := ["name", "value"]

def Param.decode (j : Json) : Decoded Param :=
  Draft.finish (fun name p => { p with name })
    (toRecord keys (fun (d : Draft String Param) key j =>
        if key = "name" then d.withNeeded (toText j)
        else d.withRest (toWord j) fun p value => { p with value })
      ⟨none, ⟨"", 0⟩⟩ j)

def ArgBinding.encode (a : ArgBinding) : Json :=
  .record ([("name", .string a.name)] ++ optional "src" (a.source.map .string) ++
    [("value", ofWord a.value)])

def ArgBinding.keys : List String := ["name", "src", "value"]

def ArgBinding.decode (j : Json) : Decoded ArgBinding :=
  Draft.finish (fun name a => { a with name })
    (toRecord keys (fun (d : Draft String ArgBinding) key j =>
        if key = "name" then d.withNeeded (toText j)
        else if key = "src" then
          d.withRest (toOption toText j) fun a source => { a with source }
        else d.withRest (toWord j) fun a value => { a with value })
      ⟨none, ⟨"", none, 0⟩⟩ j)

/-! ## 3. Fields -/

def Field.encode (f : Field) : Json :=
  .record ([("type", f.type.encode)] ++ optional "value_expr" (f.value.map Formula.encode) ++
    [("offset", ofWord f.offset)] ++
    optional "offset_expr" (f.offsetFormula.map Formula.encode) ++
    (if f.count = 1 then [] else [("count", ofWord f.count)]) ++
    (if f.countSource.isLiteral then [] else [("count_src", f.countSource.encode)]) ++
    flag "count_is_max_size" f.countIsBytes ++
    flag "individual_computed_offsets" f.individualOffsets ++
    flag "read_until_zero" f.untilZero ++
    (if f.args.isEmpty then [] else [("struct_args", .array (f.args.map ArgBinding.encode))]) ++
    optional "condition" (f.condition.map Formula.encode) ++
    optional "element_condition" (f.elementCondition.map Formula.encode))

def Field.keys : List String :=
  ["type", "value_expr", "offset", "offset_expr", "count", "count_src", "count_is_max_size",
    "individual_computed_offsets", "read_until_zero", "struct_args", "condition",
    "element_condition"]

/-- A field with one more member. -/
def Field.addMember (d : Draft ElementType Field) (key : String) (j : Json) :
    Decoded (Draft ElementType Field) :=
  match key with
  | "type" => d.withNeeded (ElementType.decode j)
  | "value_expr" => d.withRest (toOption Formula.decode j) fun f value => { f with value }
  | "offset" => d.withRest (toWord j) fun f offset => { f with offset }
  | "offset_expr" =>
    d.withRest (toOption Formula.decode j) fun f offsetFormula => { f with offsetFormula }
  | "count" => d.withRest (toWord j) fun f count => { f with count }
  | "count_src" => d.withRest (CountSource.decode j) fun f countSource => { f with countSource }
  | "count_is_max_size" => d.withRest (toBool j) fun f countIsBytes => { f with countIsBytes }
  | "individual_computed_offsets" =>
    d.withRest (toBool j) fun f individualOffsets => { f with individualOffsets }
  | "read_until_zero" => d.withRest (toBool j) fun f untilZero => { f with untilZero }
  | "struct_args" => d.withRest (toList ArgBinding.decode j) fun f args => { f with args }
  | "condition" =>
    d.withRest (toOption Formula.decode j) fun f condition => { f with condition }
  | _ =>
    d.withRest (toOption Formula.decode j) fun f elementCondition => { f with elementCondition }

def Field.decode (j : Json) : Decoded Field :=
  Draft.finish (fun type f => { f with type })
    (toRecord keys addMember ⟨none, .ofType default⟩ j)

/-! ## 4. Definitions and schemas -/

def StructDef.encode (d : StructDef) : Json :=
  .record ([("serialized", .bool d.isPacked)] ++
    (if d.params.isEmpty then [] else [("params", .array (d.params.map Param.encode))]) ++
    [("fields", .record (d.fields.entries.map fun e => (e.1, e.2.encode))),
      ("size", ofWord d.size)] ++
    optional "size_src" (d.sizeSource.map .string))

def StructDef.keys : List String := ["serialized", "params", "fields", "size", "size_src"]

/-- A definition with one more member. -/
def StructDef.addMember (d : StructDef) (key : String) (j : Json) : Decoded StructDef :=
  match key with
  | "serialized" => (toBool j).map fun isPacked => { d with isPacked }
  | "params" => (toList Param.decode j).map fun params => { d with params }
  | "fields" => (toEntries Field.decode j).map fun es => { d with fields := .ofList es }
  | "size" => (toWord j).map fun size => { d with size }
  | _ => (toOption toText j).map fun sizeSource => { d with sizeSource }

def StructDef.decode (j : Json) : Decoded StructDef :=
  toRecord keys addMember .empty j

def Schema.encode (s : Schema) : Json :=
  .record [("structs", .record (s.structs.toList.map fun e => (e.1, e.2.encode)))]

def Schema.keys : List String := ["structs"]

def Schema.decode (j : Json) : Decoded Schema :=
  toRecord keys
    (fun s _ j => (toEntries StructDef.decode j).map fun es =>
      { s with structs := es.foldl (fun m e => m.insert e.1 e.2) ∅ })
    .empty j

namespace Schema

/-- The schema of a JSON text. -/
def ofJson (text : String) : Except SchemaError Schema :=
  (decodeText decode text).mapError .json

/-- The schema of a file's content, none if there is no file. -/
def load (content : Option ByteArray) : Except SchemaError Schema :=
  match content with
  | none => .error (.file .notFound)
  | some bytes =>
    match String.fromUTF8? bytes with
    | none => .error (.file .notUtf8)
    | some text => ofJson text

/-- The schema as JSON text over several lines. -/
def toJson (s : Schema) : String := s.encode.pretty

end Schema

end ByteAtlas
