import ByteAtlas.Json.Token

/-!
# Reading JSON

`Json.read` builds the tree of a text from its tokens. Containers that are still open wait on a
stack; where a token does not fit, what is open is closed around a `broken` value.
-/

namespace ByteAtlas

/-- A text as a value, and whether nothing but blanks follows the value. -/
structure JsonDocument where
  root : Json
  endsThere : Bool
  deriving Repr

namespace Json

/-- A container that is still open; its parts so far, the last one first. -/
inductive Open where
  | array (done : List Json)
  /-- With the key whose value is being read. -/
  | object (done : List (Option String × Json)) (key : Option String)

/-- What may come next. -/
inductive Expected where
  | value
  | firstItem
  | firstKey
  | key
  | colon
  | separator

/-- The container with one more part, closed. -/
def Open.close (last : Json) : Open → Json
  | array done => .array (last :: done).reverse
  | object done key => .object ((key, last) :: done).reverse

/-- The tree of a text that stops being JSON while these containers are open. -/
def breakOff (opened : List Open) : JsonDocument :=
  ⟨opened.foldl (fun inner o => o.close inner) .broken, true⟩

/-- The key that a string denotes. -/
def key? : Json → Option (Option String)
  | .string text => some (some text)
  | .illFormed => some none
  | _ => none

/-- **The tree of a text**, from the tokens that are left, the containers that are open, the
    innermost first, and what may come next. -/
def build : List Open → Expected → List JsonToken → JsonDocument
  | opened, _, [] => breakOff opened
  | opened, .value, .leaf v :: ts | opened, .firstItem, .leaf v :: ts =>
    match opened with
    | [] => ⟨v, ts.isEmpty⟩
    | .array done :: outer => build (.array (v :: done) :: outer) .separator ts
    | .object done key :: outer => build (.object ((key, v) :: done) none :: outer) .separator ts
  | opened, .value, .openArray :: ts | opened, .firstItem, .openArray :: ts =>
    build (.array [] :: opened) .firstItem ts
  | opened, .value, .openObject :: ts | opened, .firstItem, .openObject :: ts =>
    build (.object [] none :: opened) .firstKey ts
  | .array done :: outer, .firstItem, .closeArray :: ts
  | .array done :: outer, .separator, .closeArray :: ts =>
    let v := .array done.reverse
    match outer with
    | [] => ⟨v, ts.isEmpty⟩
    | .array done' :: outer => build (.array (v :: done') :: outer) .separator ts
    | .object done' key :: outer => build (.object ((key, v) :: done') none :: outer) .separator ts
  | .object done _ :: outer, .firstKey, .closeObject :: ts
  | .object done _ :: outer, .separator, .closeObject :: ts =>
    let v := .object done.reverse
    match outer with
    | [] => ⟨v, ts.isEmpty⟩
    | .array done' :: outer => build (.array (v :: done') :: outer) .separator ts
    | .object done' key :: outer => build (.object ((key, v) :: done') none :: outer) .separator ts
  | .object done key :: outer, .firstKey, .leaf v :: ts
  | .object done key :: outer, .key, .leaf v :: ts =>
    match key? v with
    | some key => build (.object done key :: outer) .colon ts
    | none => breakOff (.object done key :: outer)
  | .object done key :: outer, .colon, .colon :: ts => build (.object done key :: outer) .value ts
  | .array done :: outer, .separator, .comma :: ts => build (.array done :: outer) .value ts
  | .object done key :: outer, .separator, .comma :: ts => build (.object done key :: outer) .key ts
  | opened, _, _ => breakOff opened

/-- **The value of a text.** -/
def read (text : String) : JsonDocument :=
  build [] .value (JsonToken.lex text)

end Json

end ByteAtlas
