import ByteAtlas.Scalar.Basic
import ByteAtlas.Json.Reader

/-!
# Taking values out of JSON

A decoder turns a JSON value into a value of another type, or tells what is the first thing wrong
with it (`DecodeError`). Parts are looked at in the order of the text, so that the first fault wins
whatever its kind.

A record is an object with known keys, each at most once; other keys are passed over, provided that
their values are JSON. It may also be an array of the values in the order of the keys. Whether a key
may be missing is for the caller to decide.
-/

namespace ByteAtlas

/-- What is wrong with a JSON value. -/
inductive DecodeError where
  /-- No JSON, or not of the expected form. -/
  | malformed
  | unknownCountSource (text : String)
  | emptyTypeName
  | unknownType (error : UnknownType)
  deriving DecidableEq, Repr

/-- The wording of an error of content. -/
def DecodeError.message? : DecodeError → Option String
  | malformed => none
  | unknownCountSource text => some ("unknown count source: " ++ text)
  | emptyTypeName => some "field type name must not be empty"
  | unknownType e => some e.message

/-- A result, or what is wrong with a JSON value. -/
abbrev Decoded (α : Type) := Except DecodeError α

namespace Json

def toText : Json → Decoded String
  | string s => .ok s
  | _ => .error .malformed

def toBool : Json → Decoded Bool
  | bool b => .ok b
  | _ => .error .malformed

/-- An integer from `low` to `high`. -/
def toIntWithin (low high : Int) : Json → Decoded Int
  | number n =>
    match n.toInt? with
    | some i => if low ≤ i ∧ i ≤ high then .ok i else .error .malformed
    | none => .error .malformed
  | _ => .error .malformed

/-- A signed integer of 64 bits. -/
def toWord (j : Json) : Decoded Int64 :=
  (j.toIntWithin Int64.minValue.toInt Int64.maxValue.toInt).map Int64.ofInt

/-- An unsigned integer of 64 bits. -/
def toNat64 (j : Json) : Decoded Nat :=
  (j.toIntWithin 0 (UInt64.size - 1)).map Int.toNat

/-- A value that may be null. -/
def toOption {α : Type} (decode : Json → Decoded α) : Json → Decoded (Option α)
  | null => .ok none
  | j => (decode j).map some

/-- The items of an array, each decoded in turn. -/
def itemsOf {α : Type} (decode : Json → Decoded α) : List Json → Decoded (List α)
  | [] => .ok []
  | j :: js =>
    match decode j with
    | .error e => .error e
    | .ok a => (itemsOf decode js).map (a :: ·)

def toList {α : Type} (decode : Json → Decoded α) : Json → Decoded (List α)
  | array items => itemsOf decode items
  | _ => .error .malformed

/-- The members of an object, each decoded in turn. -/
def entriesOf {α : Type} (decode : Json → Decoded α) :
    List (Option String × Json) → Decoded (List (String × α))
  | [] => .ok []
  | (none, _) :: _ => .error .malformed
  | (some key, j) :: ms =>
    match decode j with
    | .error e => .error e
    | .ok a => (entriesOf decode ms).map ((key, a) :: ·)

/-- The keys and values of an object that maps names to values, in the order of the text. -/
def toEntries {α : Type} (decode : Json → Decoded α) : Json → Decoded (List (String × α))
  | object members => entriesOf decode members
  | _ => .error .malformed

/-! ## Records -/

/-- The members of a record with the given keys. The values of an array belong to the keys in order;
    one too many has no key. -/
def membersOf (keys : List String) : Json → Option (List (Option String × Json))
  | object members => some members
  | array items =>
    some ((keys.map some).zip items ++ if items.length > keys.length then [(none, broken)] else [])
  | _ => none

/-- A record taken up member by member. `step` takes the value of a known key; `seen` holds the keys
    met so far. -/
def foldMembers {σ : Type} (keys : List String) (step : σ → String → Json → Decoded σ) :
    (seen : List String) → σ → List (Option String × Json) → Decoded σ
  | _, s, [] => .ok s
  | _, _, (none, _) :: _ => .error .malformed
  | seen, s, (some key, j) :: ms =>
    if keys.contains key then
      if seen.contains key then .error .malformed
      else
        match step s key j with
        | .error e => .error e
        | .ok s => foldMembers keys step (key :: seen) s ms
    else if j.isWhole then foldMembers keys step seen s ms
    else .error .malformed

/-- **A record**, taken up from `start` member by member. -/
def toRecord {σ : Type} (keys : List String) (step : σ → String → Json → Decoded σ) (start : σ)
    (j : Json) : Decoded σ :=
  match membersOf keys j with
  | none => .error .malformed
  | some members => foldMembers keys step [] start members

/-- A part of a record that must not be missing. -/
def required {α : Type} : Option α → Decoded α
  | some a => .ok a
  | none => .error .malformed

/-! ## Alternatives -/

/-- A value of one of several named forms: the name alone, or an object with the name as its only
    key and the content of the form. Without content the object holds null. -/
def toVariant {α : Type} (bare : String → Option α)
    (content : String → Option (Json → Decoded α)) : Json → Decoded α
  | string name => required (bare name)
  | object [(some name, j)] =>
    match bare name, j with
    | some a, null => .ok a
    | some _, _ => .error .malformed
    | none, j =>
      match content name with
      | some decode => decode j
      | none => .error .malformed
  | _ => .error .malformed

end Json

/-- **A whole text decoded.** Text after the value is a fault, but one that comes last. -/
def decodeText {α : Type} (decode : Json → Decoded α) (text : String) : Decoded α :=
  let document := Json.read text
  match decode document.root with
  | .error e => .error e
  | .ok a => if document.endsThere then .ok a else .error .malformed

end ByteAtlas
