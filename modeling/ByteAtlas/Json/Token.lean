import ByteAtlas.Json.Basic

/-!
# JSON tokens

A JSON text is cut into tokens in one pass over its characters (`JsonToken.lex`): brackets, commas,
colons, and values without parts. The first thing that is no token ends the list with `bad`.

Words and numbers are taken as runs of the characters that may be in one, and then looked at. A
string is read with its escapes; two escapes for the halves of a surrogate pair denote one
character, and a half without the other none.
-/

namespace ByteAtlas

inductive JsonToken where
  | openArray
  | closeArray
  | openObject
  | closeObject
  | comma
  | colon
  /-- A value without parts. -/
  | leaf (value : Json)
  | bad
  deriving Repr

namespace JsonToken

/-! ## 1. Words and numbers -/

/-- The number that a run of characters is, if it is one. A zero in front stands alone; a point has
    digits on both sides; an exponent has digits. -/
def number? (cs : List Char) : Option JsonNumber :=
  let (negative, cs) := match cs with
    | '-' :: cs => (true, cs)
    | cs => (false, cs)
  let whole := cs.takeWhile Char.isDigit
  let cs := cs.dropWhile Char.isDigit
  let (fraction, hasPoint, cs) := match cs with
    | '.' :: cs => (cs.takeWhile Char.isDigit, true, cs.dropWhile Char.isDigit)
    | cs => ([], false, cs)
  let wholeFits := match whole with
    | [] => false
    | '0' :: _ :: _ => false
    | _ => true
  if !wholeFits || (hasPoint && fraction.isEmpty) then none
  else
    match cs with
    | [] => some ⟨negative, whole, fraction, none⟩
    | e :: cs =>
      if e == 'e' || e == 'E' then
        let (minus, ds) := match cs with
          | '-' :: ds => (true, ds)
          | '+' :: ds => (false, ds)
          | ds => (false, ds)
        if ds.isEmpty || !ds.all Char.isDigit then none
        else
          let n : Int := JsonNumber.digits ds
          some ⟨negative, whole, fraction, some (if minus then -n else n)⟩
      else none

/-- The value that a run of characters is. -/
def ofRun (cs : List Char) : JsonToken :=
  if cs = ['n', 'u', 'l', 'l'] then leaf .null
  else if cs = ['t', 'r', 'u', 'e'] then leaf (.bool true)
  else if cs = ['f', 'a', 'l', 's', 'e'] then leaf (.bool false)
  else
    match number? cs with
    | some n => leaf (.number n)
    | none => bad

/-- Whether a character may be in a word or a number. -/
def isRunChar (c : Char) : Bool :=
  c.isAlphanum || c == '-' || c == '+' || c == '.'

/-! ## 2. Strings -/

/-- How far into an escape the text is. -/
inductive Escape where
  | outside
  | afterBackslash
  /-- Of four hexadecimal digits so many are still to come; the value of those before. -/
  | inUnit (left : Nat) (value : Nat)

/-- A string while it is read. -/
structure Partial where
  /-- The characters, the last one first. -/
  done : List Char
  /-- The first half of a surrogate pair, if it stands last. -/
  pending : Option Nat
  wellFormed : Bool
  escape : Escape

namespace Partial

def start : Partial := ⟨[], none, true, .outside⟩

/-- One more character. A half pair before it stays without the other half. -/
def push (p : Partial) (c : Char) : Partial :=
  { p with
    done := c :: p.done, pending := none, escape := .outside,
    wellFormed := p.wellFormed && p.pending.isNone }

/-- One more unit of 16 bits, written by its number. -/
def pushUnit (p : Partial) (n : Nat) : Partial :=
  if 0xdc00 ≤ n ∧ n < 0xe000 then
    match p.pending with
    | some high =>
      { p with
        done := Char.ofNat (0x10000 + (high - 0xd800) * 0x400 + (n - 0xdc00)) :: p.done,
        pending := none, escape := .outside }
    | none => { p with wellFormed := false, escape := .outside }
  else if 0xd800 ≤ n ∧ n < 0xdc00 then
    { p with
      pending := some n, escape := .outside, wellFormed := p.wellFormed && p.pending.isNone }
  else p.push (Char.ofNat n)

/-- The value of a finished string. -/
def value (p : Partial) : Json :=
  if p.wellFormed && p.pending.isNone then .string (String.ofList p.done.reverse) else .illFormed

/-- The character an escape of one letter stands for. -/
def letterEscape? (c : Char) : Option Char :=
  if c == '"' || c == '\\' || c == '/' then some c
  else if c == 'b' then some '\x08'
  else if c == 'f' then some '\x0c'
  else if c == 'n' then some '\n'
  else if c == 'r' then some '\r'
  else if c == 't' then some '\t'
  else none

/-- The value of a hexadecimal digit. -/
def hexValue? (c : Char) : Option Nat :=
  if c.isDigit then some (c.toNat - '0'.toNat)
  else if 'a' ≤ c && c ≤ 'f' then some (c.toNat - 'a'.toNat + 10)
  else if 'A' ≤ c && c ≤ 'F' then some (c.toNat - 'A'.toNat + 10)
  else none

/-- **One character of a string**: the string goes on, or has ended, or is no string. -/
def step (p : Partial) (c : Char) : Partial ⊕ JsonToken :=
  match p.escape with
  | .outside =>
    if c == '"' then .inr (leaf p.value)
    else if c == '\\' then .inl { p with escape := .afterBackslash }
    else if c.toNat < 0x20 then .inr bad
    else .inl (p.push c)
  | .afterBackslash =>
    if c == 'u' then .inl { p with escape := .inUnit 4 0 }
    else
      match letterEscape? c with
      | some x => .inl (p.push x)
      | none => .inr bad
  | .inUnit left n =>
    match hexValue? c with
    | none => .inr bad
    | some d =>
      if left ≤ 1 then .inl (p.pushUnit (n * 16 + d))
      else .inl { p with escape := .inUnit (left - 1) (n * 16 + d) }

end Partial

/-! ## 3. The pass over the text -/

/-- What is being read. -/
inductive Mode where
  | between
  /-- A word or number, its last character first. -/
  | inRun (done : List Char)
  | inString (p : Partial)

/-- What a character between tokens is: a token, the start of one, or nothing. -/
def start (c : Char) : List JsonToken × Mode :=
  if c == ' ' || c == '\n' || c == '\t' || c == '\r' then ([], .between)
  else if c == '"' then ([], .inString .start)
  else if c == '[' then ([openArray], .between)
  else if c == ']' then ([closeArray], .between)
  else if c == '\x7b' then ([openObject], .between)
  else if c == '\x7d' then ([closeObject], .between)
  else if c == ',' then ([comma], .between)
  else if c == ':' then ([colon], .between)
  else if isRunChar c then ([], .inRun [c])
  else ([bad], .between)

/-- The tokens of a text of which part of one has been read. -/
def lexFrom : Mode → List Char → List JsonToken
  | .between, [] => []
  | .between, c :: cs =>
    match start c with
    | ([], mode) => lexFrom mode cs
    | (token :: _, mode) => token :: lexFrom mode cs
  | .inRun done, [] => [ofRun done.reverse]
  | .inRun done, c :: cs =>
    if isRunChar c then lexFrom (.inRun (c :: done)) cs
    else
      match start c with
      | ([], mode) => ofRun done.reverse :: lexFrom mode cs
      | (token :: _, mode) => ofRun done.reverse :: token :: lexFrom mode cs
  | .inString _, [] => [bad]
  | .inString p, c :: cs =>
    match p.step c with
    | .inl p => lexFrom (.inString p) cs
    | .inr token => token :: lexFrom .between cs

/-- **The tokens of a text.** -/
def lex (text : String) : List JsonToken :=
  lexFrom .between text.toList

end JsonToken

end ByteAtlas
