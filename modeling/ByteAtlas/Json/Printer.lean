import ByteAtlas.Json.Basic

/-!
# Writing JSON

`Json.compact` writes a value without blanks, `Json.pretty` one part to a line, two blanks in for
each level. An empty container stays on its line. In strings the quote, the backslash and the
control characters are escaped, nothing else.
-/

namespace ByteAtlas

namespace Json

/-- A character inside a string. -/
def escapeChar (c : Char) : List Char :=
  if c == '"' then ['\\', '"']
  else if c == '\\' then ['\\', '\\']
  else if c == '\x08' then ['\\', 'b']
  else if c == '\x0c' then ['\\', 'f']
  else if c == '\n' then ['\\', 'n']
  else if c == '\r' then ['\\', 'r']
  else if c == '\t' then ['\\', 't']
  else if c.toNat < 0x20 then
    ['\\', 'u', '0', '0', Nat.digitChar (c.toNat / 16), Nat.digitChar (c.toNat % 16)]
  else [c]

/-- A string with its quotes. -/
def quote (text : String) : String :=
  "\"" ++ String.ofList (text.toList.flatMap escapeChar) ++ "\""

/-- Where a line of a container starts. -/
def newLine (level : Nat) : String :=
  "\n" ++ String.ofList (List.replicate (2 * level) ' ')

/-- How the parts of a container are set apart. -/
structure Spacing where
  /-- What stands before a part, or before the closing bracket, at a level. -/
  line : Nat → String
  /-- What stands after a colon. -/
  afterColon : String

def Spacing.none : Spacing := ⟨fun _ => "", ""⟩

def Spacing.lines : Spacing := ⟨newLine, " "⟩

mutual

/-- The text of a value at a level. What is no JSON has no text. -/
def write (sp : Spacing) (level : Nat) : Json → String
  | null => "null"
  | bool b => if b then "true" else "false"
  | number n => n.text
  | string s => quote s
  | illFormed => ""
  | array items =>
    match items with
    | [] => "[]"
    | _ :: _ =>
      "[" ++ writeItems sp (level + 1) true items ++ sp.line level ++ "]"
  | object members =>
    match members with
    | [] => "\x7b\x7d"
    | _ :: _ =>
      "\x7b" ++ writeMembers sp (level + 1) true members ++ sp.line level ++ "\x7d"
  | broken => ""

/-- The items of an array, commas between them. -/
def writeItems (sp : Spacing) (level : Nat) (first : Bool) : List Json → String
  | [] => ""
  | j :: js =>
    (if first then "" else ",") ++ sp.line level ++ j.write sp level ++
      writeItems sp level false js

/-- The members of an object, commas between them. -/
def writeMembers (sp : Spacing) (level : Nat) (first : Bool) : List (Option String × Json) → String
  | [] => ""
  | (key, j) :: ms =>
    (if first then "" else ",") ++ sp.line level ++ quote (key.getD "") ++ ":" ++ sp.afterColon ++
      j.write sp level ++ writeMembers sp level false ms

end

/-- The text of a value on one line. -/
def compact (j : Json) : String := j.write .none 0

/-- The text of a value over several lines. -/
def pretty (j : Json) : String := j.write .lines 0

end Json

end ByteAtlas
