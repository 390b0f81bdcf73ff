/-!
# Options of the report command

The words of the command line are options with a value, `--name value` or `--name=value`, and the
flags `--expand` and `--json`. Only `--eval` may come more than once.
-/

namespace ByteAtlas

/-- What the command line asks for. -/
structure ReportOptions where
  schema : String
  file : String
  struct : String
  offset : String
  count : String
  maxDepth : Option String
  limits : Option String
  expand : Bool
  json : Bool
  sources : List String
  deriving DecidableEq, Repr

/-- What is wrong with the words of the command line. -/
inductive OptionFault where
  | unknown (word : String)
  | noValue (option : String)
  | repeated (option : String)
  | missing (option : String)
  deriving DecidableEq, Repr

def OptionFault.message : OptionFault → String
  | unknown word => "unexpected argument " ++ word
  | noValue option => "a value is needed for " ++ option
  | repeated option => option ++ " was given more than once"
  | missing option => "the option " ++ option ++ " is needed"

/-- The options that take a value. -/
def valueOptions : List String :=
  ["--schema", "--file", "--struct", "--offset", "--count", "--eval", "--max-depth", "--limits"]

/-- The options without a value. -/
def flagOptions : List String := ["--expand", "--json"]

/-- An option with the value after its equals sign. -/
def splitOption (word : String) : String × Option String :=
  let cs := word.toList
  let name := String.ofList (cs.takeWhile (· ≠ '='))
  match cs.dropWhile (· ≠ '=') with
  | [] => (name, none)
  | _ :: value => (name, some (String.ofList value))

/-- The words taken apart: options with their values, flags with none. -/
def pairOptions : List String → Except OptionFault (List (String × String))
  | [] => .ok []
  | word :: words =>
    if flagOptions.contains word then (pairOptions words).map ((word, "") :: ·)
    else
      match splitOption word with
      | (name, some value) =>
        if valueOptions.contains name then (pairOptions words).map ((name, value) :: ·)
        else .error (.unknown word)
      | (name, none) =>
        if valueOptions.contains name then
          match words with
          | [] => .error (.noValue name)
          | value :: words => (pairOptions words).map ((name, value) :: ·)
        else .error (.unknown word)

/-- The value of an option that comes at most once. -/
def single? (pairs : List (String × String)) (name : String) : Except OptionFault (Option String) :=
  match (pairs.filter fun p => p.1 == name).map Prod.snd with
  | [] => .ok none
  | [value] => .ok (some value)
  | _ => .error (.repeated name)

/-- The value of an option that must be there. -/
def needed (pairs : List (String × String)) (name : String) : Except OptionFault String :=
  match single? pairs name with
  | .error e => .error e
  | .ok none => .error (.missing name)
  | .ok (some value) => .ok value

/-- **The options that some words stand for.** -/
def ReportOptions.ofWords (words : List String) : Except OptionFault ReportOptions := do
  let pairs ← pairOptions words
  let schema ← needed pairs "--schema"
  let file ← needed pairs "--file"
  let struct ← needed pairs "--struct"
  let offset ← single? pairs "--offset"
  let count ← single? pairs "--count"
  let maxDepth ← single? pairs "--max-depth"
  let limits ← single? pairs "--limits"
  pure
    { schema, file, struct, offset := offset.getD "0", count := count.getD "1", maxDepth, limits
      expand := pairs.any fun p => p.1 == "--expand"
      json := pairs.any fun p => p.1 == "--json"
      sources := (pairs.filter fun p => p.1 == "--eval").map Prod.snd }

end ByteAtlas
