/-!
# Diagnostics

What can be wrong with the text of an expression, where it is wrong, and the wording.
-/

namespace ByteAtlas

/-- What is wrong with a query. -/
inductive QueryFault where
  | emptyQuery
  | noNameAfterDot
  | noBracketedFilters
  | lateStructName
  | noFieldOrStructName
  | noDotBeforeField
  deriving DecidableEq, Repr

def QueryFault.message : QueryFault → String
  | emptyQuery => "empty query"
  | noNameAfterDot => "expected a name after `.`"
  | noBracketedFilters => "expected `[` filters `]`"
  | lateStructName => "struct name after start of query"
  | noFieldOrStructName => "expected a field or struct name"
  | noDotBeforeField => "expected `.` before field name"

/-- What is wrong with an expression. -/
inductive CompileFault where
  | unexpectedChar (found : Char)
  | unterminatedQuote
  | badStructName
  | emptyExpr
  | unbalancedBrackets
  | nestingTooDeep
  | cannotParse
  | badQuery (fault : QueryFault)
  | badFilter
  | unknownIntrinsic (name : String)
  | badIntrinsicArgs (name : String)
  deriving DecidableEq, Repr

/-- A fault and the byte of the source at which it is. -/
structure Diagnostic where
  pos : Nat
  fault : CompileFault
  deriving DecidableEq, Repr

namespace Diagnostic

/-- The diagnostic for a text that starts `bytes` further on. -/
def shift (d : Diagnostic) (bytes : Nat) : Diagnostic :=
  { d with pos := bytes + d.pos }

/-- The wording, position included. -/
def message (d : Diagnostic) : String :=
  let place := " at " ++ toString d.pos
  match d.fault with
  | .unexpectedChar found => "unexpected character `" ++ String.singleton found ++ "`" ++ place
  | .unterminatedQuote => "unterminated quoted name" ++ place
  | .badStructName => "bad struct name" ++ place
  | .emptyExpr => "empty expression" ++ place
  | .unbalancedBrackets => "unbalanced brackets" ++ place
  | .nestingTooDeep => "brackets nested too deeply" ++ place
  | .cannotParse => "cannot parse expression" ++ place
  | .badQuery fault => "bad query" ++ place ++ ": " ++ fault.message
  | .badFilter => "bad query filter" ++ place
  | .unknownIntrinsic name => "unknown intrinsic $" ++ name ++ place
  | .badIntrinsicArgs name => "bad arguments to $" ++ name ++ place

end Diagnostic

end ByteAtlas
