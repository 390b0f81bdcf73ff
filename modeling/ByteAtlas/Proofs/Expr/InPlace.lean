import ByteAtlas.Expr.Compile

/-!
# Compiling in place

The compiler cuts spans, which hold tokens of their own, so it cannot reach beyond them. Here it
works on one list of tokens: a part is a range of their indices, and whatever it looks at it finds
by index. So it may slip: read a token that is not there, subtract more from an index than it is,
form a range that ends before it starts, compile a part that is not shorter than the whole, or cut
the text within a character. A slip is no fault of the text and cannot be caught.

* `kind`, `minus`, `range`, `sliceFrom`: the steps that may slip;
* `scanTopLevel`, `matchingClose`: the scans over brackets, with what is found by them;
* `tryExpr`, `tryQuery`: the productions. Each is handed the means to compile shorter ranges
  (`Calls`) and may go on to a later production with the range that it has;
* `Expr.compileInPlace`: the compiler.
-/

namespace ByteAtlas

/-- **What must not happen.** -/
inductive Slip where
  /-- A token is read that is not there. -/
  | noToken (index : Nat)
  /-- More is subtracted from an index than it is. -/
  | underflow (index less : Nat)
  /-- A range ends before it starts. -/
  | backwards (start stop : Nat)
  /-- A part is compiled, or what is left of a text is cut, that is not shorter than the whole. -/
  | noProgress
  /-- A text is cut within a character. -/
  | withinCharacter (pos : Nat)
  deriving DecidableEq, Repr

/-- A step of compiling. It notes diagnostics, it may break off with one, and it may slip. -/
abbrev Compiling := ExceptT Diagnostic (StateT (List Diagnostic) (Except Slip))

namespace InPlace

section

variable {α : Type}

/-! ## 1. Steps that may slip -/

def slip (s : Slip) : Compiling α :=
  ExceptT.lift (StateT.lift (.error s))

/-- Notes a diagnostic. -/
def note (d : Diagnostic) : Compiling Unit :=
  modify fun ds => ds ++ [d]

/-- **Notes the diagnostic with which a step breaks off**, and goes on with something else. -/
def report (step : Compiling α) (fallback : α) : Compiling α :=
  tryCatch step fun d => do
    note d
    pure fallback

/-- Another diagnostic in the place of any with which a step breaks off. -/
def blame (step : Compiling α) (d : Diagnostic) : Compiling α :=
  tryCatch step fun _ => throw d

/-- A difference of indices. -/
def minus (i less : Nat) : Compiling Nat :=
  if less ≤ i then pure (i - less) else slip (.underflow i less)

/-- Consecutive indices, from one on up to another, which is not among them. -/
structure Range where
  start : Nat
  stop : Nat
  le : start ≤ stop

namespace Range

def length (r : Range) : Nat := r.stop - r.start

def isEmpty (r : Range) : Bool := r.start == r.stop

end Range

def range (start stop : Nat) : Compiling Range :=
  if h : start ≤ stop then pure ⟨start, stop, h⟩ else slip (.backwards start stop)

/-- What is left of a text from a byte on. -/
def sliceFrom (pos : Nat) : List Char → Compiling (List Char)
  | [] => if pos = 0 then pure [] else slip (.withinCharacter pos)
  | c :: cs =>
    if pos = 0 then pure (c :: cs)
    else if c.utf8Size ≤ pos then sliceFrom (pos - c.utf8Size) cs
    else slip (.withinCharacter pos)

/-! ## 2. Tokens of a text -/

/-- The symbol at a byte of a text, of which `c` and `cs` are left there. -/
def symbolAt (source : List Char) (pos : Nat) (c : Char) (cs : List Char) : Compiling Scan := do
  let rest ← sliceFrom pos source
  match symbols.find? fun symbol => (stripFront symbol.1 rest).isSome with
  | none => throw ⟨pos, .unexpectedChar c⟩
  | some (text, token) =>
    pure ⟨token, (c :: cs).take text.length, (c :: cs).drop text.length⟩

/-- The token at a byte of a text. Only symbols are looked up in the text itself. -/
def tokenAt (source : List Char) (pos : Nat) (c : Char) (cs : List Char) : Compiling Scan :=
  if c.isDigit || isWordStart c || c == '"' || c == '#' then
    match scanToken c cs with
    | .error d => throw (d.shift pos)
    | .ok s => pure s
  else symbolAt source pos c cs

/-- The tokens of a text from a byte on, where `cs` are left, after those in `done`, which are in
    reverse. -/
def tokensFrom (source : List Char) (pos : Nat) (cs : List Char) (done : List Lexeme) :
    Compiling (List Lexeme) :=
  match cs with
  | [] => pure done.reverse
  | c :: cs =>
    if isBlank c then tokensFrom source (pos + c.utf8Size) cs done
    else do
      let s ← tokenAt source pos c cs
      if _h : s.rest.length < cs.length + 1 then
        tokensFrom source (pos + byteLength s.taken) s.rest (⟨s.token, pos⟩ :: done)
      else slip .noProgress
termination_by cs.length

end

/-! ## 3. Tokens by index -/

section

variable (whole : Span) {σ : Type}

/-- The token at an index. -/
def kind (i : Nat) : Compiling Token :=
  match whole.lexemes[i]? with
  | some l => pure l.token
  | none => slip (.noToken i)

/-- Where the token at an index starts, or the end of the text. -/
def posAt (i : Nat) : Nat :=
  (whole.lexemes[i]?.map Lexeme.pos).getD whole.stop

/-- The binary operator that a token may be. -/
def binaryOp? : Token → Option BinaryOp
  | .operator op => some op
  | _ => none

def isName : Token → Bool
  | .name _ => true
  | _ => false

/-- Whether an operator at an index follows an operand, of the tokens from `start` on. -/
def isBinaryPosition (start i : Nat) : Compiling Bool :=
  if i = start then pure false
  else do
    let previous ← kind whole (← minus i 1)
    let afterDollar ←
      if start + 2 ≤ i then do
        let earlier ← kind whole (← minus i 2)
        pure (decide (earlier = .dollar))
      else pure false
    pure (endsOperand previous && !(afterDollar && isName previous))

/-- The index of the operator past the most allowed. `left` tokens remain, and `skip` operators are
    still allowed. -/
def operatorPastLimit (start : Nat) : (left i skip : Nat) → Compiling (Option Nat)
  | 0, _, _ => pure none
  | left + 1, i, skip => do
    match binaryOp? (← kind whole i) with
    | none => operatorPastLimit start left (i + 1) skip
    | some _ =>
      if ← isBinaryPosition whole start i then
        match skip with
        | 0 => pure (some i)
        | skip + 1 => operatorPastLimit start left (i + 1) skip
      else operatorPastLimit start left (i + 1) skip

/-! ## 4. Brackets -/

/-- The index at which as many brackets close as were open, `depth` of them before. -/
def closeFrom : (left i depth : Nat) → Compiling (Option Nat)
  | 0, _, _ => pure none
  | left + 1, i, depth => do
    match ← kind whole i with
    | .opening _ => closeFrom left (i + 1) (depth + 1)
    | .closing _ =>
      match depth with
      | 0 => pure none
      | 1 => pure (some i)
      | depth + 2 => closeFrom left (i + 1) (depth + 1)
    | _ => closeFrom left (i + 1) depth

/-- The index of the bracket that closes the one at the start of a range. -/
def matchingClose (r : Range) : Compiling (Option Nat) :=
  closeFrom whole r.length r.start 0

/-- Whether a range is one pair of brackets, the first of them of the given kind. -/
def isEnclosed (b : Bracket) (r : Range) : Compiling Bool := do
  if (← kind whole r.start) = .opening b then
    let close ← matchingClose whole r
    let last ← minus r.stop 1
    pure (decide (close = some last))
  else pure false

/-- A range without its first and its last index. -/
def inside (r : Range) : Compiling Range := do
  range (r.start + 1) (← minus r.stop 1)

/-- **Visits the tokens outside brackets**, from the index `i` on, where `left` tokens remain.
    `stack` holds the brackets open so far with their indices. -/
def scanFrom (visit : Nat → σ → Compiling σ) :
    (left i : Nat) → List (Bracket × Nat) → σ → Compiling σ
  | 0, _, [], s => pure s
  | 0, _, (_, j) :: _, _ => throw ⟨posAt whole j, .unbalancedBrackets⟩
  | left + 1, i, stack, s => do
    match ← kind whole i with
    | .opening b =>
      if nestingLimit ≤ stack.length then throw ⟨posAt whole i, .nestingTooDeep⟩
      else scanFrom visit left (i + 1) ((b, i) :: stack) s
    | .closing b =>
      match stack with
      | [] => throw ⟨posAt whole i, .unbalancedBrackets⟩
      | (b', _) :: outer =>
        if b' = b then scanFrom visit left (i + 1) outer s
        else throw ⟨posAt whole i, .unbalancedBrackets⟩
    | _ =>
      if stack.isEmpty then do
        let s ← visit i s
        scanFrom visit left (i + 1) stack s
      else scanFrom visit left (i + 1) stack s

def scanTopLevel (r : Range) (visit : Nat → σ → Compiling σ) (s : σ) : Compiling σ :=
  scanFrom whole visit r.length r.start [] s

/-- The weakest operator outside brackets, the last of equally weak ones. -/
def findLastWeakestOp (r : Range) : Compiling (Option (Nat × BinaryOp)) :=
  scanTopLevel whole r
    (fun i weakest => do
      match binaryOp? (← kind whole i) with
      | none => pure weakest
      | some op =>
        if ← isBinaryPosition whole r.start i then
          pure (if weakest.all fun best => op.score ≤ best.2.score then some (i, op) else weakest)
        else pure weakest)
    none

/-- The ranges between the tokens of a kind that stand outside brackets. -/
def splitTopLevel (r : Range) (separator : Token) : Compiling (List Range) := do
  let (parts, start) ← scanTopLevel whole r
    (fun i (parts, start) => do
      if (← kind whole i) = separator then
        let part ← range start i
        pure (parts ++ [part], i + 1)
      else pure (parts, start))
    ([], r.start)
  let last ← range start r.stop
  pure (parts ++ [last])

/-- The last token of a kind outside brackets. -/
def lastTopLevel (r : Range) (token : Token) : Compiling (Option Nat) :=
  scanTopLevel whole r
    (fun i last => do
      if (← kind whole i) = token then pure (some i) else pure last)
    none

/-! ## 5. Arguments -/

/-- The ranges between the commas outside brackets. Nothing has none. -/
def commaParts (r : Range) : Compiling (List Range) :=
  if r.isEmpty then pure [] else splitTopLevel whole r .comma

/-- The ranges of arguments between round brackets. -/
def callArgs (r : Range) : Compiling (List Range) :=
  if r.isEmpty then throw ⟨posAt whole r.start, .cannotParse⟩
  else do
    if ← isEnclosed whole .round r then
      commaParts whole (← inside r)
    else throw ⟨posAt whole r.start, .cannotParse⟩

/-- The text of a token by itself. -/
def plainText? : Token → Option String
  | .name text => some text
  | .int n => some (toString n.toInt)
  | _ => none

/-- A name, or an integer with or without a sign, as text. -/
def textArg (r : Range) : Compiling (Option String) :=
  if r.isEmpty then pure none
  else do
    let first ← kind whole r.start
    if r.length = 1 then pure (plainText? first)
    else if r.length = 2 ∧ first = .operator .sub then
      match ← kind whole (r.start + 1) with
      | .int n => pure (some (toString (-n).toInt))
      | _ => pure none
    else pure none

/-! ## 6. Expressions -/

/-- How ranges of less than `n` tokens are compiled. -/
structure Calls (n : Nat) where
  expr : (r : Range) → r.length < n → (depth : Nat) → Compiling Expr
  query : (r : Range) → r.length < n → (depth : Nat) → Compiling Query

variable {n : Nat} (calls : Calls n)

/-- Compiles an expression that is part of another one. -/
def Calls.onExpr (r : Range) (depth : Nat) : Compiling Expr :=
  if h : r.length < n then calls.expr r h depth else slip .noProgress

/-- Compiles a query that is part of something. -/
def Calls.onQuery (r : Range) (depth : Nat) : Compiling Query :=
  if h : r.length < n then calls.query r h depth else slip .noProgress

/-- What stands before the name of a member: nothing, or a query and a dot. -/
def fieldQuery (before : Range) (depth : Nat) : Compiling (Option Query) :=
  if before.isEmpty then pure none
  else do
    let dot ← minus before.stop 1
    if (← kind whole dot) = .dot then
      let query ← calls.onQuery (← range before.start dot) (depth + 1)
      pure (some query)
    else throw ⟨posAt whole dot, .badQuery .noDotBeforeField⟩

/-- A member as written: an offset mark, the query before the last dot, the name. -/
def fieldRef (r : Range) (depth : Nat) : Compiling (Option Query × String × Bool) :=
  if r.isEmpty then throw ⟨posAt whole r.start, .cannotParse⟩
  else do
    match ← kind whole (← minus r.stop 1) with
    | .name name =>
      let first ← kind whole r.start
      let before ← range (if first = .at then r.start + 1 else r.start) (← minus r.stop 1)
      let query ← fieldQuery whole calls before depth
      pure (query, name, decide (first = .at))
    | _ => throw ⟨posAt whole r.start, .cannotParse⟩

/-- A comparison of a member's preview with a text. -/
def previewTest (badArgs : Diagnostic) (field text : Range) (invert : Bool) (depth : Nat) :
    Compiling Expr := do
  if (← kind whole field.start) = .at then throw badArgs
  else do
    let (query, name, _) ← fieldRef whole calls field depth
    match ← textArg whole text with
    | some text => pure (.previewTest query name text invert)
    | none => throw badArgs

/-- An element of an array. -/
def element (field index : Range) (depth : Nat) : Compiling Expr := do
  let (query, name, isOffset) ← fieldRef whole calls field depth
  let index ← calls.onExpr index depth
  pure (.member query name (some index) isOffset)

/-- The intrinsic of a name, at the start of a range; `rest` is what follows the name. -/
def namedIntrinsic (pos : Nat) (name : String) (rest : Range) (depth : Nat) : Compiling Expr :=
  let badArgs : Diagnostic := ⟨pos, .badIntrinsicArgs name⟩
  match IntType.ofName? name with
  | some type => do
    let offset ← calls.onExpr rest (depth + 1)
    pure (.rawRead type offset)
  | none =>
    if name = "fpeqs" ∨ name = "fpnes" then do
      match ← blame (callArgs whole rest) badArgs with
      | [field, text] => previewTest whole calls badArgs field text (name = "fpnes") (depth + 1)
      | _ => throw badArgs
    else if name = "arr" then do
      match ← blame (callArgs whole rest) badArgs with
      | [field, index] => element whole calls field index (depth + 1)
      | _ => throw badArgs
    else if name = "iid" then do
      match ← blame (callArgs whole rest) badArgs with
      | [] => pure (.instanceId none)
      | [query] =>
        let query ← calls.onQuery query (depth + 1)
        pure (.instanceId (some query))
      | _ => throw badArgs
    else throw ⟨pos, .unknownIntrinsic name⟩

/-- An intrinsic. -/
def intrinsic (r : Range) (depth : Nat) : Compiling Expr :=
  if r.length < 2 then throw ⟨posAt whole r.start, .cannotParse⟩
  else do
    match ← kind whole (r.start + 1) with
    | .name name =>
      namedIntrinsic whole calls (posAt whole r.start) name (← range (r.start + 2) r.stop) depth
    | _ => throw ⟨posAt whole r.start, .cannotParse⟩

/-- A member, or the offset of a struct; `first` is the token at the start. -/
def memberOrOffset (first : Token) (r : Range) (depth : Nat) : Compiling Expr := do
  match ← kind whole (← minus r.stop 1) with
  | .name _ =>
    let (query, name, isOffset) ← fieldRef whole calls r depth
    pure (.member query name none isOffset)
  | _ =>
    if first = .at then
      let query ← calls.onQuery (← range (r.start + 1) r.stop) (depth + 1)
      pure (.structOffset query)
    else throw ⟨posAt whole r.start, .cannotParse⟩

/-- What no operator cuts. -/
def operand (r : Range) (depth : Nat) : Compiling Expr := do
  match ← kind whole r.start with
  | .operator .sub =>
    let a ← calls.onExpr (← range (r.start + 1) r.stop) (depth + 1)
    pure (.unary .negate a)
  | .tilde =>
    let a ← calls.onExpr (← range (r.start + 1) r.stop) (depth + 1)
    pure (.unary .invert a)
  | .dollar => intrinsic whole calls r depth
  | first => memberOrOffset whole calls first r depth

def intValue? : Token → Option Int64
  | .int n => some n
  | _ => none

/-- **An expression**, unless it is at fault. -/
def tryExpr (r : Range) (depth : Nat) : Compiling Expr :=
  if depth > nestingLimit then throw ⟨posAt whole r.start, .nestingTooDeep⟩
  else if r.isEmpty then throw ⟨posAt whole r.start, .emptyExpr⟩
  else do
    let first ← kind whole r.start
    match if r.length = 1 then intValue? first else none with
    | some n => pure (.constant n)
    | none =>
      if ← isEnclosed whole .round r then calls.onExpr (← inside r) (depth + 1)
      else
        match ← findLastWeakestOp whole r with
        | some (i, op) =>
          let a ← calls.onExpr (← range r.start i) depth
          let b ← calls.onExpr (← range (i + 1) r.stop) depth
          pure (.binary op a b)
        | none => operand whole calls r depth

/-! ## 7. Queries -/

/-- The filters in some ranges, after those there are already. -/
def filterParts (depth : Nat) : List Range → Filters → Compiling Filters
  | [], filters => pure filters
  | part :: parts, .mk texts values selector =>
    if part.length < 3 then throw ⟨posAt whole part.start, .badFilter⟩
    else do
      if (← kind whole (part.start + 1)) = .assign then
        let value ← range (part.start + 2) part.stop
        match ← kind whole part.start with
        | .hash =>
          let e ← calls.onExpr value (depth + 1)
          filterParts depth parts (.mk texts values (some e))
        | .structName name false =>
          let e ← calls.onExpr value (depth + 1)
          filterParts depth parts (.mk texts (values ++ [(name, e)]) selector)
        | .name field =>
          match ← textArg whole value with
          | some text => filterParts depth parts (.mk (texts ++ [⟨field, text⟩]) values selector)
          | none => throw ⟨posAt whole part.start, .badFilter⟩
        | _ => throw ⟨posAt whole part.start, .badFilter⟩
      else throw ⟨posAt whole part.start, .badFilter⟩

/-- The filters between square brackets. -/
def filters (r : Range) (depth : Nat) : Compiling Filters := do
  if ← isEnclosed whole .square r then
    filterParts whole calls depth (← commaParts whole (← inside r)) .none
  else throw ⟨posAt whole r.start, .badQuery .noBracketedFilters⟩

/-- The filters of the step of a query, if it has any. -/
def stepFilters (step : Range) (depth : Nat) : Compiling Filters :=
  if 1 < step.length then do
    filters whole calls (← range (step.start + 1) step.stop) depth
  else pure .none

/-- The step of a query, given its filters. `dot` is the index of the dot in front of it, and what
    stands before that, from `start` on, is its parent. -/
def queryStep (start : Nat) (step : Range) (dot : Option Nat) (filters : Filters) (depth : Nat) :
    Compiling Query := do
  match ← kind whole step.start with
  | .name field =>
    match dot with
    | some i =>
      let parent ← calls.onQuery (← range start i) (depth + 1)
      pure (.sub (some parent) field filters)
    | none => pure (.sub none field filters)
  | .structName name isGlobal =>
    if dot.isSome then throw ⟨posAt whole step.start, .badQuery .lateStructName⟩
    else pure (.root name isGlobal filters)
  | _ => throw ⟨posAt whole step.start, .badQuery .noFieldOrStructName⟩

/-- **A query**, unless it is at fault. -/
def tryQuery (r : Range) (depth : Nat) : Compiling Query :=
  if depth > nestingLimit then throw ⟨posAt whole r.start, .nestingTooDeep⟩
  else if r.isEmpty then throw ⟨posAt whole r.start, .badQuery .emptyQuery⟩
  else do
    let dot ← lastTopLevel whole r .dot
    let step ← range (dot.elim r.start (· + 1)) r.stop
    if step.isEmpty then throw ⟨posAt whole step.start, .badQuery .noNameAfterDot⟩
    else do
      let filters ← stepFilters whole calls step depth
      queryStep whole calls r.start step dot filters depth

/-! ## 8. The compiler -/

mutual

/-- The tree of a range that lies `depth` levels deep. -/
def expr (r : Range) (depth : Nat) : Compiling Expr :=
  report
    (tryExpr whole (n := r.length)
      ⟨fun part _ depth => expr part depth, fun part _ depth => query part depth⟩ r depth)
    .error
termination_by r.length

/-- The tree of a query that lies `depth` levels deep. -/
def query (r : Range) (depth : Nat) : Compiling Query :=
  report
    (tryQuery whole (n := r.length)
      ⟨fun part _ depth => expr part depth, fun part _ depth => query part depth⟩ r depth)
    .error
termination_by r.length

end

/-- The tree of all tokens. -/
def compileAll : Compiling Expr := do
  match ← operatorPastLimit whole 0 whole.length 0 operatorLimit with
  | some i =>
    note ⟨posAt whole i, .nestingTooDeep⟩
    pure .error
  | none => expr whole (← range 0 whole.length) 0

end

/-- The tree of a text, unless the text cannot be cut into tokens. -/
def compileSource (source : String) : Compiling Expr := do
  let lexemes ← tokensFrom source.toList 0 source.toList []
  compileAll ⟨lexemes, source.utf8ByteSize⟩

end InPlace

/-- **The tree of a text and what is wrong with the text**, found in place, or a slip. -/
def Expr.compileInPlace (source : String) : Except Slip (Compiled Expr) :=
  (StateT.run (ExceptT.run (InPlace.report (InPlace.compileSource source) .error)) []).map
    fun (result, diagnostics) =>
      ⟨match result with
        | .ok tree => tree
        | .error _ => .error, diagnostics⟩

end ByteAtlas
