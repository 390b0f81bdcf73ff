import ByteAtlas.Expr.Token

/-!
# Spans of tokens

A part of an expression is a run of its tokens, together with the place where the run ends
(`Span`). Reading an expression means cutting spans at tokens that stand outside all brackets:

* `Span.marked`: each token, and whether it stands outside brackets. Brackets that do not match, or
  lie too deep, are refused;
* `splitLast`: a list around its last element with some property;
* `Span.commaParts`: the parts between the commas outside brackets;
* `Span.enclosed?`: the inside of a span whose first bracket closes at its last token;
* `binaryMarks`: which operators stand between two operands, and are not signs.
-/

namespace ByteAtlas

/-! ## 1. Spans -/

/-- Consecutive tokens and the byte at which what follows them starts. -/
structure Span where
  lexemes : List Lexeme
  stop : Nat
  deriving DecidableEq, Repr

namespace Span

def length (s : Span) : Nat := s.lexemes.length

/-- Where the span starts. An empty one starts where it stops. -/
def pos (s : Span) : Nat :=
  match s.lexemes with
  | [] => s.stop
  | l :: _ => l.pos

def first? (s : Span) : Option Token :=
  s.lexemes.head?.map Lexeme.token

def last? (s : Span) : Option Lexeme :=
  s.lexemes.getLast?

/-- The span without its first token. -/
def tail (s : Span) : Span :=
  ⟨s.lexemes.tail, s.stop⟩

/-- The span without its last token, at which it then stops. -/
def dropLast (s : Span) : Span :=
  ⟨s.lexemes.dropLast, (s.lexemes.getLast?.map Lexeme.pos).getD s.stop⟩

end Span

/-! ## 2. Brackets -/

/-- How deep brackets and other parts of an expression may lie in each other. -/
def nestingLimit : Nat := 32

/-- **Which tokens stand outside all brackets.** `opened` holds the brackets open so far with their
    places, the innermost first. -/
def outsideBrackets (opened : List (Bracket × Nat)) : List Lexeme → Except Diagnostic (List Bool)
  | [] =>
    match opened with
    | [] => .ok []
    | (_, pos) :: _ => .error ⟨pos, .unbalancedBrackets⟩
  | l :: ls =>
    match l.token with
    | .opening b =>
      if opened.length ≥ nestingLimit then .error ⟨l.pos, .nestingTooDeep⟩
      else (outsideBrackets ((b, l.pos) :: opened) ls).map (false :: ·)
    | .closing b =>
      match opened with
      | [] => .error ⟨l.pos, .unbalancedBrackets⟩
      | (b', _) :: outer =>
        if b' = b then (outsideBrackets outer ls).map (false :: ·)
        else .error ⟨l.pos, .unbalancedBrackets⟩
    | _ => (outsideBrackets opened ls).map (opened.isEmpty :: ·)

/-- The tokens of a span, each with whether it stands outside all brackets. -/
def Span.marked (s : Span) : Except Diagnostic (List (Lexeme × Bool)) :=
  (outsideBrackets [] s.lexemes).map s.lexemes.zip

/-- What has been found with a function applied to it has been found. -/
theorem exists_of_map_eq_ok {ε α β : Type} {f : α → β} {x : Except ε α} {b : β}
    (h : x.map f = .ok b) : ∃ a, x = .ok a ∧ f a = b := by
  cases x with
  | error e => cases h
  | ok a => exact ⟨a, rfl, Except.ok.inj h⟩

/-- A function applied to what has been found adds no fault. -/
theorem eq_error_of_map {ε α β : Type} {f : α → β} {x : Except ε α} {e : ε}
    (h : x.map f = .error e) : x = .error e := by
  cases x with
  | error e' =>
    cases h
    rfl
  | ok a => cases h

/-- Whether the brackets of some tokens match, `opened` being open before them. -/
def balancedFrom : List Bracket → List Token → Bool
  | opened, [] => opened.isEmpty
  | opened, .opening b :: ts => balancedFrom (b :: opened) ts
  | [], .closing _ :: _ => false
  | b' :: opened, .closing b :: ts => b' = b && balancedFrom opened ts
  | opened, _ :: ts => balancedFrom opened ts

/-- **Whether every bracket has its partner**, properly nested. -/
def balanced (ts : List Token) : Bool :=
  balancedFrom [] ts

/-- Whether the bracket at the front, of either kind, closes at the last token. `depth` brackets
    are open before. -/
def closesLast : (depth : Nat) → List Lexeme → Bool
  | _, [] => false
  | depth, l :: ls =>
    match l.token, depth with
    | .opening _, d => closesLast (d + 1) ls
    | .closing _, 0 => false
    | .closing _, 1 => ls.isEmpty
    | .closing _, d + 1 => closesLast d ls
    | _, d => closesLast d ls

/-- The inside of a span that is one pair of brackets, the first of them of the given kind. -/
def Span.enclosed? (s : Span) (bracket : Bracket) : Option Span :=
  if s.first? = some (.opening bracket) ∧ closesLast 0 s.lexemes then some s.tail.dropLast else none

/-! ## 3. Cutting -/

/-- What stands before the last element with a property, that element, and what stands after. -/
def splitLast {α : Type} (p : α → Bool) : List α → Option (List α × α × List α)
  | [] => none
  | x :: xs =>
    match splitLast p xs with
    | some (before, y, after) => some (x :: before, y, after)
    | none => if p x then some ([], x, xs) else none

theorem splitLast_eq_some {α : Type} {p : α → Bool} : ∀ {xs before after : List α} {y : α},
    splitLast p xs = some (before, y, after) → xs = before ++ y :: after ∧ p y = true
  | [], _, _, _, h => by simp [splitLast] at h
  | x :: xs, before, after, y, h => by
    unfold splitLast at h
    split at h
    · rename_i b z a hs
      cases h
      obtain ⟨e, hp⟩ := splitLast_eq_some hs
      exact ⟨by rw [e]; rfl, hp⟩
    · split at h
      · rename_i hp
        cases h
        exact ⟨rfl, hp⟩
      · cases h

/-- The parts between the commas outside brackets: the first and the others. -/
def commaPartsOf (stop : Nat) : List (Lexeme × Bool) → Span × List Span
  | [] => (⟨[], stop⟩, [])
  | (l, outside) :: ls =>
    let (part, parts) := commaPartsOf stop ls
    if outside && l.token = .comma then (⟨[], l.pos⟩, part :: parts)
    else (⟨l :: part.lexemes, part.stop⟩, parts)

theorem commaPartsOf_length (stop : Nat) : ∀ (ls : List (Lexeme × Bool)) (part : Span),
    (part = (commaPartsOf stop ls).1 ∨ part ∈ (commaPartsOf stop ls).2) → part.length ≤ ls.length
  | [], part, h => by
    rcases h with rfl | h
    · simp [commaPartsOf, Span.length]
    · simp [commaPartsOf] at h
  | (l, outside) :: ls, part, h => by
    have ih := commaPartsOf_length stop ls
    simp only [commaPartsOf] at h
    split at h
    · rcases h with rfl | h
      · simp [Span.length]
      · rcases List.mem_cons.mp h with rfl | h
        · exact Nat.le_succ_of_le (ih _ (.inl rfl))
        · exact Nat.le_succ_of_le (ih _ (.inr h))
    · rcases h with rfl | h
      · exact Nat.succ_le_succ (ih _ (.inl rfl))
      · exact Nat.le_succ_of_le (ih _ (.inr h))

/-- The parts of a span between the commas outside brackets. An empty span has none. -/
def Span.commaParts (s : Span) : Except Diagnostic (List Span) :=
  if s.lexemes.isEmpty then .ok []
  else
    s.marked.map fun ls =>
      let (part, parts) := commaPartsOf s.stop ls
      part :: parts

/-! ## 4. Operators between operands -/

/-- Whether an operand may end with this token. -/
def endsOperand : Token → Bool
  | .int _ | .name _ | .structName _ _ | .closing _ => true
  | _ => false

/-- The operator a token is, if it follows an operand. The name of an intrinsic is not the end of
    one: its operand is still to come. -/
def binaryAt (earlier previous : Option Token) (token : Token) : Option BinaryOp :=
  match token, previous with
  | .operator op, some t =>
    if endsOperand t then
      match earlier, t with
      | some .dollar, .name _ => none
      | _, _ => some op
    else none
  | _, _ => none

/-- For each token the operator it is, if it stands between two operands. The two tokens before
    are given. -/
def binaryMarks : (earlier previous : Option Token) → List Lexeme → List (Option BinaryOp)
  | _, _, [] => []
  | earlier, previous, l :: ls =>
    binaryAt earlier previous l.token :: binaryMarks previous (some l.token) ls

end ByteAtlas
