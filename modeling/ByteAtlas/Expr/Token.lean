import ByteAtlas.Expr.Operator
import ByteAtlas.Expr.Diagnostic

/-!
# Tokens

The text of an expression is cut into tokens; blanks between them carry no meaning.

* A name is a word, or any text between double quotes. A word starts with a letter or an
  underscore; digits and `#` may follow.
* `#` before a name makes it a struct's name, `##` one that is looked for in every file. A lone `#`
  is a token of its own.
* An integer is decimal or, after `0x`, hexadecimal, and wraps around at 64 bits. No word may follow
  it without a blank.
* Of the other symbols the longest that fits is taken.

`scanToken` takes one token off the front of a text, `tokenize` all of them with their byte
positions. What a token takes and what it leaves make up the text (`scanToken_append`), and it takes
something (`scanToken_rest_lt`), so the cutting ends.
-/

namespace ByteAtlas

/-! ## 1. Tokens and their places -/

/-- The two kinds of bracket. -/
inductive Bracket where
  | round
  | square
  deriving DecidableEq, Repr

inductive Token where
  | int (value : Int64)
  | name (text : String)
  | structName (text : String) (isGlobal : Bool)
  | hash
  | operator (op : BinaryOp)
  | tilde
  | assign
  | at
  | dot
  | dollar
  | opening (bracket : Bracket)
  | closing (bracket : Bracket)
  | comma
  deriving DecidableEq, Repr

/-- A token and the byte of the source at which it starts. -/
structure Lexeme where
  token : Token
  pos : Nat
  deriving DecidableEq, Repr

/-- The symbols, those of two characters first. -/
def symbols : List (List Char × Token) :=
  [ (['<', '<'], .operator .shl), (['>', '>'], .operator .shr), (['=', '='], .operator .eq),
    (['!', '='], .operator .ne), (['<', '='], .operator .le), (['>', '='], .operator .ge),
    (['+'], .operator .add), (['-'], .operator .sub), (['*'], .operator .mul),
    (['/'], .operator .div), (['%'], .operator .mod), (['&'], .operator .and),
    (['|'], .operator .or), (['^'], .operator .xor), (['~'], .tilde), (['<'], .operator .lt),
    (['>'], .operator .gt), (['='], .assign), (['@'], .at), (['.'], .dot), (['$'], .dollar),
    (['('], .opening .round), ([')'], .closing .round), (['['], .opening .square),
    ([']'], .closing .square), ([','], .comma) ]

/-! ## 2. Character classes, all of them in ASCII -/

/-- Space, tab, line feed, form feed and carriage return. -/
def isBlank (c : Char) : Bool :=
  c == ' ' || c == '\t' || c == '\n' || c == '\x0c' || c == '\r'

def isWordStart (c : Char) : Bool :=
  c.isAlpha || c == '_'

def isWordChar (c : Char) : Bool :=
  c.isAlphanum || c == '_' || c == '#'

/-- The value of a hexadecimal digit of either case. -/
def hexValue (c : Char) : Nat :=
  if c.isDigit then c.toNat - '0'.toNat
  else if c.toNat ≥ 'a'.toNat then c.toNat - 'a'.toNat + 10
  else c.toNat - 'A'.toNat + 10

def isHexDigit (c : Char) : Bool :=
  c.isDigit || ('a' ≤ c && c ≤ 'f') || ('A' ≤ c && c ≤ 'F')

/-- The number that digits denote in a base, the first digit the most significant. -/
def digitsValue (base : Nat) (ds : List Char) : Nat :=
  ds.foldl (fun n c => n * base + hexValue c) 0

/-- How many bytes a text takes up. -/
def byteLength (cs : List Char) : Nat :=
  cs.foldr (fun c n => c.utf8Size + n) 0

/-! ## 3. One token -/

/-- A token taken off a text: its characters and those left over. -/
structure Scan where
  token : Token
  taken : List Char
  rest : List Char
  deriving Repr

/-- A name at the front of a text. -/
structure ScanName where
  text : String
  taken : List Char
  rest : List Char

/-- The name at the front of a text that starts with a quote or a word. -/
def scanName : List Char → Except Diagnostic ScanName
  | '"' :: cs =>
    let body := cs.takeWhile (· != '"')
    match cs.dropWhile (· != '"') with
    | [] => .error ⟨0, .unterminatedQuote⟩
    | q :: rest => .ok ⟨String.ofList body, '"' :: body ++ [q], rest⟩
  | cs =>
    let word := cs.takeWhile isWordChar
    .ok ⟨String.ofList word, word, cs.dropWhile isWordChar⟩

/-- An integer of which `lead` has been taken and `digits` is the rest: a word must not follow. -/
def scanInt (base : Nat) (lead : List Char) (isDigit : Char → Bool) (cs : List Char) :
    Except Diagnostic Scan :=
  let digits := cs.takeWhile isDigit
  let rest := cs.dropWhile isDigit
  let done : Scan := ⟨.int (Int64.ofNat (digitsValue base digits)), lead ++ digits, rest⟩
  match rest with
  | [] => .ok done
  | c :: _ => if isWordStart c then .error ⟨byteLength done.taken, .unexpectedChar c⟩ else .ok done

/-- An integer after `0x`, which at least one digit must follow. -/
def scanHex (lead cs : List Char) : Except Diagnostic Scan :=
  match cs with
  | [] => .error ⟨byteLength lead, .unexpectedChar 'x'⟩
  | c :: _ =>
    if isHexDigit c then scanInt 16 lead isHexDigit cs
    else .error ⟨byteLength lead, .unexpectedChar c⟩

/-- Whether a name starts here. -/
def startsName : List Char → Bool
  | [] => false
  | c :: _ => isWordStart c || c == '"'

/-- What follows the marks of a struct name. Marks without a name are a lone `#` or an error. -/
def scanStructName (marks : List Char) (isGlobal : Bool) (cs : List Char) :
    Except Diagnostic Scan :=
  if startsName cs then
    match scanName cs with
    | .error d => .error (d.shift (byteLength marks))
    | .ok n =>
      if n.text.isEmpty then .error ⟨0, .badStructName⟩
      else .ok ⟨.structName n.text isGlobal, marks ++ n.taken, n.rest⟩
  else if isGlobal then .error ⟨0, .badStructName⟩
  else .ok ⟨.hash, marks, cs⟩

/-- What is left of a text after another, if it starts with that one. -/
def stripFront : List Char → List Char → Option (List Char)
  | [], cs => some cs
  | _ :: _, [] => none
  | t :: ts, c :: cs => if t = c then stripFront ts cs else none

/-- The first of some symbols that a text starts with. -/
def firstSymbol (cs : List Char) : List (List Char × Token) → Option Scan
  | [] => none
  | (text, token) :: more =>
    match stripFront text cs with
    | some rest => some ⟨token, text, rest⟩
    | none => firstSymbol cs more

/-- The symbol at the front of a text. -/
def scanSymbol (c : Char) (cs : List Char) : Except Diagnostic Scan :=
  match firstSymbol (c :: cs) symbols with
  | some s => .ok s
  | none => .error ⟨0, .unexpectedChar c⟩

/-- **The token at the front of a text that starts with `c`, which is no blank.** -/
def scanToken (c : Char) (cs : List Char) : Except Diagnostic Scan :=
  if c.isDigit then
    match c, cs with
    | '0', 'x' :: ds => scanHex ['0', 'x'] ds
    | '0', 'X' :: ds => scanHex ['0', 'X'] ds
    | _, _ => scanInt 10 [] Char.isDigit (c :: cs)
  else if isWordStart c || c == '"' then
    match scanName (c :: cs) with
    | .error d => .error d
    | .ok n => .ok ⟨.name n.text, n.taken, n.rest⟩
  else if c == '#' then
    match cs with
    | '#' :: ds => scanStructName ['#', '#'] true ds
    | _ => scanStructName ['#'] false cs
  else scanSymbol c cs

/-! ## 4. A token takes something and loses nothing -/

theorem scanName_append {cs : List Char} {n : ScanName} (h : scanName cs = .ok n) :
    n.taken ++ n.rest = cs := by
  unfold scanName at h
  split at h
  · rename_i cs
    split at h
    · cases h
    · rename_i q rest hq
      cases h
      have e := List.takeWhile_append_dropWhile (p := (· != '"')) (l := cs)
      rw [hq] at e
      simpa using e
  · cases h
    exact List.takeWhile_append_dropWhile

theorem scanInt_append {base : Nat} {lead cs : List Char} {p : Char → Bool} {s : Scan}
    (h : scanInt base lead p cs = .ok s) : s.taken ++ s.rest = lead ++ cs := by
  have e : ∀ t : Scan, t = ⟨.int (Int64.ofNat (digitsValue base (cs.takeWhile p))),
      lead ++ cs.takeWhile p, cs.dropWhile p⟩ → t.taken ++ t.rest = lead ++ cs := by
    rintro t rfl
    simp [List.takeWhile_append_dropWhile]
  unfold scanInt at h
  simp only at h
  split at h
  · cases h; exact e _ rfl
  · split at h
    · cases h
    · cases h; exact e _ rfl

theorem scanHex_append {lead cs : List Char} {s : Scan} (h : scanHex lead cs = .ok s) :
    s.taken ++ s.rest = lead ++ cs := by
  unfold scanHex at h
  split at h
  · cases h
  · split at h
    · exact scanInt_append h
    · cases h

theorem scanStructName_append {marks cs : List Char} {g : Bool} {s : Scan}
    (h : scanStructName marks g cs = .ok s) : s.taken ++ s.rest = marks ++ cs := by
  unfold scanStructName at h
  split at h
  · split at h
    · cases h
    · rename_i n hn
      split at h
      · cases h
      · cases h
        simp [scanName_append hn]
  · split at h
    · cases h
    · cases h; rfl

theorem stripFront_eq_some : ∀ {text cs rest : List Char},
    stripFront text cs = some rest → text ++ rest = cs
  | [], _, _, h => by simpa [stripFront] using h.symm
  | _ :: _, [], _, h => by simp [stripFront] at h
  | t :: ts, c :: cs, rest, h => by
    unfold stripFront at h
    split at h
    · rename_i e
      subst e
      simp [stripFront_eq_some h]
    · cases h

theorem firstSymbol_eq_some {cs : List Char} {s : Scan} :
    ∀ {table : List (List Char × Token)}, firstSymbol cs table = some s →
      s.taken ++ s.rest = cs ∧ (s.taken, s.token) ∈ table
  | [], h => by simp [firstSymbol] at h
  | (text, token) :: more, h => by
    unfold firstSymbol at h
    split at h
    · rename_i rest hr
      cases h
      exact ⟨stripFront_eq_some hr, List.mem_cons_self⟩
    · obtain ⟨h₁, h₂⟩ := firstSymbol_eq_some h
      exact ⟨h₁, List.mem_cons_of_mem _ h₂⟩

theorem scanSymbol_append {c : Char} {cs : List Char} {s : Scan} (h : scanSymbol c cs = .ok s) :
    s.taken ++ s.rest = c :: cs := by
  unfold scanSymbol at h
  split at h
  · rename_i t ht
    cases h
    exact (firstSymbol_eq_some ht).1
  · cases h

/-- **What a token takes and what it leaves make up the text.** -/
theorem scanToken_append {c : Char} {cs : List Char} {s : Scan} (h : scanToken c cs = .ok s) :
    s.taken ++ s.rest = c :: cs := by
  unfold scanToken at h
  split at h
  · split at h
    · exact scanHex_append h
    · exact scanHex_append h
    · exact scanInt_append h
  · split at h
    · split at h
      · cases h
      · rename_i n hn
        cases h
        exact scanName_append hn
    · split at h
      · rename_i hc
        have hc : c = '#' := by simpa using hc
        subst hc
        split at h
        · exact scanStructName_append h
        · exact scanStructName_append h
      · exact scanSymbol_append h

theorem scanName_taken_ne {c : Char} {cs : List Char} {n : ScanName}
    (hc : (isWordStart c || c == '"') = true) (h : scanName (c :: cs) = .ok n) : n.taken ≠ [] := by
  unfold scanName at h
  split at h
  · split at h
    · cases h
    · cases h; simp
  · rename_i hq
    cases h
    have hw : isWordStart c = true := by
      rcases Bool.or_eq_true_iff.mp hc with h | h
      · exact h
      · have : c = '"' := by simpa using h
        subst this
        exact absurd rfl (hq cs)
    have hw' : isWordChar c = true := by
      simp only [isWordStart, isWordChar, Char.isAlphanum, Bool.or_eq_true] at hw ⊢
      rcases hw with h | h
      · exact .inl (.inl (.inl h))
      · exact .inl (.inr h)
    simp [hw']

theorem scanInt_taken_ne {base : Nat} {lead cs : List Char} {p : Char → Bool} {s : Scan}
    (hne : lead ++ cs.takeWhile p ≠ []) (h : scanInt base lead p cs = .ok s) : s.taken ≠ [] := by
  unfold scanInt at h
  simp only at h
  split at h
  · cases h; exact hne
  · split at h
    · cases h
    · cases h; exact hne

theorem scanHex_taken_ne {x y : Char} {cs : List Char} {s : Scan}
    (h : scanHex [x, y] cs = .ok s) : s.taken ≠ [] := by
  unfold scanHex at h
  split at h
  · cases h
  · split at h
    · exact scanInt_taken_ne (by simp) h
    · cases h

theorem scanStructName_taken_ne {x : Char} {xs cs : List Char} {g : Bool} {s : Scan}
    (h : scanStructName (x :: xs) g cs = .ok s) : s.taken ≠ [] := by
  unfold scanStructName at h
  split at h
  · split at h
    · cases h
    · split at h
      · cases h
      · cases h; simp
  · split at h
    · cases h
    · cases h; simp

theorem scanSymbol_taken_ne {c : Char} {cs : List Char} {s : Scan}
    (h : scanSymbol c cs = .ok s) : s.taken ≠ [] := by
  unfold scanSymbol at h
  split at h
  · rename_i t ht
    cases h
    have all : ∀ p ∈ symbols, p.1 ≠ [] := by decide
    exact all _ (firstSymbol_eq_some ht).2
  · cases h

/-- A token takes at least one character. -/
theorem scanToken_taken_ne {c : Char} {cs : List Char} {s : Scan} (h : scanToken c cs = .ok s) :
    s.taken ≠ [] := by
  unfold scanToken at h
  split at h
  · rename_i hd
    split at h
    · exact scanHex_taken_ne h
    · exact scanHex_taken_ne h
    · exact scanInt_taken_ne (by simp [hd]) h
  · split at h
    · rename_i hc
      split at h
      · cases h
      · rename_i n hn
        cases h
        exact scanName_taken_ne hc hn
    · split at h
      · split at h
        · exact scanStructName_taken_ne h
        · exact scanStructName_taken_ne h
      · exact scanSymbol_taken_ne h

/-- **A token leaves less than the text.** -/
theorem scanToken_rest_lt {c : Char} {cs : List Char} {s : Scan} (h : scanToken c cs = .ok s) :
    s.rest.length < cs.length + 1 := by
  have e := congrArg List.length (scanToken_append h)
  have := List.length_pos_iff.mpr (scanToken_taken_ne h)
  simp only [List.length_append, List.length_cons] at e
  omega

/-! ## 5. All tokens -/

/-- The tokens of a text that starts at byte `pos`, after those in `done`, which are in reverse. -/
def tokenizeFrom (pos : Nat) (cs : List Char) (done : List Lexeme) :
    Except Diagnostic (List Lexeme) :=
  match cs with
  | [] => .ok done.reverse
  | c :: cs =>
    if isBlank c then tokenizeFrom (pos + c.utf8Size) cs done
    else
      match _h : scanToken c cs with
      | .error d => .error (d.shift pos)
      | .ok s => tokenizeFrom (pos + byteLength s.taken) s.rest (⟨s.token, pos⟩ :: done)
termination_by cs.length
decreasing_by
  · simp
  · simpa using scanToken_rest_lt _h

/-- **The tokens of a text with their byte positions**, or the first thing that is no token. -/
def tokenize (source : String) : Except Diagnostic (List Lexeme) :=
  tokenizeFrom 0 source.toList []

end ByteAtlas
