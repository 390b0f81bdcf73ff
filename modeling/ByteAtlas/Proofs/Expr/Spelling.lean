import Mathlib
import ByteAtlas.Proofs.Expr.Rendering

/-!
# What a written expression is cut into

`Spells cs ts` says that the text `cs` is cut into the tokens `ts`, at whatever byte it starts and
whatever tokens come before. A token in front of a text keeps its place as long as the text does not
go on with it: a literal must not be followed by a digit or a word (`stops`), a word not by a
character of words.

The text of an expression spells its tokens (`Expr.spells_render`): the induction is on the tree,
with the text and the tokens that follow left open.
-/

namespace ByteAtlas

/-! ## 1. Texts and their tokens -/

/-- Whether a text is cut into some tokens. -/
def Spells (cs : List Char) (ts : List Token) : Prop :=
  ∀ pos done, ∃ ls,
    tokenizeFrom pos cs done = .ok (done.reverse ++ ls) ∧ ls.map Lexeme.token = ts

theorem spells_nil : Spells [] [] := by
  intro pos done
  refine ⟨[], ?_, rfl⟩
  rw [tokenizeFrom, List.append_nil]

/-- A blank in front changes nothing. -/
theorem Spells.blank {c : Char} {cs : List Char} {ts : List Token} (hc : isBlank c = true)
    (h : Spells cs ts) : Spells (c :: cs) ts := by
  intro pos done
  obtain ⟨ls, hl, ht⟩ := h (pos + c.utf8Size) done
  refine ⟨ls, ?_, ht⟩
  rw [tokenizeFrom, if_pos hc]
  exact hl

/-- **A token in front of a text.** -/
theorem Spells.token {c : Char} {cs : List Char} {s : Scan} {ts : List Token}
    (hc : isBlank c = false) (hs : scanToken c cs = .ok s) (h : Spells s.rest ts) :
    Spells (c :: cs) (s.token :: ts) := by
  intro pos done
  obtain ⟨ls, hl, ht⟩ := h (pos + byteLength s.taken) (⟨s.token, pos⟩ :: done)
  refine ⟨⟨s.token, pos⟩ :: ls, ?_, by simp [ht]⟩
  rw [tokenizeFrom, if_neg (by simp [hc])]
  split
  · rename_i d hd
    rw [hs] at hd
    cases hd
  · rename_i s' hs'
    rw [hs] at hs'
    cases hs'
    rw [hl]
    simp

/-- A text that spells some tokens is cut into them. -/
theorem Spells.tokenize {source : String} {ts : List Token} (h : Spells source.toList ts) :
    ∃ ls, tokenize source = .ok ls ∧ ls.map Lexeme.token = ts := by
  obtain ⟨ls, hl, ht⟩ := h 0 []
  exact ⟨ls, by simpa [ByteAtlas.tokenize] using hl, ht⟩

/-! ## 2. Single tokens -/

/-- Whether a literal ends before a text. -/
def stops : List Char → Bool
  | [] => true
  | c :: _ => !c.isDigit && !isWordStart c

/-- Whether a word ends before a text. -/
def endsWord : List Char → Bool
  | [] => true
  | c :: _ => !isWordChar c

/-- Whether a text is a word. -/
def isWord (text : String) : Bool :=
  match text.toList with
  | [] => false
  | c :: _ => isWordStart c && text.toList.all isWordChar

/-- A symbol, given that it is the first that fits. -/
theorem Spells.symbol {c : Char} {cs rest taken : List Char} {t : Token} {ts : List Token}
    (hs : scanSymbol c cs = .ok ⟨t, taken, rest⟩)
    (hc : (isBlank c || c.isDigit || isWordStart c || c == '"' || c == '#') = false)
    (h : Spells rest ts) : Spells (c :: cs) (t :: ts) := by
  simp only [Bool.or_eq_false_iff] at hc
  obtain ⟨⟨⟨⟨hb, hd⟩, hw⟩, hq⟩, hh⟩ := hc
  have hs' : scanToken c cs = .ok ⟨t, taken, rest⟩ := by
    simp [scanToken, hd, hw, hq, hh, hs]
  exact .token hb hs' h

section

variable {cs : List Char} {ts : List Token}

theorem Spells.openRound (h : Spells cs ts) : Spells ('(' :: cs) (.opening .round :: ts) :=
  .symbol rfl (by decide) h

theorem Spells.closeRound (h : Spells cs ts) : Spells (')' :: cs) (.closing .round :: ts) :=
  .symbol rfl (by decide) h

theorem Spells.openSquare (h : Spells cs ts) : Spells ('[' :: cs) (.opening .square :: ts) :=
  .symbol rfl (by decide) h

theorem Spells.closeSquare (h : Spells cs ts) : Spells (']' :: cs) (.closing .square :: ts) :=
  .symbol rfl (by decide) h

theorem Spells.comma (h : Spells cs ts) : Spells (',' :: cs) (.comma :: ts) :=
  .symbol rfl (by decide) h

theorem Spells.dot (h : Spells cs ts) : Spells ('.' :: cs) (.dot :: ts) :=
  .symbol rfl (by decide) h

theorem Spells.at (h : Spells cs ts) : Spells ('@' :: cs) (.at :: ts) :=
  .symbol rfl (by decide) h

theorem Spells.dollar (h : Spells cs ts) : Spells ('$' :: cs) (.dollar :: ts) :=
  .symbol rfl (by decide) h

theorem Spells.unary (op : UnaryOp) (h : Spells cs ts) :
    Spells (op.symbol.toList ++ cs) (op.token :: ts) := by
  cases op <;> exact .symbol rfl (by decide) h

/-- A binary operator with a blank after it, so that it does not run into the next symbol. -/
theorem Spells.binary (op : BinaryOp) (h : Spells cs ts) :
    Spells (op.symbol.toList ++ ' ' :: cs) (.operator op :: ts) := by
  have h' : Spells (' ' :: cs) ts := h.blank rfl
  cases op <;> exact .symbol rfl (by decide) h'

/-- The equals sign of a filter, with a blank after it. -/
theorem Spells.assign (h : Spells cs ts) : Spells ('=' :: ' ' :: cs) (.assign :: ts) :=
  .symbol rfl (by decide) (h.blank rfl)

/-- The mark of a selector, with a blank after it. -/
theorem Spells.hash (h : Spells cs ts) : Spells ('#' :: ' ' :: cs) (.hash :: ts) := by
  have hs : scanToken '#' (' ' :: cs) = .ok ⟨.hash, ['#'], ' ' :: cs⟩ := rfl
  exact .token (by decide) hs (h.blank rfl)

theorem takeWhile_quotable {text : String} (hq : isQuotable text = true) (cs : List Char) :
    (text.toList ++ '"' :: cs).takeWhile (· != '"') = text.toList ∧
      (text.toList ++ '"' :: cs).dropWhile (· != '"') = '"' :: cs := by
  have hall : ∀ c ∈ text.toList, (c != '"') = true := List.all_eq_true.mp hq
  rw [List.takeWhile_append_of_pos hall, List.dropWhile_append_of_pos hall]
  simp

theorem scanName_quoted {text : String} (hq : isQuotable text = true) (cs : List Char) :
    scanName ('"' :: (text.toList ++ '"' :: cs)) =
      .ok ⟨text, '"' :: (text.toList ++ ['"']), cs⟩ := by
  obtain ⟨ht, hd⟩ := takeWhile_quotable hq cs
  simp [scanName, ht, hd]

/-- A name between quotes. -/
theorem Spells.name {text : String} (hq : isQuotable text = true) (h : Spells cs ts) :
    Spells ((quoted text).toList ++ cs) (.name text :: ts) := by
  have hs : scanToken '"' (text.toList ++ '"' :: cs) =
      .ok ⟨.name text, '"' :: (text.toList ++ ['"']), cs⟩ := by
    unfold scanToken
    rw [if_neg (by decide), if_pos (by decide), scanName_quoted hq]
  simpa [quoted] using Spells.token (by decide) hs h

theorem isEmpty_eq_false_of_ne {text : String} (hne : (!text.isEmpty) = true) :
    text.isEmpty = false := by
  simpa using hne

/-- The name of a struct. -/
theorem Spells.structName {text : String} (isGlobal : Bool) (hq : isQuotable text = true)
    (hne : (!text.isEmpty) = true) (h : Spells cs ts) :
    Spells ((if isGlobal then "##" else "#").toList ++ ((quoted text).toList ++ cs))
      (.structName text isGlobal :: ts) := by
  have hs (marks : List Char) : scanStructName marks isGlobal ('"' :: (text.toList ++ '"' :: cs)) =
      .ok ⟨.structName text isGlobal, marks ++ '"' :: (text.toList ++ ['"']), cs⟩ := by
    unfold scanStructName
    rw [if_pos (by simp [startsName]), scanName_quoted hq]
    simp [isEmpty_eq_false_of_ne hne]
  cases isGlobal with
  | false =>
    have hs' : scanToken '#' ('"' :: (text.toList ++ '"' :: cs)) = _ := hs ['#']
    simpa [quoted] using Spells.token (by decide) hs' h
  | true =>
    have hs' : scanToken '#' ('#' :: '"' :: (text.toList ++ '"' :: cs)) = _ := hs ['#', '#']
    simpa [quoted] using Spells.token (by decide) hs' h

theorem isDigit_eq_false_of_isWordStart {c : Char} (hc : isWordStart c = true) :
    c.isDigit = false := by
  simp only [isWordStart, Char.isAlpha, Char.isUpper, Char.isLower, Bool.or_eq_true,
    beq_iff_eq] at hc
  rcases hc with hc | rfl
  · simp only [Char.isDigit]
    grind
  · decide

/-- A character with which no word starts is told from those with which one does. -/
theorem ne_of_isWordStart {c x : Char} (hc : isWordStart c = true) (hx : isWordStart x = false) :
    c ≠ x := by
  rintro rfl
  rw [hc] at hx
  cases hx

theorem isBlank_eq_false_of_isWordStart {c : Char} (hc : isWordStart c = true) :
    isBlank c = false := by
  have hne (x : Char) (hx : isWordStart x = false) : (c == x) = false :=
    beq_eq_false_iff_ne.mpr (ne_of_isWordStart hc hx)
  simp only [isBlank, hne ' ' (by decide), hne '\t' (by decide), hne '\n' (by decide),
    hne '\x0c' (by decide), hne '\r' (by decide), Bool.or_self]

theorem scanName_word {w : List Char} (hq : ∀ c ∈ w.head?, isWordStart c = true)
    (hw : ∀ x ∈ w, isWordChar x = true) (hne : w ≠ []) (hcs : endsWord cs = true) :
    scanName (w ++ cs) = .ok ⟨String.ofList w, w, cs⟩ := by
  have hend : cs.takeWhile isWordChar = [] ∧ cs.dropWhile isWordChar = cs := by
    cases cs with
    | nil => simp
    | cons x xs =>
      have hx : isWordChar x = false := by simpa [endsWord] using hcs
      simp [hx]
  have htake : (w ++ cs).takeWhile isWordChar = w := by
    rw [List.takeWhile_append_of_pos hw, hend.1, List.append_nil]
  have hdrop : (w ++ cs).dropWhile isWordChar = cs := by
    rw [List.dropWhile_append_of_pos hw, hend.2]
  unfold scanName
  split
  · rename_i he
    cases w with
    | nil => exact absurd rfl hne
    | cons c w =>
      have hc : c = '"' := (List.cons.inj he).1
      exact absurd hc (ne_of_isWordStart (hq c rfl) (by decide))
  · simp only [htake, hdrop]

/-- A word. -/
theorem Spells.word {text : String} (hw : isWord text = true) (hcs : endsWord cs = true)
    (h : Spells cs ts) : Spells (text.toList ++ cs) (.name text :: ts) := by
  unfold isWord at hw
  cases hl : text.toList with
  | nil =>
    rw [hl] at hw
    cases hw
  | cons c w =>
    rw [hl] at hw
    simp only [Bool.and_eq_true, List.all_eq_true] at hw
    have hname := scanName_word (w := c :: w) (by simpa using hw.1) hw.2 (by simp) hcs
    have htext : String.ofList (c :: w) = text := by rw [← hl, String.ofList_toList]
    have hs : scanToken c (w ++ cs) = .ok ⟨.name text, c :: w, cs⟩ := by
      unfold scanToken
      rw [if_neg (by simp [isDigit_eq_false_of_isWordStart hw.1]), if_pos (by simp [hw.1]),
        ← List.cons_append, hname, htext]
    exact .token (isBlank_eq_false_of_isWordStart hw.1) hs h

end

/-! ## 3. Literals -/

theorem digitsValue_append (base : Nat) (ds : List Char) (c : Char) :
    digitsValue base (ds ++ [c]) = digitsValue base ds * base + hexValue c := by
  simp [digitsValue, List.foldl_append]

theorem hexValue_digitChar {d : Nat} (hd : d < 10) : hexValue d.digitChar = d := by
  have all : ∀ d : Fin 10, hexValue (Nat.digitChar d) = d := by decide
  exact all ⟨d, hd⟩

/-- **The decimal digits of a number denote it.** -/
theorem digitsValue_toDigits (k : Nat) : digitsValue 10 (Nat.toDigits 10 k) = k := by
  induction k using Nat.strongRecOn with
  | ind k ih =>
    rw [Nat.toDigits_eq_if (by decide)]
    split
    · rename_i hk
      simpa [digitsValue] using hexValue_digitChar hk
    · rename_i hk
      rw [digitsValue_append, ih (k / 10) (by omega), hexValue_digitChar (by omega)]
      omega

theorem isDigit_of_mem_digits {k : Nat} {c : Char} (hc : c ∈ Nat.toDigits 10 k) :
    c.isDigit = true :=
  Nat.isDigit_of_mem_toDigits (by decide) (by decide) hc

section

variable {cs : List Char} {ts : List Token}

theorem stops_cons {c : Char} : stops (c :: cs) = (!c.isDigit && !isWordStart c) := rfl

/-- Digits up to the end of a literal are an integer. -/
theorem scanInt_digits {ds : List Char} (hd : ∀ c ∈ ds, c.isDigit = true) (hcs : stops cs = true) :
    scanInt 10 [] Char.isDigit (ds ++ cs) =
      .ok ⟨.int (Int64.ofNat (digitsValue 10 ds)), ds, cs⟩ := by
  unfold scanInt
  simp only [List.takeWhile_append_of_pos hd, List.dropWhile_append_of_pos hd]
  cases cs with
  | nil => simp
  | cons c cs =>
    simp only [stops, Bool.and_eq_true, Bool.not_eq_true'] at hcs
    simp [hcs.1, hcs.2]

theorem isBlank_eq_false_of_isDigit {c : Char} (hc : c.isDigit = true) : isBlank c = false := by
  have hne (x : Char) (hx : x.isDigit = false) : (c == x) = false := by
    refine beq_eq_false_iff_ne.mpr ?_
    rintro rfl
    rw [hc] at hx
    cases hx
  simp only [isBlank, hne ' ' (by decide), hne '\t' (by decide), hne '\n' (by decide),
    hne '\x0c' (by decide), hne '\r' (by decide), Bool.or_self]

/-- Digits followed by neither of the two letters `x` are no hexadecimal literal. -/
theorem scanToken_digit {c : Char} (hc : c.isDigit = true) (hx : ∀ ds, cs ≠ 'x' :: ds)
    (hX : ∀ ds, cs ≠ 'X' :: ds) : scanToken c cs = scanInt 10 [] Char.isDigit (c :: cs) := by
  unfold scanToken
  rw [if_pos hc]
  split
  · rename_i ds
    exact absurd rfl (hx ds)
  · rename_i ds
    exact absurd rfl (hX ds)
  · rfl

/-- What follows a digit of a literal is a digit or the end of the literal. -/
theorem append_ne_cons {ds : List Char} {x : Char} (hd : ∀ c ∈ ds, c.isDigit = true)
    (hcs : stops cs = true) (hx : x.isDigit = false) (hw : isWordStart x = true)
    (rest : List Char) : ds ++ cs ≠ x :: rest := by
  intro e
  cases ds with
  | nil =>
    rw [List.nil_append] at e
    rw [e, stops_cons, hw] at hcs
    simp at hcs
  | cons d ds =>
    have hdx : d = x := (List.cons.inj e).1
    have := hd d List.mem_cons_self
    rw [hdx, hx] at this
    cases this

/-- An integer in unsigned decimals. -/
theorem Spells.int (n : Int64) (hcs : stops cs = true) (h : Spells cs ts) :
    Spells ((toString n.toUInt64.toNat).toList ++ cs) (.int n :: ts) := by
  have htext : (toString n.toUInt64.toNat).toList = Nat.toDigits 10 n.toUInt64.toNat := by
    rw [Nat.toString_eq_ofList_toDigits, String.toList_ofList]
  have hvalue : Int64.ofNat n.toUInt64.toNat = n := by
    simp [Int64.ofNat]
  rw [htext]
  cases hds : Nat.toDigits 10 n.toUInt64.toNat with
  | nil => exact absurd hds Nat.toDigits_ne_nil
  | cons d ds =>
    have hall : ∀ c ∈ d :: ds, c.isDigit = true := by
      rw [← hds]
      exact fun c hc => isDigit_of_mem_digits hc
    have hd : d.isDigit = true := hall d List.mem_cons_self
    have htail : ∀ c ∈ ds, c.isDigit = true := fun c hc => hall c (List.mem_cons_of_mem d hc)
    have hs : scanToken d (ds ++ cs) = .ok ⟨.int n, d :: ds, cs⟩ := by
      rw [scanToken_digit hd (append_ne_cons htail hcs (by decide) (by decide))
        (append_ne_cons htail hcs (by decide) (by decide)), ← List.cons_append,
        scanInt_digits hall hcs, ← hds, digitsValue_toDigits, hvalue]
    exact .token (isBlank_eq_false_of_isDigit hd) hs h

end

/-! ## 4. Trees -/

/-- Whether a text, wherever a literal may end after it, is cut into some glyphs' tokens. -/
def SpelledBy (gs : List Glyph) (text : String) : Prop :=
  ∀ cs ts, stops cs = true → Spells cs ts → Spells (text.toList ++ cs) (tokensOf gs ++ ts)

theorem SpelledBy.roundIf {gs : List Glyph} {text : String} (needed : Bool)
    (h : SpelledBy gs text) : SpelledBy (groupIf needed gs) (roundIf needed text) := by
  cases needed with
  | false => exact h
  | true =>
    intro cs ts _ hs
    have hin : Spells (text.toList ++ ')' :: cs) (tokensOf gs ++ .closing .round :: ts) :=
      h _ _ rfl hs.closeRound
    simpa [ByteAtlas.roundIf, groupIf, inBrackets, tokensOf, Glyph.plain] using hin.openRound

/-- Texts with commas between them are cut into their tokens with commas between. -/
theorem SpelledBy.commaJoined {gss : List (List Glyph)} {texts : List String}
    (h : List.Forall₂ SpelledBy gss texts) :
    SpelledBy (ByteAtlas.commaJoined gss) (joinedBy ", " texts) := by
  induction h with
  | nil =>
    intro cs ts _ hs
    simpa [ByteAtlas.commaJoined, joinedBy, tokensOf] using hs
  | @cons gs text gss texts hg hrest ih =>
    cases hrest with
    | nil => exact hg
    | cons hg' hrest' =>
      intro cs ts hc hs
      have hin := hg _ _ rfl (Spells.comma ((ih cs ts hc hs).blank (c := ' ') rfl))
      simpa [ByteAtlas.commaJoined, joinedBy, tokensOf, Glyph.plain] using hin

/-- The filters of a step, in their brackets. -/
theorem SpelledBy.filters {gss : List (List Glyph)} {texts : List String}
    (h : List.Forall₂ SpelledBy gss texts) :
    SpelledBy (inBrackets .square (ByteAtlas.commaJoined gss))
        ("[" ++ joinedBy ", " texts ++ "]") := by
  intro cs ts _ hs
  have hin := SpelledBy.commaJoined h _ _ rfl hs.closeSquare
  simpa [inBrackets, tokensOf, Glyph.plain] using hin.openSquare

/-- A member after the steps of a query. -/
theorem SpelledBy.member {gs : List Glyph} {steps name : String} (isOffset : Bool)
    (hq : isQuotable name = true)
    (h : ∀ cs ts, Spells cs ts → Spells (steps.toList ++ cs) (tokensOf gs ++ ts)) :
    SpelledBy (memberGlyphs isOffset gs name) (memberText isOffset steps name) := by
  intro cs ts _ hs
  have hin := h _ _ (Spells.name hq hs)
  cases isOffset with
  | false => simpa [memberGlyphs, memberText, tokensOf, Glyph.plain] using hin
  | true => simpa [memberGlyphs, memberText, tokensOf, Glyph.plain] using hin.at

/-- The steps in front of a member, with the dot after them. -/
theorem SpelledBy.steps {gs : List Glyph} {text : String} (h : SpelledBy gs text)
    (cs : List Char) (ts : List Token) (hs : Spells cs ts) :
    Spells ((text ++ ".").toList ++ cs) (tokensOf (gs ++ [.plain .dot]) ++ ts) := by
  simpa [tokensOf, Glyph.plain] using h _ _ rfl hs.dot

/-- An intrinsic with its arguments. -/
theorem SpelledBy.call {gs : List Glyph} {name args : String} (hw : isWord name = true)
    (h : SpelledBy gs args) : SpelledBy (callGlyphs name gs) (callText name args) := by
  intro cs ts _ hs
  have hin := h _ _ rfl hs.closeRound
  have hname := Spells.word hw rfl hin.openRound
  simpa [callGlyphs, callText, inBrackets, tokensOf, Glyph.plain] using hname.dollar

/-- Two arguments. -/
theorem SpelledBy.pair {gs gs' : List Glyph} {a b : String} (ha : SpelledBy gs a)
    (hb : SpelledBy gs' b) :
    SpelledBy (ByteAtlas.commaJoined [gs, gs']) (joinedBy ", " [a, b]) :=
  .commaJoined (.cons ha (.cons hb .nil))

theorem SpelledBy.name {text : String} (hq : isQuotable text = true) :
    SpelledBy [.plain (.name text)] (quoted text) := by
  intro cs ts _ hs
  simpa [tokensOf, Glyph.plain] using Spells.name hq hs

/-- A filter, given its head. -/
theorem SpelledBy.filter {gs : List Glyph} {head : Token} {text value : String}
    (hh : ∀ cs ts, Spells cs ts → Spells (text.toList ++ ' ' :: cs) (head :: ts))
    (h : SpelledBy gs value) :
    SpelledBy (filterGlyphs head gs) (text ++ " = " ++ value) := by
  intro cs ts hc hs
  have hin := hh _ _ (h _ _ hc hs).assign
  simpa [filterGlyphs, tokensOf, Glyph.plain] using hin

theorem SpelledBy.text {c : TextCondition} (hf : isQuotable c.field = true)
    (ht : isQuotable c.text = true) :
    SpelledBy c.glyphs (quoted c.field ++ " = " ++ quoted c.text) :=
  .filter (fun _ _ hs => Spells.name hf (hs.blank rfl)) (.name ht)

theorem isWord_previewTestName (invert : Bool) : isWord (previewTestName invert) = true := by
  cases invert <;> decide

theorem IntType.isWord_name (t : IntType) : isWord t.name = true := by
  cases t <;> decide

/-- A raw read: the name of its type, a blank, and where it reads. -/
theorem SpelledBy.rawRead {gs : List Glyph} {text : String} (t : IntType)
    (h : SpelledBy gs text) :
    SpelledBy (.plain .dollar :: .plain (.name t.name) :: gs) ("$" ++ t.name ++ " " ++ text) := by
  intro cs ts hc hs
  have hin : Spells (' ' :: (text.toList ++ cs)) (tokensOf gs ++ ts) := (h _ _ hc hs).blank rfl
  have hword := Spells.word t.isWord_name rfl hin
  simpa [tokensOf, Glyph.plain] using hword.dollar

mutual

/-- **The text of a tree spells its tokens.** -/
theorem Expr.spells_render : ∀ e : Expr, e.isWritable = true → SpelledBy e.glyphs e.render
  | .constant n, _ => fun cs ts hc hs => Spells.int n hc hs
  | .unary op a, h => by
    have ha := (Expr.spells_render a h).roundIf (a.strength < operandStrength)
    intro cs ts hc hs
    have hin := Spells.unary op (ha _ _ hc hs)
    simpa [Expr.glyphs, Expr.render, tokensOf, Glyph.plain] using hin
  | .binary op a b, h => by
    simp only [Expr.isWritable, Bool.and_eq_true] at h
    have ha := (Expr.spells_render a h.1).roundIf (a.strength < op.score)
    have hb := (Expr.spells_render b h.2).roundIf (b.strength ≤ op.score)
    intro cs ts hc hs
    have hright : Spells (' ' :: (op.symbol.toList ++ ' ' :: _)) _ :=
      (Spells.binary op (hb _ _ hc hs)).blank rfl
    have hin := ha _ _ rfl hright
    simpa [Expr.glyphs, Expr.render, tokensOf, Glyph.binary] using hin
  | .rawRead t a, h => by
    have ha := (Expr.spells_render a h).roundIf (a.strength < operandStrength)
    exact ha.rawRead t
  | .member q name i isOffset, h => by
    obtain ⟨hn, hq, hi⟩ := Expr.isWritable_member h
    unfold Expr.glyphs Expr.render
    cases i with
    | none =>
      refine .member isOffset hn ?_
      cases q with
      | none => exact fun cs ts hs => hs
      | some q => exact (Query.spells_render q (hq q rfl)).steps
    | some e =>
      refine .call (by decide) (.pair (.member isOffset hn ?_) (Expr.spells_render e (hi e rfl)))
      cases q with
      | none => exact fun cs ts hs => hs
      | some q => exact (Query.spells_render q (hq q rfl)).steps
  | .structOffset q, h => by
    have hq := Query.spells_render q h
    intro cs ts hc hs
    simpa [Expr.glyphs, Expr.render, tokensOf, Glyph.plain] using (hq _ _ hc hs).at
  | .previewTest q name text invert, h => by
    obtain ⟨hn, ht, hq⟩ := Expr.isWritable_previewTest h
    unfold Expr.glyphs Expr.render
    refine .call (isWord_previewTestName invert) (.pair (.member false hn ?_) (.name ht))
    cases q with
    | none => exact fun cs ts hs => hs
    | some q => exact (Query.spells_render q (hq q rfl)).steps
  | .instanceId q, h => by
    have hq := Expr.isWritable_instanceId h
    unfold Expr.glyphs Expr.render
    refine .call (by decide) ?_
    cases q with
    | none => exact fun cs ts _ hs => hs
    | some q => exact Query.spells_render q (hq q rfl)

/-- The text of a query spells its tokens. -/
theorem Query.spells_render : ∀ q : Query, q.isWritable = true → SpelledBy q.glyphs q.render
  | .root name isGlobal fs, h => by
    obtain ⟨hn, hne, hfs⟩ := Query.isWritable_root h
    have hin := SpelledBy.filters (Filters.spells_render fs hfs)
    intro cs ts hc hs
    have hname := Spells.structName isGlobal hn hne (hin _ _ hc hs)
    simpa [Query.glyphs, Query.render, tokensOf, Glyph.plain] using hname
  | .sub p name fs, h => by
    obtain ⟨hp, hn, hfs⟩ := Query.isWritable_sub h
    have hin := SpelledBy.filters (Filters.spells_render fs hfs)
    intro cs ts hc hs
    have hname := Spells.name hn (hin _ _ hc hs)
    cases p with
    | none => simpa [Query.glyphs, Query.render, tokensOf, Glyph.plain] using hname
    | some p =>
      have hparent := (Query.spells_render p (hp p rfl)).steps _ _ hname
      simpa [Query.glyphs, Query.render, tokensOf, Glyph.plain] using hparent

/-- The texts of filters spell their tokens. -/
theorem Filters.spells_render : ∀ fs : Filters, fs.isWritable = true →
    List.Forall₂ SpelledBy fs.glyphs fs.render
  | .mk texts values selector, h => by
    obtain ⟨ht, hv, hs⟩ := Filters.isWritable_mk h
    have htexts : List.Forall₂ SpelledBy (texts.map TextCondition.glyphs)
        (texts.map fun c => quoted c.field ++ " = " ++ quoted c.text) := by
      rw [List.forall₂_map_left_iff, List.forall₂_map_right_iff, List.forall₂_same]
      exact fun c hc => .text (ht c hc).1 (ht c hc).2
    have hvalues := valuesSpell_render values hv
    unfold Filters.glyphs Filters.render
    refine List.rel_append (List.rel_append htexts hvalues) ?_
    cases selector with
    | none => exact .nil
    | some e =>
      have he : SpelledBy (filterGlyphs .hash e.glyphs) ("#" ++ " = " ++ e.render) :=
        .filter (fun _ _ hs => hs.hash) (Expr.spells_render e (hs e rfl))
      exact .cons he .nil

/-- The texts of the filters on values spell their tokens. -/
theorem valuesSpell_render : ∀ vs : List (String × Expr), valuesWritable vs = true →
    List.Forall₂ SpelledBy (valuesGlyphs vs) (renderValues vs)
  | [], _ => .nil
  | (name, e) :: vs, h => by
    obtain ⟨hn, hne, he, hvs⟩ := valuesWritable_cons h
    refine .cons (.filter (fun cs ts hs => ?_) (Expr.spells_render e he))
      (valuesSpell_render vs hvs)
    have hname := Spells.structName false hn hne (hs.blank (c := ' ') rfl)
    simpa using hname

end

end ByteAtlas
