import ByteAtlas.Proofs.Expr.Adjacent

/-!
# Tokens written down

A token can be written in several ways: an integer in decimals or hexadecimal digits, with zeros in
front, a name as a word or between quotes (`TokenText`). Written with blanks between them, tokens
are read back, each at its first byte, whatever they are and whatever stands next to them
(`tokenize_texts`).
-/

namespace ByteAtlas

/-! ## 1. The number that digits denote -/

theorem digitsValue_eq_ofDigits (base : Nat) (ds : List Char) :
    digitsValue base ds = Nat.ofDigits base (ds.reverse.map hexValue) := by
  induction ds using List.reverseRecOn with
  | nil => rfl
  | append_singleton ds c ih =>
    rw [digitsValue_append, ih, List.reverse_append, List.reverse_singleton, List.singleton_append,
      List.map_cons, Nat.ofDigits_cons, Nat.add_comm, Nat.mul_comm]

/-- Zeros in front change nothing. -/
theorem digitsValue_zeros (base zeros : Nat) (ds : List Char) :
    digitsValue base (List.replicate zeros '0' ++ ds) = digitsValue base ds := by
  have hzero (ds : List Char) : digitsValue base ('0' :: ds) = digitsValue base ds := by
    rw [digitsValue, List.foldl_cons, Nat.zero_mul]
    rfl
  induction zeros with
  | zero => rfl
  | succ zeros ih => rw [List.replicate_succ, List.cons_append, hzero, ih]

/-- The value of digits, reduced at every digit. -/
def wrappedValue (base : Nat) (ds : List Char) : UInt64 :=
  ds.foldl (fun n c => n * UInt64.ofNat base + UInt64.ofNat (hexValue c)) 0

/-- Reducing at every digit is reducing once. -/
theorem wrappedValue_eq (base : Nat) (ds : List Char) :
    wrappedValue base ds = UInt64.ofNat (digitsValue base ds) := by
  induction ds using List.reverseRecOn with
  | nil => rfl
  | append_singleton ds c ih =>
    have hfold : wrappedValue base (ds ++ [c]) =
        wrappedValue base ds * UInt64.ofNat base + UInt64.ofNat (hexValue c) := by
      simp [wrappedValue, List.foldl_append]
    rw [hfold, ih, digitsValue_append, UInt64.ofNat_add, UInt64.ofNat_mul]

/-! ## 2. The texts of a token -/

/-- **The texts of a token.** -/
inductive TokenText : Token → List Char → Prop where
  | int {cs : List Char} {n : Int64} : Numeral cs n → TokenText (.int n) cs
  | name {cs : List Char} {text : String} : NameText cs text → TokenText (.name text) cs
  | noName : TokenText (.name "") ['"', '"']
  | structName {cs : List Char} {text : String} (isGlobal : Bool) : NameText cs text →
    TokenText (.structName text isGlobal) ((if isGlobal then "##" else "#").toList ++ cs)
  | hash : TokenText .hash ['#']
  | symbol {cs : List Char} {t : Token} : (cs, t) ∈ symbols → TokenText t cs

/-- Whether a token can be written: no name has a quote, and no struct's name is empty. -/
def Token.isWritable : Token → Bool
  | .name text => isQuotable text
  | .structName text _ => isQuotable text && !text.isEmpty
  | _ => true

/-- **Every such token has a text.** -/
theorem Token.exists_text {t : Token} (h : t.isWritable = true) : ∃ cs, TokenText t cs := by
  have hsymbol {t : Token} (ht : (symbols.any fun e => e.2 = t) = true) : ∃ cs, TokenText t cs := by
    obtain ⟨⟨cs, t'⟩, hmem, ht'⟩ := List.any_eq_true.mp ht
    exact ⟨cs, .symbol (of_decide_eq_true ht' ▸ hmem)⟩
  cases t with
  | int n =>
    have hnumeral : Numeral (Nat.toDigits 10 n.toUInt64.toNat) _ :=
      .decimal Nat.toDigits_ne_nil fun c hc => isDigit_of_mem_digits hc
    have hvalue : Int64.ofNat n.toUInt64.toNat = n := by simp [Int64.ofNat]
    rw [digitsValue_toDigits, hvalue] at hnumeral
    exact ⟨_, .int hnumeral⟩
  | name text =>
    by_cases hempty : text.isEmpty = true
    · rw [String.isEmpty_iff.mp hempty]
      exact ⟨_, .noName⟩
    · exact ⟨_, .name (.quoted h (by simpa using hempty))⟩
  | structName text isGlobal =>
    simp only [isWritable, Bool.and_eq_true, Bool.not_eq_true'] at h
    exact ⟨_, .structName isGlobal (.quoted h.1 h.2)⟩
  | hash => exact ⟨_, .hash⟩
  | operator op => exact hsymbol (by cases op <;> rfl)
  | opening b => exact hsymbol (by cases b <;> rfl)
  | closing b => exact hsymbol (by cases b <;> rfl)
  | tilde | assign | «at» | dot | dollar | comma => exact hsymbol rfl

/-- A symbol is the first one that its text starts with. -/
theorem firstSymbol_of_mem {e : List Char × Token} (he : e ∈ symbols) :
    ∃ c cs, e.1 = c :: cs ∧ scanSymbol c cs = .ok ⟨e.2, e.1, []⟩ ∧
      (isBlank c || c.isDigit || isWordStart c || c == '"' || c == '#') = false := by
  unfold symbols at he
  fin_cases he <;> exact ⟨_, _, rfl, rfl, rfl⟩

/-- A text starts with no blank. -/
theorem TokenText.starts {t : Token} {cs : List Char} (h : TokenText t cs) :
    ∃ c more, cs = c :: more ∧ isBlank c = false := by
  cases h with
  | int h =>
    cases h with
    | @decimal ds hne hd =>
      obtain ⟨d, ds, rfl⟩ := List.exists_cons_of_ne_nil hne
      exact ⟨d, ds, rfl, isBlank_eq_false_of_isDigit (hd d List.mem_cons_self)⟩
    | hexadecimal _ _ _ => exact ⟨_, _, rfl, rfl⟩
  | name h =>
    cases h with
    | word hw =>
      rename_i text
      unfold isWord at hw
      cases hl : text.toList with
      | nil =>
        rw [hl] at hw
        cases hw
      | cons c more =>
        rw [hl, Bool.and_eq_true] at hw
        exact ⟨c, more, rfl, isBlank_eq_false_of_isWordStart hw.1⟩
    | quoted _ _ =>
      rename_i text _ _
      exact ⟨'"', text.toList ++ ['"'], by simp [quoted], rfl⟩
  | noName => exact ⟨_, _, rfl, rfl⟩
  | structName isGlobal h => cases isGlobal <;> exact ⟨_, _, rfl, rfl⟩
  | hash => exact ⟨_, _, rfl, rfl⟩
  | symbol hmem =>
    obtain ⟨c, more, hcs, _, hc⟩ := firstSymbol_of_mem hmem
    simp only [Bool.or_eq_false_iff] at hc
    exact ⟨c, more, hcs, hc.1.1.1.1⟩

/-- A token alone is what its text is cut into. -/
theorem TokenText.spells {t : Token} {cs : List Char} (h : TokenText t cs) : Spells cs [t] := by
  cases h with
  | int h => exact List.append_nil cs ▸ h.spells rfl spells_nil
  | name h => exact List.append_nil cs ▸ h.spells rfl spells_nil
  | noName => exact Spells.name (show isQuotable "" = true from rfl) spells_nil
  | structName isGlobal h => simpa using h.spells_struct isGlobal rfl spells_nil
  | hash => exact .token (s := ⟨.hash, ['#'], []⟩) rfl rfl spells_nil
  | symbol hmem =>
    obtain ⟨c, more, hcs, hs, hc⟩ := firstSymbol_of_mem hmem
    have hcs : cs = c :: more := hcs
    rw [hcs]
    exact .symbol hs hc spells_nil

/-- **A token alone stands at its first byte.** -/
theorem TokenText.tokenizeFrom {t : Token} {cs : List Char} (h : TokenText t cs) (pos : Nat)
    (done : List Lexeme) :
    ByteAtlas.tokenizeFrom pos cs done = .ok (done.reverse ++ [⟨t, pos⟩]) := by
  obtain ⟨c, more, rfl, hc⟩ := h.starts
  obtain ⟨ls, hls, htokens⟩ := h.spells pos done
  obtain ⟨l, rfl, rfl⟩ := List.map_eq_singleton_iff.mp htokens
  rw [hls]
  have hc : ¬isBlank c = true := by rw [hc]; decide
  cases hs : scanToken c more with
  | error d =>
    rw [tokenizeFrom_of_error hc hs] at hls
    cases hls
  | ok s =>
    rw [tokenizeFrom_of_ok hc hs] at hls
    obtain ⟨rest, hrest⟩ := tokenizeFrom_eq_ok hls
    rw [List.reverse_cons, List.append_assoc, List.append_cancel_left_eq] at hrest
    obtain ⟨hl, _⟩ := List.cons.inj hrest
    rw [hl]

/-! ## 3. Tokens with blanks between them -/

/-- A token as it is written, with the blanks in front of it. -/
structure Piece where
  gap : List Char
  token : Token
  text : List Char

/-- **The text of some pieces**, with more behind them. -/
def printed : List Piece → List Char → List Char
  | [], more => more
  | p :: ps, more => p.gap ++ (p.text ++ printed ps more)

/-- The tokens of some pieces, of which the first starts at a byte. -/
def piecesAt : Nat → List Piece → List Lexeme
  | _, [] => []
  | pos, p :: ps =>
    ⟨p.token, pos + byteLength p.gap⟩ :: piecesAt (pos + byteLength p.gap + byteLength p.text) ps

/-- **Whether pieces are well written**: each has a text of its token, and blanks stand between any
two of them. -/
structure Spaced (ps : List Piece) : Prop where
  texts : ∀ p ∈ ps, TokenText p.token p.text
  gaps : ∀ p ∈ ps, ∀ c ∈ p.gap, isBlank c = true
  apart : ∀ p ∈ ps.tail, p.gap ≠ []

namespace Spaced

variable {p : Piece} {ps : List Piece}

theorem tail (h : Spaced (p :: ps)) : Spaced ps where
  texts q hq := h.texts q (List.mem_cons_of_mem p hq)
  gaps q hq := h.gaps q (List.mem_cons_of_mem p hq)
  apart q hq := h.apart q (List.mem_of_mem_tail hq)

/-- Every token ends before the pieces behind it. -/
theorem endsToken_printed (h : Spaced (p :: ps)) {more : List Char}
    (hmore : endsToken more = true) : endsToken (printed ps more) = true := by
  cases ps with
  | nil => exact hmore
  | cons q ps =>
    obtain ⟨c, gap, hgap⟩ := List.exists_cons_of_ne_nil (h.apart q List.mem_cons_self)
    have hc := h.gaps q (List.mem_cons_of_mem p List.mem_cons_self) c (by simp [hgap])
    rw [printed, hgap]
    exact hc

end Spaced

/-- **Tokens with blanks between them are read back**, by induction on the pieces. -/
theorem tokenizeFrom_printed {ps : List Piece} (h : Spaced ps) {tail : List Char}
    (htail : ∀ c ∈ tail, isBlank c = true) (pos : Nat) (done : List Lexeme) :
    tokenizeFrom pos (printed ps tail) done = .ok (done.reverse ++ piecesAt pos ps) := by
  have hends : endsToken tail = true := by
    cases tail with
    | nil => rfl
    | cons c tail => exact htail c List.mem_cons_self
  induction ps generalizing pos done with
  | nil =>
    have hblank := tokenizeFrom_blanks htail pos [] done
    rw [List.append_nil, tokenizeFrom] at hblank
    rw [printed, piecesAt, List.append_nil, hblank]
  | cons p ps ih =>
    have htoken := (h.texts p List.mem_cons_self).tokenizeFrom (pos + byteLength p.gap) done
    rw [printed, tokenizeFrom_blanks (h.gaps p List.mem_cons_self),
      tokenizeFrom_append (h.endsToken_printed hends) _ _ _ htoken, ih h.tail,
      List.reverse_reverse, List.append_assoc]
    rfl

theorem token_piecesAt (pos : Nat) (ps : List Piece) :
    (piecesAt pos ps).map Lexeme.token = ps.map Piece.token := by
  induction ps generalizing pos with
  | nil => rfl
  | cons p ps ih => rw [piecesAt, List.map_cons, List.map_cons, ih]

/-- Each token stands where its text starts. -/
theorem piecesAt_append (pos : Nat) (before after : List Piece) (p : Piece) :
    (piecesAt pos (before ++ p :: after))[before.length]? =
      some ⟨p.token, pos + byteLength (printed before p.gap)⟩ := by
  induction before generalizing pos with
  | nil => rfl
  | cons q before ih =>
    rw [List.cons_append, piecesAt, List.length_cons, List.getElem?_cons_succ, ih, printed,
      byteLength_append, byteLength_append]
    simp only [Nat.add_assoc]

theorem TokenText.byteLength_pos {t : Token} {cs : List Char} (h : TokenText t cs) :
    0 < byteLength cs := by
  obtain ⟨c, more, rfl, _⟩ := h.starts
  exact Nat.lt_of_lt_of_le c.utf8Size_pos (Nat.le_add_right _ _)

/-- Positions grow from token to token. -/
theorem pairwise_piecesAt {ps : List Piece} (h : ∀ p ∈ ps, TokenText p.token p.text) (pos : Nat) :
    (piecesAt pos ps).Pairwise (fun l l' => l.pos < l'.pos) ∧
      ∀ l ∈ piecesAt pos ps, pos ≤ l.pos := by
  induction ps generalizing pos with
  | nil => exact ⟨.nil, fun _ h => nomatch h⟩
  | cons p ps ih =>
    have hpos := (h p List.mem_cons_self).byteLength_pos
    obtain ⟨hpairs, hlater⟩ := ih (fun q hq => h q (List.mem_cons_of_mem p hq))
      (pos + byteLength p.gap + byteLength p.text)
    have hgap : pos ≤ pos + byteLength p.gap := Nat.le_add_right _ _
    have hlater (l : Lexeme) (hl : l ∈ piecesAt (pos + byteLength p.gap + byteLength p.text) ps) :
        pos + byteLength p.gap < l.pos := Nat.lt_of_lt_of_le (by omega) (hlater l hl)
    exact ⟨List.pairwise_cons.mpr ⟨hlater, hpairs⟩, List.forall_mem_cons.mpr
      ⟨hgap, fun l hl => Nat.le_of_lt (Nat.lt_of_le_of_lt hgap (hlater l hl))⟩⟩

/-- Every list of tokens that can be written is the list of some pieces. -/
theorem exists_spaced {ts : List Token} (h : ∀ t ∈ ts, t.isWritable = true) :
    ∃ ps, Spaced ps ∧ ps.map Piece.token = ts := by
  have hblank : ∀ c ∈ [' '], isBlank c = true := by simp [isBlank]
  suffices hps : ∃ ps : List Piece, (∀ p ∈ ps, TokenText p.token p.text) ∧
      (∀ p ∈ ps, p.gap = [' ']) ∧ ps.map Piece.token = ts by
    obtain ⟨ps, htexts, hgaps, htokens⟩ := hps
    exact ⟨ps, ⟨htexts, fun p hp => hgaps p hp ▸ hblank, fun p hp =>
      hgaps p (List.mem_of_mem_tail hp) ▸ List.cons_ne_nil ' ' []⟩, htokens⟩
  induction ts with
  | nil => exact ⟨[], by simp⟩
  | cons t ts ih =>
    obtain ⟨ht, hts⟩ := List.forall_mem_cons.mp h
    obtain ⟨cs, hcs⟩ := Token.exists_text ht
    obtain ⟨ps, htexts, hgaps, htokens⟩ := ih hts
    exact ⟨⟨[' '], t, cs⟩ :: ps, List.forall_mem_cons.mpr ⟨hcs, htexts⟩,
      List.forall_mem_cons.mpr ⟨rfl, hgaps⟩, by rw [List.map_cons, htokens]⟩

/-! ## 4. Reading back -/

/-- A literal denotes its number, reduced to a word, whatever zeros stand in front. -/
theorem Numeral.tokenize {cs ds : List Char} {base zeros : Nat}
    (h : Numeral cs (Int64.ofNat (digitsValue base (List.replicate zeros '0' ++ ds)))) :
    ∃ n : Int64, ByteAtlas.tokenize (String.ofList cs) = .ok [⟨.int n, 0⟩] ∧
      n.toUInt64.toNat = Nat.ofDigits base (ds.reverse.map hexValue) % 2 ^ 64 ∧
      n.toUInt64 = wrappedValue base (List.replicate zeros '0' ++ ds) := by
  refine ⟨Int64.ofNat (digitsValue base (List.replicate zeros '0' ++ ds)), ?_, ?_, ?_⟩
  · rw [ByteAtlas.tokenize, String.toList_ofList, (TokenText.int h).tokenizeFrom]
    rfl
  · rw [digitsValue_zeros, digitsValue_eq_ofDigits]
    exact UInt64.toNat_ofNat'
  · rw [wrappedValue_eq]
    rfl

/-- **Tokenizing undoes writing, and texts behind each other are cut apart.** Every list of tokens
that can be written is the list of some pieces with blanks between them. Pieces, written with any
blanks between them, are cut into their tokens, each at its first byte. Digits, any number of them
after any number of zeros, denote their number, modulo 2 ^ 64, which is also the value of a word
that is multiplied and added to at every digit. And a text that is cut into tokens is cut into the
same ones before a blank, with those of what follows, or its error, so many bytes later. -/
theorem tokenize_texts :
    (∀ ts : List Token, (∀ t ∈ ts, t.isWritable = true) →
      ∃ ps, Spaced ps ∧ ps.map Piece.token = ts) ∧
    (∀ (ps : List Piece) (tail : List Char), Spaced ps → (∀ c ∈ tail, isBlank c = true) →
      ∃ ls, tokenize (String.ofList (printed ps tail)) = .ok ls ∧
        ls.map Lexeme.token = ps.map Piece.token ∧
        ls.Pairwise (fun l l' => l.pos < l'.pos) ∧
        ∀ before p after, ps = before ++ p :: after →
          ls[before.length]? = some ⟨p.token, byteLength (printed before p.gap)⟩) ∧
    (∀ (zeros : Nat) (ds : List Char), ds ≠ [] → (∀ c ∈ ds, c.isDigit = true) →
      ∃ n : Int64, tokenize (String.ofList (List.replicate zeros '0' ++ ds)) = .ok [⟨.int n, 0⟩] ∧
        n.toUInt64.toNat = Nat.ofDigits 10 (ds.reverse.map hexValue) % 2 ^ 64 ∧
        n.toUInt64 = wrappedValue 10 (List.replicate zeros '0' ++ ds)) ∧
    (∀ (zeros : Nat) (x : Char) (ds : List Char), x = 'x' ∨ x = 'X' → ds ≠ [] →
      (∀ c ∈ ds, isHexDigit c = true) →
      ∃ n : Int64,
        tokenize (String.ofList ('0' :: x :: (List.replicate zeros '0' ++ ds))) =
          .ok [⟨.int n, 0⟩] ∧
        n.toUInt64.toNat = Nat.ofDigits 16 (ds.reverse.map hexValue) % 2 ^ 64 ∧
        n.toUInt64 = wrappedValue 16 (List.replicate zeros '0' ++ ds)) ∧
    (∀ (a b : String) (ls : List Lexeme), tokenize a = .ok ls →
      tokenize (a ++ " " ++ b) = later ls (a.utf8ByteSize + 1) (tokenize b)) := by
  have hdigits {p : Char → Bool} (hzero : p '0' = true) (zeros : Nat) {ds : List Char}
      (hds : ∀ c ∈ ds, p c = true) : ∀ c ∈ List.replicate zeros '0' ++ ds, p c = true := by
    intro c hc
    rcases List.mem_append.mp hc with hc | hc
    · rw [List.eq_of_mem_replicate hc, hzero]
    · exact hds c hc
  refine ⟨fun ts => exists_spaced, ?_, ?_, ?_, ?_⟩
  · intro ps tail h htail
    refine ⟨piecesAt 0 ps, ?_, ?_, (pairwise_piecesAt h.texts 0).1, ?_⟩
    · rw [tokenize, String.toList_ofList, tokenizeFrom_printed h htail]
      rfl
    · exact token_piecesAt 0 ps
    · rintro before p after rfl
      rw [piecesAt_append, Nat.zero_add]
  · exact fun zeros ds hne hds =>
      (Numeral.decimal (List.append_ne_nil_of_right_ne_nil _ hne) (hdigits rfl zeros hds)).tokenize
  · exact fun zeros x ds hx hne hds =>
      (Numeral.hexadecimal hx (List.append_ne_nil_of_right_ne_nil _ hne)
        (hdigits rfl zeros hds)).tokenize
  · intro a b ls ha
    have hblank : ∀ c ∈ [' '], isBlank c = true := by simp [isBlank]
    have htext : (a ++ " " ++ b).toList = a.toList ++ ([' '] ++ b.toList) := by simp
    rw [tokenize, htext, tokenizeFrom_append rfl 0 a.toList [] ha, tokenizeFrom_blanks hblank,
      tokenizeFrom_eq_later, List.reverse_reverse, byteLength_toList, Nat.zero_add]
    rfl

/-- An operator, an integer with zeros in front and the name of a global struct, with blanks of
several kinds; a literal that wraps around; and an error behind a blank. -/
theorem tokenize_texts_examples :
    (∃ ls, tokenize "\t<<\n007 ##\"a b\"\r" = .ok ls ∧
      ls.map Lexeme.token = [.operator .shl, .int 7, .structName "a b" true] ∧
      ls[2]? = some ⟨.structName "a b" true, 8⟩) ∧
    (∃ n : Int64, tokenize "0x010000000000000002" = .ok [⟨.int n, 0⟩] ∧ n.toUInt64.toNat = 2) ∧
    tokenize "a ?" = .error ⟨2, .unexpectedChar '?'⟩ := by
  obtain ⟨_, hpieces, _, hhex, hbehind⟩ := tokenize_texts
  let before : List Piece :=
    [⟨['\t'], .operator .shl, ['<', '<']⟩, ⟨['\n'], .int 7, ['0', '0', '7']⟩]
  let last : Piece := ⟨[' '], .structName "a b" true, "##\"a b\"".toList⟩
  have hps : Spaced (before ++ [last]) :=
    { texts := by
        have hname : NameText (quoted "a b").toList "a b" := .quoted rfl rfl
        have hseven : Numeral ['0', '0', '7'] 7 := .decimal (by simp) (by simp)
        have hshl : TokenText (.operator .shl) ['<', '<'] := .symbol (by simp [symbols])
        simpa [before, last] using ⟨hshl, .int hseven, .structName true hname⟩
      gaps := by simp [before, last, isBlank]
      apart := by simp [before, last] }
  refine ⟨?_, ?_, ?_⟩
  · obtain ⟨ls, hls, htokens, _, hat⟩ := hpieces _ ['\r'] hps (by simp [isBlank])
    exact ⟨ls, hls, htokens, hat before last [] rfl⟩
  · have hdigits : ("10000000000000002".toList.all isHexDigit) = true := rfl
    obtain ⟨n, hn, hvalue, _⟩ := hhex 1 'x' "10000000000000002".toList (.inl rfl) (by simp)
      (List.all_eq_true.mp hdigits)
    exact ⟨n, hn, hvalue.trans rfl⟩
  · have hname : NameText "a".toList "a" := .word rfl
    have ha : tokenize "a" = .ok [⟨.name "a", 0⟩] := (TokenText.name hname).tokenizeFrom 0 []
    have hb : tokenize "?" = .error ⟨0, .unexpectedChar '?'⟩ :=
      tokenizeFrom_of_error (show ¬isBlank '?' = true by simp [isBlank]) rfl 0 []
    exact (hbehind "a" "?" _ ha).trans (congrArg (later _ _) hb)

end ByteAtlas
