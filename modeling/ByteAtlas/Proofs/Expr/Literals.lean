import Mathlib
import ByteAtlas.Expr.Evaluate
import ByteAtlas.Proofs.Expr.Boundaries
import ByteAtlas.Proofs.Expr.Compilation
import ByteAtlas.Proofs.Expr.RoundTrip
import ByteAtlas.Scalar.Value

/-!
# Integers in filters

An integer is written in decimals, in hexadecimal digits after `0x`, or as one of these with a minus
sign in front (`Literal`). The same literal means two things in a filter. After the name of a field
it is a text, that of its value in decimals (`Span.compileFilter_text`); after the mark and the name
it is an expression with that value (`Span.compileFilter_value`). Both hold of every span that has
the tokens of such a filter, wherever in a query it lies.

Decimals tell values apart (`decimalText_injective`), and no value takes more than twenty of them.
-/

namespace ByteAtlas

/-! ## 1. Decimals -/

theorem decimalText_injective {m n : Int64} (h : decimalText m = decimalText n) : m = n :=
  Int64.toInt_inj.mp (Int.repr_injective h)

/-- The characters of a value in decimals. -/
theorem toList_decimalText (n : Int64) : (decimalText n).toList =
    if n < 0 then '-' :: Nat.toDigits 10 n.toInt.natAbs else Nat.toDigits 10 n.toInt.natAbs := by
  have hdigits (k : Nat) : (toString k).toList = Nat.toDigits 10 k := by
    rw [Nat.toString_eq_ofList_toDigits, String.toList_ofList]
  have hneg : n < 0 ↔ n.toInt < 0 := Int64.lt_iff_toInt_lt
  unfold decimalText
  cases hn : n.toInt with
  | ofNat k =>
    rw [if_neg (by rw [hneg, hn]; exact Int.not_lt.mpr (Int.natCast_nonneg k))]
    exact hdigits k
  | negSucc k =>
    rw [if_pos (by rw [hneg, hn]; exact Int.negSucc_lt_zero k)]
    have htext : toString (Int.negSucc k) = "-" ++ toString (k + 1) := rfl
    rw [htext, String.toList_append, hdigits]
    rfl

theorem byteLength_of_isDigit : ∀ {ds : List Char}, (∀ c ∈ ds, c.isDigit = true) →
    byteLength ds = ds.length
  | [], _ => rfl
  | c :: ds, h => by
    have hc : c.utf8Size = 1 := by
      have hdigit := h c List.mem_cons_self
      have hle : c.val ≤ 57 := by
        simp only [Char.isDigit, ge_iff_le, Bool.and_eq_true, decide_eq_true_eq] at hdigit
        exact hdigit.2
      exact Char.utf8Size_eq_one_iff.mpr (UInt32.le_trans hle (by decide))
    have ih := byteLength_of_isDigit fun d hd => h d (List.mem_cons_of_mem c hd)
    unfold byteLength at ih ⊢
    rw [List.foldr_cons, ih, hc, List.length_cons, Nat.add_comm]

/-- **A value has at most twenty decimals**, the sign included, and at least one. -/
theorem utf8ByteSize_decimalText (n : Int64) :
    0 < (decimalText n).utf8ByteSize ∧ (decimalText n).utf8ByteSize ≤ 20 := by
  have hlength : byteLength (Nat.toDigits 10 n.toInt.natAbs) =
      (Nat.toDigits 10 n.toInt.natAbs).length :=
    byteLength_of_isDigit fun c hc => isDigit_of_mem_digits hc
  have hpos := Nat.length_toDigits_pos (b := 10) (n := n.toInt.natAbs)
  have hle : (Nat.toDigits 10 n.toInt.natAbs).length ≤ 19 := by
    have hlow := n.le_toInt
    have hhigh := n.toInt_lt
    exact (Nat.length_toDigits_le_iff (by decide) (by decide)).mpr (by omega)
  rw [← byteLength_toList, toList_decimalText]
  split
  · have hsign : byteLength ('-' :: Nat.toDigits 10 n.toInt.natAbs) =
        1 + byteLength (Nat.toDigits 10 n.toInt.natAbs) := rfl
    omega
  · omega

/-! ## 2. Integers as they are written -/

/-- **The texts of an unsigned integer.** Beyond 64 bits it wraps around. -/
inductive Numeral : List Char → Int64 → Prop where
  | decimal {ds : List Char} : ds ≠ [] → (∀ c ∈ ds, c.isDigit = true) →
    Numeral ds (Int64.ofNat (digitsValue 10 ds))
  | hexadecimal {x : Char} {ds : List Char} : x = 'x' ∨ x = 'X' → ds ≠ [] →
    (∀ c ∈ ds, isHexDigit c = true) →
    Numeral ('0' :: x :: ds) (Int64.ofNat (digitsValue 16 ds))

/-- **The texts of an integer**, with a minus sign or without. -/
inductive Literal : List Char → Int64 → Prop where
  | plain {cs : List Char} {n : Int64} : Numeral cs n → Literal cs n
  | negated {cs : List Char} {n : Int64} : Numeral cs n → Literal ('-' :: cs) (-n)

/-- **The tokens of an integer**, with a minus sign or without. -/
inductive IntTokens : List Token → Int64 → Prop where
  | plain (n : Int64) : IntTokens [.int n] n
  | negated (n : Int64) : IntTokens [.operator .sub, .int n] (-n)

section

variable {cs : List Char} {ts : List Token} {n : Int64}

/-- A hexadecimal digit is a decimal one or a letter. -/
theorem isHexDigit_eq_false {c : Char} (hd : c.isDigit = false) (hw : isWordStart c = false) :
    isHexDigit c = false := by
  have hletter : c.isAlpha = false := (Bool.or_eq_false_iff.mp hw).1
  simp only [Char.isAlpha, Char.isUpper, Char.isLower, Bool.or_eq_false_iff] at hletter
  simp only [isHexDigit, hd, Bool.false_or, Bool.or_eq_false_iff, Bool.and_eq_false_iff,
    decide_eq_false_iff_not, Char.le_def]
  grind

/-- Hexadecimal digits up to the end of a literal are an integer. -/
theorem scanHex_digits {lead ds : List Char} (hne : ds ≠ [])
    (hd : ∀ c ∈ ds, isHexDigit c = true) (hcs : stops cs = true) :
    scanHex lead (ds ++ cs) =
      .ok ⟨.int (Int64.ofNat (digitsValue 16 ds)), lead ++ ds, cs⟩ := by
  obtain ⟨d, ds, rfl⟩ := List.exists_cons_of_ne_nil hne
  rw [List.cons_append, scanHex, if_pos (hd d List.mem_cons_self), ← List.cons_append, scanInt]
  simp only [List.takeWhile_append_of_pos hd, List.dropWhile_append_of_pos hd]
  cases cs with
  | nil => simp
  | cons c cs =>
    simp only [stops, Bool.and_eq_true, Bool.not_eq_true'] at hcs
    simp [isHexDigit_eq_false hcs.1 hcs.2, hcs.2]

/-- **A numeral is one token.** -/
theorem Numeral.spells (h : Numeral cs n) {rest : List Char} (hrest : stops rest = true)
    (hts : Spells rest ts) : Spells (cs ++ rest) (.int n :: ts) := by
  cases h with
  | @decimal ds hne hd =>
    obtain ⟨d, ds, rfl⟩ := List.exists_cons_of_ne_nil hne
    have htail : ∀ c ∈ ds, c.isDigit = true := fun c hc => hd c (List.mem_cons_of_mem d hc)
    have hdigit := hd d List.mem_cons_self
    have hs : scanToken d (ds ++ rest) =
        .ok ⟨.int (Int64.ofNat (digitsValue 10 (d :: ds))), d :: ds, rest⟩ := by
      rw [scanToken_digit hdigit (append_ne_cons htail hrest (by decide) (by decide))
        (append_ne_cons htail hrest (by decide) (by decide)), ← List.cons_append,
        scanInt_digits hd hrest]
    exact .token (isBlank_eq_false_of_isDigit hdigit) hs hts
  | @hexadecimal x ds hx hne hd =>
    have hs : scanToken '0' (x :: (ds ++ rest)) =
        .ok ⟨.int (Int64.ofNat (digitsValue 16 ds)), ['0', x] ++ ds, rest⟩ := by
      rw [← scanHex_digits hne hd hrest]
      rcases hx with rfl | rfl <;> rfl
    exact .token (by decide) hs hts

/-- **A literal is one token or two.** -/
theorem Literal.spells (h : Literal cs n) {rest : List Char} (hrest : stops rest = true)
    (hts : Spells rest ts) : ∃ us, IntTokens us n ∧ Spells (cs ++ rest) (us ++ ts) := by
  cases h with
  | plain hn => exact ⟨_, .plain n, hn.spells hrest hts⟩
  | negated hn => exact ⟨_, .negated _, .unary .negate (hn.spells hrest hts)⟩

/-- A text is cut into its tokens in one way. -/
theorem Spells.eq {us : List Token} (h : Spells cs ts) (h' : Spells cs us) : ts = us := by
  obtain ⟨ls, hls, rfl⟩ := h 0 []
  obtain ⟨ls', hls', rfl⟩ := h' 0 []
  rw [hls] at hls'
  simp only [List.reverse_nil, List.nil_append, Except.ok.injEq] at hls'
  rw [hls']

/-- A literal does not start with an equals sign. -/
theorem Literal.head_ne (h : Literal cs n) : ∃ c cs', cs = c :: cs' ∧ c ≠ '=' := by
  have hnumeral {cs : List Char} {n : Int64} (h : Numeral cs n) :
      ∃ c cs', cs = c :: cs' ∧ c ≠ '=' := by
    cases h with
    | @decimal ds hne hd =>
      obtain ⟨d, ds, rfl⟩ := List.exists_cons_of_ne_nil hne
      refine ⟨d, ds, rfl, ?_⟩
      rintro rfl
      exact absurd (hd '=' List.mem_cons_self) (by decide)
    | hexadecimal _ _ _ => exact ⟨_, _, rfl, by decide⟩
  cases h with
  | plain hn => exact hnumeral hn
  | negated _ => exact ⟨_, _, rfl, by decide⟩

/-- The equals sign of a filter, whatever follows it but another one. -/
theorem Spells.assign_tight {c : Char} (hc : c ≠ '=') (h : Spells (c :: cs) ts) :
    Spells ('=' :: c :: cs) (.assign :: ts) := by
  have hs : scanSymbol '=' (c :: cs) = .ok ⟨.assign, ['='], c :: cs⟩ := by
    simp [scanSymbol, firstSymbol, symbols, stripFront, hc.symm]
  exact .symbol hs (by decide) h

end

/-! ## 3. Filters -/

/-- **The texts of a name**: a word, or anything without a quote between quotes. -/
inductive NameText : List Char → String → Prop where
  | word {name : String} : isWord name = true → NameText name.toList name
  | quoted {name : String} : isQuotable name = true → name.isEmpty = false →
    NameText (quoted name).toList name

section

variable {cs : List Char} {ts : List Token} {name : String} {n : Int64} {s : Span} {depth : Nat}

theorem NameText.spells (h : NameText cs name) {rest : List Char} (hrest : endsWord rest = true)
    (hts : Spells rest ts) : Spells (cs ++ rest) (.name name :: ts) := by
  cases h with
  | word hw => exact .word hw hrest hts
  | quoted hq _ => exact .name hq hts

/-- The name of a struct after its marks. -/
theorem NameText.spells_struct (isGlobal : Bool) (h : NameText cs name) {rest : List Char}
    (hrest : endsWord rest = true) (hts : Spells rest ts) :
    Spells ((if isGlobal then "##" else "#").toList ++ (cs ++ rest))
      (.structName name isGlobal :: ts) := by
  cases h with
  | quoted hq hne => exact Spells.structName isGlobal hq (by simp [hne]) hts
  | word hw =>
    obtain ⟨c, w, hl⟩ : ∃ c w, name.toList = c :: w := by
      cases hl : name.toList with
      | nil => simp [isWord, hl] at hw
      | cons c w => exact ⟨c, w, rfl⟩
    unfold isWord at hw
    rw [hl] at hw
    simp only [Bool.and_eq_true, List.all_eq_true] at hw
    have hscan := scanName_word (w := c :: w) (by simpa using hw.1) hw.2 (by simp) hrest
    have htext : String.ofList (c :: w) = name := by rw [← hl, String.ofList_toList]
    have hname (marks : List Char) : scanStructName marks isGlobal (c :: (w ++ rest)) =
        .ok ⟨.structName name isGlobal, marks ++ c :: w, rest⟩ := by
      have hnonempty : name.isEmpty = false := by
        rw [← htext]
        simp
      unfold scanStructName
      rw [if_pos (by simp [startsName, hw.1]), ← List.cons_append, hscan, htext]
      simp [hnonempty]
    rw [hl]
    cases isGlobal with
    | true =>
      have hs : scanToken '#' ('#' :: c :: (w ++ rest)) = _ := hname ['#', '#']
      simpa using Spells.token (by decide) hs hts
    | false =>
      have hmark : c ≠ '#' := ne_of_isWordStart hw.1 (by decide)
      have hs : scanToken '#' (c :: (w ++ rest)) =
          .ok ⟨.structName name false, '#' :: c :: w, rest⟩ := by
        unfold scanToken
        rw [if_neg (by decide), if_neg (by decide), if_pos (by decide)]
        split
        · rename_i h
          exact absurd (List.cons.inj h).1 hmark
        · exact hname ['#']
      simpa using Spells.token (by decide) hs hts

/-- A name after its mark. -/
theorem NameText.spells_marked (h : NameText cs name) {rest : List Char}
    (hrest : endsWord rest = true) (hts : Spells rest ts) :
    Spells ('#' :: (cs ++ rest)) (.structName name false :: ts) := by
  simpa using h.spells_struct false hrest hts

/-- **The filter that a span is read as**, in a query that lies `depth` levels deep. -/
def Span.compileFilter (s : Span) (depth : Nat) : Compiled (Except Diagnostic Filters) :=
  compileFilters (s.length + 1) [filterShape s]
    (fun _ ht => Nat.lt_succ_of_le (filterShape_parts (by simpa using ht))) depth

/-- The text of a literal in a filter is that of its value in decimals. -/
theorem IntTokens.textArg? (h : IntTokens ts n) (hs : s.lexemes.map Lexeme.token = ts) :
    s.textArg? = some (decimalText n) := by
  unfold Span.textArg?
  rw [hs]
  cases h <;> rfl

/-- **The expression of a literal in a filter** has its value, whatever it is evaluated in. -/
theorem IntTokens.compileExpr {m : Type → Type} [Monad m] [LawfulMonad m] {ι : Type}
    (env : Environment m ι) (h : IntTokens ts n) (hs : s.lexemes.map Lexeme.token = ts)
    (hdepth : depth < nestingLimit) :
    ∃ e, ByteAtlas.compileExpr s depth = ⟨e, []⟩ ∧ e.evaluate env = pure n := by
  cases h with
  | plain n =>
    have hholds : s.Holds [.plain (.int n)] := hs
    refine ⟨.constant n, compileExpr_constant (Nat.le_of_lt hdepth) (exprShape_int hholds), ?_⟩
    rw [Expr.evaluate]
  | negated n =>
    have hholds : s.Holds [.plain (UnaryOp.token .negate), .plain (.int n)] := hs
    have hshallow : Shallow [.plain (UnaryOp.token .negate), .plain (.int n)] := Nat.zero_le _
    have hshape := exprShape_unary hholds ((Phrase.int n).unary .negate) hshallow
    refine ⟨.unary .negate (.constant n), compileExpr_unary (Nat.le_of_lt hdepth) hshape
      (compileExpr_constant hdepth (exprShape_int hholds.tail)), ?_⟩
    rw [Expr.evaluate, Expr.evaluate, pure_bind]
    rfl

/-- The tokens of a filter, given those of the name. -/
theorem Literal.filterTokens {value : List Char} (hvalue : Literal value n) (cs : List Char)
    {head : Token}
    (hname : ∀ {rest : List Char} {ts : List Token}, endsWord rest = true → Spells rest ts →
      Spells (cs ++ rest) (head :: ts))
    (hs : Spells (cs ++ '=' :: value) (s.lexemes.map Lexeme.token)) :
    ∃ us, IntTokens us n ∧ s.lexemes.map Lexeme.token = head :: .assign :: us := by
  obtain ⟨us, hus, hspells⟩ : ∃ us, IntTokens us n ∧ Spells (value ++ []) (us ++ []) :=
    hvalue.spells rfl spells_nil
  obtain ⟨c, value, rfl, hc⟩ := hvalue.head_ne
  rw [List.append_nil, List.append_nil] at hspells
  exact ⟨us, hus, hs.eq (hname rfl (hspells.assign_tight hc))⟩

/-- **A literal after the name of a field** is a condition on its text. -/
theorem Span.compileFilter_text {value : List Char} (hname : NameText cs name)
    (hvalue : Literal value n) (hs : Spells (cs ++ '=' :: value) (s.lexemes.map Lexeme.token)) :
    s.compileFilter depth = ⟨.ok (.mk [⟨name, decimalText n⟩] [] none), []⟩ := by
  obtain ⟨us, hus, hts⟩ := hvalue.filterTokens cs hname.spells hs
  have htext : s.tail.tail.textArg? = some (decimalText n) := by
    refine hus.textArg? ?_
    rw [Span.tail, Span.tail, List.map_tail, List.map_tail, hts]
    rfl
  have hshape : filterShape s = .text ⟨name, decimalText n⟩ := by
    unfold filterShape
    rw [hts]
    cases hus <;> simp only [htext]
  unfold Span.compileFilter
  rw [compileFilters_eq, hshape]
  rfl

/-- **A literal after a marked name** is a condition on the value of the name. -/
theorem Span.compileFilter_value {value : List Char} {m : Type → Type} [Monad m] [LawfulMonad m]
    {ι : Type} (env : Environment m ι) (hname : NameText cs name) (hvalue : Literal value n)
    (hs : Spells ('#' :: (cs ++ '=' :: value)) (s.lexemes.map Lexeme.token))
    (hdepth : depth + 1 < nestingLimit) :
    ∃ e, s.compileFilter depth = ⟨.ok (.mk [] [(name, e)] none), []⟩ ∧
      e.evaluate env = pure n := by
  obtain ⟨us, hus, hts⟩ := hvalue.filterTokens ('#' :: cs) hname.spells_marked hs
  have htail : s.tail.tail.lexemes.map Lexeme.token = us := by
    rw [Span.tail, Span.tail, List.map_tail, List.map_tail, hts]
    rfl
  obtain ⟨e, he, hevaluate⟩ := hus.compileExpr env htail hdepth
  have hshape : filterShape s = .value name s.tail.tail := by
    unfold filterShape
    rw [hts]
    cases hus <;> rfl
  refine ⟨e, ?_, hevaluate⟩
  unfold Span.compileFilter
  rw [compileFilters_eq, hshape, compiledFilters, compiledFilters]
  simp only [he]
  rfl

end

end ByteAtlas
