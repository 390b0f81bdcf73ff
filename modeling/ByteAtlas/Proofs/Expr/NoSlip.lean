import ByteAtlas.Proofs.Expr.Boundaries
import ByteAtlas.Proofs.Expr.QueryProductions

/-!
# Compiling in place does not slip

The tokenizer cuts the text at the positions that it has reached, which lie between characters
(`does_tokensFrom`). Its tokens are a range, and a range compiles as its span does. So compiling in
place gives what compiling gives, for every text, and it does not slip
(`Expr.compileInPlace_eq`).
-/

namespace ByteAtlas

namespace InPlace

/-! ## 1. Tokens of a text -/

/-- **What is left of a text from a boundary on.** -/
theorem does_sliceFrom : ∀ (front cs : List Char),
    Does (sliceFrom (byteLength front) (front ++ cs)) (.ok cs) []
  | [], [] => .pure _
  | [], c :: cs => .pure _
  | c :: front, cs => by
    have hlength : byteLength (c :: front) = c.utf8Size + byteLength front := rfl
    have hpos := c.utf8Size_pos
    rw [List.cons_append, sliceFrom, if_neg (by omega), if_pos (by omega), hlength,
      Nat.add_sub_cancel_left]
    exact does_sliceFrom front cs

/-- The first symbol that a text starts with. -/
theorem firstSymbol_eq_find? (cs : List Char) : ∀ table : List (List Char × Token),
    firstSymbol cs table =
      (table.find? fun symbol => (stripFront symbol.1 cs).isSome).map fun symbol =>
        ⟨symbol.2, cs.take symbol.1.length, cs.drop symbol.1.length⟩
  | [] => rfl
  | (text, token) :: more => by
    rw [firstSymbol, List.find?_cons]
    cases hfront : stripFront text cs with
    | none => exact firstSymbol_eq_find? cs more
    | some rest =>
      have hcs := stripFront_eq_some hfront
      simp [← hcs]

/-- The result of reading one token, at a byte of the text. -/
def shifted (pos : Nat) : Except Diagnostic Scan → Except Diagnostic Scan
  | .error d => .error (d.shift pos)
  | .ok s => .ok s

/-- **One token.** -/
theorem does_tokenAt (front : List Char) (c : Char) (cs : List Char) :
    Does (tokenAt (front ++ c :: cs) (byteLength front) c cs)
      (shifted (byteLength front) (scanToken c cs)) [] := by
  unfold tokenAt
  split
  · cases scanToken c cs with
    | error d => exact .throw _
    | ok s => exact .pure _
  · rename_i hsymbol
    have hscan : scanToken c cs = scanSymbol c cs := by
      simp only [Bool.or_eq_true, not_or, Bool.not_eq_true] at hsymbol
      obtain ⟨⟨⟨hdigit, hword⟩, hquote⟩, hhash⟩ := hsymbol
      simp [scanToken, hdigit, hword, hquote, hhash]
    rw [hscan, scanSymbol, firstSymbol_eq_find?]
    refine .next (does_sliceFrom front (c :: cs)) ?_
    cases hfind : symbols.find? fun symbol => (stripFront symbol.1 (c :: cs)).isSome with
    | none => exact .throw _
    | some symbol => exact .pure _

/-- **The tokens of the rest of a text**, by induction on what is left. -/
theorem does_tokensFrom (front cs : List Char) (done : List Lexeme) :
    Does (tokensFrom (front ++ cs) (byteLength front) cs done)
      (tokenizeFrom (byteLength front) cs done) [] := by
  match cs with
  | [] =>
    rw [tokensFrom, tokenizeFrom]
    exact .pure _
  | c :: cs =>
    rw [tokensFrom, tokenizeFrom]
    split
    · have hfront : byteLength front + c.utf8Size = byteLength (front ++ [c]) := by
        rw [byteLength_append]
        rfl
      have htext : front ++ c :: cs = (front ++ [c]) ++ cs := by simp
      rw [htext, hfront]
      exact does_tokensFrom (front ++ [c]) cs done
    · have htoken := does_tokenAt front c cs
      split
      · rename_i d hscan
        rw [hscan] at htoken
        exact .stop htoken
      · rename_i s hscan
        rw [hscan] at htoken
        have hlt := scanToken_rest_lt hscan
        have htext : front ++ c :: cs = (front ++ s.taken) ++ s.rest := by
          rw [List.append_assoc, scanToken_append hscan]
        refine .next htoken ?_
        rw [dif_pos hlt, htext, ← byteLength_append]
        exact does_tokensFrom (front ++ s.taken) s.rest _
termination_by cs.length

/-! ## 2. The limit of operators -/

variable {whole s : Span} {r : Range}

/-- **The operator past the limit**, by induction on the tokens that are left. -/
theorem Covers.operatorPastLimit (h : Covers whole r s) : ∀ (ls before : List Lexeme) (skip : Nat),
    s.lexemes = before ++ ls →
    ∃ found, Does (operatorPastLimit whole r.start ls.length (r.start + before.length) skip)
        (.ok found) [] ∧
      found.map (posAt whole) =
        ((ls.zip (binaryMarks (earlier? before) (previous? before) ls)).filter fun l =>
          l.2.isSome)[skip]?.map fun l => l.1.pos
  | [], _, _, _ => ⟨none, .pure _, rfl⟩
  | l :: ls, before, skip, hs => by
    obtain ⟨yes, hyes, hbinary⟩ := h.isBinaryPosition before hs rfl
    have hnext : (before ++ [l]).length = before.length + 1 := List.length_append
    have hbehind : s.lexemes = (before ++ [l]) ++ ls := by rw [hs, List.append_assoc]; rfl
    have hrest (skip : Nat) := h.operatorPastLimit ls (before ++ [l]) skip hbehind
    simp only [hnext, earlier?_concat, previous?_concat] at hrest
    have hkind := h.kind before hs rfl
    rw [List.length_cons, InPlace.operatorPastLimit.eq_def, binaryMarks, List.zip_cons_cons, hbinary]
    dsimp only
    cases hop : binaryOp? l.token with
    | none =>
      obtain ⟨found, hdoes, hfound⟩ := hrest skip
      refine ⟨found, .next hkind (by rw [hop]; exact hdoes), ?_⟩
      rw [hfound]
      cases yes <;> rfl
    | some op =>
      cases yes with
      | false =>
        obtain ⟨found, hdoes, hfound⟩ := hrest skip
        exact ⟨found, .next hkind (by rw [hop]; exact .next hyes hdoes), hfound⟩
      | true =>
        cases skip with
        | zero =>
          refine ⟨some (r.start + before.length), .next hkind ?_, ?_⟩
          · rw [hop]
            exact .next hyes (.pure _)
          · rw [Option.map_some, h.posAt_eq before hs rfl]
            rfl
        | succ skip =>
          obtain ⟨found, hdoes, hfound⟩ := hrest skip
          exact ⟨found, .next hkind (by rw [hop]; exact .next hyes hdoes), hfound⟩

/-- **All tokens.** -/
theorem compiles_compileAll (whole : Span) : Compiles (compileAll whole) (compileTokens whole) := by
  have hall := Covers.all whole
  obtain ⟨found, hdoes, hfound⟩ := hall.operatorPastLimit whole.lexemes [] operatorLimit rfl
  have hpast : found.map (posAt whole) = (operatorPastLimit? whole.lexemes).map Lexeme.pos := by
    rw [hfound, operatorPastLimit?, Option.map_map]
    rfl
  unfold compileAll compileTokens
  cases hlexeme : operatorPastLimit? whole.lexemes with
  | some l =>
    rw [hlexeme] at hpast
    obtain ⟨i, rfl, hi⟩ := Option.map_eq_some_iff.mp hpast
    refine .next hdoes ?_
    dsimp only
    rw [← hi]
    exact .last (.note _) (.pure _)
  | none =>
    rw [hlexeme, Option.map_none, Option.map_eq_none_iff] at hpast
    subst hpast
    exact .next hdoes (.next (does_range (Nat.zero_le _)) (hall.expr 0))

/-- The tree of a text, from its tokens on. -/
theorem reports_source (source : String) :
    Reports (compileSource source) .error (Expr.compile source) := by
  have htokens : Does (tokensFrom source.toList 0 source.toList []) (tokenize source) [] :=
    does_tokensFrom [] source.toList []
  unfold Expr.compile
  cases hlexemes : tokenize source with
  | error d =>
    rw [hlexemes] at htokens
    exact .of_error (.stop htokens)
  | ok lexemes =>
    rw [hlexemes] at htokens
    exact .next htokens (.of_ok (compiles_compileAll ⟨lexemes, source.utf8ByteSize⟩))

end InPlace

/-- **Compiling in place gives what compiling gives**, and it never slips: whatever the text is, no
token is read that is not there, no difference of indices underflows, no range ends before it
starts, every part that is compiled is shorter than the whole, and the text is cut between
characters only. -/
theorem Expr.compileInPlace_eq (source : String) :
    Expr.compileInPlace source = .ok (Expr.compile source) := by
  unfold Expr.compileInPlace
  rw [InPlace.reports_source source []]
  rfl

end ByteAtlas
