import Mathlib
import ByteAtlas.Proofs.Expr.Brackets
import ByteAtlas.Proofs.Expr.Compilation

/-!
# Brackets in texts without a fault

The compiler looks at brackets in two ways. A span is scanned before it is cut, and the scan wants
every bracket closed by one of its own kind (`balancedFrom_of_outsideBrackets`). But brackets around
all of a span are taken off before that, and there only the depth counts
(`Span.exists_of_enclosed?`): a round bracket may then be closed by a square one. So the tokens of a
text without a fault are balanced but for those outermost brackets (`Expr.compile_brackets`), and
`(1]` is such a text (`Expr.compile_brackets_mixed`).
-/

namespace ByteAtlas

/-! ## 1. What the scans let through -/

theorem balancedFrom_plain {t : Token} (ht : t.isBracket = false) (opened : List Bracket)
    (ts : List Token) : balancedFrom opened (t :: ts) = balancedFrom opened ts :=
  (Nested.single ht).balancedFrom_append opened ts

/-- **Tokens through which the scan for brackets passes** are balanced. -/
theorem balancedFrom_of_outsideBrackets : ∀ {opened : List (Bracket × Nat)} {ls : List Lexeme}
    {marks : List Bool}, outsideBrackets opened ls = .ok marks →
    balancedFrom (opened.map Prod.fst) (ls.map Lexeme.token) = true
  | opened, [], _, h => by
    cases opened with
    | nil => rfl
    | cons _ _ => cases h
  | opened, l :: ls, marks, h => by
    have rest {opened' : List (Bracket × Nat)} {mark : Bool}
        (h : (outsideBrackets opened' ls).map (mark :: ·) = .ok marks) :
        balancedFrom (opened'.map Prod.fst) (ls.map Lexeme.token) = true := by
      cases hls : outsideBrackets opened' ls with
      | error d =>
        rw [hls] at h
        cases h
      | ok marks' => exact balancedFrom_of_outsideBrackets hls
    rw [List.map_cons]
    cases ht : l.token with
    | opening b =>
      simp only [outsideBrackets, ht] at h
      split at h
      · cases h
      · exact rest h
    | closing b =>
      simp only [outsideBrackets, ht] at h
      cases opened with
      | nil => cases h
      | cons o outer =>
        simp only at h
        split at h
        · rename_i hkind
          simp only [List.map_cons, balancedFrom, hkind, decide_true, Bool.true_and]
          exact rest h
        · cases h
    | _ =>
      simp only [outsideBrackets, ht] at h
      rw [balancedFrom_plain rfl]
      exact rest h

/-- The token at which a bracket closes is a closing one, of whatever kind. -/
theorem exists_closing_of_closesLast : ∀ {depth : Nat} {ls : List Lexeme},
    closesLast depth ls = true → ∃ (before : List Lexeme) (l : Lexeme) (b : Bracket),
      ls = before ++ [l] ∧ l.token = .closing b
  | _, [], h => nomatch h
  | depth, l :: ls, h => by
    have later {depth' : Nat} (h : closesLast depth' ls = true) :
        ∃ (before : List Lexeme) (l' : Lexeme) (b : Bracket),
          l :: ls = before ++ [l'] ∧ l'.token = .closing b := by
      obtain ⟨before, l', b, rfl, hl'⟩ := exists_closing_of_closesLast h
      exact ⟨l :: before, l', b, rfl, hl'⟩
    cases ht : l.token with
    | closing b =>
      match depth with
      | 0 => simp [closesLast, ht] at h
      | 1 =>
        rw [closesLast_partner ht, List.isEmpty_iff] at h
        exact ⟨[], l, b, by rw [h]; rfl, ht⟩
      | depth + 2 =>
        rw [closesLast_closing ht] at h
        exact later h
    | opening b =>
      rw [closesLast_opening ht] at h
      exact later h
    | _ =>
      rw [closesLast_plain (by rw [ht]; rfl)] at h
      exact later h

/-- **A span in brackets**: its first token opens, its last one closes, and the kind of the last one
is not looked at. -/
theorem Span.exists_of_enclosed? {s inner : Span} {b : Bracket} (h : s.enclosed? b = some inner) :
    ∃ (first last : Lexeme) (b' : Bracket), s.lexemes = first :: (inner.lexemes ++ [last]) ∧
      first.token = .opening b ∧ last.token = .closing b' ∧ inner.stop = last.pos := by
  unfold enclosed? at h
  split at h
  · rename_i hs
    obtain ⟨hfirst, hclose⟩ := hs
    cases h
    obtain ⟨first, hhead, hft⟩ := Option.map_eq_some_iff.mp hfirst
    obtain ⟨rest, hls⟩ := List.head?_eq_some_iff.mp hhead
    rw [hls, closesLast_opening hft] at hclose
    obtain ⟨before, last, b', rfl, hlast⟩ := exists_closing_of_closesLast hclose
    refine ⟨first, last, b', ?_, hft, hlast, ?_⟩ <;> simp [hls, tail, dropLast]
  · cases h

/-! ## 2. Balanced but for the outermost brackets -/

/-- **Brackets that are balanced but for the outermost ones**: round brackets around all of the
rest, closed by brackets of the kinds in `closers`, the innermost first. -/
def BalancedWithin (closers : List Bracket) (ts : List Token) : Prop :=
  ∃ inner, balanced inner = true ∧
    ts = List.replicate closers.length (.opening .round) ++ inner ++ closers.map .closing

theorem BalancedWithin.wrap {closers : List Bracket} {ts : List Token} (h : BalancedWithin closers ts)
    (b : Bracket) :
    BalancedWithin (closers ++ [b]) (.opening .round :: (ts ++ [.closing b])) := by
  obtain ⟨inner, hinner, rfl⟩ := h
  refine ⟨inner, hinner, ?_⟩
  simp [List.replicate_succ]

theorem balancedFrom_replicate (b : Bracket) (k : Nat) (opened : List Bracket) (ts : List Token) :
    balancedFrom opened (List.replicate k (.opening b) ++ ts) =
      balancedFrom (List.replicate k b ++ opened) ts := by
  induction k generalizing opened with
  | zero => rfl
  | succ k ih =>
    rw [List.replicate_succ, List.cons_append, balancedFrom, ih, List.replicate_succ',
      List.append_assoc]
    rfl

/-- Balanced tokens leave the brackets before them as they were. -/
theorem balancedFrom_append : ∀ {opened ts : _}, balancedFrom opened ts = true →
    ∀ (outer : List Bracket) (rest : List Token),
      balancedFrom (opened ++ outer) (ts ++ rest) = balancedFrom outer rest
  | opened, [], h, outer, rest => by
    cases opened with
    | nil => rfl
    | cons _ _ => cases h
  | opened, t :: ts, h, outer, rest => by
    rw [List.cons_append]
    cases t with
    | opening b =>
      have h : balancedFrom (b :: opened) ts = true := h
      exact balancedFrom_append h outer rest
    | closing b =>
      cases opened with
      | nil => cases h
      | cons b' opened =>
        simp only [balancedFrom, Bool.and_eq_true, decide_eq_true_eq] at h
        simp only [List.cons_append, balancedFrom, h.1, decide_true, Bool.true_and]
        exact balancedFrom_append h.2 outer rest
    | _ =>
      rw [balancedFrom_plain rfl] at h ⊢
      exact balancedFrom_append h outer rest

/-- As many closing brackets as round ones are open. -/
theorem balancedFrom_closers : ∀ closers : List Bracket,
    balancedFrom (List.replicate closers.length .round) (closers.map .closing) = true ↔
      ∀ b ∈ closers, b = .round
  | [] => by simp [balancedFrom]
  | b :: closers => by
    rw [List.length_cons, List.replicate_succ, List.map_cons, balancedFrom, Bool.and_eq_true,
      decide_eq_true_eq, balancedFrom_closers closers, List.forall_mem_cons, eq_comm]

/-- Such tokens are balanced just if the outermost brackets are closed by round ones. -/
theorem BalancedWithin.balanced_iff {closers : List Bracket} {ts : List Token}
    (h : BalancedWithin closers ts) : balanced ts = true ↔ ∀ b ∈ closers, b = .round := by
  obtain ⟨inner, hinner, rfl⟩ := h
  rw [balanced, List.append_assoc, balancedFrom_replicate]
  have hskip := balancedFrom_append hinner (List.replicate closers.length .round ++ [])
    (closers.map .closing)
  rw [List.nil_append] at hskip
  rw [hskip, List.append_nil]
  exact balancedFrom_closers closers

/-! ## 3. Expressions without a fault -/

/-- **What has a shape is balanced**, unless it is the inside of brackets that gives it one. -/
theorem balanced_of_exprShape {s : Span} {sh : ExprShape} (h : exprShape s = .ok sh) :
    balanced (s.lexemes.map Lexeme.token) = true ∨
      ∃ inner, sh = .enclosed inner ∧ s.enclosed? .round = some inner := by
  unfold exprShape at h
  split at h
  · cases h
  · rename_i n hn
    rw [hn]
    exact .inl rfl
  · split at h
    · rename_i inner hinner
      cases h
      exact .inr ⟨inner, rfl, hinner⟩
    · refine .inl ?_
      cases hmarks : outsideBrackets [] s.lexemes with
      | error d =>
        have hcut : s.atWeakest = .error d := by
          simp [Span.atWeakest, Span.cuts, hmarks, Except.map]
        rw [hcut] at h
        cases h
      | ok marks => exact balancedFrom_of_outsideBrackets hmarks

/-- **An expression that compiles without a fault**, by induction on its length: brackets around all
of it are taken off one after the other, and then it is scanned. -/
theorem balancedWithin_of_compileExpr (s : Span) (depth : Nat)
    (h : (compileExpr s depth).diagnostics = []) :
    ∃ closers, BalancedWithin closers (s.lexemes.map Lexeme.token) := by
  rw [compileExpr_eq] at h
  split at h
  · cases h
  · split at h
    · cases h
    · rename_i sh hsh
      rcases balanced_of_exprShape hsh with hbalanced | ⟨inner, rfl, hinner⟩
      · exact ⟨[], _, hbalanced, by simp⟩
      · obtain ⟨first, last, b, hls, hfirst, hlast, -⟩ := Span.exists_of_enclosed? hinner
        obtain ⟨closers, hwithin⟩ := balancedWithin_of_compileExpr inner (depth + 1) h
        refine ⟨closers ++ [b], ?_⟩
        rw [hls, List.map_cons, List.map_append, hfirst, List.map_singleton, hlast]
        exact hwithin.wrap b
termination_by s.length
decreasing_by exact Span.enclosed?_length_lt hinner

/-- **The brackets of a text without a fault.** Its tokens are balanced but for round brackets
around all of them, and they are balanced just if round brackets close those too. -/
theorem Expr.compile_brackets {source : String} (h : (Expr.compile source).diagnostics = []) :
    ∃ lexemes, tokenize source = .ok lexemes ∧
      ∃ closers, BalancedWithin closers (lexemes.map Lexeme.token) ∧
        (balanced (lexemes.map Lexeme.token) = true ↔ ∀ b ∈ closers, b = .round) := by
  unfold Expr.compile at h
  split at h
  · cases h
  · rename_i lexemes hlexemes
    unfold compileTokens at h
    split at h
    · cases h
    · obtain ⟨closers, hwithin⟩ := balancedWithin_of_compileExpr _ 0 h
      exact ⟨lexemes, hlexemes, closers, hwithin, hwithin.balanced_iff⟩

/-- Nothing is wrong with `(1]`, whose round bracket is closed by a square one. -/
theorem Expr.compile_brackets_mixed :
    (Expr.compile "(1]").diagnostics = [] ∧ (Expr.compile "(1]").tree = .constant 1 ∧
      ∃ lexemes, tokenize "(1]" = .ok lexemes ∧ balanced (lexemes.map Lexeme.token) = false ∧
        ∃ closers, BalancedWithin closers (lexemes.map Lexeme.token) ∧ .square ∈ closers := by
  have hclean : (Expr.compile "(1]").diagnostics = [] := by cbv
  have htree : (Expr.compile "(1]").tree = .constant 1 := by cbv
  have htokens : tokenize "(1]" =
      .ok [⟨.opening .round, 0⟩, ⟨.int 1, 1⟩, ⟨.closing .square, 2⟩] := by cbv
  obtain ⟨lexemes, hlexemes, closers, hwithin, hiff⟩ := Expr.compile_brackets hclean
  cases htokens.symm.trans hlexemes
  have hmixed : ¬ ∀ b ∈ closers, b = .round := fun hround =>
    absurd (hiff.mpr hround) (by decide)
  push Not at hmixed
  obtain ⟨b, hb, hne⟩ := hmixed
  refine ⟨hclean, htree, _, hlexemes, rfl, closers, hwithin, ?_⟩
  cases b with
  | round => exact absurd rfl hne
  | square => exact hb

end ByteAtlas
