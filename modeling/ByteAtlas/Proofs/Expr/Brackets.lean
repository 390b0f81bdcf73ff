import ByteAtlas.Proofs.Expr.Rendering

/-!
# Brackets that match

`Nested` are the tokens whose brackets match. What the compiler's scans over brackets do on them is
said once here:

* `outside`: which tokens stand outside all brackets, and that `outsideBrackets` finds just those
  (`outsideBrackets_eq_ok`);
* `deepest`: the depth of a run of tokens is that of its deepest part;
* `closesLast`: a bracket closes at its partner and nowhere else;
* `AtTop`: the glyphs outside all brackets. Those of a sequence are those of its parts, and a group
  in brackets has none.
-/

namespace ByteAtlas

/-! ## 1. Matching brackets -/

/-- Whether a token is a bracket. -/
def Token.isBracket : Token → Bool
  | .opening _ | .closing _ => true
  | _ => false

/-- **Tokens whose brackets match.** -/
inductive Nested : List Token → Prop
  | nil : Nested []
  | plain {t : Token} {ts : List Token} (ht : t.isBracket = false) (hts : Nested ts) :
    Nested (t :: ts)
  | wrap {b : Bracket} {inner ts : List Token} (hinner : Nested inner) (hts : Nested ts) :
    Nested (.opening b :: (inner ++ .closing b :: ts))

theorem Nested.append {xs ys : List Token} (hx : Nested xs) (hy : Nested ys) :
    Nested (xs ++ ys) := by
  induction hx with
  | nil => exact hy
  | plain ht _ ih => exact .plain ht ih
  | @wrap b inner ts hinner _ _ ih =>
    have h : Nested (.opening b :: (inner ++ .closing b :: (ts ++ ys))) := .wrap hinner ih
    simpa using h

/-- Tokens none of which is a bracket. -/
theorem Nested.single {t : Token} (ht : t.isBracket = false) : Nested [t] :=
  .plain ht .nil

theorem Nested.balancedFrom_append {xs : List Token} (hx : Nested xs) :
    ∀ (opened : List Bracket) (ys : List Token),
      balancedFrom opened (xs ++ ys) = balancedFrom opened ys := by
  induction hx with
  | nil => exact fun _ _ => rfl
  | @plain t ts ht _ ih =>
    intro opened ys
    rw [List.cons_append, ← ih opened ys]
    cases t with
    | opening b => cases ht
    | closing b => cases ht
    | _ => cases opened <;> rfl
  | @wrap b inner ts _ _ ihinner ih =>
    intro opened ys
    rw [List.cons_append, balancedFrom, List.append_assoc, ihinner, List.cons_append, balancedFrom,
      ih]
    simp

/-- Nested tokens are balanced. -/
theorem Nested.balanced {ts : List Token} (h : Nested ts) : balanced ts = true := by
  have := h.balancedFrom_append [] []
  rw [List.append_nil] at this
  exact this

/-! ## 2. Outside all brackets -/

/-- Which tokens stand outside all brackets, `depth` of them being open before. -/
def outside : (depth : Nat) → List Token → List Bool
  | _, [] => []
  | depth, .opening _ :: ts => false :: outside (depth + 1) ts
  | depth, .closing _ :: ts => false :: outside (depth - 1) ts
  | depth, _ :: ts => (depth == 0) :: outside depth ts

theorem outside_length : ∀ (depth : Nat) (ts : List Token), (outside depth ts).length = ts.length
  | _, [] => rfl
  | depth, t :: ts => by
    cases t <;> simp [outside, outside_length _ ts]

theorem outside_plain {t : Token} (ht : t.isBracket = false) (depth : Nat) (ts : List Token) :
    outside depth (t :: ts) = (depth == 0) :: outside depth ts := by
  cases t with
  | opening b => cases ht
  | closing b => cases ht
  | _ => rfl

theorem deepest_plain {t : Token} (ht : t.isBracket = false) (depth : Nat) (ts : List Token) :
    deepest depth (t :: ts) = deepest depth ts := by
  cases t with
  | opening b => cases ht
  | closing b => cases ht
  | _ => rfl

theorem le_deepest : ∀ (depth : Nat) (ts : List Token), depth ≤ deepest depth ts
  | _, [] => Nat.le_refl _
  | depth, t :: ts => by
    cases t with
    | opening b => exact Nat.le_trans (Nat.le_succ depth) (le_deepest (depth + 1) ts)
    | closing b => exact Nat.le_max_left _ _
    | _ => exact le_deepest depth ts

/-- **The scan for brackets succeeds** on balanced tokens that are not too deep. -/
theorem outsideBrackets_eq_ok : ∀ {opened : List (Bracket × Nat)} {ls : List Lexeme},
    balancedFrom (opened.map Prod.fst) (ls.map Lexeme.token) = true →
    deepest opened.length (ls.map Lexeme.token) ≤ nestingLimit →
    outsideBrackets opened ls = .ok (outside opened.length (ls.map Lexeme.token))
  | opened, [], hb, _ => by
    cases opened with
    | nil => rfl
    | cons b opened => cases hb
  | opened, l :: ls, hb, hd => by
    unfold outsideBrackets
    rw [List.map_cons] at hb hd ⊢
    split
    · rename_i b ht
      rw [ht] at hb hd
      have hlt : opened.length < nestingLimit := Nat.lt_of_lt_of_le (le_deepest _ _) hd
      have ih : outsideBrackets ((b, l.pos) :: opened) ls =
          .ok (outside (opened.length + 1) (ls.map Lexeme.token)) := outsideBrackets_eq_ok hb hd
      rw [if_neg (Nat.not_le.mpr hlt), ih, ht]
      rfl
    · rename_i b ht
      rw [ht] at hb hd
      cases opened with
      | nil => cases hb
      | cons o opened =>
        simp only [List.map_cons, balancedFrom, Bool.and_eq_true, decide_eq_true_eq] at hb
        have hd' : deepest opened.length (ls.map Lexeme.token) ≤ nestingLimit :=
          Nat.le_trans (Nat.le_max_right _ _) hd
        simp only [hb.1, if_true, outsideBrackets_eq_ok hb.2 hd', ht]
        rfl
    · rename_i hno hnc
      have ht : l.token.isBracket = false := by
        cases hl : l.token with
        | opening b => exact absurd hl (hno b)
        | closing b => exact absurd hl (hnc b)
        | _ => rfl
      have hb' : balancedFrom (opened.map Prod.fst) (ls.map Lexeme.token) = true := by
        rw [← hb]
        exact ((Nested.single ht).balancedFrom_append _ _).symm
      rw [deepest_plain ht] at hd
      rw [outsideBrackets_eq_ok hb' hd, outside_plain ht]
      cases opened <;> rfl

theorem closesLast_plain {l : Lexeme} (hl : l.token.isBracket = false) (depth : Nat)
    (ls : List Lexeme) : closesLast depth (l :: ls) = closesLast depth ls := by
  cases ht : l.token with
  | opening b =>
    rw [ht] at hl
    cases hl
  | closing b =>
    rw [ht] at hl
    cases hl
  | _ => simp [closesLast, ht]

theorem closesLast_opening {l : Lexeme} {b : Bracket} (hl : l.token = .opening b) (depth : Nat)
    (ls : List Lexeme) : closesLast depth (l :: ls) = closesLast (depth + 1) ls := by
  simp [closesLast, hl]

theorem closesLast_closing {l : Lexeme} {b : Bracket} (hl : l.token = .closing b) (depth : Nat)
    (ls : List Lexeme) : closesLast (depth + 2) (l :: ls) = closesLast (depth + 1) ls := by
  simp [closesLast, hl]

theorem closesLast_partner {l : Lexeme} {b : Bracket} (hl : l.token = .closing b)
    (ls : List Lexeme) : closesLast 1 (l :: ls) = ls.isEmpty := by
  simp [closesLast, hl]

section

variable {xs ys : List Token}

theorem Nested.outside_append (hx : Nested xs) :
    ∀ (depth : Nat) (ys : List Token),
      outside depth (xs ++ ys) = outside depth xs ++ outside depth ys := by
  induction hx with
  | nil => exact fun _ _ => rfl
  | plain ht _ ih =>
    intro depth ys
    rw [List.cons_append, outside_plain ht, outside_plain ht, ih]
    rfl
  | wrap _ _ ihinner ih =>
    intro depth ys
    simp only [List.cons_append, List.append_assoc, outside, ihinner, Nat.add_sub_cancel, ih]

/-- Inside of brackets nothing is outside. -/
theorem Nested.outside_inner (hx : Nested xs) :
    ∀ depth, ∀ o ∈ outside (depth + 1) xs, o = false := by
  induction hx with
  | nil => exact fun _ _ ho => nomatch ho
  | plain ht _ ih =>
    intro depth o ho
    rw [outside_plain ht] at ho
    rcases List.mem_cons.mp ho with rfl | ho
    · rfl
    · exact ih depth o ho
  | wrap hinner _ ihinner ih =>
    intro depth o ho
    simp only [outside, hinner.outside_append, List.mem_cons, List.mem_append,
      Nat.add_sub_cancel] at ho
    rcases ho with rfl | ho | rfl | ho
    · rfl
    · exact ihinner (depth + 1) o ho
    · rfl
    · exact ih depth o ho

theorem Nested.deepest_append (hx : Nested xs) :
    ∀ (depth : Nat) (ys : List Token),
      deepest depth (xs ++ ys) = max (deepest depth xs) (deepest depth ys) := by
  induction hx with
  | nil => exact fun depth ys => (Nat.max_eq_right (le_deepest depth ys)).symm
  | plain ht _ ih =>
    intro depth ys
    rw [List.cons_append, deepest_plain ht, deepest_plain ht, ih]
  | wrap _ _ ihinner ih =>
    intro depth ys
    simp only [List.cons_append, List.append_assoc, deepest, ihinner, Nat.add_sub_cancel, ih]
    omega

theorem Nested.closesLast_append (hx : Nested xs) :
    ∀ (depth : Nat) (ls rest : List Lexeme), ls.map Lexeme.token = xs →
      closesLast (depth + 1) (ls ++ rest) = closesLast (depth + 1) rest := by
  induction hx with
  | nil =>
    intro depth ls rest hl
    rw [List.map_eq_nil_iff.mp hl, List.nil_append]
  | @plain t ts ht _ ih =>
    intro depth ls rest hl
    obtain ⟨l, ls, rfl, hlt, hls⟩ := List.map_eq_cons_iff.mp hl
    rw [List.cons_append, closesLast_plain (hlt ▸ ht), ih depth ls rest hls]
  | @wrap b inner ts _ _ ihinner ih =>
    intro depth ls rest hl
    obtain ⟨l, ls, rfl, hlt, hls⟩ := List.map_eq_cons_iff.mp hl
    obtain ⟨lsi, lst, rfl, hi, ht⟩ := List.map_eq_append_iff.mp hls
    obtain ⟨c, ls, rfl, hct, hls⟩ := List.map_eq_cons_iff.mp ht
    rw [List.cons_append, closesLast_opening hlt, List.append_assoc, ihinner (depth + 1) lsi _ hi,
      List.cons_append, closesLast_closing hct, ih depth ls rest hls]

end

/-! ## 3. Glyphs outside all brackets -/

/-- The glyphs, each with whether it stands outside all brackets. -/
def markedGlyphs (gs : List Glyph) : List (Glyph × Bool) :=
  gs.zip (outside 0 (tokensOf gs))

/-- **Whether a glyph stands outside all brackets.** -/
def AtTop (gs : List Glyph) (g : Glyph) : Prop :=
  (g, true) ∈ markedGlyphs gs

@[simp]
theorem tokensOf_nil : tokensOf [] = [] := rfl

@[simp]
theorem tokensOf_cons (g : Glyph) (gs : List Glyph) : tokensOf (g :: gs) = g.token :: tokensOf gs :=
  rfl

@[simp]
theorem tokensOf_append (xs ys : List Glyph) : tokensOf (xs ++ ys) = tokensOf xs ++ tokensOf ys :=
  List.map_append

theorem tokensOf_inBrackets (b : Bracket) (gs : List Glyph) :
    tokensOf (inBrackets b gs) = .opening b :: (tokensOf gs ++ [.closing b]) := by
  simp [inBrackets, Glyph.plain]

theorem Nested.inBrackets {b : Bracket} {gs : List Glyph} (h : Nested (tokensOf gs)) :
    Nested (tokensOf (inBrackets b gs)) := by
  rw [tokensOf_inBrackets]
  exact .wrap h .nil

section

variable {g : Glyph} {xs ys gs : List Glyph}

theorem markedGlyphs_append (hx : Nested (tokensOf xs)) (ys : List Glyph) :
    markedGlyphs (xs ++ ys) = markedGlyphs xs ++ markedGlyphs ys := by
  unfold markedGlyphs
  rw [tokensOf_append, hx.outside_append, List.zip_append]
  rw [outside_length, tokensOf, List.length_map]

theorem atTop_nil : ¬ AtTop [] g :=
  fun h => nomatch h

theorem atTop_cons {g' : Glyph} (hg : g'.token.isBracket = false) :
    AtTop (g' :: gs) g ↔ g = g' ∨ AtTop gs g := by
  unfold AtTop markedGlyphs
  rw [tokensOf_cons, outside_plain hg]
  simp

theorem atTop_append (hx : Nested (tokensOf xs)) :
    AtTop (xs ++ ys) g ↔ AtTop xs g ∨ AtTop ys g := by
  unfold AtTop
  rw [markedGlyphs_append hx, List.mem_append]

/-- A group in brackets has nothing outside. -/
theorem not_atTop_inBrackets {b : Bracket} (h : Nested (tokensOf gs)) :
    ¬ AtTop (inBrackets b gs) g := by
  intro hg
  have hmem : true ∈ outside 0 (tokensOf (inBrackets b gs)) := (List.of_mem_zip hg).2
  rw [tokensOf_inBrackets] at hmem
  simp only [outside, h.outside_append, List.mem_cons, List.mem_append, List.not_mem_nil, or_false,
    Bool.true_eq_false, false_or] at hmem
  exact Bool.noConfusion (h.outside_inner 0 true hmem)

end

end ByteAtlas
