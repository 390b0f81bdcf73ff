import Mathlib
import ByteAtlas.Proofs.Expr.InBounds
import ByteAtlas.Proofs.Expr.Runs

/-!
# The operators of the parts of a span

The operators of a text are counted once, over all its tokens. The compiler decides anew in each
part which of its tokens are operators, from the tokens of that part alone. What is an operator
there has been counted: a part never starts with the name of an intrinsic, and that is the only
token whose follower is looked at differently without the token before it
(`operatorsAmong_start_le`).

No two parts share a token. So the parts of an expression have, together with the operator that
cuts it, at most as many operators as the whole (`exprShape_operators`), and so have the parts of a
query (`queryShape_operators`).
-/

namespace ByteAtlas

open InPlace (isName binaryAt_eq)

/-! ## 1. Operators among some tokens -/

/-- How many of some tokens are operators, the two tokens before them being given. -/
def operatorsAmong (earlier previous : Option Token) (ls : List Lexeme) : Nat :=
  (binaryMarks earlier previous ls).countP Option.isSome

/-- **How many operators a span has**, those inside brackets included, read by itself. -/
def Span.operators (s : Span) : Nat :=
  operatorsAmong none none s.lexemes

/-- Whether a part may start with some tokens. Behind a dollar, a name is that of an intrinsic. -/
def MayStart (previous : Option Token) (ls : List Lexeme) : Prop :=
  previous = some .dollar → ∀ l ∈ ls.head?, isName l.token = false

section

variable {earlier previous : Option Token} {l : Lexeme} {xs ys : List Lexeme}

theorem operatorsAmong_cons (earlier previous : Option Token) (l : Lexeme) (ls : List Lexeme) :
    operatorsAmong earlier previous (l :: ls) =
      (binaryAt earlier previous l.token).isSome.toNat +
        operatorsAmong previous (some l.token) ls := by
  unfold operatorsAmong
  rw [binaryMarks, List.countP_cons, Nat.add_comm]
  cases (binaryAt earlier previous l.token).isSome <;> rfl

theorem mayStart_of_ne (h : l.token ≠ .dollar) : MayStart (some l.token) ys :=
  fun hl => absurd (Option.some.inj hl) h

theorem mayStart_nil : MayStart previous [] :=
  fun _ _ hl => nomatch hl

/-- **What is an operator in a part is one in the whole.** Only the first two tokens of the part are
read with other tokens before them: the first is no operator in the part, and the second is one
either way. -/
theorem operatorsAmong_start_le (h : MayStart previous ys) :
    operatorsAmong none none ys ≤ operatorsAmong earlier previous ys := by
  match ys with
  | [] => exact Nat.le_refl _
  | [l] =>
    have hfirst : binaryAt none none l.token = none := by cases l.token <;> rfl
    rw [operatorsAmong_cons, hfirst]
    exact Nat.zero_le _
  | l :: second :: rest =>
    have hfirst : binaryAt none none l.token = none := by cases l.token <;> rfl
    have hsecond : binaryAt none (some l.token) second.token =
        binaryAt previous (some l.token) second.token := by
      rw [binaryAt_eq, binaryAt_eq]
      by_cases hdollar : previous = some .dollar
      · rw [h hdollar l rfl, Bool.and_false, Bool.and_false]
      · rw [decide_eq_false hdollar]
        rfl
    rw [operatorsAmong_cons none none, operatorsAmong_cons none, operatorsAmong_cons earlier,
      operatorsAmong_cons previous, hfirst, hsecond, Option.isSome_none, Bool.toNat_false,
      Nat.zero_add]
    exact Nat.le_add_left _ _

/-- The operators behind some tokens depend on the last two of them. -/
theorem exists_binaryMarks_append : ∀ (xs : List Lexeme) (earlier previous : Option Token),
    ∃ earlier' previous', ∀ ys, binaryMarks earlier previous (xs ++ ys) =
      binaryMarks earlier previous xs ++ binaryMarks earlier' previous' ys
  | [], earlier, previous => ⟨earlier, previous, fun _ => rfl⟩
  | x :: xs, earlier, previous => by
    obtain ⟨earlier', previous', happend⟩ := exists_binaryMarks_append xs previous (some x.token)
    refine ⟨earlier', previous', fun ys => ?_⟩
    rw [List.cons_append, binaryMarks, binaryMarks, happend, List.cons_append]

/-- **What stands on either side of a token**, and the token itself if it is an operator. -/
theorem operatorsAmong_around (earlier previous : Option Token) (xs : List Lexeme) (l : Lexeme)
    (ys : List Lexeme) : ∃ earlier' previous',
    (binaryMarks earlier previous (xs ++ l :: ys))[xs.length]? =
        some (binaryAt earlier' previous' l.token) ∧
      (MayStart (some l.token) ys →
        operatorsAmong earlier previous xs + operatorsAmong none none ys +
            (binaryAt earlier' previous' l.token).isSome.toNat ≤
          operatorsAmong earlier previous (xs ++ l :: ys)) := by
  obtain ⟨earlier', previous', happend⟩ := exists_binaryMarks_append xs earlier previous
  refine ⟨earlier', previous', ?_, fun h => ?_⟩
  · rw [happend, ← Span.length_binaryMarks earlier previous xs,
      List.getElem?_append_right (Nat.le_refl _), Nat.sub_self]
    rfl
  · have hstart : operatorsAmong none none ys ≤ operatorsAmong previous' (some l.token) ys :=
      operatorsAmong_start_le h
    have hsplit : operatorsAmong earlier previous (xs ++ l :: ys) =
        operatorsAmong earlier previous xs + operatorsAmong earlier' previous' (l :: ys) := by
      unfold operatorsAmong
      rw [happend, List.countP_append]
    rw [hsplit, operatorsAmong_cons]
    omega

end

/-- The tokens that are operators are as many as the operators. -/
theorem length_filter_operators (ls : List Lexeme) :
    ((ls.zip (binaryMarks none none ls)).filter fun l => l.2.isSome).length =
      operatorsAmong none none ls := by
  have hsnd : (ls.zip (binaryMarks none none ls)).map Prod.snd = binaryMarks none none ls :=
    List.map_snd_zip (Nat.le_of_eq (Span.length_binaryMarks none none ls))
  rw [operatorsAmong, ← hsnd, List.countP_map, List.countP_eq_length_filter, hsnd]
  rfl

/-- **A text is read** as long as it has no more operators than allowed. -/
theorem operatorPastLimit?_eq_none_iff {ls : List Lexeme} :
    operatorPastLimit? ls = none ↔ operatorsAmong none none ls ≤ operatorLimit := by
  rw [operatorPastLimit?, Option.map_eq_none_iff, List.getElem?_eq_none_iff,
    length_filter_operators]

namespace Span

variable {s t u : Span} {l : Lexeme}

/-! ## 2. Cutting -/

theorem operators_around (before : List Lexeme) {after : List Lexeme}
    (h : s.lexemes = before ++ l :: after) (hl : MayStart (some l.token) after)
    (ht : t.lexemes = before) (hu : u.lexemes = after) :
    t.operators + u.operators ≤ s.operators := by
  obtain ⟨_, _, -, hle⟩ := operatorsAmong_around none none before l after
  have hle := hle hl
  rw [operators, operators, operators, h, ht, hu]
  omega

theorem operators_tail_le (h : ∀ l ∈ s.lexemes.head?, MayStart (some l.token) s.lexemes.tail) :
    s.tail.operators ≤ s.operators := by
  cases hs : s.lexemes with
  | nil => rw [operators, operators, tail, hs, List.tail_nil]
  | cons l ls =>
    rw [hs] at h
    have hle := operators_around (s := s) (t := ⟨[], s.stop⟩) (u := s.tail) [] hs
      (h l rfl) rfl (by rw [tail, hs, List.tail_cons])
    omega

/-- Behind a token that is no dollar. -/
theorem operators_tail_le_of_ne (h : s.first? ≠ some .dollar) : s.tail.operators ≤ s.operators := by
  refine operators_tail_le fun l hl => mayStart_of_ne fun hdollar => h ?_
  rw [first?, Option.mem_def.mp hl, Option.map_some, hdollar]

theorem operators_dropLast_le (s : Span) : s.dropLast.operators ≤ s.operators := by
  rcases List.eq_nil_or_concat s.lexemes with hs | ⟨front, l, hs⟩
  · rw [operators, operators, dropLast, hs, List.dropLast_nil]
  · rw [List.concat_eq_append] at hs
    have hle := operators_around (s := s) (t := s.dropLast) (u := ⟨[], s.stop⟩) _ hs mayStart_nil
      (by rw [dropLast, hs, List.dropLast_concat]) rfl
    omega

theorem operators_enclosed?_le {b : Bracket} (h : s.enclosed? b = some t) :
    t.operators ≤ s.operators := by
  unfold enclosed? at h
  split at h
  · rename_i hs
    cases h
    refine (operators_dropLast_le _).trans (operators_tail_le_of_ne ?_)
    simp [hs.1]
  · cases h

/-- A token that cuts a span is an operator of it. -/
theorem binaryMarks_of_cuts {cuts : List (Lexeme × Option BinaryOp)} (h : s.cuts = .ok cuts)
    {i : Nat} {op : BinaryOp} (hi : cuts[i]? = some (l, some op)) :
    (binaryMarks none none s.lexemes)[i]? = some (some op) := by
  obtain ⟨outside, -, rfl⟩ := exists_of_map_eq_ok h
  obtain ⟨-, hmark⟩ := List.getElem?_zip_eq_some.mp hi
  obtain ⟨o, mark, -, hmark, hop⟩ := List.getElem?_zipWith_eq_some.mp hmark
  rw [hmark]
  cases o with
  | true => exact congrArg some hop
  | false => cases hop

/-- **A span around its weakest operator**, which is one more. -/
theorem operators_atWeakest_lt {split : BinarySplit} (h : s.atWeakest = .ok (some split)) :
    split.left.operators + split.right.operators + 1 ≤ s.operators := by
  obtain ⟨cuts, hcuts, h⟩ := exists_of_map_eq_ok h
  split at h
  · rename_i before l op after hsplit
    cases h
    have hlexemes := lexemes_of_splitLast (map_fst_cuts hcuts) hsplit
    have hcut : cuts[(before.map Prod.fst).length]? = some (l, some op) := by
      rw [(splitLast_eq_some hsplit).1, List.length_map,
        List.getElem?_append_right (Nat.le_refl _), Nat.sub_self]
      rfl
    obtain ⟨earlier, previous, hmark, hle⟩ := operatorsAmong_around none none
      (before.map Prod.fst) l (after.map Prod.fst)
    rw [← hlexemes, binaryMarks_of_cuts hcuts hcut, Option.some.injEq] at hmark
    have hl : l.token ≠ .dollar := by
      intro hdollar
      rw [hdollar] at hmark
      cases hmark
    have hle := hle (mayStart_of_ne hl)
    rw [← hmark, ← hlexemes] at hle
    exact hle
  · cases h

theorem operators_atLastDot_le {parent : Option Span} {step : Span}
    (h : s.atLastDot = .ok (parent, step)) :
    (parent.toList.map operators).sum + step.operators ≤ s.operators := by
  obtain ⟨ls, hls, h⟩ := exists_of_map_eq_ok h
  split at h
  · rename_i before dot after hsplit
    cases h
    have hdot : dot.1.token = .dot := by
      have hp := (splitLast_eq_some hsplit).2
      simp only [Bool.and_eq_true, decide_eq_true_eq] at hp
      exact hp.2
    have hle := operators_around _ (lexemes_of_splitLast (map_fst_marked hls) hsplit)
      (mayStart_of_ne (by simp [hdot]))
      (t := ⟨before.map Prod.fst, dot.1.pos⟩) rfl (u := ⟨after.map Prod.fst, s.stop⟩) rfl
    simpa using hle
  · cases h
    simp

/-- The parts between commas, by induction on the tokens. Only the first part is read with the
tokens before it, the others start behind a comma. -/
theorem operators_commaPartsOf_le (stop : Nat) : ∀ (ls : List (Lexeme × Bool))
    (earlier previous : Option Token),
    operatorsAmong earlier previous (commaPartsOf stop ls).1.lexemes +
        ((commaPartsOf stop ls).2.map operators).sum ≤
      operatorsAmong earlier previous (ls.map Prod.fst)
  | [], _, _ => Nat.le_refl _
  | (l, outside) :: ls, earlier, previous => by
    have ih := operators_commaPartsOf_le stop ls previous (some l.token)
    simp only [commaPartsOf, List.map_cons]
    rw [operatorsAmong_cons earlier previous l (ls.map Prod.fst)]
    split
    · rename_i hcomma
      have hl : l.token = .comma := by
        simp only [Bool.and_eq_true, decide_eq_true_eq] at hcomma
        exact hcomma.2
      have hstart : (commaPartsOf stop ls).1.operators ≤
          operatorsAmong previous (some l.token) (commaPartsOf stop ls).1.lexemes :=
        operatorsAmong_start_le (mayStart_of_ne (by simp [hl]))
      have hnil : operatorsAmong earlier previous [] = 0 := rfl
      rw [List.map_cons, List.sum_cons, hnil]
      omega
    · rw [operatorsAmong_cons]
      dsimp only
      omega

theorem operators_commaParts_le {parts : List Span} (h : s.commaParts = .ok parts) :
    (parts.map operators).sum ≤ s.operators := by
  unfold commaParts at h
  split at h
  · cases h
    exact Nat.zero_le _
  · obtain ⟨ls, hls, rfl⟩ := exists_of_map_eq_ok h
    have hle := operators_commaPartsOf_le s.stop ls none none
    rw [map_fst_marked hls] at hle
    exact hle

theorem operators_callArgs?_le {parts : List Span} (h : s.callArgs? = some parts) :
    (parts.map operators).sum ≤ s.operators := by
  obtain ⟨inner, hinner, hparts⟩ := callArgs?_eq_some h
  exact (operators_commaParts_le hparts).trans (operators_enclosed?_le hinner)

theorem operators_fieldRef_le {ref : FieldRef} (h : s.fieldRef = .ok ref) :
    (ref.query.toList.map operators).sum ≤ s.operators := by
  unfold fieldRef at h
  split at h
  · simp only at h
    split at h
    · cases h
      exact Nat.zero_le _
    · split at h
      · cases h
        rw [Option.toList_some, List.map_singleton, List.sum_singleton]
        refine (operators_dropLast_le _).trans ((operators_dropLast_le _).trans ?_)
        split
        · rename_i hat
          exact operators_tail_le_of_ne (by simp [hat])
        · exact Nat.le_refl _
      · cases h
  · cases h

end Span

/-! ## 3. Shapes of expressions -/

/-- The operator that a shape itself is read from. -/
def ExprShape.ownOperators : ExprShape → Nat
  | binary _ _ _ => 1
  | _ => 0

theorem ExprShape.ownOperators_le_one (sh : ExprShape) : sh.ownOperators ≤ 1 := by
  cases sh <;> simp [ownOperators]

section

variable {s rest : Span} {sh : ExprShape}

theorem intrinsicShape_operators {p : Nat} {name : String}
    (h : intrinsicShape p name rest = .ok sh) :
    (sh.parts.map Span.operators).sum + sh.ownOperators ≤ rest.operators := by
  unfold intrinsicShape at h
  simp only at h
  split at h
  · cases h
    simp [ExprShape.parts, ExprShape.ownOperators]
  · split at h
    · split at h
      · rename_i hargs
        split at h
        · cases h
        · split at h
          · cases h
          · rename_i href
            cases h
            have hle := Span.operators_callArgs?_le hargs
            have hquery := Span.operators_fieldRef_le href
            simp only [List.map_cons, List.sum_cons] at hle
            show (List.map _ (Option.toList _)).sum + 0 ≤ _
            omega
      · cases h
    · split at h
      · split at h
        · rename_i hargs
          split at h
          · cases h
          · rename_i href
            cases h
            have hle := Span.operators_callArgs?_le hargs
            have hquery := Span.operators_fieldRef_le href
            simp only [List.map_cons, List.sum_cons, List.map_nil, List.sum_nil, ExprShape.parts,
              ExprShape.ownOperators] at hle ⊢
            omega
        · cases h
      · split at h
        · split at h
          · cases h
            exact Nat.zero_le _
          · rename_i hargs
            cases h
            exact Span.operators_callArgs?_le hargs
          · cases h
        · cases h

theorem operandShape_operators (h : operandShape s = .ok sh) :
    (sh.parts.map Span.operators).sum + sh.ownOperators ≤ s.operators := by
  have tail {token : Token} {tokens : List Token}
      (hs : s.lexemes.map Lexeme.token = token :: tokens) (htoken : token ≠ .dollar) :
      s.tail.operators ≤ s.operators := by
    refine Span.operators_tail_le_of_ne ?_
    rw [Span.first?, ← List.head?_map, hs]
    exact fun hdollar => htoken (Option.some.inj hdollar)
  unfold operandShape at h
  split at h
  · rename_i hs
    cases h
    exact tail hs (by simp)
  · rename_i hs
    cases h
    exact tail hs (by simp)
  · rename_i name tokens hs
    obtain ⟨dollar, more, hls, -, hmore⟩ := List.map_eq_cons_iff.mp hs
    obtain ⟨l, after, rfl, hl, -⟩ := List.map_eq_cons_iff.mp hmore
    have hle := Span.operators_around (s := s) [dollar] hls
      (mayStart_of_ne (by simp [hl])) (t := ⟨[dollar], l.pos⟩) rfl (u := s.tail.tail)
      (by simp [Span.tail, hls])
    have hparts := intrinsicShape_operators h
    omega
  · cases h
  · split at h
    · obtain ⟨ref, href, rfl⟩ := exists_of_map_eq_ok h
      exact Span.operators_fieldRef_le href
    · split at h
      · rename_i hat
        cases h
        exact Span.operators_tail_le_of_ne (by simp [hat])
      · cases h

/-- **The parts of an expression**, together with the operator between them. -/
theorem exprShape_operators (h : exprShape s = .ok sh) :
    (sh.parts.map Span.operators).sum + sh.ownOperators ≤ s.operators := by
  unfold exprShape at h
  split at h
  · cases h
  · cases h
    exact Nat.zero_le _
  · split at h
    · rename_i hinner
      cases h
      exact Span.operators_enclosed?_le hinner
    · split at h
      · cases h
      · rename_i hsplit
        cases h
        have hle := Span.operators_atWeakest_lt hsplit
        simpa [ExprShape.parts, ExprShape.ownOperators] using hle
      · exact operandShape_operators h

end

/-! ## 4. Shapes of queries -/

section

variable {s : Span}

theorem filterShape_operators (s : Span) :
    ((filterShape s).parts.map Span.operators).sum ≤ s.operators := by
  have value {head first : Token} {tokens : List Token}
      (hs : s.lexemes.map Lexeme.token = head :: .assign :: first :: tokens) :
      s.tail.tail.operators ≤ s.operators := by
    obtain ⟨l, more, hls, -, hmore⟩ := List.map_eq_cons_iff.mp hs
    obtain ⟨assign, after, rfl, hassign, -⟩ := List.map_eq_cons_iff.mp hmore
    have hle := Span.operators_around (s := s) [l] hls
      (mayStart_of_ne (by simp [hassign])) (t := ⟨[l], assign.pos⟩) rfl
      (u := s.tail.tail) (by simp [Span.tail, hls])
    omega
  unfold filterShape
  simp only
  split
  · rename_i hs
    split
    · exact value hs
    · exact value hs
    · split <;> exact Nat.zero_le _
    · exact Nat.zero_le _
  · exact Nat.zero_le _

theorem filterShapes_map_operators : ∀ parts : List Span,
    (((parts.map filterShape).flatMap FilterShape.parts).map Span.operators).sum ≤
      (parts.map Span.operators).sum
  | [] => Nat.le_refl _
  | part :: parts => by
    rw [List.map_cons, List.flatMap_cons, List.map_append, List.sum_append, List.map_cons,
      List.sum_cons]
    exact Nat.add_le_add (filterShape_operators part) (filterShapes_map_operators parts)

theorem filterShapes_operators {fs : List FilterShape} (h : filterShapes s = .ok fs) :
    ((fs.flatMap FilterShape.parts).map Span.operators).sum ≤ s.operators := by
  unfold filterShapes at h
  split at h
  · cases h
    exact Nat.zero_le _
  · split at h
    · cases h
    · rename_i inner hinner
      obtain ⟨parts, hparts, rfl⟩ := exists_of_map_eq_ok h
      exact (filterShapes_map_operators parts).trans
        ((Span.operators_commaParts_le hparts).trans (Span.operators_enclosed?_le hinner))

/-- The filters of a step are in brackets, so no intrinsic's name starts them, whatever the token is
at the head of the step. -/
theorem filterShapes_mayStart {fs : List FilterShape} (h : filterShapes s = .ok fs)
    (previous : Option Token) : MayStart previous s.lexemes := by
  intro _ l hl
  unfold filterShapes at h
  split at h
  · rename_i hempty
    rw [List.isEmpty_iff.mp hempty] at hl
    cases hl
  · split at h
    · cases h
    · rename_i hinner
      unfold Span.enclosed? at hinner
      split at hinner
      · rename_i hs
        have hfirst := hs.1
        rw [Span.first?, Option.mem_def.mp hl, Option.map_some, Option.some.injEq] at hfirst
        rw [hfirst]
        rfl
      · cases hinner

/-- **The parts of a query.** -/
theorem queryShape_operators {q : QueryShape} (h : queryShape s = .ok q) :
    (q.parts.map Span.operators).sum ≤ s.operators := by
  obtain ⟨parent, step, hdot, hf, hparent, -⟩ := queryShape_eq_ok h
  have hcut := Span.operators_atLastDot_le hdot
  have hstep : step.tail.operators ≤ step.operators :=
    Span.operators_tail_le fun l _ => filterShapes_mayStart hf (some l.token)
  have hfilters := (filterShapes_operators hf).trans hstep
  have hhead : (q.head.parts.map Span.operators).sum ≤
      (parent.toList.map Span.operators).sum := by
    cases hq : q.head with
    | root _ _ => exact Nat.zero_le _
    | bad _ => exact Nat.zero_le _
    | sub query _ =>
      rw [hq] at hparent
      cases query with
      | none => exact Nat.zero_le _
      | some t =>
        rw [hparent t List.mem_cons_self]
        exact Nat.le_refl _
  rw [QueryShape.parts, List.map_append, List.sum_append]
  omega

end

end ByteAtlas
