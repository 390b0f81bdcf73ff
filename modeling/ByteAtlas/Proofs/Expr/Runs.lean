import ByteAtlas.Expr.Shape

/-!
# The parts of a span are runs of its tokens

`Span.Within`: a span is a run of consecutive tokens of another one, and it stops where the token
behind it starts. Every part that the compiler cuts out of a span is such a run
(`exprShape_within`, `queryShape_within`), so it says something about the same text, and what is
wrong with it is wrong at a place of the whole (`exprShape_isPlace`, `queryShape_isPlace`).
-/

namespace ByteAtlas

namespace Span

/-! ## 1. Runs and places -/

/-- **Whether a span is a run of consecutive tokens of another one.** -/
def Within (t s : Span) : Prop :=
  ∃ before after, s.lexemes = before ++ (t.lexemes ++ after) ∧ t.stop = pos ⟨after, s.stop⟩

/-- A place that a diagnostic about a span may name: the start of a token, or the end. -/
def IsPlace (s : Span) (p : Nat) : Prop :=
  p = s.stop ∨ ∃ l ∈ s.lexemes, l.pos = p

variable {s t u : Span} {p : Nat}

theorem Within.refl (s : Span) : s.Within s :=
  ⟨[], [], by simp, rfl⟩

theorem Within.trans (hu : u.Within t) (ht : t.Within s) : u.Within s := by
  obtain ⟨before, after, hls, hstop⟩ := hu
  obtain ⟨before', after', hls', hstop'⟩ := ht
  refine ⟨before' ++ before, after ++ after', by simp [hls, hls'], ?_⟩
  cases after with
  | nil => exact hstop.trans hstop'
  | cons _ _ => exact hstop

theorem isPlace_pos (s : Span) : s.IsPlace s.pos := by
  obtain ⟨ls, stop⟩ := s
  cases ls with
  | nil => exact .inl rfl
  | cons l ls => exact .inr ⟨l, List.mem_cons_self, rfl⟩

theorem isPlace_of_mem {l : Lexeme} (hl : l ∈ s.lexemes) : s.IsPlace l.pos :=
  .inr ⟨l, hl, rfl⟩

theorem Within.mem {l : Lexeme} (h : t.Within s) (hl : l ∈ t.lexemes) : l ∈ s.lexemes := by
  obtain ⟨before, after, hls, _⟩ := h
  rw [hls]
  exact List.mem_append_right _ (List.mem_append_left _ hl)

/-- **A place of a run is a place of the whole.** -/
theorem Within.isPlace (h : t.Within s) (hp : t.IsPlace p) : s.IsPlace p := by
  rcases hp with rfl | ⟨l, hl, rfl⟩
  · obtain ⟨before, after, hls, hstop⟩ := h
    rw [hstop]
    cases after with
    | nil => exact .inl rfl
    | cons l after =>
      exact isPlace_of_mem (by simp [hls])
  · exact isPlace_of_mem (h.mem hl)

/-! ## 2. Cutting -/

theorem within_tail (s : Span) : s.tail.Within s := by
  obtain ⟨ls, stop⟩ := s
  cases ls with
  | nil => exact .refl _
  | cons l ls => exact ⟨[l], [], by simp [tail], rfl⟩

theorem within_dropLast (s : Span) : s.dropLast.Within s := by
  rcases List.eq_nil_or_concat s.lexemes with h | ⟨ls, l, h⟩
  · exact ⟨[], [], by simp [dropLast, h], by simp [dropLast, h, pos]⟩
  · exact ⟨[], [l], by simp [dropLast, h], by simp [dropLast, h, pos]⟩

theorem within_enclosed? {inner : Span} {b : Bracket} (h : s.enclosed? b = some inner) :
    inner.Within s := by
  unfold enclosed? at h
  split at h
  · cases h
    exact (within_dropLast _).trans (within_tail s)
  · cases h

/-- What stands on either side of a token. -/
theorem within_around {before after : List Lexeme} {l : Lexeme}
    (h : s.lexemes = before ++ l :: after) :
    (⟨before, l.pos⟩ : Span).Within s ∧ (⟨after, s.stop⟩ : Span).Within s :=
  ⟨⟨[], l :: after, by simp [h], rfl⟩, ⟨before ++ [l], [], by simp [h], rfl⟩⟩

/-- Splitting a list of marked tokens splits the tokens. -/
theorem lexemes_of_splitLast {α : Type} {p : Lexeme × α → Bool} {ls : List (Lexeme × α)}
    {before after : List (Lexeme × α)} {m : Lexeme × α} (hls : ls.map Prod.fst = s.lexemes)
    (h : splitLast p ls = some (before, m, after)) :
    s.lexemes = before.map Prod.fst ++ m.1 :: after.map Prod.fst := by
  rw [← hls, (splitLast_eq_some h).1]
  simp

/-! ## 3. Brackets -/

theorem length_outsideBrackets : ∀ {opened : List (Bracket × Nat)} {ls : List Lexeme}
    {marks : List Bool}, outsideBrackets opened ls = .ok marks → marks.length = ls.length
  | opened, [], _, h => by
    cases opened with
    | nil => cases h; rfl
    | cons _ _ => cases h
  | opened, l :: ls, marks, h => by
    have rest {opened' : List (Bracket × Nat)} {mark : Bool}
        (h : (outsideBrackets opened' ls).map (mark :: ·) = .ok marks) :
        marks.length = (l :: ls).length := by
      obtain ⟨marks', hls, rfl⟩ := exists_of_map_eq_ok h
      exact congrArg Nat.succ (length_outsideBrackets hls)
    cases ht : l.token with
    | opening b =>
      simp only [outsideBrackets, ht] at h
      split at h
      · cases h
      · exact rest h
    | closing b =>
      simp only [outsideBrackets, ht] at h
      cases opened with
      | nil => cases h
      | cons _ _ =>
        simp only at h
        split at h
        · exact rest h
        · cases h
    | _ =>
      simp only [outsideBrackets, ht] at h
      exact rest h

/-- The scan for brackets objects to a token, or to a bracket opened before. -/
theorem pos_of_outsideBrackets : ∀ {opened : List (Bracket × Nat)} {ls : List Lexeme}
    {d : Diagnostic}, outsideBrackets opened ls = .error d →
    (∃ l ∈ ls, l.pos = d.pos) ∨ ∃ o ∈ opened, o.2 = d.pos
  | opened, [], d, h => by
    cases opened with
    | nil => cases h
    | cons o _ =>
      cases h
      exact .inr ⟨o, List.mem_cons_self, rfl⟩
  | opened, l :: ls, d, h => by
    have here {fault : CompileFault} (h : (.error ⟨l.pos, fault⟩ : Except Diagnostic (List Bool)) =
        .error d) : (∃ l' ∈ l :: ls, l'.pos = d.pos) ∨ ∃ o ∈ opened, o.2 = d.pos := by
      cases h
      exact .inl ⟨l, List.mem_cons_self, rfl⟩
    have rest {opened' : List (Bracket × Nat)} {mark : Bool}
        (hsub : ∀ o ∈ opened', o.2 = l.pos ∨ o ∈ opened)
        (h : (outsideBrackets opened' ls).map (mark :: ·) = .error d) :
        (∃ l' ∈ l :: ls, l'.pos = d.pos) ∨ ∃ o ∈ opened, o.2 = d.pos := by
      rcases pos_of_outsideBrackets (eq_error_of_map h) with ⟨l', hl', hp⟩ | ⟨o, ho, hp⟩
      · exact .inl ⟨l', List.mem_cons_of_mem _ hl', hp⟩
      · rcases hsub o ho with heq | ho
        · exact .inl ⟨l, List.mem_cons_self, heq.symm.trans hp⟩
        · exact .inr ⟨o, ho, hp⟩
    cases ht : l.token with
    | opening b =>
      simp only [outsideBrackets, ht] at h
      split at h
      · exact here h
      · refine rest (fun o ho => ?_) h
        rcases List.mem_cons.mp ho with rfl | ho
        · exact .inl rfl
        · exact .inr ho
    | closing b =>
      simp only [outsideBrackets, ht] at h
      cases opened with
      | nil => exact here h
      | cons _ _ =>
        simp only at h
        split at h
        · exact rest (fun o ho => .inr (List.mem_cons_of_mem _ ho)) h
        · exact here h
    | _ =>
      simp only [outsideBrackets, ht] at h
      exact rest (fun o ho => .inr ho) h

theorem isPlace_of_outsideBrackets {d : Diagnostic} (h : outsideBrackets [] s.lexemes = .error d) :
    s.IsPlace d.pos := by
  rcases pos_of_outsideBrackets h with hl | ⟨_, ho, _⟩
  · exact .inr hl
  · cases ho

theorem map_fst_zip_of_outsideBrackets {α : Type} {marks : List Bool} {xs : List α}
    (h : outsideBrackets [] s.lexemes = .ok marks) (hxs : xs.length = marks.length) :
    (s.lexemes.zip xs).map Prod.fst = s.lexemes :=
  List.map_fst_zip (Nat.le_of_eq (by rw [hxs, length_outsideBrackets h]))

/-! ## 4. The parts of a cut -/

/-- The tokens of a span with their marks. -/
theorem marked_eq (s : Span) : s.marked = (outsideBrackets [] s.lexemes).map s.lexemes.zip := rfl

theorem map_fst_marked {ls : List (Lexeme × Bool)} (h : s.marked = .ok ls) :
    ls.map Prod.fst = s.lexemes := by
  obtain ⟨marks, hm, rfl⟩ := exists_of_map_eq_ok h
  exact map_fst_zip_of_outsideBrackets hm rfl

theorem isPlace_marked {d : Diagnostic} (h : s.marked = .error d) : s.IsPlace d.pos :=
  isPlace_of_outsideBrackets (eq_error_of_map h)

theorem length_binaryMarks : ∀ (earlier previous : Option Token) (ls : List Lexeme),
    (binaryMarks earlier previous ls).length = ls.length
  | _, _, [] => rfl
  | _, previous, l :: ls => congrArg Nat.succ (length_binaryMarks previous (some l.token) ls)

theorem map_fst_cuts {cuts : List (Lexeme × Option BinaryOp)} (h : s.cuts = .ok cuts) :
    cuts.map Prod.fst = s.lexemes := by
  obtain ⟨marks, hm, rfl⟩ := exists_of_map_eq_ok h
  refine map_fst_zip_of_outsideBrackets hm ?_
  rw [List.length_zipWith, length_binaryMarks, length_outsideBrackets hm, Nat.min_self]

theorem isPlace_cuts {d : Diagnostic} (h : s.cuts = .error d) : s.IsPlace d.pos :=
  isPlace_of_outsideBrackets (eq_error_of_map h)

theorem within_atWeakest {b : BinarySplit} (h : s.atWeakest = .ok (some b)) :
    b.left.Within s ∧ b.right.Within s := by
  obtain ⟨cuts, hc, h⟩ := exists_of_map_eq_ok h
  split at h
  · rename_i hs
    cases h
    exact within_around (lexemes_of_splitLast (map_fst_cuts hc) hs)
  · cases h

theorem isPlace_atWeakest {d : Diagnostic} (h : s.atWeakest = .error d) : s.IsPlace d.pos :=
  isPlace_cuts (eq_error_of_map h)

theorem within_atLastDot {parent : Option Span} {step : Span}
    (h : s.atLastDot = .ok (parent, step)) : step.Within s ∧ ∀ t ∈ parent.toList, t.Within s := by
  obtain ⟨ls, hm, h⟩ := exists_of_map_eq_ok h
  split at h
  · rename_i hs
    cases h
    obtain ⟨hbefore, hafter⟩ := within_around (lexemes_of_splitLast (map_fst_marked hm) hs)
    exact ⟨hafter, by simpa using hbefore⟩
  · cases h
    exact ⟨.refl s, by simp⟩

theorem isPlace_atLastDot {d : Diagnostic} (h : s.atLastDot = .error d) : s.IsPlace d.pos :=
  isPlace_marked (eq_error_of_map h)

/-- The first part between commas is a front of the tokens, the others lie behind it. -/
theorem within_commaPartsOf (stop : Nat) : ∀ ls : List (Lexeme × Bool),
    (∃ after, ls.map Prod.fst = (commaPartsOf stop ls).1.lexemes ++ after ∧
      (commaPartsOf stop ls).1.stop = pos ⟨after, stop⟩) ∧
    ∀ part ∈ (commaPartsOf stop ls).2, part.Within ⟨ls.map Prod.fst, stop⟩
  | [] => ⟨⟨[], rfl, rfl⟩, fun _ h => nomatch h⟩
  | (l, outside) :: ls => by
    obtain ⟨⟨after, hls, hstop⟩, hrest⟩ := within_commaPartsOf stop ls
    have hbehind : (⟨ls.map Prod.fst, stop⟩ : Span).Within ⟨l :: ls.map Prod.fst, stop⟩ :=
      within_tail ⟨l :: ls.map Prod.fst, stop⟩
    simp only [commaPartsOf, List.map_cons]
    split
    · refine ⟨⟨l :: ls.map Prod.fst, rfl, rfl⟩, fun part hpart => ?_⟩
      rcases List.mem_cons.mp hpart with rfl | hpart
      · exact .trans ⟨[], after, hls, hstop⟩ hbehind
      · exact (hrest part hpart).trans hbehind
    · exact ⟨⟨after, by rw [hls]; rfl, hstop⟩, fun part hpart => (hrest part hpart).trans hbehind⟩

theorem within_commaParts {parts : List Span} {part : Span} (h : s.commaParts = .ok parts)
    (hp : part ∈ parts) : part.Within s := by
  unfold commaParts at h
  split at h
  · cases h
    cases hp
  · obtain ⟨ls, hm, rfl⟩ := exists_of_map_eq_ok h
    obtain ⟨⟨after, hls, hstop⟩, hrest⟩ := within_commaPartsOf s.stop ls
    rw [map_fst_marked hm] at hls hrest
    rcases List.mem_cons.mp hp with rfl | hp
    · exact ⟨[], after, hls, hstop⟩
    · exact hrest part hp

theorem isPlace_commaParts {d : Diagnostic} (h : s.commaParts = .error d) : s.IsPlace d.pos := by
  unfold commaParts at h
  split at h
  · cases h
  · exact isPlace_marked (eq_error_of_map h)

theorem within_callArgs? {parts : List Span} {part : Span} (h : s.callArgs? = some parts)
    (hp : part ∈ parts) : part.Within s := by
  obtain ⟨inner, hinner, hc⟩ := callArgs?_eq_some h
  exact (within_commaParts hc hp).trans (within_enclosed? hinner)

/-! ## 5. Members -/

theorem within_fieldRef {ref : FieldRef} {q : Span} (h : s.fieldRef = .ok ref)
    (hq : q ∈ ref.query.toList) : q.Within s := by
  unfold fieldRef at h
  split at h
  · simp only at h
    split at h
    · cases h
      cases hq
    · split at h
      · cases h
        rw [Option.toList_some, List.mem_singleton] at hq
        subst hq
        refine (within_dropLast _).trans ((within_dropLast _).trans ?_)
        split
        · exact within_tail s
        · exact .refl s
      · cases h
  · cases h

theorem isPlace_fieldRef {d : Diagnostic} (h : s.fieldRef = .error d) : s.IsPlace d.pos := by
  unfold fieldRef at h
  split at h
  · simp only at h
    split at h
    · cases h
    · rename_i l hl
      split at h
      · cases h
      · cases h
        refine Within.isPlace ((within_dropLast _).trans ?_)
          (isPlace_of_mem (List.mem_of_getLast? hl))
        split
        · exact within_tail s
        · exact .refl s
  · cases h
    exact isPlace_pos s

end Span

/-! ## 6. Shapes of expressions -/

section

variable {s rest t : Span} {sh : ExprShape} {d : Diagnostic}

theorem intrinsicShape_within {p : Nat} {name : String} (h : intrinsicShape p name rest = .ok sh)
    (ht : t ∈ sh.parts) : t.Within rest := by
  unfold intrinsicShape at h
  simp only at h
  split at h
  · cases h
    rw [List.mem_singleton.mp ht]
    exact .refl rest
  · split at h
    · split at h
      · rename_i hargs
        split at h
        · cases h
        · split at h
          · cases h
          · rename_i href
            cases h
            exact (Span.within_fieldRef href ht).trans
              (Span.within_callArgs? hargs List.mem_cons_self)
      · cases h
    · split at h
      · split at h
        · rename_i hargs
          split at h
          · cases h
          · rename_i href
            cases h
            rcases List.mem_cons.mp ht with rfl | ht
            · exact Span.within_callArgs? hargs (by simp)
            · exact (Span.within_fieldRef href ht).trans
                (Span.within_callArgs? hargs List.mem_cons_self)
        · cases h
      · split at h
        · split at h
          · cases h
            cases ht
          · rename_i hargs
            cases h
            rw [List.mem_singleton.mp ht]
            exact Span.within_callArgs? hargs (by simp)
          · cases h
        · cases h

/-- A fault of an intrinsic is at its start, or within its arguments. -/
theorem intrinsicShape_isPlace {p : Nat} {name : String}
    (h : intrinsicShape p name rest = .error d) : d.pos = p ∨ rest.IsPlace d.pos := by
  unfold intrinsicShape at h
  simp only at h
  split at h
  · cases h
  · split at h
    · split at h
      · rename_i hargs
        split at h
        · cases h
          exact .inl rfl
        · split at h
          · rename_i href
            cases h
            exact .inr ((Span.within_callArgs? hargs List.mem_cons_self).isPlace
              (Span.isPlace_fieldRef href))
          · cases h
      · cases h
        exact .inl rfl
    · split at h
      · split at h
        · rename_i hargs
          split at h
          · rename_i href
            cases h
            exact .inr ((Span.within_callArgs? hargs List.mem_cons_self).isPlace
              (Span.isPlace_fieldRef href))
          · cases h
        · cases h
          exact .inl rfl
      · split at h
        · split at h
          · cases h
          · cases h
          · cases h
            exact .inl rfl
        · cases h
          exact .inl rfl

/-- The text of a preview is at fault where the intrinsic starts. -/
theorem intrinsicShape_text_pos {p : Nat} {name : String} {ref : FieldRef} {invert : Bool}
    (h : intrinsicShape p name rest = .ok (.previewTest ref (.error d) invert)) : d.pos = p := by
  unfold intrinsicShape at h
  simp only at h
  split at h
  · cases h
  · split at h
    · split at h
      · split at h
        · cases h
        · split at h
          · cases h
          · simp only [Except.ok.injEq, ExprShape.previewTest.injEq] at h
            obtain ⟨-, htext, -⟩ := h
            split at htext
            · cases htext
            · cases htext
              rfl
      · cases h
    · split at h
      · split at h
        · split at h <;> cases h
        · cases h
      · split at h
        · split at h <;> cases h
        · cases h

theorem operandShape_text_pos {ref : FieldRef} {invert : Bool}
    (h : operandShape s = .ok (.previewTest ref (.error d) invert)) : d.pos = s.pos := by
  unfold operandShape at h
  split at h
  · cases h
  · cases h
  · exact intrinsicShape_text_pos h
  · cases h
  · split at h
    · obtain ⟨ref', -, hmember⟩ := exists_of_map_eq_ok h
      cases hmember
    · split at h <;> cases h

theorem operandShape_within (h : operandShape s = .ok sh) (ht : t ∈ sh.parts) : t.Within s := by
  unfold operandShape at h
  split at h
  · cases h
    rw [List.mem_singleton.mp ht]
    exact Span.within_tail s
  · cases h
    rw [List.mem_singleton.mp ht]
    exact Span.within_tail s
  · exact (intrinsicShape_within h ht).trans ((Span.within_tail _).trans (Span.within_tail s))
  · cases h
  · split at h
    · obtain ⟨ref, hr, rfl⟩ := exists_of_map_eq_ok h
      exact Span.within_fieldRef hr ht
    · split at h
      · cases h
        rw [List.mem_singleton.mp ht]
        exact Span.within_tail s
      · cases h

theorem operandShape_isPlace (h : operandShape s = .error d) : s.IsPlace d.pos := by
  unfold operandShape at h
  split at h
  · cases h
  · cases h
  · rcases intrinsicShape_isPlace h with hd | hd
    · rw [hd]
      exact Span.isPlace_pos s
    · exact ((Span.within_tail _).trans (Span.within_tail s)).isPlace hd
  · cases h
    exact Span.isPlace_pos s
  · split at h
    · exact Span.isPlace_fieldRef (eq_error_of_map h)
    · split at h
      · cases h
      · cases h
        exact Span.isPlace_pos s

/-- **The parts of an expression are runs of its tokens.** -/
theorem exprShape_within (h : exprShape s = .ok sh) (ht : t ∈ sh.parts) : t.Within s := by
  unfold exprShape at h
  split at h
  · cases h
  · cases h
    cases ht
  · split at h
    · rename_i hinner
      cases h
      rw [List.mem_singleton.mp ht]
      exact Span.within_enclosed? hinner
    · split at h
      · cases h
      · rename_i hb
        cases h
        obtain ⟨hleft, hright⟩ := Span.within_atWeakest hb
        rcases List.mem_cons.mp ht with rfl | ht
        · exact hleft
        · rw [List.mem_singleton.mp ht]
          exact hright
      · exact operandShape_within h ht

/-- **An expression without a shape is at fault at one of its places.** -/
theorem exprShape_isPlace (h : exprShape s = .error d) : s.IsPlace d.pos := by
  unfold exprShape at h
  split at h
  · cases h
    exact Span.isPlace_pos s
  · cases h
  · split at h
    · cases h
    · split at h
      · rename_i hb
        cases h
        exact Span.isPlace_atWeakest hb
      · cases h
      · exact operandShape_isPlace h

/-- **The text that a preview is compared with is at fault where its intrinsic starts**, which is
the start of the whole. -/
theorem exprShape_text_pos {ref : FieldRef} {invert : Bool}
    (h : exprShape s = .ok (.previewTest ref (.error d) invert)) : d.pos = s.pos := by
  unfold exprShape at h
  split at h
  · cases h
  · cases h
  · split at h
    · cases h
    · split at h
      · cases h
      · cases h
      · exact operandShape_text_pos h

end

/-! ## 7. Shapes of queries -/

section

variable {s t : Span} {d : Diagnostic}

theorem filterShape_within (ht : t ∈ (filterShape s).parts) : t.Within s := by
  have hvalue : s.tail.tail.Within s := (Span.within_tail _).trans (Span.within_tail s)
  unfold filterShape at ht
  simp only at ht
  split at ht
  · split at ht
    · rw [List.mem_singleton.mp ht]
      exact hvalue
    · rw [List.mem_singleton.mp ht]
      exact hvalue
    · split at ht <;> cases ht
    · cases ht
  · cases ht

theorem filterShape_isPlace (h : filterShape s = .bad d) : s.IsPlace d.pos := by
  have hbad : d = ⟨s.pos, .badFilter⟩ := by
    unfold filterShape at h
    simp only at h
    split at h
    · split at h
      · cases h
      · cases h
      · split at h
        · cases h
        · cases h
          rfl
      · cases h
        rfl
    · cases h
      rfl
  rw [hbad]
  exact Span.isPlace_pos s

theorem filterShapes_within {fs : List FilterShape} (h : filterShapes s = .ok fs) {f : FilterShape}
    (hf : f ∈ fs) : ∃ part : Span, part.Within s ∧ f = filterShape part := by
  unfold filterShapes at h
  split at h
  · cases h
    cases hf
  · split at h
    · cases h
    · rename_i inner hinner
      obtain ⟨parts, hc, rfl⟩ := exists_of_map_eq_ok h
      obtain ⟨part, hpart, rfl⟩ := List.mem_map.mp hf
      exact ⟨part, (Span.within_commaParts hc hpart).trans (Span.within_enclosed? hinner), rfl⟩

theorem filterShapes_isPlace (h : filterShapes s = .error d) : s.IsPlace d.pos := by
  unfold filterShapes at h
  split at h
  · cases h
  · split at h
    · cases h
      exact Span.isPlace_pos s
    · rename_i inner hinner
      exact (Span.within_enclosed? hinner).isPlace (Span.isPlace_commaParts (eq_error_of_map h))

/-- The last step of a query with a shape. -/
theorem queryShape_eq_ok {q : QueryShape} (h : queryShape s = .ok q) :
    ∃ parent step, s.atLastDot = .ok (parent, step) ∧ filterShapes step.tail = .ok q.filters ∧
      (∀ t ∈ q.head.parts, parent = some t) ∧ ∀ d, q.head = .bad d → d.pos = step.pos := by
  unfold queryShape at h
  split at h
  · cases h
  · split at h
    · cases h
    · rename_i parent step hdot
      split at h
      · cases h
      · rename_i l ls hls
        have hpos : step.pos = l.pos := by rw [Span.pos, hls]
        split at h
        · cases h
        · rename_i filters hf
          refine ⟨parent, step, hdot, ?_⟩
          split at h
          · cases h
            exact ⟨hf, fun t ht => Option.mem_toList.mp ht, (fun d hd => nomatch hd)⟩
          · split at h
            · cases h
              refine ⟨hf, (fun t ht => nomatch ht), fun d hd => ?_⟩
              cases hd
              exact hpos.symm
            · cases h
              exact ⟨hf, (fun t ht => nomatch ht), fun d hd => nomatch hd⟩
          · cases h
            refine ⟨hf, (fun t ht => nomatch ht), fun d hd => ?_⟩
            cases hd
            exact hpos.symm

/-- **The parts of a query are runs of its tokens.** -/
theorem queryShape_within {q : QueryShape} (h : queryShape s = .ok q) (ht : t ∈ q.parts) :
    t.Within s := by
  obtain ⟨parent, step, hdot, hf, hparent, -⟩ := queryShape_eq_ok h
  obtain ⟨hstep, hbefore⟩ := Span.within_atLastDot hdot
  rcases List.mem_append.mp ht with ht | ht
  · exact hbefore t (Option.mem_toList.mpr (hparent t ht))
  · obtain ⟨f, hmem, ht⟩ := List.mem_flatMap.mp ht
    obtain ⟨part, hpart, rfl⟩ := filterShapes_within hf hmem
    exact (filterShape_within ht).trans (hpart.trans ((Span.within_tail step).trans hstep))

/-- **What is bad in the shape of a query is at one of its places.** -/
theorem queryShape_bad_isPlace {q : QueryShape} (h : queryShape s = .ok q)
    (hd : q.head = .bad d ∨ .bad d ∈ q.filters) : s.IsPlace d.pos := by
  obtain ⟨parent, step, hdot, hf, -, hhead⟩ := queryShape_eq_ok h
  have hstep := (Span.within_atLastDot hdot).1
  rcases hd with hd | hd
  · rw [hhead d hd]
    exact hstep.isPlace (Span.isPlace_pos step)
  · obtain ⟨part, hpart, hbad⟩ := filterShapes_within hf hd
    exact (hpart.trans ((Span.within_tail step).trans hstep)).isPlace
      (filterShape_isPlace hbad.symm)

/-- **A query without a shape is at fault at one of its places.** -/
theorem queryShape_isPlace (h : queryShape s = .error d) : s.IsPlace d.pos := by
  unfold queryShape at h
  split at h
  · cases h
    exact Span.isPlace_pos s
  · split at h
    · rename_i hdot
      cases h
      exact Span.isPlace_atLastDot hdot
    · rename_i parent step hdot
      have hstep := (Span.within_atLastDot hdot).1
      split at h
      · cases h
        exact hstep.isPlace (Span.isPlace_pos step)
      · split at h
        · rename_i hf
          cases h
          exact ((Span.within_tail step).trans hstep).isPlace (filterShapes_isPlace hf)
        · split at h
          · cases h
          · split at h <;> cases h
          · cases h

end

end ByteAtlas
