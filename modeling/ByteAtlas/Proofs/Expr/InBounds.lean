import ByteAtlas.Proofs.Expr.InPlace

/-!
# Ranges that stand for spans

`InPlace.Does` says of a step of compiling that it does not slip, what it returns and what it notes.
`InPlace.Covers` says that a range stands for a span: then reading a token of the span by its index
does not slip (`Covers.kind`), nor does reading the tokens before an operator
(`Covers.isBinaryPosition`).
-/

namespace ByteAtlas

namespace InPlace

/-! ## 1. Steps that do not slip -/

section

variable {α β : Type}

/-- **What a step does**: it does not slip, it has the result, and it notes these diagnostics. -/
def Does (step : Compiling α) (result : Except Diagnostic α) (noted : List Diagnostic) : Prop :=
  ∀ ds, StateT.run (ExceptT.run step) ds = .ok (result, ds ++ noted)

variable {step : Compiling α} {rest : α → Compiling β} {a : α} {d : Diagnostic}
  {result : Except Diagnostic β} {noted noted' : List Diagnostic}

theorem run_bind (step : Compiling α) (rest : α → Compiling β) (ds : List Diagnostic) :
    StateT.run (ExceptT.run (step >>= rest)) ds =
      match StateT.run (ExceptT.run step) ds with
      | .error slip => .error slip
      | .ok (.ok a, ds') => StateT.run (ExceptT.run (rest a)) ds'
      | .ok (.error d, ds') => .ok (.error d, ds') := by
  simp only [ExceptT.run, StateT.run, bind, ExceptT.bind, ExceptT.mk, StateT.bind,
    ExceptT.bindCont, Except.bind]
  cases step ds with
  | error slip => rfl
  | ok p =>
    obtain ⟨_ | _, _⟩ := p <;> rfl

theorem run_tryCatch (step : Compiling α) (handler : Diagnostic → Compiling α)
    (ds : List Diagnostic) :
    StateT.run (ExceptT.run (tryCatch step handler)) ds =
      match StateT.run (ExceptT.run step) ds with
      | .error slip => .error slip
      | .ok (.ok a, ds') => .ok (.ok a, ds')
      | .ok (.error d, ds') => StateT.run (ExceptT.run (handler d)) ds' := by
  simp only [ExceptT.run, StateT.run, tryCatch, tryCatchThe, MonadExceptOf.tryCatch,
    ExceptT.tryCatch, ExceptT.mk, bind, StateT.bind, Except.bind]
  cases step ds with
  | error slip => rfl
  | ok p =>
    obtain ⟨_ | _, _⟩ := p <;> rfl

namespace Does

theorem pure (a : α) : Does (Pure.pure a) (.ok a) [] :=
  fun ds => by rw [List.append_nil]; rfl

theorem throw (d : Diagnostic) : Does (MonadExcept.throw d : Compiling α) (.error d) [] :=
  fun ds => by rw [List.append_nil]; rfl

theorem bind (h : Does step (.ok a) noted) (hn : Does (rest a) result noted') :
    Does (step >>= rest) result (noted ++ noted') := by
  intro ds
  rw [run_bind, h ds]
  dsimp only
  rw [hn, List.append_assoc]

/-- After a step that notes nothing. -/
theorem next (h : Does step (.ok a) []) (hn : Does (rest a) result noted) :
    Does (step >>= rest) result noted :=
  h.bind hn

/-- Before a step that notes nothing. -/
theorem last (h : Does step (.ok a) noted) (hn : Does (rest a) result []) :
    Does (step >>= rest) result noted := by
  rw [← List.append_nil noted]
  exact h.bind hn

/-- A step that breaks off. -/
theorem stop (h : Does step (.error d) noted) : Does (step >>= rest) (.error d) noted := by
  intro ds
  rw [run_bind, h ds]

theorem note (d : Diagnostic) : Does (InPlace.note d) (.ok ()) [d] := fun _ => rfl

/-- A step that does not break off. -/
theorem catch_ok (h : Does step (.ok a) noted) (handler : Diagnostic → Compiling α) :
    Does (tryCatch step handler) (.ok a) noted := by
  intro ds
  rw [run_tryCatch, h ds]

/-- A step that breaks off and is handled. -/
theorem catch_error {handler : Diagnostic → Compiling α} {caught : Except Diagnostic α}
    (h : Does step (.error d) noted) (hh : Does (handler d) caught noted') :
    Does (tryCatch step handler) caught (noted ++ noted') := by
  intro ds
  rw [run_tryCatch, h ds]
  dsimp only
  rw [hh, List.append_assoc]

end Does

end

theorem does_minus {i less : Nat} (h : less ≤ i) : Does (minus i less) (.ok (i - less)) [] := by
  rw [minus, if_pos h]
  exact .pure _

theorem does_range {start stop : Nat} (h : start ≤ stop) :
    Does (range start stop) (.ok ⟨start, stop, h⟩) [] := by
  rw [range, dif_pos h]
  exact .pure _

/-! ## 2. Ranges that stand for spans -/

/-- **Whether a range stands for a span**: it holds the same tokens, and what follows it starts
where the span stops. -/
structure Covers (whole : Span) (r : Range) (s : Span) : Prop where
  stop : r.stop = r.start + s.length
  lexemes : ∀ k < s.length, whole.lexemes[r.start + k]? = s.lexemes[k]?
  pos : posAt whole r.stop = s.stop

namespace Covers

variable {whole s t : Span} {r part : Range}

theorem length (h : Covers whole r s) : r.length = s.length := by
  rw [Range.length, h.stop, Nat.add_sub_cancel_left]

theorem isEmpty (h : Covers whole r s) : r.isEmpty = s.lexemes.isEmpty := by
  rw [Range.isEmpty, h.stop, Span.length]
  cases s.lexemes <;> simp

/-- All tokens. -/
theorem all (whole : Span) : Covers whole ⟨0, whole.length, Nat.zero_le _⟩ whole where
  stop := (Nat.zero_add _).symm
  lexemes k _ := by rw [Nat.zero_add]
  pos := by
    have hnone : whole.lexemes[whole.length]? = none := List.getElem?_eq_none (Nat.le_refl _)
    show (Option.map Lexeme.pos whole.lexemes[whole.length]?).getD whole.stop = whole.stop
    rw [hnone]
    rfl

/-- The token behind some others. -/
theorem lexeme (h : Covers whole r s) (before : List Lexeme) {after : List Lexeme} {l : Lexeme}
    (hs : s.lexemes = before ++ l :: after) : whole.lexemes[r.start + before.length]? = some l := by
  rw [h.lexemes _ (by simp [Span.length, hs]), hs, List.getElem?_append_right (Nat.le_refl _),
    Nat.sub_self]
  rfl

/-- Reading the token behind some others. -/
theorem kind (h : Covers whole r s) (before : List Lexeme) {after : List Lexeme} {l : Lexeme}
    (hs : s.lexemes = before ++ l :: after) {i : Nat} (hi : i = r.start + before.length) :
    Does (kind whole i) (.ok l.token) [] := by
  rw [InPlace.kind, hi, h.lexeme before hs]
  exact .pure _

theorem posAt_eq (h : Covers whole r s) (before : List Lexeme) {after : List Lexeme} {l : Lexeme}
    (hs : s.lexemes = before ++ l :: after) {i : Nat} (hi : i = r.start + before.length) :
    posAt whole i = l.pos := by
  rw [posAt, hi, h.lexeme before hs]
  rfl

/-- Where the span starts. -/
theorem posAt_start (h : Covers whole r s) : posAt whole r.start = s.pos := by
  cases hs : s.lexemes with
  | nil =>
    have hstop : r.stop = r.start := by rw [h.stop, Span.length, hs]; rfl
    rw [← hstop, h.pos, Span.pos, hs]
  | cons l ls =>
    rw [h.posAt_eq [] hs (Nat.add_zero _).symm, Span.pos, hs]

/-- **A run of tokens of the span**, which is a part of the range. -/
theorem run (h : Covers whole r s) (before : List Lexeme) {after : List Lexeme}
    (hs : s.lexemes = before ++ (t.lexemes ++ after)) (ht : t.stop = Span.pos ⟨after, s.stop⟩)
    (hstart : part.start = r.start + before.length) (hstop : part.stop = part.start + t.length) :
    Covers whole part t where
  stop := hstop
  lexemes k hk := by
    have hlength : before.length + k < s.length := by
      rw [Span.length, hs, List.length_append, List.length_append]
      rw [Span.length] at hk
      omega
    rw [hstart, Nat.add_assoc, h.lexemes _ hlength, hs,
      List.getElem?_append_right (Nat.le_add_right _ _), Nat.add_sub_cancel_left,
      List.getElem?_append_left hk]
  pos := by
    rw [ht]
    have hlength : part.stop = r.start + (before ++ t.lexemes).length := by
      rw [hstop, hstart, List.length_append, Span.length, Nat.add_assoc]
    cases after with
    | nil =>
      have hend : part.stop = r.stop := by
        rw [hlength, h.stop, Span.length, hs, List.append_nil]
      rw [hend, h.pos]
      rfl
    | cons l after => exact h.posAt_eq (before ++ t.lexemes) (by rw [hs, List.append_assoc]) hlength

/-- What stands on either side of a token. -/
theorem around (h : Covers whole r s) (before : List Lexeme) {after : List Lexeme} {l : Lexeme}
    (hs : s.lexemes = before ++ l :: after) {left right : Range}
    (hleft : left.start = r.start) (hl : left.stop = r.start + before.length)
    (hright : right.start = r.start + before.length + 1) (hr : right.stop = r.stop) :
    Covers whole left ⟨before, l.pos⟩ ∧ Covers whole right ⟨after, s.stop⟩ := by
  refine ⟨h.run [] hs rfl hleft (by rw [hl, hleft]; rfl),
    h.run (before ++ [l]) (show _ = _ ++ (after ++ []) by simp [hs]) rfl ?_ ?_⟩
  · rw [hright, List.length_append]
    rfl
  · have hlength := h.stop
    rw [Span.length, hs, List.length_append, List.length_cons] at hlength
    show right.stop = right.start + after.length
    omega

/-- All but the first token. -/
theorem tail (h : Covers whole r s) {l : Lexeme} {ls : List Lexeme} (hs : s.lexemes = l :: ls)
    (hstart : part.start = r.start + 1) (hstop : part.stop = r.stop) : Covers whole part s.tail := by
  have htail : s.tail = ⟨ls, s.stop⟩ := by rw [Span.tail, hs]; rfl
  rw [htail]
  have hempty : (⟨r.start, r.start, Nat.le_refl _⟩ : Range).start = r.start := rfl
  exact (h.around [] hs hempty rfl hstart hstop).2

/-- All but the last token. -/
theorem dropLast (h : Covers whole r s) {l : Lexeme} {ls : List Lexeme} (hs : s.lexemes = ls ++ [l])
    (hstart : part.start = r.start) (hstop : part.stop + 1 = r.stop) :
    Covers whole part s.dropLast := by
  have hlast : s.dropLast = ⟨ls, l.pos⟩ := by simp [Span.dropLast, hs]
  rw [hlast]
  refine h.run [] hs rfl hstart ?_
  have hlength := h.stop
  rw [Span.length, hs, List.length_append, List.length_singleton] at hlength
  show part.stop = part.start + ls.length
  omega

end Covers

/-! ## 3. Operators between operands -/

/-- The token before what follows some others. -/
def previous? (before : List Lexeme) : Option Token := before.getLast?.map Lexeme.token

/-- The token before that one. -/
def earlier? (before : List Lexeme) : Option Token := previous? before.dropLast

@[simp] theorem previous?_concat (before : List Lexeme) (l : Lexeme) :
    previous? (before ++ [l]) = some l.token := by
  simp [previous?]

@[simp] theorem earlier?_concat (before : List Lexeme) (l : Lexeme) :
    earlier? (before ++ [l]) = previous? before := by
  simp [earlier?]

/-- Which token is an operator depends on the tokens before it only. -/
theorem binaryAt_eq (earlier : Option Token) (previous token : Token) :
    binaryAt earlier (some previous) token =
      if endsOperand previous && !(decide (earlier = some .dollar) && isName previous) then
        binaryOp? token
      else none := by
  cases token with
  | operator op =>
    cases hends : endsOperand previous with
    | false => simp [binaryAt, hends]
    | true =>
      by_cases hdollar : earlier = some .dollar
      · subst hdollar
        cases previous <;> simp_all [binaryAt, endsOperand, isName, binaryOp?]
      · simp only [binaryAt, hends, if_true, hdollar, decide_false, Bool.false_and, Bool.not_false,
          Bool.and_self, binaryOp?]
        split
        · exact absurd rfl hdollar
        · rfl
  | _ => simp [binaryAt, binaryOp?]

variable {whole s : Span} {r : Range}

/-- **Whether an operator is a binary one** is found from the tokens before it, which are there. -/
theorem Covers.isBinaryPosition (h : Covers whole r s) (before : List Lexeme) {after : List Lexeme}
    {l : Lexeme} (hs : s.lexemes = before ++ l :: after) {i : Nat}
    (hi : i = r.start + before.length) :
    ∃ yes, Does (isBinaryPosition whole r.start i) (.ok yes) [] ∧
      binaryAt (earlier? before) (previous? before) l.token =
        if yes then binaryOp? l.token else none := by
  unfold InPlace.isBinaryPosition
  rcases List.eq_nil_or_concat before with rfl | ⟨front, p, rfl⟩
  · have hfirst : i = r.start := hi
    rw [if_pos hfirst]
    refine ⟨false, .pure _, ?_⟩
    cases l.token <;> rfl
  rw [List.concat_eq_append] at hs hi ⊢
  rw [List.length_append, List.length_singleton] at hi
  have hone : 1 ≤ i := by omega
  rw [if_neg (by omega), previous?_concat, earlier?_concat, binaryAt_eq]
  have hp : Does (InPlace.kind whole (i - 1)) (.ok p.token) [] :=
    h.kind front (by rw [hs, List.append_assoc]; rfl) (by omega)
  rcases List.eq_nil_or_concat front with rfl | ⟨front, q, rfl⟩
  · have hfew : ¬ r.start + 2 ≤ i := by
      rw [List.length_nil] at hi
      omega
    refine ⟨_, .next (does_minus hone) (.next hp ?_), rfl⟩
    rw [if_neg hfew]
    exact .next (.pure false) (.pure _)
  · rw [List.concat_eq_append] at hs hi ⊢
    rw [List.length_append, List.length_singleton] at hi
    have hq : Does (InPlace.kind whole (i - 2)) (.ok q.token) [] :=
      h.kind front (by rw [hs, List.append_assoc, List.append_assoc]; rfl) (by omega)
    have htwo : r.start + 2 ≤ i := by omega
    have hdollar : (some q.token = some Token.dollar) = (q.token = .dollar) := by simp
    refine ⟨_, .next (does_minus hone) (.next hp ?_), rfl⟩
    rw [if_pos htwo, previous?_concat]
    simp only [hdollar]
    exact .next (does_minus (Nat.le_trans (Nat.le_add_left 2 _) htwo))
      (.next hq (.next (.pure _) (.pure _)))

end InPlace

end ByteAtlas
