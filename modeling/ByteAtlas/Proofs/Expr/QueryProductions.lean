import ByteAtlas.Proofs.Expr.Productions

/-!
# Queries in place

The production of a query is like those of expressions (`Covers.tryQuery`). Only its filters are
gathered otherwise: in place each is put behind those before it, where compiling in parts puts it in
front of those after it (`Covers.filterParts`).

Since every part is shorter than the whole, no range slips, by induction on its length
(`Covers.expr`, `Covers.query`).
-/

namespace ByteAtlas

namespace InPlace

variable {whole s : Span} {r : Range}

section

variable {n depth : Nat} {calls : Calls n}

/-! ## 1. Filters -/

/-- Some filters behind others. Of several selectors the last counts. -/
def appendFilters (fs more : Filters) : Filters :=
  .mk (fs.texts ++ more.texts) (fs.values ++ more.values) (more.selector.or fs.selector)

theorem map_appendFilters_none (rest : Except Diagnostic Filters) :
    rest.map (appendFilters .none) = rest := by
  cases rest with
  | error d => rfl
  | ok more =>
    obtain ⟨_, _, _ | _⟩ := more <;> rfl

/-- What a filter is, of which the tokens before the value have been looked at. -/
def assignedShape (s : Span) (head : Token) (value : Span) : FilterShape :=
  match head with
  | .hash => .selector value
  | .structName name false => .value name value
  | .name field =>
    match value.textArg? with
    | some text => .text ⟨field, text⟩
    | none => .bad ⟨s.pos, .badFilter⟩
  | _ => .bad ⟨s.pos, .badFilter⟩

/-- A filter has three tokens at least, and the second one assigns. -/
theorem filterShape_cases (s : Span) :
    (s.length < 3 ∧ filterShape s = .bad ⟨s.pos, .badFilter⟩) ∨
    ∃ l m ls, s.lexemes = l :: m :: ls ∧ ¬ s.length < 3 ∧
      filterShape s =
        if m.token = .assign then assignedShape s l.token ⟨ls, s.stop⟩
        else .bad ⟨s.pos, .badFilter⟩ := by
  match hs : s.lexemes with
  | [] => exact .inl ⟨by rw [Span.length, hs]; decide, by rw [filterShape, hs]; rfl⟩
  | [l] =>
    refine .inl ⟨?_, ?_⟩
    · rw [Span.length, hs]
      simp
    · rw [filterShape, hs]
      rfl
  | [l, m] =>
    refine .inl ⟨?_, ?_⟩
    · rw [Span.length, hs]
      simp
    · rw [filterShape, hs, List.map_cons, List.map_cons]
      cases m.token <;> rfl
  | l :: m :: x :: ls =>
    refine .inr ⟨l, m, x :: ls, rfl, ?_, ?_⟩
    · rw [Span.length, hs]
      simp
    · have hvalue : s.tail.tail = ⟨x :: ls, s.stop⟩ := by rw [Span.tail, Span.tail, hs]; rfl
      rw [filterShape, hs, hvalue, List.map_cons, List.map_cons, List.map_cons]
      cases m.token <;> rfl

/-- The filters in some ranges, after those there are already, by induction on the parts. -/
theorem Covers.filterParts (ha : calls.Agree whole) {ranges : List Range} {parts : List Span}
    (h : List.Forall₂ (Covers whole) ranges parts) (hn : ∀ part ∈ parts, part.length ≤ n)
    (fs : Filters) :
    Does (filterParts whole calls depth ranges fs)
      ((compiledFilters depth (parts.map filterShape)).tree.map (appendFilters fs))
      (compiledFilters depth (parts.map filterShape)).diagnostics := by
  induction h generalizing fs with
  | nil =>
    obtain ⟨texts, values, selector⟩ := fs
    have hfs : appendFilters (.mk texts values selector) .none = .mk texts values selector := by
      simp [appendFilters, Filters.none, Filters.texts, Filters.values, Filters.selector]
    rw [List.map_nil, compiledFilters, Except.map, hfs]
    exact .pure _
  | @cons r s ranges parts h hparts ih =>
    have ih := ih fun part hpart => hn part (List.mem_cons_of_mem _ hpart)
    obtain ⟨texts, values, selector⟩ := fs
    -- A filter is put behind those before it here, and in front of those after it there.
    have go {fs' : Filters} {prepend : Filters → Filters}
        (hfs : ∀ more, appendFilters (.mk texts values selector) (prepend more) =
          appendFilters fs' more) :
        Does (InPlace.filterParts whole calls depth ranges fs')
          (((compiledFilters depth (parts.map filterShape)).tree.map prepend).map
            (appendFilters (.mk texts values selector)))
          (compiledFilters depth (parts.map filterShape)).diagnostics := by
      have hrest := ih fs'
      cases htree : (compiledFilters depth (parts.map filterShape)).tree with
      | error d =>
        rw [htree] at hrest
        exact hrest
      | ok more =>
        rw [htree, Except.map, ← hfs] at hrest
        exact hrest
    rw [List.map_cons, InPlace.filterParts, h.length, h.posAt_start]
    rcases filterShape_cases s with ⟨hshort, hshape⟩ | ⟨l, m, ls, hs, hlong, hshape⟩
    · rw [hshape, if_pos hshort]
      exact .throw _
    rw [hshape, if_neg hlong]
    refine .next (h.kind [l] hs rfl) ?_
    by_cases hassign : m.token = .assign
    · have hlength : s.length = ls.length + 2 := by rw [Span.length, hs]; rfl
      have hle : r.start + 2 ≤ r.stop := by rw [h.stop]; omega
      have hvalue : Covers whole ⟨r.start + 2, r.stop, hle⟩ ⟨ls, s.stop⟩ := by
        refine h.run [l, m] (show s.lexemes = [l, m] ++ (ls ++ []) by simp [hs]) rfl rfl ?_
        show r.stop = r.start + 2 + ls.length
        rw [h.stop]
        omega
      have hshorter : (⟨ls, s.stop⟩ : Span).length < n := by
        have hle := hn s List.mem_cons_self
        show ls.length < n
        omega
      rw [if_pos hassign, if_pos hassign]
      refine .next (does_range hle) (.next (h.kind [] hs rfl) ?_)
      cases l.token with
      | hash =>
        refine (ha.onExpr hvalue hshorter (depth + 1)).bind (go fun more => ?_)
        obtain ⟨_, _, _ | _⟩ := more <;> rfl
      | structName name isGlobal =>
        cases isGlobal with
        | true => exact .throw _
        | false =>
          refine (ha.onExpr hvalue hshorter (depth + 1)).bind (go fun more => ?_)
          simp [appendFilters, Filters.texts, Filters.values, Filters.selector]
      | name field =>
        have htext := hvalue.textArg
        unfold assignedShape
        cases hspec : (⟨ls, s.stop⟩ : Span).textArg? with
        | none =>
          rw [hspec] at htext
          exact .next htext (.throw _)
        | some text =>
          rw [hspec] at htext
          refine .next htext (go fun more => ?_)
          simp [appendFilters, Filters.texts, Filters.values, Filters.selector]
      | _ => exact .throw _
    · rw [if_neg hassign, if_neg hassign]
      exact .throw _

/-- **The filters between brackets.** -/
theorem Covers.filters (h : Covers whole r s) (ha : calls.Agree whole) (hn : s.length ≤ n)
    (hne : s.lexemes ≠ []) :
    (∃ d, filterShapes s = .error d ∧ Does (filters whole calls r depth) (.error d) []) ∨
    ∃ fs, filterShapes s = .ok fs ∧
      Does (InPlace.filters whole calls r depth) (compiledFilters depth fs).tree
        (compiledFilters depth fs).diagnostics := by
  have hempty : s.lexemes.isEmpty = false := by simpa using hne
  have henclosed := h.isEnclosed hne .square
  unfold InPlace.filters filterShapes
  rw [hempty, if_neg (by decide)]
  cases hinner : s.enclosed? .square with
  | none =>
    rw [hinner] at henclosed
    refine .inl ⟨_, rfl, .next henclosed ?_⟩
    rw [h.posAt_start]
    exact .throw _
  | some inner =>
    rw [hinner] at henclosed
    obtain ⟨part, hpart, hcovers⟩ := h.inside hinner
    dsimp only
    rcases hcovers.commaParts with ⟨d, hparts, hsplit⟩ | ⟨ranges, parts, hparts, hsplit, hall⟩
    · rw [hparts]
      exact .inl ⟨d, rfl, .next henclosed (.next hpart (.stop hsplit))⟩
    · have hlength : ∀ part ∈ parts, part.length ≤ n := fun part hp =>
        (Span.commaParts_length hparts hp).trans
          ((Nat.le_of_lt (Span.enclosed?_length_lt hinner)).trans hn)
      rw [hparts]
      refine .inr ⟨_, rfl, .next henclosed (.next hpart (.next hsplit ?_))⟩
      rw [← map_appendFilters_none (compiledFilters depth _).tree]
      exact Covers.filterParts ha hall.covers hlength .none

/-! ## 2. Steps -/

/-- What the last step of a query starts from. -/
def headShape (parent : Option Span) (l : Lexeme) : QueryHead :=
  match l.token with
  | .name field => .sub parent field
  | .structName name isGlobal =>
    if parent.isSome then .bad ⟨l.pos, .badQuery .lateStructName⟩ else .root name isGlobal
  | _ => .bad ⟨l.pos, .badQuery .noFieldOrStructName⟩

/-- **The last step of a query**, its filters being given. -/
theorem Covers.queryStep {step : Span} {stepRange : Range} (h : Covers whole stepRange step)
    (ha : calls.Agree whole) {l : Lexeme} {ls : List Lexeme} (hs : step.lexemes = l :: ls)
    {start : Nat} {dot : Option Nat} {parent : Option Span}
    (hparent : (dot = none ∧ parent = none) ∨
      ∃ i t, ∃ hle : start ≤ i, dot = some i ∧ parent = some t ∧ Covers whole ⟨start, i, hle⟩ t ∧
        t.length < n)
    (fs : Filters) :
    Reports (queryStep whole calls start stepRange dot fs depth) .error
      ((headShape parent l).compiled fs depth) := by
  have hpos : posAt whole stepRange.start = l.pos := h.posAt_eq [] hs rfl
  refine .next (h.kind [] hs rfl) ?_
  rw [hpos]
  unfold headShape
  cases l.token with
  | name field =>
    rcases hparent with ⟨rfl, rfl⟩ | ⟨i, t, hle, rfl, rfl, hcovers, hshorter⟩
    · exact .of_ok (.pure _)
    · exact .next (does_range hle) (.of_ok
        ((ha.onQuery hcovers hshorter (depth + 1)).map fun q => Query.sub (some q) field fs))
  | structName name isGlobal =>
    rcases hparent with ⟨rfl, rfl⟩ | ⟨i, t, hle, rfl, rfl, -⟩
    · exact .of_ok (.pure _)
    · exact .throw _ _
  | _ => exact .throw _ _

/-- The filters of the last step of a query, if it has any. -/
theorem Covers.stepFilters {step : Span} {stepRange : Range} (h : Covers whole stepRange step)
    (ha : calls.Agree whole) (hn : step.length ≤ n) {l : Lexeme} {ls : List Lexeme}
    (hs : step.lexemes = l :: ls) :
    (∃ d, filterShapes step.tail = .error d ∧
      Does (stepFilters whole calls stepRange depth) (.error d) []) ∨
    ∃ fs, filterShapes step.tail = .ok fs ∧
      Does (InPlace.stepFilters whole calls stepRange depth) (compiledFilters depth fs).tree
        (compiledFilters depth fs).diagnostics := by
  unfold InPlace.stepFilters
  rw [h.length]
  have hlength : step.length = ls.length + 1 := by rw [Span.length, hs]; rfl
  have htail : step.tail.lexemes = ls := by rw [Span.tail, hs]; rfl
  by_cases hls : ls = []
  · refine .inr ⟨[], ?_, ?_⟩
    · rw [filterShapes, htail, hls]
      rfl
    · rw [if_neg (by rw [hlength, hls]; exact Nat.lt_irrefl 1)]
      exact .pure _
  · have hpos := List.length_pos_iff.mpr hls
    have hle : stepRange.start + 1 ≤ stepRange.stop := by
      rw [h.stop]
      omega
    have hrest : Covers whole ⟨stepRange.start + 1, stepRange.stop, hle⟩ step.tail :=
      h.tail hs rfl rfl
    rw [if_pos (by omega)]
    have hlength := (Span.length_tail_le step).trans hn
    rcases hrest.filters ha hlength (by rw [htail]; exact hls) with ⟨d, herror, hdoes⟩ |
      ⟨fs, hok, hdoes⟩
    · exact .inl ⟨d, herror, .next (does_range hle) hdoes⟩
    · exact .inr ⟨fs, hok, .next (does_range hle) hdoes⟩

/-- The shape of a query that has been cut at its last dot. -/
theorem queryShape_of_atLastDot {step : Span} {parent : Option Span} (hne : s.lexemes ≠ [])
    (hcut : s.atLastDot = .ok (parent, step)) :
    queryShape s =
      match step.lexemes with
      | [] => .error ⟨step.pos, .badQuery .noNameAfterDot⟩
      | l :: _ => (filterShapes step.tail).map fun fs => ⟨headShape parent l, fs⟩ := by
  have hempty : s.lexemes.isEmpty = false := by simpa using hne
  unfold queryShape
  rw [hempty, if_neg (by decide), hcut]
  cases hls : step.lexemes with
  | nil => simp only [hls]
  | cons l ls =>
    simp only [hls]
    cases filterShapes step.tail with
    | error d => rfl
    | ok fs =>
      simp only [Except.map, headShape]
      cases l.token with
      | structName name isGlobal =>
        cases parent with
        | none => rfl
        | some t => rfl
      | _ => rfl

/-- The tree of the shape of a query, or what is wrong. -/
def compiledQueryShape (depth : Nat) : Except Diagnostic QueryShape → Compiled Query
  | .error d => ⟨.error, [d]⟩
  | .ok q => q.compiled depth

/-- **A query.** -/
theorem Covers.tryQuery (h : Covers whole r s) (ha : calls.Agree whole) (hn : s.length ≤ n) :
    Reports (tryQuery whole calls r depth) .error (compileQuery s depth) := by
  unfold InPlace.tryQuery
  rw [compileQuery_eq, h.posAt_start, h.isEmpty]
  split
  · exact .throw _ _
  show Reports _ .error (compiledQueryShape depth (queryShape s))
  by_cases hs : s.lexemes = []
  · have hshape : queryShape s = .error ⟨s.pos, .badQuery .emptyQuery⟩ := by
      rw [queryShape, hs]
      rfl
    rw [hs, hshape]
    exact .throw _ _
  have hempty : s.lexemes.isEmpty = false := by simpa using hs
  rw [hempty, if_neg (by decide)]
  -- What is done with the step is the same whether or not there is a dot before it.
  have go {dot : Option Nat} {parent : Option Span} {step : Span} (stepRange : Range)
      (hstart : stepRange.start = dot.elim r.start (· + 1)) (hstop : stepRange.stop = r.stop)
      (hdot : Does (InPlace.lastTopLevel whole r .dot) (.ok dot) [])
      (hcut : s.atLastDot = .ok (parent, step)) (hstep : Covers whole stepRange step)
      (hparent : (dot = none ∧ parent = none) ∨
        ∃ i t, ∃ hle : r.start ≤ i, dot = some i ∧ parent = some t ∧ Covers whole ⟨r.start, i, hle⟩ t ∧
          t.length < n) :
      Reports (do
        let dot ← InPlace.lastTopLevel whole r .dot
        let step ← range (dot.elim r.start (· + 1)) r.stop
        if step.isEmpty then throw ⟨posAt whole step.start, .badQuery .noNameAfterDot⟩
        else do
          let filters ← InPlace.stepFilters whole calls step depth
          InPlace.queryStep whole calls r.start step dot filters depth) .error
        (compiledQueryShape depth (queryShape s)) := by
    obtain ⟨start, stop, hle⟩ := stepRange
    obtain rfl : start = dot.elim r.start (· + 1) := hstart
    obtain rfl : stop = r.stop := hstop
    refine .next hdot (.next (does_range hle) ?_)
    rw [queryShape_of_atLastDot hs hcut, hstep.isEmpty, hstep.posAt_start]
    cases hls : step.lexemes with
    | nil => exact .throw _ _
    | cons l ls =>
      have hlength := (Span.atLastDot_length hcut).1.trans hn
      rcases hstep.stepFilters ha hlength hls with ⟨d, herror, hdoes⟩ | ⟨fs, hok, hdoes⟩
      · rw [herror]
        exact .of_error (.stop hdoes)
      · rw [hok]
        show Reports _ _ (QueryShape.compiled depth ⟨headShape parent l, fs⟩)
        rw [List.isEmpty_cons, if_neg (by decide)]
        cases htree : (compiledFilters depth fs).tree with
        | error d =>
          rw [htree] at hdoes
          simp only [QueryShape.compiled, htree]
          exact .of_error (.stop hdoes)
        | ok filters =>
          rw [htree] at hdoes
          simp only [QueryShape.compiled, htree]
          exact .bind hdoes (hstep.queryStep ha hls hparent filters)
  rcases h.atLastDot with ⟨d, hcut, hdot⟩ | ⟨hcut, hdot⟩ | ⟨before, l, after, hls, hcut, hdot⟩
  · have hshape : queryShape s = .error d := by
      rw [queryShape, hempty, if_neg (by decide), hcut]
    rw [hshape]
    exact .of_error (.stop hdot)
  · exact go r rfl rfl hdot hcut h (.inl ⟨rfl, rfl⟩)
  · have hbehind : r.start + before.length + 1 ≤ r.stop := by
      rw [h.stop, Span.length, hls, List.length_append, List.length_cons]
      omega
    have hbefore : r.start ≤ r.start + before.length := Nat.le_add_right _ _
    obtain ⟨hparent, hstep⟩ : Covers whole ⟨r.start, r.start + before.length, hbefore⟩ _ ∧
        Covers whole ⟨r.start + before.length + 1, r.stop, hbehind⟩ _ :=
      h.around before hls rfl rfl rfl rfl
    have hshorter := ((Span.atLastDot_length hcut).2 _ (Option.mem_toList.mpr rfl)).trans_le hn
    exact go ⟨r.start + before.length + 1, r.stop, hbehind⟩ rfl rfl hdot hcut hstep
      (.inr ⟨_, _, hbefore, rfl, rfl, hparent, hshorter⟩)

end

/-! ## 3. Whole ranges -/

mutual

/-- **Compiling a range is compiling the span for which it stands**, by induction on its length. -/
theorem Covers.expr {r : Range} {s : Span} (h : Covers whole r s) (depth : Nat) :
    Compiles (expr whole r depth) (compileExpr s depth) := by
  rw [InPlace.expr]
  exact h.tryExpr
    { expr := fun hr depth hpart => hpart.expr depth
      query := fun hr depth hpart => hpart.query depth } (Nat.le_of_eq h.length.symm)
termination_by r.length

/-- **The same for a query.** -/
theorem Covers.query {r : Range} {s : Span} (h : Covers whole r s) (depth : Nat) :
    Compiles (query whole r depth) (compileQuery s depth) := by
  rw [InPlace.query]
  exact h.tryQuery
    { expr := fun hr depth hpart => hpart.expr depth
      query := fun hr depth hpart => hpart.query depth } (Nat.le_of_eq h.length.symm)
termination_by r.length

end

end InPlace

end ByteAtlas
