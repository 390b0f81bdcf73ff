import ByteAtlas.Proofs.Expr.Closing
import ByteAtlas.Proofs.Expr.InBounds
import ByteAtlas.Proofs.Expr.Reading
import ByteAtlas.Proofs.Expr.Runs

/-!
# Scans in place

A scan goes through a range by index. What it finds is what cutting the span finds for which the
range stands, and it reads no token that is not there: the last token of a kind
(`Covers.lastTopLevel`), the weakest operator (`Covers.atWeakest`), the parts between commas
(`Covers.commaParts`) and the inside of brackets (`Covers.isEnclosed`, `Covers.inside`).
-/

namespace ByteAtlas

namespace InPlace

variable {whole s : Span} {r : Range}

/-! ## 1. Scans over brackets -/

section

variable {σ : Type}

/-- What a scan has found once it has visited some marked tokens; `before` come before them. -/
def visited (visit : List Lexeme → Lexeme → σ → σ) : List Lexeme → List (Lexeme × Bool) → σ → σ
  | _, [], x => x
  | before, (l, outside) :: ls, x =>
    visited visit (before ++ [l]) ls (if outside then visit before l x else x)

/-- **What a visitor does** with the tokens of a span, as long as something holds of what it has
found and the tokens before. -/
structure Visits (r : Range) (s : Span) (step : Nat → σ → Compiling σ)
    (visit : List Lexeme → Lexeme → σ → σ) (inv : List Lexeme → σ → Prop) : Prop where
  does : ∀ before l after x, s.lexemes = before ++ l :: after → inv before x →
    Does (step (r.start + before.length) x) (.ok (visit before l x)) []
  keep : ∀ before l x, inv before x → inv (before ++ [l]) (visit before l x)
  skip : ∀ before l x, inv before x → inv (before ++ [l]) x

variable {step : Nat → σ → Compiling σ} {visit : List Lexeme → Lexeme → σ → σ}
  {inv : List Lexeme → σ → Prop}

/-- **A scan visits the tokens outside brackets**, by induction on the tokens that are left. -/
theorem Covers.scanFrom (h : Covers whole r s) (hv : Visits r s step visit inv) :
    ∀ (ls before : List Lexeme) (stack : List (Bracket × Nat)) (x : σ), s.lexemes = before ++ ls →
      inv before x →
      Does (scanFrom whole step ls.length (r.start + before.length) stack x)
        ((outsideBrackets (stack.map fun o => (o.1, posAt whole o.2)) ls).map fun marks =>
          InPlace.visited visit before (ls.zip marks) x) [] := by
  intro ls
  induction ls with
  | nil =>
    intro before stack x _ _
    cases stack with
    | nil => exact .pure x
    | cons o _ => exact .throw _
  | cons l ls ih =>
    intro before stack x hs hx
    have hkind := h.kind before hs rfl
    have hpos := h.posAt_eq before hs rfl
    have rest (stack' : List (Bracket × Nat)) (mark : Bool) (x' : σ) (hx' : inv (before ++ [l]) x')
        (he : x' = if mark then visit before l x else x) :
        Does (InPlace.scanFrom whole step ls.length (r.start + before.length + 1) stack' x')
          (((outsideBrackets (stack'.map fun o => (o.1, posAt whole o.2)) ls).map (mark :: ·)).map
            fun marks => InPlace.visited visit before ((l :: ls).zip marks) x) [] := by
      have hrest := ih (before ++ [l]) stack' x' (by rw [hs, List.append_assoc]; rfl) hx'
      rw [List.length_append, List.length_singleton, ← Nat.add_assoc] at hrest
      cases hm : outsideBrackets (stack'.map fun o => (o.1, posAt whole o.2)) ls with
      | error d =>
        rw [hm] at hrest
        exact hrest
      | ok marks =>
        rw [hm, he] at hrest
        rw [he]
        exact hrest
    cases ht : l.token with
    | opening b =>
      simp only [List.length_cons, InPlace.scanFrom, outsideBrackets, ht, List.length_map]
      rw [ht] at hkind
      refine .next hkind ?_
      dsimp only
      by_cases hdeep : nestingLimit ≤ stack.length
      · rw [if_pos hdeep, if_pos hdeep, hpos]
        exact .throw _
      · rw [if_neg hdeep, if_neg hdeep, ← hpos]
        exact rest ((b, r.start + before.length) :: stack) false x (hv.skip before l x hx) rfl
    | closing b =>
      simp only [List.length_cons, InPlace.scanFrom, outsideBrackets, ht]
      rw [ht] at hkind
      refine .next hkind ?_
      dsimp only
      cases stack with
      | nil =>
        rw [hpos]
        exact .throw _
      | cons o outer =>
        obtain ⟨b', j⟩ := o
        simp only [List.map_cons]
        by_cases hkinds : b' = b
        · rw [if_pos hkinds, if_pos hkinds]
          exact rest outer false x (hv.skip before l x hx) rfl
        · rw [if_neg hkinds, if_neg hkinds, hpos]
          exact .throw _
    | _ =>
      simp only [List.length_cons, InPlace.scanFrom, outsideBrackets, ht, List.isEmpty_map]
      rw [ht] at hkind
      refine .next hkind ?_
      dsimp only
      cases hempty : stack.isEmpty with
      | false => exact rest stack false x (hv.skip before l x hx) rfl
      | true =>
        exact .next (hv.does before l ls x hs hx)
          (rest stack true _ (hv.keep before l x hx) rfl)

/-- **A scan over a range** finds what is in the marked tokens of its span. -/
theorem Covers.scanTopLevel (h : Covers whole r s) (hv : Visits r s step visit inv) {x : σ}
    (hx : inv [] x) :
    Does (scanTopLevel whole r step x) (s.marked.map fun ms => InPlace.visited visit [] ms x) [] := by
  have hscan := h.scanFrom hv s.lexemes [] [] x rfl hx
  rw [InPlace.scanTopLevel, h.length, Span.marked_eq]
  cases hm : outsideBrackets [] s.lexemes with
  | error d =>
    rw [List.map_nil, hm] at hscan
    exact hscan
  | ok marks =>
    rw [List.map_nil, hm] at hscan
    exact hscan

/-! ## 2. The last token of a kind -/

/-- A visitor that keeps the index of the last token with a property. -/
theorem visited_last (start : Nat) (p : Lexeme → Bool) : ∀ (ls : List (Lexeme × Bool))
    (before : List Lexeme) (x : Option Nat),
    visited (fun before l x => if p l then some (start + before.length) else x) before ls x =
      ((splitLast (fun m => m.2 && p m.1) ls).map fun cut =>
        start + (before.length + cut.1.length)).or x
  | [], _, _ => rfl
  | (l, outside) :: ls, before, x => by
    rw [visited, visited_last start p ls, splitLast]
    cases splitLast (fun m => m.2 && p m.1) ls with
    | some cut =>
      simp only [Option.map_some, Option.some_or, List.length_append, List.length_cons,
        List.length_nil, Nat.add_assoc, Nat.zero_add, Nat.add_comm 1]
    | none => cases outside <;> cases p l <;> simp

/-- **The last token of a kind outside brackets** is found by its index. -/
theorem Covers.lastTopLevel (h : Covers whole r s) (token : Token) :
    Does (lastTopLevel whole r token)
      (s.marked.map fun ms =>
        (splitLast (fun m => m.2 && m.1.token = token) ms).map fun cut => r.start + cut.1.length)
      [] := by
  have hv : Visits r s
      (fun i last => do
        if (← InPlace.kind whole i) = token then Pure.pure (some i) else Pure.pure last)
      (fun before l last => if decide (l.token = token) then some (r.start + before.length) else last)
      fun _ _ => True :=
    { does := fun before l after x hs _ => by
        refine .next (h.kind before hs rfl) ?_
        by_cases ht : l.token = token
        · simp only [ht, if_true, decide_true]
          exact .pure _
        · simp only [ht, if_false, decide_false, Bool.false_eq_true]
          exact .pure _
      keep := fun _ _ _ _ => trivial
      skip := fun _ _ _ _ => trivial }
  have hscan := h.scanTopLevel hv (x := none) trivial
  simp only [visited_last, List.length_nil, Nat.zero_add, Option.or_none] at hscan
  exact hscan

/-- **A query is cut at its last dot**, which is found by its index. -/
theorem Covers.atLastDot (h : Covers whole r s) :
    (∃ d, s.atLastDot = .error d ∧ Does (InPlace.lastTopLevel whole r .dot) (.error d) []) ∨
    (s.atLastDot = .ok (none, s) ∧ Does (InPlace.lastTopLevel whole r .dot) (.ok none) []) ∨
    ∃ before l after, s.lexemes = before ++ l :: after ∧
      s.atLastDot = .ok (some ⟨before, l.pos⟩, ⟨after, s.stop⟩) ∧
      Does (InPlace.lastTopLevel whole r .dot) (.ok (some (r.start + before.length))) [] := by
  have hfound := h.lastTopLevel .dot
  unfold Span.atLastDot
  cases hmarked : s.marked with
  | error d =>
    rw [hmarked] at hfound
    exact .inl ⟨d, rfl, hfound⟩
  | ok ms =>
    simp only [hmarked, Except.map] at hfound ⊢
    cases hcut : splitLast (fun m => m.2 && m.1.token = .dot) ms with
    | none =>
      rw [hcut] at hfound
      exact .inr (.inl ⟨rfl, hfound⟩)
    | some cut =>
      obtain ⟨before, m, after⟩ := cut
      rw [hcut, Option.map_some, ← List.length_map Prod.fst] at hfound
      exact .inr (.inr ⟨_, m.1, _, Span.lexemes_of_splitLast (Span.map_fst_marked hmarked) hcut, rfl,
        hfound⟩)

/-! ## 3. The weakest operator -/

/-- The weakest operator so far with its index, after an index at which there may be one. -/
def keepWeakest (i : Nat) (op : Option BinaryOp) (weakest : Option (Nat × BinaryOp)) :
    Option (Nat × BinaryOp) :=
  match op with
  | none => weakest
  | some op => if weakest.all fun best => op.score ≤ best.2.score then some (i, op) else weakest

/-- The weakest operator among some cuts, of which `i` is the index of the first, and what comes
before. -/
def weakestFrom : (i : Nat) → List (Lexeme × Option BinaryOp) → (weakest : Option (Nat × BinaryOp)) →
    Option (Nat × BinaryOp)
  | _, [], weakest => weakest
  | i, c :: cuts, weakest => weakestFrom (i + 1) cuts (keepWeakest i c.2 weakest)

/-- **Whether an operator is the weakest among some cuts**, the last of equally weak ones. -/
structure IsWeakest (cuts before : List (Lexeme × Option BinaryOp)) (l : Lexeme) (op : BinaryOp)
    (after : List (Lexeme × Option BinaryOp)) : Prop where
  eq : cuts = before ++ (l, some op) :: after
  le : ∀ c ∈ cuts, ∀ op', c.2 = some op' → op.score ≤ op'.score
  lt : ∀ c ∈ after, ∀ op', c.2 = some op' → op.score < op'.score

section

variable {cuts before after : List (Lexeme × Option BinaryOp)} {l : Lexeme} {op : BinaryOp}

theorem IsWeakest.cons (hw : IsWeakest cuts before l op after) {c : Lexeme × Option BinaryOp}
    (hc : ∀ op', c.2 = some op' → op.score ≤ op'.score) :
    IsWeakest (c :: cuts) (c :: before) l op after where
  eq := congrArg (c :: ·) hw.eq
  le := List.forall_mem_cons.mpr ⟨hc, hw.le⟩
  lt := hw.lt

theorem IsWeakest.first (hlt : ∀ c ∈ after, ∀ op', c.2 = some op' → op.score < op'.score) :
    IsWeakest ((l, some op) :: after) [] l op after where
  eq := rfl
  le := List.forall_mem_cons.mpr
    ⟨fun _ h => by cases h; exact Nat.le_refl _, fun c hc op' h => Nat.le_of_lt (hlt c hc op' h)⟩
  lt := hlt

/-- What a scan for the weakest operator finds: either all operators are stronger than the one
before them, or it is one of them. -/
theorem weakestFrom_cases : ∀ (cuts : List (Lexeme × Option BinaryOp)) (i : Nat)
    (weakest : Option (Nat × BinaryOp)),
    (weakestFrom i cuts weakest = weakest ∧
      ∀ c ∈ cuts, ∀ op, c.2 = some op → ∃ best ∈ weakest, best.2.score < op.score) ∨
    ∃ before l op after, IsWeakest cuts before l op after ∧
      (∀ best ∈ weakest, op.score ≤ best.2.score) ∧
      weakestFrom i cuts weakest = some (i + before.length, op)
  | [], _, _ => .inl ⟨rfl, fun _ h => nomatch h⟩
  | c :: cuts, i, weakest => by
    have later {before after : List (Lexeme × Option BinaryOp)} {l : Lexeme} {op : BinaryOp}
        (hw : IsWeakest cuts before l op after)
        (hc : ∀ op', c.2 = some op' → op.score ≤ op'.score)
        (hbest : ∀ best ∈ weakest, op.score ≤ best.2.score)
        (heq : weakestFrom i (c :: cuts) weakest = some (i + 1 + before.length, op)) :
        ∃ before l op after, IsWeakest (c :: cuts) before l op after ∧
          (∀ best ∈ weakest, op.score ≤ best.2.score) ∧
          weakestFrom i (c :: cuts) weakest = some (i + before.length, op) := by
      refine ⟨c :: before, l, op, after, hw.cons hc, hbest, ?_⟩
      rw [heq, List.length_cons, Nat.add_assoc, Nat.add_comm 1]
    have ih := weakestFrom_cases cuts (i + 1) (keepWeakest i c.2 weakest)
    rw [weakestFrom] at later ⊢
    obtain ⟨l, _ | op⟩ := c
    · rcases ih with ⟨heq, hstrong⟩ | ⟨_, _, _, _, hw, hbest, heq⟩
      · exact .inl ⟨heq, List.forall_mem_cons.mpr ⟨fun _ h => (nomatch h), hstrong⟩⟩
      · exact .inr (later hw (fun _ h => nomatch h) hbest heq)
    · by_cases hall : weakest.all fun best => op.score ≤ best.2.score
      · have hbest : ∀ best ∈ weakest, op.score ≤ best.2.score := by
          simpa [Option.all_eq_true] using hall
        rw [keepWeakest, if_pos hall] at ih later ⊢
        rcases ih with ⟨heq, hstrong⟩ | ⟨_, _, _, _, hw, hle, heq⟩
        · refine .inr ⟨[], l, op, cuts, .first fun c hc op' hop => ?_, hbest, heq⟩
          obtain ⟨_, hmem, hlt⟩ := hstrong c hc op' hop
          cases hmem
          exact hlt
        · have hop := hle _ rfl
          refine .inr (later hw (fun _ h => ?_) (fun best hb => hop.trans (hbest best hb)) heq)
          cases h
          exact hop
      · have hexists : ∃ best ∈ weakest, best.2.score < op.score := by
          simpa [Option.all_eq_true] using hall
        rw [keepWeakest, if_neg hall] at ih later ⊢
        rcases ih with ⟨heq, hstrong⟩ | ⟨_, _, _, _, hw, hle, heq⟩
        · refine .inl ⟨heq, List.forall_mem_cons.mpr ⟨fun _ h => ?_, hstrong⟩⟩
          cases h
          exact hexists
        · refine .inr (later hw (fun _ h => ?_) hle heq)
          cases h
          obtain ⟨best, hb, hlt⟩ := hexists
          exact (hle best hb).trans (Nat.le_of_lt hlt)

end

/-- A visitor that keeps the weakest operator. -/
theorem visited_weakest (start : Nat) : ∀ (ls : List Lexeme) (marks : List Bool)
    (before : List Lexeme) (weakest : Option (Nat × BinaryOp)),
    visited (fun before l => keepWeakest (start + before.length)
        (binaryAt (earlier? before) (previous? before) l.token)) before (ls.zip marks) weakest =
      weakestFrom (start + before.length)
        (ls.zip (List.zipWith (fun o op => if o then op else none) marks
          (binaryMarks (earlier? before) (previous? before) ls))) weakest
  | [], _, _, _ => by simp [visited, weakestFrom]
  | _ :: _, [], _, _ => by simp [visited, weakestFrom]
  | l :: ls, mark :: marks, before, weakest => by
    rw [List.zip_cons_cons, visited, visited_weakest start ls marks, previous?_concat,
      earlier?_concat, binaryMarks, List.zipWith_cons_cons, List.zip_cons_cons, weakestFrom,
      List.length_append, List.length_singleton, Nat.add_assoc]
    cases mark <;> rfl

/-- A scan for the weakest operator finds it among the cuts. -/
theorem Covers.findLastWeakestOp (h : Covers whole r s) :
    Does (findLastWeakestOp whole r) (s.cuts.map fun cuts => weakestFrom r.start cuts none) [] := by
  have hv : Visits r s
      (fun i weakest => do
        match binaryOp? (← InPlace.kind whole i) with
        | none => Pure.pure weakest
        | some op =>
          if ← InPlace.isBinaryPosition whole r.start i then
            Pure.pure
              (if weakest.all fun best => op.score ≤ best.2.score then some (i, op) else weakest)
          else Pure.pure weakest)
      (fun before l => keepWeakest (r.start + before.length)
        (binaryAt (earlier? before) (previous? before) l.token))
      fun _ _ => True :=
    { does := fun before l after x hs _ => by
        obtain ⟨yes, hyes, hbinary⟩ := h.isBinaryPosition before hs rfl
        refine .next (h.kind before hs rfl) ?_
        rw [hbinary]
        cases binaryOp? l.token with
        | none => cases yes <;> exact .pure _
        | some op => cases yes <;> exact .next hyes (.pure _)
      keep := fun _ _ _ _ => trivial
      skip := fun _ _ _ _ => trivial }
  have hscan := h.scanTopLevel hv (x := none) trivial
  rw [Span.marked_eq] at hscan
  rw [InPlace.findLastWeakestOp, Span.cuts]
  cases hmarks : outsideBrackets [] s.lexemes with
  | error d =>
    rw [hmarks] at hscan
    exact hscan
  | ok marks =>
    have hweakest := visited_weakest r.start s.lexemes marks [] none
    simp only [hmarks, Except.map, hweakest] at hscan
    exact hscan

/-- **A span is cut at its weakest operator**, which is found by its index. -/
theorem Covers.atWeakest (h : Covers whole r s) :
    (∃ d, s.atWeakest = .error d ∧ Does (InPlace.findLastWeakestOp whole r) (.error d) []) ∨
    (s.atWeakest = .ok none ∧ Does (InPlace.findLastWeakestOp whole r) (.ok none) []) ∨
    ∃ before l op after, s.lexemes = before ++ l :: after ∧
      s.atWeakest = .ok (some ⟨op, ⟨before, l.pos⟩, ⟨after, s.stop⟩⟩) ∧
      Does (InPlace.findLastWeakestOp whole r) (.ok (some (r.start + before.length, op))) [] := by
  have hfound := h.findLastWeakestOp
  unfold Span.atWeakest
  cases hcuts : s.cuts with
  | error d =>
    rw [hcuts] at hfound
    exact .inl ⟨d, rfl, hfound⟩
  | ok cuts =>
    simp only [hcuts, Except.map] at hfound ⊢
    rcases weakestFrom_cases cuts r.start none with ⟨heq, hstrong⟩ |
      ⟨before, l, op, after, hw, -, heq⟩
    · have hnone : ∀ c ∈ cuts, c.2 = none := by
        intro c hc
        cases hop : c.2 with
        | none => rfl
        | some op =>
          obtain ⟨_, hbest, -⟩ := hstrong c hc op hop
          cases hbest
      rw [heq] at hfound
      refine .inr (.inl ⟨?_, hfound⟩)
      rw [splitLast_eq_none]
      intro c hc
      rw [hnone c hc]
      rfl
    · have hscore : leastScore cuts = some op.score :=
        leastScore_eq (by rw [hw.eq]; exact List.mem_append_right _ List.mem_cons_self) hw.le
      have hlexemes : s.lexemes = before.map Prod.fst ++ l :: after.map Prod.fst := by
        rw [← Span.map_fst_cuts hcuts, hw.eq, List.map_append, List.map_cons]
      rw [heq, ← List.length_map Prod.fst] at hfound
      refine .inr (.inr ⟨_, l, op, _, hlexemes, ?_, hfound⟩)
      rw [hscore]
      simp only [hw.eq]
      rw [splitLast_append (by simp)]
      intro c hc
      cases hop : c.2 with
      | none => rfl
      | some op' =>
        have hlt := hw.lt c hc op' hop
        simp
        omega

/-! ## 4. Parts between commas -/

/-- The ranges so far and the start of the next one, after a comma at an index. -/
def cutPart (i : Nat) (x : List Range × Nat) : List Range × Nat :=
  if h : x.2 ≤ i then (x.1 ++ [⟨x.2, i, h⟩], i + 1) else x

theorem commaPartsOf_cons (stop : Nat) (l : Lexeme) (outside : Bool) (ls : List (Lexeme × Bool)) :
    commaPartsOf stop ((l, outside) :: ls) =
      if outside && l.token = .comma then
        (⟨[], l.pos⟩, (commaPartsOf stop ls).1 :: (commaPartsOf stop ls).2)
      else
        (⟨l :: (commaPartsOf stop ls).1.lexemes, (commaPartsOf stop ls).1.stop⟩,
          (commaPartsOf stop ls).2) := rfl

/-- What a scan for commas has found, by induction on the tokens that are left. Of those before, the
ones in `pending` follow the last comma. -/
theorem Covers.visited_commas (h : Covers whole r s) : ∀ (ls : List (Lexeme × Bool))
    (before pending : List Lexeme) (parts : List Range),
    s.lexemes = before ++ (pending ++ ls.map Prod.fst) →
    ∃ (ranges : List Range) (last : Range), last.stop = r.stop ∧
      visited (fun before l x => if l.token = .comma then cutPart (r.start + before.length) x else x)
        (before ++ pending) ls (parts, r.start + before.length) = (parts ++ ranges, last.start) ∧
      List.Forall₂ (Covers whole) (ranges ++ [last])
        (⟨pending ++ (commaPartsOf s.stop ls).1.lexemes, (commaPartsOf s.stop ls).1.stop⟩ ::
          (commaPartsOf s.stop ls).2) ∧
      (ranges ++ [last]).head?.map Range.start = some (r.start + before.length)
  | [], before, pending, parts, hs => by
    have hstop : r.stop = r.start + before.length + pending.length := by
      rw [h.stop, Span.length, hs, List.map_nil, List.append_nil, List.length_append, Nat.add_assoc]
    refine ⟨[], ⟨r.start + before.length, r.stop, by omega⟩, rfl, by rw [visited, List.append_nil],
      ?_, rfl⟩
    rw [List.nil_append, commaPartsOf, List.append_nil]
    exact .cons (h.run before hs rfl rfl hstop) .nil
  | (l, outside) :: ls, before, pending, parts, hs => by
    rw [visited, commaPartsOf_cons]
    by_cases hcomma : (outside && l.token = .comma) = true
    · obtain ⟨houtside, hl⟩ : outside = true ∧ l.token = .comma := by simpa using hcomma
      have hlength : r.start + (before ++ pending).length =
          r.start + before.length + pending.length := by
        rw [List.length_append, Nat.add_assoc]
      have hle : r.start + before.length ≤ r.start + (before ++ pending).length := by omega
      have hpart : Covers whole ⟨r.start + before.length, r.start + (before ++ pending).length, hle⟩
          ⟨pending, l.pos⟩ := h.run before hs rfl rfl hlength
      obtain ⟨ranges, last, hlast, hvisited, hcovers, -⟩ := h.visited_commas ls
        (before ++ pending ++ [l]) []
        (parts ++ [⟨r.start + before.length, r.start + (before ++ pending).length, hle⟩])
        (by simp [hs])
      refine ⟨⟨r.start + before.length, r.start + (before ++ pending).length, hle⟩ :: ranges, last,
        hlast, ?_, ?_, rfl⟩
      · rw [List.append_nil, List.append_assoc parts] at hvisited
        rw [houtside, if_pos rfl, if_pos hl, cutPart, dif_pos hle]
        have hnext : (before ++ pending ++ [l]).length = (before ++ pending).length + 1 :=
          List.length_append
        rw [hnext] at hvisited
        exact hvisited
      · rw [if_pos hcomma, List.append_nil]
        exact .cons hpart hcovers
    · have hskip : (if outside then if l.token = .comma then
          cutPart (r.start + (before ++ pending).length) (parts, r.start + before.length)
          else (parts, r.start + before.length) else (parts, r.start + before.length)) =
          (parts, r.start + before.length) := by
        cases outside with
        | false => rfl
        | true =>
          rw [if_pos rfl, if_neg]
          simpa using hcomma
      rw [hskip, if_neg hcomma, List.append_assoc]
      obtain ⟨ranges, last, hlast, hvisited, hcovers, hstart⟩ := h.visited_commas ls before
        (pending ++ [l]) parts (by simp [hs])
      refine ⟨ranges, last, hlast, hvisited, ?_, hstart⟩
      rw [List.append_assoc] at hcovers
      exact hcovers

/-- **Ranges that stand for parts of something.** The token at the start of the first one is there,
even if that part is empty. -/
structure AreParts (whole : Span) (ranges : List Range) (parts : List Span) : Prop where
  covers : List.Forall₂ (Covers whole) ranges parts
  first : ∀ range ∈ ranges.head?, ∃ t, Does (kind whole range.start) (.ok t) [] ∧
    ∀ part ∈ parts.head?, t = .at ↔ part.first? = some .at

theorem AreParts.nil (whole : Span) : AreParts whole [] [] where
  covers := .nil
  first _ h := by cases h

/-- The mark of an offset is at the start of the first part if it is the first token. -/
theorem first?_commaPartsOf (stop : Nat) (l : Lexeme) (outside : Bool)
    (ls : List (Lexeme × Bool)) :
    l.token = .at ↔ (commaPartsOf stop ((l, outside) :: ls)).1.first? = some .at := by
  rw [commaPartsOf_cons]
  split
  · rename_i hcomma
    have hl : l.token = .comma := by
      simp only [Bool.and_eq_true, decide_eq_true_eq] at hcomma
      exact hcomma.2
    simp [hl, Span.first?]
  · simp [Span.first?]

/-- A scan for commas finds the parts. -/
theorem Covers.splitTopLevel (h : Covers whole r s) (hne : s.lexemes ≠ []) :
    (∃ d, s.commaParts = .error d ∧ Does (splitTopLevel whole r .comma) (.error d) []) ∨
    ∃ ranges parts, s.commaParts = .ok parts ∧
      Does (InPlace.splitTopLevel whole r .comma) (.ok ranges) [] ∧ AreParts whole ranges parts := by
  have hv : Visits r s
      (fun i (x : List Range × Nat) => do
        if (← InPlace.kind whole i) = .comma then
          let part ← range x.2 i
          Pure.pure (x.1 ++ [part], i + 1)
        else Pure.pure (x.1, x.2))
      (fun before l x => if l.token = .comma then cutPart (r.start + before.length) x else x)
      fun before x => x.2 ≤ r.start + before.length :=
    { does := fun before l after x hs hx => by
        refine .next (h.kind before hs rfl) ?_
        split
        · rw [cutPart, dif_pos hx]
          exact .next (does_range hx) (.pure _)
        · exact .pure _
      keep := fun before l x hx => by
        rw [List.length_append, List.length_singleton]
        split
        · rw [cutPart, dif_pos hx]
          exact Nat.le_refl _
        · omega
      skip := fun before l x hx => by
        rw [List.length_append]
        omega }
  have hscan := h.scanTopLevel hv (x := ([], r.start)) (Nat.le_refl _)
  have hempty : s.lexemes.isEmpty = false := by simpa using hne
  rw [Span.commaParts, hempty, if_neg (by decide)]
  cases hmarked : s.marked with
  | error d =>
    rw [hmarked] at hscan
    exact .inl ⟨d, rfl, .stop hscan⟩
  | ok ls =>
    rw [hmarked] at hscan
    have hls := Span.map_fst_marked hmarked
    obtain ⟨ranges, ⟨start, stop, hle⟩, hlast, hvisited, hcovers, hstart⟩ :=
      h.visited_commas ls [] [] [] hls.symm
    obtain rfl : stop = r.stop := hlast
    simp only [List.nil_append, List.length_nil, Nat.add_zero] at hvisited
    simp only [Except.map, hvisited] at hscan
    refine .inr ⟨ranges ++ [⟨start, r.stop, hle⟩], _, rfl,
      .next hscan (.next (does_range hle) (.pure _)), hcovers, fun part hpart => ?_⟩
    rw [Option.mem_def.mp hpart] at hstart
    cases ls with
    | nil => exact absurd hls.symm hne
    | cons m ls =>
      refine ⟨m.1.token, ?_, fun first hfirst => ?_⟩
      · exact h.kind [] hls.symm (Option.some.inj hstart)
      · cases hfirst
        exact first?_commaPartsOf s.stop m.1 m.2 ls

/-- **The parts between commas** are found by their indices. -/
theorem Covers.commaParts (h : Covers whole r s) :
    (∃ d, s.commaParts = .error d ∧ Does (commaParts whole r) (.error d) []) ∨
    ∃ ranges parts, s.commaParts = .ok parts ∧
      Does (InPlace.commaParts whole r) (.ok ranges) [] ∧ AreParts whole ranges parts := by
  rw [InPlace.commaParts, h.isEmpty]
  by_cases hs : s.lexemes = []
  · refine .inr ⟨[], [], by simp [Span.commaParts, hs], ?_, .nil whole⟩
    rw [hs]
    exact .pure _
  · have hempty : s.lexemes.isEmpty = false := by simpa using hs
    rw [hempty, if_neg (by decide)]
    exact h.splitTopLevel hs

/-! ## 5. Brackets around a range -/

/-- **Whether a bracket closes at the last token** is found by counting, by induction on the tokens
that are left. -/
theorem Covers.closeFrom (h : Covers whole r s) : ∀ (ls before : List Lexeme) (depth : Nat),
    s.lexemes = before ++ ls →
    ∃ close, Does (closeFrom whole ls.length (r.start + before.length) depth) (.ok close) [] ∧
      (close = some (r.stop - 1) ↔ closesLast depth ls = true)
  | [], _, _, _ => ⟨none, .pure _, by simp [closesLast]⟩
  | l :: ls, before, depth, hs => by
    have hkind := h.kind before hs rfl
    have hlength : r.stop = r.start + before.length + 1 + ls.length := by
      rw [h.stop, Span.length, hs, List.length_append, List.length_cons]
      omega
    have rest (depth' : Nat) : ∃ close,
        Does (InPlace.closeFrom whole ls.length (r.start + before.length + 1) depth') (.ok close) [] ∧
          (close = some (r.stop - 1) ↔ closesLast depth' ls = true) := by
      obtain ⟨close, hdoes, hiff⟩ := h.closeFrom ls (before ++ [l]) depth'
        (by rw [hs, List.append_assoc]; rfl)
      have hnext : (before ++ [l]).length = before.length + 1 := List.length_append
      rw [hnext] at hdoes
      exact ⟨close, hdoes, hiff⟩
    have step {depth' : Nat} {go : Token → Compiling (Option Nat)}
        (hgo : go l.token = InPlace.closeFrom whole ls.length (r.start + before.length + 1) depth')
        (hclose : closesLast depth (l :: ls) = closesLast depth' ls) :
        ∃ close, Does (InPlace.kind whole (r.start + before.length) >>= go) (.ok close) [] ∧
          (close = some (r.stop - 1) ↔ closesLast depth (l :: ls) = true) := by
      obtain ⟨close, hdoes, hiff⟩ := rest depth'
      rw [hclose]
      exact ⟨close, .next hkind (by rw [hgo]; exact hdoes), hiff⟩
    rw [List.length_cons, InPlace.closeFrom.eq_def]
    dsimp only
    cases ht : l.token with
    | opening b => exact step (by rw [ht]) (closesLast_opening ht _ _)
    | closing b =>
      rcases depth with _ | _ | depth
      · refine ⟨none, .next hkind ?_, by simp [closesLast, ht]⟩
        rw [ht]
        exact .pure _
      · refine ⟨some (r.start + before.length), .next hkind ?_, ?_⟩
        · rw [ht]
          exact .pure _
        · rw [closesLast_partner ht, List.isEmpty_iff, ← List.length_eq_zero_iff, Option.some.injEq]
          omega
      · exact step (by rw [ht]) (closesLast_closing ht _ _)
    | _ => exact step (by rw [ht]) (closesLast_plain (by rw [ht]; rfl) _ _)

/-- **Whether a range is one pair of brackets.** -/
theorem Covers.isEnclosed (h : Covers whole r s) (hne : s.lexemes ≠ []) (b : Bracket) :
    Does (isEnclosed whole b r) (.ok (s.enclosed? b).isSome) [] := by
  obtain ⟨l, ls, hs⟩ := List.exists_cons_of_ne_nil hne
  have hfirst : s.first? = some l.token := by rw [Span.first?, hs]; rfl
  have henclosed : (s.enclosed? b).isSome =
      (decide (l.token = .opening b) && closesLast 0 s.lexemes) := by
    rw [Span.enclosed?, hfirst, Bool.eq_iff_iff]
    simp
  rw [henclosed]
  refine .next (h.kind [] hs rfl) ?_
  by_cases hopening : l.token = .opening b
  · obtain ⟨close, hclose, hiff⟩ := h.closeFrom s.lexemes [] 0 rfl
    have hstop : 1 ≤ r.stop := by
      rw [h.stop, Span.length, hs, List.length_cons]
      omega
    have hmatching : Does (InPlace.matchingClose whole r) (.ok close) [] := by
      rw [InPlace.matchingClose, h.length]
      exact hclose
    have hlast : closesLast 0 s.lexemes = decide (close = some (r.stop - 1)) := by
      rw [Bool.eq_iff_iff, ← hiff, decide_eq_true_eq]
    rw [if_pos hopening, decide_eq_true hopening, Bool.true_and, hlast]
    exact .next hmatching (.next (does_minus hstop) (.pure _))
  · rw [if_neg hopening, decide_eq_false hopening, Bool.false_and]
    exact .pure _

/-- **The inside of a pair of brackets.** -/
theorem Covers.inside (h : Covers whole r s) {b : Bracket} {inner : Span}
    (hinner : s.enclosed? b = some inner) :
    ∃ part, Does (inside r) (.ok part) [] ∧ Covers whole part inner := by
  obtain ⟨first, last, _, hs, _, _, hpos⟩ := Span.exists_of_enclosed? hinner
  have hlength : r.stop = r.start + inner.length + 2 := by
    rw [h.stop, Span.length, hs, List.length_cons, List.length_append, List.length_singleton,
      Span.length]
    omega
  have hle : r.start + 1 ≤ r.stop - 1 := by omega
  refine ⟨⟨r.start + 1, r.stop - 1, hle⟩,
    .next (does_minus (by omega)) (does_range hle), h.run [first] hs hpos rfl ?_⟩
  show r.stop - 1 = r.start + 1 + inner.length
  omega

end

end InPlace

end ByteAtlas
