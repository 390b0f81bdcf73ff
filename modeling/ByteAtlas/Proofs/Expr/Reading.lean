import ByteAtlas.Proofs.Expr.Phrase

/-!
# What the compiler sees in the tokens of a part

A span holds glyphs if its tokens are theirs (`Span.Holds`). For each way in which the compiler
looks at a span it is shown here what it finds in a span that holds the glyphs of a written part:
the inside of brackets, the parts between commas, the operands of the weakest operator, the steps of
a query.
-/

namespace ByteAtlas

/-! ## 1. Spans that hold glyphs -/

/-- **Whether the tokens of a span are those of some glyphs.** -/
def Span.Holds (s : Span) (gs : List Glyph) : Prop :=
  s.lexemes.map Lexeme.token = tokensOf gs

/-- Whether no more brackets are open at a time than is allowed. -/
def Shallow (gs : List Glyph) : Prop :=
  deepest 0 (tokensOf gs) ≤ nestingLimit

section

variable {s : Span} {g : Glyph} {gs xs ys : List Glyph}

theorem Span.Holds.cons (h : s.Holds (g :: gs)) :
    ∃ l ls, s.lexemes = l :: ls ∧ l.token = g.token ∧ ls.map Lexeme.token = tokensOf gs :=
  List.map_eq_cons_iff.mp h

theorem Span.Holds.append (h : s.Holds (xs ++ ys)) :
    ∃ ls ms, s.lexemes = ls ++ ms ∧ ls.map Lexeme.token = tokensOf xs ∧
      ms.map Lexeme.token = tokensOf ys := by
  unfold Holds at h
  rw [tokensOf_append] at h
  exact List.map_eq_append_iff.mp h

theorem Span.Holds.tail (h : s.Holds (g :: gs)) : s.tail.Holds gs := by
  obtain ⟨l, ls, hs, _, hls⟩ := h.cons
  unfold Holds Span.tail
  rw [hs]
  exact hls

theorem Span.Holds.dropLast (h : s.Holds (gs ++ [g])) : s.dropLast.Holds gs := by
  obtain ⟨ls, ms, hs, hls, hms⟩ := h.append
  obtain ⟨m, ms, rfl, _, hnil⟩ := List.map_eq_cons_iff.mp hms
  rw [List.map_eq_nil_iff.mp hnil] at hs
  unfold Holds Span.dropLast
  rw [hs, List.dropLast_concat]
  exact hls

theorem Span.Holds.first? (h : s.Holds (g :: gs)) : s.first? = some g.token := by
  obtain ⟨l, ls, hs, hl, _⟩ := h.cons
  rw [Span.first?, hs, List.head?_cons, Option.map_some, hl]

theorem Span.Holds.last? (h : s.Holds (gs ++ [g])) : s.last?.map Lexeme.token = some g.token := by
  obtain ⟨ls, ms, hs, _, hms⟩ := h.append
  obtain ⟨m, ms, rfl, hm, hnil⟩ := List.map_eq_cons_iff.mp hms
  rw [List.map_eq_nil_iff.mp hnil] at hs
  rw [Span.last?, hs, List.getLast?_concat, Option.map_some, hm]

theorem Span.Holds.isEmpty (h : s.Holds []) : s.lexemes.isEmpty = true := by
  rw [List.map_eq_nil_iff.mp h]
  rfl

theorem Span.Holds.isEmpty_eq_false (h : s.Holds gs) (hne : gs ≠ []) :
    s.lexemes.isEmpty = false := by
  cases gs with
  | nil => exact absurd rfl hne
  | cons g gs =>
    obtain ⟨l, ls, hs, _⟩ := h.cons
    rw [hs]
    rfl

theorem Shallow.left (hx : Nested (tokensOf xs)) (h : Shallow (xs ++ ys)) : Shallow xs := by
  unfold Shallow at h
  rw [tokensOf_append, hx.deepest_append] at h
  exact Nat.le_trans (Nat.le_max_left _ _) h

theorem Shallow.right (hx : Nested (tokensOf xs)) (h : Shallow (xs ++ ys)) : Shallow ys := by
  unfold Shallow at h
  rw [tokensOf_append, hx.deepest_append] at h
  exact Nat.le_trans (Nat.le_max_right _ _) h

theorem Shallow.tail (hg : g.token.isBracket = false) (h : Shallow (g :: gs)) : Shallow gs := by
  unfold Shallow at h
  rw [tokensOf_cons, deepest_plain hg] at h
  exact h

/-- More brackets open before means more open within. -/
theorem deepest_mono : ∀ (ts : List Token) (d : Nat), deepest d ts ≤ deepest (d + 1) ts
  | [], _ => Nat.le_succ _
  | t :: ts, d => by
    cases t with
    | opening b => exact deepest_mono ts (d + 1)
    | closing b =>
      have hd : deepest (d - 1) ts ≤ deepest d ts := by
        cases d with
        | zero => exact Nat.le_refl _
        | succ d => exact deepest_mono ts d
      show max d (deepest (d - 1) ts) ≤ max (d + 1) (deepest d ts)
      omega
    | _ => exact deepest_mono ts d

theorem Shallow.inside {b : Bracket} (hgs : Nested (tokensOf gs)) (h : Shallow (inBrackets b gs)) :
    Shallow gs := by
  unfold Shallow at h ⊢
  rw [tokensOf_inBrackets, deepest, hgs.deepest_append] at h
  have := deepest_mono (tokensOf gs) 0
  omega

theorem Span.Holds.outsideBrackets_eq (h : s.Holds gs) (hn : Nested (tokensOf gs)) (hd : Shallow gs) :
    outsideBrackets [] s.lexemes = .ok (outside 0 (tokensOf gs)) := by
  rw [← h]
  apply outsideBrackets_eq_ok
  · rw [h]
    exact hn.balanced
  · rw [h]
    exact hd

/-- The tokens outside brackets are glyphs outside brackets. -/
theorem Span.Holds.atTop {l : Lexeme} (h : s.Holds gs)
    (hl : (l, true) ∈ s.lexemes.zip (outside 0 (tokensOf gs))) :
    ∃ g, AtTop gs g ∧ g.token = l.token := by
  have hmem : (l.token, true) ∈ (s.lexemes.map Lexeme.token).zip (outside 0 (tokensOf gs)) := by
    rw [List.zip_map_left]
    exact List.mem_map.mpr ⟨(l, true), hl, rfl⟩
  rw [h] at hmem
  unfold tokensOf at hmem
  rw [List.zip_map_left] at hmem
  obtain ⟨⟨g, o⟩, hg, heq⟩ := List.mem_map.mp hmem
  obtain ⟨ht, rfl⟩ := Prod.mk.inj heq
  exact ⟨g, hg, ht⟩

end

/-! ## 2. Brackets around a part -/

section

variable {s : Span} {gs xs ys : List Glyph} {b : Bracket}

/-- **The inside of brackets.** -/
theorem Span.Holds.enclosed? (h : s.Holds (inBrackets b gs)) (hn : Nested (tokensOf gs)) :
    ∃ inner, s.enclosed? b = some inner ∧ inner.Holds gs := by
  have hclose : closesLast 0 s.lexemes = true := by
    obtain ⟨l, ls, hs, hl, hls⟩ := h.cons
    rw [tokensOf_append] at hls
    obtain ⟨ls', ms, rfl, hls', hms⟩ := List.map_eq_append_iff.mp hls
    obtain ⟨m, ms, rfl, hm, hnil⟩ := List.map_eq_cons_iff.mp hms
    rw [hs, closesLast_opening hl, hn.closesLast_append 0 ls' _ hls', closesLast_partner hm,
      List.map_eq_nil_iff.mp hnil]
    rfl
  refine ⟨s.tail.dropLast, ?_, h.tail.dropLast⟩
  rw [Span.enclosed?, if_pos ⟨h.first?, hclose⟩]

/-- A part that does not start with a bracket is not in brackets. -/
theorem Span.Holds.not_enclosed {g : Glyph} (h : s.Holds (g :: gs)) (hg : g.token ≠ .opening b) :
    s.enclosed? b = none := by
  rw [Span.enclosed?, if_neg]
  rintro ⟨hf, _⟩
  rw [h.first?] at hf
  exact hg (Option.some.inj hf)

/-- A part behind which something follows is not in brackets with it: a bracket at its front closes
within it. -/
theorem Span.Holds.not_enclosed_append (h : s.Holds (xs ++ ys)) (hx : Nested (tokensOf xs))
    (hxne : xs ≠ []) (hyne : ys ≠ []) : s.enclosed? b = none := by
  obtain ⟨ls, ms, hs, hls, hms⟩ := h.append
  have hmne : ms ≠ [] := by
    rintro rfl
    exact hyne (List.map_eq_nil_iff.mp hms.symm)
  rw [Span.enclosed?, if_neg]
  rintro ⟨hf, hc⟩
  rw [hs] at hc
  generalize hts : tokensOf xs = ts at hx hls
  cases hx with
  | nil => exact hxne (List.map_eq_nil_iff.mp hts)
  | @plain t ts ht _ =>
    obtain ⟨l, ls, rfl, hl, _⟩ := List.map_eq_cons_iff.mp hls
    rw [Span.first?, hs, List.cons_append, List.head?_cons, Option.map_some, hl] at hf
    rw [Option.some.inj hf] at ht
    cases ht
  | @wrap b' inner ts hinner _ =>
    obtain ⟨l, ls, rfl, hl, hls⟩ := List.map_eq_cons_iff.mp hls
    obtain ⟨li, lr, rfl, hli, hlr⟩ := List.map_eq_append_iff.mp hls
    obtain ⟨c, lr, rfl, hc', _⟩ := List.map_eq_cons_iff.mp hlr
    rw [List.cons_append, closesLast_opening hl, List.append_assoc,
      hinner.closesLast_append 0 li _ hli, List.cons_append, closesLast_partner hc'] at hc
    rw [List.isEmpty_iff] at hc
    exact hmne (List.append_eq_nil_iff.mp hc).2

end

/-! ## 3. Parts between commas -/

/-- A run of tokens without a comma outside brackets is one part. -/
theorem commaPartsOf_single (stop : Nat) : ∀ {ms : List (Lexeme × Bool)},
    (∀ m ∈ ms, m.2 = true → m.1.token ≠ .comma) →
    commaPartsOf stop ms = (⟨ms.map Prod.fst, stop⟩, [])
  | [], _ => rfl
  | (l, o) :: ms, h => by
    have ih := commaPartsOf_single stop fun m hm => h m (List.mem_cons_of_mem _ hm)
    have hno : (o && decide (l.token = .comma)) = false := by
      have hl := h (l, o) List.mem_cons_self
      cases o with
      | false => rfl
      | true => simpa using hl rfl
    rw [commaPartsOf, ih]
    simp [hno]

/-- A comma outside brackets ends the part before it. -/
theorem commaPartsOf_append (stop : Nat) {l : Lexeme} (hl : l.token = .comma)
    (rest : List (Lexeme × Bool)) : ∀ {ms : List (Lexeme × Bool)},
    (∀ m ∈ ms, m.2 = true → m.1.token ≠ .comma) →
    commaPartsOf stop (ms ++ (l, true) :: rest) =
      (⟨ms.map Prod.fst, l.pos⟩, (commaPartsOf stop rest).1 :: (commaPartsOf stop rest).2)
  | [], _ => by simp [commaPartsOf, hl]
  | (m, o) :: ms, h => by
    have ih := commaPartsOf_append stop hl rest fun m hm => h m (List.mem_cons_of_mem _ hm)
    have hno : (o && decide (m.token = .comma)) = false := by
      have hm := h (m, o) List.mem_cons_self
      cases o with
      | false => rfl
      | true => simpa using hm rfl
    rw [List.cons_append, commaPartsOf, ih]
    simp [hno]

/-- The tokens of a phrase, each with whether it stands outside brackets, have no comma outside. -/
theorem Phrase.commaless {k : Nat} {gs : List Glyph} (hp : Phrase k gs) {ls : List Lexeme}
    (hls : ls.map Lexeme.token = tokensOf gs) :
    ∀ m ∈ ls.zip (outside 0 (tokensOf gs)), m.2 = true → m.1.token ≠ .comma := by
  rintro ⟨l, o⟩ hm rfl
  have hs : (⟨ls, 0⟩ : Span).Holds gs := hls
  obtain ⟨g, hg, ht⟩ := hs.atTop hm
  rw [← ht]
  exact (hp.exposed g hg).1

theorem map_fst_zip_outside {ls : List Lexeme} {ts : List Token} (h : ls.map Lexeme.token = ts) :
    (ls.zip (outside 0 ts)).map Prod.fst = ls := by
  have hlength : (outside 0 ts).length = ls.length := by
    rw [outside_length, ← h, List.length_map]
  exact List.map_fst_zip (Nat.le_of_eq hlength.symm)

theorem zip_outside_append {ls ms : List Lexeme} {xs : List Token} (hx : Nested xs)
    (hls : ls.map Lexeme.token = xs) (ys : List Token) :
    (ls ++ ms).zip (outside 0 (xs ++ ys)) = ls.zip (outside 0 xs) ++ ms.zip (outside 0 ys) := by
  rw [hx.outside_append, List.zip_append]
  rw [outside_length, ← hls, List.length_map]

/-- **The parts of a list are those it was made of.** -/
theorem commaPartsOf_commaJoined (stop : Nat) : ∀ {gss : List (List Glyph)} {ls : List Lexeme},
    gss ≠ [] → (∀ gs ∈ gss, Phrase 0 gs) → ls.map Lexeme.token = tokensOf (commaJoined gss) →
    ∃ part parts, commaPartsOf stop (ls.zip (outside 0 (tokensOf (commaJoined gss)))) = (part, parts) ∧
      List.Forall₂ Span.Holds (part :: parts) gss
  | [], _, hne, _, _ => absurd rfl hne
  | [gs], ls, _, h, hls => by
    have hp := h gs List.mem_cons_self
    have hgs : ls.map Lexeme.token = tokensOf gs := hls
    refine ⟨⟨ls, stop⟩, [], ?_, .cons hgs .nil⟩
    show commaPartsOf stop (ls.zip (outside 0 (tokensOf gs))) = _
    rw [commaPartsOf_single stop (hp.commaless hgs), map_fst_zip_outside hgs]
  | gs :: gs' :: gss, ls, _, h, hls => by
    have hp := h gs List.mem_cons_self
    have htokens : tokensOf (commaJoined (gs :: gs' :: gss)) =
        tokensOf gs ++ .comma :: tokensOf (commaJoined (gs' :: gss)) :=
      tokensOf_append gs (.plain .comma :: commaJoined (gs' :: gss))
    rw [htokens] at hls ⊢
    obtain ⟨ls₁, ms, rfl, hls₁, hms⟩ := List.map_eq_append_iff.mp hls
    obtain ⟨l, ms, rfl, hl, hms⟩ := List.map_eq_cons_iff.mp hms
    obtain ⟨part, parts, hparts, hall⟩ := commaPartsOf_commaJoined stop (List.cons_ne_nil gs' gss)
      (fun x hx => h x (List.mem_cons_of_mem _ hx)) hms
    refine ⟨⟨ls₁, l.pos⟩, part :: parts, ?_, .cons hls₁ hall⟩
    rw [zip_outside_append hp.nested hls₁, outside_plain rfl, List.zip_cons_cons]
    show commaPartsOf stop (_ ++ (l, true) :: _) = _
    rw [commaPartsOf_append stop hl _ (hp.commaless hls₁), map_fst_zip_outside hls₁, hparts]

theorem commaJoined_ne_nil : ∀ {gss : List (List Glyph)}, gss ≠ [] → (∀ gs ∈ gss, gs ≠ []) →
    commaJoined gss ≠ []
  | [], hne, _ => absurd rfl hne
  | [gs], _, h => h gs List.mem_cons_self
  | _ :: _ :: _, _, _ => fun e => List.cons_ne_nil _ _ (List.append_eq_nil_iff.mp e).2

/-- The parts between commas of a span that holds a list. -/
theorem Span.Holds.commaParts {s : Span} {gss : List (List Glyph)} (h : s.Holds (commaJoined gss))
    (hp : ∀ gs ∈ gss, Phrase 0 gs) (hd : Shallow (commaJoined gss)) :
    ∃ parts, s.commaParts = .ok parts ∧ List.Forall₂ Span.Holds parts gss := by
  by_cases hne : gss = []
  · subst hne
    exact ⟨[], by rw [Span.commaParts, if_pos h.isEmpty], .nil⟩
  · have hempty : s.lexemes.isEmpty = false :=
      h.isEmpty_eq_false (commaJoined_ne_nil hne fun gs hgs => (hp gs hgs).nonempty)
    obtain ⟨part, parts, hparts, hall⟩ := commaPartsOf_commaJoined s.stop hne hp h
    refine ⟨part :: parts, ?_, hall⟩
    rw [Span.commaParts, if_neg (by rw [hempty]; decide), Span.marked,
      h.outsideBrackets_eq (Contents.commaJoined hp).nested hd]
    simp only [Except.map, hparts]

/-- **The arguments of an intrinsic.** -/
theorem Span.Holds.callArgs? {s : Span} {gss : List (List Glyph)}
    (h : s.Holds (inBrackets .round (commaJoined gss))) (hp : ∀ gs ∈ gss, Phrase 0 gs)
    (hd : Shallow (inBrackets .round (commaJoined gss))) :
    ∃ parts, s.callArgs? = some parts ∧ List.Forall₂ Span.Holds parts gss := by
  have hn := (Contents.commaJoined hp).nested
  obtain ⟨inner, hinner, hholds⟩ := h.enclosed? hn
  obtain ⟨parts, hparts, hall⟩ := hholds.commaParts hp (hd.inside hn)
  refine ⟨parts, ?_, hall⟩
  simp only [Span.callArgs?, hinner, hparts, Except.toOption]

/-! ## 4. The weakest operator -/

theorem splitLast_eq_none {α : Type} {p : α → Bool} : ∀ {xs : List α},
    (∀ x ∈ xs, p x = false) → splitLast p xs = none
  | [], _ => rfl
  | x :: xs, h => by
    rw [splitLast, splitLast_eq_none fun y hy => h y (List.mem_cons_of_mem _ hy)]
    simp [h x List.mem_cons_self]

/-- A list is split at an element with the property if none after it has it. -/
theorem splitLast_append {α : Type} {p : α → Bool} {y : α} {ys : List α} (hy : p y = true)
    (hys : ∀ x ∈ ys, p x = false) : ∀ xs : List α,
    splitLast p (xs ++ y :: ys) = some (xs, y, ys)
  | [] => by
    rw [List.nil_append, splitLast, splitLast_eq_none hys]
    simp [hy]
  | x :: xs => by
    rw [List.cons_append, splitLast, splitLast_append hy hys xs]

/-- The operators of glyphs that cut them, those within brackets left out. -/
def cutsOf (gs : List Glyph) : List (Option BinaryOp) :=
  (markedGlyphs gs).map fun m => if m.2 then m.1.op else none

theorem zipWith_outside : ∀ (os : List Bool) (gs : List Glyph),
    List.zipWith (fun o op => if o then op else none) os (gs.map Glyph.op) =
      (gs.zip os).map fun m => if m.2 then m.1.op else none
  | [], gs => by simp
  | _ :: _, [] => rfl
  | o :: os, g :: gs => by
    rw [List.map_cons, List.zipWith_cons_cons, List.zip_cons_cons, List.map_cons,
      zipWith_outside os gs]

section

variable {k : Nat} {s : Span} {gs xs ys : List Glyph}

theorem length_eq_of_tokens {ls : List Lexeme} (h : ls.map Lexeme.token = tokensOf gs) :
    ls.length = gs.length := by
  have hlen := congrArg List.length h
  simpa [tokensOf] using hlen

theorem cutsOf_length (gs : List Glyph) : (cutsOf gs).length = gs.length := by
  simp [cutsOf, markedGlyphs, outside_length, tokensOf]

theorem Phrase.operators (hp : Phrase k gs) :
    operatorsFrom none none (tokensOf gs) = gs.map Glyph.op := by
  obtain ⟨_, _, _, h⟩ := hp.reads none none [] ready_start
  rw [List.append_nil] at h
  rw [h]
  exact List.append_nil _

/-- The cuts of a span that holds a phrase. -/
theorem Span.Holds.cuts (h : s.Holds gs) (hp : Phrase k gs) (hd : Shallow gs) :
    s.cuts = .ok (s.lexemes.zip (cutsOf gs)) := by
  rw [Span.cuts, h.outsideBrackets_eq hp.nested hd, binaryMarks_eq, h, hp.operators]
  simp only [Except.map, zipWith_outside]
  rfl

theorem Exposed.of_mem_cutsOf {op : BinaryOp} (h : Exposed k gs) (hop : some op ∈ cutsOf gs) :
    k ≤ op.score := by
  obtain ⟨⟨g, o⟩, hg, ho⟩ := List.mem_map.mp hop
  cases o with
  | false => cases ho
  | true => exact (h g hg).2 op ho

/-- **No operator cuts an operand.** -/
theorem Span.Holds.atWeakest_operand (h : s.Holds gs) (hp : Phrase operandStrength gs)
    (hd : Shallow gs) : s.atWeakest = .ok none := by
  have hnone : ∀ c ∈ s.lexemes.zip (cutsOf gs), c.2 = none := by
    rintro ⟨l, o⟩ hc
    cases o with
    | none => rfl
    | some op =>
      have hle := hp.exposed.of_mem_cutsOf (List.of_mem_zip hc).2
      exact absurd op.score_lt_operandStrength (Nat.not_lt.mpr hle)
  rw [Span.atWeakest, h.cuts hp hd, Except.map, splitLast_eq_none]
  intro c hc
  rw [hnone c hc]
  rfl

theorem cutsOf_binary (op : BinaryOp) (hx : Nested (tokensOf xs)) (ys : List Glyph) :
    cutsOf (xs ++ .binary op :: ys) = cutsOf xs ++ some op :: cutsOf ys := by
  unfold cutsOf
  rw [markedGlyphs_append hx, List.map_append]
  rfl

/-- The least score is that of an operator, if none is weaker. -/
theorem leastScore_eq {cuts : List (Lexeme × Option BinaryOp)} {l : Lexeme} {op : BinaryOp}
    (hmem : (l, some op) ∈ cuts) (hle : ∀ c ∈ cuts, ∀ op', c.2 = some op' → op.score ≤ op'.score) :
    leastScore cuts = some op.score := by
  unfold leastScore
  rw [List.min?_eq_some_iff]
  refine ⟨List.mem_filterMap.mpr ⟨(l, some op), hmem, rfl⟩, ?_⟩
  intro n hn
  obtain ⟨⟨m, o⟩, hm, ho⟩ := List.mem_filterMap.mp hn
  cases o with
  | none => cases ho
  | some op' =>
    have hscore : op'.score = n := Option.some.inj ho
    rw [← hscore]
    exact hle _ hm op' rfl

/-- **The weakest operator of a written operation is its own**, the last of equally weak ones. -/
theorem Span.Holds.atWeakest_binary {op : BinaryOp} (h : s.Holds (xs ++ .binary op :: ys))
    (hx : Phrase op.score xs) (hy : Phrase (op.score + 1) ys) (hd : Shallow (xs ++ .binary op :: ys)) :
    ∃ left right, s.atWeakest = .ok (some ⟨op, left, right⟩) ∧ left.Holds xs ∧ right.Holds ys := by
  have hp := Phrase.binary op hx hy
  obtain ⟨ls, ms, hs, hls, hms⟩ := h.append
  obtain ⟨l, ms, rfl, hl, hms⟩ := List.map_eq_cons_iff.mp hms
  have hlen : ls.length = (cutsOf xs).length := by
    rw [cutsOf_length, length_eq_of_tokens hls]
  have hlen' : ms.length = (cutsOf ys).length := by
    rw [cutsOf_length, length_eq_of_tokens hms]
  have hcuts : s.lexemes.zip (cutsOf (xs ++ .binary op :: ys)) =
      ls.zip (cutsOf xs) ++ (l, some op) :: ms.zip (cutsOf ys) := by
    rw [hs, cutsOf_binary op hx.nested, List.zip_append hlen, List.zip_cons_cons]
  have hmem : (l, some op) ∈ s.lexemes.zip (cutsOf (xs ++ .binary op :: ys)) := by
    rw [hcuts]
    exact List.mem_append_right _ List.mem_cons_self
  have hscore := leastScore_eq hmem fun c hc op' hop =>
    hp.exposed.of_mem_cutsOf (hop ▸ (List.of_mem_zip hc).2)
  refine ⟨⟨ls, l.pos⟩, ⟨ms, s.stop⟩, ?_, hls, hms⟩
  rw [Span.atWeakest, h.cuts hp hd]
  simp only [Except.map, hscore]
  rw [hcuts, splitLast_append]
  · simp only [List.map_fst_zip (Nat.le_of_eq hlen), List.map_fst_zip (Nat.le_of_eq hlen')]
  · simp
  · rintro ⟨m, o⟩ hm
    cases o with
    | none => rfl
    | some op' =>
      have hlt := hy.exposed.of_mem_cutsOf (List.of_mem_zip hm).2
      simp
      omega

end

/-! ## 5. Steps of a query -/

section

variable {s : Span} {gs xs ys : List Glyph}

/-- Whether no dot stands outside brackets. -/
def Dotless (gs : List Glyph) : Prop :=
  ∀ g, AtTop gs g → g.token ≠ .dot

theorem dotless_step {head : Token} (hb : head.isBracket = false) (hd : head ≠ .dot)
    (h : Nested (tokensOf gs)) : Dotless (.plain head :: inBrackets .square gs) := by
  intro g hg
  rcases (atTop_cons hb).mp hg with rfl | hg
  · exact hd
  · exact absurd hg (not_atTop_inBrackets h)

theorem Dotless.of_mem {l : Lexeme} {o : Bool} (hgs : Dotless gs) (h : s.Holds gs)
    (hl : (l, o) ∈ s.lexemes.zip (outside 0 (tokensOf gs))) :
    (o && decide (l.token = .dot)) = false := by
  cases o with
  | false => rfl
  | true =>
    obtain ⟨g, hg, ht⟩ := h.atTop hl
    have hne := hgs g hg
    rw [ht] at hne
    simpa using hne

/-- A query of one step. -/
theorem Span.Holds.atLastDot_none (h : s.Holds gs) (hn : Nested (tokensOf gs)) (hgs : Dotless gs)
    (hd : Shallow gs) : s.atLastDot = .ok (none, s) := by
  rw [Span.atLastDot, Span.marked, h.outsideBrackets_eq hn hd]
  simp only [Except.map]
  rw [splitLast_eq_none]
  rintro ⟨l, o⟩ hl
  exact hgs.of_mem h hl

/-- **A query before its last step.** -/
theorem Span.Holds.atLastDot_some (h : s.Holds ((xs ++ [.plain .dot]) ++ ys))
    (hx : Nested (tokensOf xs)) (hy : Nested (tokensOf ys)) (hys : Dotless ys)
    (hd : Shallow ((xs ++ [.plain .dot]) ++ ys)) :
    ∃ parent step, s.atLastDot = .ok (some parent, step) ∧ parent.Holds xs ∧ step.Holds ys := by
  rw [List.append_assoc, List.singleton_append] at h hd
  have hn : Nested (tokensOf (xs ++ .plain .dot :: ys)) := by
    rw [tokensOf_append]
    exact hx.append (.plain rfl hy)
  obtain ⟨ls, ms, hs, hls, hms⟩ := h.append
  obtain ⟨l, ms, rfl, hl, hms⟩ := List.map_eq_cons_iff.mp hms
  have hms : ms.map Lexeme.token = tokensOf ys := hms
  have hstep : (⟨ms, s.stop⟩ : Span).Holds ys := hms
  refine ⟨⟨ls, l.pos⟩, ⟨ms, s.stop⟩, ?_, hls, hstep⟩
  have hzip : s.lexemes.zip (outside 0 (tokensOf (xs ++ .plain .dot :: ys))) =
      ls.zip (outside 0 (tokensOf xs)) ++ (l, true) :: ms.zip (outside 0 (tokensOf ys)) := by
    rw [hs, tokensOf_append, zip_outside_append hx hls]
    rfl
  rw [Span.atLastDot, Span.marked, h.outsideBrackets_eq hn hd]
  simp only [Except.map]
  rw [hzip, splitLast_append]
  · simp only [map_fst_zip_outside hls, map_fst_zip_outside hms]
  · simpa [Glyph.plain] using hl
  · rintro ⟨m, o⟩ hm
    exact hys.of_mem hstep hm

end

/-! ## 6. Members -/

/-- Whether a token is a name. -/
def Token.isNaming : Token → Bool
  | .name _ | .structName _ _ => true
  | _ => false

/-- A query starts with a name. -/
theorem Query.first : ∀ q : Query, q.isWritable = true →
    ∃ t gs, q.glyphs = .plain t :: gs ∧ t.isNaming = true
  | .root name isGlobal fs, _ => ⟨_, _, rfl, rfl⟩
  | .sub none name fs, _ => ⟨_, _, rfl, rfl⟩
  | .sub (some p) name fs, h => by
    obtain ⟨t, gs, hgs, ht⟩ := Query.first p ((Query.isWritable_sub h).1 p rfl)
    refine ⟨t, (gs ++ [.plain .dot]) ++ .plain (.name name) ::
      inBrackets .square (commaJoined fs.glyphs), ?_, ht⟩
    show (p.glyphs ++ [.plain .dot]) ++ _ = _
    rw [hgs]
    rfl

/-- What stands in front of the name of a member. -/
def stepsBefore (q : Option Query) : List Glyph :=
  match q with
  | some q => q.glyphs ++ [.plain .dot]
  | none => []

/-- Whether a span, if there is one, holds the tokens of a query. -/
def HoldsQuery (t : Option Span) (q : Option Query) : Prop :=
  Option.Rel (fun t q => t.Holds q.glyphs) t q

/-- The first token of a member is a mark only if one was written. -/
theorem Span.Holds.first?_member {s : Span} {isOffset : Bool} {name : String} {q : Option Query}
    (h : s.Holds (memberGlyphs isOffset (stepsBefore q) name))
    (hq : ∀ x, q = some x → x.isWritable = true) : s.first? = some .at ↔ isOffset = true := by
  cases isOffset with
  | true => exact ⟨fun _ => rfl, fun _ => Span.Holds.first? h⟩
  | false =>
    refine ⟨fun hf => ?_, fun e => nomatch e⟩
    cases q with
    | none =>
      rw [Span.Holds.first? h] at hf
      cases hf
    | some q =>
      obtain ⟨t, gs, hgs, ht⟩ := Query.first q (hq q rfl)
      have hsteps : stepsBefore (some q) = .plain t :: (gs ++ [.plain .dot]) := by
        rw [stepsBefore, hgs, List.cons_append]
      rw [hsteps] at h
      rw [Span.Holds.first? h] at hf
      rw [show t = .at from Option.some.inj hf] at ht
      cases ht

/-- **The member that was written.** -/
theorem Span.Holds.fieldRef {s : Span} {isOffset : Bool} {name : String} {q : Option Query}
    (h : s.Holds (memberGlyphs isOffset (stepsBefore q) name))
    (hq : ∀ x, q = some x → x.isWritable = true) :
    ∃ t, s.fieldRef = .ok ⟨t, name, isOffset⟩ ∧ HoldsQuery t q := by
  have hfirst := h.first?_member hq
  have hlast : s.last?.map Lexeme.token = some (.name name) := by
    unfold memberGlyphs at h
    rw [← List.append_assoc] at h
    exact h.last?
  have hbefore : (if s.first? = some .at then s.tail else s).dropLast.Holds (stepsBefore q) := by
    cases isOffset with
    | true =>
      rw [if_pos (hfirst.mpr rfl)]
      exact (Span.Holds.tail h).dropLast
    | false =>
      rw [if_neg fun e => nomatch hfirst.mp e]
      exact Span.Holds.dropLast h
  have hoffset : decide (s.first? = some .at) = isOffset := by
    rw [Bool.eq_iff_iff, decide_eq_true_iff]
    exact hfirst
  unfold Span.fieldRef
  rw [hlast]
  simp only [hoffset]
  generalize (if s.first? = some .at then s.tail else s).dropLast = before at hbefore
  cases q with
  | none =>
    have hnone : before.last? = none := by
      rw [Span.last?, List.map_eq_nil_iff.mp hbefore, List.getLast?_nil]
    rw [hnone]
    exact ⟨none, rfl, .none⟩
  | some q =>
    obtain ⟨l, hl, ht⟩ := Option.map_eq_some_iff.mp (Span.Holds.last? hbefore)
    refine ⟨some before.dropLast, ?_, .some (Span.Holds.dropLast hbefore)⟩
    rw [hl]
    exact if_pos ht

end ByteAtlas
