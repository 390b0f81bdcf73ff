import Mathlib
import ByteAtlas.Proofs.Expr.Brackets

/-!
# What a written part shows to its surroundings

A text is cut into parts by what stands outside brackets, and an operator is told from a sign by the
two tokens before it. What a part may show to its surroundings is fixed here, so that no later proof
looks into it:

* `Reads before after gs`: the glyphs, read where `before` holds, get their binary operations, and
  `after` holds behind them;
* `Exposed k gs`: outside all brackets there is no comma and no operator weaker than `k`;
* `Phrase k gs`: both, and the brackets match. Expressions are phrases of their own strength
  (`Expr.phrase`); queries and filters are phrases too.
-/

namespace ByteAtlas

/-! ## 1. Operators between operands -/

/-- The operators among some tokens, the two tokens before them being given. -/
def operatorsFrom : (earlier previous : Option Token) → List Token → List (Option BinaryOp)
  | _, _, [] => []
  | earlier, previous, t :: ts => binaryAt earlier previous t :: operatorsFrom previous (some t) ts

theorem binaryMarks_eq : ∀ (earlier previous : Option Token) (ls : List Lexeme),
    binaryMarks earlier previous ls = operatorsFrom earlier previous (ls.map Lexeme.token)
  | _, _, [] => rfl
  | earlier, previous, l :: ls => by
    rw [binaryMarks, List.map_cons, operatorsFrom, binaryMarks_eq previous (some l.token) ls]

/-- What is known about the two tokens before a place in a text. -/
abbrev Place := Option Token → Option Token → Prop

/-- Nothing is known. -/
def Anywhere : Place := fun _ _ => True

/-- An operand can start: none has just ended, and an intrinsic's name is not what comes next. -/
def Ready : Place := fun earlier previous =>
  previous ≠ some .dollar ∧ ∀ op, binaryAt earlier previous (.operator op) = none

/-- An operand has ended. -/
def Done : Place := fun earlier previous =>
  ∀ op, binaryAt earlier previous (.operator op) = some op

/-- An intrinsic's name comes next. -/
def Calling : Place := fun _ previous => previous = some .dollar

/-- **Glyphs that are read as they are meant**, wherever `before` holds. Behind them `after`
    holds. -/
def Reads (before after : Place) (gs : List Glyph) : Prop :=
  ∀ earlier previous rest, before earlier previous → ∃ earlier' previous',
    after earlier' previous' ∧
      operatorsFrom earlier previous (tokensOf gs ++ rest) =
        gs.map Glyph.op ++ operatorsFrom earlier' previous' rest

theorem ready_start : Ready none none :=
  ⟨by simp, fun _ => rfl⟩

/-- Whether an operand comes after a token, or a list of them. -/
def Token.isLead : Token → Bool
  | .int _ | .name _ | .structName _ _ | .dollar | .closing _ => false
  | _ => true

theorem ready_after (t : Token) (ht : t.isLead = true) (earlier : Option Token) :
    Ready earlier (some t) := by
  refine ⟨?_, fun op => ?_⟩
  · rintro ⟨⟩
    cases ht
  · cases t <;> first | rfl | cases ht

section

variable {a b c : Place} {gs xs ys : List Glyph}

theorem Reads.nil : Reads a a [] :=
  fun earlier previous _ h => ⟨earlier, previous, h, rfl⟩

theorem Reads.append (hx : Reads a b xs) (hy : Reads b c ys) : Reads a c (xs ++ ys) := by
  intro earlier previous rest h
  obtain ⟨e₁, p₁, h₁, hread₁⟩ := hx earlier previous (tokensOf ys ++ rest) h
  obtain ⟨e₂, p₂, h₂, hread₂⟩ := hy e₁ p₁ rest h₁
  refine ⟨e₂, p₂, h₂, ?_⟩
  rw [tokensOf_append, List.append_assoc, hread₁, hread₂, List.map_append, List.append_assoc]

/-- One glyph in front of others. -/
theorem Reads.cons {g : Glyph}
    (hg : ∀ earlier previous, a earlier previous →
      binaryAt earlier previous g.token = g.op ∧ b previous (some g.token))
    (h : Reads b c gs) : Reads a c (g :: gs) := by
  intro earlier previous rest ha
  obtain ⟨hop, hb⟩ := hg earlier previous ha
  obtain ⟨e', p', hc, hread⟩ := h previous (some g.token) rest hb
  refine ⟨e', p', hc, ?_⟩
  rw [tokensOf_cons, List.cons_append, operatorsFrom, hread, hop]
  rfl

theorem Reads.weaken (h : Reads a b gs) : Reads a Anywhere gs := by
  intro earlier previous rest ha
  obtain ⟨e', p', _, hread⟩ := h earlier previous rest ha
  exact ⟨e', p', trivial, hread⟩

theorem Reads.anywhere (h : Reads Anywhere b gs) : Reads a b gs :=
  fun earlier previous rest _ => h earlier previous rest trivial

/-- A token that is no operator and comes before an operand. -/
theorem Reads.lead (t : Token) (ht : t.isLead = true) (hop : ∀ e p, binaryAt e p t = none)
    (h : Reads Ready c gs) : Reads a c (.plain t :: gs) :=
  .cons (fun earlier previous _ => ⟨hop earlier previous, ready_after t ht previous⟩) h

/-- A group in brackets, whatever stands before it. -/
theorem Reads.inBrackets (bracket : Bracket) (h : Reads Ready Anywhere gs) :
    Reads Anywhere Done (inBrackets bracket gs) := by
  have hclose : Reads Anywhere Done [.plain (.closing bracket)] := by
    refine .cons (b := Done) (fun earlier previous _ => ⟨rfl, fun op => ?_⟩) .nil
    cases previous with
    | none => rfl
    | some t => cases t <;> rfl
  exact .lead (.opening bracket) rfl (fun _ _ => rfl) (h.append hclose)

end

/-! ## 2. What stands outside brackets -/

/-- **Outside all brackets there is no comma, and no operator weaker than `k`.** -/
def Exposed (k : Nat) (gs : List Glyph) : Prop :=
  ∀ g, AtTop gs g → g.token ≠ .comma ∧ ∀ op, g.op = some op → k ≤ op.score

section

variable {k : Nat} {gs xs ys : List Glyph}

theorem Exposed.nil : Exposed k [] :=
  fun _ hg => absurd hg atTop_nil

theorem Exposed.cons {g : Glyph} (hb : g.token.isBracket = false) (hc : g.token ≠ .comma)
    (hop : ∀ op, g.op = some op → k ≤ op.score) (h : Exposed k gs) : Exposed k (g :: gs) := by
  intro g' hg'
  rcases (atTop_cons hb).mp hg' with rfl | hg'
  · exact ⟨hc, hop⟩
  · exact h g' hg'

theorem Exposed.plain {t : Token} (hb : t.isBracket = false) (hc : t ≠ .comma)
    (h : Exposed k gs) : Exposed k (.plain t :: gs) :=
  .cons hb hc (fun _ e => nomatch e) h

theorem Exposed.append (hx : Nested (tokensOf xs)) (h : Exposed k xs) (h' : Exposed k ys) :
    Exposed k (xs ++ ys) := by
  intro g hg
  rcases (atTop_append hx).mp hg with hg | hg
  · exact h g hg
  · exact h' g hg

theorem Exposed.inBrackets {b : Bracket} (h : Nested (tokensOf gs)) :
    Exposed k (inBrackets b gs) :=
  fun _ hg => absurd hg (not_atTop_inBrackets h)

theorem Exposed.mono {k' : Nat} (hk : k ≤ k') (h : Exposed k' gs) : Exposed k gs :=
  fun g hg => ⟨(h g hg).1, fun op hop => Nat.le_trans hk ((h g hg).2 op hop)⟩

end

/-! ## 3. Phrases -/

/-- **An operand, as its surroundings see it.** -/
structure Phrase (k : Nat) (gs : List Glyph) : Prop where
  nonempty : gs ≠ []
  nested : Nested (tokensOf gs)
  reads : Reads Ready Done gs
  exposed : Exposed k gs

/-- What can stand between brackets. -/
structure Contents (gs : List Glyph) : Prop where
  nested : Nested (tokensOf gs)
  reads : Reads Ready Anywhere gs

section

variable {k : Nat} {gs xs ys : List Glyph}

theorem Phrase.mono {k' : Nat} (hk : k ≤ k') (h : Phrase k' gs) : Phrase k gs :=
  { h with exposed := h.exposed.mono hk }

theorem Phrase.contents (h : Phrase k gs) : Contents gs :=
  ⟨h.nested, h.reads.weaken⟩

theorem Contents.nil : Contents [] :=
  ⟨.nil, Reads.nil.weaken⟩

/-- A list in brackets. -/
theorem Contents.commaJoined : ∀ {gss : List (List Glyph)}, (∀ gs ∈ gss, Phrase 0 gs) →
    Contents (commaJoined gss)
  | [], _ => .nil
  | [gs], h => (h gs List.mem_cons_self).contents
  | gs :: gs' :: gss, h => by
    have hgs := h gs List.mem_cons_self
    have hmore : Contents (ByteAtlas.commaJoined (gs' :: gss)) :=
      Contents.commaJoined fun x hx => h x (List.mem_cons_of_mem _ hx)
    refine ⟨?_, ?_⟩
    · show Nested (tokensOf (gs ++ .plain .comma :: ByteAtlas.commaJoined (gs' :: gss)))
      rw [tokensOf_append]
      exact hgs.nested.append (.plain rfl hmore.nested)
    · exact hgs.reads.append (.lead .comma rfl (fun _ _ => rfl) hmore.reads)

/-- Contents in brackets are a phrase. -/
theorem Contents.inBrackets (bracket : Bracket) (h : Contents gs) :
    Phrase k (inBrackets bracket gs) :=
  ⟨List.cons_ne_nil _ _, h.nested.inBrackets, (h.reads.inBrackets bracket).anywhere,
    .inBrackets h.nested⟩

/-- A part in round brackets if they are needed. -/
theorem Phrase.groupIf {k' : Nat} {needed : Bool} (h : Phrase k' gs)
    (hk : needed = false → k ≤ k') : Phrase k (groupIf needed gs) := by
  cases needed with
  | false => exact h.mono (hk rfl)
  | true => exact h.contents.inBrackets .round

/-- A sign in front of an operand. -/
theorem Phrase.unary (op : UnaryOp) (h : Phrase k gs) : Phrase k (.plain op.token :: gs) := by
  have hb : op.token.isBracket = false := by cases op <;> rfl
  have hc : op.token ≠ .comma := by cases op <;> exact fun e => nomatch e
  refine ⟨List.cons_ne_nil _ _, .plain hb h.nested, ?_, .plain hb hc h.exposed⟩
  refine .cons (fun earlier previous hr => ⟨?_, ?_⟩) h.reads
  · cases op with
    | negate => exact hr.2 .sub
    | invert => rfl
  · exact ready_after op.token (by cases op <;> rfl) previous

/-- An operator between two operands. -/
theorem Phrase.binary (op : BinaryOp) (hx : Phrase op.score xs) (hy : Phrase (op.score + 1) ys) :
    Phrase op.score (xs ++ .binary op :: ys) := by
  refine ⟨List.append_ne_nil_of_left_ne_nil hx.nonempty _, ?_, ?_, ?_⟩
  · rw [tokensOf_append, tokensOf_cons]
    exact hx.nested.append (.plain rfl hy.nested)
  · refine hx.reads.append (.cons (fun earlier previous hd => ⟨hd op, ?_⟩) hy.reads)
    exact ready_after (.operator op) rfl previous
  · refine hx.exposed.append hx.nested (.cons rfl (fun e => nomatch e) ?_ ?_)
    · rintro op' ⟨⟩
      exact Nat.le_refl _
    · exact hy.exposed.mono (Nat.le_succ _)

/-- An intrinsic's name in front of its operand or its arguments. -/
theorem Phrase.intrinsic (name : String) (h : Phrase k gs) :
    Phrase k (.plain .dollar :: .plain (.name name) :: gs) := by
  refine ⟨List.cons_ne_nil _ _, .plain rfl (.plain rfl h.nested), ?_,
    .plain rfl (fun e => nomatch e) (.plain rfl (fun e => nomatch e) h.exposed)⟩
  refine .cons (b := Calling) (fun _ _ _ => ⟨rfl, rfl⟩) (.cons ?_ h.reads)
  rintro earlier previous rfl
  exact ⟨rfl, fun e => (by cases e), fun _ => rfl⟩

/-- A name by itself. -/
theorem Reads.name (name : String) : Reads Ready Done [.plain (.name name)] := by
  refine .cons (fun earlier previous hr => ⟨rfl, fun op => ?_⟩) .nil
  cases previous with
  | none => rfl
  | some t =>
    cases t with
    | dollar => exact absurd rfl hr.1
    | _ => rfl

theorem Phrase.name (name : String) : Phrase k [.plain (.name name)] :=
  ⟨List.cons_ne_nil _ _, .single rfl, .name name, .plain rfl (fun e => nomatch e) .nil⟩

theorem Phrase.int (n : Int64) : Phrase k [.plain (.int n)] := by
  refine ⟨List.cons_ne_nil _ _, .single rfl, ?_, .plain rfl (fun e => nomatch e) .nil⟩
  refine .cons (fun earlier previous hr => ⟨rfl, fun op => ?_⟩) .nil
  cases previous with
  | none => rfl
  | some t => cases t <;> rfl

/-- A mark in front of a member or of a query. -/
theorem Phrase.at (h : Phrase k gs) : Phrase k (.plain .at :: gs) :=
  ⟨List.cons_ne_nil _ _, .plain rfl h.nested,
    .lead .at rfl (fun _ _ => rfl) h.reads,
    .plain rfl (fun e => nomatch e) h.exposed⟩

/-- A step after a query. -/
theorem Phrase.dot (hx : Phrase k xs) (hy : Phrase k ys) :
    Phrase k ((xs ++ [.plain .dot]) ++ ys) := by
  rw [List.append_assoc, List.singleton_append]
  refine ⟨List.append_ne_nil_of_left_ne_nil hx.nonempty _, ?_, ?_, ?_⟩
  · rw [tokensOf_append, tokensOf_cons]
    exact hx.nested.append (.plain rfl hy.nested)
  · exact hx.reads.append (.lead .dot rfl (fun _ _ => rfl) hy.reads)
  · exact hx.exposed.append hx.nested (.plain rfl (fun e => nomatch e) hy.exposed)

/-- A name, of a struct or of a field, in front of filters. -/
theorem Phrase.step {head : Token} (hb : head.isBracket = false) (hc : head ≠ .comma)
    (hop : ∀ op, head ≠ .operator op) (h : Contents gs) :
    Phrase k (.plain head :: ByteAtlas.inBrackets .square gs) := by
  have hin : Phrase k (ByteAtlas.inBrackets .square gs) := h.inBrackets .square
  refine ⟨List.cons_ne_nil _ _, .plain hb hin.nested, ?_, .plain hb hc hin.exposed⟩
  refine .cons (fun earlier previous _ => ⟨?_, trivial⟩) (h.reads.inBrackets .square)
  cases head with
  | operator op => exact absurd rfl (hop op)
  | _ => rfl

/-- What a filter looks at, and what that has to be. -/
theorem Phrase.filter {head : Token} (hb : head.isBracket = false) (hc : head ≠ .comma)
    (hop : ∀ op, head ≠ .operator op) (h : Phrase k gs) : Phrase k (filterGlyphs head gs) := by
  refine ⟨List.cons_ne_nil _ _, .plain hb (.plain rfl h.nested), ?_,
    .plain hb hc (.plain rfl (fun e => nomatch e) h.exposed)⟩
  refine .cons (b := Anywhere) (fun earlier previous _ => ⟨?_, trivial⟩)
    (.lead .assign rfl (fun _ _ => rfl) h.reads)
  cases head with
  | operator op => exact absurd rfl (hop op)
  | _ => rfl

theorem Phrase.member {steps : List Glyph} {name : String} (isOffset : Bool)
    (h : Phrase k (steps ++ [.plain (.name name)])) : Phrase k (memberGlyphs isOffset steps name) := by
  cases isOffset with
  | false => exact h
  | true => exact h.at

theorem Phrase.call (name : String) (h : Contents gs) : Phrase k (callGlyphs name gs) :=
  (h.inBrackets .round).intrinsic name

/-- Two arguments. -/
theorem Contents.pair (hx : Phrase 0 xs) (hy : Phrase 0 ys) :
    Contents (ByteAtlas.commaJoined [xs, ys]) := by
  refine .commaJoined fun gs hgs => ?_
  rcases List.mem_cons.mp hgs with rfl | hgs
  · exact hx
  · rw [List.mem_singleton.mp hgs]
    exact hy

theorem TextCondition.phrase (c : TextCondition) : Phrase 0 c.glyphs :=
  (Phrase.name c.text).filter rfl (fun e => by cases e) fun _ e => by cases e

end

/-! ## 4. Trees are phrases -/

/-- A member of what a query selects, given that the query is a phrase. -/
theorem Phrase.field {k : Nat} (q : Option Query) (name : String) (isOffset : Bool) :
    (∀ x, q = some x → Phrase k x.glyphs) →
      Phrase k (memberGlyphs isOffset
        (match q with
          | some q => q.glyphs ++ [.plain .dot]
          | none => [])
        name) := by
  intro hq
  refine .member isOffset ?_
  cases q with
  | none => exact .name name
  | some q => exact (hq q rfl).dot (.name name)

mutual

/-- **The tokens of an expression are a phrase** of the expression's strength. -/
theorem Expr.phrase : ∀ e : Expr, e.isWritable = true → Phrase e.strength e.glyphs
  | .constant n, _ => .int n
  | .unary op a, h => by
    refine .unary op ((Expr.phrase a h).groupIf fun hn => ?_)
    exact Nat.not_lt.mp (of_decide_eq_false hn)
  | .binary op a b, h => by
    simp only [Expr.isWritable, Bool.and_eq_true] at h
    refine .binary op ((Expr.phrase a h.1).groupIf fun hn => ?_)
      ((Expr.phrase b h.2).groupIf fun hn => ?_)
    · exact Nat.not_lt.mp (of_decide_eq_false hn)
    · exact Nat.not_le.mp (of_decide_eq_false hn)
  | .rawRead t a, h => by
    refine .intrinsic t.name ((Expr.phrase a h).groupIf fun hn => ?_)
    exact Nat.not_lt.mp (of_decide_eq_false hn)
  | .member q name i isOffset, h => by
    obtain ⟨_, hq, hi⟩ := Expr.isWritable_member h
    have hphrase : ∀ x, q = some x → Phrase operandStrength x.glyphs := by
      cases q with
      | none => exact fun _ hx => nomatch hx
      | some q =>
        rintro _ ⟨⟩
        exact Query.phrase q (hq q rfl)
    have hfield := Phrase.field q name isOffset hphrase
    unfold Expr.glyphs
    cases i with
    | none => exact hfield
    | some e =>
      have he := Expr.phrase e (hi e rfl)
      exact .call "arr" (.pair (hfield.mono (Nat.zero_le _)) (he.mono (Nat.zero_le _)))
  | .structOffset q, h => (Query.phrase q h).at
  | .previewTest q name text invert, h => by
    obtain ⟨_, _, hq⟩ := Expr.isWritable_previewTest h
    have hphrase : ∀ x, q = some x → Phrase operandStrength x.glyphs := by
      cases q with
      | none => exact fun _ hx => nomatch hx
      | some q =>
        rintro _ ⟨⟩
        exact Query.phrase q (hq q rfl)
    have hfield := Phrase.field q name false hphrase
    unfold Expr.glyphs
    exact .call (previewTestName invert) (.pair (hfield.mono (Nat.zero_le _)) (.name text))
  | .instanceId q, h => by
    have hq := Expr.isWritable_instanceId h
    unfold Expr.glyphs
    refine .call "iid" ?_
    cases q with
    | none => exact .nil
    | some q => exact (Query.phrase q (hq q rfl)).contents

/-- The tokens of a query are a phrase that no operator cuts. -/
theorem Query.phrase : ∀ q : Query, q.isWritable = true → Phrase operandStrength q.glyphs
  | .root name isGlobal fs, h => by
    obtain ⟨_, _, hfs⟩ := Query.isWritable_root h
    exact .step rfl (fun e => by cases e) (fun _ e => by cases e)
      (.commaJoined (Filters.phrases fs hfs))
  | .sub p name fs, h => by
    obtain ⟨hp, _, hfs⟩ := Query.isWritable_sub h
    have hstep : Phrase operandStrength
        (.plain (.name name) :: inBrackets .square (commaJoined fs.glyphs)) :=
      .step rfl (fun e => by cases e) (fun _ e => by cases e)
        (.commaJoined (Filters.phrases fs hfs))
    cases p with
    | none => exact hstep
    | some p => exact (Query.phrase p (hp p rfl)).dot hstep

/-- The tokens of each filter are a phrase. -/
theorem Filters.phrases : ∀ fs : Filters, fs.isWritable = true → ∀ gs ∈ fs.glyphs, Phrase 0 gs
  | .mk texts values selector, h, gs, hgs => by
    obtain ⟨_, hv, hs⟩ := Filters.isWritable_mk h
    unfold Filters.glyphs at hgs
    rcases List.mem_append.mp hgs with hgs | hgs
    · rcases List.mem_append.mp hgs with hgs | hgs
      · obtain ⟨c, _, rfl⟩ := List.mem_map.mp hgs
        exact c.phrase
      · exact valuesPhrases values hv gs hgs
    · cases selector with
      | none => cases hgs
      | some e =>
        rw [List.mem_singleton.mp hgs]
        have he := (Expr.phrase e (hs e rfl)).mono (Nat.zero_le _)
        exact he.filter rfl (fun e => by cases e) fun _ e => by cases e

/-- The tokens of each filter on a value are a phrase. -/
theorem valuesPhrases : ∀ vs : List (String × Expr), valuesWritable vs = true →
    ∀ gs ∈ valuesGlyphs vs, Phrase 0 gs
  | [], _, _, hgs => nomatch hgs
  | (name, e) :: vs, h, gs, hgs => by
    obtain ⟨_, _, hw, hvs⟩ := valuesWritable_cons h
    rcases List.mem_cons.mp hgs with rfl | hgs
    · have he := (Expr.phrase e hw).mono (Nat.zero_le _)
      exact he.filter rfl (fun e => by cases e) fun _ e => by cases e
    · exact valuesPhrases vs hvs gs hgs

end

/-! ## 5. How many operators there are -/

/-- The binary operators among some glyphs. -/
def operatorCount (gs : List Glyph) : Nat :=
  (gs.filterMap Glyph.op).length

section

variable {gs xs ys : List Glyph}

@[simp]
theorem operatorCount_nil : operatorCount [] = 0 := rfl

@[simp]
theorem operatorCount_plain (t : Token) (gs : List Glyph) :
    operatorCount (.plain t :: gs) = operatorCount gs := rfl

@[simp]
theorem operatorCount_binary (op : BinaryOp) (gs : List Glyph) :
    operatorCount (.binary op :: gs) = operatorCount gs + 1 := rfl

@[simp]
theorem operatorCount_append (xs ys : List Glyph) :
    operatorCount (xs ++ ys) = operatorCount xs + operatorCount ys := by
  simp [operatorCount, List.filterMap_append]

@[simp]
theorem operatorCount_inBrackets (b : Bracket) (gs : List Glyph) :
    operatorCount (inBrackets b gs) = operatorCount gs := by
  simp [inBrackets]

@[simp]
theorem operatorCount_groupIf (needed : Bool) (gs : List Glyph) :
    operatorCount (groupIf needed gs) = operatorCount gs := by
  cases needed <;> simp [groupIf]

theorem operatorCount_commaJoined : ∀ gss : List (List Glyph),
    operatorCount (commaJoined gss) = (gss.map operatorCount).sum
  | [] => rfl
  | [gs] => by simp [commaJoined]
  | gs :: gs' :: gss => by
    have ih := operatorCount_commaJoined (gs' :: gss)
    rw [commaJoined, operatorCount_append, operatorCount_plain, ih]
    · rfl
    · exact fun h => nomatch h

@[simp]
theorem operatorCount_memberGlyphs (isOffset : Bool) (steps : List Glyph) (name : String) :
    operatorCount (memberGlyphs isOffset steps name) = operatorCount steps := by
  cases isOffset <;> simp [memberGlyphs]

@[simp]
theorem operatorCount_filterGlyphs (head : Token) (value : List Glyph) :
    operatorCount (filterGlyphs head value) = operatorCount value := rfl

end

mutual

/-- **An expression's tokens have an operator for each of its binary operations.** -/
theorem Expr.operatorCount_glyphs : ∀ e : Expr, operatorCount e.glyphs = e.tally 1 0
  | .constant _ => rfl
  | .unary op a => by
    simp [Expr.glyphs, Expr.tally, Expr.operatorCount_glyphs a]
  | .binary op a b => by
    simp [Expr.glyphs, Expr.tally, Expr.operatorCount_glyphs a, Expr.operatorCount_glyphs b,
      Nat.add_assoc]
  | .rawRead t a => by
    simp [Expr.glyphs, Expr.tally, Expr.operatorCount_glyphs a]
  | .member q name i isOffset => by
    unfold Expr.glyphs Expr.tally
    cases q with
    | none =>
      cases i with
      | none => simp
      | some e => simp [callGlyphs, operatorCount_commaJoined, Expr.operatorCount_glyphs e]
    | some q =>
      have hq := Query.operatorCount_glyphs q
      cases i with
      | none => simp [hq]
      | some e => simp [callGlyphs, operatorCount_commaJoined, hq, Expr.operatorCount_glyphs e]
  | .structOffset q => by
    simp [Expr.glyphs, Expr.tally, Query.operatorCount_glyphs q]
  | .previewTest q name text invert => by
    unfold Expr.glyphs Expr.tally
    cases q with
    | none => simp [callGlyphs, operatorCount_commaJoined]
    | some q => simp [callGlyphs, operatorCount_commaJoined, Query.operatorCount_glyphs q]
  | .instanceId q => by
    unfold Expr.glyphs Expr.tally
    cases q with
    | none => simp [callGlyphs]
    | some q => simp [callGlyphs, Query.operatorCount_glyphs q]
  | .error => rfl

/-- The operators of a query are those of its filters and of its parent. -/
theorem Query.operatorCount_glyphs : ∀ q : Query, operatorCount q.glyphs = q.tally 1 0
  | .root name isGlobal fs => by
    simp [Query.glyphs, Query.tally, operatorCount_commaJoined, Filters.operatorCount_glyphs fs]
  | .sub p name fs => by
    have hfs := Filters.operatorCount_glyphs fs
    unfold Query.glyphs Query.tally
    cases p with
    | none => simp [operatorCount_commaJoined, hfs]
    | some p => simp [operatorCount_commaJoined, hfs, Query.operatorCount_glyphs p]
  | .error => rfl

/-- The operators of filters. -/
theorem Filters.operatorCount_glyphs : ∀ fs : Filters,
    (fs.glyphs.map operatorCount).sum = fs.tally 1 0
  | .mk texts values selector => by
    have htexts : ((texts.map TextCondition.glyphs).map operatorCount).sum = 0 := by
      induction texts with
      | nil => rfl
      | cons c cs ih => simpa [TextCondition.glyphs] using ih
    have hvalues := valuesOperatorCount_glyphs values
    unfold Filters.glyphs Filters.tally
    rw [List.map_append, List.map_append, List.sum_append, List.sum_append, htexts, hvalues]
    cases selector with
    | none => simp
    | some e => simp [Expr.operatorCount_glyphs e]

/-- The operators of filters on values. -/
theorem valuesOperatorCount_glyphs : ∀ vs : List (String × Expr),
    ((valuesGlyphs vs).map operatorCount).sum = valuesTally 1 0 vs
  | [] => rfl
  | (name, e) :: vs => by
    simp [valuesGlyphs, valuesTally, Expr.operatorCount_glyphs e, valuesOperatorCount_glyphs vs]

end

end ByteAtlas
