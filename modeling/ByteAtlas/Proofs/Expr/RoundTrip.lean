import ByteAtlas.Proofs.Expr.Operators
import ByteAtlas.Proofs.Expr.Spelling
import ByteAtlas.Proofs.Expr.Reading

/-!
# What was written is read back

`Expr.compile_render`: the text of a writable tree that keeps within the limits compiles to just
that tree, and nothing is reported.

The proof follows the compiler: the shape of a span that holds a tree's tokens is that of the tree
(`exprShape_brackets`, `exprShape_binary`, …, `queryShape_sub`), its parts hold the tokens of the
subtrees, and the induction is on the tree, for every span and every level on which the span lies.
-/

namespace ByteAtlas

/-! ## 1. Shapes of expressions -/

section

variable {s : Span} {gs xs ys : List Glyph}

/-- What is neither empty nor a literal is brackets, an operation or an operand. -/
theorem exprShape_of_not_literal (hne : s.lexemes.map Lexeme.token ≠ [])
    (hint : ∀ n, s.lexemes.map Lexeme.token ≠ [.int n]) :
    exprShape s =
      match s.enclosed? .round with
      | some inner => .ok (.enclosed inner)
      | none =>
        match s.atWeakest with
        | .error d => .error d
        | .ok (some b) => .ok (.binary b.op b.left b.right)
        | .ok none => operandShape s := by
  unfold exprShape
  split
  · rename_i h
    exact absurd h hne
  · rename_i n h
    exact absurd h (hint n)
  · rfl

theorem exprShape_int {n : Int64} (h : s.Holds [.plain (.int n)]) :
    exprShape s = .ok (.constant n) := by
  have ht : s.lexemes.map Lexeme.token = [.int n] := h
  unfold exprShape
  rw [ht]

theorem exprShape_brackets (h : s.Holds (inBrackets .round gs)) (hn : Nested (tokensOf gs)) :
    ∃ inner, exprShape s = .ok (.enclosed inner) ∧ inner.Holds gs := by
  obtain ⟨inner, hinner, hholds⟩ := h.enclosed? hn
  have ht : s.lexemes.map Lexeme.token = .opening .round :: (tokensOf gs ++ [.closing .round]) := by
    rw [← tokensOf_inBrackets]
    exact h
  refine ⟨inner, ?_, hholds⟩
  rw [exprShape_of_not_literal, hinner]
  · rw [ht]
    exact List.cons_ne_nil _ _
  · rw [ht]
    exact fun n e => by cases e

/-- **The shape of an operation.** -/
theorem exprShape_binary {op : BinaryOp} (h : s.Holds (xs ++ .binary op :: ys))
    (hx : Phrase op.score xs) (hy : Phrase (op.score + 1) ys)
    (hd : Shallow (xs ++ .binary op :: ys)) :
    ∃ left right, exprShape s = .ok (.binary op left right) ∧ left.Holds xs ∧ right.Holds ys := by
  obtain ⟨left, right, hb, hleft, hright⟩ := h.atWeakest_binary hx hy hd
  have hlen : s.lexemes.length = xs.length + (ys.length + 1) := by
    rw [length_eq_of_tokens h, List.length_append, List.length_cons]
  have hxpos := List.length_pos_iff.mpr hx.nonempty
  have hypos := List.length_pos_iff.mpr hy.nonempty
  refine ⟨left, right, ?_, hleft, hright⟩
  rw [exprShape_of_not_literal, h.not_enclosed_append hx.nested hx.nonempty (List.cons_ne_nil _ _), hb]
  · intro e
    have := congrArg List.length e
    simp only [List.length_map, List.length_nil] at this
    omega
  · intro n e
    have := congrArg List.length e
    simp only [List.length_map, List.length_cons, List.length_nil] at this
    omega

/-- Whether a token starts an operand that is neither a literal nor in brackets. -/
def Token.startsOperand : Token → Bool
  | .operator .sub | .tilde | .dollar | .at | .name _ | .structName _ _ => true
  | _ => false

/-- **The shape of an operand.** -/
theorem exprShape_operand {t : Token} (ht : t.startsOperand = true) (h : s.Holds (.plain t :: gs))
    (hp : Phrase operandStrength (.plain t :: gs)) (hd : Shallow (.plain t :: gs)) :
    exprShape s = operandShape s := by
  have hts : s.lexemes.map Lexeme.token = t :: tokensOf gs := h
  have hopen : t ≠ .opening .round := by
    rintro rfl
    cases ht
  rw [exprShape_of_not_literal, h.not_enclosed hopen, h.atWeakest_operand hp hd]
  · rw [hts]
    exact List.cons_ne_nil _ _
  · intro n e
    rw [hts] at e
    rw [(List.cons.inj e).1] at ht
    cases ht

theorem operandShape_unary {op : UnaryOp} (h : s.Holds (.plain op.token :: gs)) :
    operandShape s = .ok (.unary op s.tail) := by
  have hts : s.lexemes.map Lexeme.token = op.token :: tokensOf gs := h
  unfold operandShape
  rw [hts]
  cases op <;> rfl

theorem operandShape_intrinsic {name : String}
    (h : s.Holds (.plain .dollar :: .plain (.name name) :: gs)) :
    operandShape s = intrinsicShape s.pos name s.tail.tail := by
  have hts : s.lexemes.map Lexeme.token = .dollar :: .name name :: tokensOf gs := h
  unfold operandShape
  rw [hts]

/-- What is neither a sign nor an intrinsic is told by its last token. -/
theorem operandShape_of_named {t : Token} {ts : List Token}
    (hts : s.lexemes.map Lexeme.token = t :: ts) (ht : t = .at ∨ t.isNaming = true) :
    operandShape s =
      match (t :: ts).getLast? with
      | some (.name _) => s.fieldRef.map ExprShape.member
      | _ =>
        if s.first? = some .at then .ok (.structOffset s.tail) else .error ⟨s.pos, .cannotParse⟩ := by
  unfold operandShape
  rw [hts]
  cases t with
  | name _ => rfl
  | structName _ _ => rfl
  | «at» => rfl
  | _ => rcases ht with ht | ht <;> cases ht

/-- The tokens of a member start with a mark or a name. -/
theorem memberGlyphs_first (isOffset : Bool) (name : String) {q : Option Query}
    (hq : ∀ x, q = some x → x.isWritable = true) :
    ∃ t gs, memberGlyphs isOffset (stepsBefore q) name = .plain t :: gs ∧
      (t = .at ∨ t.isNaming = true) := by
  cases isOffset with
  | true => exact ⟨.at, _, rfl, .inl rfl⟩
  | false =>
    cases q with
    | none => exact ⟨.name name, _, rfl, .inr rfl⟩
    | some q =>
      obtain ⟨t, gs, hgs, ht⟩ := Query.first q (hq q rfl)
      refine ⟨t, (gs ++ [.plain .dot]) ++ [.plain (.name name)], ?_, .inr ht⟩
      show (q.glyphs ++ [.plain .dot]) ++ [.plain (.name name)] = _
      rw [hgs]
      rfl

theorem Token.startsOperand_of_named {t : Token} (ht : t = .at ∨ t.isNaming = true) :
    t.startsOperand = true := by
  rcases ht with rfl | ht
  · rfl
  · cases t <;> first | rfl | cases ht

/-- **The shape of a member.** -/
theorem exprShape_member {q : Option Query} {name : String} {isOffset : Bool}
    (h : s.Holds (memberGlyphs isOffset (stepsBefore q) name))
    (hq : ∀ x, q = some x → x.isWritable = true)
    (hp : Phrase operandStrength (memberGlyphs isOffset (stepsBefore q) name))
    (hd : Shallow (memberGlyphs isOffset (stepsBefore q) name)) :
    ∃ t, exprShape s = .ok (.member ⟨t, name, isOffset⟩) ∧ HoldsQuery t q := by
  obtain ⟨t, href, hquery⟩ := h.fieldRef hq
  have hlast : s.last?.map Lexeme.token = some (.name name) := by
    unfold memberGlyphs at h
    rw [← List.append_assoc] at h
    exact h.last?
  obtain ⟨t', gs, hgs, ht'⟩ := memberGlyphs_first isOffset name hq
  rw [hgs] at h hp hd
  have hts : s.lexemes.map Lexeme.token = t' :: tokensOf gs := h
  refine ⟨t, ?_, hquery⟩
  rw [exprShape_operand (Token.startsOperand_of_named ht') h hp hd, operandShape_of_named hts ht',
    ← hts, List.getLast?_map, ← Span.last?, hlast, href]
  rfl

/-- The tokens of a query end with the bracket of its filters. -/
theorem Query.last {q : Query} (h : q.isWritable = true) :
    ∃ gs, q.glyphs = gs ++ [.plain (.closing .square)] := by
  cases q with
  | root name isGlobal fs =>
    exact ⟨.plain (.structName name isGlobal) :: .plain (.opening .square) :: commaJoined fs.glyphs,
      rfl⟩
  | sub p name fs =>
    cases p with
    | none =>
      exact ⟨.plain (.name name) :: .plain (.opening .square) :: commaJoined fs.glyphs, rfl⟩
    | some p =>
      refine ⟨(p.glyphs ++ [.plain .dot]) ++
        .plain (.name name) :: .plain (.opening .square) :: commaJoined fs.glyphs, ?_⟩
      rw [List.append_assoc]
      rfl
  | error => cases h

theorem exprShape_structOffset {q : Query} (hq : q.isWritable = true)
    (h : s.Holds (.plain .at :: q.glyphs)) (hp : Phrase operandStrength (.plain .at :: q.glyphs))
    (hd : Shallow (.plain .at :: q.glyphs)) : exprShape s = .ok (.structOffset s.tail) := by
  have hts : s.lexemes.map Lexeme.token = .at :: tokensOf q.glyphs := h
  have hlast : s.last?.map Lexeme.token = some (.closing .square) := by
    obtain ⟨gs, hgs⟩ := Query.last hq
    rw [hgs] at h
    have h' : s.Holds ((.plain .at :: gs) ++ [.plain (.closing .square)]) := h
    exact h'.last?
  rw [exprShape_operand rfl h hp hd, operandShape_of_named hts (.inl rfl), ← hts,
    List.getLast?_map, ← Span.last?, hlast]
  exact if_pos h.first?

theorem exprShape_unary {op : UnaryOp} (h : s.Holds (.plain op.token :: gs))
    (hp : Phrase operandStrength (.plain op.token :: gs)) (hd : Shallow (.plain op.token :: gs)) :
    exprShape s = .ok (.unary op s.tail) := by
  have ht : op.token.startsOperand = true := by cases op <;> rfl
  rw [exprShape_operand ht h hp hd, operandShape_unary h]

theorem exprShape_rawRead {t : IntType} (h : s.Holds (.plain .dollar :: .plain (.name t.name) :: gs))
    (hp : Phrase operandStrength (.plain .dollar :: .plain (.name t.name) :: gs))
    (hd : Shallow (.plain .dollar :: .plain (.name t.name) :: gs)) :
    exprShape s = .ok (.rawRead t s.tail.tail) := by
  rw [exprShape_operand rfl h hp hd, operandShape_intrinsic h, intrinsicShape,
    IntType.ofName?_name]

/-- The arguments of an intrinsic behind its name. -/
theorem Span.Holds.args {name : String} {gss : List (List Glyph)}
    (h : s.Holds (callGlyphs name (commaJoined gss))) (hp : ∀ gs ∈ gss, Phrase 0 gs)
    (hd : Shallow (callGlyphs name (commaJoined gss))) :
    exprShape s = intrinsicShape s.pos name s.tail.tail ∧
      ∃ parts, s.tail.tail.callArgs? = some parts ∧ List.Forall₂ Span.Holds parts gss := by
  have hphrase : Phrase operandStrength (callGlyphs name (commaJoined gss)) :=
    .call name (.commaJoined hp)
  have hargs : Shallow (inBrackets .round (commaJoined gss)) := (hd.tail rfl).tail rfl
  refine ⟨?_, h.tail.tail.callArgs? hp hargs⟩
  rw [exprShape_operand rfl h hphrase hd, operandShape_intrinsic h]

/-- **The shape of an element.** -/
theorem exprShape_element {q : Option Query} {name : String} {isOffset : Bool}
    (h : s.Holds (callGlyphs "arr" (commaJoined [memberGlyphs isOffset (stepsBefore q) name, gs])))
    (hq : ∀ x, q = some x → x.isWritable = true)
    (hfield : Phrase 0 (memberGlyphs isOffset (stepsBefore q) name)) (hgs : Phrase 0 gs)
    (hd : Shallow (callGlyphs "arr" (commaJoined [memberGlyphs isOffset (stepsBefore q) name, gs]))) :
    ∃ t index, exprShape s = .ok (.element ⟨t, name, isOffset⟩ index) ∧ HoldsQuery t q ∧
      index.Holds gs := by
  obtain ⟨hshape, parts, hargs, hall⟩ := h.args (by simp [hfield, hgs]) hd
  obtain ⟨field, _, hf, hrest, rfl⟩ := List.forall₂_cons_right_iff.mp hall
  obtain ⟨index, _, hi, hnil, rfl⟩ := List.forall₂_cons_right_iff.mp hrest
  rw [List.forall₂_nil_right_iff.mp hnil] at hargs
  obtain ⟨t, href, hquery⟩ := hf.fieldRef hq
  refine ⟨t, index, ?_, hquery, hi⟩
  have hno : IntType.ofName? "arr" = none := by decide
  rw [hshape, intrinsicShape, hno]
  simp only [hargs, href]
  rfl

/-- A name as an argument is its text. -/
theorem Span.Holds.textArg? {text : String} (h : s.Holds [.plain (.name text)]) :
    s.textArg? = some text := by
  have hts : s.lexemes.map Lexeme.token = [.name text] := h
  rw [Span.textArg?, hts]

/-- **The shape of a test of previews.** -/
theorem exprShape_previewTest {q : Option Query} {name text : String} {invert : Bool}
    (h : s.Holds (callGlyphs (previewTestName invert)
      (commaJoined [memberGlyphs false (stepsBefore q) name, [.plain (.name text)]])))
    (hq : ∀ x, q = some x → x.isWritable = true)
    (hfield : Phrase 0 (memberGlyphs false (stepsBefore q) name))
    (hd : Shallow (callGlyphs (previewTestName invert)
      (commaJoined [memberGlyphs false (stepsBefore q) name, [.plain (.name text)]]))) :
    ∃ t, exprShape s = .ok (.previewTest ⟨t, name, false⟩ (.ok text) invert) ∧ HoldsQuery t q := by
  obtain ⟨hshape, parts, hargs, hall⟩ := h.args (by simp [hfield, Phrase.name]) hd
  obtain ⟨field, _, hf, hrest, rfl⟩ := List.forall₂_cons_right_iff.mp hall
  obtain ⟨arg, _, ha, hnil, rfl⟩ := List.forall₂_cons_right_iff.mp hrest
  rw [List.forall₂_nil_right_iff.mp hnil] at hargs
  obtain ⟨t, href, hquery⟩ := hf.fieldRef hq
  have hfirst : field.first? ≠ some .at := fun e => nomatch (hf.first?_member hq).mp e
  refine ⟨t, ?_, hquery⟩
  have hno : IntType.ofName? (previewTestName invert) = none := by cases invert <;> decide
  rw [hshape, intrinsicShape, hno]
  simp only [hargs, href, ha.textArg?, hfirst, if_false]
  cases invert <;> rfl

/-- The shape of an instance's id: its query is the only argument, if there is one. -/
theorem exprShape_instanceId {q : Option Query}
    (h : s.Holds (callGlyphs "iid" (commaJoined (q.map Query.glyphs).toList)))
    (hp : ∀ x, q = some x → Phrase operandStrength x.glyphs)
    (hd : Shallow (callGlyphs "iid" (commaJoined (q.map Query.glyphs).toList))) :
    ∃ t, exprShape s = .ok (.instanceId t) ∧ HoldsQuery t q := by
  have hno : IntType.ofName? "iid" = none := by decide
  have hphrases : ∀ gs ∈ (q.map Query.glyphs).toList, Phrase 0 gs := by
    cases q with
    | none => exact fun _ hgs => nomatch hgs
    | some q =>
      intro gs hgs
      rw [List.mem_singleton.mp hgs]
      exact (hp q rfl).mono (Nat.zero_le _)
  obtain ⟨hshape, parts, hargs, hall⟩ := h.args hphrases hd
  cases q with
  | none =>
    rw [List.forall₂_nil_right_iff.mp hall] at hargs
    refine ⟨none, ?_, .none⟩
    rw [hshape, intrinsicShape, hno]
    simp only [hargs]
    rfl
  | some q =>
    obtain ⟨arg, _, ha, hnil, rfl⟩ := List.forall₂_cons_right_iff.mp hall
    rw [List.forall₂_nil_right_iff.mp hnil] at hargs
    refine ⟨some arg, ?_, .some ha⟩
    rw [hshape, intrinsicShape, hno]
    simp only [hargs]
    rfl

end

/-! ## 2. Shapes of queries -/

section

variable {s : Span} {gs : List Glyph} {gss : List (List Glyph)}

theorem filterShape_text {c : TextCondition} (h : s.Holds c.glyphs) : filterShape s = .text c := by
  have hts : s.lexemes.map Lexeme.token = [.name c.field, .assign, .name c.text] := h
  have hvalue : s.tail.tail.textArg? = some c.text := (Span.Holds.tail (Span.Holds.tail h)).textArg?
  unfold filterShape
  rw [hts]
  simp only [hvalue]

/-- A filter that is not on a text. -/
theorem filterShape_expr {head : Token} (h : s.Holds (filterGlyphs head gs)) (hne : gs ≠ []) :
    (head = .hash → filterShape s = .selector s.tail.tail) ∧
      ∀ name, head = .structName name false → filterShape s = .value name s.tail.tail := by
  obtain ⟨g, gs, rfl⟩ := List.exists_cons_of_ne_nil hne
  have hts : s.lexemes.map Lexeme.token = head :: .assign :: g.token :: tokensOf gs := h
  refine ⟨?_, ?_⟩
  · rintro rfl
    unfold filterShape
    rw [hts]
  · rintro name rfl
    unfold filterShape
    rw [hts]

/-- **The filters of a step.** -/
theorem Span.Holds.filterShapes (h : s.Holds (inBrackets .square (commaJoined gss)))
    (hp : ∀ gs ∈ gss, Phrase 0 gs) (hd : Shallow (inBrackets .square (commaJoined gss))) :
    ∃ parts, ByteAtlas.filterShapes s = .ok (parts.map filterShape) ∧
      List.Forall₂ Span.Holds parts gss := by
  have hn := (Contents.commaJoined hp).nested
  obtain ⟨inner, hinner, hholds⟩ := h.enclosed? hn
  obtain ⟨parts, hparts, hall⟩ := hholds.commaParts hp (hd.inside hn)
  refine ⟨parts, ?_, hall⟩
  have hempty : s.lexemes.isEmpty = false := h.isEmpty_eq_false (List.cons_ne_nil _ _)
  rw [ByteAtlas.filterShapes, if_neg (by rw [hempty]; decide), hinner]
  simp only [hparts, Except.map]

/-- The shape of a query whose last step is known. -/
theorem queryShape_step {parent : Option Span} {step : Span} {head : Token}
    (hne : s.lexemes.isEmpty = false) (hdot : s.atLastDot = .ok (parent, step))
    (h : step.Holds (.plain head :: inBrackets .square (commaJoined gss)))
    (hp : ∀ gs ∈ gss, Phrase 0 gs) (hd : Shallow (inBrackets .square (commaJoined gss))) :
    ∃ parts, List.Forall₂ Span.Holds parts gss ∧
      (∀ field, head = .name field →
        queryShape s = .ok ⟨.sub parent field, parts.map filterShape⟩) ∧
      (∀ name isGlobal, head = .structName name isGlobal → parent = none →
        queryShape s = .ok ⟨.root name isGlobal, parts.map filterShape⟩) := by
  obtain ⟨parts, hparts, hall⟩ := h.tail.filterShapes hp hd
  obtain ⟨l, ls, hl, ht, _⟩ := h.cons
  refine ⟨parts, hall, ?_, ?_⟩
  · rintro field rfl
    rw [queryShape, if_neg (by rw [hne]; decide), hdot]
    simp only [hl, hparts, ht, Glyph.plain]
  · rintro name isGlobal rfl rfl
    rw [queryShape, if_neg (by rw [hne]; decide), hdot]
    simp only [hl, hparts, ht, Glyph.plain]
    rfl

/-- A query of one step. -/
theorem queryShape_first {head : Token} (hhead : head.isNaming = true)
    (h : s.Holds (.plain head :: inBrackets .square (commaJoined gss)))
    (hp : ∀ gs ∈ gss, Phrase 0 gs)
    (hd : Shallow (.plain head :: inBrackets .square (commaJoined gss))) :
    ∃ parts, List.Forall₂ Span.Holds parts gss ∧
      (∀ field, head = .name field →
        queryShape s = .ok ⟨.sub none field, parts.map filterShape⟩) ∧
      (∀ name isGlobal, head = .structName name isGlobal →
        queryShape s = .ok ⟨.root name isGlobal, parts.map filterShape⟩) := by
  have hb : head.isBracket = false := by cases head <;> first | rfl | cases hhead
  have hdot : head ≠ .dot := by
    rintro rfl
    cases hhead
  have hn := (Contents.commaJoined hp).nested
  have hstep := h.atLastDot_none (.plain hb hn.inBrackets) (dotless_step hb hdot hn) hd
  obtain ⟨parts, hall, hsub, hroot⟩ := queryShape_step
    (h.isEmpty_eq_false (List.cons_ne_nil _ _)) hstep h hp (hd.tail hb)
  exact ⟨parts, hall, hsub, fun name isGlobal e => hroot name isGlobal e rfl⟩

/-- **A query of several steps.** -/
theorem queryShape_sub {xs : List Glyph} {name : String}
    (h : s.Holds ((xs ++ [.plain .dot]) ++
      .plain (.name name) :: inBrackets .square (commaJoined gss)))
    (hx : Phrase operandStrength xs) (hp : ∀ gs ∈ gss, Phrase 0 gs)
    (hd : Shallow ((xs ++ [.plain .dot]) ++
      .plain (.name name) :: inBrackets .square (commaJoined gss))) :
    ∃ parent parts, queryShape s = .ok ⟨.sub (some parent) name, parts.map filterShape⟩ ∧
      parent.Holds xs ∧ List.Forall₂ Span.Holds parts gss := by
  have hn := (Contents.commaJoined hp).nested
  have hnx : Nested (tokensOf (xs ++ [.plain .dot])) := by
    rw [tokensOf_append]
    exact hx.nested.append (.single rfl)
  obtain ⟨parent, step, hdot, hparent, hstep⟩ := h.atLastDot_some hx.nested
    (.plain rfl hn.inBrackets) (dotless_step rfl (fun e => by cases e) hn) hd
  have hne : s.lexemes.isEmpty = false := by
    refine h.isEmpty_eq_false fun e => ?_
    exact List.cons_ne_nil _ _ (List.append_eq_nil_iff.mp e).2
  obtain ⟨parts, hall, hsub, _⟩ := queryShape_step hne hdot hstep hp ((hd.right hnx).tail rfl)
  exact ⟨parent, parts, hsub name rfl, hparent, hall⟩

end

/-! ## 3. Steps of the compiler -/

section

variable {s t : Span} {depth : Nat}

theorem compileExpr_constant {n : Int64} (hd : depth ≤ nestingLimit)
    (h : exprShape s = .ok (.constant n)) : compileExpr s depth = ⟨.constant n, []⟩ := by
  rw [compileExpr, if_neg (Nat.not_lt.mpr hd)]
  split <;> rename_i h' <;> rw [h] at h' <;> cases h'
  rfl

theorem compileExpr_enclosed (hd : depth ≤ nestingLimit) (h : exprShape s = .ok (.enclosed t)) :
    compileExpr s depth = compileExpr t (depth + 1) := by
  rw [compileExpr, if_neg (Nat.not_lt.mpr hd)]
  split <;> rename_i h' <;> rw [h] at h' <;> cases h'
  rfl

theorem compileExpr_binary {op : BinaryOp} {left right : Span} {a b : Expr}
    (hd : depth ≤ nestingLimit) (h : exprShape s = .ok (.binary op left right))
    (ha : compileExpr left depth = ⟨a, []⟩) (hb : compileExpr right depth = ⟨b, []⟩) :
    compileExpr s depth = ⟨.binary op a b, []⟩ := by
  rw [compileExpr, if_neg (Nat.not_lt.mpr hd)]
  split <;> rename_i h' <;> rw [h] at h' <;> cases h'
  rw [ha, hb]
  rfl

theorem compileExpr_unary {op : UnaryOp} {a : Expr} (hd : depth ≤ nestingLimit)
    (h : exprShape s = .ok (.unary op t)) (ha : compileExpr t (depth + 1) = ⟨a, []⟩) :
    compileExpr s depth = ⟨.unary op a, []⟩ := by
  rw [compileExpr, if_neg (Nat.not_lt.mpr hd)]
  split <;> rename_i h' <;> rw [h] at h' <;> cases h'
  rw [ha]

theorem compileExpr_rawRead {type : IntType} {a : Expr} (hd : depth ≤ nestingLimit)
    (h : exprShape s = .ok (.rawRead type t)) (ha : compileExpr t (depth + 1) = ⟨a, []⟩) :
    compileExpr s depth = ⟨.rawRead type a, []⟩ := by
  rw [compileExpr, if_neg (Nat.not_lt.mpr hd)]
  split <;> rename_i h' <;> rw [h] at h' <;> cases h'
  rw [ha]

/-- A query that is read back, or none. -/
def QueryCompiles (depth : Nat) (t : Option Span) (q : Option Query) : Prop :=
  Option.Rel (fun t q => compileQuery t depth = ⟨q, []⟩) t q

theorem compileExpr_member {t : Option Span} {q : Option Query} {name : String} {isOffset : Bool}
    (hd : depth ≤ nestingLimit) (h : exprShape s = .ok (.member ⟨t, name, isOffset⟩))
    (hq : QueryCompiles (depth + 1) t q) :
    compileExpr s depth = ⟨.member q name none isOffset, []⟩ := by
  rw [compileExpr, if_neg (Nat.not_lt.mpr hd)]
  split <;> rename_i h' <;> rw [h] at h' <;> cases h'
  cases hq with
  | none => rfl
  | some hq => simp only [hq]

theorem compileExpr_element {t : Option Span} {index : Span} {q : Option Query} {i : Expr}
    {name : String} {isOffset : Bool} (hd : depth ≤ nestingLimit)
    (h : exprShape s = .ok (.element ⟨t, name, isOffset⟩ index))
    (hq : QueryCompiles (depth + 2) t q) (hi : compileExpr index (depth + 1) = ⟨i, []⟩) :
    compileExpr s depth = ⟨.member q name (some i) isOffset, []⟩ := by
  rw [compileExpr, if_neg (Nat.not_lt.mpr hd)]
  split <;> rename_i h' <;> rw [h] at h' <;> cases h'
  cases hq with
  | none => simp only [hi]
  | some hq => simp only [hq, hi, List.append_nil]

theorem compileExpr_structOffset {q : Query} (hd : depth ≤ nestingLimit)
    (h : exprShape s = .ok (.structOffset t)) (hq : compileQuery t (depth + 1) = ⟨q, []⟩) :
    compileExpr s depth = ⟨.structOffset q, []⟩ := by
  rw [compileExpr, if_neg (Nat.not_lt.mpr hd)]
  split <;> rename_i h' <;> rw [h] at h' <;> cases h'
  rw [hq]

theorem compileExpr_previewTest {t : Option Span} {q : Option Query} {name text : String}
    {invert : Bool} (hd : depth ≤ nestingLimit)
    (h : exprShape s = .ok (.previewTest ⟨t, name, false⟩ (.ok text) invert))
    (hq : QueryCompiles (depth + 2) t q) :
    compileExpr s depth = ⟨.previewTest q name text invert, []⟩ := by
  rw [compileExpr, if_neg (Nat.not_lt.mpr hd)]
  split <;> rename_i h' <;> rw [h] at h' <;> cases h'
  cases hq with
  | none => rfl
  | some hq => simp only [hq]

theorem compileExpr_instanceId {t : Option Span} {q : Option Query} (hd : depth ≤ nestingLimit)
    (h : exprShape s = .ok (.instanceId t)) (hq : QueryCompiles (depth + 1) t q) :
    compileExpr s depth = ⟨.instanceId q, []⟩ := by
  cases hq with
  | none =>
    rw [compileExpr, if_neg (Nat.not_lt.mpr hd)]
    split <;> rename_i h' <;> rw [h] at h' <;> cases h'
  | some hq =>
    rw [compileExpr, if_neg (Nat.not_lt.mpr hd)]
    split <;> rename_i h' <;> rw [h] at h' <;> cases h'
    rw [hq]

/-- Filters that are read back, whatever proof of their lengths is at hand. -/
def FiltersCompile (n depth : Nat) (shapes : List FilterShape) (fs : Filters) : Prop :=
  ∀ hn, compileFilters n shapes hn depth = ⟨.ok fs, []⟩

theorem FiltersCompile.nil {n : Nat} : FiltersCompile n depth [] .none := by
  intro hn
  rw [compileFilters]

theorem FiltersCompile.text {n : Nat} {shapes : List FilterShape} {fs : Filters}
    (c : TextCondition) (h : FiltersCompile n depth shapes fs) :
    FiltersCompile n depth (.text c :: shapes) (.mk (c :: fs.texts) fs.values fs.selector) := by
  intro hn
  rw [compileFilters]
  simp only [h _, Except.map]

theorem FiltersCompile.value {n : Nat} {shapes : List FilterShape} {fs : Filters} {name : String}
    {e : Expr} (he : compileExpr t (depth + 1) = ⟨e, []⟩) (h : FiltersCompile n depth shapes fs) :
    FiltersCompile n depth (.value name t :: shapes)
      (.mk fs.texts ((name, e) :: fs.values) fs.selector) := by
  intro hn
  rw [compileFilters]
  simp only [he, h _, Except.map, List.append_nil]

theorem FiltersCompile.selector {n : Nat} {e : Expr} (he : compileExpr t (depth + 1) = ⟨e, []⟩) :
    FiltersCompile n depth [.selector t] (.mk [] [] (some e)) := by
  intro hn
  rw [compileFilters]
  simp only [he, FiltersCompile.nil _, Except.map, List.append_nil]
  rfl

/-- **A query whose filters are read back** is its head with these filters. -/
theorem compileQuery_of_filters {q : QueryShape} {fs : Filters} (hd : depth ≤ nestingLimit)
    (h : queryShape s = .ok q) (hfs : FiltersCompile s.length depth q.filters fs) :
    compileQuery s depth =
      match q.head with
      | .root name isGlobal => ⟨.root name isGlobal fs, []⟩
      | .bad d => ⟨.error, [d]⟩
      | .sub none field => ⟨.sub none field fs, []⟩
      | .sub (some parent) field =>
        let p := compileQuery parent (depth + 1)
        ⟨.sub (some p.tree) field fs, p.diagnostics⟩ := by
  rw [compileQuery, if_neg (Nat.not_lt.mpr hd)]
  split <;> rename_i h' <;> rw [h] at h' <;> cases h'
  simp only [hfs _, List.nil_append]
  obtain ⟨head, filters⟩ := q
  cases head with
  | root name isGlobal => rfl
  | bad d => rfl
  | sub parent field => cases parent <;> rfl

end

/-! ## 4. Trees are read back -/

section

variable {gs : List Glyph} {s : Span} {depth : Nat}

/-- Whether an expression is read back from every span that holds its tokens, on every level that
leaves room for its parts. -/
def Expr.ReadsBack (e : Expr) : Prop :=
  ∀ (s : Span) (depth : Nat), s.Holds e.glyphs → Shallow e.glyphs →
    depth + e.levels ≤ nestingLimit → compileExpr s depth = ⟨e, []⟩

/-- Whether a query is read back. -/
def Query.ReadsBack (q : Query) : Prop :=
  ∀ (s : Span) (depth : Nat), s.Holds q.glyphs → Shallow q.glyphs →
    depth + q.levels ≤ nestingLimit → compileQuery s depth = ⟨q, []⟩

/-- A part in brackets is read one level deeper. -/
theorem Expr.ReadsBack.groupIf {e : Expr} {needed : Bool} (he : e.ReadsBack)
    (hw : e.isWritable = true) (h : s.Holds (groupIf needed e.glyphs))
    (hs : Shallow (ByteAtlas.groupIf needed e.glyphs))
    (hl : depth + groupLevels needed e.levels ≤ nestingLimit) :
    compileExpr s depth = ⟨e, []⟩ := by
  cases needed with
  | false => exact he s depth h hs hl
  | true =>
    have hn := (e.phrase hw).nested
    obtain ⟨inner, hshape, hinner⟩ := exprShape_brackets h hn
    have hl' : depth + (e.levels + 1) ≤ nestingLimit := hl
    rw [compileExpr_enclosed (by omega) hshape]
    exact he inner (depth + 1) hinner (hs.inside hn) (by omega)

theorem Shallow.of_mem_commaJoined : ∀ {gss : List (List Glyph)}, Shallow (commaJoined gss) →
    (∀ gs ∈ gss, Phrase 0 gs) → ∀ gs ∈ gss, Shallow gs
  | [], _, _, _, hgs => nomatch hgs
  | [_], h, _, _, hgs => by
    rw [List.mem_singleton.mp hgs]
    exact h
  | x :: y :: gss, h, hp, gs, hgs => by
    have hx := (hp x List.mem_cons_self).nested
    have hmore : Shallow (commaJoined (y :: gss)) := Shallow.tail rfl (Shallow.right hx h)
    rcases List.mem_cons.mp hgs with rfl | hgs
    · exact Shallow.left hx h
    · exact hmore.of_mem_commaJoined (fun z hz => hp z (List.mem_cons_of_mem _ hz)) gs hgs

/-- The query in front of a member, within the same limits. -/
theorem Shallow.steps {isOffset : Bool} {name : String} {q : Query}
    (hq : Phrase operandStrength q.glyphs)
    (h : Shallow (memberGlyphs isOffset (stepsBefore (some q)) name)) : Shallow q.glyphs := by
  have h' : Shallow (stepsBefore (some q) ++ [.plain (.name name)]) := by
    cases isOffset with
    | false => exact h
    | true => exact Shallow.tail rfl h
  have hn : Nested (tokensOf (stepsBefore (some q))) := by
    unfold stepsBefore
    rw [tokensOf_append]
    exact hq.nested.append (.single rfl)
  exact Shallow.left hq.nested (Shallow.left hn h')

theorem forall₂_append_right {α β : Type} {R : α → β → Prop} {l : List α} {xs ys : List β}
    (h : List.Forall₂ R l (xs ++ ys)) :
    ∃ l₁ l₂, l = l₁ ++ l₂ ∧ List.Forall₂ R l₁ xs ∧ List.Forall₂ R l₂ ys :=
  ⟨l.take xs.length, l.drop xs.length, (List.take_append_drop _ _).symm,
    List.forall₂_take_append l xs ys h, List.forall₂_drop_append l xs ys h⟩

/-- The query in front of a member is read back. -/
theorem HoldsQuery.compiles {t : Option Span} {q : Option Query} (h : HoldsQuery t q)
    (hq : ∀ x, q = some x → ∀ s : Span, s.Holds x.glyphs → compileQuery s depth = ⟨x, []⟩) :
    QueryCompiles depth t q := by
  cases h with
  | none => exact .none
  | some h => exact .some (hq _ rfl _ h)

theorem Expr.glyphs_member (q : Option Query) (name : String) (isOffset : Bool) :
    (Expr.member q name none isOffset).glyphs = memberGlyphs isOffset (stepsBefore q) name := by
  cases q <;> rfl

theorem Expr.glyphs_element (q : Option Query) (name : String) (e : Expr) (isOffset : Bool) :
    (Expr.member q name (some e) isOffset).glyphs =
      callGlyphs "arr" (commaJoined [memberGlyphs isOffset (stepsBefore q) name, e.glyphs]) := by
  cases q <;> rfl

theorem Expr.glyphs_previewTest (q : Option Query) (name text : String) (invert : Bool) :
    (Expr.previewTest q name text invert).glyphs =
      callGlyphs (previewTestName invert)
        (commaJoined [memberGlyphs false (stepsBefore q) name, [.plain (.name text)]]) := by
  cases q <;> rfl

theorem Expr.glyphs_instanceId (q : Option Query) :
    (Expr.instanceId q).glyphs = callGlyphs "iid" (commaJoined (q.map Query.glyphs).toList) := by
  cases q <;> rfl

theorem Expr.levels_index_le (q : Option Query) (name : String) (e : Expr) (isOffset : Bool) :
    e.levels + 1 ≤ (Expr.member q name (some e) isOffset).levels := by
  cases q <;> exact Nat.le_max_left _ _

theorem Filters.levels_values_le (texts : List TextCondition) (values : List (String × Expr))
    (selector : Option Expr) : valuesLevels values ≤ (Filters.mk texts values selector).levels := by
  cases selector <;> exact Nat.le_max_left _ _

/-- The arguments of an intrinsic are within the limits. -/
theorem Shallow.args {name : String} {gss : List (List Glyph)}
    (h : Shallow (callGlyphs name (commaJoined gss))) (hp : ∀ gs ∈ gss, Phrase 0 gs) :
    ∀ gs ∈ gss, Shallow gs := by
  have hin : Shallow (inBrackets .round (commaJoined gss)) := Shallow.tail rfl (Shallow.tail rfl h)
  exact (hin.inside (Contents.commaJoined hp).nested).of_mem_commaJoined hp

/-- Conditions on texts are read back. -/
theorem FiltersCompile.texts {n : Nat} {shapes : List FilterShape} {fs : Filters}
    (h : FiltersCompile n depth shapes fs) :
    ∀ {cs : List TextCondition} {parts : List Span},
      List.Forall₂ Span.Holds parts (cs.map TextCondition.glyphs) →
      FiltersCompile n depth (parts.map filterShape ++ shapes)
        (.mk (cs ++ fs.texts) fs.values fs.selector)
  | [], parts, hall => by
    rw [List.forall₂_nil_right_iff.mp hall]
    cases fs
    exact h
  | c :: cs, parts, hall => by
    obtain ⟨part, parts, hpart, hrest, rfl⟩ := List.forall₂_cons_right_iff.mp hall
    rw [List.map_cons, List.cons_append, filterShape_text hpart]
    exact .text c (h.texts hrest)

end

mutual

/-- **Every writable expression is read back.** -/
theorem Expr.readsBack : ∀ e : Expr, e.isWritable = true → e.ReadsBack
  | .constant n, _ => fun s depth h _ hl =>
    compileExpr_constant (by omega) (exprShape_int h)
  | .unary op a, hw => by
    have ha := Expr.readsBack a hw
    have hp := Expr.phrase (.unary op a) hw
    intro s depth h hs hl
    have hl' : depth + (groupLevels (a.strength < operandStrength) a.levels + 1) ≤ nestingLimit := hl
    refine compileExpr_unary (by omega) (exprShape_unary h hp hs) ?_
    exact ha.groupIf hw h.tail (hs.tail (by cases op <;> rfl)) (by omega)
  | .binary op a b, hw => by
    simp only [Expr.isWritable, Bool.and_eq_true] at hw
    have ha := Expr.readsBack a hw.1
    have hb := Expr.readsBack b hw.2
    have hpa : Phrase op.score (groupIf (a.strength < op.score) a.glyphs) :=
      (a.phrase hw.1).groupIf fun hn => Nat.not_lt.mp (of_decide_eq_false hn)
    have hpb : Phrase (op.score + 1) (groupIf (b.strength ≤ op.score) b.glyphs) :=
      (b.phrase hw.2).groupIf fun hn => Nat.not_le.mp (of_decide_eq_false hn)
    intro s depth h hs hl
    have hl' : depth + max (groupLevels (a.strength < op.score) a.levels)
        (groupLevels (b.strength ≤ op.score) b.levels) ≤ nestingLimit := hl
    obtain ⟨left, right, hshape, hleft, hright⟩ := exprShape_binary h hpa hpb hs
    have hsa := Shallow.left hpa.nested hs
    have hsb := (Shallow.right hpa.nested hs).tail rfl
    exact compileExpr_binary (by omega) hshape (ha.groupIf hw.1 hleft hsa (by omega))
      (hb.groupIf hw.2 hright hsb (by omega))
  | .rawRead t a, hw => by
    have ha := Expr.readsBack a hw
    have hp := Expr.phrase (.rawRead t a) hw
    intro s depth h hs hl
    have hl' : depth + (groupLevels (a.strength < operandStrength) a.levels + 1) ≤ nestingLimit := hl
    refine compileExpr_rawRead (by omega) (exprShape_rawRead h hp hs) ?_
    exact ha.groupIf hw h.tail.tail ((hs.tail rfl).tail rfl) (by omega)
  | .member q name none isOffset, hw => by
    obtain ⟨_, hwq, _⟩ := Expr.isWritable_member hw
    have hp := Expr.phrase (.member q name none isOffset) hw
    intro s depth h hs hl
    rw [Expr.glyphs_member] at h hs hp
    obtain ⟨t, hshape, hquery⟩ := exprShape_member h hwq hp hs
    refine compileExpr_member (by omega) hshape (hquery.compiles ?_)
    cases q with
    | none => exact fun _ e => nomatch e
    | some q =>
      rintro _ ⟨⟩ t ht
      have hl' : depth + (q.levels + 1) ≤ nestingLimit := hl
      have hsq := hs.steps (q.phrase (hwq q rfl))
      exact Query.readsBack q (hwq q rfl) t (depth + 1) ht hsq (by omega)
  | .member q name (some e) isOffset, hw => by
    obtain ⟨_, hwq, hwe⟩ := Expr.isWritable_member hw
    have hpe : Phrase 0 e.glyphs := (e.phrase (hwe e rfl)).mono (Nat.zero_le _)
    have hpf : Phrase 0 (memberGlyphs isOffset (stepsBefore q) name) :=
      .field q name isOffset fun x hx => (x.phrase (hwq x hx)).mono (Nat.zero_le _)
    intro s depth h hs hl
    rw [Expr.glyphs_element] at h hs
    obtain ⟨t, index, hshape, hquery, hindex⟩ := exprShape_element h hwq hpf hpe hs
    have hargs := hs.args (by simp [hpe, hpf])
    have hle : depth + (e.levels + 1) ≤ nestingLimit :=
      Nat.le_trans (Nat.add_le_add_left (Expr.levels_index_le q name e isOffset) depth) hl
    have hi := Expr.readsBack e (hwe e rfl) index (depth + 1) hindex
      (hargs _ (List.mem_cons_of_mem _ List.mem_cons_self)) (by omega)
    refine compileExpr_element (by omega) hshape (hquery.compiles ?_) hi
    cases q with
    | none => exact fun _ e => nomatch e
    | some q =>
      rintro _ ⟨⟩ t ht
      have hl' : depth + max (e.levels + 1) (q.levels + 2) ≤ nestingLimit := hl
      have hsq := (hargs _ List.mem_cons_self).steps (q.phrase (hwq q rfl))
      exact Query.readsBack q (hwq q rfl) t (depth + 2) ht hsq (by omega)
  | .structOffset q, hw => by
    have hq := Query.readsBack q hw
    have hp := Expr.phrase (.structOffset q) hw
    intro s depth h hs hl
    have hl' : depth + (q.levels + 1) ≤ nestingLimit := hl
    refine compileExpr_structOffset (by omega) (exprShape_structOffset hw h hp hs) ?_
    exact hq s.tail (depth + 1) h.tail (hs.tail rfl) (by omega)
  | .previewTest q name text invert, hw => by
    obtain ⟨_, _, hwq⟩ := Expr.isWritable_previewTest hw
    have hpf : Phrase 0 (memberGlyphs false (stepsBefore q) name) :=
      .field q name false fun x hx => (x.phrase (hwq x hx)).mono (Nat.zero_le _)
    intro s depth h hs hl
    rw [Expr.glyphs_previewTest] at h hs
    obtain ⟨t, hshape, hquery⟩ := exprShape_previewTest h hwq hpf hs
    have hargs := hs.args (by simp [hpf, Phrase.name])
    refine compileExpr_previewTest (by omega) hshape (hquery.compiles ?_)
    cases q with
    | none => exact fun _ e => nomatch e
    | some q =>
      rintro _ ⟨⟩ t ht
      have hl' : depth + (q.levels + 2) ≤ nestingLimit := hl
      have hsq := (hargs _ List.mem_cons_self).steps (q.phrase (hwq q rfl))
      exact Query.readsBack q (hwq q rfl) t (depth + 2) ht hsq (by omega)
  | .instanceId q, hw => by
    have hwq := Expr.isWritable_instanceId hw
    intro s depth h hs hl
    rw [Expr.glyphs_instanceId] at h hs
    obtain ⟨t, hshape, hquery⟩ := exprShape_instanceId h (fun x hx => x.phrase (hwq x hx)) hs
    refine compileExpr_instanceId (by omega) hshape (hquery.compiles ?_)
    cases q with
    | none => exact fun _ e => nomatch e
    | some q =>
      rintro _ ⟨⟩ t ht
      have hl' : depth + (q.levels + 1) ≤ nestingLimit := hl
      have hp : ∀ gs ∈ [q.glyphs], Phrase 0 gs := by
        simpa using (q.phrase (hwq q rfl)).mono (Nat.zero_le _)
      have hsq : Shallow q.glyphs := hs.args hp _ List.mem_cons_self
      exact Query.readsBack q (hwq q rfl) t (depth + 1) ht hsq (by omega)

/-- Every writable query is read back. -/
theorem Query.readsBack : ∀ q : Query, q.isWritable = true → q.ReadsBack
  | .root name isGlobal fs, hw => by
    obtain ⟨_, _, hwfs⟩ := Query.isWritable_root hw
    have hp := fs.phrases hwfs
    intro s depth h hs hl
    have hl' : depth + fs.levels ≤ nestingLimit := hl
    have hsf := ((hs.tail rfl).inside (Contents.commaJoined hp).nested).of_mem_commaJoined hp
    obtain ⟨parts, hall, _, hroot⟩ := queryShape_first rfl h hp hs
    have hfs := Filters.readsBack fs hwfs parts s.length depth hall hsf hl'
    rw [compileQuery_of_filters (by omega) (hroot name isGlobal rfl) hfs]
  | .sub none name fs, hw => by
    obtain ⟨_, _, hwfs⟩ := Query.isWritable_sub hw
    have hp := fs.phrases hwfs
    intro s depth h hs hl
    have hl' : depth + fs.levels ≤ nestingLimit := Nat.le_trans
      (Nat.add_le_add_left (Nat.le_max_left _ _) depth) hl
    have hsf := ((hs.tail rfl).inside (Contents.commaJoined hp).nested).of_mem_commaJoined hp
    obtain ⟨parts, hall, hsub, _⟩ := queryShape_first rfl h hp hs
    have hfs := Filters.readsBack fs hwfs parts s.length depth hall hsf hl'
    rw [compileQuery_of_filters (by omega) (hsub name rfl) hfs]
  | .sub (some p) name fs, hw => by
    obtain ⟨hwp, _, hwfs⟩ := Query.isWritable_sub hw
    have hp := fs.phrases hwfs
    have hpp := p.phrase (hwp p rfl)
    intro s depth h hs hl
    have hl' : depth + max fs.levels (p.levels + 1) ≤ nestingLimit := hl
    have hnp : Nested (tokensOf (p.glyphs ++ [.plain .dot])) := by
      rw [tokensOf_append]
      exact hpp.nested.append (.single rfl)
    have hsp : Shallow p.glyphs := Shallow.left hpp.nested (Shallow.left hnp hs)
    have hsf := (((Shallow.right hnp hs).tail rfl).inside
      (Contents.commaJoined hp).nested).of_mem_commaJoined hp
    obtain ⟨parent, parts, hshape, hparent, hall⟩ := queryShape_sub h hpp hp hs
    have hfs := Filters.readsBack fs hwfs parts s.length depth hall hsf (by omega)
    rw [compileQuery_of_filters (by omega) hshape hfs]
    simp only [Query.readsBack p (hwp p rfl) parent (depth + 1) hparent hsp (by omega)]

/-- Writable filters are read back, together with those behind them. -/
theorem Filters.readsBack : ∀ fs : Filters, fs.isWritable = true →
    ∀ (parts : List Span) (n depth : Nat), List.Forall₂ Span.Holds parts fs.glyphs →
      (∀ gs ∈ fs.glyphs, Shallow gs) → depth + fs.levels ≤ nestingLimit →
      FiltersCompile n depth (parts.map filterShape) fs
  | .mk texts values selector, hw, parts, n, depth, hall, hs, hl => by
    obtain ⟨_, hwv, hwe⟩ := Filters.isWritable_mk hw
    have hvs := valuesReadBack values hwv
    unfold Filters.glyphs at hall hs
    obtain ⟨before, last, rfl, hbefore, hlast⟩ := forall₂_append_right hall
    obtain ⟨cs, vs, rfl, hcs, hvalues⟩ := forall₂_append_right hbefore
    have hsv : ∀ gs ∈ valuesGlyphs values, Shallow gs := fun gs hgs =>
      hs gs (List.mem_append_left _ (List.mem_append_right _ hgs))
    have hlv : depth + valuesLevels values ≤ nestingLimit :=
      Nat.le_trans (Nat.add_le_add_left (Filters.levels_values_le texts values selector) depth) hl
    rw [List.map_append, List.map_append, List.append_assoc]
    cases selector with
    | none =>
      rw [List.forall₂_nil_right_iff.mp hlast]
      have h := (hvs vs n depth hvalues hsv hlv FiltersCompile.nil).texts hcs
      simpa [Filters.none, Filters.texts, Filters.values, Filters.selector] using h
    | some e =>
      obtain ⟨part, rest, hpart, hnil, rfl⟩ := List.forall₂_cons_right_iff.mp hlast
      rw [List.forall₂_nil_right_iff.mp hnil, List.map_singleton]
      have hle : depth + max (valuesLevels values) (e.levels + 1) ≤ nestingLimit := hl
      have hse : Shallow (filterGlyphs .hash e.glyphs) :=
        hs _ (List.mem_append_right _ (List.mem_singleton.mpr rfl))
      have he := Expr.readsBack e (hwe e rfl) _ (depth + 1) hpart.tail.tail
        ((hse.tail rfl).tail rfl) (by omega)
      rw [(filterShape_expr hpart (e.phrase (hwe e rfl)).nonempty).1 rfl]
      have h := (hvs vs n depth hvalues hsv hlv (.selector he)).texts hcs
      simpa [Filters.texts, Filters.values, Filters.selector] using h

/-- Writable filters on values are read back. -/
theorem valuesReadBack : ∀ vs : List (String × Expr), valuesWritable vs = true →
    ∀ (parts : List Span) (n depth : Nat), List.Forall₂ Span.Holds parts (valuesGlyphs vs) →
      (∀ gs ∈ valuesGlyphs vs, Shallow gs) → depth + valuesLevels vs ≤ nestingLimit →
      ∀ {shapes : List FilterShape} {fs : Filters}, FiltersCompile n depth shapes fs →
        FiltersCompile n depth (parts.map filterShape ++ shapes)
          (.mk fs.texts (vs ++ fs.values) fs.selector)
  | [], _, parts, n, depth, hall, _, _, shapes, fs, h => by
    rw [List.forall₂_nil_right_iff.mp hall]
    cases fs
    exact h
  | (name, e) :: vs, hw, parts, n, depth, hall, hs, hl, shapes, fs, h => by
    obtain ⟨_, _, hwe, hwvs⟩ := valuesWritable_cons hw
    have he := Expr.readsBack e hwe
    have hvs := valuesReadBack vs hwvs
    have hl' : depth + max (e.levels + 1) (valuesLevels vs) ≤ nestingLimit := hl
    obtain ⟨part, parts, hpart, hrest, rfl⟩ := List.forall₂_cons_right_iff.mp hall
    have hshape := (filterShape_expr hpart (e.phrase hwe).nonempty).2 name rfl
    rw [List.map_cons, List.cons_append, hshape]
    refine .value ?_ (hvs parts n depth hrest ?_ (by omega) h)
    · exact he _ _ hpart.tail.tail (((hs _ List.mem_cons_self).tail rfl).tail rfl) (by omega)
    · exact fun gs hgs => hs gs (List.mem_cons_of_mem _ hgs)

end

/-! ## 5. Texts are read back -/

/-- The operators of a text, counted over its tokens. -/
theorem count_binaryMarks {s : Span} {gs : List Glyph} {k : Nat} (h : s.Holds gs) (hp : Phrase k gs) :
    ((s.lexemes.zip (binaryMarks none none s.lexemes)).filter fun l => l.2.isSome).length =
      operatorCount gs := by
  have hmarks : binaryMarks none none s.lexemes = gs.map Glyph.op := by
    rw [binaryMarks_eq, h, hp.operators]
  rw [length_filter_operators, operatorsAmong, hmarks, List.countP_map, operatorCount,
    List.length_filterMap_eq_countP]
  rfl

/-- **Compiling undoes rendering.** The text of a tree that can be written and keeps within the
limits compiles to that tree, without any diagnostic. -/
theorem Expr.compile_render (e : Expr) (hw : e.isWritable = true) (hl : e.WithinLimits) :
    Expr.compile e.render = ⟨e, []⟩ := by
  have hspell : Spells e.render.toList (tokensOf e.glyphs) := by
    have h := Expr.spells_render e hw [] [] rfl spells_nil
    rwa [List.append_nil, List.append_nil] at h
  obtain ⟨ls, hls, ht⟩ := hspell.tokenize
  have hs : (⟨ls, e.render.utf8ByteSize⟩ : Span).Holds e.glyphs := ht
  have hcount := count_binaryMarks hs (e.phrase hw)
  have hpast : operatorPastLimit? ls = none := by
    unfold operatorPastLimit?
    rw [List.getElem?_eq_none, Option.map_none]
    rw [hcount, e.operatorCount_glyphs]
    exact hl.binaries
  unfold Expr.compile
  rw [hls]
  show compileTokens ⟨ls, e.render.utf8ByteSize⟩ = _
  unfold compileTokens
  rw [hpast]
  refine e.readsBack hw _ 0 hs hl.brackets ?_
  rw [Nat.zero_add]
  exact hl.levels

/-- A tree with an operator that needs brackets on either side, a sign in front of an operation, all
intrinsics, a chain of steps and all kinds of filter. -/
def Expr.sample : Expr :=
  let filters : Filters :=
    .mk [⟨"kind", "a, b] = (c"⟩] [("len", .binary .sub (.constant 7) (.constant (-1)))]
      (some (.rawRead .u16 (.binary .shl (.member none "at" none true) (.constant 2))))
  let chain : Query := .sub (some (.sub (some (.root "Node" true filters)) "kids" .none)) "" filters
  .binary .sub
    (.unary .negate (.binary .mul (.binary .add (.constant 1) (.unary .invert (.constant 2)))
      (.binary .mul (.structOffset chain) (.instanceId none))))
    (.binary .sub
      (.member (some chain) "v" (some (.previewTest (some chain) "p" "1 = 1" true)) false)
      (.instanceId (some (.sub none "self" .none))))

theorem Expr.compile_render_sample : Expr.compile Expr.sample.render = ⟨Expr.sample, []⟩ :=
  Expr.compile_render Expr.sample (by decide) ⟨by decide, by decide, by decide⟩

end ByteAtlas
