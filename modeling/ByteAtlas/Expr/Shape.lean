import ByteAtlas.Expr.Span
import ByteAtlas.Expr.Syntax

/-!
# The shape of an expression

What kind of expression or query a span is, and which spans its parts are, is found without reading
the parts: `exprShape` and `queryShape`.

* A span is cut at its weakest operator outside brackets, the last of equally weak ones
  (`Span.atWeakest`). So operators associate to the left.
* What no operator cuts is an operand: a literal, brackets, a sign, an intrinsic, a member or the
  offset of a struct.
* A query is a chain of steps; its shape is that of the last one, and what stands before the last
  dot is its parent.

Every part is shorter than the whole (`exprShape_parts`, `queryShape_parts`).
-/

namespace ByteAtlas

/-! ## 1. The weakest operator -/

/-- The tokens of a span, each with the operator it is, if that cuts the span. -/
def Span.cuts (s : Span) : Except Diagnostic (List (Lexeme × Option BinaryOp)) :=
  (outsideBrackets [] s.lexemes).map fun outside =>
    s.lexemes.zip (List.zipWith (fun o op => if o then op else none) outside
      (binaryMarks none none s.lexemes))

/-- The least score among some operators. -/
def leastScore (cuts : List (Lexeme × Option BinaryOp)) : Option Nat :=
  (cuts.filterMap fun c => c.2.map BinaryOp.score).min?

/-- A span around an operator. -/
structure BinarySplit where
  op : BinaryOp
  left : Span
  right : Span
  deriving DecidableEq, Repr

/-- **A span around the last of its weakest operators.** -/
def Span.atWeakest (s : Span) : Except Diagnostic (Option BinarySplit) :=
  s.cuts.map fun cuts =>
    match splitLast (fun c => c.2.isSome && c.2.map BinaryOp.score == leastScore cuts) cuts with
    | some (before, (l, some op), after) =>
      some ⟨op, ⟨before.map Prod.fst, l.pos⟩, ⟨after.map Prod.fst, s.stop⟩⟩
    | _ => none

/-! ## 2. Fields, arguments and texts -/

/-- A member as written: an offset mark, the query before the last dot, the name. -/
structure FieldRef where
  query : Option Span
  name : String
  isOffset : Bool
  deriving DecidableEq, Repr

/-- The member that a span names. -/
def Span.fieldRef (s : Span) : Except Diagnostic FieldRef :=
  match s.last?.map Lexeme.token with
  | some (.name name) =>
    let isOffset := s.first? = some .at
    let before := (if isOffset then s.tail else s).dropLast
    match before.last? with
    | none => .ok ⟨none, name, isOffset⟩
    | some l =>
      if l.token = .dot then .ok ⟨some before.dropLast, name, isOffset⟩
      else .error ⟨l.pos, .badQuery .noDotBeforeField⟩
  | _ => .error ⟨s.pos, .cannotParse⟩

/-- The arguments between round brackets. -/
def Span.callArgs? (s : Span) : Option (List Span) :=
  match s.enclosed? .round with
  | some inner => inner.commaParts.toOption
  | none => none

/-- A name, or an integer with or without a sign, as text. -/
def Span.textArg? (s : Span) : Option String :=
  match s.lexemes.map Lexeme.token with
  | [.name text] => some text
  | [.int n] => some (toString n.toInt)
  | [.operator .sub, .int n] => some (toString (-n).toInt)
  | _ => none

/-! ## 3. Expressions -/

/-- What kind of expression a span is, with its parts. -/
inductive ExprShape where
  | constant (value : Int64)
  | enclosed (inner : Span)
  | binary (op : BinaryOp) (left right : Span)
  | unary (op : UnaryOp) (operand : Span)
  | rawRead (type : IntType) (offset : Span)
  | member (ref : FieldRef)
  | element (ref : FieldRef) (index : Span)
  | structOffset (query : Span)
  /-- The text is looked at after the query, so that faults are found in the order written. -/
  | previewTest (ref : FieldRef) (text : Except Diagnostic String) (invert : Bool)
  | instanceId (query : Option Span)

/-- The parts of an expression. -/
def ExprShape.parts : ExprShape → List Span
  | constant _ => []
  | enclosed s => [s]
  | binary _ l r => [l, r]
  | unary _ s => [s]
  | rawRead _ s => [s]
  | member ref => ref.query.toList
  | element ref s => s :: ref.query.toList
  | structOffset s => [s]
  | previewTest ref _ _ => ref.query.toList
  | instanceId q => q.toList

/-- The intrinsic of a name, with what follows the name. -/
def intrinsicShape (pos : Nat) (name : String) (rest : Span) : Except Diagnostic ExprShape :=
  let badArgs : Diagnostic := ⟨pos, .badIntrinsicArgs name⟩
  match IntType.ofName? name with
  | some t => .ok (.rawRead t rest)
  | none =>
    if name = "fpeqs" ∨ name = "fpnes" then
      match rest.callArgs? with
      | some [field, text] =>
        if field.first? = some .at then .error badArgs
        else
          match field.fieldRef with
          | .error d => .error d
          | .ok ref =>
            .ok (.previewTest ref
              (match text.textArg? with
                | some t => .ok t
                | none => .error badArgs)
              (name = "fpnes"))
      | _ => .error badArgs
    else if name = "arr" then
      match rest.callArgs? with
      | some [field, index] =>
        match field.fieldRef with
        | .error d => .error d
        | .ok ref => .ok (.element ref index)
      | _ => .error badArgs
    else if name = "iid" then
      match rest.callArgs? with
      | some [] => .ok (.instanceId none)
      | some [query] => .ok (.instanceId (some query))
      | _ => .error badArgs
    else .error ⟨pos, .unknownIntrinsic name⟩

/-- The shape of a span that no operator cuts. -/
def operandShape (s : Span) : Except Diagnostic ExprShape :=
  match s.lexemes.map Lexeme.token with
  | .operator .sub :: _ => .ok (.unary .negate s.tail)
  | .tilde :: _ => .ok (.unary .invert s.tail)
  | .dollar :: .name name :: _ => intrinsicShape s.pos name s.tail.tail
  | .dollar :: _ => .error ⟨s.pos, .cannotParse⟩
  | ts =>
    match ts.getLast? with
    | some (.name _) => s.fieldRef.map ExprShape.member
    | _ =>
      if s.first? = some .at then .ok (.structOffset s.tail) else .error ⟨s.pos, .cannotParse⟩

/-- **The shape of an expression.** -/
def exprShape (s : Span) : Except Diagnostic ExprShape :=
  match s.lexemes.map Lexeme.token with
  | [] => .error ⟨s.pos, .emptyExpr⟩
  | [.int n] => .ok (.constant n)
  | _ =>
    match s.enclosed? .round with
    | some inner => .ok (.enclosed inner)
    | none =>
      match s.atWeakest with
      | .error d => .error d
      | .ok (some b) => .ok (.binary b.op b.left b.right)
      | .ok none => operandShape s

/-! ## 4. Queries -/

/-- What one filter is. -/
inductive FilterShape where
  | text (condition : TextCondition)
  | value (name : String) (expr : Span)
  | selector (expr : Span)
  | bad (diagnostic : Diagnostic)

/-- The expression of a filter. -/
def FilterShape.parts : FilterShape → List Span
  | text _ => []
  | value _ s => [s]
  | selector s => [s]
  | bad _ => []

/-- The shape of one filter: what stands before the equals sign decides. -/
def filterShape (s : Span) : FilterShape :=
  let bad : FilterShape := .bad ⟨s.pos, .badFilter⟩
  match s.lexemes.map Lexeme.token with
  | head :: .assign :: _ :: _ =>
    let value := s.tail.tail
    match head with
    | .hash => .selector value
    | .structName name false => .value name value
    | .name field =>
      match value.textArg? with
      | some text => .text ⟨field, text⟩
      | none => bad
    | _ => bad
  | _ => bad

/-- What the step of a query starts from. -/
inductive QueryHead where
  | root (struct : String) (isGlobal : Bool)
  | sub (parent : Option Span) (field : String)
  /-- A head that is no name, or a struct's name in the middle of a chain. The filters are looked
      at first. -/
  | bad (diagnostic : Diagnostic)

/-- The last step of a query. -/
structure QueryShape where
  head : QueryHead
  filters : List FilterShape

/-- The span of the parent. -/
def QueryHead.parts : QueryHead → List Span
  | root _ _ => []
  | sub p _ => p.toList
  | bad _ => []

/-- The parts of a query. -/
def QueryShape.parts (q : QueryShape) : List Span :=
  q.head.parts ++ q.filters.flatMap FilterShape.parts

/-- A span around its last dot outside brackets: what stands before, if there is a dot, and the
    step after it. -/
def Span.atLastDot (s : Span) : Except Diagnostic (Option Span × Span) :=
  s.marked.map fun ls =>
    match splitLast (fun l => l.2 && l.1.token = .dot) ls with
    | some (before, dot, after) =>
      (some ⟨before.map Prod.fst, dot.1.pos⟩, ⟨after.map Prod.fst, s.stop⟩)
    | none => (none, s)

/-- The filters after the head of a step. -/
def filterShapes (s : Span) : Except Diagnostic (List FilterShape) :=
  if s.lexemes.isEmpty then .ok []
  else
    match s.enclosed? .square with
    | none => .error ⟨s.pos, .badQuery .noBracketedFilters⟩
    | some inner => inner.commaParts.map (List.map filterShape)

/-- **The shape of a query.** -/
def queryShape (s : Span) : Except Diagnostic QueryShape :=
  if s.lexemes.isEmpty then .error ⟨s.pos, .badQuery .emptyQuery⟩
  else
    match s.atLastDot with
    | .error d => .error d
    | .ok (parent, step) =>
      match step.lexemes with
      | [] => .error ⟨step.pos, .badQuery .noNameAfterDot⟩
      | l :: _ =>
        match filterShapes step.tail with
        | .error d => .error d
        | .ok filters =>
          match l.token with
          | .name field => .ok ⟨.sub parent field, filters⟩
          | .structName name isGlobal =>
            if parent.isSome then .ok ⟨.bad ⟨l.pos, .badQuery .lateStructName⟩, filters⟩
            else .ok ⟨.root name isGlobal, filters⟩
          | _ => .ok ⟨.bad ⟨l.pos, .badQuery .noFieldOrStructName⟩, filters⟩

/-! ## 5. Parts are shorter -/

namespace Span

theorem length_tail_le (s : Span) : s.tail.length ≤ s.length := by
  simp [tail, length]

theorem length_dropLast_le (s : Span) : s.dropLast.length ≤ s.length := by
  simp [dropLast, length]

theorem length_tail_lt {s : Span} (h : s.lexemes ≠ []) : s.tail.length < s.length := by
  have := List.length_pos_iff.mpr h
  simp only [tail, length, List.length_tail]
  omega

theorem enclosed?_length_lt {s inner : Span} {b : Bracket} (h : s.enclosed? b = some inner) :
    inner.length < s.length := by
  unfold enclosed? at h
  split at h
  · rename_i hs
    cases h
    have hne : s.lexemes ≠ [] := by
      intro e
      simp [first?, e] at hs
    exact Nat.lt_of_le_of_lt (length_dropLast_le _) (length_tail_lt hne)
  · cases h

theorem marked_length {s : Span} {ls : List (Lexeme × Bool)} (h : s.marked = .ok ls) :
    ls.length ≤ s.length := by
  obtain ⟨outside, -, rfl⟩ := exists_of_map_eq_ok h
  simp only [List.length_zip, length]
  omega

theorem commaParts_length {s part : Span} {parts : List Span} (h : s.commaParts = .ok parts)
    (hp : part ∈ parts) : part.length ≤ s.length := by
  unfold commaParts at h
  split at h
  · cases h; cases hp
  · obtain ⟨ls, hm, rfl⟩ := exists_of_map_eq_ok h
    exact Nat.le_trans (commaPartsOf_length s.stop ls part (by simpa using hp)) (marked_length hm)

/-- Arguments are the parts between the commas in brackets. -/
theorem callArgs?_eq_some {s : Span} {parts : List Span} (h : s.callArgs? = some parts) :
    ∃ inner, s.enclosed? .round = some inner ∧ inner.commaParts = .ok parts := by
  unfold callArgs? at h
  split at h
  · rename_i inner hi
    cases hc : inner.commaParts with
    | error d => simp [hc, Except.toOption] at h
    | ok ps =>
      rw [hc] at h
      cases h
      exact ⟨inner, hi, hc⟩
  · cases h

theorem callArgs?_length_lt {s part : Span} {parts : List Span} (h : s.callArgs? = some parts)
    (hp : part ∈ parts) : part.length < s.length := by
  obtain ⟨inner, hi, hc⟩ := callArgs?_eq_some h
  exact Nat.lt_of_le_of_lt (commaParts_length hc hp) (enclosed?_length_lt hi)

theorem fieldRef_length_lt {s q : Span} {ref : FieldRef} (h : s.fieldRef = .ok ref)
    (hq : q ∈ ref.query.toList) : q.length < s.length := by
  unfold fieldRef at h
  split at h
  · rename_i name hn
    simp only at h
    split at h
    · cases h; cases hq
    · rename_i l hl
      split at h
      · cases h
        simp only [Option.toList_some, List.mem_singleton] at hq
        subst hq
        have hne : s.lexemes ≠ [] := by
          intro e
          simp [last?, e] at hn
        have hpos := List.length_pos_iff.mpr hne
        have h₁ := length_dropLast_le (if s.first? = some .at then s.tail else s).dropLast
        have h₂ : (if s.first? = some .at then s.tail else s).dropLast.length < s.length := by
          split
          · exact Nat.lt_of_le_of_lt (length_dropLast_le _) (length_tail_lt hne)
          · simp only [dropLast, length, List.length_dropLast]
            omega
        exact Nat.lt_of_le_of_lt (by simpa using h₁) h₂
      · cases h
  · cases h

theorem cuts_fst {s : Span} {cuts : List (Lexeme × Option BinaryOp)} (h : s.cuts = .ok cuts) :
    cuts.length ≤ s.length := by
  obtain ⟨outside, -, rfl⟩ := exists_of_map_eq_ok h
  simp only [List.length_zip, length]
  omega

theorem atWeakest_length_lt {s : Span} {b : BinarySplit} (h : s.atWeakest = .ok (some b)) :
    b.left.length < s.length ∧ b.right.length < s.length := by
  obtain ⟨cuts, hc, h⟩ := exists_of_map_eq_ok h
  split at h
  · rename_i before l op after hs
    cases h
    have e := congrArg List.length (splitLast_eq_some hs).1
    have := cuts_fst hc
    simp only [List.length_append, List.length_cons] at e
    simp only [length, List.length_map] at this ⊢
    omega
  · cases h

theorem atLastDot_length {s step : Span} {parent : Option Span}
    (h : s.atLastDot = .ok (parent, step)) :
    step.length ≤ s.length ∧ ∀ q ∈ parent.toList, q.length < s.length := by
  obtain ⟨ls, hm, h⟩ := exists_of_map_eq_ok h
  split at h
  · rename_i before dot after hs
    cases h
    have e := congrArg List.length (splitLast_eq_some hs).1
    have := marked_length hm
    simp only [List.length_append, List.length_cons] at e
    simp only [length, List.length_map, Option.toList_some, List.mem_singleton,
      forall_eq] at this ⊢
    omega
  · cases h
    exact ⟨Nat.le_refl _, by simp⟩

end Span

theorem intrinsicShape_parts {pos : Nat} {name : String} {rest t : Span} {sh : ExprShape}
    (h : intrinsicShape pos name rest = .ok sh) (ht : t ∈ sh.parts) : t.length ≤ rest.length := by
  unfold intrinsicShape at h
  simp only at h
  split at h
  · cases h
    simp only [ExprShape.parts, List.mem_singleton] at ht
    exact Nat.le_of_eq (congrArg Span.length ht)
  · split at h
    · split at h
      · rename_i field text hargs
        split at h
        · cases h
        · split at h
          · cases h
          · rename_i ref href
            cases h
            have h₁ := Span.fieldRef_length_lt href ht
            have h₂ := Span.callArgs?_length_lt hargs (List.mem_cons_self)
            omega
      · cases h
    · split at h
      · split at h
        · rename_i field index hargs
          split at h
          · cases h
          · rename_i ref href
            cases h
            have h₂ := Span.callArgs?_length_lt hargs (List.mem_cons_self)
            rcases List.mem_cons.mp ht with rfl | ht
            · exact Nat.le_of_lt (Span.callArgs?_length_lt hargs (by simp))
            · have h₁ := Span.fieldRef_length_lt href ht
              omega
        · cases h
      · split at h
        · split at h
          · cases h; cases ht
          · rename_i query hargs
            cases h
            simp only [ExprShape.parts, Option.toList_some, List.mem_singleton] at ht
            subst ht
            exact Nat.le_of_lt (Span.callArgs?_length_lt hargs (by simp))
          · cases h
        · cases h

theorem operandShape_parts {s t : Span} {sh : ExprShape} (h : operandShape s = .ok sh)
    (ht : t ∈ sh.parts) : t.length < s.length := by
  have hne : s.lexemes ≠ [] := by
    intro e
    simp [operandShape, e, Span.first?] at h
  have htail := Span.length_tail_lt hne
  unfold operandShape at h
  split at h
  · cases h
    simp only [ExprShape.parts, List.mem_singleton] at ht
    rw [ht]; exact htail
  · cases h
    simp only [ExprShape.parts, List.mem_singleton] at ht
    rw [ht]; exact htail
  · have h₁ := intrinsicShape_parts h ht
    have h₂ := Span.length_tail_le s.tail
    omega
  · cases h
  · split at h
    · obtain ⟨ref, hr, rfl⟩ := exists_of_map_eq_ok h
      exact Span.fieldRef_length_lt hr ht
    · split at h
      · cases h
        simp only [ExprShape.parts, List.mem_singleton] at ht
        rw [ht]; exact htail
      · cases h

/-- **Every part of an expression is shorter than the expression.** -/
theorem exprShape_parts {s t : Span} {sh : ExprShape} (h : exprShape s = .ok sh)
    (ht : t ∈ sh.parts) : t.length < s.length := by
  unfold exprShape at h
  split at h
  · cases h
  · cases h; cases ht
  · split at h
    · rename_i inner hi
      cases h
      simp only [ExprShape.parts, List.mem_singleton] at ht
      rw [ht]; exact Span.enclosed?_length_lt hi
    · split at h
      · cases h
      · rename_i b hb
        cases h
        obtain ⟨h₁, h₂⟩ := Span.atWeakest_length_lt hb
        simp only [ExprShape.parts, List.mem_cons, List.not_mem_nil, or_false] at ht
        rcases ht with rfl | rfl
        · exact h₁
        · exact h₂
      · exact operandShape_parts h ht

theorem filterShape_parts {s t : Span} (ht : t ∈ (filterShape s).parts) :
    t.length ≤ s.length := by
  have h₂ : s.tail.tail.length ≤ s.length :=
    Nat.le_trans (Span.length_tail_le _) (Span.length_tail_le _)
  unfold filterShape at ht
  simp only at ht
  split at ht
  · split at ht
    · simp only [FilterShape.parts, List.mem_singleton] at ht
      rw [ht]; exact h₂
    · simp only [FilterShape.parts, List.mem_singleton] at ht
      rw [ht]; exact h₂
    · split at ht <;> simp [FilterShape.parts] at ht
    · simp [FilterShape.parts] at ht
  · simp [FilterShape.parts] at ht

theorem filterShapes_parts {s t : Span} {fs : List FilterShape} (h : filterShapes s = .ok fs)
    (ht : t ∈ fs.flatMap FilterShape.parts) : t.length ≤ s.length := by
  unfold filterShapes at h
  split at h
  · cases h; simp at ht
  · split at h
    · cases h
    · rename_i inner hi
      obtain ⟨ps, hc, rfl⟩ := exists_of_map_eq_ok h
      obtain ⟨f, hf, htf⟩ := List.mem_flatMap.mp ht
      obtain ⟨p, hp, rfl⟩ := List.mem_map.mp hf
      have h₁ := filterShape_parts htf
      have h₂ := Span.commaParts_length hc hp
      have h₃ := Span.enclosed?_length_lt hi
      omega

/-- **Every part of a query is shorter than the query.** -/
theorem queryShape_parts {s t : Span} {q : QueryShape} (h : queryShape s = .ok q)
    (ht : t ∈ q.parts) : t.length < s.length := by
  unfold queryShape at h
  split at h
  · cases h
  · split at h
    · cases h
    · rename_i parent step hd
      obtain ⟨hstep, hparent⟩ := Span.atLastDot_length hd
      split at h
      · cases h
      · rename_i l ls hl
        have htail : step.tail.length < step.length := Span.length_tail_lt (by simp [hl])
        split at h
        · cases h
        · rename_i filters hf
          have hfilters : ∀ t ∈ filters.flatMap FilterShape.parts, t.length < s.length := by
            intro t ht
            have := filterShapes_parts hf ht
            omega
          split at h
          · cases h
            rcases List.mem_append.mp ht with ht | ht
            · exact hparent t ht
            · exact hfilters t ht
          · split at h
            · cases h
              exact hfilters t (by simpa [QueryShape.parts, QueryHead.parts] using ht)
            · cases h
              exact hfilters t (by simpa [QueryShape.parts, QueryHead.parts] using ht)
          · cases h
            exact hfilters t (by simpa [QueryShape.parts, QueryHead.parts] using ht)

end ByteAtlas
