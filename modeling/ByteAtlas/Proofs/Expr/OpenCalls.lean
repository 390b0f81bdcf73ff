import ByteAtlas.Proofs.Expr.Compilation
import ByteAtlas.Proofs.Expr.Operators
import ByteAtlas.Proofs.Expr.Tallies

/-!
# How many calls of the compiler are open at a time

The compiler compiles a part before it is done with the whole. Here it does so only as long as there
is room for one more call (`partCalls`, `Expr.compileIn`), and gives nothing where room is lacking.

A call for a part either lies one level deeper or is for an operand, and then the operator is used
up. So a span needs room for its operators and for the levels that are left, and with that the
compiler gives what it gives without a limit. The tree is no higher than the calls lie in each other
(`Span.fits`).
-/

namespace ByteAtlas

/-! ## 1. Compiling within some room -/

/-- How parts are compiled, if there is room for it. -/
structure PartCalls where
  expr : Span → (depth : Nat) → Option (Compiled Expr)
  query : Span → (depth : Nat) → Option (Compiled Query)

namespace PartCalls

variable (calls : PartCalls)

/-- The tree of a query that may be left out. -/
def query? (q : Option Span) (depth : Nat) : Option (Compiled (Option Query)) :=
  match q with
  | none => some ⟨none, []⟩
  | some s => do
    let q ← calls.query s depth
    some ⟨some q.tree, q.diagnostics⟩

/-- The tree of a shape. -/
def ofShape (depth : Nat) : ExprShape → Option (Compiled Expr)
  | .constant n => some ⟨.constant n, []⟩
  | .enclosed inner => calls.expr inner (depth + 1)
  | .binary op left right => do
    let a ← calls.expr left depth
    let b ← calls.expr right depth
    some ⟨.binary op a.tree b.tree, a.diagnostics ++ b.diagnostics⟩
  | .unary op operand => do
    let a ← calls.expr operand (depth + 1)
    some ⟨.unary op a.tree, a.diagnostics⟩
  | .rawRead type offset => do
    let a ← calls.expr offset (depth + 1)
    some ⟨.rawRead type a.tree, a.diagnostics⟩
  | .member ref => do
    let q ← calls.query? ref.query (depth + 1)
    some ⟨.member q.tree ref.name none ref.isOffset, q.diagnostics⟩
  | .element ref index => do
    let q ← calls.query? ref.query (depth + 2)
    let i ← calls.expr index (depth + 1)
    some ⟨.member q.tree ref.name (some i.tree) ref.isOffset, q.diagnostics ++ i.diagnostics⟩
  | .structOffset query => do
    let q ← calls.query query (depth + 1)
    some ⟨.structOffset q.tree, q.diagnostics⟩
  | .previewTest ref text invert => do
    let q ← calls.query? ref.query (depth + 2)
    match text with
    | .ok t => some ⟨.previewTest q.tree ref.name t invert, q.diagnostics⟩
    | .error d => some ⟨.error, q.diagnostics ++ [d]⟩
  | .instanceId query => do
    let q ← calls.query? query (depth + 1)
    some ⟨.instanceId q.tree, q.diagnostics⟩

/-- The filters of a query, all of them, or the first that is bad. -/
def ofFilters (depth : Nat) : List FilterShape → Option (Compiled (Except Diagnostic Filters))
  | [] => some ⟨.ok .none, []⟩
  | .bad d :: _ => some ⟨.error d, []⟩
  | .text condition :: fs => do
    let rest ← ofFilters depth fs
    some ⟨rest.tree.map fun r => .mk (condition :: r.texts) r.values r.selector, rest.diagnostics⟩
  | .value name expr :: fs => do
    let e ← calls.expr expr (depth + 1)
    let rest ← ofFilters depth fs
    some ⟨rest.tree.map fun r => .mk r.texts ((name, e.tree) :: r.values) r.selector,
      e.diagnostics ++ rest.diagnostics⟩
  | .selector expr :: fs => do
    let e ← calls.expr expr (depth + 1)
    let rest ← ofFilters depth fs
    some ⟨rest.tree.map fun r => .mk r.texts r.values (r.selector.or (some e.tree)),
      e.diagnostics ++ rest.diagnostics⟩

/-- What becomes of the head of a query, its filters being given. -/
def ofHead (filters : Filters) (depth : Nat) : QueryHead → Option (Compiled Query)
  | .root name isGlobal => some ⟨.root name isGlobal filters, []⟩
  | .bad d => some ⟨.error, [d]⟩
  | .sub parent field => do
    let p ← calls.query? parent (depth + 1)
    some ⟨.sub p.tree field filters, p.diagnostics⟩

/-- The tree of the shape of a query. -/
def ofQueryShape (depth : Nat) (q : QueryShape) : Option (Compiled Query) := do
  let fs ← calls.ofFilters depth q.filters
  match fs.tree with
  | .error d => some ⟨.error, fs.diagnostics ++ [d]⟩
  | .ok filters =>
    let head ← calls.ofHead filters depth q.head
    some ⟨head.tree, fs.diagnostics ++ head.diagnostics⟩

end PartCalls

/-- **The compiler with room for so many calls** at a time. -/
def partCalls : (room : Nat) → PartCalls
  | 0 => ⟨fun _ _ => none, fun _ _ => none⟩
  | room + 1 =>
    { expr := fun s depth =>
        if depth > nestingLimit then some ⟨.error, [⟨s.pos, .nestingTooDeep⟩]⟩
        else
          match exprShape s with
          | .error d => some ⟨.error, [d]⟩
          | .ok sh => (partCalls room).ofShape depth sh
      query := fun s depth =>
        if depth > nestingLimit then some ⟨.error, [⟨s.pos, .nestingTooDeep⟩]⟩
        else
          match queryShape s with
          | .error d => some ⟨.error, [d]⟩
          | .ok q => (partCalls room).ofQueryShape depth q }

/-- The tree of a text, if there is room for it. -/
def Expr.compileIn (room : Nat) (source : String) : Option (Compiled Expr) :=
  match tokenize source with
  | .error d => some ⟨.error, [d]⟩
  | .ok lexemes =>
    match operatorPastLimit? lexemes with
    | some l => some ⟨.error, [⟨l.pos, .nestingTooDeep⟩]⟩
    | none => (partCalls room).expr ⟨lexemes, source.utf8ByteSize⟩ 0

/-! ## 2. Room for the parts -/

/-- **Whether there is room to compile a span** at a depth, as an expression and as a query: then it
compiles to what it compiles to without a limit, and the tree is no higher than there is room. -/
structure Span.Fits (room : Nat) (s : Span) (depth : Nat) : Prop where
  expr : (partCalls room).expr s depth = some (compileExpr s depth)
  query : (partCalls room).query s depth = some (compileQuery s depth)
  expr_height : (compileExpr s depth).tree.height ≤ room
  query_height : (compileQuery s depth).tree.height ≤ room

section

variable {room depth : Nat}

/-- A query that may be left out. -/
theorem fits_query? {q : Option Span} {d : Nat} (h : ∀ t ∈ q.toList, t.Fits room d) :
    (partCalls room).query? q d = some (compileQuery? q d) ∧
      (compileQuery? q d).tree.elim 0 Query.height ≤ room := by
  cases q with
  | none => exact ⟨rfl, Nat.zero_le _⟩
  | some t =>
    have ht := h t (by simp)
    refine ⟨?_, ht.query_height⟩
    rw [PartCalls.query?, ht.query]
    rfl

/-- **The shape of an expression, when there is room for its parts**, one case for each shape. The
operands of an operator lie as deep as the operation, all other parts lie deeper. -/
theorem ExprShape.fits {sh : ExprShape}
    (h : ∀ t ∈ sh.parts, ∀ d, depth < d + sh.ownOperators → t.Fits room d) :
    (partCalls room).ofShape depth sh = some (sh.compiled depth) ∧
      (sh.compiled depth).tree.height ≤ room + 1 := by
  have optional {q : Option Span} (hq : ∀ t ∈ q.toList, t ∈ sh.parts) {d : Nat} (hd : depth < d) :=
    fits_query? fun t ht => h t (hq t ht) d (Nat.lt_add_right _ hd)
  cases sh <;> simp only [PartCalls.ofShape, compiled]
  case constant n => exact ⟨trivial, by simp [Expr.height]⟩
  case enclosed inner =>
    have hinner := h inner (by simp [parts]) (depth + 1) (Nat.lt_add_right _ (Nat.lt_succ_self _))
    exact ⟨hinner.expr, hinner.expr_height.trans (Nat.le_succ _)⟩
  case binary op left right =>
    have hleft := h left (by simp [parts]) depth (Nat.lt_succ_self _)
    have hright := h right (by simp [parts]) depth (Nat.lt_succ_self _)
    refine ⟨?_, ?_⟩
    · rw [hleft.expr, hright.expr]
      rfl
    · rw [Expr.height]
      exact Nat.succ_le_succ (Nat.max_le.mpr ⟨hleft.expr_height, hright.expr_height⟩)
  case unary op operand =>
    have hoperand := h operand (by simp [parts]) (depth + 1) (Nat.lt_succ_self _)
    refine ⟨?_, ?_⟩
    · rw [hoperand.expr]
      rfl
    · rw [Expr.height]
      exact Nat.succ_le_succ hoperand.expr_height
  case rawRead type offset =>
    have hoffset := h offset (by simp [parts]) (depth + 1) (Nat.lt_succ_self _)
    refine ⟨?_, ?_⟩
    · rw [hoffset.expr]
      rfl
    · rw [Expr.height]
      exact Nat.succ_le_succ hoffset.expr_height
  case member ref =>
    obtain ⟨hquery, hheight⟩ := optional (q := ref.query) (fun _ ht => ht) (Nat.lt_succ_self depth)
    refine ⟨?_, ?_⟩
    · rw [hquery]
      rfl
    · rw [Expr.height_member]
      exact Nat.succ_le_succ (Nat.max_le.mpr ⟨hheight, Nat.zero_le _⟩)
  case element ref index =>
    obtain ⟨hquery, hheight⟩ := optional (q := ref.query) (fun _ ht => List.mem_cons_of_mem _ ht)
      (show depth < depth + 2 by omega)
    have hindex := h index List.mem_cons_self (depth + 1) (Nat.lt_succ_self _)
    refine ⟨?_, ?_⟩
    · rw [hquery, hindex.expr]
      rfl
    · rw [Expr.height_member]
      exact Nat.succ_le_succ (Nat.max_le.mpr ⟨hheight, hindex.expr_height⟩)
  case structOffset query =>
    have hquery := h query (by simp [parts]) (depth + 1) (Nat.lt_succ_self _)
    refine ⟨?_, ?_⟩
    · rw [hquery.query]
      rfl
    · rw [Expr.height]
      exact Nat.succ_le_succ hquery.query_height
  case previewTest ref text invert =>
    obtain ⟨hquery, hheight⟩ := optional (q := ref.query) (fun _ ht => ht)
      (show depth < depth + 2 by omega)
    rw [hquery]
    cases text with
    | ok text =>
      refine ⟨rfl, ?_⟩
      rw [Expr.height_previewTest]
      exact Nat.succ_le_succ hheight
    | error d => exact ⟨rfl, by simp [Expr.height]⟩
  case instanceId q =>
    obtain ⟨hquery, hheight⟩ := optional (q := q) (fun _ ht => ht) (Nat.lt_succ_self depth)
    refine ⟨?_, ?_⟩
    · rw [hquery]
      rfl
    · rw [Expr.height_instanceId]
      exact Nat.succ_le_succ hheight

/-- **The filters of a step, when there is room for their expressions**, by induction on them. -/
theorem fits_filters : ∀ {fs : List FilterShape},
    (∀ t ∈ fs.flatMap FilterShape.parts, t.Fits room (depth + 1)) →
    (partCalls room).ofFilters depth fs = some (compiledFilters depth fs) ∧
      ∀ filters, (compiledFilters depth fs).tree = .ok filters → filters.height ≤ room
  | [], _ => ⟨rfl, fun _ h => by cases h; exact Nat.zero_le _⟩
  | f :: fs, h => by
    obtain ⟨hrest, hheight⟩ := fits_filters fun t ht => h t (List.mem_append_right _ ht)
    have hpart (e : Span) (he : e ∈ f.parts) := h e (List.mem_append_left _ he)
    cases f with
    | bad d => exact ⟨rfl, fun _ hd => nomatch hd⟩
    | text condition =>
      simp only [PartCalls.ofFilters, compiledFilters, hrest]
      refine ⟨rfl, fun filters hfilters => ?_⟩
      obtain ⟨⟨texts, values, selector⟩, hok, rfl⟩ := exists_of_map_eq_ok hfilters
      have hle := hheight _ hok
      rw [Filters.height_mk] at hle ⊢
      exact hle
    | value name e =>
      have he := hpart e (by simp [FilterShape.parts])
      simp only [PartCalls.ofFilters, compiledFilters, hrest, he.expr]
      refine ⟨rfl, fun filters hfilters => ?_⟩
      obtain ⟨⟨texts, values, selector⟩, hok, rfl⟩ := exists_of_map_eq_ok hfilters
      have hle := hheight _ hok
      rw [Filters.height_mk] at hle ⊢
      rw [valuesHeight, Nat.max_assoc]
      exact Nat.max_le.mpr ⟨he.expr_height, hle⟩
    | selector e =>
      have he := hpart e (by simp [FilterShape.parts])
      simp only [PartCalls.ofFilters, compiledFilters, hrest, he.expr]
      refine ⟨rfl, fun filters hfilters => ?_⟩
      obtain ⟨⟨texts, values, selector⟩, hok, rfl⟩ := exists_of_map_eq_ok hfilters
      have hle := hheight _ hok
      rw [Filters.height_mk] at hle ⊢
      -- Of two selectors the first one is dropped.
      cases selector with
      | none => exact Nat.max_le.mpr ⟨(Nat.le_max_left _ _).trans hle, he.expr_height⟩
      | some _ => exact hle

/-- **The shape of a query, when there is room for its parts.** They all lie deeper. -/
theorem QueryShape.fits {q : QueryShape} (h : ∀ t ∈ q.parts, t.Fits room (depth + 1)) :
    (partCalls room).ofQueryShape depth q = some (q.compiled depth) ∧
      (q.compiled depth).tree.height ≤ room + 1 := by
  obtain ⟨hfilters, hheight⟩ := fits_filters fun t ht => h t (List.mem_append_right _ ht)
  have hparent : ∀ t ∈ q.head.parts, t.Fits room (depth + 1) :=
    fun t ht => h t (List.mem_append_left _ ht)
  simp only [PartCalls.ofQueryShape, hfilters, compiled]
  cases hc : (compiledFilters depth q.filters).tree with
  | error d => exact ⟨by simp [hc], by simp [Query.height]⟩
  | ok filters =>
    have hle := hheight filters hc
    cases hhead : q.head with
    | root name isGlobal =>
      refine ⟨by simp [hc, PartCalls.ofHead, QueryHead.compiled], ?_⟩
      simp only [QueryHead.compiled, Query.height]
      exact Nat.succ_le_succ hle
    | bad d =>
      refine ⟨by simp [hc, PartCalls.ofHead, QueryHead.compiled], ?_⟩
      simp [QueryHead.compiled, Query.height]
    | sub parent field =>
      rw [hhead] at hparent
      obtain ⟨hquery, hqueryLe⟩ := fits_query? (q := parent) hparent
      refine ⟨by simp [hc, PartCalls.ofHead, QueryHead.compiled, hquery], ?_⟩
      simp only [QueryHead.compiled]
      rw [Query.height_sub]
      exact Nat.succ_le_succ (Nat.max_le.mpr ⟨hqueryLe, hle⟩)

end

/-! ## 3. Room for a span -/

/-- How many levels are left, with one more, on which a part is refused. -/
def levelsLeft (depth : Nat) : Nat :=
  max 1 (nestingLimit + 2 - depth)

theorem levelsLeft_pos (depth : Nat) : 0 < levelsLeft depth :=
  Nat.le_max_left _ _

/-- **A part needs less room than the whole.** It lies deeper, unless an operator between the parts
is used up. -/
theorem room_part {s t : Span} {parts : List Span} {room depth d own : Nat}
    (h : s.operators + levelsLeft depth ≤ room + 1) (hdepth : ¬ depth > nestingLimit)
    (hparts : (parts.map Span.operators).sum + own ≤ s.operators) (hown : own ≤ 1)
    (ht : t ∈ parts) (hd : depth < d + own) : t.operators + levelsLeft d ≤ room := by
  have hpart : t.operators ≤ (parts.map Span.operators).sum :=
    List.le_sum_of_mem (List.mem_map_of_mem ht)
  have hlevels : levelsLeft d + 1 ≤ levelsLeft depth + own := by
    unfold levelsLeft
    omega
  omega

/-- **A span needs room for its operators and for the levels that are left**, by induction on the
room. -/
theorem Span.fits : ∀ {room : Nat} {s : Span} {depth : Nat},
    s.operators + levelsLeft depth ≤ room → s.Fits room depth
  | 0, _, depth, h => by
    have hpos := levelsLeft_pos depth
    omega
  | room + 1, s, depth, h => by
    have hexpr : (partCalls (room + 1)).expr s depth = some (compileExpr s depth) ∧
        (compileExpr s depth).tree.height ≤ room + 1 := by
      rw [compileExpr_eq, partCalls]
      dsimp only
      split
      · exact ⟨rfl, by simp [Expr.height]⟩
      · rename_i hdepth
        cases hs : exprShape s with
        | error d => exact ⟨rfl, by simp [Expr.height]⟩
        | ok sh =>
          exact ExprShape.fits fun t ht d hd =>
            Span.fits (room_part h hdepth (exprShape_operators hs) sh.ownOperators_le_one ht hd)
    have hquery : (partCalls (room + 1)).query s depth = some (compileQuery s depth) ∧
        (compileQuery s depth).tree.height ≤ room + 1 := by
      rw [compileQuery_eq, partCalls]
      dsimp only
      split
      · exact ⟨rfl, by simp [Query.height]⟩
      · rename_i hdepth
        cases hs : queryShape s with
        | error d => exact ⟨rfl, by simp [Query.height]⟩
        | ok q =>
          exact QueryShape.fits fun t ht =>
            Span.fits (room_part h hdepth (queryShape_operators hs) (Nat.zero_le 1) ht
              (Nat.lt_succ_self depth))
    exact ⟨hexpr.1, hquery.1, hexpr.2, hquery.2⟩

end ByteAtlas
