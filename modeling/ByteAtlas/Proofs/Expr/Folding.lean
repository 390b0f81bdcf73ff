import ByteAtlas.Proofs.Expr.Evaluation
import ByteAtlas.Proofs.Expr.Tallies

/-!
# What is made of a tree, node by node

A `TreeFold` says what each node of a tree gives, from what its parts have given. Evaluating a tree
is one (`Expr.fold_evaluation`), and so is writing its outline (`Expr.fold_outlining`).

`Expr.foldIn` folds a tree only as long as there is room for one more call. It needs as much room as
the tree is high (`foldsIn`), whatever the fold does at the nodes.
-/

namespace ByteAtlas

/-! ## 1. Folds -/

/-- The filters of a step, their expressions folded. -/
structure FoldedFilters (α : Type) where
  texts : List TextCondition
  values : List (String × α)
  selector : Option α

/-- **What each node gives**, from what its parts have given: `α` for an expression, `β` for a
query. -/
structure TreeFold (α β : Type) where
  constant : Int64 → α
  unary : UnaryOp → α → α
  binary : BinaryOp → α → α → α
  rawRead : IntType → α → α
  member : Option β → (name : String) → (index : Option α) → (isOffset : Bool) → α
  structOffset : β → α
  previewTest : Option β → (name text : String) → (invert : Bool) → α
  instanceId : Option β → α
  errorExpr : α
  root : (struct : String) → (isGlobal : Bool) → FoldedFilters α → β
  sub : Option β → (field : String) → FoldedFilters α → β
  errorQuery : β

section

variable {α β : Type} (f : TreeFold α β)

mutual

/-- What an expression gives. -/
def Expr.fold : Expr → α
  | .constant n => f.constant n
  | .unary op a => f.unary op a.fold
  | .binary op a b => f.binary op a.fold b.fold
  | .rawRead type a => f.rawRead type a.fold
  | .member q name i isOffset =>
    f.member
      (match q with
        | some q => some q.fold
        | none => none)
      name
      (match i with
        | some e => some e.fold
        | none => none)
      isOffset
  | .structOffset q => f.structOffset q.fold
  | .previewTest q name text invert =>
    f.previewTest
      (match q with
        | some q => some q.fold
        | none => none)
      name text invert
  | .instanceId q =>
    f.instanceId
      (match q with
        | some q => some q.fold
        | none => none)
  | .error => f.errorExpr

/-- What a query gives. -/
def Query.fold : Query → β
  | .root name isGlobal fs => f.root name isGlobal fs.fold
  | .sub p name fs =>
    f.sub
      (match p with
        | some p => some p.fold
        | none => none)
      name fs.fold
  | .error => f.errorQuery

/-- The filters of a step, their expressions folded. -/
def Filters.fold : Filters → FoldedFilters α
  | .mk texts values selector =>
    { texts
      values := foldValues values
      selector :=
        match selector with
        | some e => some e.fold
        | none => none }

/-- What the expressions give that values are compared with. -/
def foldValues : List (String × Expr) → List (String × α)
  | [] => []
  | (name, e) :: vs => (name, e.fold) :: foldValues vs

end

/-! ## 2. Folding within some room -/

/-- The filters of a step, if all their expressions give something. -/
def Filters.foldWith (expr : Expr → Option α) : Filters → Option (FoldedFilters α)
  | .mk texts values selector => do
    let values ← values.mapM fun v => do
      let x ← expr v.2
      some (v.1, x)
    let selector ← selector.mapM expr
    some { texts, values, selector }

mutual

/-- **What an expression gives, if there is room** for so many calls at a time. -/
def Expr.foldIn : (room : Nat) → Expr → Option α
  | 0, _ => none
  | room + 1, e =>
    match e with
    | .constant n => some (f.constant n)
    | .unary op a => do
      let x ← a.foldIn room
      some (f.unary op x)
    | .binary op a b => do
      let x ← a.foldIn room
      let y ← b.foldIn room
      some (f.binary op x y)
    | .rawRead type a => do
      let x ← a.foldIn room
      some (f.rawRead type x)
    | .member q name i isOffset => do
      let q ← q.mapM (Query.foldIn room)
      let i ← i.mapM (Expr.foldIn room)
      some (f.member q name i isOffset)
    | .structOffset q => do
      let q ← q.foldIn room
      some (f.structOffset q)
    | .previewTest q name text invert => do
      let q ← q.mapM (Query.foldIn room)
      some (f.previewTest q name text invert)
    | .instanceId q => do
      let q ← q.mapM (Query.foldIn room)
      some (f.instanceId q)
    | .error => some f.errorExpr

/-- What a query gives, if there is room. -/
def Query.foldIn : (room : Nat) → Query → Option β
  | 0, _ => none
  | room + 1, q =>
    match q with
    | .root name isGlobal fs => do
      let fs ← fs.foldWith (Expr.foldIn room)
      some (f.root name isGlobal fs)
    | .sub p name fs => do
      let p ← p.mapM (Query.foldIn room)
      let fs ← fs.foldWith (Expr.foldIn room)
      some (f.sub p name fs)
    | .error => some f.errorQuery

end

/-! ## 3. Room for a tree -/

section

variable (q : Option Query) (name : String)

theorem Expr.fold_member (index : Option Expr) (isOffset : Bool) :
    (member q name index isOffset).fold f =
      f.member (q.map (Query.fold f)) name (index.map (fold f)) isOffset := by
  cases q <;> cases index <;> rfl

theorem Expr.fold_previewTest (text : String) (invert : Bool) :
    (previewTest q name text invert).fold f =
      f.previewTest (q.map (Query.fold f)) name text invert := by
  cases q <;> rfl

theorem Expr.fold_instanceId : (instanceId q).fold f = f.instanceId (q.map (Query.fold f)) := by
  cases q <;> rfl

theorem Filters.fold_texts (fs : Filters) : (fs.fold f).texts = fs.texts := by
  cases fs
  rfl

theorem Query.fold_sub (fs : Filters) :
    (sub q name fs).fold f = f.sub (q.map (fold f)) name (fs.fold f) := by
  cases q <;> rfl

end

variable {f} {room : Nat}

/-- A part that may be left out. -/
theorem mapM_option {σ τ : Type} {height : σ → Nat} {foldIn : σ → Option τ} {fold : σ → τ}
    (h : ∀ x, height x ≤ room → foldIn x = some (fold x)) {x : Option σ}
    (hx : x.elim 0 height ≤ room) : x.mapM foldIn = some (x.map fold) := by
  cases x with
  | none => rfl
  | some x =>
    rw [Option.mapM_some, h x hx]
    rfl

/-- The filters of a step, by induction on the values. -/
theorem Filters.foldWith_eq {expr : Expr → Option α}
    (h : ∀ e : Expr, e.height ≤ room → expr e = some (e.fold f)) {fs : Filters}
    (hfs : fs.height ≤ room) : fs.foldWith expr = some (fs.fold f) := by
  have values : ∀ vs : List (String × Expr), valuesHeight vs ≤ room →
      (vs.mapM fun v => do
        let x ← expr v.2
        some (v.1, x)) = some (foldValues f vs) := by
    intro vs hvs
    induction vs with
    | nil => rfl
    | cons v vs ih =>
      obtain ⟨hfirst, hrest⟩ := Nat.max_le.mp hvs
      rw [List.mapM_cons, h v.2 hfirst, ih hrest]
      rfl
  obtain ⟨texts, vs, selector⟩ := fs
  rw [height_mk] at hfs
  obtain ⟨hvs, hselector⟩ := Nat.max_le.mp hfs
  rw [foldWith, values vs hvs, mapM_option h hselector]
  cases selector <;> rfl

/-- **A fold needs as much room as the tree is high**, by induction on the room. -/
theorem foldsIn : ∀ room : Nat,
    (∀ e : Expr, e.height ≤ room → e.foldIn f room = some (e.fold f)) ∧
      ∀ q : Query, q.height ≤ room → q.foldIn f room = some (q.fold f)
  | 0 =>
    -- No tree is without height.
    ⟨fun e he => absurd e.height_pos (Nat.not_lt.mpr he),
      fun q hq => absurd q.height_pos (Nat.not_lt.mpr hq)⟩
  | room + 1 => by
    obtain ⟨hexpr, hquery⟩ := foldsIn room
    refine ⟨fun e he => ?_, fun q hq => ?_⟩
    · cases e with
      | constant n => rfl
      | unary op a =>
        rw [Expr.foldIn, hexpr a (Nat.le_of_succ_le_succ he)]
        rfl
      | binary op a b =>
        obtain ⟨ha, hb⟩ := Nat.max_le.mp (Nat.le_of_succ_le_succ he)
        rw [Expr.foldIn, hexpr a ha, hexpr b hb]
        rfl
      | rawRead type a =>
        rw [Expr.foldIn, hexpr a (Nat.le_of_succ_le_succ he)]
        rfl
      | member q name i isOffset =>
        rw [Expr.height_member] at he
        obtain ⟨hq, hi⟩ := Nat.max_le.mp (Nat.le_of_succ_le_succ he)
        rw [Expr.foldIn, mapM_option hquery hq, mapM_option hexpr hi, Expr.fold_member]
        rfl
      | structOffset q =>
        rw [Expr.foldIn, hquery q (Nat.le_of_succ_le_succ he)]
        rfl
      | previewTest q name text invert =>
        rw [Expr.height_previewTest] at he
        rw [Expr.foldIn, mapM_option hquery (Nat.le_of_succ_le_succ he), Expr.fold_previewTest]
        rfl
      | instanceId q =>
        rw [Expr.height_instanceId] at he
        rw [Expr.foldIn, mapM_option hquery (Nat.le_of_succ_le_succ he), Expr.fold_instanceId]
        rfl
      | error => rfl
    · cases q with
      | root name isGlobal fs =>
        rw [Query.foldIn, Filters.foldWith_eq hexpr (Nat.le_of_succ_le_succ hq)]
        rfl
      | sub p name fs =>
        rw [Query.height_sub] at hq
        obtain ⟨hp, hfs⟩ := Nat.max_le.mp (Nat.le_of_succ_le_succ hq)
        rw [Query.foldIn, mapM_option hquery hp, Filters.foldWith_eq hexpr hfs, Query.fold_sub]
        rfl
      | error => rfl

end

/-! ## 4. Evaluation -/

section

variable {m : Type → Type} [Monad m] {ι : Type} (env : Environment m ι)

namespace FoldedFilters

/-- The conditions on values. -/
def conditions : List (String × m Int64) → m (List ValueCondition)
  | [] => pure []
  | (name, value) :: vs => do
    let value ← value
    let rest ← conditions vs
    pure (⟨name, value⟩ :: rest)

/-- What is left of the instances found once the selector is applied. -/
def select (found : List ι) (fs : FoldedFilters (m Int64)) : m (List ι) :=
  match fs.selector with
  | none => pure found
  | some rank => do
    let rank ← rank
    pure (selectRank env.offsetOf rank found)

end FoldedFilters

/-- **Evaluation as a fold**: what each node does, from what its parts do. -/
def TreeFold.evaluation : TreeFold (m Int64) (m (List ι)) where
  constant n := pure n
  unary op a := do
    let x ← a
    pure (op.apply x)
  binary op a b := do
    let x ← a
    let y ← b
    pure (op.apply x y)
  rawRead t a := do
    let offset ← a
    let bytes ← env.read offset t.size
    pure (t.decode bytes)
  member q name index isOffset := do
    match ← q.getD (pure env.roots) with
    | [] => pure 0
    | inst :: _ => do
      let index ← index.getD (pure 0)
      let value ← env.lookup inst name index isOffset
      pure (value.getD 0)
  structOffset q := do
    let found ← q
    pure ((found.head?.map env.offsetOf).getD 0)
  previewTest q name text invert := do
    let found ← q.getD (pure env.roots)
    let hit ← found.anyM fun inst => do
      let preview ← env.preview inst name
      pure ((preview == some text) != invert)
    pure (BinaryOp.truth hit)
  instanceId q := do
    let found ← q.getD (pure env.roots)
    pure ((found.head?.map env.idOf).getD (-1))
  errorExpr := pure 0
  root struct isGlobal fs := do
    let values ← FoldedFilters.conditions fs.values
    let found ← env.instancesOf struct isGlobal ⟨fs.texts, values⟩
    fs.select env found
  sub parent field fs := do
    let parents ← parent.getD (pure env.roots)
    let values ← FoldedFilters.conditions fs.values
    let found ← env.children parents field ⟨fs.texts, values⟩
    fs.select env found
  errorQuery := pure []

mutual

/-- **Evaluating is folding**, by induction on the tree. -/
theorem Expr.fold_evaluation : ∀ e : Expr, e.fold (.evaluation env) = e.evaluate env
  | .constant n => by rw [Expr.fold, Expr.evaluate]; rfl
  | .unary op a => by rw [Expr.fold, a.fold_evaluation, Expr.evaluate]; rfl
  | .binary op a b => by
    rw [Expr.fold, a.fold_evaluation, b.fold_evaluation, Expr.evaluate]; rfl
  | .rawRead type a => by rw [Expr.fold, a.fold_evaluation, Expr.evaluate]; rfl
  | .member q name i isOffset => by
    rw [Expr.fold_member, Expr.evaluate_member, ← Query.fold_runOrRoots q]
    simp only [← Expr.fold_evaluateIndex i]
    rfl
  | .structOffset q => by rw [Expr.fold, q.fold_evaluation, Expr.evaluate]; rfl
  | .previewTest q name text invert => by
    rw [Expr.fold_previewTest, Expr.evaluate_previewTest, ← Query.fold_runOrRoots q]; rfl
  | .instanceId q => by
    rw [Expr.fold_instanceId, Expr.evaluate_instanceId, ← Query.fold_runOrRoots q]; rfl
  | .error => by rw [Expr.fold, Expr.evaluate]; rfl

theorem Expr.fold_evaluateIndex : ∀ i : Option Expr,
    (i.map (Expr.fold (.evaluation env))).getD (pure 0) = Expr.evaluateIndex env i
  | none => rfl
  | some e => e.fold_evaluation

/-- The same for a query. -/
theorem Query.fold_evaluation : ∀ q : Query, q.fold (.evaluation env) = q.run env
  | .root name isGlobal fs => by
    rw [Query.fold, Query.run, ← fs.fold_conditions, ← fs.fold_texts (.evaluation env)]
    simp only [← fs.fold_select]
    rfl
  | .sub p name fs => by
    rw [Query.fold_sub, Query.run_sub, ← Query.fold_runOrRoots p, ← fs.fold_conditions,
      ← fs.fold_texts (.evaluation env)]
    simp only [← fs.fold_select]
    rfl
  | .error => by rw [Query.fold, Query.run]; rfl

theorem Query.fold_runOrRoots : ∀ q : Option Query,
    (q.map (Query.fold (.evaluation env))).getD (pure env.roots) = Query.runOrRoots env q
  | none => rfl
  | some q => q.fold_evaluation

theorem Filters.fold_conditions : ∀ fs : Filters,
    FoldedFilters.conditions (fs.fold (.evaluation env)).values = fs.conditions env
  | .mk texts values selector => by
    rw [Filters.conditions]
    exact fold_values values

theorem Filters.fold_select : ∀ (fs : Filters) (found : List ι),
    (fs.fold (.evaluation env)).select env found = fs.select env found
  | .mk texts values none, found => rfl
  | .mk texts values (some e), found => by
    rw [Filters.select, ← e.fold_evaluation]
    rfl

theorem fold_values : ∀ vs : List (String × Expr),
    FoldedFilters.conditions (foldValues (.evaluation env) vs) = evaluateValues env vs
  | [] => by rw [evaluateValues]; rfl
  | (name, e) :: vs => by
    rw [foldValues, FoldedFilters.conditions, e.fold_evaluation, fold_values vs, evaluateValues]

end

end

/-! ## 5. Outlines -/

namespace FoldedFilters

/-- The expressions that values are compared with, each below the name of its value. -/
def valuesOutline (level : Nat) : List (String × (Nat → String)) → String
  | [] => ""
  | (name, value) :: vs =>
    outlineLine (level + 1) ("#" ++ name ++ "=") ++ value (level + 2) ++ valuesOutline level vs

/-- A query's own line, and the expressions of its filters. -/
def outline (level : Nat) (head : String) (fs : FoldedFilters (Nat → String)) : String :=
  outlineLine level (head ++ String.join (fs.texts.map TextCondition.outline)) ++
    valuesOutline level fs.values ++
    fs.selector.elim "" fun e => outlineLine (level + 1) "#=" ++ e (level + 2)

end FoldedFilters

/-- **An outline as a fold**: the lines of each node, its level being given. -/
def TreeFold.outlining : TreeFold (Nat → String) (Nat → String) where
  constant n level := outlineLine level ("value = " ++ toString n.toInt)
  unary op a level := outlineLine level op.name ++ a (level + 1)
  binary op a b level := outlineLine level op.symbol ++ a (level + 1) ++ b (level + 1)
  rawRead t a level := outlineLine level ("read " ++ t.name) ++ a (level + 1)
  member q name index isOffset level :=
    outlineLine level
        ("member field" ++ (if isOffset then " offset" else "") ++ " " ++ quoted name ++
          if q.isSome then " with query:" else "") ++
      (q.elim "" fun q => q (level + 1)) ++
      index.elim "" fun e => outlineLine (level + 1) "index:" ++ e (level + 2)
  structOffset q level := outlineLine level "struct offset" ++ q (level + 1)
  previewTest q name text invert level :=
    outlineLine level
        ("field " ++ quoted name ++ " preview " ++ (if invert then "!= " else "== ") ++
          quoted text) ++
      q.elim "" fun q => q (level + 1)
  instanceId q level := outlineLine level "instance id" ++ q.elim "" fun q => q (level + 1)
  errorExpr level := outlineLine level "ERROR"
  root struct isGlobal fs level :=
    fs.outline level
      ("root" ++ (if isGlobal then " (global)" else "") ++ " query " ++ quoted struct)
  sub parent field fs level :=
    fs.outline level ("subfield query " ++ quoted field) ++ parent.elim "" fun p => p (level + 1)
  errorQuery level := outlineLine level "ERROR"

mutual

/-- **Writing an outline is folding**, by induction on the tree. -/
theorem Expr.fold_outlining : ∀ (e : Expr) (level : Nat),
    e.fold .outlining level = e.outlineAt level
  | .constant n, level => by rw [Expr.fold, Expr.outlineAt]; rfl
  | .unary op a, level => by rw [Expr.outlineAt, ← a.fold_outlining]; rfl
  | .binary op a b, level => by
    rw [Expr.outlineAt, ← a.fold_outlining, ← b.fold_outlining]; rfl
  | .rawRead type a, level => by rw [Expr.outlineAt, ← a.fold_outlining]; rfl
  | .member none name none isOffset, level => by rw [Expr.outlineAt]; rfl
  | .member none name (some e) isOffset, level => by
    rw [Expr.outlineAt, ← e.fold_outlining]; rfl
  | .member (some q) name none isOffset, level => by
    rw [Expr.outlineAt, ← q.fold_outlining]; rfl
  | .member (some q) name (some e) isOffset, level => by
    rw [Expr.outlineAt, ← q.fold_outlining, ← e.fold_outlining]; rfl
  | .structOffset q, level => by rw [Expr.outlineAt, ← q.fold_outlining]; rfl
  | .previewTest none name text invert, level => by rw [Expr.outlineAt]; rfl
  | .previewTest (some q) name text invert, level => by
    rw [Expr.outlineAt, ← q.fold_outlining]; rfl
  | .instanceId none, level => by rw [Expr.outlineAt]; rfl
  | .instanceId (some q), level => by rw [Expr.outlineAt, ← q.fold_outlining]; rfl
  | .error, level => by rw [Expr.fold, Expr.outlineAt]; rfl

/-- The same for a query. -/
theorem Query.fold_outlining : ∀ (q : Query) (level : Nat),
    q.fold .outlining level = q.outlineAt level
  | .root name isGlobal fs, level => by rw [Query.outlineAt, ← fs.fold_outlining]; rfl
  | .sub none name fs, level => by rw [Query.outlineAt, ← fs.fold_outlining]; rfl
  | .sub (some p) name fs, level => by
    rw [Query.outlineAt, ← fs.fold_outlining, ← p.fold_outlining]; rfl
  | .error, level => by rw [Query.fold, Query.outlineAt]; rfl

theorem Filters.fold_outlining : ∀ (fs : Filters) (level : Nat) (head : String),
    (fs.fold .outlining).outline level head = fs.outlineAt level head
  | .mk texts values none, level, head => by
    rw [Filters.outlineAt, ← fold_valuesOutline values]; rfl
  | .mk texts values (some e), level, head => by
    rw [Filters.outlineAt, ← fold_valuesOutline values, ← e.fold_outlining]; rfl

theorem fold_valuesOutline : ∀ (vs : List (String × Expr)) (level : Nat),
    FoldedFilters.valuesOutline level (foldValues .outlining vs) = valuesOutlineAt level vs
  | [], level => by rw [valuesOutlineAt]; rfl
  | (name, e) :: vs, level => by
    rw [valuesOutlineAt, ← e.fold_outlining, ← fold_valuesOutline vs]; rfl

end

end ByteAtlas
