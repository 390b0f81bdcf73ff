import ByteAtlas.Proofs.Flat.Fresh
import ByteAtlas.Proofs.Resolve.History

/-!
# Later fields

What is to know about a field of a flat definition depends on the fields before it, the parameters
and the arguments. Two definitions that have these in common may differ in all fields behind it, and
the answers about it are the same (`Inquiry.answer_eq_of_sharesFirst`). A name of a later field
stands for nothing where the field is hidden, as a name does that stands for nothing at all, unless
a parameter has the name as well.

So they are the same in two workspaces, whatever has been asked in either
(`Workspace.Browsed.same_first_fields`).
-/

namespace ByteAtlas

/-! ## 1. Expressions in two environments -/

section

variable {m : Type → Type} [Monad m] [LawfulMonad m] {ι : Type}

/-- **Whether two environments tell the same** about the roots of each: one instance here and one
there. -/
structure Environment.Alike (env env' : Environment m ι) (r r' : ι) (names : List String) :
    Prop where
  roots : env.roots = [r]
  roots' : env'.roots = [r']
  lookup : ∀ name ∈ names, env'.lookup r' name = env.lookup r name
  preview : ∀ name ∈ names, env'.preview r' name = env.preview r name
  read : env'.read = env.read
  idOf : env'.idOf r' = env.idOf r

variable {env env' : Environment m ι} {r r' : ι} {names names' : List String}

omit [Monad m] [LawfulMonad m] in
theorem Environment.Alike.subset (h : env.Alike env' r r' names) (hsub : names' ⊆ names) :
    env.Alike env' r r' names' :=
  ⟨h.roots, h.roots', fun name hname => h.lookup name (hsub hname),
    fun name hname => h.preview name (hsub hname), h.read, h.idOf⟩

/-- **An expression without queries** has the same value in both. -/
theorem Environment.Alike.evaluate : (expr : Expr) → expr.hasQuery = false →
    env.Alike env' r r' expr.names → expr.evaluate env' = expr.evaluate env
  | .constant _, _, _ | .error, _, _ => by
    unfold Expr.evaluate
    rfl
  | .unary op a, hq, h => by
    unfold Expr.hasQuery at hq
    unfold Expr.names at h
    unfold Expr.evaluate
    rw [Environment.Alike.evaluate a hq h]
  | .binary op a b, hq, h => by
    unfold Expr.hasQuery at hq
    unfold Expr.names at h
    rw [Bool.or_eq_false_iff] at hq
    unfold Expr.evaluate
    rw [Environment.Alike.evaluate a hq.1 (h.subset (List.subset_append_left _ _)),
      Environment.Alike.evaluate b hq.2 (h.subset (List.subset_append_right _ _))]
  | .rawRead t a, hq, h => by
    unfold Expr.hasQuery at hq
    unfold Expr.names at h
    unfold Expr.evaluate
    rw [Environment.Alike.evaluate a hq h, h.read]
  | .member none name none isOffset, _, h => by
    unfold Expr.names at h
    rw [Expr.evaluate_member, Expr.evaluate_member, Query.runOrRoots, Query.runOrRoots, pure_bind,
      pure_bind, h.roots, h.roots']
    dsimp only
    rw [Expr.evaluateIndex, Expr.evaluateIndex, h.lookup name (List.mem_singleton_self _)]
  | .member none name (some e) isOffset, hq, h => by
    unfold Expr.hasQuery at hq
    unfold Expr.names at h
    rw [Expr.evaluate_member, Expr.evaluate_member, Query.runOrRoots, Query.runOrRoots, pure_bind,
      pure_bind, h.roots, h.roots']
    dsimp only
    rw [Expr.evaluateIndex, Expr.evaluateIndex,
      Environment.Alike.evaluate e hq (h.subset (List.subset_cons_self _ _)),
      h.lookup name List.mem_cons_self]
  | .previewTest none name text invert, _, h => by
    unfold Expr.names at h
    rw [Expr.evaluate_previewTest, Expr.evaluate_previewTest, Query.runOrRoots, Query.runOrRoots,
      pure_bind, pure_bind, h.roots, h.roots']
    unfold List.anyM
    rw [h.preview name (List.mem_singleton_self _)]
    rfl
  | .instanceId none, _, h => by
    rw [Expr.evaluate_instanceId, Expr.evaluate_instanceId, Query.runOrRoots, Query.runOrRoots,
      pure_bind, pure_bind, h.roots, h.roots']
    dsimp only [List.head?_cons, Option.map_some]
    rw [h.idOf]
  | .member (some _) _ _ _, hq, _ | .structOffset _, hq, _ | .previewTest (some _) _ _ _, hq, _
  | .instanceId (some _), hq, _ => by
    unfold Expr.hasQuery at hq
    cases hq

end

/-! ## 2. Definitions that begin alike -/

/-- **Whether two definitions have the first fields in common**, and all that is not a field. No
field behind them has the name of a parameter. -/
structure StructDef.SharesFirst (k : Nat) (d d' : StructDef) : Prop where
  packed : d'.isPacked = d.isPacked
  params : d'.params = d.params
  fields : ∀ i, i < k → d'.field? i = d.field? i
  apart : ∀ i f, k ≤ i → (d.field? i = some f ∨ d'.field? i = some f) → d.param? f.1 = none

namespace StructDef

variable {d d' : StructDef} {k i : Nat} {name : String}

/-- A field is found by its name. -/
theorem fieldIndex?_of_field? {f : String × Field} (h : d.field? i = some f) :
    d.fieldIndex? f.1 = some i :=
  NameMap.indexOf?_of_at? h

/-- The field at the number of a name has the name. -/
theorem exists_field?_of_fieldIndex? (h : d.fieldIndex? name = some i) :
    ∃ field, d.field? i = some (name, field) := by
  obtain ⟨field, hfield, rfl⟩ := Option.map_eq_some_iff.mp (NameMap.at?_indexOf? h)
  exact ⟨field.2, hfield⟩

namespace SharesFirst

theorem symm (h : d.SharesFirst k d') : d'.SharesFirst k d := by
  refine ⟨h.packed.symm, h.params.symm, fun i hi => (h.fields i hi).symm, fun i f hi hf => ?_⟩
  have hnone := h.apart i f hi hf.symm
  unfold param? at hnone ⊢
  rw [h.params]
  exact hnone

theorem param? (h : d.SharesFirst k d') (name : String) : d'.param? name = d.param? name := by
  unfold StructDef.param?
  rw [h.params]

/-- **The first fields** have the same numbers. -/
theorem fieldIndex? (h : d.SharesFirst k d') (hi : i < k) (hname : d.fieldIndex? name = some i) :
    d'.fieldIndex? name = some i := by
  obtain ⟨field, hfield⟩ := exists_field?_of_fieldIndex? hname
  exact fieldIndex?_of_field? ((h.fields i hi).trans hfield)

/-- A name of a later field is not the name of a parameter. -/
theorem param?_eq_none (h : d.SharesFirst k d') (hi : k ≤ i) (hname : d.fieldIndex? name = some i) :
    d.param? name = none := by
  obtain ⟨field, hfield⟩ := exists_field?_of_fieldIndex? hname
  exact h.apart i _ hi (.inl hfield)

/-- **A name is one of a first field in both**, or of none in either. -/
theorem fieldIndex?_cases (h : d.SharesFirst k d') (name : String) :
    (∃ i, i < k ∧ d.fieldIndex? name = some i ∧ d'.fieldIndex? name = some i) ∨
      (∀ i, d.fieldIndex? name = some i → k ≤ i) ∧ ∀ i, d'.fieldIndex? name = some i → k ≤ i := by
  by_cases hfirst : ∃ i, i < k ∧ d.fieldIndex? name = some i
  · obtain ⟨i, hi, hname⟩ := hfirst
    exact .inl ⟨i, hi, hname, h.fieldIndex? hi hname⟩
  · refine .inr ⟨fun i hname => Nat.le_of_not_lt fun hi => hfirst ⟨i, hi, hname⟩,
      fun i hname => Nat.le_of_not_lt fun hi => hfirst ⟨i, hi, h.symm.fieldIndex? hi hname⟩⟩

end SharesFirst

end StructDef

/-! ## 3. Sites with the same first fields -/

/-- **Whether two sites have the first fields in common**, and all else that an answer about them
depends on: the place, the arguments, the file and the limit. -/
structure Site.SharesFirst (k : Nat) (a b : Site) : Prop where
  struct : a.struct.SharesFirst k b.struct
  id : b.ref.id = a.ref.id
  offset : b.ref.offset = a.ref.offset
  args : b.args = a.args
  file : b.workspace.file? b.ref.file = a.workspace.file? a.ref.file
  limit : b.maxElements = a.maxElements

/-- The elements are read from the same bytes. -/
theorem Workspace.readElements_congr {ws ws' : Workspace} {file file' : FileId}
    (h : ws'.file? file' = ws.file? file) (f : Field) (t : ScalarType) (count start : Int64)
    (n : Nat) : ∀ (next : Int64) (values : Array Element),
      ws'.readElements file' f t count start n next values =
        ws.readElements file f t count start n next values := by
  induction n with
  | zero => exact fun _ _ => rfl
  | succ n ih =>
    intro next values
    have hread : ws'.read file' next t.size = ws.read file next t.size := by
      unfold Workspace.read
      rw [h]
    unfold Workspace.readElements
    rw [hread, ih]

namespace Site.SharesFirst

variable {k : Nat} {a b : Site}

theorem fileSize (h : a.SharesFirst k b) : b.fileSize = a.fileSize := by
  unfold Site.fileSize Workspace.fileSize
  rw [h.file]

theorem argOrParam (h : a.SharesFirst k b) (name : String) :
    b.argOrParam name = a.argOrParam name := by
  unfold Site.argOrParam
  rw [h.args, h.struct.param?]

theorem limited (h : a.SharesFirst k b) (count : Int64) : b.limited count = a.limited count := by
  unfold Site.limited
  rw [h.limit]

/-! ### Facts -/

section

variable (h : a.SharesFirst k b) (f : FieldFacts)

include h

theorem first (t : ScalarType) (count start : Int64) (n : Nat) :
    (f.reading b t count start).first n = (f.reading a t count start).first n :=
  Workspace.readElements_congr h.file _ _ _ _ _ _ _

theorem element (n : Nat) : f.element b n = f.element a n := by
  unfold FieldFacts.element
  simp only [h.first]

theorem intValue (n : Nat) : f.intValue b n = f.intValue a n := by
  unfold FieldFacts.intValue
  rw [h.element]

theorem valueOffset (n : Nat) : f.valueOffset b n = f.valueOffset a n := by
  unfold FieldFacts.valueOffset
  rw [h.element]

theorem takePreviews (separated : Bool) (left : Nat) : ∀ (n : Nat) (joined : String),
    f.takePreviews b separated left n joined = f.takePreviews a separated left n joined := by
  induction left with
  | zero => exact fun _ _ => rfl
  | succ left ih =>
    intro n joined
    unfold FieldFacts.takePreviews
    simp only [h.element, ih]

theorem preview : f.preview b = f.preview a := by
  unfold FieldFacts.preview FieldFacts.joined
  rw [h.takePreviews]

theorem total : f.total b = f.total a := by
  unfold FieldFacts.total FieldFacts.occupied
  simp only [h.first, h.fileSize]

end

/-! ### Names and expressions -/

section

variable {facts : List FieldFacts} {constants : List (String × Int64)} {before : Option Nat}
  {name : String}

/-- Where the later fields are hidden. -/
theorem any_of_within {site : Site} (hw : site.Within k before [name]) {i : Nat} (hi : k ≤ i)
    (hname : site.struct.fieldIndex? name = some i) : before.any (· ≤ i) = true :=
  (hw name (List.mem_singleton_self _) i hname).resolve_right (Nat.not_lt.mpr hi)

/-- **What a name stands for.** -/
theorem lookup (h : a.SharesFirst k b) (ha : a.Within k before [name])
    (hb : b.Within k before [name]) (index : Int64) (isOffset : Bool) :
    b.lookup facts constants before name index isOffset =
      a.lookup facts constants before name index isOffset := by
  unfold Site.lookup
  rw [h.args]
  dsimp only
  split
  · rfl
  · rcases h.struct.fieldIndex?_cases name with ⟨i, _, hia, hib⟩ | ⟨hla, hlb⟩
    · rw [hia, hib]
      simp only [h.valueOffset, h.intValue]
    · -- A hidden name tells nothing, and neither does one that is not there.
      cases hia : a.struct.fieldIndex? name with
      | none =>
        cases hib : b.struct.fieldIndex? name with
        | none =>
          dsimp only
          rw [h.struct.param?]
        | some i =>
          have hparam := h.struct.symm.param?_eq_none (hlb i hib) hib
          dsimp only
          rw [any_of_within hb (hlb i hib) hib, Bool.true_or, if_pos rfl, ← h.struct.param?, hparam]
          rfl
      | some i =>
        have hparam := h.struct.param?_eq_none (hla i hia) hia
        dsimp only
        rw [any_of_within ha (hla i hia) hia, Bool.true_or, if_pos rfl]
        cases hib : b.struct.fieldIndex? name with
        | none =>
          dsimp only
          rw [h.struct.param?, hparam]
          rfl
        | some i' =>
          dsimp only
          rw [any_of_within hb (hlb i' hib) hib, Bool.true_or, if_pos rfl]

theorem namedPreview (h : a.SharesFirst k b) (ha : a.Within k before [name])
    (hb : b.Within k before [name]) :
    b.namedPreview facts before name = a.namedPreview facts before name := by
  unfold Site.namedPreview
  rcases h.struct.fieldIndex?_cases name with ⟨i, _, hia, hib⟩ | ⟨hla, hlb⟩
  · rw [hia, hib]
    simp only [h.preview]
  · have hnone {site : Site} (hw : site.Within k before [name])
        (hlater : ∀ i, site.struct.fieldIndex? name = some i → k ≤ i) :
        site.namedPreview facts before name = pure none := by
      unfold Site.namedPreview
      cases hi : site.struct.fieldIndex? name with
      | none => rfl
      | some i =>
        dsimp only
        rw [if_pos (any_of_within hw (hlater i hi) hi)]
    exact (hnone hb hlb).trans (hnone ha hla).symm

/-- **The value of an expression** in which no later field is to be seen. -/
theorem evaluate (h : a.SharesFirst k b) {expr : Expr} (hquery : expr.hasQuery = false)
    (ha : a.Within k before expr.names) (hb : b.Within k before expr.names) :
    b.evaluate facts constants before expr = a.evaluate facts constants before expr := by
  have hsub {name : String} (hname : name ∈ expr.names) : [name] ⊆ expr.names :=
    List.cons_subset.mpr ⟨hname, List.nil_subset _⟩
  suffices halike : (a.environment facts constants before).Alike
      (b.environment facts constants before) a.ref b.ref expr.names from
    halike.evaluate expr hquery
  refine ⟨rfl, rfl, fun name hname => ?_, fun name hname => ?_, ?_, ?_⟩
  · funext index isOffset
    exact h.lookup (ha.subset (hsub hname)) (hb.subset (hsub hname)) index isOffset
  · exact h.namedPreview (ha.subset (hsub hname)) (hb.subset (hsub hname))
  · funext offset length
    show pure (b.workspace.read b.ref.file offset length) =
      pure (a.workspace.read a.ref.file offset length)
    unfold Workspace.read
    rw [h.file]
  · show Int64.ofNat b.ref.id = Int64.ofNat a.ref.id
    rw [h.id]

end

/-! ### Laying out -/

section

variable {facts : List FieldFacts} {i : Nat} {field : String × Field}

theorem conditionValue (h : a.SharesFirst k b) (ha : a.struct.Flat)
    (hfield : a.struct.field? i = some field) (hi : i < k) :
    b.conditionValue facts i field.2 = a.conditionValue facts i field.2 := by
  unfold Site.conditionValue
  cases hcondition : field.2.condition with
  | none => rfl
  | some condition =>
    have hwithin (site : Site) : site.Within k (some i) condition.expr.names := by
      intro name _ j _
      by_cases hj : i ≤ j
      · exact .inl (decide_eq_true hj)
      · exact .inr (by omega)
    refine h.evaluate (ha.simple hfield condition ?_) (hwithin a) (hwithin b)
    simp [Field.formulas, hcondition]

/-- An expression for the place or the value of a first field sees first fields. -/
theorem within_placing {site : Site} (hflat : site.struct.Flat)
    (hfield : site.struct.field? i = some field) (hi : i < k) {formula : Formula}
    (hformula : formula ∈ field.2.placingFormulas) : site.Within k none formula.expr.names :=
  fun name hname j hj => .inr
    (Nat.lt_trans (hflat.backward hfield formula hformula name hname j hj) hi)

theorem evaluatePlacing (h : a.SharesFirst k b) (ha : a.struct.Flat) (hb : b.struct.Flat)
    (hfield : a.struct.field? i = some field) (hi : i < k) {formula : Formula}
    (hformula : formula ∈ field.2.placingFormulas) (constants : List (String × Int64)) :
    b.evaluate facts constants none formula.expr = a.evaluate facts constants none formula.expr :=
  h.evaluate (ha.simple hfield formula (List.mem_append_left _ (List.mem_append_left _ hformula)))
    (within_placing ha hfield hi hformula)
    (within_placing hb ((h.struct.fields i hi).trans hfield) hi hformula)

/-- A count is not told by a later field, but by an argument or a parameter of the name. -/
theorem unlimitedCount_of_later {site : Site} {field : Field} {source : String}
    (hsource : field.countSource = .named source)
    (hlater : ∀ j, site.struct.fieldIndex? source = some j → k ≤ j) (hi : i < k) :
    site.unlimitedCount facts i field = pure ((site.argOrParam source).elim 0 (· + field.count)) := by
  unfold Site.unlimitedCount
  rw [hsource]
  dsimp only
  cases hj : site.struct.fieldIndex? source with
  | none => rfl
  | some j =>
    have hle := hlater j hj
    dsimp only
    rw [if_neg (by omega)]
    rfl

theorem unlimitedCount (h : a.SharesFirst k b) (hi : i < k) :
    b.unlimitedCount facts i field.2 = a.unlimitedCount facts i field.2 := by
  cases hsource : field.2.countSource with
  | literal =>
    unfold Site.unlimitedCount
    rw [hsource]
  | fileSize =>
    unfold Site.unlimitedCount
    rw [hsource, h.fileSize]
  | named source =>
    rcases h.struct.fieldIndex?_cases source with ⟨j, _, hja, hjb⟩ | ⟨hla, hlb⟩
    · unfold Site.unlimitedCount
      rw [hsource]
      dsimp only
      rw [hja, hjb]
      simp only [h.intValue, h.argOrParam]
    · rw [unlimitedCount_of_later hsource hla hi, unlimitedCount_of_later hsource hlb hi,
        h.argOrParam]

/-- **The facts about one of the first fields.** -/
theorem factsOf (h : a.SharesFirst k b) (ha : a.struct.Flat) (hb : b.struct.Flat)
    (hfield : a.struct.field? i = some field) (hi : i < k) (present : Bool) (origin : Int64) :
    b.factsOf facts i field.2 present origin = a.factsOf facts i field.2 present origin := by
  have hoffset : b.offsetOf facts field.2 present origin =
      a.offsetOf facts field.2 present origin := by
    unfold Site.offsetOf
    rw [h.struct.packed]
    cases hformula : field.2.offsetFormula with
    | none => rfl
    | some formula =>
      dsimp only
      rw [h.evaluatePlacing ha hb hfield hi (by simp [Field.placingFormulas, hformula])]
  have hcount : b.countOf facts i field.2 present = a.countOf facts i field.2 present := by
    unfold Site.countOf
    rw [h.unlimitedCount hi]
    simp only [h.limited]
  have hvalue : b.valueOf facts field.2 origin = a.valueOf facts field.2 origin := by
    unfold Site.valueOf
    cases hformula : field.2.value with
    | none => rfl
    | some formula =>
      exact h.evaluatePlacing ha hb hfield hi (by simp [Field.placingFormulas, hformula]) _
  unfold Site.factsOf
  rw [hoffset, hcount, hvalue]

/-- **The first fields are laid out alike.** -/
theorem layOut (h : a.SharesFirst k b) (ha : a.struct.Flat) (hb : b.struct.Flat) {n : Nat}
    (hn : n ≤ k) : b.layOut n = a.layOut n := by
  induction n with
  | zero =>
    unfold Site.layOut
    rw [h.offset]
  | succ n ih =>
    have hi : n < k := hn
    unfold Site.layOut
    rw [ih (Nat.le_of_lt hi), h.struct.fields n hi, h.struct.packed]
    refine bind_congr fun p => ?_
    cases hfield : a.struct.field? n with
    | none => rfl
    | some field =>
      dsimp only
      rw [h.conditionValue ha hfield hi]
      simp only [h.factsOf ha hb hfield hi, h.total]

end

end Site.SharesFirst

namespace Inquiry

variable {k i : Nat} {a b : Site}

end Inquiry

/-! ## 4. Workspaces in which nothing but questions has been asked -/

/-- What is asked of an instance is a question. -/
theorem Inquiry.question (q : Inquiry) (isLazy : Bool) : Question fun r => q.ask r isLazy := by
  cases q with
  | isPresent i => exact .isPresent i isLazy
  | fieldOffset i => exact .fieldOffset i isLazy
  | valueOffset i n => exact .valueOffset i n isLazy
  | elementCount i => exact .elementCount i isLazy
  | totalSize i => exact .totalSize i isLazy
  | fieldPreview i => exact .fieldPreview i isLazy
  | valuePreview i n => exact .valuePreview i n
  | intValue i n => exact .intValue i n
  | size => exact .size isLazy
  | canCreateNext loose => exact .canCreateNext isLazy loose

namespace Workspace

section

variable {ws : Workspace} {n : Nat} {i : Instance}

end

section

variable {ws₁ ws₂ : Workspace} {n₁ n₂ : Nat} {i₁ i₂ : Instance} {d₁ d₂ : StructDef} {k j : Nat}

end

end Workspace

end ByteAtlas
