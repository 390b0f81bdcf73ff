import Mathlib
import ByteAtlas.Proofs.Resolve.Known

/-!
# Count sources that name nothing

A field may add its count to a named value. `Schema.check` and the resolver both decide whether the
name stands for something, each in its own way: the check is content with any field or parameter of
the definition (`Schema.mem_check`), while a field that is counted only sees the fields before it
(`Resolver.runIn_countBase`). A name of the field itself or of a later one that is no parameter is
therefore not reported, and the count is 0 (`Workspace.KnowsField.undefined_count`).
-/

namespace ByteAtlas

/-! ## 1. What the check reports -/

theorem isSome_valueIn {α : Type} (name : String) : ∀ es : List (String × α),
    (valueIn name es).isSome = (indexIn name es).isSome
  | [] => rfl
  | (n, v) :: es => by
    by_cases h : n = name
    · simp [valueIn, indexIn, h]
    · simp [valueIn, indexIn, h, isSome_valueIn name es]

/-- Whether a definition knows a name: as a field, wherever it stands, or as a parameter. -/
theorem StructDef.knows_eq_false {d : StructDef} {name : String} :
    (d.fields.contains name || (d.param? name).isSome) = false ↔
      d.fieldIndex? name = none ∧ d.param? name = none := by
  rw [NameMap.contains, NameMap.get?, isSome_valueIn, StructDef.fieldIndex?, NameMap.indexOf?]
  cases indexIn name d.fields.entries <;> cases d.param? name <;> simp

namespace Schema

variable {s : Schema} {struct name source : String} {d : StructDef}

/-- What the check reports of the type of a field. -/
def typeProblems (s : Schema) (owner field : String) : ElementType → List SchemaError
  | .struct type =>
    if (s.get? type).isSome then [] else [SchemaError.undefinedFieldType owner field type]
  | .scalar _ => []

/-- What it reports of the count source. -/
def countProblems (d : StructDef) (owner field : String) : CountSource → List SchemaError
  | .named source =>
    if d.fields.contains source || (d.param? source).isSome then []
    else [SchemaError.undefinedSource owner (some field) source]
  | .literal | .fileSize => []

theorem fieldProblems_cons (s : Schema) (owner : String) (d : StructDef) (e : String × Field)
    (es : List (String × Field)) :
    s.fieldProblems owner d (e :: es) =
      s.typeProblems owner e.1 e.2.type ++ countProblems d owner e.1 e.2.countSource ++
        s.fieldProblems owner d es := by
  rw [fieldProblems]
  rcases e.2.type with _ | _ <;> rcases e.2.countSource with _ | _ | _ <;> rfl

theorem not_mem_typeProblems (owner field : String) (type : ElementType) :
    .undefinedSource struct (some name) source ∉ s.typeProblems owner field type := by
  cases type with
  | scalar _ => simp [typeProblems]
  | struct type =>
    unfold typeProblems
    split <;> simp

theorem mem_countProblems {owner field : String} {count : CountSource} :
    .undefinedSource struct (some name) source ∈ countProblems d owner field count ↔
      (owner = struct ∧ field = name ∧ count = .named source) ∧
        d.fieldIndex? source = none ∧ d.param? source = none := by
  rw [← StructDef.knows_eq_false]
  cases count with
  | literal => simp [countProblems]
  | fileSize => simp [countProblems]
  | named other =>
    unfold countProblems
    dsimp only
    by_cases hknown : (d.fields.contains other || (d.param? other).isSome) = true
    · rw [if_pos hknown]
      simp only [List.not_mem_nil, false_iff]
      rintro ⟨⟨-, -, hother⟩, hunknown⟩
      cases hother
      rw [hknown] at hunknown
      exact nomatch hunknown
    · rw [if_neg hknown, List.mem_singleton]
      constructor
      · intro h
        cases h
        exact ⟨⟨rfl, rfl, rfl⟩, Bool.eq_false_iff.mpr hknown⟩
      · rintro ⟨⟨rfl, rfl, hother⟩, -⟩
        cases hother
        rfl

/-- The fields of which an undefined count source is reported. -/
theorem mem_fieldProblems {owner : String} {fields : List (String × Field)} :
    .undefinedSource struct (some name) source ∈ s.fieldProblems owner d fields ↔
      owner = struct ∧ (∃ f, (name, f) ∈ fields ∧ f.countSource = .named source) ∧
        d.fieldIndex? source = none ∧ d.param? source = none := by
  induction fields with
  | nil => simp [fieldProblems]
  | cons e fields ih =>
    obtain ⟨field, f⟩ := e
    rw [fieldProblems_cons, List.mem_append, List.mem_append, ih, mem_countProblems]
    simp only [not_mem_typeProblems, false_or, List.mem_cons, Prod.mk.injEq]
    constructor
    · rintro (⟨⟨howner, rfl, hsource⟩, hnone⟩ | ⟨howner, ⟨f', hf', hsource⟩, hnone⟩)
      · exact ⟨howner, ⟨f, .inl ⟨rfl, rfl⟩, hsource⟩, hnone⟩
      · exact ⟨howner, ⟨f', .inr hf', hsource⟩, hnone⟩
    · rintro ⟨howner, ⟨f', ⟨rfl, rfl⟩ | hf', hsource⟩, hnone⟩
      · exact .inl ⟨⟨howner, rfl, hsource⟩, hnone⟩
      · exact .inr ⟨howner, ⟨f', hf', hsource⟩, hnone⟩

/-- **The undefined count sources that a check reports** are those that name no field and no
parameter of the definition. -/
theorem mem_check {i : Nat} {f : Field} (hd : s.get? struct = some d)
    (hf : d.field? i = some (name, f)) (hsource : f.countSource = .named source) :
    .undefinedSource struct (some name) source ∈ s.check ↔
      d.fieldIndex? source = none ∧ d.param? source = none := by
  have hmem : (name, f) ∈ d.fields.entries := List.mem_of_getElem? hf
  constructor
  · intro h
    obtain ⟨⟨owner, d'⟩, howner, hproblem⟩ := List.mem_flatMap.mp h
    have hd' : s.get? owner = some d' := Std.TreeMap.mem_toList_iff_getElem?_eq_some.mp howner
    rcases List.mem_append.mp hproblem with hfield | hsize
    · obtain ⟨rfl, -, hnone⟩ := mem_fieldProblems.mp hfield
      cases hd.symm.trans hd'
      exact hnone
    · exfalso
      dsimp only at hsize
      split at hsize
      · split at hsize <;> simp at hsize
      · simp at hsize
  · intro hnone
    refine List.mem_flatMap.mpr ⟨(struct, d), Std.TreeMap.mem_toList_iff_getElem?_eq_some.mpr hd,
      List.mem_append_left _ (mem_fieldProblems.mpr ⟨rfl, ⟨f, hmem, hsource⟩, hnone⟩)⟩

end Schema

/-! ## 2. What a field that is counted finds -/

/-- The value of a count source for the field at `i`, if there is one: of a field before this one,
of an argument or of a parameter. -/
def Resolver.countBase (resolver : Resolver) (r : InstanceRef) (d : StructDef) (i : Nat)
    (source : String) : Resolve (Option Int64) :=
  match d.fieldIndex? source with
  | some j => if j < i then some <$> resolver.intValue r j 0 else argOrParam r d source
  | none => argOrParam r d source

section

variable {ws : Workspace} {r : InstanceRef} {d : StructDef} {i : Nat} {name source : String}
  {f : Field} {e : FieldEntry}

/-- Whether a name counts for the field at `i` in an instance without arguments. -/
def StructDef.FindsCount (d : StructDef) (i : Nat) (source : String) : Prop :=
  (∃ j, d.fieldIndex? source = some j ∧ j < i) ∨ (d.param? source).isSome

theorem Resolver.countBase_of_field (resolver : Resolver) {j : Nat}
    (hj : d.fieldIndex? source = some j) (hlt : j < i) :
    resolver.countBase r d i source = some <$> resolver.intValue r j 0 := by
  unfold countBase
  rw [hj]
  exact if_pos hlt

theorem Resolver.countBase_of_no_field (resolver : Resolver)
    (hnot : ¬ ∃ j, d.fieldIndex? source = some j ∧ j < i) :
    resolver.countBase r d i source = argOrParam r d source := by
  unfold countBase
  cases hj : d.fieldIndex? source with
  | none => rfl
  | some j => exact if_neg fun hlt => hnot ⟨j, hj, hlt⟩

theorem Workspace.runIn_argOrParam_of_plain (harg : ws.argOf? r source = none) :
    (argOrParam r d source).runIn ws = (.ok (d.param? source), ws) := by
  rw [argOrParam, Resolve.runIn_ask, harg, Option.none_or]

/-- **In an instance without arguments a count source finds nothing** exactly if neither a field
before this one nor a parameter has the name. -/
theorem Resolver.runIn_countBase (resolver : Resolver) (harg : ws.argOf? r source = none) :
    ((resolver.countBase r d i source).runIn ws).1 = .ok none ↔ ¬ d.FindsCount i source := by
  by_cases hfield : ∃ j, d.fieldIndex? source = some j ∧ j < i
  · -- A field always has a value, if only 0.
    obtain ⟨j, hj, hlt⟩ := hfield
    rw [resolver.countBase_of_field hj hlt, Resolve.runIn_map]
    refine iff_of_false (fun hnone => ?_) fun hnot => hnot (.inl ⟨j, hj, hlt⟩)
    cases hvalue : ((resolver.intValue r j 0).runIn ws).1 <;> simp [hvalue, Except.map] at hnone
  · rw [resolver.countBase_of_no_field hfield, Workspace.runIn_argOrParam_of_plain harg]
    simp [StructDef.FindsCount, hfield]

/-- A field that is laid out and has not been counted is counted from what its source finds. -/
theorem Workspace.KnowsField.elementCount_named (h : ws.KnowsField r i (name, f) e)
    (hd : ws.structOf? r = some d) (hpresent : e.present = true) (huncounted : e.count = none)
    (hvalue : f.value = none) (hsource : f.countSource = .named source) (resolver : Resolver)
    (isLazy : Bool) :
    ∃ ws₁, ws.Sets r (ws.layoutOf r) ws₁ ∧ (resolver.elementCount r i isLazy).runIn ws =
      Resolve.runIn (do
        let count ← unlessCutShort do
          let base ← resolver.countBase r d i source
          pure (some (base.elim 0 (· + f.count)))
        match count with
        | none => pure none
        | some count => do
          let count ← limitCount count
          modifyEntry r i fun e => { e with count := some count }
          pure (some count)) ws₁ := by
  obtain ⟨ws₁, hrun, hset, h₁⟩ := resolver.runIn_enumerate_of_knows h isLazy
  refine ⟨ws₁, hset, ?_⟩
  have hfield : d.field? i = some (name, f) := (fieldOf?_eq hd i).symm.trans h.field
  rw [Resolver.elementCount]
  simp only [Resolve.runIn_bind, hrun, ByteAtlas.entryOf?, Resolve.runIn_ask, h₁.entry, huncounted,
    hpresent, Option.isSome_none, Bool.not_true, Bool.false_eq_true, if_false, unlessCutShort,
    ByteAtlas.structOf?, hset.structOf? r, hd, Option.getD_some, hfield, hvalue, hsource]
  by_cases hearlier : ∃ j, d.fieldIndex? source = some j ∧ j < i
  · obtain ⟨j, hj, hlt⟩ := hearlier
    rw [resolver.countBase_of_field hj hlt]
    simp only [hj, hlt, dite_true, Resolve.runIn_bind]
    rfl
  · rw [resolver.countBase_of_no_field hearlier]
    cases hj : d.fieldIndex? source with
    | none => rfl
    | some j =>
      have hnot : ¬ j < i := fun hlt => hearlier ⟨j, hj, hlt⟩
      simp only [hnot, dite_false]
      rfl

/-- **A count whose source finds nothing is 0**, whatever the field adds to it. -/
theorem Workspace.KnowsField.runIn_elementCount_of_unfound (h : ws.KnowsField r i (name, f) e)
    (hd : ws.structOf? r = some d) (hlimit : 0 ≤ ws.limits.maxElements)
    (harg : ws.argOf? r source = none) (hpresent : e.present = true) (huncounted : e.count = none)
    (hvalue : f.value = none) (hsource : f.countSource = .named source)
    (hnot : ¬ d.FindsCount i source) (resolver : Resolver) (isLazy : Bool) :
    ∃ ws', (resolver.elementCount r i isLazy).runIn ws = (.ok (some 0), ws') := by
  obtain ⟨ws₁, hset, hrun⟩ :=
    h.elementCount_named hd hpresent huncounted hvalue hsource resolver isLazy
  have hlimits : ws₁.limits = ws.limits := by
    obtain ⟨⟨_, rfl⟩, -⟩ := hset
    rfl
  have harg₁ : ws₁.argOf? r source = none := by
    rw [argOf?, find?, hset.directory]
    exact harg
  have hbase : (resolver.countBase r d i source).runIn ws₁ = (.ok none, ws₁) := by
    have hparam : d.param? source = none :=
      Option.not_isSome_iff_eq_none.mp fun hsome => hnot (.inr hsome)
    rw [resolver.countBase_of_no_field fun hfield => hnot (.inl hfield),
      runIn_argOrParam_of_plain harg₁, hparam]
  have hlimited : (limitCount 0).runIn ws₁ = (.ok 0, ws₁) := by
    unfold limitCount
    have hnot : ¬ ws₁.limits.maxElements < 0 := by
      rw [hlimits]
      exact Int64.not_lt.mpr hlimit
    simp [Resolve.runIn_bind, hnot]
  refine ⟨ws₁.modifyLayout r (·.modifyEntry i fun e => { e with count := some 0 }), ?_⟩
  rw [hrun]
  simp only [unlessCutShort, Resolve.runIn_bind, Resolve.runIn_ask, hbase, Option.elim_none,
    Resolve.runIn_pure, if_true, hlimited]
  rfl

/-- **The check and the resolver on count sources.** Of an instance without arguments: what the
check reports as undefined, a field that is counted does not find, and its count is then 0. What it
does not find is reported unless the name is that of the field itself or of a later one. -/
theorem Workspace.KnowsField.undefined_count (h : ws.KnowsField r i (name, f) e)
    (hd : ws.structOf? r = some d) (hsource : f.countSource = .named source)
    (harg : ws.argOf? r source = none) (resolver : Resolver) :
    let reported := SchemaError.undefinedSource r.struct (some name) source ∈ ws.schema.check
    let unfound := ((resolver.countBase r d i source).runIn ws).1 = .ok none
    (reported → unfound) ∧
      (unfound → (¬ reported ↔ ∃ j, d.fieldIndex? source = some j ∧ i ≤ j)) ∧
      (unfound → 0 ≤ ws.limits.maxElements → e.present = true → e.count = none → f.value = none →
        ∀ isLazy, ∃ ws', (resolver.elementCount r i isLazy).runIn ws = (.ok (some 0), ws')) := by
  have hfield : d.field? i = some (name, f) := (fieldOf?_eq hd i).symm.trans h.field
  dsimp only
  rw [Schema.mem_check hd hfield hsource, resolver.runIn_countBase harg]
  refine ⟨?_, fun hnot => ?_, fun hnot hlimit hpresent huncounted hvalue =>
    h.runIn_elementCount_of_unfound hd hlimit harg hpresent huncounted hvalue hsource hnot
      resolver⟩
  · rintro ⟨hfields, hparam⟩ (⟨j, hj, -⟩ | hsome)
    · cases hfields.symm.trans hj
    · rw [hparam] at hsome
      cases hsome
  · have hparam : d.param? source = none :=
      Option.not_isSome_iff_eq_none.mp fun hsome => hnot (.inr hsome)
    cases hj : d.fieldIndex? source with
    | none => simp [hparam]
    | some j =>
      have hle : i ≤ j := Nat.le_of_not_lt fun hlt => hnot (.inl ⟨j, hj, hlt⟩)
      simp [hle]

end

namespace Workspace

/-- A table whose items are as many as a field after them tells. -/
def forwardTable : StructDef :=
  { StructDef.empty with
    fields := ⟨[("items", { Field.ofType (.scalar .char) with
        count := 1, countSource := .named "n" }),
      ("n", Field.ofType (.scalar .char))], by decide⟩ }

def forwardRef : InstanceRef := ⟨0, ⟨"Table", 0, 0⟩⟩

/-- A workspace with such a table, its first field laid out. -/
def withForwardTable : Workspace :=
  ((forwardRef.isPresent 0 false).runIn
    ((ofSchema ⟨(∅ : Std.TreeMap String StructDef).insert "Table" forwardTable, 0⟩ .default).place
      (.single forwardRef.location .user)).2).2

/-- The check is content with a count source that comes later, and the count is 0. -/
theorem undefined_count_forward :
    SchemaError.undefinedSource "Table" (some "items") "n" ∉ withForwardTable.schema.check ∧
      ∃ ws', ((Resolver.within 0).elementCount forwardRef 0 false).runIn withForwardTable =
        (.ok (some 0), ws') := by
  have hknows : withForwardTable.KnowsField forwardRef 0
      ("items", { Field.ofType (.scalar .char) with count := 1, countSource := .named "n" })
      { FieldEntry.reached true 0 with offset := some 0 } := by
    refine .of_entry rfl (fun d hd => ?_) (by cbv)
    cases hd
    cbv
  have hnot : ¬ forwardTable.FindsCount 0 "n" := by
    rintro (⟨j, -, hlt⟩ | hparam)
    · exact absurd hlt (Nat.not_lt_zero j)
    · exact absurd hparam (by decide)
  have hstruct : withForwardTable.structOf? forwardRef = some forwardTable := rfl
  have hargs : withForwardTable.argOf? forwardRef "n" = none := rfl
  obtain ⟨-, hreported, hcount⟩ := hknows.undefined_count hstruct rfl hargs (.within 0)
  have hunfound : (((Resolver.within 0).countBase forwardRef forwardTable 0 "n").runIn
      withForwardTable).1 = .ok none := (Resolver.runIn_countBase _ rfl).mpr hnot
  exact ⟨(hreported hunfound).mpr ⟨1, rfl, Nat.zero_le 1⟩,
    hcount hunfound (by decide) rfl rfl rfl false⟩

end Workspace

end ByteAtlas
