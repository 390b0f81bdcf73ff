import ByteAtlas.Proofs.Resolve.Known

/-!
# Arguments, and sizes that they make up

Where no argument of a child is taken from a field of its parent, computing the arguments changes
nothing (`Resolver.runIn_argValues_of_plain`). Where a definition adds its size to an argument or a
parameter (`StructDef.SizedBy`), measuring changes nothing either, and what becomes known is what
the arguments of that moment make up (`Resolver.runIn_size_of_sizedBy`).
-/

namespace ByteAtlas

/-! ## 1. Arguments -/

/-- Whether no argument for the children in a field is taken from a field. -/
def Field.PlainArgs (d : StructDef) (f : Field) : Prop :=
  ∀ b ∈ f.args, ∀ name, b.source = some name → d.fieldIndex? name = none

/-- **Whether children of a struct get an argument that is taken from a field** of the instance that
they are in. -/
def Schema.BindsFields (s : Schema) (struct : String) : Prop :=
  ∃ name d f, s.get? name = some d ∧ f ∈ d.fields.entries ∧ f.2.type = .struct struct ∧
    ¬ f.2.PlainArgs d

/-- Arguments that are not taken from fields are there at once. -/
theorem Resolver.runIn_argValues_of_plain (resolver : Resolver) {ws : Workspace} {r : InstanceRef}
    {d : StructDef} (hd : ws.structOf? r = some d) (bs : List ArgBinding)
    (hplain : ∀ b ∈ bs, ∀ name, b.source = some name → d.fieldIndex? name = none) :
    ∃ args, (resolver.argValues r bs).runIn ws = (.ok args, ws) := by
  induction bs with
  | nil => exact ⟨[], rfl⟩
  | cons b bs ih =>
    obtain ⟨hb, hbs⟩ := List.forall_mem_cons.mp hplain
    obtain ⟨args, hargs⟩ := ih hbs
    have hvalue : ∃ value, (resolver.argValue r b).runIn ws = (.ok value, ws) := by
      unfold Resolver.argValue
      cases hsource : b.source with
      | none => exact ⟨_, rfl⟩
      | some name =>
        refine ⟨((ws.argOf? r name).or (d.param? name)).elim 0 (· + b.value), ?_⟩
        simp only [structOf?, Resolve.runIn_bind, Resolve.runIn_ask, hd, Option.getD_some,
          Resolver.namedValue, hb name hsource, argOrParam, Resolve.runIn_pure]
    obtain ⟨value, hvalue⟩ := hvalue
    refine ⟨⟨b.name, value⟩ :: args, ?_⟩
    simp only [Resolver.argValues, Resolve.runIn_bind, hvalue, hargs, Resolve.runIn_pure]

/-! ## 2. Sizes -/

/-- **Whether the size is added to what a name stands for that is no field**, but an argument or a
parameter. -/
structure StructDef.SizedBy (d : StructDef) (source : String) : Prop where
  sizeSource : d.sizeSource = some source
  noField : d.fieldIndex? source = none

/-- The size that such a definition tells where the name is bound to a value, or is not bound. -/
def StructDef.sizeWith (d : StructDef) (source : String) (arg : Option Int64) : Int64 :=
  (arg.or (d.param? source)).getD 0 + d.size

/-- A size that an argument or a parameter makes up is measured without anything being changed. -/
theorem Resolver.runIn_measureSize_of_sizedBy (resolver : Resolver) (ws : Workspace)
    (r : InstanceRef) {d : StructDef} {source : String} (h : d.SizedBy source) (isLazy : Bool) :
    (unlessCutShort (resolver.measureSize r d isLazy)).runIn ws =
      (.ok (if isLazy then none else some (d.sizeWith source (ws.argOf? r source))), ws) := by
  have hmeasure : (resolver.measureSize r d isLazy).runIn ws =
      (.ok (if isLazy then none else some (d.sizeWith source (ws.argOf? r source))), ws) := by
    unfold Resolver.measureSize Resolver.namedValue
    rw [h.sizeSource]
    cases isLazy with
    | true => rfl
    | false =>
      dsimp only
      rw [if_neg (by decide), Resolve.runIn_bind, h.noField]
      rfl
  simp only [unlessCutShort, Resolve.runIn_bind, Resolve.runIn_ask, hmeasure, if_true,
    Resolve.runIn_pure]

/-- Such a size is noted, if it is not known yet. -/
theorem Resolver.runIn_size_of_sizedBy (resolver : Resolver) {ws : Workspace} {r : InstanceRef}
    {d : StructDef} (hd : ws.structOf? r = some d) {source : String} (h : d.SizedBy source)
    (hunknown : (ws.layoutOf r).sizeFor? (ws.stampOf r d) = none) :
    (resolver.size r false).runIn ws =
      (.ok (some (d.sizeWith source (ws.argOf? r source))), ws.modifyLayout r
        (·.setSize (ws.stampOf r d) (d.sizeWith source (ws.argOf? r source)))) := by
  unfold Resolver.size
  simp only [structOf?, layoutOf, modifyLayout, Resolve.runIn_bind, Resolve.runIn_ask, hd, hunknown,
    resolver.runIn_measureSize_of_sizedBy ws r h, Bool.false_eq_true, if_false,
    Resolve.runIn_change, Resolve.runIn_pure]

end ByteAtlas
