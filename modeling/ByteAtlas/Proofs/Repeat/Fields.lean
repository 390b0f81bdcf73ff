import ByteAtlas.Proofs.Repeat.Steps

/-!
# Questions about fields repeat themselves

What is asked of an instance between two requests is noted in its layout, and an answer that has
been noted is the answer from then on. So most questions repeat themselves because they are known
(`Resolve.Repeats.of_ends`). The value that an expression gives to a field is the exception: whoever
asks for an element after the first has it evaluated each time.
-/

namespace ByteAtlas

open Resolve (Ends Repeats RepeatsIf)

/-- The formulas of a field that are evaluated for all of its instance. -/
def Field.elementFormulas (f : Field) : List Formula :=
  f.placingFormulas ++ f.elementCondition.toList

/-- **Whether the expressions of a schema ask for the live instances of a struct.** Those that are
the conditions of fields do not, because nothing is found for them. -/
def Schema.AsksFor (s : Schema) (struct : String) : Prop :=
  ∃ name d f formula, s.get? name = some d ∧ f ∈ d.fields.entries ∧
    formula ∈ f.2.elementFormulas ∧ struct ∈ formula.expr.queried

/-- **Whether evaluating with a resolver repeats itself**, if all structs are seen that are asked
for. -/
structure Resolver.Repeating (once : Prop) (schema : Schema) (seen : String → Prop)
    (resolver : Resolver) : Prop where
  reliable : resolver.Reliable once
  onlyAdds : ∀ {asked placed : String → Prop}, schema.Closed asked placed →
    resolver.OnlyAdds schema asked placed
  asks : ∀ {struct : String}, schema.AsksFor struct → seen struct
  evaluate : ∀ {ws : Workspace} (scope : Scope) (expr : Expr), ws.Calm once schema →
    ws.IsLive scope.root → (∀ struct ∈ expr.queried, seen struct) →
    Repeats once schema seen ws (resolver.evaluate scope expr) fun _ _ => True

namespace Workspace

variable {once : Prop} {schema : Schema} {seen : String → Prop} {ws ws' : Workspace}
  {r : InstanceRef} {i : Nat} {f : String × Field} {e : FieldEntry}

/-- **A field that has been asked for is known** from then on. -/
theorem Calm.knows (hc : ws.Calm once schema) (hr : ws.IsLive r) (hf : ws.fieldOf? r i = some f)
    (hlater : ws.Later seen ws') (hreached : ws.Reaches ws' r (i + 1) false) :
    ∃ e, ws'.KnowsField r i f e := by
  exact KnowsField.of_laidOut ((hlater.fieldOf? r i).trans hf) hreached.1
    (hreached.2 rfl hlater.quiet (hc.idle r hr))

/-- What has been read of a field that is known. -/
theorem KnowsField.hasRead (h : ws.KnowsField r i f e) {n : Nat} (hread : ws.HasRead r i n) :
    n < e.values.size ∨ f.2.Exhausted e :=
  hread f e h.field h.entry

/-- **An element that has been read, or that is not there, stays as it is.** -/
theorem KnowsField.element_eq (h : ws.KnowsField r i f e) (hr : ws.IsLive r) {n : Nat}
    (hread : ws.HasRead r i n) (hg : ws.Grows ws') :
    ((ws'.entryOf? r i).bind fun e => e.values[n]?) =
      (ws.entryOf? r i).bind fun e => e.values[n]? := by
  obtain ⟨e', h', hgrow⟩ := h.grows hr hg
  rw [h'.entry, h.entry, Option.bind_some, Option.bind_some]
  rcases h.hasRead hread with hlt | hex
  · exact hgrow.getElem?_eq hlt
  · rw [(hgrow.exhausted f.2 rfl hex).2]

/-- A field of an instance is one of its definition. -/
theorem Calm.field_mem (hc : ws.Calm once schema) (hf : ws.fieldOf? r i = some f) :
    ∃ d, schema.get? r.struct = some d ∧ f ∈ d.fields.entries := by
  obtain ⟨d, hd, hfield⟩ := structOf?_of_fieldOf? hf
  refine ⟨d, ?_, List.mem_of_getElem? hfield⟩
  rw [← hc.schema]
  exact hd

end Workspace

/-- Of what is known of a field, its value depends only on where it would start. -/
theorem Resolver.readFormula_of_origin (resolver : Resolver) {r : InstanceRef} {i : Nat}
    {e e' : FieldEntry} (h : e'.origin = e.origin) (formula : Formula) (wanted : Wanted) :
    resolver.readFormula r i e' formula wanted = resolver.readFormula r i e formula wanted := by
  unfold Resolver.readFormula
  rw [h]

namespace Resolver.Repeating

variable {once : Prop} {schema : Schema} {seen : String → Prop} {resolver : Resolver}
  (h : resolver.Repeating once schema seen) {ws : Workspace} (hc : ws.Calm once schema)
  {r : InstanceRef} (hr : ws.IsLive r)
include h hc hr

/-- What an expression of a field asks for is seen. -/
theorem evaluateField {i : Nat} {f : String × Field} {formula : Formula}
    (hf : ws.fieldOf? r i = some f) (hformula : formula ∈ f.2.elementFormulas)
    (constants : List (String × Int64)) :
    Repeats once schema seen ws (resolver.evaluate (.withConstants r constants) formula.expr)
      fun _ _ => True := by
  obtain ⟨d, hd, hmem⟩ := hc.field_mem hf
  exact h.evaluate _ _ hc hr fun struct hq => h.asks ⟨_, d, f, formula, hd, hmem, hformula, hq⟩

section

variable {i : Nat} {f : String × Field} (hf : ws.fieldOf? r i = some f)
include hf

/-! ## 1. Presence, offset and count -/

theorem enumerate : Repeats once schema seen ws (resolver.enumerate r (i + 1) false)
    fun _ ws' => ws.Reaches ws' r (i + 1) false := by
  refine Repeats.of_ends hc (fun w hw hg => h.reliable.enumerate hw.sound (hg.isLive hr) _ _)
    fun _ ws' _ hlater hreached w _ hg => ?_
  obtain ⟨e, hknows⟩ := hc.knows hr hf hlater hreached
  obtain ⟨_, hknows', _⟩ := hknows.grows (hlater.isLive hr) hg
  obtain ⟨w', hrun, hset, _⟩ := resolver.runIn_enumerate_of_knows hknows' false
  exact ⟨w', r, _, hrun, hset⟩

theorem isPresent : Repeats once schema seen ws (resolver.isPresent r i false) fun _ _ => True := by
  refine (Repeats.of_ends hc (fun w hw hg => h.reliable.isPresent hw.sound (hg.isLive hr) i false)
    fun a ws' _ hlater ⟨hreached, ha⟩ w _ hg => ?_).weaken
  obtain ⟨e, hknows⟩ := hc.knows hr hf hlater hreached
  obtain ⟨e', hknows', hgrow⟩ := hknows.grows (hlater.isLive hr) hg
  obtain ⟨w', hrun, hset⟩ := resolver.runIn_isPresent hknows' false
  refine ⟨w', r, _, ?_, hset⟩
  rw [hrun, ha, hknows.entry, Option.map_some, hgrow.present]

theorem fieldOffset :
    Repeats once schema seen ws (resolver.fieldOffset r i false) fun _ _ => True := by
  refine (Repeats.of_ends hc (fun w hw hg => h.reliable.fieldOffset hw.sound (hg.isLive hr) i false)
    fun a ws' _ hlater ⟨hreached, hnoted, _, hmissing⟩ w _ hg => ?_).weaken
  obtain ⟨e, hknows⟩ := hc.knows hr hf hlater hreached
  obtain ⟨e', hknows', hgrow⟩ := hknows.grows (hlater.isLive hr) hg
  -- What has been answered is what is known, and nothing computes an offset if there is none.
  have hsure : e.offset = a ∧ (e.offset.isSome ∨ f.2.offsetFormula = none) := by
    cases a with
    | some n =>
      obtain ⟨e₁, he₁, hn⟩ := hnoted n rfl
      rw [hknows.entry] at he₁
      cases he₁
      exact ⟨hn, .inl (by rw [hn]; rfl)⟩
    | none =>
      obtain ⟨hnone, hplain⟩ := hmissing rfl rfl hlater.quiet f e hknows.field hknows.entry
      exact ⟨hnone, .inr hplain⟩
  have heq := hgrow.offset_eq hsure.2
  obtain ⟨w', hrun, hset⟩ := resolver.runIn_fieldOffset hknows' (by rw [heq]; exact hsure.2) false
  refine ⟨w', r, _, ?_, hset⟩
  rw [hrun, heq, hsure.1]

theorem elementCount :
    Repeats once schema seen ws (resolver.elementCount r i false)
      fun a ws' => ws.Counted ws' r i false a := by
  refine Repeats.of_ends hc (fun w hw hg => h.reliable.elementCount (hg.isLive hr) i false hw.sound)
    fun a ws' _ hlater hcounted w _ hg => ?_
  obtain ⟨e, hknows⟩ := hc.knows hr hf hlater hcounted.reaches
  obtain ⟨e', hknows', hgrow⟩ := hknows.grows (hlater.isLive hr) hg
  cases a with
  | none =>
    have hnone := hcounted.missing rfl hlater.quiet
    rw [hknows.entry] at hnone
    cases hnone
  | some count =>
    obtain ⟨d, hd, _⟩ := Workspace.structOf?_of_fieldOf? hknows.field
    obtain ⟨e₁, he₁, hcount⟩ := hcounted.noted d count hd rfl
    rw [hknows.entry] at he₁
    cases he₁
    obtain ⟨w', hrun, hset⟩ :=
      resolver.runIn_elementCount hknows' (hgrow.count count hcount) false
    exact ⟨w', r, _, hrun, hset⟩

/-! ## 2. Elements -/

/-- The value that an expression gives is computed again, and noted only once. -/
theorem readFormula {formula : Formula} (hvalue : f.2.value = some formula) (entry : FieldEntry)
    (wanted : Wanted) :
    Repeats once schema seen ws (resolver.readFormula r i entry formula wanted)
      fun _ _ => True := by
  have hin : formula ∈ f.2.elementFormulas := by
    simp [Field.elementFormulas, Field.placingFormulas, hvalue]
  refine .bind (.unlessCutShort (h.evaluateField hc hr hf hin _)) fun value ws₁ hc₁ hg₁ _ => ?_
  cases value with
  | none => exact .pure hc₁ trivial
  | some value =>
    refine .bind (.note hc₁ fun w hw hg => ?_) fun _ ws₂ hc₂ _ _ => .pure hc₂ trivial
    have hsome : f.2.value.isSome := by rw [hvalue]; rfl
    have hfield : fieldIn (w.structOf? r) i = some f.2 := by
      rw [(hg₁.trans hg).structOf?, Workspace.fieldIn_structOf?, hf]
      rfl
    obtain ⟨hs, hgrow⟩ := hw.sound.noteFormula ((hg₁.trans hg).isLive hr) hfield hsome value
    exact ⟨hs, hgrow, rfl, rfl⟩

/-- Elements that are read from the file, and the first value that an expression gives, are not read
again. -/
theorem readValues_of_known (n : Nat) (hknown : f.2.value = none ∨ n = 0) :
    Repeats once schema seen ws (resolver.readValues r i (.first (n + 1))) fun _ _ => True := by
  refine (Repeats.of_ends hc (fun w hw hg => h.reliable.readValues hw.sound (hg.isLive hr) i _)
    fun ok ws' _ hlater ⟨hreached, hread⟩ w _ hg => ?_).weaken
  obtain ⟨e, hknows⟩ := hc.knows hr hf hlater hreached
  obtain ⟨e', hknows', hgrow⟩ := hknows.grows (hlater.isLive hr) hg
  obtain ⟨hread, hthere⟩ := hread hlater.quiet n rfl
  have hok : ok = decide (n < e.values.size) := by
    rw [Bool.eq_iff_iff, hthere, decide_eq_true_iff, hknows.entry]
    simp
  have htold : n < e'.values.size ∨ f.2.value = none ∧ f.2.Exhausted e' := by
    rcases hknows.hasRead hread with hlt | hex
    · exact .inl (Nat.lt_of_lt_of_le hlt (by simpa using hgrow.values.length_le))
    · have hex' := (hgrow.exhausted f.2 rfl hex).1
      rcases hknown with hvalue | rfl
      · exact .inr ⟨hvalue, hex'⟩
      · cases hvalue : f.2.value with
        | none => exact .inr ⟨rfl, hex'⟩
        | some _ =>
          refine .inl (Array.size_pos_iff.mpr ?_)
          exact (Field.Exhausted.iff_of_value (by rw [hvalue]; rfl)).mp hex'
  obtain ⟨w', l, hrun, hset, _⟩ := resolver.runIn_readValues hknows' htold
  refine ⟨w', r, l, ?_, hset⟩
  rw [hrun, hok]
  rcases hknows.hasRead hread with hlt | hex
  · have hlt' : n < e'.values.size := Nat.lt_of_lt_of_le hlt (by simpa using hgrow.values.length_le)
    simp only [hlt, hlt']
  · rw [(hgrow.exhausted f.2 rfl hex).2]

/-- Elements after the first value that an expression gives are asked for in vain. -/
theorem readValues_of_formula {n : Nat} (hn : 0 < n) {formula : Formula}
    (hvalue : f.2.value = some formula) :
    Repeats once schema seen ws (resolver.readValues r i (.first (n + 1))) fun _ _ => True := by
  unfold Resolver.readValues Resolver.readValuesWith
  refine .call (h.enumerate hc hr hf) fun _ ws₁ hc₁ hg₁ hreached => ?_
  have hr₁ := hg₁.isLive hr
  have hf₁ := (hg₁.fieldOf? r i).trans hf
  cases he : ws₁.entryOf? r i with
  | none =>
    refine .of_not_same hc₁ (.ask ?_) fun _ ⟨hlater, _⟩ => ?_
    · rw [he]
      exact .pure hc₁.sound (.refl ws₁) trivial
    · obtain ⟨e, hknows⟩ := hc.knows hr hf hlater hreached
      rw [hknows.entry] at he
      cases he
  | some e =>
    have hknows := Workspace.KnowsField.of_entry hf₁ hreached.1 he
    refine .look (fun w _ hlater _ => ?_) ?_
    · obtain ⟨e', hknows', hgrow⟩ := hknows.grows hr₁ hlater.toGrows
      -- There is one value at most, so it is asked for whether it has been noted or not.
      have hsize : decide (n + 1 ≤ e'.values.size) = decide (n + 1 ≤ e.values.size) := by
        by_cases hempty : e.values = #[]
        · have hsingle := hgrow.single f.2 rfl (by rw [hvalue]; rfl) hempty
          rw [hempty, decide_eq_decide]
          simp
          omega
        · rw [(hgrow.exhausted f.2 rfl ((Field.Exhausted.iff_of_value (by rw [hvalue]; rfl)).mpr
            hempty)).2]
      rw [hknows'.entry, he]
      by_cases hmet : n + 1 ≤ e.values.size
      · simp only [Wanted.metBy, hsize, hmet, decide_true, if_true]
      · simp only [Wanted.metBy, hsize, hmet, decide_false, Bool.false_eq_true, if_false, fieldOf?,
          Resolve.runIn_bind, Resolve.runIn_ask, hknows'.field, hvalue,
          resolver.readFormula_of_origin hgrow.origin]
    · rw [he]
      dsimp only
      split
      · exact .of_repeats (.pure hc₁ trivial)
      · refine .of_repeats (.ask (fun w _ hlater => hlater.fieldOf? r i) ?_)
        rw [hf₁]
        simp only [hvalue]
        exact h.readFormula hc₁ hr₁ hf₁ hvalue e _

theorem readValues (n : Nat) :
    Repeats once schema seen ws (resolver.readValues r i (.first (n + 1))) fun ok ws' =>
      ws.Reaches ws' r (i + 1) false ∧ ws.ReadsTo ws' r i (.first (n + 1)) ok := by
  refine (?_ : Repeats once schema seen ws _ fun _ _ => True).withPost
    (h.reliable.readValues hc.sound hr i (.first (n + 1)))
  cases hvalue : f.2.value with
  | none => exact h.readValues_of_known hc hr hf n (.inl hvalue)
  | some formula =>
    rcases Nat.eq_zero_or_pos n with hzero | hpos
    · exact h.readValues_of_known hc hr hf n (.inr hzero)
    · exact h.readValues_of_formula hc hr hf hpos hvalue

theorem intValue (n : Nat) :
    Repeats once schema seen ws (resolver.intValue r i n) fun _ _ => True := by
  unfold Resolver.intValue Resolver.intValueWith
  refine .call (h.readValues hc hr hf n) fun ok ws₁ hc₁ hg₁ ⟨hreached, hread⟩ => ?_
  split
  · refine .look (fun w _ hlater ⟨hfirst, _⟩ => ?_) (.pure hc₁ trivial fun _ _ _ => trivial)
    obtain ⟨e, hknows⟩ := hc.knows hr hf hfirst hreached
    rw [hknows.element_eq (hg₁.isLive hr) (hread hfirst.quiet n rfl).1 hlater.toGrows]
  · exact .of_repeats (.pure hc₁ trivial)

/-! ## 3. Previews -/

theorem fieldPreview :
    Repeats once schema seen ws (resolver.fieldPreview r i false) fun _ _ => True := by
  refine (Repeats.of_ends hc (fun w hw hg => h.reliable.fieldPreview hw.sound (hg.isLive hr) i false)
    fun text ws' _ hlater ⟨hreached, hpreviews⟩ w _ hg => ?_).weaken
  obtain ⟨e, hknows⟩ := hc.knows hr hf hlater hreached
  obtain ⟨e', hknows', hgrow⟩ := hknows.grows (hlater.isLive hr) hg
  have htext := hpreviews rfl hlater.quiet f e hknows.field hknows.entry
  obtain ⟨w', hrun, hset⟩ := resolver.runIn_fieldPreview hknows' (htext.grows hgrow) false
  exact ⟨w', r, _, hrun, hset⟩

end

/-! ## 4. Names -/

omit h in
/-- Arguments stay bound, and parameters stay as they are. -/
theorem argOrParam (d : StructDef) (name : String) :
    Repeats once schema seen ws (ByteAtlas.argOrParam r d name) fun _ _ => True :=
  .asked hc trivial fun _ _ hlater => by rw [hlater.argOf? hr]

theorem namedValue {d : StructDef} (hd : ws.structOf? r = some d) (name : String) :
    Repeats once schema seen ws (resolver.namedValue r d name) fun _ _ => True := by
  unfold Resolver.namedValue
  split
  · rename_i i hi
    obtain ⟨f, hf⟩ := StructDef.field?_of_fieldIndex? hi
    exact .map (h.intValue hc hr ((Workspace.fieldOf?_eq hd i).trans hf) 0)
  · exact argOrParam hc hr d name

end Resolver.Repeating

end ByteAtlas
