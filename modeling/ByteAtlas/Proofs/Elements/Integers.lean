import Mathlib
import ByteAtlas.Proofs.Elements.History
import ByteAtlas.Proofs.Elements.Single
import ByteAtlas.Proofs.Expr.Literals

/-!
# One integer in two filters

A field that is one integer can be compared with a literal in two ways, by the text of its preview
and by its value. Both ask for the same elements (`Workspace.Ordered.integer_answers`), and there is
one if the limit admits it. So both filters accept the same instances, unless it has been noted that
there is none, at a time when the limit admitted none: such a count is kept whatever the limit is
later, and then the value is 0 but the preview shows no number
(`Workspace.Reached.literal_filters`).
-/

namespace ByteAtlas

/-! ## 1. Texts -/

/-- The preview of a single integer is its text. -/
theorem joinPreviews_decimalText (n : Int64) :
    joinPreviews true [decimalText n] = decimalText n := by
  obtain ⟨hpos, hle⟩ := utf8ByteSize_decimalText n
  have hempty : (decimalText n).isEmpty = false := by
    rw [Bool.eq_false_iff]
    intro h
    rw [String.isEmpty_iff.mp h] at hpos
    exact absurd hpos (by decide)
  have hlimit : previewLimit = 24 := rfl
  have hgather : gatherPreviews true true "" [decimalText n] = decimalText n := by
    simp [gatherPreviews, hempty, previewSeparator]
  unfold joinPreviews
  rw [hgather, if_neg]
  simp only [hempty, Bool.false_eq_true, or_false]
  omega

/-- Where nothing is shown, no number is. -/
theorem joinPreviews_nil_ne_decimalText (n : Int64) : joinPreviews true [] ≠ decimalText n := by
  intro h
  have hdot : '.' ∈ (decimalText n).toList := by
    rw [← h]
    decide
  rw [toList_decimalText] at hdot
  have hdigit : '.' ∉ Nat.toDigits 10 n.toInt.natAbs := fun hmem =>
    absurd (isDigit_of_mem_digits hmem) (by decide)
  split at hdot
  · exact hdigit ((List.mem_cons.mp hdot).resolve_left (by decide))
  · exact hdigit hdot

namespace Workspace

variable {ws ws' : Workspace} {n : Nat} {r : InstanceRef} {i : Nat} {f : String × Field}
  {e : FieldEntry} {t : IntType}

/-! ## 2. What is answered -/

/-- **Whether it is kept that a field has no elements.** -/
def CountsNone (ws : Workspace) (r : InstanceRef) (i : Nat) : Prop :=
  ws.Current r ∧ ∃ e, ws.entryOf? r i = some e ∧ e.count = some 0

/-- A single integer has a place, unless an expression gives it. -/
theorem KnowsField.placed_oneInt (h : ws.KnowsField r i f e) (hs : ws.Sound True) (hr : ws.IsLive r)
    (hone : f.2.OneInt t) (hplain : f.2.offsetFormula = none) : e.offset ≠ none := by
  obtain ⟨d, hd, hfield⟩ := structOf?_of_fieldOf? h.field
  have hcomputed : f.2.isComputed = false := by rw [Field.isComputed, hone.value, hplain]; rfl
  rw [(hs.fits_of_current trivial hr h.current hd).offset i e f h.entry hfield hcomputed]
  exact Option.some_ne_none _

/-- **That there is none has been noted before**, if the limit admits an element by now. -/
theorem Ordered.counts_none (hws : ws.Ordered) (hmoved : ws.Moved ws') (hgrow : ws.Grows ws')
    (hr : ws.IsLive r) (h : ws'.KnowsField r i f e) (hone : f.2.OneInt t)
    (hpresent : e.present = true) (hlimit : 1 ≤ ws.limits.maxElements) :
    e.count = some 0 ↔ ws.CountsNone r i := by
  obtain ⟨d, hd', hfield⟩ := structOf?_of_fieldOf? h.field
  have hd : ws.structOf? r = some d := (hgrow.structOf? r).symm.trans hd'
  constructor
  · intro hcount
    refine (hmoved.explains hws.inOrder hr hd hfield (.inr hone.literal.2) h.current hone.value
      h.entry hcount).resolve_right fun hcounts => ?_
    have hzero := hcounts.oneInt hone (Int64.le_refl 0)
    rw [hpresent, if_pos rfl, hgrow.limits, cutCount_one_of_le hlimit] at hzero
    exact absurd hzero (by decide)
  · rintro ⟨hc, e₀, he₀, hcount⟩
    obtain ⟨e', he', hgrown⟩ := hgrow.entryOf? hr hc hd he₀
    obtain rfl : e = e' := Option.some.inj (h.entry.symm.trans he')
    exact hgrown.count 0 hcount

end Workspace

/-- What is shown of a single integer has been read, if anything has been. -/
theorem FieldEntry.Shows.read {e : FieldEntry} {text : String} (h : e.Shows text) :
    e.values ≠ #[] ∨ e.count = some 0 := by
  obtain ⟨c, hcount, hsize, _⟩ := h
  by_cases hempty : e.values = #[]
  · rw [hempty] at hsize
    rw [hcount, ← hsize]
    exact .inr rfl
  · exact .inl hempty

namespace Resolver

open Workspace

variable {resolver : Resolver} {ws ws₁ ws₂ : Workspace} {r : InstanceRef} {i : Nat}
  {f : String × Field} {e₁ e₂ : FieldEntry} {t : IntType} {offset : Option Int64} {o : Int64}

/-- **The value of a single integer**, once it has been laid out and its place has been looked
for. -/
theorem runIn_intValue_oneInt (hrun₁ : (resolver.enumerate r (i + 1) false).runIn ws = (.ok (), ws₁))
    (h₁ : ws₁.KnowsField r i f e₁)
    (hrun₂ : (resolver.fieldOffset r i false).runIn ws₁ = (.ok offset, ws₂))
    (ho : offset.getD 0 = o) (h₂ : ws₂.KnowsField r i f e₂) (hone : f.2.OneInt t)
    (hpresent : e₂.present = true) (hlimit : 0 ≤ ws₂.limits.maxElements) (he₁ : e₁.ReadsOne)
    (he₂ : e₂.ReadsOne) (hgrow : FieldEntry.Grows (some f.2) e₁ e₂) :
    ((resolver.intValue r i 0).runIn ws).1 =
      .ok (((ws₂.onlyElements r t e₂ o)[0]?).elim 0 fun x => x.value.toInt) := by
  unfold Resolver.intValue Resolver.intValueWith Resolver.readValuesWith
  simp only [ByteAtlas.entryOf?, ByteAtlas.fieldOf?, Resolve.runIn_bind, hrun₁, Resolve.runIn_ask,
    h₁.entry]
  by_cases hmet : (Wanted.first (0 + 1)).metBy e₁.values.size = true
  · -- An element that has been read before is still there.
    have hread : e₁.values ≠ #[] := Array.size_pos_iff.mp (Wanted.metBy_first.mp hmet)
    rw [← ws₂.onlyElements_of_grows he₁ he₂ hgrow (.inl hread) r t o]
    simp only [hmet, if_true, Resolve.runIn_pure, Resolve.runIn_bind, Resolve.runIn_ask, h₁.entry,
      Option.bind_some]
  · obtain ⟨ws₃, e₃, hrun₃, hreads⟩ :=
      resolver.runIn_readScalars_oneInt hrun₂ ho h₂ hone hpresent hlimit he₂ 0
    simp only [hmet, Bool.false_eq_true, if_false, Resolve.runIn_bind, Resolve.runIn_ask, h₁.field,
      hone.value, hone.type, hrun₃]
    by_cases hlt : 0 < (ws₂.onlyElements r t e₂ o).size
    · simp only [hlt, decide_true, if_true, hreads.knows.entry, Option.bind_some, hreads.values,
        Resolve.runIn_pure, Resolve.runIn_bind, Resolve.runIn_ask]
    · rw [Array.getElem?_eq_none (Nat.not_lt.mp hlt)]
      simp only [hlt, decide_false, Bool.false_eq_true, if_false, Resolve.runIn_pure,
        Option.elim_none]

/-- **The preview of a single integer**, unless its place is not known and no preview is kept. -/
theorem runIn_fieldPreview_oneInt
    (hrun₁ : (resolver.enumerate r (i + 1) false).runIn ws = (.ok (), ws₁))
    (h₁ : ws₁.KnowsField r i f e₁)
    (hrun₂ : (resolver.fieldOffset r i false).runIn ws₁ = (.ok offset, ws₂))
    (ho : e₁.preview = none → offset = some o ∧ e₂.offset = some o) (h₂ : ws₂.KnowsField r i f e₂)
    (hone : f.2.OneInt t) (hpresent : e₁.present = true) (hlimit : 0 ≤ ws₂.limits.maxElements)
    (he₁ : e₁.KeepsOne) (he₂ : e₂.ReadsOne) (hgrow : FieldEntry.Grows (some f.2) e₁ e₂) :
    ((resolver.fieldPreview r i false).runIn ws).1 =
      .ok (joinPreviews true ((ws₂.onlyElements r t e₂ o).toList.map fun x => x.value.preview)) := by
  unfold Resolver.fieldPreview
  simp only [ByteAtlas.entryOf?, ByteAtlas.fieldOf?, Resolve.runIn_bind, hrun₁, Resolve.runIn_ask,
    h₁.entry, hpresent, Bool.not_true, Bool.false_eq_true, if_false]
  cases hpreview : e₁.preview with
  | some text =>
    -- The preview is kept, so its elements are.
    have hshows := he₁.preview text hpreview
    have hread := ws₂.onlyElements_of_grows he₁.toReadsOne he₂ hgrow hshows.read r t o
    obtain ⟨_, _, _, htext⟩ := hshows
    rw [← hread, ← htext]
    rfl
  | none =>
    obtain ⟨rfl, ho₂⟩ := ho hpreview
    obtain ⟨ws₃, e₃, hrun₃, _⟩ := resolver.runIn_takePreviews_oneInt h₂ hone
      (hgrow.present.trans hpresent) hlimit he₂ ho₂
    simp only [Resolve.runIn_bind, hrun₂, Option.isNone_some, Bool.false_eq_true, if_false,
      Resolve.runIn_ask, h₂.field, Option.bind_some, hone.type, ElementType.scalar?,
      Option.elim_some, ScalarType.isSeparated, hrun₃]
    rfl

end Resolver

namespace Workspace

variable {ws ws' : Workspace} {n : Nat} {r : InstanceRef} {i : Nat} {f : String × Field}
  {e : FieldEntry} {t : IntType}

/-- **The value and the preview of a single integer** that is present, if no frame is refused while
the preview is made. They are those of the same elements: of one integer, or of none if that has
been noted before. -/
theorem Ordered.integer_answers (hws : ws.Ordered) (hr : ws.IsLive r)
    (hf : ws.fieldOf? r i = some f) (hone : f.2.OneInt t) (hlimit : 1 ≤ ws.limits.maxElements)
    {resolver : Resolver} (hresolver : resolver.Moves)
    (hpresent : ((resolver.isPresent r i false).runIn ws).1 = .ok (some true))
    (hquiet : ((resolver.fieldPreview r i false).runIn ws).2.refusals = ws.refusals) :
    ∃ elements : Array Element,
      (ws.CountsNone r i ∧ elements = #[] ∨
        ¬ ws.CountsNone r i ∧ ∃ o v, elements = #[⟨o, .int v⟩]) ∧
      ((resolver.intValue r i 0).runIn ws).1 =
        .ok ((elements[0]?).elim 0 fun x => x.value.toInt) ∧
      ((resolver.fieldPreview r i false).runIn ws).1 =
        .ok (joinPreviews true (elements.toList.map fun x => x.value.preview)) := by
  -- All three questions begin with the same step, after which the field is known.
  obtain ⟨⟨⟨⟩, ws₁, hrun₁, hs₁, hg₁, _⟩, hmoved₁, hcurrent⟩ :=
    hresolver.enumerates hws hr (i + 1) false
  rw [hrun₁] at hmoved₁ hcurrent
  have hc₁ : ws₁.Current r := hcurrent () rfl
  have hr₁ := hg₁.isLive hr
  have hws₁ : ws₁.Ordered := hws.moved hs₁ hmoved₁
  unfold Resolver.isPresent at hpresent
  simp only [ByteAtlas.entryOf?, Resolve.runIn_bind, hrun₁, Resolve.runIn_ask,
    Resolve.runIn_pure, Except.ok.injEq] at hpresent
  obtain ⟨e₁, he₁, hthere⟩ := Option.map_eq_some_iff.mp hpresent
  have h₁ : ws₁.KnowsField r i f e₁ := .of_entry ((hg₁.fieldOf? r i).trans hf) hc₁ he₁
  obtain ⟨d, hd, hfield⟩ := structOf?_of_fieldOf? h₁.field
  have hkept₁ : e₁.KeepsOne := (hws₁.inOrder.of_current hr₁ hd hc₁ hfield he₁).integer t hone
  -- The place is looked for unless what is asked for has been kept, but the elements are the same.
  obtain ⟨offset, ws₂, hrun₂, hs₂, hg₂, ⟨hc₂, _⟩, hnoted, _, hmissing⟩ :=
    hresolver.reliable.fieldOffset hs₁ hr₁ i false
  have hmoved₂ := (hresolver.fieldOffset i false ws₁ hws₁ hr₁).moves.1
  rw [hrun₂] at hmoved₂
  have hws₂ : ws₂.Ordered := hws₁.moved hs₂ hmoved₂
  have hr₂ := hg₂.isLive hr₁
  obtain ⟨e₂, h₂, hgrow⟩ := h₁.grows hr₁ hg₂
  have hread₂ : e₂.ReadsOne := ((hws₂.inOrder.of_current hr₂ ((hg₂.structOf? r).trans hd) hc₂ hfield
    h₂.entry).integer t hone).toReadsOne
  have hthere₂ : e₂.present = true := hgrow.present.trans hthere
  have hlimit₂ : 1 ≤ ws₂.limits.maxElements := by
    rw [hg₂.limits, hg₁.limits]
    exact hlimit
  have hnone := hws.counts_none (hmoved₁.trans hmoved₂) (hg₁.trans hg₂) hr h₂ hone hthere₂ hlimit
  refine ⟨ws₂.onlyElements r t e₂ (offset.getD 0), ?_, ?_, ?_⟩
  · rcases onlyElements_cases hread₂ hlimit₂ r t (offset.getD 0) with
      ⟨hcount, hempty⟩ | ⟨hcount, hread⟩
    · exact .inl ⟨hnone.mp hcount, hempty⟩
    · exact .inr ⟨fun hkept => hcount (hnone.mpr hkept), hread⟩
  · exact Resolver.runIn_intValue_oneInt hrun₁ h₁ hrun₂ rfl h₂ hone hthere₂ hs₂.limit
      hkept₁.toReadsOne hread₂ hgrow
  · refine Resolver.runIn_fieldPreview_oneInt hrun₁ h₁ hrun₂ (fun hpreview => ?_) h₂ hone hthere
      hs₂.limit hkept₁ hread₂ hgrow
    cases offset with
    | none =>
      -- Nothing but a refused frame keeps the place from being known.
      unfold Resolver.fieldPreview at hquiet
      simp only [ByteAtlas.entryOf?, Resolve.runIn_bind, hrun₁, Resolve.runIn_ask, he₁, hthere,
        Bool.not_true, Bool.false_eq_true, if_false, hpreview, hrun₂, Option.isNone_none, if_true,
        Resolve.runIn_pure] at hquiet
      have hle₁ := hg₁.refusals
      have hle₂ := hg₂.refusals
      obtain ⟨hunplaced, hplain⟩ := hmissing rfl rfl (by omega) f e₂ h₂.field h₂.entry
      exact absurd hunplaced (h₂.placed_oneInt hs₂ hr₂ hone hplain)
    | some o =>
      obtain ⟨e', he', ho⟩ := hnoted o rfl
      obtain rfl : e₂ = e' := Option.some.inj (h₂.entry.symm.trans he')
      exact ⟨rfl, ho⟩

end Workspace

/-! ## 3. Both filters -/

/-- **Whether a filter accepts an instance**, its expressions being evaluated in a scope. -/
def InstanceRef.passes (r : InstanceRef) (scope : Scope) (filters : Filters) : Resolve Bool :=
  Resolve.resolving fun resolver => do
    let values ← filters.conditions (resolver.environment scope)
    resolver.meets r ⟨filters.texts, values⟩

namespace Resolver

variable {resolver : Resolver} {ws : Workspace} {r : InstanceRef} {d : StructDef} {i : Nat}
  {name : String}

/-- One condition on a text is met by the preview. -/
theorem runIn_meets_text (hd : ws.structOf? r = some d) (hi : d.fieldIndex? name = some i)
    {preview : String} (h : ((resolver.fieldPreview r i false).runIn ws).1 = .ok preview)
    (text : String) :
    ((resolver.meets r ⟨[⟨name, text⟩], []⟩).runIn ws).1 = .ok (decide (preview = text)) := by
  obtain ⟨answer, ws', hrun⟩ : ∃ answer ws', (resolver.fieldPreview r i false).runIn ws =
    (answer, ws') := ⟨_, _, rfl⟩
  obtain rfl : answer = .ok preview := by rwa [hrun] at h
  have hsome : QueryFilter.isEmpty ⟨[⟨name, text⟩], []⟩ = false := rfl
  unfold meets
  simp only [hsome, Bool.false_eq_true, if_false, ByteAtlas.structOf?, Resolve.runIn_bind,
    Resolve.runIn_ask, hd, matchesTexts, hi, hrun]
  by_cases heq : preview = text
  · simp only [heq, if_true, Resolve.runIn_pure, matchesValues, decide_true]
  · simp only [heq, if_false, Resolve.runIn_pure, Bool.false_eq_true, decide_false]

/-- One condition on a value is met by the first element. -/
theorem runIn_meets_value (hd : ws.structOf? r = some d) (hi : d.fieldIndex? name = some i)
    {v : Int64} (h : ((resolver.intValue r i 0).runIn ws).1 = .ok v) (n : Int64) :
    ((resolver.meets r ⟨[], [⟨name, n⟩]⟩).runIn ws).1 = .ok (decide (v = n)) := by
  obtain ⟨answer, ws', hrun⟩ : ∃ answer ws', (resolver.intValue r i 0).runIn ws = (answer, ws') :=
    ⟨_, _, rfl⟩
  obtain rfl : answer = .ok v := by rwa [hrun] at h
  have hsome : QueryFilter.isEmpty ⟨[], [⟨name, n⟩]⟩ = false := rfl
  unfold meets
  simp only [hsome, Bool.false_eq_true, if_false, ByteAtlas.structOf?, Resolve.runIn_bind,
    Resolve.runIn_ask, hd, matchesTexts, Resolve.runIn_pure, if_true, matchesValues, namedValue, hi,
    Resolve.runIn_map, hrun]
  by_cases heq : v = n
  · simp only [Except.map, heq, if_true, Resolve.runIn_pure, decide_true]
  · simp only [Except.map, Option.some.injEq, heq, if_false, Resolve.runIn_pure, decide_false]

end Resolver

namespace Workspace

variable {ws : Workspace} {n : Nat} {edited : Bool}

/-- **What both filters tell of an instance** whose field is a single integer. -/
theorem Ordered.filters_pass (hws : ws.Ordered) {r : InstanceRef} (hr : ws.IsLive r) {d : StructDef}
    (hd : ws.structOf? r = some d) {name : String} {i : Nat} (hi : d.fieldIndex? name = some i)
    {f : String × Field} (hf : d.field? i = some f) {t : IntType} (hone : f.2.OneInt t)
    (hlimit : 1 ≤ ws.limits.maxElements)
    (hpresent : ((r.isPresent i false).runIn ws).1 = .ok (some true))
    (hquiet : ((r.fieldPreview i false).runIn ws).2.refusals = ws.refusals)
    {cs value : List Char} (hname : NameText cs name) {v : Int64} (hvalue : Literal value v)
    {byText byValue : Span} {depth : Nat}
    (htext : Spells (cs ++ '=' :: value) (byText.lexemes.map Lexeme.token))
    (hmarked : Spells ('#' :: (cs ++ '=' :: value)) (byValue.lexemes.map Lexeme.token))
    (hdepth : depth + 1 < nestingLimit) (scope : Scope) :
    ∃ first texts values, ((r.intValue i 0).runIn ws).1 = .ok first ∧
      byText.compileFilter depth = ⟨.ok texts, []⟩ ∧
      byValue.compileFilter depth = ⟨.ok values, []⟩ ∧
      ((r.passes scope values).runIn ws).1 = .ok (decide (first = v)) ∧
      (¬ ws.CountsNone r i → ((r.passes scope texts).runIn ws).1 = .ok (decide (first = v))) ∧
      (ws.CountsNone r i → first = 0 ∧ ((r.passes scope texts).runIn ws).1 = .ok false) := by
  have hask {α : Type} (request : Resolver → Resolve α) : ((Resolve.resolving request).runIn ws) =
      ((request (.within (ws.limits.maxDepth - ws.depth))).runIn ws) :=
    Resolve.runIn_resolving request rfl
  unfold InstanceRef.isPresent at hpresent
  unfold InstanceRef.fieldPreview at hquiet
  unfold InstanceRef.intValue InstanceRef.passes
  simp only [hask] at hpresent hquiet ⊢
  generalize hresolver : Resolver.within (ws.limits.maxDepth - ws.depth) = resolver at *
  have hmoves : resolver.Moves := hresolver ▸ Resolver.moves_within _
  have hfield : ws.fieldOf? r i = some f := by rw [Workspace.fieldOf?, hd]; exact hf
  obtain ⟨elements, hcases, hint, hpreview⟩ :=
    hws.integer_answers hr hfield hone hlimit hmoves hpresent hquiet
  obtain ⟨e, hcompile, hevaluate⟩ :=
    byValue.compileFilter_value (resolver.environment scope) hname hvalue hmarked hdepth
  have htexts := Resolver.runIn_meets_text hd hi hpreview (decimalText v)
  refine ⟨_, _, _, hint, byText.compileFilter_text hname hvalue htext, hcompile, ?_, fun hsome => ?_,
    fun hnone => ?_⟩
  · have hmeets := Resolver.runIn_meets_value hd hi hint v
    simpa only [Filters.conditions, Filters.texts, evaluateValues, hevaluate, pure_bind]
      using hmeets
  · -- Texts in decimals are the same if the values are.
    obtain ⟨_, place, first, rfl⟩ := hcases.resolve_left fun hleft => hsome hleft.1
    have hsame : decide (joinPreviews true [decimalText first] = decimalText v) =
        decide (first = v) := by
      rw [joinPreviews_decimalText]
      exact decide_eq_decide.mpr ⟨decimalText_injective, congrArg decimalText⟩
    have hmeets := htexts.trans (congrArg Except.ok hsame)
    show _ = Except.ok (decide (first = v))
    simpa only [Filters.conditions, Filters.texts, evaluateValues, pure_bind] using hmeets
  · obtain ⟨_, rfl⟩ := hcases.resolve_right fun hright => hright.1 hnone
    have hother : decide (joinPreviews true [] = decimalText v) = false :=
      decide_eq_false (joinPreviews_nil_ne_decimalText v)
    have hmeets := htexts.trans (congrArg Except.ok hother)
    refine ⟨rfl, ?_⟩
    simpa only [Filters.conditions, Filters.texts, evaluateValues, pure_bind] using hmeets

/-- **A field with a literal and its value with the same literal are one filter**, unless it is kept
that the field has no elements. After every history, within limits that admit an element: of every
instance with a field of an integer type, one element and no value expression, which is there, both
filters accept the instance if the first element has the value of the literal and only then; if no
frame is refused while the preview is made. If a count of none is kept, of a time when the limit
admitted none, the value is 0, and the text is not that of any number. -/
theorem Reached.literal_filters (h : ws.Reached n edited) (hn : n < Schema.versionLimit)
    {r : InstanceRef} (hr : ws.IsLive r) {d : StructDef} (hd : ws.structOf? r = some d)
    {name : String} {i : Nat} (hi : d.fieldIndex? name = some i) {f : String × Field}
    (hf : d.field? i = some f) {t : IntType} (hone : f.2.OneInt t)
    (hlimit : 1 ≤ ws.limits.maxElements)
    (hpresent : ((r.isPresent i false).runIn ws).1 = .ok (some true))
    (hquiet : ((r.fieldPreview i false).runIn ws).2.refusals = ws.refusals)
    {cs value : List Char} (hname : NameText cs name) {v : Int64} (hvalue : Literal value v)
    {byText byValue : Span} {depth : Nat}
    (htext : Spells (cs ++ '=' :: value) (byText.lexemes.map Lexeme.token))
    (hmarked : Spells ('#' :: (cs ++ '=' :: value)) (byValue.lexemes.map Lexeme.token))
    (hdepth : depth + 1 < nestingLimit) (scope : Scope) :
    ∃ first texts values, ((r.intValue i 0).runIn ws).1 = .ok first ∧
      byText.compileFilter depth = ⟨.ok texts, []⟩ ∧
      byValue.compileFilter depth = ⟨.ok values, []⟩ ∧
      ((r.passes scope values).runIn ws).1 = .ok (decide (first = v)) ∧
      (¬ ws.CountsNone r i → ((r.passes scope texts).runIn ws).1 = .ok (decide (first = v))) ∧
      (ws.CountsNone r i → first = 0 ∧ ((r.passes scope texts).runIn ws).1 = .ok false) :=
  (h.led.ordered hn).filters_pass hr hd hi hf hone hlimit hpresent hquiet hname hvalue htext hmarked
    hdepth scope

/-- What a coin is worth: a number of four bytes. -/
def coin : StructDef :=
  { StructDef.empty with
    size := 4
    fields := ⟨[("worth", Field.ofType (.scalar (.int .i32)))], by decide⟩ }

def coinSchema : Schema := ⟨(∅ : Std.TreeMap String StructDef).insert "Coin" coin, 0⟩

def coinRef : InstanceRef := ⟨0, ⟨"Coin", 0, 0⟩⟩

/-- A workspace with a coin of these bytes. -/
def withCoin (bytes : Array UInt8) : Workspace :=
  (((ofSchema coinSchema .default).addSource (.ofBytes "coin" bytes)).2.place
      (.single coinRef.location .user)).2

theorem reached_withCoin (bytes : Array UInt8) : (withCoin bytes).Reached 0 false :=
  .request (Reached.addSource _ (.start (.of_toList rfl (by decide)) trivial (by decide))) (.place _)

theorem oneInt_worth : (Field.ofType (.scalar (.int .i32))).OneInt .i32 := ⟨rfl, rfl, rfl, rfl⟩

/-- The tokens of `worth=-0x64`. -/
def worthText : Span :=
  ⟨[⟨.name "worth", 0⟩, ⟨.assign, 5⟩, ⟨.operator .sub, 6⟩, ⟨.int 100, 7⟩], 11⟩

/-- The tokens of `#worth=-0x64`. -/
def worthValue : Span :=
  ⟨[⟨.structName "worth" false, 0⟩, ⟨.assign, 6⟩, ⟨.operator .sub, 7⟩, ⟨.int 100, 8⟩], 12⟩

/-- Both filters accept a coin that is worth -100. -/
theorem literal_filters_withCoin : (withCoin #[0x9c, 0xff, 0xff, 0xff]).Reached 0 false ∧
    ∃ texts values, worthText.compileFilter 0 = ⟨.ok texts, []⟩ ∧
      worthValue.compileFilter 0 = ⟨.ok values, []⟩ ∧
      ((coinRef.passes (.whole coinRef) texts).runIn (withCoin #[0x9c, 0xff, 0xff, 0xff])).1 =
        .ok true ∧
      ((coinRef.passes (.whole coinRef) values).runIn (withCoin #[0x9c, 0xff, 0xff, 0xff])).1 =
        .ok true := by
  have hreached := reached_withCoin #[0x9c, 0xff, 0xff, 0xff]
  generalize hws : withCoin #[0x9c, 0xff, 0xff, 0xff] = ws at hreached ⊢
  have hlive : (ws.find? 0).map Instance.ref = some coinRef := by subst hws; decide
  obtain ⟨i, hi, hir⟩ := Option.map_eq_some_iff.mp hlive
  have hstruct : ws.structOf? coinRef = some coin := by subst hws; decide
  have hname : NameText "worth".toList "worth" := .word (by decide)
  have hnumeral : Numeral ['0', 'x', '6', '4'] 100 :=
    .hexadecimal (.inl rfl) (by decide) (List.all_eq_true.mp rfl)
  have hliteral : Literal ['-', '0', 'x', '6', '4'] (-100) := .negated hnumeral
  -- Both are cut into a name, the equals sign and the two tokens of the literal.
  have hcut : Spells ('=' :: ['-', '0', 'x', '6', '4']) [.assign, .operator .sub, .int 100] :=
    .assign_tight (by decide) (.unary .negate (hnumeral.spells rfl spells_nil))
  have htext : Spells ("worth".toList ++ '=' :: ['-', '0', 'x', '6', '4'])
      (worthText.lexemes.map Lexeme.token) := hname.spells rfl hcut
  have hmarked : Spells ('#' :: ("worth".toList ++ '=' :: ['-', '0', 'x', '6', '4']))
      (worthValue.lexemes.map Lexeme.token) := hname.spells_marked rfl hcut
  have hdepth : 0 + 1 < nestingLimit := by decide
  have hpresent : ((coinRef.isPresent 0 false).runIn ws).1 = .ok (some true) := by
    subst hws
    decide +kernel
  have hquiet : ((coinRef.fieldPreview 0 false).runIn ws).2.refusals = ws.refusals := by
    subst hws
    decide +kernel
  obtain ⟨first, texts, values, hfirst, htexts, hvalues, hbyValue, hbyText, _⟩ :=
    hreached.literal_filters (by decide) ⟨i, hi, hir⟩ hstruct (i := 0) (by decide) rfl oneInt_worth
      (by subst hws; decide) hpresent hquiet hname hliteral htext hmarked hdepth (.whole coinRef)
  have hworth : ((coinRef.intValue 0 0).runIn ws).1 = .ok (-100) := by
    subst hws
    decide +kernel
  obtain rfl : first = -100 := Except.ok.inj (hfirst.symm.trans hworth)
  -- Nothing has been found out about the coin.
  have hunknown : (ws.entryOf? coinRef 0).isNone = true := by subst hws; decide
  refine ⟨hreached, texts, values, htexts, hvalues, hbyText ?_, hbyValue⟩
  rintro ⟨_, e, he, _⟩
  rw [he] at hunknown
  cases hunknown

/-- A coin worth nothing, whose elements have been counted while the limit admitted none. -/
def withCountedCoin : Workspace :=
  ((coinRef.elementCount 0 false).runIn
    ((withCoin #[0, 0, 0, 0]).setLimits { Limits.default with maxElements := 0 })).2.setLimits .default

/-- The tokens of `worth=0`. -/
def nothingText : Span :=
  ⟨[⟨.name "worth", 0⟩, ⟨.assign, 5⟩, ⟨.int 0, 6⟩], 7⟩

/-- The tokens of `#worth=0`. -/
def nothingValue : Span :=
  ⟨[⟨.structName "worth" false, 0⟩, ⟨.assign, 6⟩, ⟨.int 0, 7⟩], 8⟩

/-- **The filters tell such a coin apart.** Its value is 0, which the one filter asks for, and the
preview shows nothing. -/
theorem literal_filters_differ : withCountedCoin.Reached 0 false ∧ withCountedCoin.IsLive coinRef ∧
    1 ≤ withCountedCoin.limits.maxElements ∧
    ((coinRef.isPresent 0 false).runIn withCountedCoin).1 = .ok (some true) ∧
    ((coinRef.fieldPreview 0 false).runIn withCountedCoin).2.refusals = withCountedCoin.refusals ∧
    ((coinRef.intValue 0 0).runIn withCountedCoin).1 = .ok 0 ∧
    ∃ texts values, nothingText.compileFilter 0 = ⟨.ok texts, []⟩ ∧
      nothingValue.compileFilter 0 = ⟨.ok values, []⟩ ∧
      ((coinRef.passes (.whole coinRef) texts).runIn withCountedCoin).1 = .ok false ∧
      ((coinRef.passes (.whole coinRef) values).runIn withCountedCoin).1 = .ok true := by
  have hbefore : (((withCoin #[0, 0, 0, 0]).setLimits
      { Limits.default with maxElements := 0 }).find? 0).map Instance.ref = some coinRef := by
    decide
  obtain ⟨i₀, hi₀, hir₀⟩ := Option.map_eq_some_iff.mp hbefore
  have hreached : withCountedCoin.Reached 0 false :=
    .setLimits (((reached_withCoin #[0, 0, 0, 0]).setLimits (by decide)).question ⟨i₀, hi₀, hir₀⟩
      (.elementCount 0 false)) (by decide)
  have hlive : (withCountedCoin.find? 0).map Instance.ref = some coinRef := by decide +kernel
  have hr : withCountedCoin.IsLive coinRef := Option.map_eq_some_iff.mp hlive
  have hstruct : withCountedCoin.structOf? coinRef = some coin := by decide +kernel
  have hname : NameText "worth".toList "worth" := .word (by decide)
  have hnumeral : Numeral ['0'] 0 := .decimal (by decide) (List.all_eq_true.mp rfl)
  have hcut : Spells ('=' :: ['0']) [.assign, .int 0] :=
    .assign_tight (by decide) (hnumeral.spells rfl spells_nil)
  have htext : Spells ("worth".toList ++ '=' :: ['0']) (nothingText.lexemes.map Lexeme.token) :=
    hname.spells rfl hcut
  have hmarked : Spells ('#' :: ("worth".toList ++ '=' :: ['0']))
      (nothingValue.lexemes.map Lexeme.token) := hname.spells_marked rfl hcut
  have hdepth : 0 + 1 < nestingLimit := by decide
  have hlimit : 1 ≤ withCountedCoin.limits.maxElements := by decide +kernel
  have hpresent : ((coinRef.isPresent 0 false).runIn withCountedCoin).1 = .ok (some true) := by
    decide +kernel
  have hquiet : ((coinRef.fieldPreview 0 false).runIn withCountedCoin).2.refusals =
      withCountedCoin.refusals := by
    decide +kernel
  obtain ⟨first, texts, values, hfirst, htexts, hvalues, hbyValue, _, hbyText⟩ :=
    (hreached.led.ordered (by decide)).filters_pass hr hstruct (i := 0) (by decide) rfl oneInt_worth
      hlimit hpresent hquiet hname (.plain hnumeral) htext hmarked hdepth (.whole coinRef)
  have hcount : (withCountedCoin.entryOf? coinRef 0).bind FieldEntry.count = some 0 := by
    decide +kernel
  have hcurrent : (withCountedCoin.layoutOf coinRef).stamp =
      some (withCountedCoin.stampOf coinRef coin) := by
    decide +kernel
  have hnone : withCountedCoin.CountsNone coinRef 0 := by
    refine ⟨fun d hd => ?_, Option.bind_eq_some_iff.mp hcount⟩
    rw [hstruct] at hd
    cases hd
    exact hcurrent
  obtain ⟨rfl, hrejects⟩ := hbyText hnone
  exact ⟨hreached, hr, hlimit, hpresent, hquiet, hfirst, texts, values, htexts, hvalues, hrejects,
    hbyValue⟩

end Workspace

end ByteAtlas
