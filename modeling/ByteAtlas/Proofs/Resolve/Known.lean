import ByteAtlas.Resolve.Instance
import ByteAtlas.Proofs.Resolve.Children

/-!
# What is known is not computed again

For each question about the fields and the size of an instance: if the layout is up to date and
holds the answer, that is what is told. Nothing else happens then, but that a layout may note where
elements would be read that are not there.
-/

namespace ByteAtlas

namespace Workspace

variable {ws ws' ws'' : Workspace} {r : InstanceRef} {l : Layout}

theorem Sets.refl (ws : Workspace) (r : InstanceRef) : ws.Sets r (ws.layoutOf r) ws :=
  ⟨⟨ws.layouts, rfl⟩, fun _ _ => rfl, rfl⟩

theorem Sets.trans {l' : Layout} (h : ws.Sets r l ws') (h' : ws'.Sets r l' ws'') :
    ws.Sets r l' ws'' := by
  obtain ⟨⟨_, rfl⟩, hothers, _⟩ := h
  obtain ⟨⟨layouts, rfl⟩, hothers', hlayout⟩ := h'
  exact ⟨⟨layouts, rfl⟩, fun id hid => (hothers' id hid).trans (hothers id hid), hlayout⟩

theorem Sets.structOf? (h : ws.Sets r l ws') (r' : InstanceRef) :
    ws'.structOf? r' = ws.structOf? r' := by
  obtain ⟨⟨_, rfl⟩, _⟩ := h
  rfl

theorem Sets.directory (h : ws.Sets r l ws') : ws'.directory = ws.directory := by
  obtain ⟨⟨_, rfl⟩, _⟩ := h
  rfl

theorem Sets.refusals (h : ws.Sets r l ws') : ws'.refusals = ws.refusals := by
  obtain ⟨⟨_, rfl⟩, _⟩ := h
  rfl

/-- **Whether an up to date layout goes as far as a field**, with what is known about that. -/
structure KnowsField (ws : Workspace) (r : InstanceRef) (i : Nat) (f : String × Field)
    (e : FieldEntry) : Prop where
  field : ws.fieldOf? r i = some f
  current : ws.Current r
  laidOut : ws.LaidOut r (i + 1)
  entry : ws.entryOf? r i = some e

namespace KnowsField

variable {i : Nat} {f : String × Field} {e : FieldEntry}

/-- A field that has been laid out is known. -/
theorem of_laidOut (hf : ws.fieldOf? r i = some f) (hc : ws.Current r)
    (hl : ws.LaidOut r (i + 1)) : ∃ e, ws.KnowsField r i f e := by
  obtain ⟨d, hd, hfield⟩ := structOf?_of_fieldOf? hf
  have hlt := Layout.lt_fieldCount hfield
  have hle := hl d hd
  have hsize : i < (ws.layoutOf r).entries.size := by omega
  exact ⟨_, hf, hc, hl, Array.getElem?_eq_getElem hsize⟩

/-- A field with an entry has been laid out. -/
theorem of_entry (hf : ws.fieldOf? r i = some f) (hc : ws.Current r)
    (he : ws.entryOf? r i = some e) : ws.KnowsField r i f e := by
  refine ⟨hf, hc, fun d _ => ?_, he⟩
  have hlt := (Array.getElem?_eq_some_iff.mp he).1
  omega

/-- What is known stays known. -/
theorem grows (h : ws.KnowsField r i f e) (hr : ws.IsLive r) (hg : ws.Grows ws') :
    ∃ e', ws'.KnowsField r i f e' ∧ FieldEntry.Grows (some f.2) e e' := by
  obtain ⟨d, hd, _⟩ := structOf?_of_fieldOf? h.field
  obtain ⟨e', he', hgrow⟩ := hg.entryOf? hr h.current hd h.entry
  rw [fieldIn_structOf?, h.field] at hgrow
  exact ⟨e', ⟨(hg.fieldOf? r i).trans h.field, hg.current hr h.current,
    hg.laidOut hr h.current h.laidOut, he'⟩, hgrow⟩

/-- It does not depend on what else there is. -/
theorem sets (h : ws.KnowsField r i f e) (hset : ws.Sets r (ws.layoutOf r) ws') :
    ws'.KnowsField r i f e := by
  obtain ⟨⟨_, rfl⟩, _, hlayout⟩ := hset
  refine ⟨h.field, fun d hd => ?_, fun d hd => ?_, ?_⟩
  · rw [hlayout]
    exact h.current d hd
  · rw [hlayout]
    exact h.laidOut d hd
  · rw [Workspace.entryOf?, hlayout]
    exact h.entry

end KnowsField

end Workspace

namespace Resolver

variable {ws : Workspace} {r : InstanceRef} {i : Nat} {f : String × Field} {e : FieldEntry}

/-! ## 1. Fields -/

/-- Asking for a field that is laid out changes nothing. -/
theorem runIn_enumerate (resolver : Resolver) {upTo : Nat} (hc : ws.Current r)
    (hl : ws.LaidOut r upTo) (isLazy : Bool) :
    ∃ ws', (resolver.enumerate r upTo isLazy).runIn ws = (.ok (), ws') ∧
      ws.Sets r (ws.layoutOf r) ws' := by
  unfold Resolver.enumerate
  cases hd : ws.structOf? r with
  | none =>
    refine ⟨ws, ?_, .refl ws r⟩
    simp only [structOf?, Resolve.runIn_bind, Resolve.runIn_ask, hd, Resolve.runIn_pure]
  | some d =>
    have hset := Workspace.sets_modifyLayout ws r fun l => l.validated (ws.stampOf r d) r.offset
    have hsame : (ws.layoutOf r).validated (ws.stampOf r d) r.offset = ws.layoutOf r := by
      rw [Layout.validated, if_pos (hc d hd)]
    rw [hsame] at hset
    refine ⟨_, ?_, hset⟩
    simp only [structOf?, validateLayout, layoutOf, Resolve.runIn_bind, Resolve.runIn_ask,
      Resolve.runIn_change, hd, hset.layoutOf, hl d hd, decide_true, Bool.true_or, if_true,
      Resolve.runIn_pure]

/-- Asking for a field that is known. -/
theorem runIn_enumerate_of_knows (resolver : Resolver) (h : ws.KnowsField r i f e) (isLazy : Bool) :
    ∃ ws', (resolver.enumerate r (i + 1) isLazy).runIn ws = (.ok (), ws') ∧
      ws.Sets r (ws.layoutOf r) ws' ∧ ws'.KnowsField r i f e := by
  obtain ⟨ws', hrun, hset⟩ := resolver.runIn_enumerate h.current h.laidOut isLazy
  exact ⟨ws', hrun, hset, h.sets hset⟩

theorem runIn_isPresent (resolver : Resolver) (h : ws.KnowsField r i f e) (isLazy : Bool) :
    ∃ ws', (resolver.isPresent r i isLazy).runIn ws = (.ok (some e.present), ws') ∧
      ws.Sets r (ws.layoutOf r) ws' := by
  obtain ⟨ws', hrun, hset, hknows⟩ := resolver.runIn_enumerate_of_knows h isLazy
  refine ⟨ws', ?_, hset⟩
  unfold Resolver.isPresent
  simp only [entryOf?, Resolve.runIn_bind, hrun, Resolve.runIn_ask, hknows.entry,
    Resolve.runIn_pure, Option.map_some]

/-- **An offset that is known, or that nothing computes.** -/
theorem runIn_fieldOffset (resolver : Resolver) (h : ws.KnowsField r i f e)
    (hsure : e.offset.isSome ∨ f.2.offsetFormula = none) (isLazy : Bool) :
    ∃ ws', (resolver.fieldOffset r i isLazy).runIn ws = (.ok e.offset, ws') ∧
      ws.Sets r (ws.layoutOf r) ws' := by
  obtain ⟨ws', hrun, hset, hknows⟩ := resolver.runIn_enumerate_of_knows h isLazy
  refine ⟨ws', ?_, hset⟩
  unfold Resolver.fieldOffset
  simp only [entryOf?, fieldOf?, Resolve.runIn_bind, hrun, Resolve.runIn_ask, hknows.entry]
  by_cases hdone : (e.offset.isSome || isLazy) = true
  · simp only [hdone, if_true, Resolve.runIn_pure]
  · have hplain : f.2.offsetFormula = none := by
      rcases hsure with hsome | hplain
      · rw [hsome, Bool.true_or] at hdone
        exact absurd rfl hdone
      · exact hplain
    have hnone : e.offset = none := by
      simp at hdone
      exact hdone.1
    rw [if_neg hdone]
    simp only [Resolve.runIn_bind, Resolve.runIn_ask, hknows.field, Option.bind_some, hplain,
      Resolve.runIn_pure, hnone]

theorem runIn_elementCount (resolver : Resolver) (h : ws.KnowsField r i f e) {count : Int64}
    (hcount : e.count = some count) (isLazy : Bool) :
    ∃ ws', (resolver.elementCount r i isLazy).runIn ws = (.ok (some count), ws') ∧
      ws.Sets r (ws.layoutOf r) ws' := by
  obtain ⟨ws', hrun, hset, hknows⟩ := resolver.runIn_enumerate_of_knows h isLazy
  refine ⟨ws', ?_, hset⟩
  rw [Resolver.elementCount]
  simp only [entryOf?, Resolve.runIn_bind, hrun, Resolve.runIn_ask, hknows.entry, hcount,
    Option.isSome_some, if_true, Resolve.runIn_pure]

theorem runIn_totalSize (resolver : Resolver) (h : ws.KnowsField r i f e) {total : Int64}
    (htotal : e.totalSize = some total) (isLazy : Bool) :
    ∃ ws', (resolver.totalSize r i isLazy).runIn ws = (.ok (some total), ws') ∧
      ws.Sets r (ws.layoutOf r) ws' := by
  obtain ⟨ws', hrun, hset, hknows⟩ := resolver.runIn_enumerate_of_knows h isLazy
  refine ⟨ws', ?_, hset⟩
  unfold Resolver.totalSize
  simp only [entryOf?, Resolve.runIn_bind, hrun, Resolve.runIn_ask, hknows.entry, htotal,
    Option.isSome_some, if_true, Resolve.runIn_pure]

/-! ## 2. Elements -/

/-- Reading on from the last element finds nothing. -/
theorem runIn_readScalars (resolver : Resolver) (h : ws.KnowsField r i f e) (hvalue : f.2.value = none)
    {type : ScalarType} (htype : f.2.type = .scalar type) (hex : f.2.Exhausted e)
    (wanted : Wanted) :
    ∃ ws' l, (resolver.readScalars (resolver.elementCount r i false) r i f.2 type wanted).runIn ws =
        (.ok (wanted.metBy e.values.size), ws') ∧ ws.Sets r l ws' ∧
      ∃ e', ws'.entryOf? r i = some e' ∧ e'.values = e.values := by
  obtain ⟨hsure, count, hcount, hend⟩ := (Field.Exhausted.iff_of_scalar hvalue htype).mp hex
  obtain ⟨ws₁, hoffset, hset₁⟩ := resolver.runIn_fieldOffset h hsure false
  have h₁ := h.sets hset₁
  obtain ⟨ws₂, helements, hset₂⟩ := resolver.runIn_elementCount h₁ hcount false
  have h₂ := h₁.sets hset₂
  have hread (left : Nat) : ws₂.readElements r.file f.2 type count (e.offset.getD 0) left
      (e.nextElement.getD (e.offset.getD 0)) e.values =
        (e.values, e.nextElement.getD (e.offset.getD 0)) :=
    Reading.readOn_of_end (g := ⟨ws₂, r.file, f.2, type, count, e.offset.getD 0⟩)
      (p := (e.values, e.nextElement.getD (e.offset.getD 0))) hend left
  have hnote := Workspace.sets_modifyLayout ws₂ r fun l => l.modifyEntry i fun e' =>
    { e' with values := e.values, nextElement := some (e.nextElement.getD (e.offset.getD 0)) }
  refine ⟨_, _, ?_, (hset₁.trans hset₂).trans hnote, _,
    Workspace.entryOf?_modifyEntry_of_some h₂.entry _, rfl⟩
  have hget : (get : Resolve Workspace).runIn ws₂ = (.ok ws₂, ws₂) := rfl
  unfold Resolver.readScalars
  simp only [Resolve.runIn_bind, hoffset, helements, hget, h₂.entry, Option.getD_some, hread]
  rfl

/-- **An element that has been read, or that is known not to be there**, is not read again. -/
theorem runIn_readValues (resolver : Resolver) (h : ws.KnowsField r i f e) {n : Nat}
    (hread : n < e.values.size ∨ f.2.value = none ∧ f.2.Exhausted e) :
    ∃ ws' l, (resolver.readValues r i (.first (n + 1))).runIn ws =
        (.ok (decide (n < e.values.size)), ws') ∧ ws.Sets r l ws' ∧
      ∃ e', ws'.entryOf? r i = some e' ∧ e'.values = e.values := by
  obtain ⟨ws₁, hrun, hset₁, h₁⟩ := resolver.runIn_enumerate_of_knows h false
  unfold Resolver.readValues Resolver.readValuesWith
  simp only [entryOf?, fieldOf?, Resolve.runIn_bind, hrun, Resolve.runIn_ask, h₁.entry,
    Wanted.metBy]
  by_cases hlt : n < e.values.size
  · have hle : n + 1 ≤ e.values.size := hlt
    simp only [hlt, hle, decide_true, if_true, Resolve.runIn_pure]
    exact ⟨ws₁, _, rfl, hset₁, e, h₁.entry, rfl⟩
  · obtain ⟨hvalue, hex⟩ := hread.resolve_left hlt
    have hle : ¬ n + 1 ≤ e.values.size := hlt
    simp only [hlt, hle, decide_false, Bool.false_eq_true, if_false, Resolve.runIn_bind,
      Resolve.runIn_ask, h₁.field, hvalue]
    cases htype : f.2.type with
    | struct _ =>
      simp only [Resolve.runIn_pure]
      exact ⟨ws₁, _, rfl, hset₁, e, h₁.entry, rfl⟩
    | scalar type =>
      obtain ⟨ws₂, l, hrun₂, hset₂, hvalues⟩ :=
        resolver.runIn_readScalars h₁ hvalue htype hex (.first (n + 1))
      refine ⟨ws₂, l, ?_, hset₁.trans hset₂, hvalues⟩
      simp only [hrun₂, Wanted.metBy, hle, decide_false]

theorem runIn_intValue (resolver : Resolver) (h : ws.KnowsField r i f e) {n : Nat}
    (hread : n < e.values.size ∨ f.2.value = none ∧ f.2.Exhausted e) :
    ∃ ws' l, (resolver.intValue r i n).runIn ws =
        (.ok ((e.values[n]?).elim 0 fun e => e.value.toInt), ws') ∧ ws.Sets r l ws' := by
  obtain ⟨ws', l, hrun, hset, e', he', hvalues⟩ := resolver.runIn_readValues h hread
  refine ⟨ws', l, ?_, hset⟩
  unfold Resolver.readValues at hrun
  unfold Resolver.intValue Resolver.intValueWith
  simp only [entryOf?, Resolve.runIn_bind, hrun]
  by_cases hlt : n < e.values.size
  · simp only [hlt, decide_true, if_true, Resolve.runIn_bind, Resolve.runIn_ask, he',
      Option.bind_some, hvalues, Resolve.runIn_pure]
  · rw [Array.getElem?_eq_none (Nat.le_of_not_lt hlt)]
    simp only [hlt, decide_false, Bool.false_eq_true, if_false, Resolve.runIn_pure]
    rfl

/-! ## 3. Previews and sizes -/

/-- **A preview that is known**, or that is none. -/
theorem runIn_fieldPreview (resolver : Resolver) (h : ws.KnowsField r i f e) {text : String}
    (htext : f.2.Previews e text) (isLazy : Bool) :
    ∃ ws', (resolver.fieldPreview r i isLazy).runIn ws = (.ok text, ws') ∧
      ws.Sets r (ws.layoutOf r) ws' := by
  obtain ⟨ws₁, hrun, hset₁, h₁⟩ := resolver.runIn_enumerate_of_knows h isLazy
  unfold Resolver.fieldPreview
  simp only [entryOf?, Resolve.runIn_bind, hrun, Resolve.runIn_ask, h₁.entry]
  rcases htext with ⟨habsent, rfl⟩ | ⟨hpresent, hp | ⟨hp, hunplaced, hplain, rfl⟩⟩
  · simp only [habsent, Bool.not_false, if_true, Resolve.runIn_pure]
    exact ⟨ws₁, rfl, hset₁⟩
  · simp only [hpresent, Bool.not_true, Bool.false_eq_true, if_false, hp, Resolve.runIn_pure]
    exact ⟨ws₁, rfl, hset₁⟩
  · obtain ⟨ws₂, hoffset, hset₂⟩ := resolver.runIn_fieldOffset h₁ (.inr hplain) isLazy
    simp only [hpresent, Bool.not_true, Bool.false_eq_true, if_false, hp, Resolve.runIn_bind,
      hoffset, hunplaced, Option.isNone_none, if_true, Resolve.runIn_pure]
    exact ⟨ws₂, rfl, by rw [← hset₁.layoutOf]; exact hset₁.trans hset₂⟩

/-- A size that is kept is the answer. -/
theorem runIn_size_of_kept (resolver : Resolver) {d : StructDef} {size : Int64}
    (hd : ws.structOf? r = some d)
    (hsize : (ws.layoutOf r).sizeFor? (ws.stampOf r d) = some size) (isLazy : Bool) :
    (resolver.size r isLazy).runIn ws = (.ok (some size), ws) := by
  unfold Resolver.size
  simp only [structOf?, layoutOf, Resolve.runIn_bind, Resolve.runIn_ask, hd, hsize,
    Resolve.runIn_pure]

/-- An instance of an undefined struct has no size. -/
theorem runIn_size_of_undefined (resolver : Resolver) (hd : ws.structOf? r = none)
    (isLazy : Bool) : (resolver.size r isLazy).runIn ws = (.ok (some 0), ws) := by
  unfold Resolver.size
  simp only [structOf?, Resolve.runIn_bind, Resolve.runIn_ask, hd, Resolve.runIn_pure]

/-- **A size that has been told is told again**, and nothing happens. -/
theorem Reliable.runIn_size_again {once : Prop} {resolver : Resolver} {ws₁ ws₂ : Workspace}
    (h : resolver.Reliable once) (hs : ws.Sound once) (hr : ws.IsLive r) {isLazy : Bool}
    {size : Int64} (hrun : (resolver.size r isLazy).runIn ws = (.ok (some size), ws₁))
    (hg₂ : ws₁.Grows ws₂) :
    (resolver.size r isLazy).runIn ws₂ = (.ok (some size), ws₂) := by
  obtain ⟨_, hg, _, hkept, hundefined, _⟩ := (h.size hs hr isLazy).of_run hrun
  have hr₁ := hg.isLive hr
  cases hd : ws₂.structOf? r with
  | none =>
    rw [hg₂.structOf?, hg.structOf?] at hd
    cases hundefined hd
    exact resolver.runIn_size_of_undefined ((hg₂.structOf? r).trans ((hg.structOf? r).trans hd)) isLazy
  | some d =>
    have hnow : ws₁.stampNow? r = some (ws₂.stampOf r d) := by
      rw [← hg₂.stampNow? hr₁, Workspace.stampNow?, hd]
      rfl
    exact resolver.runIn_size_of_kept hd
      ((hg₂.layouts r hr₁).size _ size hnow (hkept _ size hnow rfl)) isLazy

end Resolver

/-- At the outermost as many frames are left as the limit admits. -/
theorem Resolve.runIn_resolving {α : Type} (request : Resolver → Resolve α) {ws : Workspace}
    {frames : Nat} (h : ws.limits.maxDepth - ws.depth = frames) :
    (Resolve.resolving request).runIn ws = (request (.within frames)).runIn ws := by
  rw [Resolve.resolving, Resolve.runIn_bind, Resolve.runIn_ask, ← h]

end ByteAtlas
