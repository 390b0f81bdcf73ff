import ByteAtlas.Resolve.Fields

/-!
# Layouts that fit

What a layout says about the fields of an instance, independent of how it came about:

* `originAt`: where the cursor is in front of a field, as the entries before it tell;
* `Layout.Fits`: the entries belong to the first fields of a definition, each starts where the one
  before it ends, and the cursor is where the next one starts;
* `FieldEntry.Grows`, `Layout.Grows`: what is known stays known. While a field is being laid out, no
  other one is;
* `Layout.Settled`: nothing has been edited since the layout was begun.

For each change of a layout it is shown that it keeps a layout fitting and lets it grow.
-/

namespace ByteAtlas

/-- A name of a field stands for one. -/
theorem StructDef.field?_of_fieldIndex? {d : StructDef} {name : String} {i : Nat}
    (h : d.fieldIndex? name = some i) : ∃ field, d.field? i = some field :=
  ⟨_, List.getElem?_eq_getElem (NameMap.indexOf?_lt h)⟩

/-! ## 1. Entries -/

/-- Whether a field moves the cursor past itself. -/
def FieldEntry.takesRoom (e : FieldEntry) (d : StructDef) (f : Field) : Bool :=
  e.present && d.isPacked && !f.isComputed

/-- Where the cursor is behind a field, if the room that the field takes is known. -/
def FieldEntry.next? (e : FieldEntry) (d : StructDef) (f : Field) : Option Int64 :=
  if e.takesRoom d f then e.totalSize.map (e.origin + ·) else some e.origin

/-- **Where the cursor is in front of a field**, the fields before it having entries. -/
def originAt (d : StructDef) (start : Int64) (entries : Array FieldEntry) : Nat → Option Int64
  | 0 => some start
  | k + 1 => (entries[k]?).bind fun e => (d.field? k).bind fun f => e.next? d f.2

/-- Whether an entry of a field has all elements that there are. -/
def Field.Exhausted (f : Field) (e : FieldEntry) : Prop :=
  match f.value, f.type with
  | some _, _ => e.values ≠ #[]
  | none, .scalar t => (e.offset.isSome ∨ f.offsetFormula = none) ∧ ∃ count, e.count = some count ∧
    f.hasNext (Int64.ofNat t.size) count (e.offset.getD 0)
      (e.nextElement.getD (e.offset.getD 0)) e.values = false
  | none, .struct _ => True

namespace Field.Exhausted

variable {f : Field} {e : FieldEntry}

/-- The value that an expression gives is all there is. -/
theorem iff_of_value (hf : f.value.isSome) : f.Exhausted e ↔ e.values ≠ #[] := by
  obtain ⟨formula, hformula⟩ := Option.isSome_iff_exists.mp hf
  unfold Field.Exhausted
  rw [hformula]

theorem iff_of_scalar (hf : f.value = none) {t : ScalarType} (ht : f.type = .scalar t) :
    f.Exhausted e ↔ (e.offset.isSome ∨ f.offsetFormula = none) ∧ ∃ count, e.count = some count ∧
      f.hasNext (Int64.ofNat t.size) count (e.offset.getD 0)
        (e.nextElement.getD (e.offset.getD 0)) e.values = false := by
  unfold Field.Exhausted
  rw [hf, ht]

/-- Elements of a struct type have no values. -/
theorem of_struct (hf : f.value = none) {struct : String} (ht : f.type = .struct struct) :
    f.Exhausted e := by
  unfold Field.Exhausted
  rw [hf, ht]
  trivial

/-- A note about something that was not known before: of elements with an unknown offset or count it
is not known whether there are more. -/
theorem note {e' e'' : FieldEntry} (h : f.Exhausted e) (h' : f.Exhausted e')
    (hvalues : e''.values = e'.values)
    (hno : f.value = none → e.count.isSome → e.offset.isSome ∨ f.offsetFormula = none → False) :
    f.Exhausted e'' := by
  cases hv : f.value with
  | some formula =>
    have hf : f.value.isSome := by rw [hv]; rfl
    rw [iff_of_value hf] at h' ⊢
    rwa [hvalues]
  | none =>
    cases ht : f.type with
    | struct _ => exact of_struct hv ht
    | scalar t =>
      obtain ⟨hoffset, count, hcount, _⟩ := (iff_of_scalar hv ht).mp h
      exact absurd hoffset (hno hv (by rw [hcount]; rfl))

end Field.Exhausted

/-- **Whether what is known about a field is still known**, and also what is known not to be there:
an offset that nothing computes, and elements after the last. -/
structure FieldEntry.Grows (f : Option Field) (e e' : FieldEntry) : Prop where
  present : e'.present = e.present
  origin : e'.origin = e.origin
  offset : ∀ n, e.offset = some n → e'.offset = some n
  count : ∀ n, e.count = some n → e'.count = some n
  totalSize : ∀ n, e.totalSize = some n → e'.totalSize = some n
  values : e.values.toList <+: e'.values.toList
  preview : ∀ p, e.preview = some p → e'.preview = some p
  placed : ∀ g, f = some g → g.offsetFormula = none → e'.offset = e.offset
  unplaced : ∀ g, f = some g → g.offsetFormula = none → e.offset = none → e'.preview = e.preview
  single : ∀ g, f = some g → g.value.isSome → e.values = #[] → e'.values.size ≤ 1
  exhausted : ∀ g, f = some g → g.Exhausted e → g.Exhausted e' ∧ e'.values = e.values

namespace FieldEntry.Grows

variable {f : Option Field}

theorem refl (e : FieldEntry) : FieldEntry.Grows f e e :=
  ⟨rfl, rfl, fun _ h => h, fun _ h => h, fun _ h => h, List.prefix_rfl, fun _ h => h,
    fun _ _ _ => rfl, fun _ _ _ _ => rfl, fun _ _ _ he => by simp [he], fun _ _ h => ⟨h, rfl⟩⟩

theorem trans {a b c : FieldEntry} (hab : FieldEntry.Grows f a b) (hbc : FieldEntry.Grows f b c) :
    FieldEntry.Grows f a c where
  present := hbc.present.trans hab.present
  origin := hbc.origin.trans hab.origin
  offset n h := hbc.offset n (hab.offset n h)
  count n h := hbc.count n (hab.count n h)
  totalSize n h := hbc.totalSize n (hab.totalSize n h)
  values := hab.values.trans hbc.values
  preview p h := hbc.preview p (hab.preview p h)
  placed g hg hn := (hbc.placed g hg hn).trans (hab.placed g hg hn)
  unplaced g hg hn ha :=
    (hbc.unplaced g hg hn ((hab.placed g hg hn).trans ha)).trans (hab.unplaced g hg hn ha)
  single g hg hv ha := by
    have hb := hab.single g hg hv ha
    by_cases he : b.values = #[]
    · exact hbc.single g hg hv he
    · rw [(hbc.exhausted g hg ((Field.Exhausted.iff_of_value hv).mpr he)).2]
      exact hb
  exhausted g hg ha := by
    obtain ⟨hb, heq⟩ := hab.exhausted g hg ha
    obtain ⟨hc, heq'⟩ := hbc.exhausted g hg hb
    exact ⟨hc, heq'.trans heq⟩

/-- An offset that is known, or that nothing computes, stays as it is. -/
theorem offset_eq {g : Field} {e e' : FieldEntry} (h : FieldEntry.Grows (some g) e e')
    (hsure : e.offset.isSome ∨ g.offsetFormula = none) : e'.offset = e.offset := by
  rcases hsure with hsome | hplain
  · obtain ⟨n, hn⟩ := Option.isSome_iff_exists.mp hsome
    rw [hn]
    exact h.offset n hn
  · exact h.placed g rfl hplain

theorem takesRoom {e e' : FieldEntry} (h : FieldEntry.Grows f e e') (d : StructDef) (g : Field) :
    e'.takesRoom d g = e.takesRoom d g := by
  rw [FieldEntry.takesRoom, h.present, FieldEntry.takesRoom]

/-- An element that has been read stays as it is. -/
theorem getElem?_eq {e e' : FieldEntry} (h : FieldEntry.Grows f e e') {n : Nat}
    (hn : n < e.values.size) : e'.values[n]? = e.values[n]? := by
  obtain ⟨rest, hrest⟩ := h.values
  rw [← Array.getElem?_toList, ← hrest, List.getElem?_append_left (by simpa using hn),
    Array.getElem?_toList]

/-! What was not known before is noted. -/

theorem setOffset {e e' : FieldEntry} (h : FieldEntry.Grows f e e') (hnone : e.offset = none)
    (hf : ∀ g, f = some g → g.offsetFormula ≠ none) (offset : Int64) :
    FieldEntry.Grows f e { e' with offset := some offset } := by
  refine { h with offset := fun n hn => ?_, placed := ?_, unplaced := ?_, exhausted := ?_ }
  · rw [hnone] at hn
    cases hn
  · exact fun g hg hn => absurd hn (hf g hg)
  · exact fun g hg hn => absurd hn (hf g hg)
  · intro g hg hex
    obtain ⟨hex', heq⟩ := h.exhausted g hg hex
    refine ⟨hex.note hex' rfl fun _ _ hoffset => ?_, heq⟩
    rcases hoffset with hsome | hplaced
    · rw [hnone] at hsome
      cases hsome
    · exact hf g hg hplaced

theorem setCount {e e' : FieldEntry} (h : FieldEntry.Grows f e e') (hnone : e.count = none)
    (count : Int64) : FieldEntry.Grows f e { e' with count := some count } := by
  refine { h with count := fun n hn => ?_, exhausted := ?_ }
  · rw [hnone] at hn
    cases hn
  · intro g hg hex
    obtain ⟨hex', heq⟩ := h.exhausted g hg hex
    refine ⟨hex.note hex' rfl fun _ hsome _ => ?_, heq⟩
    rw [hnone] at hsome
    cases hsome

theorem setTotalSize {e e' : FieldEntry} (h : FieldEntry.Grows f e e') (hnone : e.totalSize = none)
    (total : Int64) : FieldEntry.Grows f e { e' with totalSize := some total } := by
  refine { h with totalSize := fun n hn => ?_ }
  rw [hnone] at hn
  cases hn

theorem setPreview {e e' : FieldEntry} (h : FieldEntry.Grows f e e') (hnone : e.preview = none)
    (hoffset : e'.offset.isSome) (preview : String) :
    FieldEntry.Grows f e { e' with preview := some preview } := by
  refine { h with preview := fun p hp => ?_, unplaced := fun g hg hn ha => ?_ }
  · rw [hnone] at hp
    cases hp
  · rw [h.placed g hg hn, ha] at hoffset
    cases hoffset

/-- More elements are noted, if there are more. -/
theorem setValues {e e' : FieldEntry} (h : FieldEntry.Grows f e e') {values : Array Element}
    {next : Option Int64} (hv : e.values.toList <+: values.toList)
    (hsingle : ∀ g, f = some g → g.value.isSome → e.values = #[] → values.size ≤ 1)
    (hex : ∀ g, f = some g → g.Exhausted e →
      g.Exhausted { e' with values := values, nextElement := next } ∧ values = e.values) :
    FieldEntry.Grows f e { e' with values := values, nextElement := next } :=
  { h with values := hv, single := hsingle, exhausted := hex }

end FieldEntry.Grows

/-- The field with an index in a definition. -/
def fieldIn (d : Option StructDef) (i : Nat) : Option Field :=
  (d.bind fun d => d.field? i).map Prod.snd

/-- Whether each of some entries is still there, and knows what it knew. They belong to the fields
of a definition, if there is one. -/
def EntriesGrow (d : Option StructDef) (es es' : Array FieldEntry) : Prop :=
  ∀ (k : Nat) (e : FieldEntry), es[k]? = some e →
    ∃ e', es'[k]? = some e' ∧ FieldEntry.Grows (fieldIn d k) e e'

namespace EntriesGrow

variable {d : Option StructDef}

theorem refl (es : Array FieldEntry) : EntriesGrow d es es :=
  fun _ e he => ⟨e, he, .refl e⟩

theorem trans {a b c : Array FieldEntry} (hab : EntriesGrow d a b) (hbc : EntriesGrow d b c) :
    EntriesGrow d a c := by
  intro k e he
  obtain ⟨e₁, he₁, h₁⟩ := hab k e he
  obtain ⟨e₂, he₂, h₂⟩ := hbc k e₁ he₁
  exact ⟨e₂, he₂, h₁.trans h₂⟩

theorem size_le {es es' : Array FieldEntry} (h : EntriesGrow d es es') : es.size ≤ es'.size := by
  by_cases hz : es.size = 0
  · rw [hz]
    exact Nat.zero_le _
  · have hlt : es.size - 1 < es.size := by omega
    obtain ⟨e', he', _⟩ := h (es.size - 1) es[es.size - 1] (Array.getElem?_eq_getElem hlt)
    obtain ⟨hlt', _⟩ := Array.getElem?_eq_some_iff.mp he'
    omega

/-- A new entry behind the others. -/
theorem push (es : Array FieldEntry) (e : FieldEntry) : EntriesGrow d es (es.push e) := by
  intro k e' he'
  have hlt := (Array.getElem?_eq_some_iff.mp he').1
  exact ⟨e', by rw [Array.getElem?_push, if_neg (Nat.ne_of_lt hlt), he'], .refl e'⟩

/-- The last entry is taken back, if it is a new one. -/
theorem pop {es es' : Array FieldEntry} (h : EntriesGrow d es es') (hlt : es.size < es'.size) :
    EntriesGrow d es es'.pop := by
  intro k e he
  obtain ⟨e', he', hg⟩ := h k e he
  have hk := (Array.getElem?_eq_some_iff.mp he).1
  exact ⟨e', by rw [Array.getElem?_pop, if_pos (by omega), he'], hg⟩

/-- An entry with something more that was not known before. -/
theorem modify {es es' : Array FieldEntry} (h : EntriesGrow d es es') {i : Nat}
    {f : FieldEntry → FieldEntry}
    (hf : ∀ e e', es[i]? = some e → es'[i]? = some e' →
      FieldEntry.Grows (fieldIn d i) e e' → FieldEntry.Grows (fieldIn d i) e (f e')) :
    EntriesGrow d es (es'.modify i f) := by
  intro k e he
  obtain ⟨e', he', hg⟩ := h k e he
  by_cases hk : i = k
  · subst hk
    exact ⟨f e', by rw [Array.getElem?_modify, if_pos rfl, he']; rfl, hf e e' he he' hg⟩
  · exact ⟨e', by rw [Array.getElem?_modify, if_neg hk, he'], hg⟩

end EntriesGrow

/-! ## 2. Layouts that fit a definition -/

/-- How many fields the cursor has passed: all that have entries, but for one that is being laid
out. -/
def Layout.passed (l : Layout) : Nat := l.measuring.getD l.entries.size

/-- **Whether a layout fits a definition**, for an instance at an offset. -/
structure Layout.Fits (d : StructDef) (start : Int64) (l : Layout) : Prop where
  size_le : l.entries.size ≤ d.fieldCount
  origin : ∀ (k : Nat) (e : FieldEntry), l.entries[k]? = some e →
    originAt d start l.entries k = some e.origin
  /-- A field that is not computed starts at the cursor, or at its literal offset from there. -/
  offset : ∀ (k : Nat) (e : FieldEntry) (f : String × Field), l.entries[k]? = some e →
    d.field? k = some f → f.2.isComputed = false →
    e.offset = some (if e.present && !d.isPacked then e.origin + f.2.offset else e.origin)
  cursor : originAt d start l.entries l.passed = some l.cursor
  measuring : ∀ k, l.measuring = some k →
    k < d.fieldCount ∧ (l.entries.size = k ∨ l.entries.size = k + 1)

namespace Layout

section

variable {d : StructDef} {start : Int64} {l : Layout}

theorem field?_isSome {k : Nat} (hk : k < d.fieldCount) : ∃ f, d.field? k = some f :=
  ⟨d.fields.entries[k], List.getElem?_eq_getElem hk⟩

theorem lt_fieldCount {k : Nat} {f : String × Field} (hf : d.field? k = some f) :
    k < d.fieldCount :=
  (List.getElem?_eq_some_iff.mp hf).1

/-- The cursor in front of a field is known as far as it has come. -/
theorem Fits.originAt_isSome (h : l.Fits d start) {k : Nat} (hk : k ≤ l.passed) :
    ∃ n, originAt d start l.entries k = some n := by
  by_cases hlt : k < l.entries.size
  · exact ⟨_, h.origin k l.entries[k] (Array.getElem?_eq_getElem hlt)⟩
  · have hp : k = l.passed := by
      cases hm : l.measuring with
      | none =>
        rw [passed, hm, Option.getD_none] at hk ⊢
        omega
      | some j =>
        have := (h.measuring j hm).2
        rw [passed, hm, Option.getD_some] at hk ⊢
        omega
    rw [hp]
    exact ⟨_, h.cursor⟩

/-- A field that the cursor has passed takes no room, or its room is known. -/
theorem Fits.takesRoom_eq_false (h : l.Fits d start) {i : Nat} {e : FieldEntry}
    {f : String × Field} (hi : i < l.passed) (he : l.entries[i]? = some e)
    (hf : d.field? i = some f) (hnone : e.totalSize = none) : e.takesRoom d f.2 = false := by
  obtain ⟨n, hn⟩ := h.originAt_isSome (Nat.succ_le_of_lt hi)
  rw [originAt, he, hf] at hn
  cases hroom : e.takesRoom d f.2 with
  | false => rfl
  | true =>
    have hnext : e.next? d f.2 = some n := hn
    rw [FieldEntry.next?, if_pos hroom, hnone] at hnext
    cases hnext

/-- Entries that tell the cursor in the same way keep it where it was. -/
theorem originAt_congr {es es' : Array FieldEntry} :
    ∀ {k : Nat}, (∀ j < k, ∀ e, es[j]? = some e → ∃ e', es'[j]? = some e' ∧
        ∀ f n, d.field? j = some f → e.next? d f.2 = some n → e'.next? d f.2 = some n) →
      ∀ n, originAt d start es k = some n → originAt d start es' k = some n
  | 0, _, _, hn => hn
  | k + 1, h, n, hn => by
    rw [originAt] at hn ⊢
    obtain ⟨e, he, hn⟩ := Option.bind_eq_some_iff.mp hn
    obtain ⟨f, hf, hn⟩ := Option.bind_eq_some_iff.mp hn
    obtain ⟨e', he', hnext⟩ := h k (Nat.lt_succ_self k) e he
    rw [he', hf]
    exact hnext f n hf hn

/-! ### Changes of one entry -/

/-- Whether a change of an entry leaves alone what the layout of the fields depends on. -/
structure Harmless (d : StructDef) (i : Nat) (passed : Bool) (e e' : FieldEntry) : Prop where
  present : e'.present = e.present
  origin : e'.origin = e.origin
  offset : ∀ f, d.field? i = some f → f.2.isComputed = false → e'.offset = e.offset
  next : passed = true → ∀ f, d.field? i = some f → e'.next? d f.2 = e.next? d f.2

/-- What does not say where a field is, and how large, may be noted. -/
theorem Harmless.of_same {i : Nat} {passed : Bool} {e e' : FieldEntry}
    (hp : e'.present = e.present) (ho : e'.origin = e.origin) (hoff : e'.offset = e.offset)
    (ht : e'.totalSize = e.totalSize) : Harmless d i passed e e' := by
  refine ⟨hp, ho, fun _ _ _ => hoff, fun _ f _ => ?_⟩
  rw [FieldEntry.next?, FieldEntry.next?, FieldEntry.takesRoom, FieldEntry.takesRoom, hp, ho, ht]

/-- **A harmless change of an entry** keeps the layout fitting. -/
theorem Fits.modifyEntry (h : l.Fits d start) {i : Nat} {f : FieldEntry → FieldEntry}
    (hf : ∀ e, l.entries[i]? = some e → Harmless d i (i < l.passed) e (f e)) :
    (l.modifyEntry i f).Fits d start := by
  have hentry (k : Nat) (e' : FieldEntry) (he' : (l.entries.modify i f)[k]? = some e') :
      ∃ e, l.entries[k]? = some e ∧ ((k = i ∧ e' = f e) ∨ (k ≠ i ∧ e' = e)) := by
    rw [Array.getElem?_modify] at he'
    by_cases hk : i = k
    · rw [if_pos hk] at he'
      obtain ⟨e, he, rfl⟩ := Option.map_eq_some_iff.mp he'
      exact ⟨e, he, .inl ⟨hk.symm, rfl⟩⟩
    · rw [if_neg hk] at he'
      exact ⟨e', he', .inr ⟨fun e => hk e.symm, rfl⟩⟩
  -- Up to the cursor the entries tell the same places as before.
  have hplace {k : Nat} (hk : k ≤ l.passed) {n : Int64}
      (hn : originAt d start l.entries k = some n) :
      originAt d start (l.entries.modify i f) k = some n := by
    refine originAt_congr (fun j hj e he => ?_) n hn
    by_cases hji : i = j
    · subst hji
      refine ⟨f e, by rw [Array.getElem?_modify, if_pos rfl, he]; rfl, fun g n hg hn => ?_⟩
      rw [(hf e he).next (by simpa using Nat.lt_of_lt_of_le hj hk) g hg]
      exact hn
    · exact ⟨e, by rw [Array.getElem?_modify, if_neg hji, he], fun _ _ _ hn => hn⟩
  have hpassed : ∀ k e, l.entries[k]? = some e → k ≤ l.passed := by
    intro k e he
    have hlt := (Array.getElem?_eq_some_iff.mp he).1
    cases hm : l.measuring with
    | none =>
      rw [passed, hm, Option.getD_none]
      omega
    | some j =>
      have := (h.measuring j hm).2
      rw [passed, hm, Option.getD_some]
      omega
  refine ⟨?_, ?_, ?_, ?_, ?_⟩
  · show (l.entries.modify i f).size ≤ _
    rw [Array.size_modify]
    exact h.size_le
  · intro k e' he'
    obtain ⟨e, he, hcases⟩ := hentry k e' he'
    have horigin : e'.origin = e.origin := by
      rcases hcases with ⟨rfl, rfl⟩ | ⟨_, rfl⟩
      · exact (hf e he).origin
      · rfl
    rw [horigin]
    exact hplace (hpassed k e he) (h.origin k e he)
  · intro k e' g he' hg hc
    obtain ⟨e, he, hcases⟩ := hentry k e' he'
    have hold := h.offset k e g he hg hc
    rcases hcases with ⟨rfl, rfl⟩ | ⟨_, rfl⟩
    · rw [(hf e he).offset g hg hc, (hf e he).present, (hf e he).origin]
      exact hold
    · exact hold
  · have hp : (l.modifyEntry i f).passed = l.passed := by
      show l.measuring.getD (l.entries.modify i f).size = _
      rw [Array.size_modify]
      rfl
    rw [hp]
    exact hplace (Nat.le_refl _) h.cursor
  · intro k hk
    show _ ∧ ((l.entries.modify i f).size = k ∨ (l.entries.modify i f).size = k + 1)
    rw [Array.size_modify]
    exact h.measuring k hk

/-! ### Laying out one more field -/

/-- No entries, and the cursor at the start. -/
theorem fits_of_empty (hm : l.measuring = none) (he : l.entries = #[]) (hc : l.cursor = start) :
    l.Fits d start := by
  refine ⟨?_, ?_, ?_, ?_, ?_⟩
  · rw [he]
    exact Nat.zero_le _
  · intro k e hk
    rw [he] at hk
    cases hk
  · intro k e f hk
    rw [he] at hk
    cases hk
  · rw [passed, hm, he, hc]
    rfl
  · intro k hk
    rw [hm] at hk
    cases hk

theorem Fits.startMeasuring (h : l.Fits d start) (hm : l.measuring = none)
    (hlt : l.entries.size < d.fieldCount) :
    (l.setMeasuring (some l.entries.size)).Fits d start := by
  refine ⟨h.size_le, h.origin, h.offset, ?_, ?_⟩
  · have hc := h.cursor
    rw [passed, hm] at hc
    exact hc
  · intro k hk
    have hk' : l.entries.size = k := Option.some.inj hk
    exact ⟨hk' ▸ hlt, .inl hk'⟩

/-- **A new entry at the cursor.** -/
theorem Fits.push (h : l.Fits d start) {e : FieldEntry} (hm : l.measuring = some l.entries.size)
    (he : e.origin = l.cursor)
    (ho : ∀ f, d.field? l.entries.size = some f → f.2.isComputed = false →
      e.offset = some (if e.present && !d.isPacked then e.origin + f.2.offset else e.origin)) :
    (l.push e).Fits d start := by
  have hlt := (h.measuring _ hm).1
  have hold {k : Nat} (hk : k < l.entries.size) : (l.entries.push e)[k]? = l.entries[k]? := by
    rw [Array.getElem?_push, if_neg (by omega)]
  have hplace {k : Nat} (hk : k ≤ l.entries.size) {n : Int64}
      (hn : originAt d start l.entries k = some n) :
      originAt d start (l.entries.push e) k = some n := by
    refine originAt_congr (fun j hj e' he' => ?_) n hn
    exact ⟨e', by rw [hold (by omega), he'], fun _ _ _ hn => hn⟩
  have hcursor : originAt d start l.entries l.entries.size = some l.cursor := by
    have hc := h.cursor
    rw [passed, hm] at hc
    exact hc
  refine ⟨?_, ?_, ?_, ?_, ?_⟩
  · show (l.entries.push e).size ≤ _
    rw [Array.size_push]
    exact hlt
  · intro k e' he'
    have he'' : (l.entries.push e)[k]? = some e' := he'
    rw [Array.getElem?_push] at he''
    by_cases hk : k = l.entries.size
    · rw [if_pos hk] at he''
      rw [← Option.some.inj he'', he, hk]
      exact hplace (Nat.le_refl _) hcursor
    · rw [if_neg hk] at he''
      have hlt' := (Array.getElem?_eq_some_iff.mp he'').1
      exact hplace (Nat.le_of_lt hlt') (h.origin k e' he'')
  · intro k e' f he' hf hc
    have he'' : (l.entries.push e)[k]? = some e' := he'
    rw [Array.getElem?_push] at he''
    by_cases hk : k = l.entries.size
    · rw [if_pos hk] at he''
      rw [← Option.some.inj he'']
      rw [hk] at hf
      exact ho f hf hc
    · rw [if_neg hk] at he''
      exact h.offset k e' f he'' hf hc
  · have hp : (l.push e).passed = l.entries.size := by
      show l.measuring.getD _ = _
      rw [hm]
      rfl
    rw [hp]
    exact hplace (Nat.le_refl _) hcursor
  · intro k hk
    have hk' : l.entries.size = k := Option.some.inj (hm.symm.trans hk)
    refine ⟨hk' ▸ hlt, .inr ?_⟩
    show (l.entries.push e).size = _
    rw [Array.size_push, hk']

/-- The field that was being laid out is, and the cursor is behind it. -/
theorem Fits.pass (h : l.Fits d start) {k : Nat} {e : FieldEntry} {f : String × Field} {n : Int64}
    (hsize : l.entries.size = k + 1) (he : l.entries[k]? = some e) (hf : d.field? k = some f)
    (hn : e.next? d f.2 = some n) :
    Layout.Fits d start { l with cursor := n, measuring := none } := by
  refine ⟨h.size_le, h.origin, h.offset, ?_, fun _ hk => nomatch hk⟩
  show originAt d start l.entries l.entries.size = some n
  rw [hsize, originAt, he, hf]
  exact hn

/-- The field that was to be laid out has no entry yet. -/
theorem Fits.stop (h : l.Fits d start) (hm : l.measuring = some l.entries.size) :
    (l.setMeasuring none).Fits d start := by
  refine ⟨h.size_le, h.origin, h.offset, ?_, fun _ hk => nomatch hk⟩
  have hc := h.cursor
  rw [passed, hm] at hc
  exact hc

/-- The entry of a field that could not be laid out is taken back. -/
theorem Fits.pop (h : l.Fits d start) {k : Nat} (hm : l.measuring = some k)
    (hsize : l.entries.size = k + 1) : (l.pop.setMeasuring none).Fits d start := by
  have hk := (h.measuring k hm).1
  have hold {j : Nat} {e : FieldEntry} (he : l.entries.pop[j]? = some e) :
      j < k ∧ l.entries[j]? = some e := by
    rw [Array.getElem?_pop] at he
    split at he
    · rename_i hj
      exact ⟨by omega, he⟩
    · cases he
  have hplace {j : Nat} (hj : j ≤ k) {n : Int64} (hn : originAt d start l.entries j = some n) :
      originAt d start l.entries.pop j = some n := by
    refine originAt_congr (fun i hi e he => ?_) n hn
    exact ⟨e, by rw [Array.getElem?_pop, if_pos (by omega), he], fun _ _ _ hn => hn⟩
  refine ⟨?_, ?_, ?_, ?_, fun _ hk => nomatch hk⟩
  · show l.entries.pop.size ≤ _
    rw [Array.size_pop]
    omega
  · intro j e he
    obtain ⟨hj, he'⟩ := hold he
    exact hplace (Nat.le_of_lt hj) (h.origin j e he')
  · intro j e f he
    exact h.offset j e f (hold he).2
  · show originAt d start l.entries.pop l.entries.pop.size = some l.cursor
    have hc := h.cursor
    rw [passed, hm, Option.getD_some] at hc
    rw [Array.size_pop, hsize, Nat.add_sub_cancel]
    exact hplace (Nat.le_refl _) hc

end

/-! ## 3. What is known stays known -/

/-- The size has a stamp of its own. -/
theorem size_validated (l : Layout) (st : Stamp) (offset : Int64) :
    (l.validated st offset).size = l.size := by
  unfold validated
  split <;> rfl

/-- **Whether what a layout tells for the stamp `now` is still there**, and the field that is being
laid out is the same. -/
structure Grows (now : Option Stamp) (d : Option StructDef) (l l' : Layout) : Prop where
  measuring : l'.measuring = l.measuring
  /-- While a field is being laid out no other is. -/
  frozen : l.measuring ≠ none → l'.cursor = l.cursor ∧ l'.entries.size = l.entries.size
  kept : ∀ st, now = some st → l.stamp = some st →
    l'.stamp = some st ∧ EntriesGrow d l.entries l'.entries
  size : ∀ st n, now = some st → l.sizeFor? st = some n → l'.sizeFor? st = some n

namespace Grows

variable {now : Option Stamp} {d : Option StructDef} {l l' : Layout}

theorem refl (now : Option Stamp) (d : Option StructDef) (l : Layout) :
    Layout.Grows now d l l :=
  ⟨rfl, fun _ => ⟨rfl, rfl⟩, fun _ _ hl => ⟨hl, .refl _⟩, fun _ _ _ h => h⟩

theorem trans {a b c : Layout} (hab : Layout.Grows now d a b) (hbc : Layout.Grows now d b c) :
    Layout.Grows now d a c := by
  refine ⟨hbc.measuring.trans hab.measuring, ?_, ?_,
    fun st n hst hn => hbc.size st n hst (hab.size st n hst hn)⟩
  · intro hm
    obtain ⟨hc₁, hs₁⟩ := hab.frozen hm
    obtain ⟨hc₂, hs₂⟩ := hbc.frozen (by rwa [hab.measuring])
    exact ⟨hc₂.trans hc₁, hs₂.trans hs₁⟩
  · intro st hst hl
    obtain ⟨hl₁, he₁⟩ := hab.kept st hst hl
    obtain ⟨hl₂, he₂⟩ := hbc.kept st hst hl₁
    exact ⟨hl₂, he₁.trans he₂⟩

/-- Something that was not known before is noted in an entry. -/
theorem modifyEntry (h : Layout.Grows now d l l') {i : Nat} {f : FieldEntry → FieldEntry}
    (hf : now.isSome → l.stamp = now → ∀ e e', l.entries[i]? = some e → l'.entries[i]? = some e' →
      FieldEntry.Grows (fieldIn d i) e e' → FieldEntry.Grows (fieldIn d i) e (f e')) :
    Layout.Grows now d l (l'.modifyEntry i f) := by
  refine ⟨h.measuring, ?_, ?_, h.size⟩
  · intro hm
    obtain ⟨hc, hs⟩ := h.frozen hm
    refine ⟨hc, ?_⟩
    show (l'.entries.modify i f).size = _
    rw [Array.size_modify]
    exact hs
  · intro st hst hl
    obtain ⟨hl', he⟩ := h.kept st hst hl
    exact ⟨hl', he.modify (hf (by rw [hst]; rfl) (hl.trans hst.symm))⟩

/-- A size that was not known before is noted. -/
theorem setSize (h : Layout.Grows now d l l') (hnone : ∀ st, now = some st → l.sizeFor? st = none)
    (st : Stamp) (size : Int64) : Layout.Grows now d l (l'.setSize st size) := by
  refine ⟨h.measuring, h.frozen, h.kept, fun st' n hst hn => ?_⟩
  rw [hnone st' hst] at hn
  cases hn

/-- Dropping what does not hold drops nothing that does. -/
theorem validated {st : Stamp} (hm : l.measuring ≠ none → l.stamp = some st) (offset : Int64) :
    Layout.Grows (some st) d l (l.validated st offset) := by
  unfold Layout.validated
  by_cases hl : l.stamp = some st
  · rw [if_pos hl]
    exact .refl _ d l
  · rw [if_neg hl]
    have hnone : l.measuring = none := Decidable.byContradiction fun hne => hl (hm hne)
    refine ⟨hnone.symm, fun hne => absurd hnone hne, ?_, fun _ _ _ h => h⟩
    rintro st' ⟨⟩ hl'
    exact absurd hl' hl

end Grows

/-! ## 4. Layouts without edits -/

/-- **Whether a layout holds for the stamp `now`**, if for any, and the size of a packed struct is
where its last field ends. -/
structure Settled (d : StructDef) (start : Int64) (now : Stamp) (l : Layout) : Prop where
  fresh : l.stamp = none → l.measuring = none ∧ l.entries = #[] ∧ l.cursor = start
  current : ∀ st, l.stamp = some st → st = now
  size : ∀ st size, l.size = some (st, size) → d.isPacked = true → d.sizeSource = none →
    l.measuring = none ∧ d.fieldCount ≤ l.entries.size ∧ size = l.cursor - start

namespace Settled

variable {d : StructDef} {start : Int64} {now : Stamp} {l : Layout}

theorem unknown : (Layout.unknown start).Settled d start now :=
  ⟨fun _ => ⟨rfl, rfl, rfl⟩, fun _ h => (nomatch h), fun _ _ h => nomatch h⟩

theorem validated (h : l.Settled d start now) : (l.validated now start).Settled d start now := by
  unfold Layout.validated
  by_cases hl : l.stamp = some now
  · rw [if_pos hl]
    exact h
  · rw [if_neg hl]
    have hnone : l.stamp = none := by
      cases hs : l.stamp with
      | none => rfl
      | some st => exact absurd (h.current st hs ▸ hs) hl
    obtain ⟨_, he, hc⟩ := h.fresh hnone
    refine ⟨fun e => (nomatch e), fun _ e => (Option.some.inj e).symm, fun st size hs hp hn => ?_⟩
    obtain ⟨_, hold⟩ := h.size st size hs hp hn
    rw [he, hc] at hold
    exact ⟨rfl, hold⟩

theorem modifyEntry (h : l.Settled d start now) (i : Nat) (f : FieldEntry → FieldEntry) :
    (l.modifyEntry i f).Settled d start now := by
  refine ⟨fun hs => ?_, h.current, fun st size hs hp hn => ?_⟩
  · obtain ⟨hm, he, hc⟩ := h.fresh hs
    refine ⟨hm, ?_, hc⟩
    show l.entries.modify i f = #[]
    rw [he]
    rfl
  · obtain ⟨hm, hfull, hsize⟩ := h.size st size hs hp hn
    refine ⟨hm, ?_, hsize⟩
    show _ ≤ (l.entries.modify i f).size
    rw [Array.size_modify]
    exact hfull

/-- The size is noted once it is known. -/
theorem setSize (h : l.Settled d start now) {size : Int64}
    (hsize : d.isPacked = true → d.sizeSource = none →
      l.measuring = none ∧ d.fieldCount ≤ l.entries.size ∧ size = l.cursor - start) (st : Stamp) :
    (l.setSize st size).Settled d start now := by
  refine ⟨h.fresh, h.current, fun _ _ hs hp hn => ?_⟩
  cases hs
  exact hsize hp hn

/-- A layout that lacks a field, or lays one out, has no size yet, if its struct is packed. -/
theorem size_eq_none (h : l.Settled d start now)
    (hopen : l.entries.size < d.fieldCount ∨ l.measuring ≠ none) (hp : d.isPacked = true)
    (hn : d.sizeSource = none) : l.size = none := by
  cases hs : l.size with
  | none => rfl
  | some s =>
    obtain ⟨hm, hfull, _⟩ := h.size s.1 s.2 hs hp hn
    rcases hopen with hlt | hne
    · omega
    · exact absurd hm hne

/-- A layout that lacks a field, or lays one out, may be changed, as long as it holds for the same
stamp. -/
theorem of_open (h : l.Settled d start now)
    (hopen : l.entries.size < d.fieldCount ∨ l.measuring ≠ none) {l' : Layout}
    (hstamp : l'.stamp = some now) (hsize : l'.size = l.size) : l'.Settled d start now := by
  refine ⟨fun e => ?_, fun st e => ?_, fun st size hs hp hn => ?_⟩
  · rw [hstamp] at e
    cases e
  · rw [hstamp] at e
    exact (Option.some.inj e).symm
  · rw [hsize, h.size_eq_none hopen hp hn] at hs
    cases hs

end Settled

end Layout

end ByteAtlas
