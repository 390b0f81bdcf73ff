import ByteAtlas.Proofs.Elements.Rows

/-!
# The room that elements take

The room that a field of a scalar type is known to take up is that of its elements: as many as have
a preview, whichever of the two is asked for first (`Workspace.Led.total_size_counts_previews`).
-/

namespace ByteAtlas

namespace FieldEntry.Orderly

variable {f : Field} {t : ScalarType} {e : FieldEntry} {c total : Int64}

/-- The number of elements that take up room is what the count has room for, if no zero ends the
field. -/
theorem occupied_eq (hc : 0 ≤ c) (huntil : f.untilZero = false) (values : Array Element) :
    f.occupied (Int64.ofNat t.size) c values = Int64.ofNat (f.capacity t.size c) := by
  have hpos := t.size_pos
  have hsize := t.size_le
  obtain ⟨m, hm⟩ := Int.eq_ofNat_of_zero_le (Int64.le_iff_toInt_le.mp hc)
  have hlt := c.toInt_lt
  have hof : (Int64.ofNat t.size).toInt = t.size := Int64.toInt_ofNat_of_lt (by omega)
  unfold Field.occupied Field.capacity
  rw [huntil, if_neg Bool.false_ne_true, hm, Int.toNat_natCast]
  refine Int64.toInt_inj.mp ?_
  split
  · have hzero : (0 : Int64) < Int64.ofNat t.size := by
      rw [Int64.lt_iff_toInt_lt, hof]
      exact Int.ofNat_lt.mpr hpos
    have hle : m / t.size ≤ m := Nat.div_le_self _ _
    have hdiv : (m : Int).tdiv t.size = (m / t.size : Nat) := rfl
    rw [if_pos hzero, Int64.toInt_div, hof, hm, hdiv, Int64.toInt_ofNat_of_lt (by omega)]
    generalize m / t.size = q at hle
    exact Int.bmod_eq_of_le (by omega) (by omega)
  · rw [Int64.toInt_ofNat_of_lt (by omega), hm]

/-- **The room that is known is that of the elements**, so many of them. -/
theorem total_eq (h : e.Orderly f t) (hv : f.value = none) (ht : f.type = .scalar t)
    (hplain : f.countIsBytes = true → f.offsetFormula = none) (hc : e.count = some c)
    (hsmall : c.toInt * t.size < 2 ^ 62) (htotal : e.Occupies f t total) :
    ∃ elements : Nat, total.toInt = t.size * elements ∧
      ∀ n, (n < e.values.size ∨ f.Exhausted e) → (n < e.values.size ↔ n < elements) := by
  obtain ⟨c', hc', hall, rfl⟩ := htotal
  obtain rfl : c = c' := Option.some.inj (hc.symm.trans hc')
  have hpos := t.size_pos
  have hsize := t.size_le
  have hcount : (c.toInt.toNat : Int) = c.toInt :=
    Int.toNat_of_nonneg (Int64.le_iff_toInt_le.mp (h.count c hc))
  have hroom : f.capacity t.size c * t.size < 2 ^ 62 := by
    have hle := Nat.mul_le_mul_right t.size (f.capacity_le t.size c)
    have hcast : ((c.toInt.toNat * t.size : Nat) : Int) = c.toInt * t.size := by
      rw [Int.natCast_mul, hcount]
    omega
  have hspaced (n : Nat) : f.Spaced t.size (min n (f.capacity t.size c)) := by
    intro _
    have hle := Nat.mul_le_mul_right t.size
      (Nat.succ_le_succ (Nat.min_le_right n (f.capacity t.size c)))
    rw [Nat.succ_mul, Nat.succ_mul] at hle
    rw [Nat.add_mul, Nat.one_mul]
    omega
  -- As many elements as there is room for take up no more than what fits.
  have hmul {m : Nat} (hm : m ≤ f.capacity t.size c) :
      (Int64.ofNat t.size * Int64.ofNat m).toInt = t.size * m := by
    have hle := Nat.mul_le_mul_right t.size hm
    rw [← Int64.ofNat_mul, Nat.mul_comm, Int64.toInt_ofNat_of_lt (by omega), Nat.mul_comm,
      Int.natCast_mul]
  cases huntil : f.untilZero with
  | true =>
    refine ⟨e.values.size, ?_, fun n hn => Iff.rfl⟩
    unfold Field.occupied
    rw [if_pos huntil]
    refine hmul (Nat.le_of_not_lt fun hlt => ?_)
    have hread := h.admits_take hc (hspaced _) hlt _ (Nat.le_refl _)
    exact Nat.lt_irrefl _ hread.1
  | false =>
    refine ⟨f.capacity t.size c, ?_, fun n hn => ?_⟩
    · rw [occupied_eq (h.count c hc) huntil]
      exact hmul (Nat.le_refl _)
    · rw [h.lt_size_iff hv ht hplain hc (hspaced n) hn, huntil]
      simp

end FieldEntry.Orderly

namespace Workspace

variable {kept : FileId → Prop} {ws : Workspace} {n : Nat} {r : InstanceRef} {d : StructDef}
  {i : Nat} {f : String × Field} {t : ScalarType} {e : FieldEntry}

/-- **Asking for a preview** tells whether the element is there, if no frame is refused. -/
theorem Led.valuePreview_tells (h : ws.Led kept n) (hn : n < Schema.versionLimit)
    (hr : ws.IsLive r) (hf : ws.fieldOf? r i = some f) (k : Nat) :
    ∃ p after, (r.valuePreview i k).runIn ws = (.ok p, after) ∧ after.Led kept n ∧
      ws.Grows after ∧ (after.refusals = ws.refusals → ∃ e, after.KnowsField r i f e ∧
        (k < e.values.size ∨ f.2.Exhausted e) ∧ (p.isSome ↔ k < e.values.size)) := by
  obtain ⟨p, after, hrun, _, hg, hreach, hread⟩ := Resolve.ends_resolving fun _ hresolver =>
    hresolver.valuePreview (h.ordered hn).sound hr i k
  have hrun : (r.valuePreview i k).runIn ws = (.ok p, after) := hrun
  have hled := h.question hr (.valuePreview i k)
  rw [hrun] at hled
  refine ⟨p, after, hrun, hled, hg, fun hquiet => ?_⟩
  have hlaid := hreach.2 rfl hquiet (h.atRest.idle r hr)
  have hf' := (hg.fieldOf? r i).trans hf
  obtain ⟨e, hknows⟩ := KnowsField.of_laidOut hf' hreach.1 hlaid
  obtain ⟨hread, hthere⟩ := hread hquiet
  refine ⟨e, hknows, hread f e hf' hknows.entry, ?_⟩
  rw [hthere, hknows.entry]
  simp

/-- What is known of a field that has been measured. -/
theorem Led.total_eq (h : ws.Led kept n) (hn : n < Schema.versionLimit) (hr : ws.IsLive r)
    (hd : ws.structOf? r = some d) (hplain : d.PlainBudgets) (hf : d.field? i = some f)
    (hvalue : f.2.value = none) (htype : f.2.type = .scalar t) (hknows : ws.KnowsField r i f e)
    {total c : Int64} (htotal : e.totalSize = some total) (hc : e.count = some c)
    (hsmall : c.toInt * t.size < 2 ^ 62) :
    ∃ elements : Nat, total.toInt = t.size * elements ∧ ∀ k,
      (k < e.values.size ∨ f.2.Exhausted e) → (k < e.values.size ↔ k < elements) := by
  obtain ⟨horder, hoccupies⟩ :=
    ((h.every hn).of_current hr hd hknows.current hf hknows.entry).1.scalars hplain t hvalue htype
  exact horder.total_eq hvalue htype (hplain.offsetFormula hf hvalue htype) hc hsmall
    (hoccupies total htotal)

/-- **A field that has been measured**: the room that is known is that of so many elements. -/
structure TakesRoom (kept : FileId → Prop) (ws : Workspace) (n : Nat) (r : InstanceRef) (i : Nat)
    (d : StructDef) (f : String × Field) (t : ScalarType) (total c : Int64) (elements : Nat)
    (e : FieldEntry) : Prop where
  led : ws.Led kept n
  few : n < Schema.versionLimit
  live : ws.IsLive r
  struct : ws.structOf? r = some d
  plain : d.PlainBudgets
  field : d.field? i = some f
  value : f.2.value = none
  type : f.2.type = .scalar t
  knows : ws.KnowsField r i f e
  totalSize : e.totalSize = some total
  count : e.count = some c
  small : c.toInt * t.size < 2 ^ 62
  room : total.toInt = t.size * elements

namespace TakesRoom

variable {ws' : Workspace} {total c : Int64} {elements : Nat}

/-- What has been read is part of it. -/
theorem lt_iff (h : ws.TakesRoom kept n r i d f t total c elements e) {k : Nat}
    (hread : k < e.values.size ∨ f.2.Exhausted e) : k < e.values.size ↔ k < elements := by
  obtain ⟨elements', hroom, hcounted⟩ := h.led.total_eq h.few h.live h.struct h.plain h.field h.value
    h.type h.knows h.totalSize h.count h.small
  have hpos : (t.size : Int) ≠ 0 := Int.ofNat_ne_zero.mpr (Nat.ne_of_gt t.size_pos)
  have hsame : elements' = elements :=
    Int.ofNat.inj (Int.eq_of_mul_eq_mul_left hpos (hroom.symm.trans h.room))
  exact hsame ▸ hcounted k hread

/-- It stays so as long as only requests are made. -/
theorem grows (h : ws.TakesRoom kept n r i d f t total c elements e) (hled : ws'.Led kept n)
    (hg : ws.Grows ws') : ∃ e', ws'.TakesRoom kept n r i d f t total c elements e' := by
  obtain ⟨e', hknows, hgrow⟩ := h.knows.grows h.live hg
  exact ⟨e', hled, h.few, hg.isLive h.live, (hg.structOf? r).trans h.struct, h.plain, h.field,
    h.value, h.type, hknows, hgrow.totalSize total h.totalSize, hgrow.count c h.count, h.small,
    h.room⟩

/-- **A preview that is asked for afterwards** is there just if it is that of one of the
elements. -/
theorem preview_after (h : ws.TakesRoom kept n r i d f t total c elements e)
    (hrequested : ws.Requested ws') (k : Nat) :
    ∃ p after, (r.valuePreview i k).runIn ws' = (.ok p, after) ∧
      (after.refusals = ws'.refusals → (p.isSome ↔ k < elements)) := by
  obtain ⟨e₁, h₁⟩ := h.grows (hrequested.led h.led) (hrequested.grows h.led)
  obtain ⟨p, after, hrun, hled, hg, htells⟩ :=
    h₁.led.valuePreview_tells h₁.few h₁.live h₁.knows.field k
  refine ⟨p, after, hrun, fun hquiet => ?_⟩
  obtain ⟨e₂, hknows, hread, hthere⟩ := htells hquiet
  obtain ⟨e₃, h₃⟩ := h₁.grows hled hg
  obtain rfl : e₂ = e₃ := Option.some.inj (hknows.entry.symm.trans h₃.knows.entry)
  exact hthere.trans (h₃.lt_iff hread)

/-- **So is a preview that was asked for before**: what it told is still known. -/
theorem preview_before (h : ws'.TakesRoom kept n r i d f t total c elements e) {after : Workspace}
    {p : Option String} {k : Nat} (hled : ws.Led kept n) (hr : ws.IsLive r)
    (hrun : (r.valuePreview i k).runIn ws = (.ok p, after))
    (hquiet : after.refusals = ws.refusals) (hg : after.Grows ws') :
    p.isSome ↔ k < elements := by
  obtain ⟨_, hg₀, _⟩ := ((Question.valuePreview i k).ends (hled.ordered h.few).sound hr).of_run hrun
  have hf : ws.fieldOf? r i = some f :=
    (hg₀.fieldOf? r i).symm.trans ((hg.fieldOf? r i).symm.trans h.knows.field)
  obtain ⟨p', after', hrun', _, _, htells⟩ := hled.valuePreview_tells h.few hr hf k
  rw [hrun] at hrun'
  cases hrun'
  obtain ⟨e₀, hknows₀, hread, hthere⟩ := htells hquiet
  obtain ⟨e₁, hknows₁, hgrow⟩ := hknows₀.grows (hg₀.isLive hr) hg
  obtain rfl : e = e₁ := Option.some.inj (h.knows.entry.symm.trans hknows₁.entry)
  rw [hthere]
  by_cases hlt : k < e₀.values.size
  · have hle := hgrow.values.length_le
    rw [Array.length_toList, Array.length_toList] at hle
    have hlt' : k < e.values.size := Nat.lt_of_lt_of_le hlt hle
    exact iff_of_true hlt ((h.lt_iff (.inl hlt')).mp hlt')
  · obtain ⟨hex, hvalues⟩ := hgrow.exhausted f.2 rfl (hread.resolve_left hlt)
    rw [← hvalues]
    exact h.lt_iff (.inr hex)

end TakesRoom

/-- **A field of a scalar type takes up the room of the elements that can be previewed.** After any
history, whatever its count refers to, whether that is a number of elements or of bytes, and whether
it ends at a zero: the total size is so many times the size of an element, and an element has a
preview just if it is one of so many, whether the preview is asked for after the total size or
before it. This is told of answers for which no frame is refused, and of definitions in which no
field has both a byte budget and an offset that an expression gives. -/
theorem Led.total_size_counts_previews (h : ws.Led kept n) (hn : n < Schema.versionLimit)
    (hr : ws.IsLive r) (hd : ws.structOf? r = some d) (hplain : d.PlainBudgets)
    (hf : d.field? i = some f) (hvalue : f.2.value = none) (htype : f.2.type = .scalar t) :
    ∃ answer told, (r.totalSize i false).runIn ws = (.ok answer, told) ∧
      (told.refusals = ws.refusals → ∃ total c, answer = some total ∧
        ((r.elementCount i false).runIn told).1 = .ok (some c) ∧
        (c.toInt * t.size < 2 ^ 62 → ∃ elements : Nat, total.toInt = t.size * elements ∧ ∀ k,
          (∀ ws', told.Requested ws' → ∃ p after, (r.valuePreview i k).runIn ws' = (.ok p, after) ∧
            (after.refusals = ws'.refusals → (p.isSome ↔ k < elements))) ∧
          (∀ ws₀ p after, ws₀.Led kept n → ws₀.IsLive r →
            (r.valuePreview i k).runIn ws₀ = (.ok p, after) → after.refusals = ws₀.refusals →
            after.Requested ws → (p.isSome ↔ k < elements)))) := by
  obtain ⟨answer, told, hrun, _, hg, hreach, hnoted, hmissing⟩ :=
    Resolve.ends_resolving fun _ hresolver =>
      hresolver.totalSize (h.ordered hn).sound hr i false
  have hrun : (r.totalSize i false).runIn ws = (.ok answer, told) := hrun
  have hled : ((r.totalSize i false).runIn ws).2.Led kept n := h.question hr (.totalSize i false)
  rw [hrun] at hled
  refine ⟨answer, told, hrun, fun hquiet => ?_⟩
  have hr₁ := hg.isLive hr
  have hd₁ := (hg.structOf? r).trans hd
  have hf₁ : told.fieldOf? r i = some f := (fieldOf?_eq hd₁ i).trans hf
  obtain ⟨e, hknows⟩ :=
    KnowsField.of_laidOut hf₁ hreach.1 (hreach.2 rfl hquiet (h.atRest.idle r hr))
  obtain ⟨total, rfl⟩ : ∃ total, answer = some total := by
    cases answer with
    | some total => exact ⟨total, rfl⟩
    | none =>
      rcases hmissing rfl rfl hquiet with hno | hno
      · exact nomatch hno.symm.trans hknows.entry
      · exact nomatch hno.symm.trans hf₁
  obtain ⟨e', he', htotal⟩ := hnoted d total hd₁ rfl
  obtain rfl : e = e' := Option.some.inj (hknows.entry.symm.trans he')
  obtain ⟨c, hc, _⟩ :=
    (((hled.every hn).of_current hr₁ hd₁ hknows.current hf hknows.entry).1.scalars hplain t hvalue
      htype).2 total htotal
  refine ⟨total, c, rfl, ?_, fun hsmall => ?_⟩
  · obtain ⟨_, hrun, _⟩ := Resolver.runIn_elementCount (.within _) hknows hc false
    refine (congrArg Prod.fst (Resolve.runIn_resolving _ rfl)).trans ?_
    rw [hrun]
  obtain ⟨elements, hroom, _⟩ :=
    hled.total_eq hn hr₁ hd₁ hplain hf hvalue htype hknows htotal hc hsmall
  have htakes : told.TakesRoom kept n r i d f t total c elements e :=
    ⟨hled, hn, hr₁, hd₁, hplain, hf, hvalue, htype, hknows, htotal, hc, hsmall, hroom⟩
  refine ⟨elements, hroom, fun k => ⟨fun ws' hrequested => htakes.preview_after hrequested k, ?_⟩⟩
  intro ws₀ p after hled₀ hr₀ hrun₀ hquiet₀ hrequested
  have hafter := hled₀.question hr₀ (.valuePreview i k)
  rw [hrun₀] at hafter
  exact htakes.preview_before hled₀ hr₀ hrun₀ hquiet₀ ((hrequested.grows hafter).trans hg)

/-- A number, and as many marks of two bytes. -/
def tally : StructDef :=
  { StructDef.empty with
    size := 7
    fields := ⟨[("n", .ofType (.scalar (.int .u8))),
      ("marks", { Field.ofType (.scalar (.int .u16)) with
        offset := 1
        count := 0
        countSource := .named "n" })], by decide⟩ }

def tallySchema : Schema := ⟨(∅ : Std.TreeMap String StructDef).insert "Tally" tally, 0⟩

def tallyInstance : Instance := .ofPlacement 0 (.single ⟨"Tally", 0, 0⟩ .user)

/-- A workspace with three marks. -/
def withTally : Workspace :=
  ((ofSchema tallySchema .default).addSource (.ofBytes "tally" #[3, 1, 0, 0, 0, 2, 0])).2.place
    tallyInstance.toPlacement |>.2

/-- Three marks of two bytes take up six. Afterwards the third one has a preview and a fourth one
has none. -/
theorem total_size_counts_previews_withTally : withTally.Reached 0 false ∧ ∃ told,
    (tallyInstance.ref.totalSize 1 false).runIn withTally = (.ok (some 6), told) ∧
    ((tallyInstance.ref.elementCount 1 false).runIn told).1 = .ok (some 3) ∧
    (∃ text after, (tallyInstance.ref.valuePreview 1 2).runIn told = (.ok (some text), after)) ∧
    ∃ after, (tallyInstance.ref.valuePreview 1 3).runIn told = (.ok none, after) := by
  have hreached : withTally.Reached 0 false :=
    .request (Reached.addSource _ (.start (.of_toList rfl (by decide)) trivial (by decide))) (.place _)
  have hstruct : withTally.structOf? tallyInstance.ref = some tally := by decide
  have hanswers : ((tallyInstance.ref.totalSize 1 false).runIn withTally).1.toOption =
        some (some 6) ∧
      ((tallyInstance.ref.totalSize 1 false).runIn withTally).2.refusals = 0 ∧
      ((tallyInstance.ref.elementCount 1 false).runIn
        ((tallyInstance.ref.totalSize 1 false).runIn withTally).2).1.toOption = some (some 3) ∧
      ∀ k ∈ [2, 3], ((tallyInstance.ref.valuePreview 1 k).runIn
        ((tallyInstance.ref.totalSize 1 false).runIn withTally).2).2.refusals = 0 := by
    decide +kernel
  obtain ⟨answer, told, hrun, hrest⟩ := hreached.led.total_size_counts_previews (by decide)
    (r := tallyInstance.ref) ⟨_, rfl, rfl⟩ hstruct (by decide) (i := 1) rfl rfl rfl
  rw [hrun] at hanswers
  obtain ⟨hsix, hquiet, hthree, hquiets⟩ := hanswers
  obtain ⟨total, c, rfl, hcount, hroom⟩ := hrest hquiet
  cases hsix
  rw [hcount] at hthree
  cases hthree
  obtain ⟨elements, htotal, hpreviews⟩ := hroom (by decide)
  have helements : elements = 3 := by
    have hsix : (6 : Int) = 2 * elements := htotal
    omega
  subst helements
  obtain ⟨p₂, after₂, hrun₂, hthere⟩ := (hpreviews 2).1 told .refl
  obtain ⟨p₃, after₃, hrun₃, hmissing⟩ := (hpreviews 3).1 told .refl
  have hquiet₂ := hquiets 2 (by decide)
  have hquiet₃ := hquiets 3 (by decide)
  rw [hrun₂] at hquiet₂
  rw [hrun₃] at hquiet₃
  obtain ⟨text, rfl⟩ :=
    Option.isSome_iff_exists.mp ((hthere (hquiet₂.trans hquiet.symm)).mpr (by decide))
  have hnone : p₃ = none := by
    have hno := (hmissing (hquiet₃.trans hquiet.symm)).not.mpr (by decide)
    simpa using hno
  exact ⟨hreached, told, hrun, hcount, ⟨text, after₂, hrun₂⟩, after₃, hnone ▸ hrun₃⟩

end Workspace

end ByteAtlas
