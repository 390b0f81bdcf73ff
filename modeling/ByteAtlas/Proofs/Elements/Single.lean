import ByteAtlas.Proofs.Elements.Notes

/-!
# A single integer

A field of one integer needs nothing but its place to be read: its count is a literal, so no other
field is looked at (`Resolver.runIn_elementCount_oneInt`). The limit may cut that count to nothing.
If it does not, the element is the one that has been read, or else what lies at the place
(`Resolver.runIn_readScalars_oneInt`), and its preview is the only one that there is
(`Resolver.runIn_takePreviews_oneInt`).
-/

namespace ByteAtlas

namespace Workspace

variable {ws ws' ws'' : Workspace} {r : InstanceRef} {i : Nat} {f : String × Field}
  {e e' : FieldEntry} {t : IntType}

/-! ## 1. What there is to be read -/

/-- **How many elements a single integer has** that is present: as many as have been noted, or one
as far as the limit admits it. -/
def onlyCount (ws : Workspace) (e : FieldEntry) : Int64 :=
  e.count.getD (cutCount ws.limits.maxElements 1)

/-- **The element of a single integer**: the one that has been read, or what lies at the place. -/
def onlyElement (ws : Workspace) (r : InstanceRef) (t : IntType) (e : FieldEntry) (offset : Int64) :
    Element :=
  let next := e.nextElement.getD offset
  (e.values[0]?).getD ⟨next, Scalar.decode (.int t) (ws.read r.file next (ScalarType.int t).size)⟩

/-- The elements of a single integer, of which there may be none. -/
def onlyElements (ws : Workspace) (r : InstanceRef) (t : IntType) (e : FieldEntry)
    (offset : Int64) : Array Element :=
  if ws.onlyCount e = 1 then #[ws.onlyElement r t e offset] else #[]

/-- Nothing else matters for them than the files and the limits. -/
theorem onlyElements_congr (hlimits : ws'.limits = ws.limits) (hfiles : ws'.files = ws.files)
    (r : InstanceRef) (t : IntType) (e : FieldEntry) (offset : Int64) :
    ws'.onlyElements r t e offset = ws.onlyElements r t e offset := by
  unfold onlyElements onlyCount onlyElement read file?
  rw [hlimits, hfiles]

/-- The element of a single integer is an integer. -/
theorem value_onlyElement (ws : Workspace) (r : InstanceRef) (t : IntType) (he : e.ReadsOne)
    (o : Int64) : ∃ n, (ws.onlyElement r t e o).value = .int n := by
  unfold onlyElement
  rcases he.values with hempty | ⟨_, _, n, hvalues⟩
  · rw [hempty]
    exact ⟨_, rfl⟩
  · rw [hvalues]
    exact ⟨n, rfl⟩

/-- There is one, or none. -/
theorem onlyCount_eq (he : e.ReadsOne) (hlimit : 0 ≤ ws.limits.maxElements) :
    ws.onlyCount e = 0 ∨ ws.onlyCount e = 1 := by
  unfold onlyCount
  cases hcount : e.count with
  | none => exact cutCount_one (cutCount_nonneg hlimit 1)
  | some c => exact (he.count c hcount).imp_right fun h => h.2

/-- **There is one if the limit admits it**, unless it has been noted that there is none. -/
theorem onlyElements_cases (he : e.ReadsOne) (hlimit : 1 ≤ ws.limits.maxElements)
    (r : InstanceRef) (t : IntType) (o : Int64) :
    (e.count = some 0 ∧ ws.onlyElements r t e o = #[]) ∨
      (e.count ≠ some 0 ∧ ∃ place v, ws.onlyElements r t e o = #[⟨place, .int v⟩]) := by
  have hcount : ws.onlyCount e = e.count.getD 1 := by rw [onlyCount, cutCount_one_of_le hlimit]
  unfold onlyElements
  rw [hcount]
  by_cases hnone : e.count = some 0
  · exact .inl ⟨hnone, by rw [hnone]; rfl⟩
  · have hone : e.count.getD 1 = 1 := by
      cases hc : e.count with
      | none => rfl
      | some c =>
        rcases he.count c hc with rfl | ⟨_, rfl⟩
        · exact absurd hc hnone
        · rfl
    obtain ⟨v, hv⟩ := ws.value_onlyElement r t he o
    refine .inr ⟨hnone, (ws.onlyElement r t e o).offset, v, ?_⟩
    rw [if_pos hone, ← hv]

/-- What has been read is there. -/
theorem onlyElements_of_read (ws : Workspace) (he : e.ReadsOne) (hread : e.values ≠ #[])
    (r : InstanceRef)
    (t : IntType) (o : Int64) : ws.onlyCount e = 1 ∧ e.values = ws.onlyElements r t e o := by
  obtain ⟨hcount, _, _, hvalues⟩ := he.values.resolve_left hread
  have hone : ws.onlyCount e = 1 := by rw [onlyCount, hcount]; rfl
  refine ⟨hone, ?_⟩
  rw [onlyElements, if_pos hone, onlyElement, hvalues]
  rfl

/-- **What there was to be read before** is still all there is: what had been read, or nothing where
that was noted. -/
theorem onlyElements_of_grows (ws : Workspace) {field : Option Field} (he : e.ReadsOne)
    (he' : e'.ReadsOne)
    (hgrow : FieldEntry.Grows field e e') (hread : e.values ≠ #[] ∨ e.count = some 0)
    (r : InstanceRef) (t : IntType) (o : Int64) : e.values = ws.onlyElements r t e' o := by
  rcases he.values with hempty | ⟨hcount, x, n, hvalues⟩
  · have hnone : e'.count = some 0 := hgrow.count 0 (hread.resolve_left (absurd hempty))
    rw [hempty, onlyElements, onlyCount, hnone]
    rfl
  · have hsize : e.values.size = 1 := by rw [hvalues]; rfl
    have hread' : e'.values ≠ #[] := by
      intro hempty
      have hle := hgrow.values.length_le
      rw [Array.length_toList, Array.length_toList, hempty, hsize] at hle
      exact absurd hle (by decide)
    obtain ⟨_, _, _, hvalues'⟩ := he'.values.resolve_left hread'
    have hlength : e.values.toList.length = e'.values.toList.length := by
      rw [hvalues, hvalues']
      rfl
    rw [Array.ext' (hgrow.values.eq_of_length hlength)]
    exact (ws.onlyElements_of_read he' hread' r t o).2

namespace KnowsField

/-- What is noted about a field that is known is known. -/
theorem withEntry (h : ws.KnowsField r i f e) (g : FieldEntry → FieldEntry) :
    (ws.modifyLayout r (·.modifyEntry i g)).KnowsField r i f (g e) := by
  refine ⟨h.field, fun d hd => ?_, fun d hd => ?_, entryOf?_modifyEntry_of_some h.entry g⟩
  · rw [layoutOf_modifyLayout]
    exact h.current d hd
  · rw [layoutOf_modifyLayout]
    show _ ≤ ((ws.layoutOf r).entries.modify i g).size
    rw [Array.size_modify]
    exact h.laidOut d hd

end KnowsField

/-- **Whether the entry of a field is known afterwards**, in the same files and within the same
limits. -/
structure Notices (ws ws' : Workspace) (r : InstanceRef) (i : Nat) (f : String × Field)
    (e : FieldEntry) : Prop where
  limits : ws'.limits = ws.limits
  files : ws'.files = ws.files
  knows : ws'.KnowsField r i f e

namespace Notices

theorem trans (h : ws.Notices ws' r i f e) (h' : ws'.Notices ws'' r i f e') :
    ws.Notices ws'' r i f e' :=
  ⟨h'.limits.trans h.limits, h'.files.trans h.files, h'.knows⟩

theorem of_sets (hset : ws.Sets r (ws.layoutOf r) ws') (h : ws'.KnowsField r i f e) :
    ws.Notices ws' r i f e := by
  obtain ⟨⟨_, rfl⟩, _⟩ := hset
  exact ⟨rfl, rfl, h⟩

/-- A note about the field. -/
theorem withEntry (h : ws.Notices ws' r i f e) (g : FieldEntry → FieldEntry) :
    ws.Notices (ws'.modifyLayout r (·.modifyEntry i g)) r i f (g e) :=
  ⟨h.limits, h.files, h.knows.withEntry g⟩

end Notices

/-- **Whether reading has led to the entry of a single integer**, at a place. -/
structure ReadsOnly (ws ws' : Workspace) (r : InstanceRef) (i : Nat) (f : String × Field)
    (t : IntType) (o : Int64) (e e' : FieldEntry) : Prop extends ws.Notices ws' r i f e' where
  present : e'.present = e.present
  offset : e'.offset = e.offset
  count : e'.count = some (ws.onlyCount e)
  values : e'.values = ws.onlyElements r t e o

namespace ReadsOnly

variable {o : Int64}

theorem readsOne (h : ws.ReadsOnly ws' r i f t o e e') (he : e.ReadsOne)
    (hpresent : e.present = true) (hlimit : 0 ≤ ws.limits.maxElements) : e'.ReadsOne := by
  have hcount := onlyCount_eq he hlimit
  refine ⟨fun c hc => ?_, ?_⟩
  · rw [h.count] at hc
    cases hc
    exact hcount.imp_right fun hone => ⟨h.present.trans hpresent, hone⟩
  · obtain ⟨n, hn⟩ := ws.value_onlyElement r t he o
    rw [h.values, h.count, onlyElements]
    by_cases hone : ws.onlyCount e = 1
    · rw [if_pos hone, hone]
      refine .inr ⟨rfl, (ws.onlyElement r t e o).offset, n, ?_⟩
      rw [← hn]
    · exact .inl (if_neg hone)

/-- What has been read is not read otherwise. -/
theorem again (h : ws.ReadsOnly ws' r i f t o e e') :
    ws'.onlyCount e' = ws.onlyCount e ∧ ws'.onlyElements r t e' o = ws.onlyElements r t e o := by
  have hcount : ws'.onlyCount e' = ws.onlyCount e := by rw [onlyCount, h.count, Option.getD_some]
  refine ⟨hcount, ?_⟩
  unfold onlyElements
  rw [hcount]
  by_cases hone : ws.onlyCount e = 1
  · rw [if_pos hone, if_pos hone, onlyElement, h.values, onlyElements, if_pos hone]
    rfl
  · rw [if_neg hone, if_neg hone]

/-- The previews of what has been read are what is shown. -/
theorem shows (h : ws.ReadsOnly ws' r i f t o e e') (he : e.ReadsOne)
    (hlimit : 0 ≤ ws.limits.maxElements) :
    e'.Shows (joinPreviews true ((ws.onlyElements r t e o).toList.map fun x => x.value.preview)) := by
  refine ⟨_, h.count, ?_, by rw [h.values]⟩
  rw [h.values, onlyElements]
  rcases onlyCount_eq he hlimit with hnone | hone
  · rw [hnone]
    rfl
  · rw [hone]
    rfl

/-- What is read does not depend on what has been noted elsewhere. -/
theorem of_notices (h : ws'.ReadsOnly ws'' r i f t o e e') (hnotices : ws.Notices ws' r i f e) :
    ws.ReadsOnly ws'' r i f t o e e' :=
  { hnotices.trans h.toNotices with
    present := h.present
    offset := h.offset
    count := by rw [h.count, onlyCount, onlyCount, hnotices.limits]
    values := h.values.trans (onlyElements_congr hnotices.limits hnotices.files r t e o) }

theorem trans {e'' : FieldEntry} (h : ws.ReadsOnly ws' r i f t o e e')
    (h' : ws'.ReadsOnly ws'' r i f t o e' e'') : ws.ReadsOnly ws'' r i f t o e e'' :=
  { h.toNotices.trans h'.toNotices with
    present := h'.present.trans h.present
    offset := h'.offset.trans h.offset
    count := h'.count.trans (congrArg some h.again.1)
    values := h'.values.trans h.again.2 }

end ReadsOnly

end Workspace

namespace Resolver

open Workspace

variable {ws ws₂ : Workspace} {r : InstanceRef} {i : Nat} {f : String × Field} {e : FieldEntry}
  {t : IntType}

/-! ## 2. Its count -/

/-- One element is cut to the limit; it may be noted that the limit has been hit. -/
theorem runIn_limitCount_one (hlimit : 0 ≤ ws.limits.maxElements) :
    ∃ limitHits, (limitCount 1).runIn ws =
      (.ok (cutCount ws.limits.maxElements 1), { ws with limitHits }) := by
  have hnonneg : ¬ ws.limits.maxElements < 0 := Int64.not_lt.mpr hlimit
  unfold limitCount cutCount
  simp only [Resolve.runIn_bind, Resolve.runIn_ask, hnonneg, if_false]
  by_cases hhit : ws.limits.maxElements < 1
  · rw [if_pos hhit]
    exact ⟨_, rfl⟩
  · rw [if_neg hhit]
    exact ⟨_, rfl⟩

/-- **The count of a single integer** is one, as far as the limit admits it, or what has been
noted. -/
theorem runIn_elementCount_oneInt (resolver : Resolver) (h : ws.KnowsField r i f e)
    (hone : f.2.OneInt t) (hpresent : e.present = true) (hlimit : 0 ≤ ws.limits.maxElements) :
    ∃ ws', (resolver.elementCount r i false).runIn ws = (.ok (some (ws.onlyCount e)), ws') ∧
      ws.Notices ws' r i f { e with count := some (ws.onlyCount e) } := by
  cases hcount : e.count with
  | some c =>
    obtain ⟨ws', hrun, hset⟩ := resolver.runIn_elementCount h hcount false
    have hnoted : ws.onlyCount e = c := by rw [onlyCount, hcount, Option.getD_some]
    have hsame : { e with count := some c } = e := by rw [← hcount]
    rw [hnoted, hsame]
    exact ⟨ws', hrun, .of_sets hset (h.sets hset)⟩
  | none =>
    obtain ⟨ws₁, hrun, hset, h₁⟩ := resolver.runIn_enumerate_of_knows h false
    have hnotices : ws.Notices ws₁ r i f e := .of_sets hset h₁
    obtain ⟨d, hd, hfield⟩ := structOf?_of_fieldOf? h₁.field
    obtain ⟨limitHits, hcut⟩ := runIn_limitCount_one (hnotices.limits ▸ hlimit)
    have hwhole : ws.onlyCount e = cutCount ws₁.limits.maxElements 1 := by
      rw [onlyCount, hcount, Option.getD_none, hnotices.limits]
    have hhit : ws.Notices { ws₁ with limitHits } r i f e :=
      ⟨hnotices.limits, hnotices.files, h₁.field, h₁.current, h₁.laidOut, h₁.entry⟩
    refine ⟨_, ?_, hhit.withEntry fun known => { known with count := some (ws.onlyCount e) }⟩
    rw [Resolver.elementCount]
    simp only [entryOf?, structOf?, unlessCutShort, Resolve.runIn_bind, hrun, Resolve.runIn_ask,
      h₁.entry, hcount, Option.isSome_none, Bool.false_eq_true, if_false, hpresent, Bool.not_true,
      hd, Option.getD_some, hfield, hone.value, hone.literal, Resolve.runIn_pure, if_true, hcut]
    rw [hwhole]
    rfl

/-! ## 3. Its element -/

/-- **Reading a single integer**, its place having been looked for: the element is read if it is
counted. -/
theorem runIn_readScalars_oneInt (resolver : Resolver) {offset : Option Int64}
    (hoffset : (resolver.fieldOffset r i false).runIn ws = (.ok offset, ws₂)) {o : Int64}
    (ho : offset.getD 0 = o)
    (h : ws₂.KnowsField r i f e) (hone : f.2.OneInt t) (hpresent : e.present = true)
    (hlimit : 0 ≤ ws₂.limits.maxElements) (he : e.ReadsOne) (n : Nat) :
    ∃ ws' e', (resolver.readScalars (resolver.elementCount r i false) r i f.2 (.int t)
        (.first (n + 1))).runIn ws = (.ok (decide (n < (ws₂.onlyElements r t e o).size)), ws') ∧
      ws₂.ReadsOnly ws' r i f t o e e' := by
  obtain ⟨ws₃, hcount, hnotices⟩ := resolver.runIn_elementCount_oneInt h hone hpresent hlimit
  have hget : (get : Resolve Workspace).runIn ws₃ = (.ok ws₃, ws₃) := rfl
  have hread : (ws₃.readElements r.file f.2 (.int t) (ws₂.onlyCount e) o
      ((Wanted.first (n + 1)).missing e.values.size (ws₃.fileSize r.file)) (e.nextElement.getD o)
      e.values).1 = ws₂.onlyElements r t e o := by
    show ((Reading.mk ws₃ r.file f.2 (.int t) (ws₂.onlyCount e) o).readOn
      (n + 1 - e.values.size) (e.values, e.nextElement.getD o)).1 = _
    by_cases hempty : e.values = #[]
    · rw [hempty, show n + 1 - (#[] : Array Element).size = n + 1 from rfl, onlyElements]
      rcases onlyCount_eq he hlimit with hnone | hone'
      · -- Nothing is counted.
        rw [if_neg (by rw [hnone]; decide)]
        exact congrArg Prod.fst (Reading.readOn_of_counted
          (g := ⟨ws₃, r.file, f.2, .int t, ws₂.onlyCount e, o⟩) hone
          (by rw [hnone]; exact Int64.le_refl 0) (n + 1))
      · rw [if_pos hone', Reading.readOn_one hone hone', onlyElement, hempty]
        have hbytes : ws₃.read r.file = ws₂.read r.file := by
          unfold Workspace.read Workspace.file?
          rw [hnotices.files]
        show #[(⟨_, Scalar.decode _ (ws₃.read r.file _ _)⟩ : Element)] = _
        rw [hbytes]
        rfl
    · obtain ⟨hone', hvalues⟩ := ws₂.onlyElements_of_read he hempty r t o
      rw [← hvalues]
      refine congrArg Prod.fst (Reading.readOn_of_counted
        (g := ⟨ws₃, r.file, f.2, .int t, ws₂.onlyCount e, o⟩)
        (p := (e.values, e.nextElement.getD o)) hone ?_ _)
      rw [hvalues, onlyElements, if_pos hone', hone']
      exact Int64.le_refl 1
  generalize hresult : ws₃.readElements r.file f.2 (.int t) (ws₂.onlyCount e) o _ _ _ = result
    at hread
  have hmet : (Wanted.first (n + 1)).metBy result.1.size =
      decide (n < (ws₂.onlyElements r t e o).size) := by
    rw [hread, Bool.eq_iff_iff, Wanted.metBy_first, decide_eq_true_iff]
  refine ⟨_, _, ?_, hnotices.withEntry fun e =>
    { e with values := result.1, nextElement := some result.2 }, rfl, rfl, rfl, hread⟩
  unfold Resolver.readScalars
  simp only [Resolve.runIn_bind, hoffset, hcount, hget, hnotices.knows.entry, Option.getD_some,
    ho, hresult, hmet]
  rfl

/-- **Reading a single integer that has a place.** -/
theorem runIn_readValues_oneInt (resolver : Resolver) {o : Int64} (h : ws.KnowsField r i f e)
    (hone : f.2.OneInt t) (hpresent : e.present = true) (hlimit : 0 ≤ ws.limits.maxElements)
    (he : e.ReadsOne) (ho : e.offset = some o) (n : Nat) :
    ∃ ws' e', (resolver.readValues r i (.first (n + 1))).runIn ws =
        (.ok (decide (n < (ws.onlyElements r t e o).size)), ws') ∧
      ws.ReadsOnly ws' r i f t o e e' := by
  obtain ⟨ws₁, hrun, hset₁, h₁⟩ := resolver.runIn_enumerate_of_knows h false
  have hnotices₁ : ws.Notices ws₁ r i f e := .of_sets hset₁ h₁
  unfold Resolver.readValues Resolver.readValuesWith
  simp only [entryOf?, fieldOf?, Resolve.runIn_bind, hrun, Resolve.runIn_ask, h₁.entry]
  by_cases hmet : (Wanted.first (n + 1)).metBy e.values.size = true
  · have hlt : n < e.values.size := Wanted.metBy_first.mp hmet
    have hread : e.values ≠ #[] := Array.size_pos_iff.mp (by omega)
    obtain ⟨hcount, _⟩ := he.values.resolve_left hread
    obtain ⟨hone', hvalues⟩ := ws.onlyElements_of_read he hread r t o
    refine ⟨ws₁, e, ?_, hnotices₁, rfl, rfl, hcount.trans (congrArg some hone'.symm), hvalues⟩
    rw [if_pos hmet, ← hvalues, decide_eq_true hlt]
    rfl
  · obtain ⟨ws₂, hoffset, hset₂⟩ := resolver.runIn_fieldOffset h₁ (.inl (by rw [ho]; rfl)) false
    rw [ho] at hoffset
    have hnotices₂ : ws.Notices ws₂ r i f e := hnotices₁.trans (.of_sets hset₂ (h₁.sets hset₂))
    obtain ⟨ws', e', hread, hreads⟩ := resolver.runIn_readScalars_oneInt hoffset Option.getD_some
      hnotices₂.knows hone hpresent (hnotices₂.limits ▸ hlimit) he n
    rw [onlyElements_congr hnotices₂.limits hnotices₂.files] at hread
    refine ⟨ws', e', ?_, hreads.of_notices hnotices₂⟩
    rw [if_neg hmet]
    simp only [Resolve.runIn_bind, Resolve.runIn_ask, h₁.field, hone.value, hone.type, hread]

/-! ## 4. Its preview -/

/-- **The preview of a single integer that has a place**, if it is counted. -/
theorem runIn_valuePreview_oneInt (resolver : Resolver) {o : Int64} (h : ws.KnowsField r i f e)
    (hone : f.2.OneInt t) (hpresent : e.present = true) (hlimit : 0 ≤ ws.limits.maxElements)
    (he : e.ReadsOne) (ho : e.offset = some o) (n : Nat) :
    ∃ ws' e', (resolver.valuePreview r i n).runIn ws =
        (.ok (((ws.onlyElements r t e o)[n]?).map fun x => x.value.preview), ws') ∧
      ws.ReadsOnly ws' r i f t o e e' := by
  obtain ⟨ws', e', hrun, hreads⟩ :=
    resolver.runIn_readValues_oneInt h hone hpresent hlimit he ho n
  refine ⟨ws', e', ?_, hreads⟩
  unfold Resolver.valuePreview
  simp only [Resolve.runIn_bind, hrun]
  by_cases hlt : n < (ws.onlyElements r t e o).size
  · simp only [hlt, decide_true, if_true, entryOf?, Resolve.runIn_bind, Resolve.runIn_ask,
      hreads.knows.entry, Option.bind_some, hreads.values, Resolve.runIn_pure]
  · rw [Array.getElem?_eq_none (Nat.not_lt.mp hlt)]
    simp only [hlt, decide_false, Bool.false_eq_true, if_false, Resolve.runIn_pure,
      Option.map_none]

/-- **The previews of a single integer** that has a place are those of its elements. -/
theorem runIn_takePreviews_oneInt (resolver : Resolver) {o : Int64} (h : ws.KnowsField r i f e)
    (hone : f.2.OneInt t) (hpresent : e.present = true) (hlimit : 0 ≤ ws.limits.maxElements)
    (he : e.ReadsOne) (ho : e.offset = some o) :
    ∃ ws' e', (resolver.takePreviews r i true previewLimit 0 "").runIn ws =
        (.ok ((ws.onlyElements r t e o).toList.map fun x => x.value.preview), ws') ∧
      ws.ReadsOnly ws' r i f t o e e' := by
  obtain ⟨ws₁, e₁, hrun₁, hreads₁⟩ :=
    resolver.runIn_valuePreview_oneInt h hone hpresent hlimit he ho 0
  obtain ⟨ws₂, e₂, hrun₂, hreads₂⟩ := resolver.runIn_valuePreview_oneInt hreads₁.knows hone
    (hreads₁.present.trans hpresent) (hreads₁.limits ▸ hlimit)
    (hreads₁.readsOne he hpresent hlimit) (hreads₁.offset.trans ho) 1
  rw [hreads₁.again.2] at hrun₂
  rw [show previewLimit = 22 + 1 + 1 from rfl, Resolver.takePreviews]
  simp only [Resolve.runIn_bind, hrun₁]
  unfold onlyElements at hrun₂ ⊢
  by_cases hcounted : ws.onlyCount e = 1
  · simp only [if_pos hcounted] at hrun₂ ⊢
    show ∃ ws' e', _ = (Except.ok [(ws.onlyElement r t e o).value.preview], ws') ∧ _
    -- Either the preview is so long that no other one is asked for, or there is no other one.
    simp only [List.getElem?_toArray, List.getElem?_cons_zero, Option.map_some]
    split
    · exact ⟨ws₁, e₁, rfl, hreads₁⟩
    · refine ⟨ws₂, e₂, ?_, hreads₁.trans hreads₂⟩
      rw [Resolver.takePreviews]
      simp only [Resolve.runIn_bind, hrun₂, Resolve.runIn_pure]
      rfl
  · simp only [if_neg hcounted]
    exact ⟨ws₁, e₁, rfl, hreads₁⟩

end Resolver

end ByteAtlas
