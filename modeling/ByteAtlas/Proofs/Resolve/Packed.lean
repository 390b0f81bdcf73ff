import Mathlib
import ByteAtlas.Proofs.Resolve.History
import ByteAtlas.Proofs.Resolve.Known

/-!
# Packed structs

What a history leaves behind about an instance, in plain terms (`Layout.Packed`): where each field
starts, and that the cursor is where the next one would. Without edits the size of a packed struct
is the sum of the sizes of its fields (`Workspace.Reached.packed`).
-/

namespace ByteAtlas

/-! ## 1. Layouts at rest -/

/-- What takes no room: fields of structs that are not packed, absent and computed ones. -/
theorem FieldEntry.takesRoom_eq_false {e : FieldEntry} {d : StructDef} {f : Field}
    (h : ¬ (d.isPacked = true ∧ e.present = true ∧ f.isComputed = false)) :
    e.takesRoom d f = false := by
  rw [← Bool.not_eq_true]
  intro hroom
  rw [takesRoom, Bool.and_eq_true, Bool.and_eq_true, Bool.not_eq_true'] at hroom
  exact h ⟨hroom.1.2, hroom.1.1, hroom.2⟩

namespace Layout

/-- Where a field starts, or where the next one would. -/
def originOf (l : Layout) (k : Nat) : Int64 :=
  (l.entries[k]?.map FieldEntry.origin).getD l.cursor

/-- The room that a field takes, as far as it is known. -/
def room (l : Layout) (d : StructDef) (k : Nat) : Int64 :=
  match l.entries[k]?, d.field? k with
  | some e, some f => if e.takesRoom d f.2 then e.totalSize.getD 0 else 0
  | _, _ => 0

/-- **What the entries say about a definition**, for an instance at an offset: each field starts
where the one before it ends, if that one takes room in the struct. -/
structure Packed (d : StructDef) (start : Int64) (l : Layout) : Prop where
  size_le : l.entries.size ≤ d.fieldCount
  first : l.originOf 0 = start
  next : ∀ (k : Nat) (e : FieldEntry) (f : String × Field), l.entries[k]? = some e →
    d.field? k = some f →
    if d.isPacked = true ∧ e.present = true ∧ f.2.isComputed = false then
      ∃ total, e.totalSize = some total ∧ l.originOf (k + 1) = e.origin + total
    else l.originOf (k + 1) = e.origin
  offset : ∀ (k : Nat) (e : FieldEntry) (f : String × Field), l.entries[k]? = some e →
    d.field? k = some f → f.2.isComputed = false →
    e.offset = some (if e.present && !d.isPacked then e.origin + f.2.offset else e.origin)

section

variable {d : StructDef} {start : Int64} {l : Layout}

theorem Fits.originAt_eq (h : l.Fits d start) (hm : l.measuring = none) {k : Nat}
    (hk : k ≤ l.entries.size) : originAt d start l.entries k = some (l.originOf k) := by
  by_cases hlt : k < l.entries.size
  · have he := Array.getElem?_eq_getElem hlt
    rw [h.origin k _ he, originOf, he]
    rfl
  · have hk' : k = l.entries.size := by omega
    have hnone : l.entries[k]? = none := Array.getElem?_eq_none (by omega)
    have hcursor := h.cursor
    rw [passed, hm, Option.getD_none, ← hk'] at hcursor
    rw [hcursor, originOf, hnone]
    rfl

/-- **A layout that fits is packed** when no field is being laid out. -/
theorem Fits.packed_of_idle (h : l.Fits d start) (hm : l.measuring = none) : l.Packed d start := by
  refine ⟨h.size_le, ?_, fun k e f he hf => ?_, h.offset⟩
  · have hzero := h.originAt_eq hm (Nat.zero_le _)
    exact (Option.some.inj hzero).symm
  · have hk := (Array.getElem?_eq_some_iff.mp he).1
    have hnext := h.originAt_eq hm (Nat.succ_le_of_lt hk)
    rw [originAt, he, hf] at hnext
    have hnext : e.next? d f.2 = some (l.originOf (k + 1)) := hnext
    unfold FieldEntry.next? FieldEntry.takesRoom at hnext
    by_cases hroom : d.isPacked = true ∧ e.present = true ∧ f.2.isComputed = false
    · rw [if_pos hroom]
      obtain ⟨hp, he, hc⟩ := hroom
      rw [hp, he, hc] at hnext
      obtain ⟨total, htotal, hsum⟩ := Option.map_eq_some_iff.mp hnext
      exact ⟨total, htotal, hsum.symm⟩
    · rw [if_neg hroom]
      have hfalse : (e.present && d.isPacked && !f.2.isComputed) = false :=
        FieldEntry.takesRoom_eq_false hroom
      rw [hfalse] at hnext
      exact (Option.some.inj hnext).symm

theorem room_eq {k : Nat} {e : FieldEntry} {f : String × Field} (he : l.entries[k]? = some e)
    (hf : d.field? k = some f) :
    l.room d k = if e.takesRoom d f.2 then e.totalSize.getD 0 else 0 := by
  rw [room, he, hf]

/-- Each field starts behind the room that those before it take. -/
theorem Packed.originOf_eq (h : l.Packed d start) : ∀ {k : Nat}, k ≤ l.entries.size →
    l.originOf k = start + ((List.range k).map (l.room d)).sum
  | 0, _ => by
    rw [h.first]
    exact (Int64.add_zero start).symm
  | k + 1, hk => by
    have he := Array.getElem?_eq_getElem hk
    obtain ⟨f, hf⟩ := field?_isSome (Nat.lt_of_lt_of_le hk h.size_le)
    have ih := h.originOf_eq (Nat.le_of_lt hk)
    have horigin : l.originOf k = l.entries[k].origin := by
      rw [originOf, he]
      rfl
    have hnext : l.originOf (k + 1) = l.originOf k + l.room d k := by
      have hnext := h.next k _ f he hf
      rw [room_eq he hf, horigin]
      by_cases hroom : d.isPacked = true ∧ l.entries[k].present = true ∧ f.2.isComputed = false
      · rw [if_pos hroom] at hnext
        obtain ⟨total, htotal, hsum⟩ := hnext
        obtain ⟨hp, he, hc⟩ := hroom
        have htrue : l.entries[k].takesRoom d f.2 = true := by
          rw [FieldEntry.takesRoom, hp, he, hc]
          rfl
        rw [hsum, if_pos htrue, htotal]
        rfl
      · rw [if_neg hroom] at hnext
        have hfalse := FieldEntry.takesRoom_eq_false hroom
        rw [hnext, if_neg (by rw [hfalse]; exact Bool.false_ne_true)]
        exact (Int64.add_zero _).symm
    rw [hnext, ih, List.range_succ, List.map_append, List.sum_append, Int64.add_assoc]
    congr 2
    exact (Int64.add_zero _).symm

end

end Layout

/-! ## 2. After a history -/

namespace Workspace

variable {ws : Workspace} {n : Nat} {edited : Bool} {r : InstanceRef} {d : StructDef}

/-- Without edits what is known about an instance fits its definition. -/
theorem AtRest.fits_of_settled (h : ws.AtRest n edited) (hn : n < Schema.versionLimit)
    (hset : ws.Settled) (hr : ws.IsLive r) (hd : ws.structOf? r = some d) :
    (ws.layoutOf r).Fits d r.offset := by
  have hsettled := hset r d hr hd
  cases hst : (ws.layoutOf r).stamp with
  | none =>
    obtain ⟨hm, he, hc⟩ := hsettled.fresh hst
    exact Layout.fits_of_empty hm he hc
  | some st =>
    have hnow := hsettled.current st hst
    exact h.sound.fits hn r d st hr hd hst (by rw [hnow]; rfl)

/-- An entry without edits is up to date. -/
theorem Settled.current_of_entry (hset : ws.Settled) (hr : ws.IsLive r)
    (hd : ws.structOf? r = some d) {k : Nat} {e : FieldEntry} (he : ws.entryOf? r k = some e) :
    (ws.layoutOf r).stamp = some (ws.stampOf r d) := by
  have hsettled := hset r d hr hd
  cases hst : (ws.layoutOf r).stamp with
  | none =>
    have hempty := (hsettled.fresh hst).2.1
    rw [entryOf?, hempty] at he
    cases he
  | some st => rw [hsettled.current st hst]

/-- **The size of a packed struct**, without edits, is the sum of the sizes of its fields. -/
theorem AtRest.size_eq_sum (h : ws.AtRest n false) (hn : n < Schema.versionLimit)
    (hr : ws.IsLive r) (hd : ws.structOf? r = some d) (hp : d.isPacked = true)
    (hsource : d.sizeSource = none) {v : Int64} {ws' : Workspace}
    (hrun : (r.size false).runIn ws = (.ok (some v), ws')) :
    (∀ k f, d.field? k = some f → ∃ e, ws'.entryOf? r k = some e ∧
      (e.present = true ∧ f.2.isComputed = false → ∃ total, e.totalSize = some total ∧
        ((r.totalSize k false).runIn ws').1 = .ok (some total))) ∧
    v = ((List.range d.fieldCount).map ((ws'.layoutOf r).room d)).sum := by
  obtain ⟨a, ws₁, hrun₁, hs, hg, hpost⟩ := Resolve.ends_resolving fun _ hres =>
    hres.size h.sound hr false
  have hrun' : (Except.ok a, ws₁) = (.ok (some v), ws') := hrun₁.symm.trans hrun
  cases hrun'
  have hrest := h.grows hs hg
  have hset := hg.settled (h.settled rfl)
  have hr' := hg.isLive hr
  have hd' := (hg.structOf? r).trans hd
  obtain ⟨hidle, hfull, hv⟩ := hpost.1 (h.settled rfl) d v hd hp hsource rfl
  have hpacked := (hrest.fits_of_settled hn hset hr' hd').packed_of_idle hidle
  have hsize : (ws'.layoutOf r).entries.size = d.fieldCount := Nat.le_antisymm hpacked.size_le hfull
  refine ⟨fun k f hf => ?_, ?_⟩
  · have hk : k < (ws'.layoutOf r).entries.size := by
      rw [hsize]
      exact Layout.lt_fieldCount hf
    have he : ws'.entryOf? r k = some (ws'.layoutOf r).entries[k] := Array.getElem?_eq_getElem hk
    refine ⟨_, he, fun ⟨hpresent, hcomputed⟩ => ?_⟩
    have hnext := hpacked.next k _ f he hf
    rw [if_pos ⟨hp, hpresent, hcomputed⟩] at hnext
    obtain ⟨total, htotal, _⟩ := hnext
    have hcurrent : ws'.Current r := fun d' hd'' => by
      rw [hd'] at hd''
      cases hd''
      exact hset.current_of_entry hr' hd' he
    have hknows : ws'.KnowsField r k f _ :=
      .of_entry ((Workspace.fieldOf?_eq hd' k).trans hf) hcurrent he
    obtain ⟨ws'', hagain, _⟩ := Resolver.runIn_totalSize
      (.within (ws'.limits.maxDepth - ws'.depth)) hknows htotal false
    refine ⟨total, htotal, ?_⟩
    rw [InstanceRef.totalSize, Resolve.runIn_resolving _ rfl, hagain]
  · have hcursor : (ws'.layoutOf r).originOf d.fieldCount = (ws'.layoutOf r).cursor := by
      rw [Layout.originOf, Array.getElem?_eq_none (by omega)]
      rfl
    have hsum := hpacked.originOf_eq (Nat.le_of_eq hsize.symm)
    rw [hv, ← hcursor, hsum, Int64.add_comm]
    exact Int64.add_sub_cancel _ _

/-- **After every history** no frame is open, no field is being laid out, and what is known about an
instance for the present versions is packed. Without edits the size of a packed struct is the sum of
the sizes of its present fields that are not computed. Versions tell definitions apart as long as
none has been given out twice, so the schema must not have given out as many as there are. -/
theorem Reached.packed (h : ws.Reached n edited) :
    ws.depth = 0 ∧ (∀ (id : InstanceId) (l : Layout), ws.layouts[id]? = some l → l.measuring = none) ∧
    (n < Schema.versionLimit → ∀ r d, ws.IsLive r → ws.structOf? r = some d →
      ((ws.layoutOf r).stamp = some (ws.stampOf r d) → (ws.layoutOf r).Packed d r.offset) ∧
      (edited = false → d.isPacked = true → d.sizeSource = none →
        ∀ v ws', (r.size false).runIn ws = (.ok (some v), ws') →
          (∀ k f, d.field? k = some f → ∃ e, ws'.entryOf? r k = some e ∧
            (e.present = true ∧ f.2.isComputed = false → ∃ total, e.totalSize = some total ∧
              ((r.totalSize k false).runIn ws').1 = .ok (some total))) ∧
          v = ((List.range d.fieldCount).map ((ws'.layoutOf r).room d)).sum)) := by
  have hrest := h.atRest
  refine ⟨hrest.depth, fun id l hl => ?_, fun hn r d hr hd => ⟨fun hst => ?_, ?_⟩⟩
  · cases hi : ws.find? id with
    | none => exact absurd hi (hrest.sound.known id l hl)
    | some i =>
      have hidle := hrest.idle i.ref (hrest.sound.isLive_of_find? hi)
      have hid := hrest.sound.directory.id_eq id i hi
      rw [layoutOf, show i.ref.id = id from hid, hl] at hidle
      exact hidle
  · exact (hrest.sound.fits hn r d _ hr hd hst rfl).packed_of_idle (hrest.idle r hr)
  · rintro rfl hp hsource v ws' hrun
    exact hrest.size_eq_sum hn hr hd hp hsource hrun

/-- A packed struct of a character and a float. -/
def tagged : StructDef :=
  { StructDef.empty with
    isPacked := true
    fields := ⟨[("tag", .ofType (.scalar .char)), ("value", .ofType (.scalar .f32))], by decide⟩ }

def taggedSchema : Schema := ⟨(∅ : Std.TreeMap String StructDef).insert "Tagged" tagged, 0⟩

/-- An instance of it. -/
def taggedRef : InstanceRef := ⟨0, ⟨"Tagged", 0, 4⟩⟩

/-- A workspace with this instance. -/
def withTagged : Workspace :=
  ((ofSchema taggedSchema .default).place (.single taggedRef.location .user)).2

theorem made_taggedSchema : taggedSchema.Made 0 := .of_toList rfl (by decide)

/-- The two fields of it take up five bytes. -/
theorem packed_withTagged : withTagged.Reached 0 false ∧ ∃ ws',
    (taggedRef.size false).runIn withTagged = (.ok (some 5), ws') ∧
      5 = ((List.range 2).map ((ws'.layoutOf taggedRef).room tagged)).sum := by
  have hreached : withTagged.Reached 0 false :=
    .request (.start made_taggedSchema trivial (by decide)) (.place _)
  have hsize : ((taggedRef.size false).runIn withTagged).1 = .ok (some 5) := by
    cbv
  have hrun : (taggedRef.size false).runIn withTagged =
      (.ok (some 5), ((taggedRef.size false).runIn withTagged).2) :=
    Prod.ext hsize rfl
  have hpacked := hreached.packed.2.2 (by decide) taggedRef tagged ⟨_, rfl, rfl⟩ rfl
  exact ⟨hreached, _, hrun, (hpacked.2 rfl rfl rfl 5 _ hrun).2⟩

end Workspace

end ByteAtlas
