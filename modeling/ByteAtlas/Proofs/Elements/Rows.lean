import ByteAtlas.Proofs.Elements.History

/-!
# How many elements there are

An entry that is in order holds an element just if the count of its field has room for it and no
element before it is a zero at which the field ends (`FieldEntry.Orderly.lt_size_iff`). So the
number of elements is known from the count and the content of the file alone, however far they have
been read (`Workspace.elementsIn`).
-/

namespace ByteAtlas

/-! ## 1. Room for elements -/

/-- **The number of elements that a count has room for**: the count itself, or as many as fit into
so many bytes. -/
def Field.capacity (f : Field) (size : Nat) (count : Int64) : Nat :=
  if f.countIsBytes then count.toInt.toNat / size else count.toInt.toNat

namespace Field

variable {f : Field} {t : ScalarType} {count : Int64} {before : Array Element} {n : Nat}

/-- A count has room for as many elements as it is large, at most. -/
theorem mul_capacity_le (hb : f.countIsBytes = true) (size : Nat) (count : Int64) :
    f.capacity size count * size ≤ count.toInt.toNat := by
  unfold capacity
  rw [if_pos hb]
  exact Nat.div_mul_le_self _ _

theorem capacity_le (f : Field) (size : Nat) (count : Int64) :
    f.capacity size count ≤ count.toInt.toNat := by
  unfold capacity
  split
  · exact Nat.div_le_self _ _
  · exact Nat.le_refl _

/-- Whether the place behind an element can be told from the one in front of it. -/
def Spaced (f : Field) (size n : Nat) : Prop := f.countIsBytes = true → (n + 1) * size < 2 ^ 63

/-- **What a count admits** it has room for, and it is no zero at which the field has ended. -/
theorem admits_iff (hc : 0 ≤ count) (hsize : before.size ≤ f.capacity t.size count)
    (hspaced : f.Spaced t.size before.size) :
    f.Admits (Int64.ofNat t.size) count before ↔ before.size < f.capacity t.size count ∧
      (f.untilZero = true → ∀ x, before.back? = some x → x.value.toInt ≠ 0) := by
  have hpos := t.size_pos
  have hcount := count.toInt_lt
  have hzero : 0 ≤ count.toInt := Int64.le_iff_toInt_le.mp hc
  have hroom : (if f.countIsBytes then decide (Int64.ofNat before.size * Int64.ofNat t.size - 0 +
      Int64.ofNat t.size ≤ count) else decide (Int64.ofNat before.size < count)) = true ↔
        before.size < f.capacity t.size count := by
    have hle := f.capacity_le t.size count
    unfold capacity
    split
    · rename_i hb
      have hfit := hspaced hb
      rw [Nat.add_mul, Nat.one_mul] at hfit
      rw [decide_eq_true_eq, Int64.sub_zero, ← Int64.ofNat_mul, ← Int64.ofNat_add,
        Int64.le_iff_toInt_le, Int64.toInt_ofNat_of_lt hfit, Nat.lt_iff_add_one_le,
        Nat.le_div_iff_mul_le hpos, Nat.add_mul, Nat.one_mul]
      omega
    · rw [decide_eq_true_eq, Int64.lt_iff_toInt_lt, Int64.toInt_ofNat_of_lt (by omega)]
      omega
  unfold Admits hasNext
  rw [Bool.and_eq_true, hroom]
  refine and_congr_right fun _ => ?_
  cases before.back? with
  | none => simp
  | some x => cases f.untilZero <;> simp

end Field

namespace FieldEntry.Orderly

variable {f : Field} {t : ScalarType} {e : FieldEntry} {c : Int64} {n : Nat}

/-- The elements in front of one that has been read have room, and none is a zero at which the field
has ended. -/
theorem admits_take (h : e.Orderly f t) (hc : e.count = some c)
    (hspaced : f.Spaced t.size (min n (f.capacity t.size c))) (hn : n < e.values.size) :
    ∀ k ≤ n, k < f.capacity t.size c ∧
      (f.untilZero = true → ∀ x, (e.values.take k).back? = some x → x.value.toInt ≠ 0) := by
  have hadmits {k : Nat} (hk : k ≤ n) (hle : k ≤ f.capacity t.size c) : k < f.capacity t.size c ∧
      (f.untilZero = true → ∀ x, (e.values.take k).back? = some x → x.value.toInt ≠ 0) := by
    have hsize : (e.values.take k).size = k := by
      rw [Array.take_eq_extract, Array.size_extract]
      omega
    have hspace : f.Spaced t.size (e.values.take k).size := by
      rw [hsize]
      exact fun hb => Nat.lt_of_le_of_lt
        (Nat.mul_le_mul_right _ (Nat.succ_le_succ (Nat.le_min.mpr ⟨hk, hle⟩))) (hspaced hb)
    have hold := h.admitted k (by omega)
    rw [hc] at hold
    have hroom := (Field.admits_iff (h.count c hc) (by rw [hsize]; exact hle) hspace).mp hold
    rwa [hsize] at hroom
  -- One element after the other, since each one makes sure that the next place is behind it.
  intro k
  induction k with
  | zero => exact fun hk => hadmits hk (Nat.zero_le _)
  | succ k ih => exact fun hk => hadmits hk (ih (by omega)).1

/-- **An element is there** just if the count has room for it and none before it is a zero at which
the field ends. -/
theorem lt_size_iff (h : e.Orderly f t) (hv : f.value = none) (ht : f.type = .scalar t)
    (hplain : f.countIsBytes = true → f.offsetFormula = none) (hc : e.count = some c)
    (hspaced : f.Spaced t.size (min n (f.capacity t.size c)))
    (hread : n < e.values.size ∨ f.Exhausted e) :
    n < e.values.size ↔ n < f.capacity t.size c ∧
      (f.untilZero = true → ∀ k < n, ∀ x, e.values[k]? = some x → x.value.toInt ≠ 0) := by
  constructor
  · intro hn
    have hall := h.admits_take hc hspaced hn
    refine ⟨(hall n (Nat.le_refl n)).1, fun huntil k hk x hx => ?_⟩
    refine (hall (k + 1) hk).2 huntil x ?_
    rw [Array.back?_eq_getElem?, Array.take_eq_extract, Array.size_extract,
      Array.getElem?_extract, show min (k + 1) e.values.size - 0 - 1 = k by omega]
    rw [if_pos (by omega), Nat.zero_add, hx]
  · rintro ⟨hroom, hzero⟩
    by_contra hn
    obtain ⟨_, c', hc', hend⟩ := (h.exhausted_iff hv ht hplain).mp (hread.resolve_left hn)
    obtain rfl : c = c' := Option.some.inj (hc.symm.trans hc')
    have hlt : e.values.size + 1 ≤ f.capacity t.size c := by omega
    refine hend ((Field.admits_iff (h.count c hc) (Nat.le_of_lt hlt) fun hb => ?_).mpr
      ⟨hlt, fun huntil x hx => ?_⟩)
    · have hmul := Nat.mul_le_mul_right t.size hlt
      have hle := Field.mul_capacity_le hb t.size c
      have hcount := c.toInt_lt
      omega
    · rw [Array.back?_eq_getElem?] at hx
      have hsize := (Array.getElem?_eq_some_iff.mp hx).1
      exact hzero huntil (e.values.size - 1) (by omega) x hx

end FieldEntry.Orderly

/-! ## 2. The number of elements -/

namespace Workspace

/-- **The number of elements of a field** with a place and a count: as many as there is room for, up
to the first zero if the field ends there. -/
def elementsIn (ws : Workspace) (file : FileId) (f : Field) (t : ScalarType) (start count : Int64) :
    Nat :=
  let capacity := f.capacity t.size count
  if f.untilZero then
    ((List.range capacity).find? fun k => (ws.elementAt file t start k).value.toInt = 0).elim
      capacity (· + 1)
  else capacity

variable {ws ws' : Workspace} {file : FileId} {f : Field} {t : ScalarType} {start count : Int64}
  {n : Nat}

theorem lt_elementsIn_iff : n < ws.elementsIn file f t start count ↔
    n < f.capacity t.size count ∧ (f.untilZero = true →
      ∀ k < n, (ws.elementAt file t start k).value.toInt ≠ 0) := by
  unfold elementsIn
  dsimp only
  split
  · rename_i huntil
    cases hfind : (List.range (f.capacity t.size count)).find? fun k =>
        (ws.elementAt file t start k).value.toInt = 0 with
    | none =>
      have hnone := List.find?_range_eq_none.mp hfind
      refine ⟨fun hn => ⟨hn, fun _ k hk => ?_⟩, And.left⟩
      simpa using hnone k (Nat.lt_trans hk hn)
    | some j =>
      obtain ⟨hzero, hj, hbefore⟩ := List.find?_range_eq_some.mp hfind
      have hj := List.mem_range.mp hj
      simp only [decide_eq_true_eq, Bool.not_eq_true', decide_eq_false_iff_not] at hzero hbefore
      constructor
      · intro hn
        have hn : n < j + 1 := hn
        exact ⟨by omega, fun _ k hk => hbefore k (by omega)⟩
      · rintro ⟨_, hall⟩
        exact Nat.lt_succ_of_le (Nat.le_of_not_lt fun hjn => hall huntil j hjn hzero)
  · rename_i huntil
    exact ⟨fun hn => ⟨hn, fun h => absurd h huntil⟩, And.left⟩

/-- How many there are depends on the file only. -/
theorem elementsIn_congr (h : ws'.file? file = ws.file? file) :
    ws'.elementsIn file f t start count = ws.elementsIn file f t start count := by
  unfold elementsIn
  simp only [elementAt_congr h]

end Workspace

/-! ## 3. Reading with a place and a count -/

/-- **With a place and a count that are known** nothing but elements is read, and no frame is
needed. -/
theorem Resolver.runIn_readValues_of_noted (resolver : Resolver) {ws : Workspace} {r : InstanceRef}
    {i : Nat} {f : String × Field} {e : FieldEntry} (h : ws.KnowsField r i f e)
    (hvalue : f.2.value = none) {t : ScalarType} (htype : f.2.type = .scalar t) {c : Int64}
    (hplaced : e.offset.isSome) (hcount : e.count = some c) (wanted : Wanted) :
    ∃ ok ws' l, (resolver.readValues r i wanted).runIn ws = (.ok ok, ws') ∧ ws.Sets r l ws' := by
  obtain ⟨ws₁, hrun, hset₁, h₁⟩ := resolver.runIn_enumerate_of_knows h false
  unfold Resolver.readValues Resolver.readValuesWith
  simp only [entryOf?, fieldOf?, Resolve.runIn_bind, hrun, Resolve.runIn_ask, h₁.entry]
  by_cases hmet : wanted.metBy e.values.size = true
  · simp only [hmet, if_true, Resolve.runIn_pure]
    exact ⟨_, ws₁, _, rfl, hset₁⟩
  · rw [if_neg hmet]
    obtain ⟨ws₂, hoffset, hset₂⟩ := resolver.runIn_fieldOffset h₁ (.inl hplaced) false
    have h₂ := h₁.sets hset₂
    obtain ⟨ws₃, helements, hset₃⟩ := resolver.runIn_elementCount h₂ hcount false
    have h₃ := h₂.sets hset₃
    have hget : (get : Resolve Workspace).runIn ws₃ = (.ok ws₃, ws₃) := rfl
    have hnote (g : FieldEntry → FieldEntry) :=
      Workspace.sets_modifyLayout ws₃ r fun l => l.modifyEntry i g
    unfold Resolver.readScalars
    simp only [Resolve.runIn_bind, Resolve.runIn_ask, h₁.field, hvalue, htype, hoffset, helements,
      hget, h₃.entry]
    exact ⟨_, _, _, rfl, ((hset₁.trans hset₂).trans hset₃).trans (hnote _)⟩

namespace Workspace

/-- **A field of a scalar type with a place and a count that are known**, in a file that is kept. -/
structure Row (kept : FileId → Prop) (ws : Workspace) (r : InstanceRef) (i : Nat) (d : StructDef)
    (f : String × Field) (t : ScalarType) (o c : Int64) (e : FieldEntry) : Prop where
  ordered : ws.Ordered
  right : ws.Every (Right kept ws)
  live : ws.IsLive r
  kept : kept r.file
  struct : ws.structOf? r = some d
  plain : d.PlainBudgets
  field : d.field? i = some f
  value : f.2.value = none
  type : f.2.type = .scalar t
  placed : f.2.offsetFormula = none
  current : ws.Current r
  entry : ws.entryOf? r i = some e
  offset : e.offset = some o
  count : e.count = some c

namespace Row

variable {kept : FileId → Prop} {ws ws' : Workspace} {r : InstanceRef} {i n : Nat} {d : StructDef}
  {f : String × Field} {t : ScalarType} {o c : Int64} {e : FieldEntry}

theorem knowsField (h : ws.Row kept r i d f t o c e) : ws.KnowsField r i f e :=
  .of_entry ((fieldOf?_eq h.struct i).trans h.field) h.current h.entry

/-- It stays so in the course of a request. -/
theorem moved (h : ws.Row kept r i d f t o c e) (hs : ws'.Sound True) (hg : ws.Grows ws')
    (hm : ws.Moved ws') : ∃ e', ws'.Row kept r i d f t o c e' := by
  obtain ⟨e', he', hgrow⟩ := hg.entryOf? h.live h.current h.struct h.entry
  exact ⟨e', h.ordered.moved hs hm, hm.right h.right, hg.isLive h.live, h.kept,
    (hg.structOf? r).trans h.struct, h.plain, h.field, h.value, h.type, h.placed,
    hg.current h.live h.current, he', hgrow.offset o h.offset, hgrow.count c h.count⟩

/-- **What is there of an element**, once it has been asked for. -/
theorem getElem?_values (h : ws.Row kept r i d f t o c e)
    (hspaced : f.2.Spaced t.size (min n (f.2.capacity t.size c)))
    (hread : n < e.values.size ∨ f.2.Exhausted e) :
    (n < e.values.size ↔ n < ws.elementsIn r.file f.2 t o c) ∧
      ∀ x, e.values[n]? = some x → x = ws.elementAt r.file t o n := by
  obtain ⟨horder, hfrom⟩ := h.right.of_current h.live h.struct h.current h.field h.entry
  have hsame (k : Nat) (x : Element) (hx : e.values[k]? = some x) :
      x = ws.elementAt r.file t o k := by
    rw [hfrom h.kept h.plain h.value h.placed t h.type k x hx, h.offset]
    rfl
  have hsize := (horder.scalars h.plain t h.value h.type).1.lt_size_iff h.value h.type
      (fun _ => h.placed)
    h.count hspaced hread
  refine ⟨⟨fun hn => lt_elementsIn_iff.mpr ⟨(hsize.mp hn).1, fun huntil k hk => ?_⟩, fun hn => ?_⟩,
    hsame n⟩
  · have hx := Array.getElem?_eq_getElem (Nat.lt_trans hk hn)
    rw [← hsame k _ hx]
    exact (hsize.mp hn).2 huntil k hk _ hx
  · obtain ⟨hroom, hzero⟩ := lt_elementsIn_iff.mp hn
    refine hsize.mpr ⟨hroom, fun huntil k hk x hx => ?_⟩
    rw [hsame k x hx]
    exact hzero huntil k hk

/-- **Asking for an element** reads it, if the field has it. -/
theorem readValues {resolver : Resolver} (hresolver : resolver.Moves)
    (h : ws.Row kept r i d f t o c e)
    (hspaced : f.2.Spaced t.size (min n (f.2.capacity t.size c))) :
    ∃ ws' e', (resolver.readValues r i (.first (n + 1))).runIn ws =
        (.ok (decide (n < ws.elementsIn r.file f.2 t o c)), ws') ∧ ws'.entryOf? r i = some e' ∧
      e'.values[n]? = if n < ws.elementsIn r.file f.2 t o c then
        some (ws.elementAt r.file t o n) else none := by
  obtain ⟨ok, ws', l, hrun, hset⟩ := resolver.runIn_readValues_of_noted h.knowsField h.value h.type
    (by rw [h.offset]; rfl) h.count (.first (n + 1))
  obtain ⟨hs, hg, _, hread⟩ :=
    (hresolver.reliable.readValues h.ordered.sound h.live i (.first (n + 1))).of_run hrun
  have hmoved := (hresolver.readValues i (.first (n + 1)) ws h.ordered h.live).moves.1
  rw [hrun] at hmoved
  obtain ⟨e', h'⟩ := h.moved hs hg hmoved
  obtain ⟨hread, hok⟩ := hread hset.refusals n rfl
  obtain ⟨hsize, hsame⟩ := h'.getElem?_values hspaced
    (hread f e' ((fieldOf?_eq h'.struct i).trans h'.field) h'.entry)
  have hfile : ws'.file? r.file = ws.file? r.file := by
    unfold file?
    rw [hg.files]
  rw [elementsIn_congr hfile] at hsize
  simp only [elementAt_congr hfile] at hsame
  have hok : ok = decide (n < ws.elementsIn r.file f.2 t o c) := by
    rw [Bool.eq_iff_iff, hok, decide_eq_true_eq, ← hsize, h'.entry]
    simp
  refine ⟨ws', e', hok ▸ hrun, h'.entry, ?_⟩
  split
  · rename_i hn
    have hx := Array.getElem?_eq_getElem (hsize.mpr hn)
    rw [hx, hsame _ hx]
  · rename_i hn
    exact Array.getElem?_eq_none (Nat.le_of_not_lt fun hlt => hn (hsize.mp hlt))

/-! ## 4. Answers about elements -/

theorem intValue {resolver : Resolver} (hresolver : resolver.Moves)
    (h : ws.Row kept r i d f t o c e)
    (hspaced : f.2.Spaced t.size (min n (f.2.capacity t.size c))) :
    ((resolver.intValue r i n).runIn ws).1 = .ok (if n < ws.elementsIn r.file f.2 t o c then
      (ws.elementAt r.file t o n).value.toInt else 0) := by
  obtain ⟨ws', e', hrun, he', hx⟩ := h.readValues hresolver hspaced
  unfold Resolver.readValues at hrun
  unfold Resolver.intValue Resolver.intValueWith
  rw [Resolve.runIn_bind, hrun]
  by_cases hn : n < ws.elementsIn r.file f.2 t o c
  · rw [if_pos hn] at hx ⊢
    simp only [hn, decide_true, if_true, ByteAtlas.entryOf?, Resolve.runIn_bind,
      Resolve.runIn_ask, he',
      Option.bind_some, hx, Resolve.runIn_pure]
    rfl
  · rw [if_neg hn]
    simp only [hn, decide_false, Bool.false_eq_true, if_false, Resolve.runIn_pure]

theorem valuePreview {resolver : Resolver} (hresolver : resolver.Moves)
    (h : ws.Row kept r i d f t o c e)
    (hspaced : f.2.Spaced t.size (min n (f.2.capacity t.size c))) :
    ((resolver.valuePreview r i n).runIn ws).1 = .ok (if n < ws.elementsIn r.file f.2 t o c then
      some (ws.elementAt r.file t o n).value.preview else none) := by
  obtain ⟨ws', e', hrun, he', hx⟩ := h.readValues hresolver hspaced
  unfold Resolver.valuePreview
  rw [Resolve.runIn_bind, hrun]
  by_cases hn : n < ws.elementsIn r.file f.2 t o c
  · rw [if_pos hn] at hx ⊢
    simp only [hn, decide_true, if_true, ByteAtlas.entryOf?, Resolve.runIn_bind,
      Resolve.runIn_ask, he',
      Option.bind_some, hx, Resolve.runIn_pure, Option.map_some]
  · rw [if_neg hn]
    simp only [hn, decide_false, Bool.false_eq_true, if_false, Resolve.runIn_pure]

/-- Where an element lies: so many elements behind the start. -/
theorem valueOffset {resolver : Resolver} (hresolver : resolver.Moves)
    (h : ws.Row kept r i d f t o c e)
    (hspaced : f.2.Spaced t.size (min n (f.2.capacity t.size c)))
    (hn : n < ws.elementsIn r.file f.2 t o c) :
    ((resolver.valueOffset r i n false).runIn ws).1 =
      .ok (some (o + Int64.ofNat n * Int64.ofNat t.size)) := by
  obtain ⟨ws₁, hrun, hset⟩ := resolver.runIn_fieldOffset h.knowsField (.inr h.placed) false
  obtain ⟨hs, hg, _⟩ := (hresolver.reliable.fieldOffset h.ordered.sound h.live i false).of_run hrun
  have hmoved := (hresolver.fieldOffset i false ws h.ordered h.live).moves.1
  rw [hrun] at hmoved
  obtain ⟨e₁, h₁⟩ := h.moved hs hg hmoved
  obtain ⟨ws', e', hread, he', hx⟩ := h₁.readValues hresolver hspaced
  have hfile : ws₁.file? r.file = ws.file? r.file := by
    unfold file?
    rw [hg.files]
  rw [elementsIn_congr hfile, if_pos hn] at hx
  have hscalar : ws₁.holdsChildren r i = false := by
    unfold holdsChildren
    rw [(fieldOf?_eq h₁.struct i).trans h₁.field, Option.any_some, h.type]
    exact Bool.and_false _
  unfold Resolver.valueOffset
  rw [Resolve.runIn_bind, hrun, h.offset]
  by_cases hzero : n = 0
  · subst hzero
    simp [Resolve.runIn_pure]
  · simp only [hzero, if_false, Resolve.runIn_bind, Resolve.runIn_ask, hscalar, Bool.and_false,
      Bool.false_eq_true, Bool.not_false, if_true, hread, ByteAtlas.entryOf?, he',
      Option.bind_some, hx,
      Resolve.runIn_pure, Option.map_some]
    rfl

end Row

/-- **Elements read in parts are the elements of the file.** After any history, however much has
been read of a field before, in whatever order, and whatever was cut short: with its place `o` and
its count `c` known, its elements are those that the count has room for, up to the first zero if it
ends there, and element `k` is decoded from the bytes so many elements behind the place. This is
told of definitions in which no field has both a byte budget and an offset that an expression
gives. -/
theorem Led.elements_in_a_row {kept : FileId → Prop} {ws : Workspace} {n : Nat} (h : ws.Led kept n)
    (hn : n < Schema.versionLimit) {r : InstanceRef} (hr : ws.IsLive r) (hkept : kept r.file)
    {d : StructDef} (hd : ws.structOf? r = some d) (hplain : d.PlainBudgets) {i : Nat}
    {f : String × Field} (hf : d.field? i = some f) (hvalue : f.2.value = none) {t : ScalarType}
    (htype : f.2.type = .scalar t) (hplaced : f.2.offsetFormula = none) {e : FieldEntry}
    (he : ws.entryNow? r i = some e) {o c : Int64} (ho : e.offset = some o) (hc : e.count = some c)
    (k : Nat) (hspaced : f.2.Spaced t.size (min k (f.2.capacity t.size c))) :
    let elements := ws.elementsIn r.file f.2 t o c
    let element := ws.elementAt r.file t o k
    ((r.fieldOffset i false).runIn ws).1 = .ok (some o) ∧
    ((r.elementCount i false).runIn ws).1 = .ok (some c) ∧
    ((r.intValue i k).runIn ws).1 = .ok (if k < elements then element.value.toInt else 0) ∧
    ((r.valuePreview i k).runIn ws).1 =
      .ok (if k < elements then some element.value.preview else none) ∧
    (k < elements → ((r.valueOffset i k false).runIn ws).1 = .ok (some element.offset)) := by
  have hcurrent : ws.Current r ∧ ws.entryOf? r i = some e := by
    unfold entryNow? at he
    split at he
    · rename_i hstamp
      refine ⟨fun d' hd' => ?_, he⟩
      rw [hstamp, stampNow?, hd']
      rfl
    · cases he
  have hrow : ws.Row kept r i d f t o c e :=
    ⟨h.ordered hn, h.every hn, hr, hkept, hd, hplain, hf, hvalue, htype, hplaced, hcurrent.1,
      hcurrent.2, ho, hc⟩
  have hresolver := Resolver.moves_within (ws.limits.maxDepth - ws.depth)
  have hask {α : Type} (request : Resolver → Resolve α) : ((Resolve.resolving request).runIn ws).1 =
      ((request (.within (ws.limits.maxDepth - ws.depth))).runIn ws).1 :=
    congrArg Prod.fst (Resolve.runIn_resolving request rfl)
  refine ⟨(hask _).trans ?_, (hask _).trans ?_, (hask _).trans (hrow.intValue hresolver hspaced),
    (hask _).trans (hrow.valuePreview hresolver hspaced),
    fun hk => (hask _).trans (hrow.valueOffset hresolver hspaced hk)⟩
  · obtain ⟨_, hrun, _⟩ := Resolver.runIn_fieldOffset (.within _) hrow.knowsField (.inr hplaced) false
    rw [hrun, ho]
  · obtain ⟨_, hrun, _⟩ := Resolver.runIn_elementCount (.within _) hrow.knowsField hc false
    rw [hrun]

/-- Cells of two bytes within nine bytes, up to the first that is zero. -/
def ribbon : StructDef :=
  { StructDef.empty with
    size := 9
    fields := ⟨[("cells", { Field.ofType (.scalar (.int .u16)) with
      count := 9
      countIsBytes := true
      untilZero := true })], by decide⟩ }

def ribbonSchema : Schema := ⟨(∅ : Std.TreeMap String StructDef).insert "Ribbon" ribbon, 0⟩

def ribbonRef : InstanceRef := ⟨0, ⟨"Ribbon", 0, 0⟩⟩

/-- A workspace with a file of nine bytes and a ribbon in it. -/
def withRibbon : Workspace :=
  (({ ofSchema ribbonSchema .default with
    files := #[.ofBytes "ribbon" #[3, 0, 5, 1, 0, 0, 9, 0, 7]] } : Workspace).place
      (.single ribbonRef.location .user)).2

/-- The ribbon after its first cell has been read. -/
def withRibbonBegun : Workspace := ((ribbonRef.intValue 0 0).runIn withRibbon).2

/-- There is room for four cells, the third is a zero. The second and the fourth one are asked for
when the first has been read. -/
theorem elements_in_a_row_withRibbon : withRibbonBegun.Led (fun _ => True) 0 ∧
    ((ribbonRef.intValue 0 1).runIn withRibbonBegun).1 = .ok 261 ∧
    ((ribbonRef.valuePreview 0 3).runIn withRibbonBegun).1 = .ok none ∧
    ((ribbonRef.valueOffset 0 2 false).runIn withRibbonBegun).1 = .ok (some 4) := by
  have hnobody (r : InstanceRef) : ¬ (ofSchema ribbonSchema .default).IsLive r := by
    rintro ⟨i, hi, _⟩
    exact nomatch (show (none : Option Instance) = some i from hi)
  have hstart : withRibbon.Led (fun _ => True) 0 :=
    .request (.files (.start (.of_toList rfl (by decide)) trivial (by decide))
      fun r hr _ => absurd hr (hnobody r)) (.place _)
  have hthere : (withRibbon.find? 0).map Instance.ref = some ribbonRef := by decide
  obtain ⟨i₀, hi₀, hir₀⟩ := Option.map_eq_some_iff.mp hthere
  have hquestion : Question fun r => r.intValue 0 0 := .intValue 0 0
  have hled : withRibbonBegun.Led (fun _ => True) 0 := hstart.question ⟨i₀, hi₀, hir₀⟩ hquestion
  have hlive : (withRibbonBegun.find? 0).map Instance.ref = some ribbonRef := by decide +kernel
  have hstruct : withRibbonBegun.structOf? ribbonRef = some ribbon := by decide +kernel
  have hknown : (withRibbonBegun.entryNow? ribbonRef 0).map (fun e => (e.offset, e.count)) =
      some (some 0, some 9) := by decide +kernel
  obtain ⟨i, hi, hir⟩ := Option.map_eq_some_iff.mp hlive
  obtain ⟨e, he, hoc⟩ := Option.map_eq_some_iff.mp hknown
  -- What is said of an element with a number, with the elements that there are.
  have hanswers (k : Nat) (hk : (min k 4 + 1) * 2 < 2 ^ 63) :=
    hled.elements_in_a_row (by decide) ⟨i, hi, hir⟩ trivial hstruct (by decide) (i := 0) rfl rfl rfl
      rfl he (congrArg Prod.fst hoc) (congrArg Prod.snd hoc) k fun _ => hk
  obtain ⟨_, _, hvalue, _⟩ := hanswers 1 (by decide)
  obtain ⟨_, _, _, hpreview, _⟩ := hanswers 3 (by decide)
  obtain ⟨_, _, _, _, hoffset⟩ := hanswers 2 (by decide)
  have hthird := hoffset (by decide +kernel)
  refine ⟨hled, hvalue.trans ?_, hpreview.trans ?_, hthird.trans ?_⟩
  · decide +kernel
  · decide +kernel
  · decide

end Workspace

end ByteAtlas
