import ByteAtlas.Proofs.Flat.Places
import ByteAtlas.Proofs.Resolve.Known

/-!
# What is noted about a field

`Workspace.Notes` says once what a resolution may note about a field that is laid out: its offset,
its count, more of its elements, the room that it takes. What is noted is not always what is kept: a
field may be resolved once more while it is being resolved, and then the note of the outer turn
replaces that of the inner one. For elements that is harmless as long as the place of a field with a
byte budget is not replaced (`StructDef.PlainBudgets`), because the number of elements does not
depend on the place otherwise.

`FieldEntry.Orderly` is what such notes keep of the entry of a field of a scalar type: the next
element lies behind those read, and only those have been read that the count admits.
-/

namespace ByteAtlas

/-- **Whether no field that is read from the file has both a byte budget and an offset that an
expression gives.** -/
def StructDef.PlainBudgets (d : StructDef) : Prop :=
  ∀ f ∈ d.fields.entries, f.2.value = none → f.2.type.scalar?.isSome → f.2.countIsBytes = true →
    f.2.offsetFormula = none

instance (d : StructDef) : Decidable d.PlainBudgets :=
  inferInstanceAs (Decidable (∀ f ∈ d.fields.entries, f.2.value = none →
    f.2.type.scalar?.isSome → f.2.countIsBytes = true → f.2.offsetFormula = none))

/-- The budget of a field at a place that an expression gives is a number of elements. -/
theorem StructDef.PlainBudgets.offsetFormula {d : StructDef} (h : d.PlainBudgets) {i : Nat}
    {f : String × Field} (hf : d.field? i = some f) (hv : f.2.value = none) {t : ScalarType}
    (ht : f.2.type = .scalar t) (hb : f.2.countIsBytes = true) : f.2.offsetFormula = none :=
  h f (List.mem_of_getElem? hf) hv (by rw [ht]; rfl) hb

/-! ## 1. Elements that a count admits -/

namespace Field

variable {f : Field} {size count : Int64} {before : Array Element}

/-- **Whether there is an element after so many**, wherever the field is. -/
def Admits (f : Field) (size count : Int64) (before : Array Element) : Prop :=
  f.hasNext size count 0 (Int64.ofNat before.size * size) before = true

/-- Elements in a row are there wherever the field is. -/
theorem hasNext_iff_admits {start next : Int64}
    (h : f.countIsBytes = true → next = start + Int64.ofNat before.size * size) :
    f.hasNext size count start next before = true ↔ f.Admits size count before := by
  unfold Admits hasNext
  by_cases hb : f.countIsBytes = true
  · have hroom : start + Int64.ofNat before.size * size - start =
        Int64.ofNat before.size * size - 0 := by
      rw [Int64.sub_zero, Int64.add_comm start, Int64.add_sub_cancel]
    rw [if_pos hb, if_pos hb, h hb, hroom]
  · rw [if_neg hb, if_neg hb]

/-- A larger count admits more. -/
theorem Admits.mono {count' : Int64} (h : f.Admits size count before) (hle : count ≤ count') :
    f.Admits size count' before := by
  unfold Admits hasNext at *
  rw [Bool.and_eq_true] at h ⊢
  refine ⟨?_, h.2⟩
  have hcount := h.1
  split at hcount <;> rename_i hb
  · rw [if_pos hb, decide_eq_true_eq]
    exact Int64.le_trans (of_decide_eq_true hcount) hle
  · rw [if_neg hb, decide_eq_true_eq]
    exact Int64.lt_of_lt_of_le (of_decide_eq_true hcount) hle

end Field

namespace Reading

variable {g : Reading} {p : Array Element × Int64}

/-- Whether the next element lies behind those read, in a row from the start of the field on. -/
def InRow (g : Reading) (p : Array Element × Int64) : Prop :=
  p.2 = g.start + Int64.ofNat p.1.size * Int64.ofNat g.type.size

theorem InRow.advance (h : g.InRow p) : g.InRow (g.advance p) := by
  unfold InRow at h ⊢
  have hsize : (g.advance p).1.size = p.1.size + 1 := Array.size_push _
  have hnext : (g.advance p).2 = p.2 + Int64.ofNat g.type.size := rfl
  rw [hsize, hnext, h, Int64.ofNat_add, Int64.add_mul, Int64.add_assoc]
  simp

/-- Reading on, the elements stay in a row. -/
theorem InRow.readOn (h : g.InRow p) (n : Nat) : g.InRow (g.readOn n p) := by
  induction n generalizing p with
  | zero => exact h
  | succ n ih =>
    cases hnext : g.hasNext p with
    | false => rwa [readOn_of_end hnext]
    | true =>
      rw [readOn_succ hnext]
      exact ih h.advance

/-- **Only what the count admits is read.** -/
theorem admits_readOn {count : Int64} (hcount : g.count ≤ count)
    (hrow : g.field.countIsBytes = true → g.InRow p)
    (hold : ∀ k < p.1.size, g.field.Admits (Int64.ofNat g.type.size) count (p.1.take k)) (n : Nat) :
    ∀ k < (g.readOn n p).1.size,
      g.field.Admits (Int64.ofNat g.type.size) count ((g.readOn n p).1.take k) := by
  induction n generalizing p with
  | zero => exact hold
  | succ n ih =>
    cases hnext : g.hasNext p with
    | false => rwa [readOn_of_end hnext]
    | true =>
      rw [readOn_succ hnext]
      refine ih (fun hb => (hrow hb).advance) fun k hk => ?_
      have hsize : (g.advance p).1.size = p.1.size + 1 := Array.size_push _
      have htake (j : Nat) (hj : j ≤ p.1.size) : (g.advance p).1.take j = p.1.take j := by
        rw [Reading.advance, Array.take_eq_extract, Array.extract_push, if_pos hj,
          Array.take_eq_extract]
      rw [htake k (by omega)]
      by_cases hlast : k < p.1.size
      · exact hold k hlast
      · have hall : p.1.take k = p.1 := by
          rw [show k = p.1.size by omega]
          simp
        rw [hall]
        exact ((Field.hasNext_iff_admits hrow).mp hnext).mono hcount

end Reading

/-! ## 2. Entries in order -/

/-- The number of elements that take up room, all of them being of one size. -/
def Field.occupied (f : Field) (size count : Int64) (values : Array Element) : Int64 :=
  if f.untilZero then Int64.ofNat values.size
  else if f.countIsBytes then (if 0 < size then count / size else 0)
  else count

/-- **What holds of the entry of a field of a scalar type** at every moment. -/
structure FieldEntry.Orderly (f : Field) (t : ScalarType) (e : FieldEntry) : Prop where
  unread : e.nextElement = none → e.values = #[]
  /-- The next element lies behind those read. -/
  inRow : f.offsetFormula = none → ∀ next, e.nextElement = some next →
    next = e.offset.getD 0 + Int64.ofNat e.values.size * Int64.ofNat t.size
  count : ∀ c, e.count = some c → 0 ≤ c
  admitted : ∀ k < e.values.size,
    f.Admits (Int64.ofNat t.size) (e.count.getD 0) (e.values.take k)

/-- **What a field of a scalar type is known to take up** is what its elements do. Where it ends at
a zero, they have all been read. -/
def FieldEntry.Occupies (f : Field) (t : ScalarType) (e : FieldEntry) (total : Int64) : Prop :=
  ∃ c, e.count = some c ∧ (f.untilZero = true → f.Exhausted e) ∧
    total = Int64.ofNat t.size * f.occupied (Int64.ofNat t.size) c e.values

/-! ## 3. Counts -/

/-- **Whether the first element of a field is known**, and what it tells: 0 if it is known that
there is none. -/
def FieldEntry.Tells (f : Field) (e : FieldEntry) (v : Int64) : Prop :=
  (0 < e.values.size ∨ f.Exhausted e) ∧ v = (e.values[0]?).elim 0 fun x => x.value.toInt

theorem FieldEntry.Tells.eq {f : Field} {e : FieldEntry} {v v' : Int64} (h : e.Tells f v)
    (h' : e.Tells f v') : v = v' :=
  h.2.trans h'.2.symm

/-- A count within a limit. -/
def cutCount (limit count : Int64) : Int64 :=
  if count < 0 then 0 else if limit < count then limit else count

theorem cutCount_nonneg {limit : Int64} (h : 0 ≤ limit) (count : Int64) :
    0 ≤ cutCount limit count := by
  unfold cutCount
  split
  · exact Int64.le_refl 0
  · rename_i hpos
    split
    · exact h
    · exact Int64.not_lt.mp hpos

theorem cutCount_zero {limit : Int64} (h : 0 ≤ cutCount limit 0) : cutCount limit 0 = 0 := by
  unfold cutCount at h ⊢
  rw [if_neg Int64.lt_irrefl] at h ⊢
  split at h
  · rename_i hlimit
    exact absurd hlimit (Int64.not_lt.mpr h)
  · rename_i hlimit
    rw [if_neg hlimit]

namespace Workspace

/-- What the name in a count stands for, the fields before it having entries. -/
inductive Names (ws : Workspace) (r : InstanceRef) (d : StructDef) (i : Nat) (source : String) :
    Option Int64 → Prop where
  | field {j : Nat} {f : String × Field} {e : FieldEntry} {v : Int64} :
    d.fieldIndex? source = some j → j < i → d.field? j = some f → ws.entryOf? r j = some e →
    e.Tells f.2 v → Names ws r d i source (some v)
  | other : (∀ j, d.fieldIndex? source = some j → i ≤ j) →
    Names ws r d i source ((ws.argOf? r source).or (d.param? source))

/-- **What a field's count is**, before it is cut to the limit. -/
inductive CountsTo (ws : Workspace) (r : InstanceRef) (d : StructDef) (i : Nat) (f : Field)
    (present : Bool) : Int64 → Prop where
  | absent : present = false → CountsTo ws r d i f present 0
  | literal : present = true → f.countSource = .literal → CountsTo ws r d i f present f.count
  | fileSize : present = true → f.countSource = .fileSize →
    CountsTo ws r d i f present (Int64.ofNat (ws.fileSize r.file) + f.count)
  | named {source : String} {base : Option Int64} : present = true →
    f.countSource = .named source → ws.Names r d i source base →
    CountsTo ws r d i f present (base.elim 0 (· + f.count))

/-- **What a field's count is.** -/
def Counts (ws : Workspace) (r : InstanceRef) (d : StructDef) (i : Nat) (f : Field)
    (present : Bool) (count : Int64) : Prop :=
  ∃ n, ws.CountsTo r d i f present n ∧ count = cutCount ws.limits.maxElements n

variable {ws ws' : Workspace} {r : InstanceRef} {d : StructDef} {i : Nat} {f : Field}
  {present : Bool}

theorem Names.eq {source : String} {base base' : Option Int64} (h : ws.Names r d i source base)
    (h' : ws.Names r d i source base') : base = base' := by
  cases h with
  | field hj hlt hf he ht =>
    cases h' with
    | field hj' _ hf' he' ht' =>
      rw [hj] at hj'
      cases hj'
      rw [hf] at hf'
      cases hf'
      rw [he] at he'
      cases he'
      rw [ht.eq ht']
    | other hno => exact absurd hlt (Nat.not_lt.mpr (hno _ hj))
  | other hno =>
    cases h' with
    | field hj hlt _ _ _ => exact absurd hlt (Nat.not_lt.mpr (hno _ hj))
    | other _ => rfl

theorem CountsTo.eq {n n' : Int64} (h : ws.CountsTo r d i f present n)
    (h' : ws.CountsTo r d i f present n') : n = n' := by
  cases h <;> cases h' <;> simp_all
  rename_i source base _ hsource hnames base' _ hnames'
  rw [hnames.eq hnames']

/-- **There is one count.** -/
theorem Counts.eq {c c' : Int64} (h : ws.Counts r d i f present c)
    (h' : ws.Counts r d i f present c') : c = c' := by
  obtain ⟨n, hn, rfl⟩ := h
  obtain ⟨n', hn', rfl⟩ := h'
  rw [hn.eq hn']

/-- It stays the same as long as the first elements stay that are known. -/
theorem Counts.mono {c : Int64} (h : ws.Counts r d i f present c) (hfiles : ws'.files = ws.files)
    (hlimits : ws'.limits = ws.limits) (hargs : ∀ name, ws'.argOf? r name = ws.argOf? r name)
    (htells : ∀ j < i, ∀ g e v, d.field? j = some g → ws.entryOf? r j = some e → e.Tells g.2 v →
      ∃ e', ws'.entryOf? r j = some e' ∧ e'.Tells g.2 v) :
    ws'.Counts r d i f present c := by
  obtain ⟨n, hn, rfl⟩ := h
  refine ⟨n, ?_, by rw [hlimits]⟩
  cases hn with
  | absent hp => exact .absent hp
  | literal hp hsource => exact .literal hp hsource
  | fileSize hp hsource =>
    have hsize : ws.fileSize r.file = ws'.fileSize r.file := by
      rw [fileSize, file?, ← hfiles]
      rfl
    rw [hsize]
    exact .fileSize hp hsource
  | named hp hsource hnames =>
    refine .named hp hsource ?_
    cases hnames with
    | field hj hlt hg he ht =>
      obtain ⟨e', he', ht'⟩ := htells _ hlt _ _ _ hg he ht
      exact .field hj hlt hg he' ht'
    | other hno =>
      rw [← hargs]
      exact .other hno

/-- A count that refers to nothing stays the same with the limit. -/
theorem Counts.of_literal {c : Int64} (h : ws.Counts r d i f present c)
    (hsource : f.countSource = .literal) (hlimits : ws'.limits = ws.limits) :
    ws'.Counts r d i f present c := by
  obtain ⟨n, hn, rfl⟩ := h
  refine ⟨n, ?_, by rw [hlimits]⟩
  cases hn with
  | absent hp => exact .absent hp
  | literal hp _ => exact .literal hp hsource
  | fileSize _ hother | named _ hother _ =>
    rw [hsource] at hother
    cases hother

end Workspace

/-! ## 4. A single integer -/

/-- **Whether a field is one integer**, read from the file. -/
structure Field.OneInt (f : Field) (t : IntType) : Prop where
  value : f.value = none
  type : f.type = .scalar (.int t)
  one : f.isOne = true
  elements : f.countIsBytes = false

theorem Field.OneInt.literal {f : Field} {t : IntType} (h : f.OneInt t) :
    f.count = 1 ∧ f.countSource = .literal := by
  have hone := h.one
  rw [isOne, Bool.and_eq_true, decide_eq_true_eq] at hone
  refine ⟨hone.1, ?_⟩
  cases hsource : f.countSource with
  | literal => rfl
  | fileSize | named _ =>
    rw [hsource] at hone
    exact absurd hone.2 Bool.false_ne_true

/-- One element is cut to none or one. -/
theorem cutCount_one {limit : Int64} (h : 0 ≤ cutCount limit 1) :
    cutCount limit 1 = 0 ∨ cutCount limit 1 = 1 := by
  unfold cutCount at h ⊢
  have hpos : ¬ (1 : Int64) < 0 := by decide
  rw [if_neg hpos] at h ⊢
  split at h
  · rename_i hlimit
    rw [if_pos hlimit]
    rw [Int64.le_iff_toInt_le] at h
    rw [Int64.lt_iff_toInt_lt] at hlimit
    have hone : (1 : Int64).toInt = 1 := rfl
    have hzero : (0 : Int64).toInt = 0 := rfl
    exact .inl (Int64.toInt_inj.mp (by omega))
  · rename_i hlimit
    exact .inr (if_neg hlimit)

/-- A limit of one element or more admits one. -/
theorem cutCount_one_of_le {limit : Int64} (h : 1 ≤ limit) : cutCount limit 1 = 1 := by
  have hpos : ¬ (1 : Int64) < 0 := by decide
  rw [cutCount, if_neg hpos, if_neg (Int64.not_lt.mpr h)]

/-- **A single integer counts one element**, as far as the limit admits it. -/
theorem Workspace.Counts.oneInt {ws : Workspace} {r : InstanceRef} {d : StructDef} {i : Nat}
    {f : Field} {t : IntType} {present : Bool} {c : Int64} (h : ws.Counts r d i f present c)
    (hone : f.OneInt t) (hnonneg : 0 ≤ c) :
    c = if present then cutCount ws.limits.maxElements 1 else 0 := by
  obtain ⟨n, hn, rfl⟩ := h
  cases hn with
  | absent hp =>
    rw [hp, if_neg Bool.false_ne_true]
    exact cutCount_zero hnonneg
  | literal hp _ => rw [hp, hone.literal.1, if_pos rfl]
  | fileSize _ hsource | named _ hsource _ =>
    rw [hone.literal.2] at hsource
    cases hsource

namespace Reading

variable {g : Reading} {t : IntType} {p : Array Element × Int64}

/-- Whatever has been counted has been read. -/
theorem readOn_of_counted (hone : g.field.OneInt t) (h : g.count ≤ Int64.ofNat p.1.size) (n : Nat) :
    g.readOn n p = p := by
  refine readOn_of_end ?_ n
  unfold hasNext Field.hasNext
  rw [hone.elements, if_neg Bool.false_ne_true, decide_eq_false (Int64.not_lt.mpr h)]
  rfl

/-- **The only element** is read once it is asked for. -/
theorem readOn_one (hone : g.field.OneInt t) (hcount : g.count = 1) (n : Nat) (next : Int64) :
    g.readOn (n + 1) (#[], next) =
      (#[g.next (#[], next)], next + Int64.ofNat g.type.size) := by
  have hnext : g.hasNext (#[], next) = true := by
    unfold hasNext Field.hasNext
    rw [hone.elements, if_neg Bool.false_ne_true, hcount]
    cases g.field.untilZero <;> rfl
  rw [readOn_succ hnext]
  exact readOn_of_counted hone (by rw [hcount]; exact Int64.le_refl 1) n

end Reading

/-- **Whether a text joins the previews of all elements that are counted.** -/
def FieldEntry.Shows (e : FieldEntry) (text : String) : Prop :=
  ∃ c, e.count = some c ∧ Int64.ofNat e.values.size = c ∧
    text = joinPreviews true (e.values.toList.map fun x => x.value.preview)

/-- **What is read of a single integer**: the element if it is counted, and nothing otherwise. The
limit may have cut its count to nothing. -/
structure FieldEntry.ReadsOne (e : FieldEntry) : Prop where
  count : ∀ c, e.count = some c → c = 0 ∨ e.present = true ∧ c = 1
  values : e.values = #[] ∨ e.count = some 1 ∧ ∃ o n, e.values = #[⟨o, .int n⟩]

/-- **What is kept of a single integer**: what is read of it, and its text. -/
structure FieldEntry.KeepsOne (e : FieldEntry) : Prop extends e.ReadsOne where
  preview : ∀ text, e.preview = some text → e.Shows text

/-! ## 5. Notes -/

/-- **What may be noted about a field** that is laid out. -/
inductive Workspace.Notes (ws : Workspace) (r : InstanceRef) (d : StructDef) (i : Nat) (f : Field)
    (e : FieldEntry) : FieldEntry → Prop where
  | nothing : Notes ws r d i f e e
  | offset (offset : Int64) : f.offsetFormula ≠ none →
    Notes ws r d i f e { e with offset := some offset }
  | value (value : Int64) : f.value.isSome → e.values = #[] →
    Notes ws r d i f e { e with values := #[⟨0, .int value⟩] }
  | preview {text : String} : e.present = true → (∀ t, f.OneInt t → e.Shows text) →
    Notes ws r d i f e { e with preview := some text }
  /-- A count that has been noted in the meantime is the same, if budgets are plain or the count
  refers to nothing. -/
  | count {c : Int64} : 0 ≤ c → (f.value = none → ws.Counts r d i f e.present c ∧
      (d.PlainBudgets ∨ f.countSource = .literal → ∀ c', e.count = some c' → c' = c)) →
    Notes ws r d i f e { e with count := some c }
  /-- Some elements are read on, with the count that is known or none. -/
  | elements {t : ScalarType} {start count : Int64} (left : Nat) : f.value = none →
    f.type = .scalar t → (f.offsetFormula = none → start = e.offset.getD 0) →
    (count = e.count.getD 0 ∨ count = 0) →
    Notes ws r d i f e { e with
      values := ((Reading.mk ws r.file f t count start).readOn left
        (e.values, e.nextElement.getD start)).1
      nextElement := some ((Reading.mk ws r.file f t count start).readOn left
        (e.values, e.nextElement.getD start)).2 }
  | total {total : Int64} : (∀ t, f.value = none → f.type = .scalar t → e.Occupies f t total) →
    Notes ws r d i f e { e with totalSize := some total }

namespace FieldEntry.Orderly

variable {f : Field} {t : ScalarType} {e : FieldEntry}

/-- Whether there is a next element depends on the count alone. -/
theorem hasNext_iff (h : e.Orderly f t) (hplain : f.countIsBytes = true → f.offsetFormula = none)
    (c : Int64) : f.hasNext (Int64.ofNat t.size) c (e.offset.getD 0)
      (e.nextElement.getD (e.offset.getD 0)) e.values = true ↔
        f.Admits (Int64.ofNat t.size) c e.values := by
  refine Field.hasNext_iff_admits fun hb => ?_
  cases hnext : e.nextElement with
  | none =>
    rw [h.unread hnext]
    simp
  | some next => exact h.inRow (hplain hb) next hnext

theorem exhausted_iff (h : e.Orderly f t) (hv : f.value = none) (ht : f.type = .scalar t)
    (hplain : f.countIsBytes = true → f.offsetFormula = none) :
    f.Exhausted e ↔ (e.offset.isSome ∨ f.offsetFormula = none) ∧ ∃ c, e.count = some c ∧
      ¬ f.Admits (Int64.ofNat t.size) c e.values := by
  rw [Field.Exhausted.iff_of_scalar hv ht]
  simp only [← h.hasNext_iff hplain, Bool.not_eq_true]

end FieldEntry.Orderly

namespace Workspace.Notes

variable {ws : Workspace} {r : InstanceRef} {d : StructDef} {i : Nat} {f : Field}
  {e e' : FieldEntry}

theorem present (h : ws.Notes r d i f e e') : e'.present = e.present := by
  cases h <;> rfl

/-- Elements that have been read stay. -/
theorem values (h : ws.Notes r d i f e e') : e.values.toList <+: e'.values.toList := by
  cases h with
  | value v hv he =>
    rw [he]
    exact List.nil_prefix
  | @elements t start c left =>
    exact Reading.prefix_readOn (g := ⟨ws, r.file, f, t, c, start⟩) left
      (e.values, e.nextElement.getD start)
  | _ => exact List.prefix_rfl

/-- **The entry stays in order.** -/
theorem orderly {t : ScalarType} (h : ws.Notes r d i f e e') (hv : f.value = none)
    (ht : f.type = .scalar t) (hplain : f.countIsBytes = true → f.offsetFormula = none)
    (hd : d.PlainBudgets) (he : e.Orderly f t) : e'.Orderly f t := by
  cases h with
  | nothing => exact he
  | offset _ hformula => exact ⟨he.unread, fun hn => absurd hn hformula, he.count, he.admitted⟩
  | value _ hsome _ =>
    rw [hv] at hsome
    cases hsome
  | preview _ _ => exact ⟨he.unread, he.inRow, he.count, he.admitted⟩
  | @count c hpos hcount =>
    refine ⟨he.unread, he.inRow, ?_, fun k hk => (he.admitted k hk).mono ?_⟩
    · rintro _ ⟨⟩
      exact hpos
    · show e.count.getD 0 ≤ c
      cases hc : e.count with
      | none => exact hpos
      | some c' => exact Int64.le_of_eq ((hcount hv).2 (.inl hd) c' hc)
  | @elements t' start c left _ ht' hstart hc =>
    rw [ht] at ht'
    cases ht'
    -- With the place known the elements read so far are in a row, however many there are.
    have hrow (hn : f.offsetFormula = none) :
        (Reading.mk ws r.file f t c start).InRow (e.values, e.nextElement.getD start) := by
      unfold Reading.InRow
      rw [hstart hn]
      cases hnext : e.nextElement with
      | none =>
        rw [he.unread hnext]
        simp
      | some next => exact he.inRow hn next hnext
    have hle : c ≤ e.count.getD 0 := by
      rcases hc with rfl | rfl
      · exact Int64.le_refl _
      · cases hcount : e.count with
        | none => exact Int64.le_refl _
        | some c' => exact he.count c' hcount
    refine ⟨fun hnone => (nomatch hnone), fun hn => ?_, he.count, ?_⟩
    · rintro _ ⟨⟩
      rw [← hstart hn]
      exact (hrow hn).readOn left
    · exact Reading.admits_readOn (g := Reading.mk ws r.file f t c start) hle
        (fun hb => hrow (hplain hb)) he.admitted left
  | total _ => exact ⟨he.unread, he.inRow, he.count, he.admitted⟩

/-- **What is known to be all there is** stays all there is. -/
theorem exhausted (h : ws.Notes r d i f e e') (hd : d.PlainBudgets)
    (hplain : f.value = none → f.type.scalar?.isSome → f.countIsBytes = true →
      f.offsetFormula = none)
    (he : ∀ t, f.value = none → f.type = .scalar t → e.Orderly f t) (hex : f.Exhausted e) :
    f.Exhausted e' ∧ e'.values = e.values := by
  cases hv : f.value with
  | some formula =>
    have hsome : f.value.isSome := by rw [hv]; rfl
    have hread := (Field.Exhausted.iff_of_value hsome).mp hex
    rw [Field.Exhausted.iff_of_value hsome]
    cases h with
    | value _ _ hempty => exact absurd hempty hread
    | elements _ hnone =>
      rw [hv] at hnone
      cases hnone
    | _ => exact ⟨hread, rfl⟩
  | none =>
    cases ht : f.type with
    | struct name =>
      refine ⟨.of_struct hv ht, ?_⟩
      cases h with
      | value _ hsome _ =>
        rw [hv] at hsome
        cases hsome
      | elements _ _ hscalar =>
        rw [ht] at hscalar
        cases hscalar
      | _ => rfl
    | scalar t =>
      have hbudget := hplain hv (by rw [ht]; rfl)
      have horder := he t hv ht
      have horder' := h.orderly hv ht hbudget hd horder
      rw [horder'.exhausted_iff hv ht hbudget]
      obtain ⟨hplace, c, hc, hend⟩ := (horder.exhausted_iff hv ht hbudget).mp hex
      cases h with
      | offset _ _ => exact ⟨⟨.inl rfl, c, hc, hend⟩, rfl⟩
      | value _ hsome _ =>
        rw [hv] at hsome
        cases hsome
      | count _ hcount =>
        obtain rfl := (hcount hv).2 (.inl hd) c hc
        exact ⟨⟨hplace, c, rfl, hend⟩, rfl⟩
      | @elements t' start c' left _ ht' hstart hc' =>
        rw [ht] at ht'
        cases ht'
        have hle : c' ≤ c := by
          rcases hc' with rfl | rfl
          · rw [hc]
            exact Int64.le_refl _
          · exact horder.count c hc
        have hstop : (Reading.mk ws r.file f t c' start).hasNext
            (e.values, e.nextElement.getD start) = false := by
          refine Bool.eq_false_iff.mpr fun hnext => hend (Field.Admits.mono ?_ hle)
          refine (Field.hasNext_iff_admits fun hb => ?_).mp hnext
          rw [hstart (hbudget hb)]
          cases hn : e.nextElement with
          | none =>
            rw [horder.unread hn]
            simp
          | some next => exact horder.inRow (hbudget hb) next hn
        rw [Reading.readOn_of_end hstop]
        exact ⟨⟨hplace, c, hc, hend⟩, rfl⟩
      | _ => exact ⟨⟨hplace, c, hc, hend⟩, rfl⟩

/-- **What the first element is known to tell** stays known. -/
theorem tells (h : ws.Notes r d i f e e') (hd : d.PlainBudgets)
    (hplain : f.value = none → f.type.scalar?.isSome → f.countIsBytes = true →
      f.offsetFormula = none)
    (he : ∀ t, f.value = none → f.type = .scalar t → e.Orderly f t) {v : Int64}
    (ht : e.Tells f v) : e'.Tells f v := by
  obtain ⟨hknown, rfl⟩ := ht
  by_cases hsome : 0 < e.values.size
  · obtain ⟨rest, hrest⟩ := h.values
    have hlt : 0 < e.values.toList.length := by simpa using hsome
    have hsize : 0 < e'.values.size := by
      rw [← Array.length_toList, ← hrest, List.length_append]
      omega
    refine ⟨.inl hsize, ?_⟩
    rw [← Array.getElem?_toList, ← Array.getElem?_toList, ← hrest, List.getElem?_append_left hlt]
  · obtain ⟨hex, hvalues⟩ := h.exhausted hd hplain he (hknown.resolve_left hsome)
    exact ⟨.inr hex, by rw [hvalues]⟩

/-- The room that is known stays right. -/
theorem occupies {t : ScalarType} (h : ws.Notes r d i f e e') (hv : f.value = none)
    (ht : f.type = .scalar t) (hplain : f.countIsBytes = true → f.offsetFormula = none)
    (hd : d.PlainBudgets) (he : e.Orderly f t)
    (htotal : ∀ total, e.totalSize = some total → e.Occupies f t total) :
    ∀ total, e'.totalSize = some total → e'.Occupies f t total := by
  have hex := h.exhausted hd (fun _ _ => hplain) fun t' _ ht' => by
    rw [ht] at ht'
    cases ht'
    exact he
  have hsame (hvalues : f.untilZero = false ∨ e'.values = e.values) (size c : Int64) :
      f.occupied size c e'.values = f.occupied size c e.values := by
    rcases hvalues with hno | heq
    · unfold Field.occupied
      rw [hno]
      rfl
    · rw [heq]
  have hkeep (hcount : ∀ c, e.count = some c → e'.count = some c) {total : Int64}
      (ho : e.Occupies f t total) : e'.Occupies f t total := by
    obtain ⟨c, hc, hall, rfl⟩ := ho
    refine ⟨c, hcount c hc, fun huntil => (hex (hall huntil)).1, ?_⟩
    rw [hsame]
    cases huntil : f.untilZero with
    | false => exact .inl rfl
    | true => exact .inr (hex (hall huntil)).2
  intro total hsome
  cases h with
  | count _ hcount =>
    refine hkeep (fun c hc => ?_) (htotal total hsome)
    obtain rfl := (hcount hv).2 (.inl hd) c hc
    rfl
  | total hnew =>
    cases hsome
    obtain ⟨c, hc, hall, heq⟩ := hnew t hv ht
    exact ⟨c, hc, fun huntil => (hex (hall huntil)).1, heq⟩
  | _ => exact hkeep (fun c hc => hc) (htotal total hsome)

/-- In a field that is not present no elements are counted. -/
theorem absent (h : ws.Notes r d i f e e') (hv : f.value = none) (habsent : e'.present = false)
    (he : e.present = false → ∀ c, e.count = some c → c = 0) : ∀ c, e'.count = some c → c = 0 := by
  rw [h.present] at habsent
  cases h with
  | count hnonneg hcounts =>
    rintro _ ⟨⟩
    obtain ⟨⟨n, hn, rfl⟩, _⟩ := hcounts hv
    cases hn with
    | absent _ => exact cutCount_zero hnonneg
    | literal hp _ | fileSize hp _ | named hp _ _ =>
      rw [habsent] at hp
      cases hp
  | _ => exact he habsent

/-- **What is kept of a single integer** stays what it is. -/
theorem keepsOne {t : IntType} (h : ws.Notes r d i f e e') (hone : f.OneInt t) (he : e.KeepsOne) :
    e'.KeepsOne := by
  cases h with
  | nothing => exact he
  | offset _ _ | total _ => exact ⟨⟨he.count, he.values⟩, he.preview⟩
  | value _ hsome _ =>
    rw [hone.value] at hsome
    cases hsome
  | preview _ hshows =>
    refine ⟨⟨he.count, he.values⟩, ?_⟩
    rintro _ ⟨⟩
    exact hshows t hone
  | @count c hnonneg hcounts =>
    obtain ⟨hc, hsame⟩ := hcounts hone.value
    cases hcount : e.count with
    | some c' =>
      obtain rfl := hsame (.inr hone.literal.2) c' hcount
      rwa [← hcount]
    | none =>
      -- Without a count nothing has been read or shown.
      have hempty : e.values = #[] := he.values.resolve_right fun hread => by
        rw [hcount] at hread
        cases hread.1
      refine ⟨⟨?_, .inl hempty⟩, fun text ht => ?_⟩
      · rintro _ ⟨⟩
        have hc := hc.oneInt hone hnonneg
        cases hp : e.present with
        | false => exact .inl (by rw [hc, hp]; rfl)
        | true =>
          rw [hp, if_pos rfl] at hc
          subst hc
          exact (cutCount_one hnonneg).imp_right fun h => ⟨rfl, h⟩
      · obtain ⟨c', hc', _⟩ := he.preview text ht
        rw [hcount] at hc'
        cases hc'
  | @elements t' start c left _ ht' _ hc =>
    obtain rfl : t' = .int t := ElementType.scalar.inj (ht'.symm.trans hone.type)
    have hall (hle : c ≤ Int64.ofNat e.values.size) :
        ((Reading.mk ws r.file f (.int t) c start).readOn left
          (e.values, e.nextElement.getD start)).1 = e.values :=
      congrArg Prod.fst (Reading.readOn_of_counted (g := ⟨ws, r.file, f, .int t, c, start⟩)
        (p := (e.values, e.nextElement.getD start)) hone hle left)
    have hkept (hle : c ≤ Int64.ofNat e.values.size) : FieldEntry.KeepsOne { e with
        values := ((Reading.mk ws r.file f (.int t) c start).readOn left
          (e.values, e.nextElement.getD start)).1
        nextElement := some ((Reading.mk ws r.file f (.int t) c start).readOn left
          (e.values, e.nextElement.getD start)).2 } := by
      rw [hall hle]
      exact ⟨⟨he.count, he.values⟩, he.preview⟩
    rcases he.values with hempty | ⟨hcount, o, n, hvalues⟩
    · by_cases hzero : c = 0
      · exact hkept (by rw [hzero, hempty]; exact Int64.le_refl 0)
      · -- The element is counted, so it is read now, and has not been shown before.
        have hsome : e.count = some c := by
          rcases hc with rfl | rfl
          · cases hcount : e.count with
            | none => rw [hcount] at hzero; exact absurd rfl hzero
            | some _ => rfl
          · exact absurd rfl hzero
        obtain ⟨hpresent, rfl⟩ := (he.count c hsome).resolve_left hzero
        cases left with
        | zero => exact ⟨⟨he.count, .inl hempty⟩, he.preview⟩
        | succ left =>
          have hread := Reading.readOn_one (g := ⟨ws, r.file, f, .int t, 1, start⟩) hone rfl left
            (e.nextElement.getD start)
          rw [hempty, hread]
          refine ⟨⟨he.count, .inr ⟨hsome, _, _, rfl⟩⟩, fun text htext => ?_⟩
          obtain ⟨c', hc', hsize, _⟩ := he.preview text htext
          rw [hsome] at hc'
          cases hc'
          rw [hempty] at hsize
          exact absurd hsize (by decide)
    · have hle : c ≤ Int64.ofNat e.values.size := by
        rw [hvalues]
        show c ≤ 1
        rcases hc with rfl | rfl
        · rw [hcount]
          exact Int64.le_refl 1
        · decide
      exact hkept hle

end Workspace.Notes

end ByteAtlas
