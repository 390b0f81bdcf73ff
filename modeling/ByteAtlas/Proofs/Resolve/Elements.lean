import ByteAtlas.Resolve.Fields

/-!
# Reading elements in parts

The elements of a field are read a few at a time, in whatever order they are asked for. How far they
have been read does not matter: reading on from the first elements gives the first elements, more of
them (`Reading.first_add`). A field that ends at a zero ends within the file, so reading all of it
gives the same from everywhere (`Reading.first_add_of_untilZero`).
-/

namespace ByteAtlas

/-- No bytes are a zero. -/
theorem Scalar.toInt_decode_nil (t : ScalarType) : (decode t []).toInt = 0 := by
  cases t with
  | pad => rfl
  | char => decide
  | int t => cases t <;> decide
  | f32 => decide +kernel
  | f64 => decide +kernel

theorem ScalarType.size_le (t : ScalarType) : t.size ≤ 8 := by
  cases t with
  | int t => cases t <;> decide
  | pad | char | f32 | f64 => decide

/-- What the elements of a field are read from. -/
structure Reading where
  ws : Workspace
  file : FileId
  field : Field
  type : ScalarType
  count : Int64
  start : Int64

namespace Reading

variable (g : Reading)

/-! ## 1. First elements -/

/-- The elements after those read so far. A pair holds the elements and where the next one is. -/
def readOn (n : Nat) (p : Array Element × Int64) : Array Element × Int64 :=
  g.ws.readElements g.file g.field g.type g.count g.start n p.2 p.1

/-- The first elements, at most so many. -/
def first (n : Nat) : Array Element × Int64 := g.readOn n (#[], g.start)

/-- Whether there is an element after those read so far. -/
def hasNext (p : Array Element × Int64) : Bool :=
  g.field.hasNext (Int64.ofNat g.type.size) g.count g.start p.2 p.1

/-- The next element. -/
def next (p : Array Element × Int64) : Element :=
  ⟨p.2, Scalar.decode g.type (g.ws.read g.file p.2 g.type.size)⟩

/-- The elements with the next one. -/
def advance (p : Array Element × Int64) : Array Element × Int64 :=
  (p.1.push (g.next p), p.2 + Int64.ofNat g.type.size)

variable {g} {p : Array Element × Int64}

theorem readOn_zero : g.readOn 0 p = p := rfl

theorem readOn_of_end (h : g.hasNext p = false) (n : Nat) : g.readOn n p = p := by
  cases n with
  | zero => rfl
  | succ n =>
    unfold hasNext at h
    unfold readOn
    rw [Workspace.readElements, h, if_neg Bool.false_ne_true]

theorem readOn_succ (h : g.hasNext p = true) (n : Nat) :
    g.readOn (n + 1) p = g.readOn n (g.advance p) := by
  unfold hasNext at h
  unfold readOn
  rw [Workspace.readElements, h, if_pos rfl]
  rfl

/-- **Reading in two parts.** -/
theorem readOn_add (m n : Nat) (p : Array Element × Int64) :
    g.readOn (m + n) p = g.readOn n (g.readOn m p) := by
  induction m generalizing p with
  | zero => rw [Nat.zero_add, readOn_zero]
  | succ m ih =>
    cases h : g.hasNext p with
    | false => rw [readOn_of_end h, readOn_of_end h, readOn_of_end h]
    | true => rw [Nat.add_right_comm, readOn_succ h, readOn_succ h, ih]

theorem size_le_readOn (n : Nat) (p : Array Element × Int64) :
    (g.readOn n p).1.size ≤ p.1.size + n := by
  induction n generalizing p with
  | zero => exact Nat.le_refl _
  | succ n ih =>
    cases h : g.hasNext p with
    | false =>
      rw [readOn_of_end h]
      exact Nat.le_add_right _ _
    | true =>
      have hle := ih (g.advance p)
      rw [advance, Array.size_push] at hle
      rw [readOn_succ h, advance]
      omega

/-- What is there stays there. -/
theorem prefix_readOn (n : Nat) (p : Array Element × Int64) :
    p.1.toList <+: (g.readOn n p).1.toList := by
  induction n generalizing p with
  | zero => exact List.prefix_rfl
  | succ n ih =>
    cases h : g.hasNext p with
    | false =>
      have hsame : (g.readOn (n + 1) p).1 = p.1 := congrArg Prod.fst (readOn_of_end h (n + 1))
      exact hsame.symm ▸ List.prefix_rfl
    | true =>
      rw [readOn_succ h]
      refine .trans ?_ (ih (g.advance p))
      rw [advance, Array.toList_push]
      exact List.prefix_append _ _

/-- Less than what was asked for is all there is. -/
theorem hasNext_of_size_lt {n : Nat} (p : Array Element × Int64)
    (h : (g.readOn n p).1.size < p.1.size + n) : g.hasNext (g.readOn n p) = false := by
  induction n generalizing p with
  | zero => exact absurd h (Nat.lt_irrefl _)
  | succ n ih =>
    cases hnext : g.hasNext p with
    | false =>
      rw [readOn_of_end hnext]
      exact hnext
    | true =>
      rw [readOn_succ hnext] at h ⊢
      refine ih _ ?_
      rw [advance, Array.size_push] at *
      omega

/-- What has been read is what reading so many gives. -/
theorem readOn_size (n : Nat) (p : Array Element × Int64) :
    g.readOn ((g.readOn n p).1.size - p.1.size) p = g.readOn n p := by
  induction n generalizing p with
  | zero => rw [readOn_zero, Nat.sub_self, readOn_zero]
  | succ n ih =>
    cases h : g.hasNext p with
    | false => rw [readOn_of_end h, readOn_of_end h]
    | true =>
      have hle := (prefix_readOn (g := g) n (g.advance p)).length_le
      have hrest := ih (g.advance p)
      rw [readOn_succ h n]
      have hsize : (g.advance p).1.size = p.1.size + 1 := Array.size_push _
      rw [Array.length_toList, Array.length_toList, hsize] at hle
      rw [hsize] at hrest
      obtain ⟨k, hk⟩ := Nat.exists_eq_add_of_le hle
      rw [hk, Nat.add_sub_cancel_left] at hrest
      rw [hk, Nat.add_assoc, Nat.add_sub_cancel_left, Nat.add_comm, readOn_succ h, hrest]

/-- **Reading on from the first elements** gives the first elements. -/
theorem first_add (m n : Nat) : g.first (m + n) = g.readOn n (g.first m) :=
  readOn_add m n _

theorem first_size (n : Nat) : g.first (g.first n).1.size = g.first n := by
  have hsize := readOn_size (g := g) n (#[], g.start)
  rw [Array.size_empty, Nat.sub_zero] at hsize
  exact hsize

/-- If there are fewer elements than asked for, no more are found. -/
theorem first_add_of_size_lt {m : Nat} (h : (g.first m).1.size < m) (n : Nat) :
    g.first (m + n) = g.first m := by
  rw [first_add]
  refine readOn_of_end (hasNext_of_size_lt _ ?_) n
  rw [Array.size_empty, Nat.zero_add]
  exact h

/-- **An element is the same**, however many are read after it. -/
theorem getElem?_first {n k : Nat} (h : n < k) :
    (g.first k).1[n]? = (g.first (n + 1)).1[n]? := by
  obtain ⟨j, rfl⟩ := Nat.exists_eq_add_of_le (Nat.succ_le_of_lt h)
  by_cases hlt : (g.first (n + 1)).1.size < n + 1
  · rw [first_add_of_size_lt hlt]
  · have hn : n < (g.first (n + 1)).1.toList.length := by
      rw [Array.length_toList]
      exact Nat.lt_of_not_le (fun hle => hlt (Nat.lt_succ_of_le hle))
    obtain ⟨rest, hrest⟩ := prefix_readOn (g := g) j (g.first (n + 1))
    rw [first_add, ← Array.getElem?_toList, ← Array.getElem?_toList, ← hrest,
      List.getElem?_append_left hn]

/-! ## 2. Fields that end at a zero -/

/-- Where nothing can be read there is a zero. -/
theorem toInt_next_of_nil (h : g.ws.read g.file p.2 g.type.size = []) :
    (g.next p).value.toInt = 0 := by
  rw [next, h]
  exact Scalar.toInt_decode_nil g.type

/-- An element that is not zero lies within the file. -/
theorem within_of_toInt_ne (h : (g.next p).value.toInt ≠ 0) :
    0 ≤ p.2.toInt ∧ p.2.toInt < g.ws.fileSize g.file := by
  have hread : g.ws.read g.file p.2 g.type.size ≠ [] := fun hnil => h (toInt_next_of_nil hnil)
  unfold Workspace.read at hread
  unfold Workspace.fileSize
  cases hs : g.ws.file? g.file with
  | none =>
    rw [hs] at hread
    exact absurd rfl hread
  | some s =>
    rw [hs] at hread
    dsimp only at hread ⊢
    by_cases hneg : p.2 < 0
    · rw [if_pos hneg] at hread
      exact absurd rfl hread
    · rw [if_neg hneg] at hread
      have hpos : 0 ≤ p.2.toInt := Int64.le_iff_toInt_le.mp (Int64.not_lt.mp hneg)
      have hlt : p.2.toInt.toNat < s.size := Nat.lt_of_not_le fun hle =>
        hread (Source.read_of_size_le hle _)
      omega

/-- The last element before another one is not zero. -/
theorem toInt_ne_of_hasNext (huntil : g.field.untilZero = true)
    (h : g.hasNext (g.advance p) = true) : (g.next p).value.toInt ≠ 0 := by
  unfold hasNext Field.hasNext at h
  rw [huntil, Bool.and_eq_true, Bool.true_and, Bool.not_eq_true'] at h
  intro hzero
  have hback : (g.advance p).1.back? = some (g.next p) := Array.back?_push
  rw [hback, Option.any_some, hzero] at h
  exact nomatch h.2

/-- The next offset lies behind the last one, unless it is past the largest one there is. -/
theorem lt_toInt_advance (hpos : 0 ≤ p.2.toInt) (hpos' : 0 ≤ (g.advance p).2.toInt) :
    p.2.toInt < (g.advance p).2.toInt := by
  have hsize : g.type.size ≤ 8 := g.type.size_le
  have hsize' : 0 < g.type.size := g.type.size_pos
  have hlt := p.2.toInt_lt
  have hof : (Int64.ofNat g.type.size).toInt = g.type.size :=
    Int64.toInt_ofNat_of_lt (by omega)
  have hadd : (g.advance p).2.toInt = (p.2.toInt + g.type.size).bmod (2 ^ 64) := by
    rw [advance, Int64.toInt_add, hof]
  rw [hadd] at hpos' ⊢
  rw [Int.bmod_def] at hpos' ⊢
  omega

/-- **As long as elements are read one after the other**, each lies within the file and behind the
one before it. -/
theorem toInt_add_lt_of_hasNext (huntil : g.field.untilZero = true) {n : Nat}
    {p : Array Element × Int64} (hsize : (g.readOn (n + 1) p).1.size = p.1.size + (n + 1))
    (hnext : g.hasNext (g.readOn (n + 1) p) = true) :
    0 ≤ p.2.toInt ∧ p.2.toInt + n < g.ws.fileSize g.file := by
  have hp : g.hasNext p = true := by
    cases h : g.hasNext p with
    | true => rfl
    | false =>
      rw [readOn_of_end h] at hsize
      omega
  rw [readOn_succ hp] at hsize hnext
  induction n generalizing p with
  | zero =>
    obtain ⟨hpos, hlt⟩ := within_of_toInt_ne (toInt_ne_of_hasNext huntil hnext)
    exact ⟨hpos, by omega⟩
  | succ n ih =>
    have hadvance : (g.advance p).1.size = p.1.size + 1 := Array.size_push _
    have hp' : g.hasNext (g.advance p) = true := by
      cases h : g.hasNext (g.advance p) with
      | true => rfl
      | false =>
        rw [readOn_of_end h, hadvance] at hsize
        omega
    obtain ⟨hpos, _⟩ := within_of_toInt_ne (toInt_ne_of_hasNext huntil hp')
    rw [readOn_succ hp'] at hsize hnext
    obtain ⟨hpos', hlt⟩ := ih (by omega) hnext hp'
    have hup := lt_toInt_advance hpos hpos'
    exact ⟨hpos, by omega⟩

/-- **A field that ends at a zero** has no more elements once it has been read on by as many as the
file has bytes, and one more. -/
theorem hasNext_readOn_of_untilZero (huntil : g.field.untilZero = true)
    (p : Array Element × Int64) : g.hasNext (g.readOn (g.ws.fileSize g.file + 1) p) = false := by
  by_cases hlt : (g.readOn (g.ws.fileSize g.file + 1) p).1.size <
      p.1.size + (g.ws.fileSize g.file + 1)
  · exact hasNext_of_size_lt p hlt
  · refine Bool.eq_false_iff.mpr fun hnext => ?_
    have hle := size_le_readOn (g := g) (g.ws.fileSize g.file + 1) p
    obtain ⟨hpos, hend⟩ := toInt_add_lt_of_hasNext huntil (by omega) hnext
    omega

/-- So the first elements are all there are. -/
theorem first_add_of_untilZero (huntil : g.field.untilZero = true) (n : Nat) :
    g.first (g.ws.fileSize g.file + 1 + n) = g.first (g.ws.fileSize g.file + 1) := by
  rw [first_add]
  exact readOn_of_end (hasNext_readOn_of_untilZero huntil _) n

end Reading

end ByteAtlas
