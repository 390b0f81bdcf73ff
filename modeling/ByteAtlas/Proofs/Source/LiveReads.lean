import ByteAtlas.Source.Basic

/-!
# Reads of live files

A file is read by one call after the other until the buffer is full or the file ends, and its
content may be another one at each call (`fillFrom`). Its size is the one it was opened with. A read
starts below that size, but a file that has grown gives bytes past it; a buffer never does
(`DataSource.read_within`). While the content stays the same, `Source.read` is what is read
(`Source.read_dataSource`).
-/

namespace ByteAtlas

variable {ε : Type}

/-! ## 1. One call after the other -/

/-- How a file answers one call: with an error, or out of the content that it has just then. A call
gives one byte at least, unless the file ends there, and at most so many more. -/
inductive FileAnswer (ε : Type) where
  | fault (error : ε)
  | content (bytes : Bytes) (more : Nat)

/-- What a file does while it is read: whether it takes the offset, and how it answers each call. -/
structure Serving (ε : Type) where
  seek : Except ε Unit
  answer : Nat → FileAnswer ε

/-- A buffer after a read, and how many bytes were read into it. -/
structure Received (ε : Type) where
  buffer : List UInt8
  result : Except ε Nat

/-- The bytes that a call gives for a buffer. -/
def given (content : Bytes) (more offset room : Nat) : List UInt8 :=
  content.read offset (min (more + 1) room)

/-- A call gives no more than there is room for, and nothing that is not in the content. -/
theorem length_given_le (content : Bytes) (more offset room : Nat) :
    (given content more offset room).length ≤ room ∧
      (given content more offset room ≠ [] →
        offset + (given content more offset room).length ≤ content.size) := by
  have hlength := content.length_read offset (min (more + 1) room)
  unfold given
  refine ⟨by omega, fun hne => ?_⟩
  have hpos := List.length_pos_iff.mpr hne
  omega

/-- What has been received if some bytes were read before it. -/
def Received.after (front : List UInt8) (r : Received ε) : Received ε :=
  ⟨front ++ r.buffer, r.result.map (front.length + ·)⟩

/-- **Fills a buffer from an offset on**, with the calls from the `round`th on. What has been read
stays in the buffer if a later call fails. -/
def fillFrom (answer : Nat → FileAnswer ε) (round offset : Nat) : List UInt8 → Received ε
  | [] => ⟨[], .ok 0⟩
  | x :: rest =>
    match answer round with
    | .fault error => ⟨x :: rest, .error error⟩
    | .content content more =>
      match given content more offset (rest.length + 1) with
      | [] => ⟨x :: rest, .ok 0⟩
      | b :: bytes =>
        (fillFrom answer (round + 1) (offset + (bytes.length + 1)) (rest.drop bytes.length)).after
          (b :: bytes)
termination_by buffer => buffer.length
decreasing_by
  simp only [List.length_drop, List.length_cons]
  omega

/-- **What a number of read bytes tells**: they fit into the buffer, and the last of them was in the
content that the file had at some call. -/
structure Served (answer : Nat → FileAnswer ε) (offset room count : Nat) : Prop where
  fits : count ≤ room
  inContent : 0 < count →
    ∃ round content more, answer round = .content content more ∧ offset + count ≤ content.size

variable {answer : Nat → FileAnswer ε}

theorem Served.none (offset room : Nat) : Served answer offset room 0 :=
  ⟨Nat.zero_le room, fun h => nomatch h⟩

/-- One call more. -/
theorem Served.after {content : Bytes} {more round offset room count : Nat} {b : UInt8}
    {bytes : List UInt8} (hanswer : answer round = .content content more)
    (hgiven : given content more offset room = b :: bytes)
    (h : Served answer (offset + (bytes.length + 1)) (room - (bytes.length + 1)) count) :
    Served answer offset room (bytes.length + 1 + count) := by
  obtain ⟨hroom, hcontent⟩ := length_given_le content more offset room
  rw [hgiven] at hroom hcontent
  have hroom : bytes.length + 1 ≤ room := hroom
  have hcontent : offset + (bytes.length + 1) ≤ content.size := hcontent (List.cons_ne_nil b bytes)
  refine ⟨by have := h.fits; omega, fun _ => ?_⟩
  rcases Nat.eq_zero_or_pos count with rfl | hpos
  · exact ⟨round, content, more, hanswer, hcontent⟩
  · obtain ⟨round, content', more', hanswer', hend⟩ := h.inContent hpos
    exact ⟨round, content', more', hanswer', by omega⟩

/-- **A whole read**, by induction on its calls: the buffer keeps its length, and what is read was
in the file. -/
theorem fillFrom_served (answer : Nat → FileAnswer ε) (round offset : Nat) (buffer : List UInt8) :
    (fillFrom answer round offset buffer).buffer.length = buffer.length ∧
      ∀ count, (fillFrom answer round offset buffer).result = .ok count →
        Served answer offset buffer.length count := by
  induction round, offset, buffer using fillFrom.induct answer with
  | case1 round offset =>
    rw [fillFrom]
    exact ⟨rfl, fun count h => Except.ok.inj h ▸ .none _ _⟩
  | case2 round offset x rest error hanswer =>
    rw [fillFrom, hanswer]
    exact ⟨rfl, fun count h => nomatch h⟩
  | case3 round offset x rest content more hanswer hgiven =>
    rw [fillFrom, hanswer]
    simp only [hgiven]
    exact ⟨trivial, fun count h => Except.ok.inj h ▸ .none _ _⟩
  | case4 round offset x rest content more hanswer b bytes hgiven ih =>
    have hroom := (length_given_le content more offset (rest.length + 1)).1
    rw [hgiven, List.length_cons] at hroom
    rw [fillFrom, hanswer]
    simp only [hgiven]
    generalize fillFrom answer (round + 1) (offset + (bytes.length + 1)) (rest.drop bytes.length) = r
      at ih ⊢
    obtain ⟨hlength, hserved⟩ := ih
    rw [List.length_drop] at hlength hserved
    constructor
    · simp only [Received.after, List.length_append, List.length_cons, hlength]
      omega
    · intro count hcount
      cases hresult : r.result with
      | error e =>
        rw [Received.after, hresult] at hcount
        cases hcount
      | ok more =>
        rw [Received.after, hresult] at hcount
        cases hcount
        have hmore := hserved more hresult
        rw [← Nat.add_sub_add_right rest.length 1 bytes.length] at hmore
        exact hmore.after hanswer hgiven

theorem Bytes.read_eq_take (content : Bytes) (offset length : Nat) :
    content.read offset length = (content.toList.drop offset).take length := by
  rw [Bytes.read, Array.toList_extract, List.extract_eq_take_drop, Nat.add_sub_cancel_left]

/-- What is read of some bytes and what is read behind it make up what is read of them all. -/
theorem Bytes.read_append (content : Bytes) (offset : Nat) {length room : Nat}
    (hroom : length ≤ room) :
    content.read offset length ++
        content.read (offset + (content.read offset length).length)
          (room - (content.read offset length).length) = content.read offset room := by
  have hle := content.length_read_le offset length
  have hlength : (content.read offset length).length = min length (content.toList.length - offset) :=
    content.length_read offset length
  have hsame : content.read offset length =
      (content.toList.drop offset).take (content.read offset length).length := by
    rw [read_eq_take content offset length, List.take_eq_take_iff, ← read_eq_take, hlength,
      List.length_drop]
    omega
  calc content.read offset length ++ _
      = (content.toList.drop offset).take (content.read offset length).length ++
          ((content.toList.drop offset).drop (content.read offset length).length).take
            (room - (content.read offset length).length) := by
        rw [← hsame, List.drop_drop, ← read_eq_take]
    _ = (content.toList.drop offset).take
          ((content.read offset length).length + (room - (content.read offset length).length)) :=
        List.take_add.symm
    _ = content.read offset room := by
        rw [read_eq_take content offset room, Nat.add_sub_cancel' (Nat.le_trans hle hroom)]

/-- **A file whose content stays the same gives what is there**, however its calls divide it up. -/
theorem fillFrom_steady {content : Bytes} (hsteady : ∀ k, ∃ more, answer k = .content content more)
    (round offset : Nat) (buffer : List UInt8) :
    fillFrom answer round offset buffer =
      ⟨content.read offset buffer.length ++ buffer.drop (content.read offset buffer.length).length,
        .ok (content.read offset buffer.length).length⟩ := by
  induction round, offset, buffer using fillFrom.induct answer with
  | case1 round offset =>
    rw [fillFrom, List.length_nil, Bytes.read_eq_take, List.take_zero]
    rfl
  | case2 round offset x rest error hanswer =>
    obtain ⟨more, hmore⟩ := hsteady round
    cases hanswer.symm.trans hmore
  | case3 round offset x rest content' more hanswer hgiven =>
    obtain ⟨more, hmore⟩ := hsteady round
    cases hanswer.symm.trans hmore
    rw [fillFrom, hanswer]
    simp only [hgiven]
    have hlength := content.length_read offset (min (more + 1) (rest.length + 1))
    rw [given] at hgiven
    rw [hgiven, List.length_nil] at hlength
    have hnone : content.read offset (x :: rest).length = [] := by
      apply List.length_eq_zero_iff.mp
      rw [Bytes.length_read, List.length_cons]
      omega
    rw [hnone]
    rfl
  | case4 round offset x rest content' more hanswer b bytes hgiven ih =>
    obtain ⟨more, hmore⟩ := hsteady round
    cases hanswer.symm.trans hmore
    rw [fillFrom, hanswer]
    simp only [hgiven]
    have hwhole : (b :: bytes) ++ content.read (offset + (bytes.length + 1))
        (rest.drop bytes.length).length = content.read offset (rest.length + 1) := by
      have hroom : min (more + 1) (rest.length + 1) ≤ rest.length + 1 := Nat.min_le_right _ _
      have h := Bytes.read_append content offset hroom
      rw [given] at hgiven
      rw [hgiven, List.length_cons, Nat.add_sub_add_right, ← List.length_drop] at h
      exact h
    rw [ih, Received.after, List.length_cons, List.length_cons, ← hwhole]
    have hdrop (n : Nat) :
        (x :: rest).drop (bytes.length + 1 + n) = (rest.drop bytes.length).drop n := by
      rw [List.drop_drop, Nat.add_right_comm, List.drop_succ_cons]
    rw [List.length_append, List.length_cons, hdrop, List.append_assoc]
    rfl

/-! ## 2. The sources -/

/-- **The sources there are**: buffers, files with the size that they were opened with, and what a
pointer leads to. -/
inductive DataSource where
  | buffer (content : Bytes)
  | file (size : Nat)
  | pointer (source : DataSource)

namespace DataSource

/-- The announced size. -/
def size : DataSource → Nat
  | buffer content => content.size
  | file size => size
  | pointer source => source.size

/-- Whether the bytes are on a disk, where they may change. -/
def isLive : DataSource → Bool
  | buffer _ => false
  | file _ => true
  | pointer source => source.isLive

/-- **Reads from an offset on into a buffer.** -/
def read (serving : Serving ε) (offset : Nat) (into : List UInt8) : DataSource → Received ε
  | buffer content =>
    let bytes := content.read offset into.length
    ⟨bytes ++ into.drop bytes.length, .ok bytes.length⟩
  | file size =>
    if size ≤ offset then ⟨into, .ok 0⟩
    else
      match serving.seek with
      | .error error => ⟨into, .error error⟩
      | .ok () => fillFrom serving.answer 0 offset into
  | pointer source => source.read serving offset into

/-- **The same with zeros in the rest of the buffer**, and in all of it after an error. Also gives
the number of bytes read. -/
def readZeroFilled (serving : Serving ε) (offset : Nat) (into : List UInt8) (source : DataSource) :
    List UInt8 × Nat :=
  let r := source.read serving offset into
  let count :=
    match r.result with
    | .ok count => min count into.length
    | .error _ => 0
  (r.buffer.take count ++ List.replicate (r.buffer.length - count) 0, count)

end DataSource

/-! ## 3. Contents that stay the same -/

/-- An open source, with its content left to the disk if it is a file. -/
def Source.dataSource (s : Source) : DataSource :=
  match s.handle with
  | none => .buffer s.content
  | some _ => .file s.size

/-- **While its content stays the same, a source reads what `Source.read` says.** -/
theorem Source.read_dataSource {s : Source} (hsize : s.handle = none → s.size = s.content.size)
    {serving : Serving ε} (hseek : serving.seek = .ok ())
    (hsteady : ∀ k, ∃ more, serving.answer k = .content s.content more) (offset : Nat)
    (into : List UInt8) :
    s.dataSource.read serving offset into =
      ⟨s.read offset into.length ++ into.drop (s.read offset into.length).length,
        .ok (s.read offset into.length).length⟩ := by
  unfold Source.dataSource Source.read
  cases hhandle : s.handle with
  | none =>
    simp only [DataSource.read]
    split
    · rfl
    · rename_i hoffset
      rw [hsize hhandle] at hoffset
      have hnone : s.content.read offset into.length = [] := by
        apply List.length_eq_zero_iff.mp
        rw [Bytes.length_read]
        omega
      rw [hnone]
  | some handle =>
    simp only [DataSource.read]
    by_cases hoffset : offset < s.size
    · rw [if_pos hoffset, if_neg (Nat.not_le_of_lt hoffset), hseek]
      exact fillFrom_steady hsteady 0 offset into
    · rw [if_neg hoffset, if_pos (Nat.le_of_not_lt hoffset)]
      rfl

/-- The same with zeros in the rest of the buffer. -/
theorem Source.readZeroFilled_dataSource {s : Source}
    (hsize : s.handle = none → s.size = s.content.size) {serving : Serving ε}
    (hseek : serving.seek = .ok ())
    (hsteady : ∀ k, ∃ more, serving.answer k = .content s.content more) (offset : Nat)
    (into : List UInt8) :
    s.dataSource.readZeroFilled serving offset into =
      (zeroFilled into.length (s.read offset into.length), (s.read offset into.length).length) := by
  have hle := s.length_read_le offset into.length
  simp only [DataSource.readZeroFilled, Source.read_dataSource hsize hseek hsteady]
  rw [Nat.min_eq_left hle, List.take_left', List.length_append, List.length_drop,
    Nat.add_sub_cancel' hle]
  · rfl
  · rfl

/-! ## 4. Where the bytes lie -/

namespace DataSource

theorem length_read (serving : Serving ε) (offset : Nat) (into : List UInt8) (source : DataSource) :
    (source.read serving offset into).buffer.length = into.length := by
  induction source with
  | buffer content =>
    have := content.length_read_le offset into.length
    simp only [read, List.length_append, List.length_drop]
    omega
  | file size =>
    simp only [read]
    split
    · rfl
    · cases serving.seek with
      | error error => rfl
      | ok _ => exact (fillFrom_served serving.answer 0 offset into).1
  | pointer source ih => exact ih

/-- **Where the bytes of a read lie**: they fit into the buffer; the first of them is below the
announced size; and so is the last, unless the file had grown at some call. -/
structure Within (source : DataSource) (serving : Serving ε) (offset room count : Nat) : Prop where
  fits : count ≤ room
  starts : 0 < count → offset < source.size
  ends : 0 < count → offset + count ≤ source.size ∨ source.isLive = true ∧
    ∃ round content more, serving.answer round = .content content more ∧
      source.size < content.size ∧ offset + count ≤ content.size

theorem read_ok (serving : Serving ε) (offset : Nat) (into : List UInt8) (source : DataSource)
    {count : Nat} (h : (source.read serving offset into).result = .ok count) :
    source.Within serving offset into.length count := by
  induction source with
  | buffer content =>
    cases h
    have hlength := content.length_read offset into.length
    exact ⟨content.length_read_le offset into.length, fun hpos => by simp only [size]; omega,
      fun hpos => .inl (by simp only [size]; omega)⟩
  | file size =>
    simp only [read] at h
    split at h
    · cases h
      exact ⟨Nat.zero_le _, nofun, nofun⟩
    · rename_i hsize
      cases hseek : serving.seek with
      | error error =>
        rw [hseek] at h
        cases h
      | ok _ =>
        rw [hseek] at h
        have hserved := (fillFrom_served serving.answer 0 offset into).2 count h
        refine ⟨hserved.fits, fun _ => Nat.lt_of_not_le hsize, fun hpos => ?_⟩
        obtain ⟨round, content, more, hanswer, hend⟩ := hserved.inContent hpos
        by_cases hgrown : size < content.size
        · exact .inr ⟨rfl, round, content, more, hanswer, hgrown, hend⟩
        · exact .inl (Nat.le_trans hend (Nat.le_of_not_lt hgrown))
  | pointer source ih =>
    obtain ⟨hfits, hstarts, hends⟩ := ih h
    exact ⟨hfits, hstarts, hends⟩

/-- **Every read lies within the announced size, but for a file that has grown**, whatever the
source, the offset and the buffer, and whatever content replaces that of a file from one call to the
next: the buffer keeps its length; the number of bytes read is at most that length; the first of
them lies below the announced size, and the last too, unless a file was longer at some call and
reached that far. Reading with zeros gives the same number, or none after an error, and leaves zeros
in the rest of the buffer. -/
theorem read_within (source : DataSource) (serving : Serving ε) (offset : Nat) (into : List UInt8) :
    (source.read serving offset into).buffer.length = into.length ∧
    (∀ count, (source.read serving offset into).result = .ok count →
      source.Within serving offset into.length count ∧
      (source.readZeroFilled serving offset into).2 = count) ∧
    (∀ error, (source.read serving offset into).result = .error error →
      (source.readZeroFilled serving offset into).2 = 0) ∧
    (source.readZeroFilled serving offset into).1.length = into.length ∧
    (source.readZeroFilled serving offset into).2 ≤ into.length ∧
    ∀ i, (source.readZeroFilled serving offset into).2 ≤ i → i < into.length →
      (source.readZeroFilled serving offset into).1[i]? = some 0 := by
  have hlength := source.length_read serving offset into
  have hcount : (source.readZeroFilled serving offset into).2 ≤ into.length := by
    simp only [readZeroFilled]
    split
    · exact Nat.min_le_right _ _
    · exact Nat.zero_le _
  refine ⟨hlength, fun count h => ?_, fun error h => ?_, ?_, hcount, fun i hi hlt => ?_⟩
  · have hwithin := source.read_ok serving offset into h
    refine ⟨hwithin, ?_⟩
    simp only [readZeroFilled, h]
    exact Nat.min_eq_left hwithin.fits
  · simp only [readZeroFilled, h]
  · simp only [readZeroFilled, List.length_append, List.length_take, List.length_replicate, hlength]
      at hcount ⊢
    omega
  · simp only [readZeroFilled] at hcount hi ⊢
    rw [List.getElem?_append_right, List.getElem?_replicate, if_pos]
    all_goals
      rw [List.length_take, hlength, Nat.min_eq_left hcount]
      omega

/-- Four bytes from the fourth one on of a file of five bytes: two are there, and two zeros
follow. -/
theorem read_within_fiveBytes :
    let steady : Serving FileFault := ⟨.ok (), fun _ => .content #[1, 2, 3, 4, 5] 0⟩
    ((file 5).read steady 3 [9, 9, 9, 9]).result = .ok 2 ∧ 3 + 2 ≤ (file 5).size ∧
      ((file 5).readZeroFilled steady 3 [9, 9, 9, 9]).2 = 2 ∧
      ((file 5).readZeroFilled steady 3 [9, 9, 9, 9]).1[2]? = some 0 := by
  intro steady
  have hread : ((file 5).read steady 3 [9, 9, 9, 9]).result = .ok 2 :=
    congrArg Received.result (Source.read_dataSource (s := ⟨"", 5, #[1, 2, 3, 4, 5], some 0⟩)
      nofun rfl (fun _ => ⟨0, rfl⟩) 3 [9, 9, 9, 9])
  obtain ⟨_, hok, _, _, _, hzeros⟩ := (file 5).read_within steady 3 [9, 9, 9, 9]
  obtain ⟨hwithin, hcount⟩ := hok 2 hread
  refine ⟨hread, ?_, hcount, hzeros 2 (by omega) (by decide)⟩
  rcases hwithin.ends (by decide) with hend | ⟨_, _, content, _, hanswer, hgrown, _⟩
  · exact hend
  · cases hanswer
    exact absurd hgrown (by decide)

/-- If the file has grown to eight bytes, all four are there, and two of them lie past the announced
size. -/
theorem read_past_size :
    let grown : Serving FileFault := ⟨.ok (), fun _ => .content #[1, 2, 3, 4, 5, 6, 7, 8] 0⟩
    ((file 5).read grown 3 [9, 9, 9, 9]) = ⟨[4, 5, 6, 7], .ok 4⟩ ∧ ¬3 + 4 ≤ (file 5).size :=
  ⟨Source.read_dataSource (s := ⟨"", 5, #[1, 2, 3, 4, 5, 6, 7, 8], some 0⟩)
    nofun rfl (fun _ => ⟨0, rfl⟩) 3 [9, 9, 9, 9], by decide⟩

end DataSource

end ByteAtlas
