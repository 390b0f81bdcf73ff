import ByteAtlas.Proofs.Directory.WellFormed
import Mathlib.Data.List.Sort

/-!
# The directory as a list

A `Directory` keeps its instances under their numbers, and the numbers under the locations. A `Roll`
is what it stands for: the plain list of the live instances in the order in which they were made, in
which everything is searched for from the front, placed at the end and taken out where it is.

`Directory.run_isStore`: every sequence of steps gives back the same on both, and ends with the
directory answering as the list does (`Directory.Shows`). The two maps then tell of the same
instances, no two of which are at one location, each step does what it should (`Directory.IsStore`),
and no number is given out twice (`Directory.Outlasts`).
-/

namespace ByteAtlas

/-! ## 1. Steps -/

/-- A property of an instance, and what to set it to. -/
inductive Setting where
  | notes (text : String)
  | reason (why : Reason)
  | allowAutoExpand (allow : Bool)
  | budget (left : Budget)
  | sizeOverride (size : Option Int64)
  | arg (name : String) (value : Int64)
  /-- The name is to have no value. -/
  | noArg (name : String)
  deriving DecidableEq, Repr

namespace Setting

def apply : Setting → Instance → Instance
  | .notes text, i => i.setNotes text
  | .reason why, i => i.setReason why
  | .allowAutoExpand allow, i => i.setAllowAutoExpand allow
  | .budget left, i => i.setBudget left
  | .sizeOverride size, i => i.setSizeOverride size
  | .arg name value, i => i.setArg name value
  | .noArg name, i => i.removeArg name

@[simp] theorem id_apply (s : Setting) (i : Instance) : (s.apply i).id = i.id := by
  cases s <;> rfl

@[simp] theorem location_apply (s : Setting) (i : Instance) :
    (s.apply i).location = i.location := by
  cases s <;> rfl

end Setting

namespace Directory

/-- What can be done to a directory. -/
inductive Step where
  | add (p : Placement)
  | delete (id : InstanceId)
  | deleteAuto
  | set (id : InstanceId) (s : Setting)
  deriving Repr

/-- What a step gives back. -/
inductive Answer where
  | added (a : Added)
  /-- The instance that was removed, or the one with the new property. -/
  | found (i : Option Instance)
  | count (n : Nat)
  deriving Repr

def step (d : Directory) : Step → Answer × Directory
  | .add p => ((.added (d.add p).1), (d.add p).2)
  | .delete id => ((.found (d.delete id).1), (d.delete id).2)
  | .deleteAuto => ((.count d.deleteAuto.1), d.deleteAuto.2)
  | .set id s => ((.found ((d.modify id s.apply).find? id)), d.modify id s.apply)

/-- One step after the other; what they give back. -/
def run (d : Directory) : List Step → List Answer × Directory
  | [] => ([], d)
  | s :: steps =>
    let (answer, d) := d.step s
    let (answers, d) := run d steps
    (answer :: answers, d)

end Directory

/-- **The live instances in the order in which they were made**, and the next number. -/
structure Roll where
  live : List Instance
  nextId : InstanceId
  deriving Repr

namespace Roll

open Directory (Added Step Answer)

def empty : Roll := ⟨[], 0⟩

def find? (r : Roll) (id : InstanceId) : Option Instance := r.live.find? (·.id == id)

def findAt? (r : Roll) (l : Location) : Option Instance := r.live.find? (·.location == l)

/-- The instances of a struct, in one file or in all. -/
def instancesOf (r : Roll) (struct : String) (file : Option FileId) : List Instance :=
  r.live.filter fun i => i.struct == struct && file.all (i.file == ·)

/-- Changes the properties of one instance. -/
def modify (r : Roll) (id : InstanceId) (f : Instance → Instance) : Roll :=
  { r with live := r.live.map fun i => if i.id = id then f i else i }

/-- Places an instance at the end, unless there is one at the location. -/
def add (r : Roll) (p : Placement) : Added × Roll :=
  match r.findAt? p.location with
  | some i => (⟨i.ref, false⟩, r.modify i.id (Instance.merge p.reason p.budget))
  | none => (⟨⟨r.nextId, p.location⟩, true⟩, ⟨r.live ++ [.ofPlacement r.nextId p], r.nextId + 1⟩)

def delete (r : Roll) (id : InstanceId) : Option Instance × Roll :=
  (r.find? id, { r with live := r.live.filter (·.id ≠ id) })

def deleteAuto (r : Roll) : Nat × Roll :=
  (r.live.countP (!·.reason.isManual), { r with live := r.live.filter (·.reason.isManual) })

def step (r : Roll) : Step → Answer × Roll
  | .add p => ((.added (r.add p).1), (r.add p).2)
  | .delete id => ((.found (r.delete id).1), (r.delete id).2)
  | .deleteAuto => ((.count r.deleteAuto.1), r.deleteAuto.2)
  | .set id s => ((.found ((r.modify id s.apply).find? id)), r.modify id s.apply)

/-- One step after the other; what they give back. -/
def run (r : Roll) : List Step → List Answer × Roll
  | [] => ([], r)
  | s :: steps =>
    let (answer, r) := r.step s
    let (answers, r) := run r steps
    (answer :: answers, r)

end Roll

/-! ## 2. What the list of a directory becomes -/

namespace Directory

variable {d : Directory}

instance : Std.Irrefl fun i j : Instance => i.id < j.id := ⟨fun i => Nat.lt_irrefl i.id⟩

instance : Std.Antisymm fun i j : Instance => i.id < j.id :=
  ⟨fun _ _ hij hji => absurd hij (Nat.lt_asymm hji)⟩

/-- **The list of a directory is the only one** in the order of the numbers with what is found in
the directory. -/
theorem WellFormed.toList_eq_of_mem_iff (h : d.WellFormed) {live : List Instance}
    (hlive : live.Pairwise fun i j => i.id < j.id)
    (hmem : ∀ i, i ∈ live ↔ d.find? i.id = some i) : d.toList = live :=
  h.pairwise_toList.eq_of_mem_iff hlive fun i => h.mem_toList.trans (hmem i).symm

/-- Of two instances with one number there is only one. -/
theorem WellFormed.eq_of_id (h : d.WellFormed) {i j : Instance} (hi : i ∈ d.toList)
    (hj : j ∈ d.toList) (hid : i.id = j.id) : i = j := by
  have hfind := h.mem_toList.mp hi
  rw [hid, h.mem_toList.mp hj] at hfind
  exact (Option.some.inj hfind).symm

theorem WellFormed.toList_modify (h : d.WellFormed) (id : InstanceId) {f : Instance → Instance}
    (hid : ∀ i, (f i).id = i.id) (hloc : ∀ i, (f i).location = i.location) :
    (d.modify id f).toList = d.toList.map fun i => if i.id = id then f i else i := by
  have hkeeps (i : Instance) : (if i.id = id then f i else i).id = i.id := by
    split
    · exact hid i
    · rfl
  refine (h.modify id hid hloc).toList_eq_of_mem_iff ?_ fun i => ?_
  · rw [List.pairwise_map]
    refine h.pairwise_toList.imp fun {i j} hij => ?_
    rw [hkeeps, hkeeps]
    exact hij
  · rw [List.mem_map, find?_modify]
    constructor
    · rintro ⟨j, hj, rfl⟩
      rw [hkeeps, h.mem_toList.mp hj]
      by_cases he : j.id = id
      · subst he
        simp [h.mem_toList.mp hj]
      · simp [he, Ne.symm he]
    · intro hi
      by_cases he : id = i.id
      · rw [if_pos he] at hi
        obtain ⟨j, hj, rfl⟩ := Option.map_eq_some_iff.mp hi
        have hjid := h.id_eq id j hj
        refine ⟨j, h.mem_toList.mpr (hjid ▸ hj), ?_⟩
        simp [hjid]
      · rw [if_neg he] at hi
        exact ⟨i, h.mem_toList.mpr hi, if_neg (Ne.symm he)⟩

/-- Whatever is in the list has a number that has been given out. -/
theorem WellFormed.lt_of_mem (h : d.WellFormed) {i : Instance} (hi : i ∈ d.toList) :
    i.id < d.nextId :=
  h.lt i.id i (h.mem_toList.mp hi)

theorem WellFormed.toList_add (h : d.WellFormed) {p : Placement}
    (hp : d.findAt? p.location = none) :
    (d.add p).2.toList = d.toList ++ [.ofPlacement d.nextId p] := by
  refine (h.add p).toList_eq_of_mem_iff ?_ fun i => ?_
  · refine List.pairwise_append.mpr ⟨h.pairwise_toList, List.pairwise_singleton _ _, ?_⟩
    intro i hi j hj
    rw [List.mem_singleton.mp hj]
    exact h.lt_of_mem hi
  · rw [List.mem_append, List.mem_singleton, h.mem_toList, find?_add_of_free hp]
    by_cases he : d.nextId = i.id
    · have hold : d.find? i.id = none := he ▸ h.find?_nextId
      rw [if_pos he, hold, ← he]
      simp [eq_comm]
    · rw [if_neg he]
      refine ⟨fun hi => hi.resolve_right ?_, Or.inl⟩
      rintro rfl
      exact he rfl

theorem WellFormed.toList_delete (h : d.WellFormed) (id : InstanceId) :
    (d.delete id).2.toList = d.toList.filter (·.id ≠ id) := by
  refine (h.delete id).toList_eq_of_mem_iff (h.pairwise_toList.filter _) fun i => ?_
  rw [List.mem_filter, h.mem_toList, find?_delete]
  by_cases he : id = i.id
  · simp [he]
  · simp [he, Ne.symm he]

/-- Removing one instance after the other leaves those that are not among them. -/
theorem WellFormed.toList_foldl_delete (ids : List InstanceId) : ∀ {d : Directory}, d.WellFormed →
    (ids.foldl (fun d id => (d.delete id).2) d).toList = d.toList.filter (·.id ∉ ids) := by
  induction ids with
  | nil => simp
  | cons gone ids ih =>
    intro d h
    rw [List.foldl_cons, ih (h.delete gone), h.toList_delete, List.filter_filter]
    refine List.filter_congr fun i _ => ?_
    simp [Bool.and_comm]

theorem WellFormed.toList_deleteAuto (h : d.WellFormed) :
    d.deleteAuto.2.toList = d.toList.filter (·.reason.isManual) := by
  refine (WellFormed.toList_foldl_delete _ h).trans (List.filter_congr fun i hi => ?_)
  -- By its number an instance is told apart from those that are removed.
  have hmem : i.id ∈ (d.toList.filter fun i => !i.reason.isManual).map Instance.id ↔
      i.reason.isManual = false := by
    rw [List.mem_map]
    constructor
    · rintro ⟨j, hj, hji⟩
      obtain ⟨hj, hauto⟩ := List.mem_filter.mp hj
      rw [h.eq_of_id hj hi hji] at hauto
      simpa using hauto
    · intro hauto
      exact ⟨i, List.mem_filter.mpr ⟨hi, by simp [hauto]⟩, rfl⟩
  cases hmanual : i.reason.isManual <;> simp [hmem, hmanual]

theorem nextId_modify (d : Directory) (id : InstanceId) (f : Instance → Instance) :
    (d.modify id f).nextId = d.nextId := rfl

theorem nextId_add (d : Directory) (p : Placement) : (d.add p).2.nextId =
    if d.findAt? p.location = none then d.nextId + 1 else d.nextId := by
  unfold add
  cases d.findAt? p.location <;> simp [nextId_modify]

theorem nextId_delete (d : Directory) (id : InstanceId) : (d.delete id).2.nextId = d.nextId := by
  unfold delete
  cases d.find? id <;> rfl

theorem nextId_deleteAuto (d : Directory) : d.deleteAuto.2.nextId = d.nextId := by
  have hfoldl (ids : List InstanceId) : ∀ d : Directory,
      (ids.foldl (fun d id => (d.delete id).2) d).nextId = d.nextId := by
    induction ids with
    | nil => exact fun _ => rfl
    | cons gone ids ih => exact fun d => (ih _).trans (d.nextId_delete gone)
  exact hfoldl _ d

/-! ## 3. Directories that show a list -/

/-- **Whether a directory answers as a list does.** -/
structure Shows (d : Directory) (r : Roll) : Prop where
  toList : d.toList = r.live
  nextId : d.nextId = r.nextId
  size : d.size = r.live.length
  find? : ∀ id, d.find? id = r.find? id
  findAt? : ∀ l, d.findAt? l = r.findAt? l
  atIndex? : ∀ index, d.atIndex? index = r.live[index]?
  instancesOf : ∀ struct file, d.instancesOf struct file = r.instancesOf struct file

/-- No two instances of a list have one number. -/
theorem WellFormed.find?_eq (h : d.WellFormed) (id : InstanceId) :
    d.find? id = d.toList.find? (·.id == id) := by
  cases hfind : d.toList.find? (·.id == id) with
  | some i =>
    have hid : i.id = id := by simpa using List.find?_some hfind
    rw [← hid]
    exact h.mem_toList.mp (List.mem_of_find?_eq_some hfind)
  | none =>
    cases hd : d.find? id with
    | none => rfl
    | some i =>
      have hid := h.id_eq id i hd
      have hne := List.find?_eq_none.mp hfind i (h.mem_toList.mpr (hid ▸ hd))
      simp [hid] at hne

/-- No two instances of a list are at one location. -/
theorem WellFormed.findAt?_eq (h : d.WellFormed) (l : Location) :
    d.findAt? l = d.toList.find? (·.location == l) := by
  cases hfind : d.toList.find? (·.location == l) with
  | some i =>
    have hl : i.location = l := by simpa using List.find?_some hfind
    exact h.findAt?_eq_some.mpr ⟨h.mem_toList.mp (List.mem_of_find?_eq_some hfind), hl⟩
  | none =>
    cases hd : d.findAt? l with
    | none => rfl
    | some i =>
      obtain ⟨hi, hl⟩ := h.findAt?_eq_some.mp hd
      have hne := List.find?_eq_none.mp hfind i (h.mem_toList.mpr hi)
      simp [hl] at hne

/-- **A directory shows its own list.** -/
theorem WellFormed.shows (h : d.WellFormed) {r : Roll} (hlist : d.toList = r.live)
    (hnext : d.nextId = r.nextId) : d.Shows r where
  toList := hlist
  nextId := hnext
  size := by rw [← hlist, length_toList]
  find? id := by rw [h.find?_eq, hlist, Roll.find?]
  findAt? l := by rw [h.findAt?_eq, hlist, Roll.findAt?]
  atIndex? index := by rw [atIndex?_eq_getElem?, hlist]
  instancesOf struct file := by rw [Directory.instancesOf, hlist, Roll.instancesOf]

variable {r : Roll}

theorem Shows.modify (h : d.WellFormed) (hs : d.Shows r) (id : InstanceId)
    {f : Instance → Instance} (hid : ∀ i, (f i).id = i.id)
    (hloc : ∀ i, (f i).location = i.location) : (d.modify id f).Shows (r.modify id f) :=
  (h.modify id hid hloc).shows (by rw [h.toList_modify id hid hloc, hs.toList, Roll.modify])
    hs.nextId

theorem Shows.add (h : d.WellFormed) (hs : d.Shows r) (p : Placement) :
    (d.add p).1 = (r.add p).1 ∧ (d.add p).2.Shows (r.add p).2 := by
  cases hp : d.findAt? p.location with
  | some i =>
    have hr : r.findAt? p.location = some i := (hs.findAt? _).symm.trans hp
    rw [add_of_taken hp, Roll.add, hr]
    exact ⟨rfl, hs.modify h i.id (fun _ => rfl) fun _ => rfl⟩
  | none =>
    have hr : r.findAt? p.location = none := (hs.findAt? _).symm.trans hp
    have hroll : r.add p =
        (⟨⟨d.nextId, p.location⟩, true⟩, ⟨d.toList ++ [.ofPlacement d.nextId p], d.nextId + 1⟩) := by
      rw [Roll.add, hr, hs.toList, hs.nextId]
    rw [hroll]
    refine ⟨(add_of_free (h.findAt?_eq_none hp)).1, (h.add p).shows (h.toList_add hp) ?_⟩
    rw [nextId_add, if_pos hp]

theorem Shows.delete (h : d.WellFormed) (hs : d.Shows r) (id : InstanceId) :
    (d.delete id).1 = (r.delete id).1 ∧ (d.delete id).2.Shows (r.delete id).2 := by
  refine ⟨?_, (h.delete id).shows ?_ ?_⟩
  · rw [Roll.delete, ← hs.find? id]
    cases hd : d.find? id <;> rw [Directory.delete, hd]
  · rw [h.toList_delete, hs.toList, Roll.delete]
  · exact (d.nextId_delete id).trans hs.nextId

theorem Shows.deleteAuto (h : d.WellFormed) (hs : d.Shows r) :
    d.deleteAuto.1 = r.deleteAuto.1 ∧ d.deleteAuto.2.Shows r.deleteAuto.2 := by
  refine ⟨?_, WellFormed.shows (wellFormed_foldl_delete _ h).1 ?_ ?_⟩
  · rw [Roll.deleteAuto, ← hs.toList, List.countP_eq_length_filter]
    exact List.length_map _
  · exact h.toList_deleteAuto.trans (by rw [hs.toList, Roll.deleteAuto])
  · exact d.nextId_deleteAuto.trans hs.nextId

/-! ## 4. Whole runs -/

theorem WellFormed.step (h : d.WellFormed) (s : Step) : (d.step s).2.WellFormed := by
  cases s with
  | add p => exact h.add p
  | delete id => exact h.delete id
  | deleteAuto => exact (wellFormed_foldl_delete _ h).1
  | set id s => exact h.modify id s.id_apply s.location_apply

theorem Shows.step (h : d.WellFormed) (hs : d.Shows r) (s : Step) :
    (d.step s).1 = (r.step s).1 ∧ (d.step s).2.Shows (r.step s).2 := by
  cases s with
  | add p =>
    obtain ⟨hadded, hshows⟩ := hs.add h p
    exact ⟨congrArg Answer.added hadded, hshows⟩
  | delete id =>
    obtain ⟨hgone, hshows⟩ := hs.delete h id
    exact ⟨congrArg Answer.found hgone, hshows⟩
  | deleteAuto =>
    obtain ⟨hcount, hshows⟩ := hs.deleteAuto h
    exact ⟨congrArg Answer.count hcount, hshows⟩
  | set id s =>
    have hshows := hs.modify h id s.id_apply s.location_apply
    exact ⟨congrArg Answer.found (hshows.find? id), hshows⟩

theorem WellFormed.run (steps : List Step) : ∀ {d : Directory}, d.WellFormed →
    (d.run steps).2.WellFormed := by
  induction steps with
  | nil => exact id
  | cons s steps ih => exact fun h => ih (h.step s)

theorem Shows.run (steps : List Step) : ∀ {d : Directory} {r : Roll}, d.WellFormed → d.Shows r →
    (d.run steps).1 = (r.run steps).1 ∧ (d.run steps).2.Shows (r.run steps).2 := by
  induction steps with
  | nil => exact fun _ hs => ⟨rfl, hs⟩
  | cons s steps ih =>
    intro d r h hs
    obtain ⟨hanswer, hshows⟩ := hs.step h s
    obtain ⟨hanswers, hends⟩ := ih (h.step s) hshows
    exact ⟨congrArg₂ List.cons hanswer hanswers, hends⟩

/-- **What became of the numbers** between two states of a directory: those given out stay given
out, and lead to the instance that they led to, or to none. -/
structure Outlasts (d d' : Directory) : Prop where
  nextId : d.nextId ≤ d'.nextId
  known : ∀ i ∈ d'.toList, i.id < d.nextId → ∃ j ∈ d.toList, j.ref = i.ref

theorem Outlasts.refl (d : Directory) : Outlasts d d := ⟨Nat.le_refl _, fun i hi _ => ⟨i, hi, rfl⟩⟩

theorem Outlasts.trans {a b c : Directory} (hab : Outlasts a b) (hbc : Outlasts b c) :
    Outlasts a c := by
  refine ⟨Nat.le_trans hab.nextId hbc.nextId, fun i hi hlt => ?_⟩
  obtain ⟨j, hj, hji⟩ := hbc.known i hi (Nat.lt_of_lt_of_le hlt hab.nextId)
  have hid : j.id = i.id := congrArg InstanceRef.id hji
  obtain ⟨k, hk, hkj⟩ := hab.known j hj (hid ▸ hlt)
  exact ⟨k, hk, hkj.trans hji⟩

theorem Outlasts.modify (h : d.WellFormed) (id : InstanceId) {f : Instance → Instance}
    (hid : ∀ i, (f i).id = i.id) (hloc : ∀ i, (f i).location = i.location) :
    d.Outlasts (d.modify id f) := by
  refine ⟨Nat.le_refl _, fun i hi _ => ?_⟩
  rw [h.toList_modify id hid hloc] at hi
  obtain ⟨j, hj, rfl⟩ := List.mem_map.mp hi
  refine ⟨j, hj, ?_⟩
  split
  · simp [Instance.ref, hid, hloc]
  · rfl

/-- Removing instances does not touch the numbers of the others. -/
theorem Outlasts.of_sublist {d' : Directory} (hnext : d'.nextId = d.nextId)
    (hlist : d'.toList.Sublist d.toList) : d.Outlasts d' :=
  ⟨Nat.le_of_eq hnext.symm, fun i hi _ => ⟨i, hlist.subset hi, rfl⟩⟩

theorem WellFormed.outlasts_step (h : d.WellFormed) (s : Step) : d.Outlasts (d.step s).2 := by
  cases s with
  | add p =>
    show d.Outlasts (d.add p).2
    cases hp : d.findAt? p.location with
    | some i =>
      rw [add_of_taken hp]
      exact .modify h i.id (fun _ => rfl) fun _ => rfl
    | none =>
      refine ⟨by rw [nextId_add, if_pos hp]; exact Nat.le_succ _, fun i hi hlt => ?_⟩
      rw [h.toList_add hp] at hi
      rcases List.mem_append.mp hi with hi | hi
      · exact ⟨i, hi, rfl⟩
      · rw [List.mem_singleton.mp hi] at hlt
        exact absurd hlt (Nat.lt_irrefl d.nextId)
  | delete id =>
    refine .of_sublist (d.nextId_delete id) ?_
    rw [Directory.step, h.toList_delete]
    exact List.filter_sublist
  | deleteAuto =>
    refine .of_sublist d.nextId_deleteAuto ?_
    rw [Directory.step, h.toList_deleteAuto]
    exact List.filter_sublist
  | set id s => exact .modify h id s.id_apply s.location_apply

theorem WellFormed.outlasts_run (steps : List Step) : ∀ {d : Directory}, d.WellFormed →
    d.Outlasts (d.run steps).2 := by
  induction steps with
  | nil => exact fun {d} _ => .refl d
  | cons s steps ih => exact fun h => (h.outlasts_step s).trans (ih (h.step s))

theorem run_append (d : Directory) (earlier later : List Step) :
    (d.run (earlier ++ later)).2 = ((d.run earlier).2.run later).2 := by
  induction earlier generalizing d with
  | nil => rfl
  | cons s earlier ih => exact ih (d.step s).2

/-! ## 5. The directory as a store -/

theorem rank_stronger (a b : Reason) : (a.stronger b).rank = min a.rank b.rank := by
  unfold Reason.stronger
  split <;> omega

theorem isManual_eq_false (why : Reason) :
    (!why.isManual) = decide (why = .autoExpand ∨ why = .query) := by
  cases why <;> rfl

/-- **What a directory is for those who use it**: what it says about its instances, and what
placing and removing do to them. -/
structure IsStore (d : Directory) : Prop where
  /-- A location leads to a number exactly if the live instance of the number is there. -/
  located : ∀ l id, d.byLocation[l]? = some id ↔ ∃ i, d.find? id = some i ∧ i.location = l
  apart : d.toList.Pairwise fun i j => i.location ≠ j.location
  ascending : d.toList.Pairwise fun i j => i.id < j.id
  givenOut : ∀ i ∈ d.toList, i.id < d.nextId
  add_free : ∀ p : Placement, (∀ i ∈ d.toList, i.location ≠ p.location) →
    (d.add p).1 = ⟨⟨d.nextId, p.location⟩, true⟩ ∧
      (d.add p).2.toList = d.toList ++ [.ofPlacement d.nextId p]
  /-- The more intentional reason counts, the budget is the new one, and all else stays. -/
  add_taken : ∀ p : Placement, ∀ i ∈ d.toList, i.location = p.location →
    (d.add p).1 = ⟨i.ref, false⟩ ∧
      ((d.add p).2.toList = d.toList.map fun j =>
        if j.id = i.id then
          { j with reason := i.reason.stronger p.reason, budget := p.budget }
        else j) ∧
      (i.reason.stronger p.reason).rank = min i.reason.rank p.reason.rank
  delete : ∀ id, (d.delete id).1 = d.find? id ∧
    (d.delete id).2.toList = d.toList.filter (·.id ≠ id)
  deleteAuto :
    d.deleteAuto.1 = d.toList.countP (fun i => i.reason = .autoExpand ∨ i.reason = .query) ∧
      d.deleteAuto.2.toList =
        d.toList.filter fun i => ¬(i.reason = .autoExpand ∨ i.reason = .query)

theorem WellFormed.located_iff (h : d.WellFormed) (l : Location) (id : InstanceId) :
    d.byLocation[l]? = some id ↔ ∃ i, d.find? id = some i ∧ i.location = l := by
  refine ⟨h.located l id, ?_⟩
  rintro ⟨i, hi, rfl⟩
  exact h.placed id i hi

/-- The number that a location leads to is that of one instance only. -/
theorem WellFormed.eq_of_location (h : d.WellFormed) {i j : Instance} (hi : i ∈ d.toList)
    (hj : j ∈ d.toList) (hl : i.location = j.location) : i = j := by
  have hplaced := h.placed i.id i (h.mem_toList.mp hi)
  rw [hl, h.placed j.id j (h.mem_toList.mp hj)] at hplaced
  exact (h.eq_of_id hj hi (Option.some.inj hplaced)).symm

theorem WellFormed.isStore (h : d.WellFormed) : d.IsStore where
  located := h.located_iff
  apart := by
    refine List.Pairwise.imp_of_mem ?_ h.pairwise_toList
    intro i j hi hj hlt hl
    rw [h.eq_of_location hi hj hl] at hlt
    exact Nat.lt_irrefl _ hlt
  ascending := h.pairwise_toList
  givenOut _ hi := h.lt_of_mem hi
  add_free p hfree := by
    have hp : d.findAt? p.location = none := by
      rw [h.findAt?_eq, List.find?_eq_none]
      simpa using hfree
    exact ⟨(add_of_free (h.findAt?_eq_none hp)).1, h.toList_add hp⟩
  add_taken p i hi hl := by
    have hp : d.findAt? p.location = some i :=
      h.findAt?_eq_some.mpr ⟨h.mem_toList.mp hi, hl⟩
    rw [add_of_taken hp]
    refine ⟨rfl, ?_, rank_stronger _ _⟩
    have hid (j : Instance) : (j.merge p.reason p.budget).id = j.id := rfl
    have hloc (j : Instance) : (j.merge p.reason p.budget).location = j.location := rfl
    refine (h.toList_modify i.id hid hloc).trans
      (List.map_congr_left fun j hj => ?_)
    by_cases he : j.id = i.id
    · rw [h.eq_of_id hj hi he]
      rfl
    · simp [he]
  delete id := by
    refine ⟨?_, h.toList_delete id⟩
    cases hd : d.find? id <;> rw [Directory.delete, hd]
  deleteAuto := by
    refine ⟨?_, ?_⟩
    · rw [List.countP_eq_length_filter]
      simp only [← isManual_eq_false]
      exact List.length_map _
    · rw [h.toList_deleteAuto]
      refine List.filter_congr fun i _ => ?_
      rw [decide_not, ← isManual_eq_false, Bool.not_not]

/-- **The directory is a store without duplicates, in the order in which its instances were made.**
After any steps it has given back what the plain list gives back, answers as the list does, keeps
its two maps in step, and does with every next step what is expected. A number that has been given
out leads to the same instance after any further steps, or to none. -/
theorem run_isStore (earlier later : List Step) :
    (empty.run earlier).1 = (Roll.empty.run earlier).1 ∧
      (empty.run earlier).2.Shows (Roll.empty.run earlier).2 ∧
      (empty.run earlier).2.IsStore ∧
      (empty.run earlier).2.Outlasts (empty.run (earlier ++ later)).2 := by
  have hshows : empty.Shows Roll.empty := wellFormed_empty.shows rfl rfl
  obtain ⟨hanswers, hends⟩ := hshows.run earlier wellFormed_empty
  have hwell := WellFormed.run earlier wellFormed_empty
  refine ⟨hanswers, hends, hwell.isStore, ?_⟩
  rw [run_append]
  exact hwell.outlasts_run later

end Directory

end ByteAtlas
