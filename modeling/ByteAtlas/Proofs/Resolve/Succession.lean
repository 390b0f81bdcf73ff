import Mathlib.Algebra.Order.Floor.Div
import ByteAtlas.Proofs.Resolve.History
import ByteAtlas.Proofs.Resolve.Known

/-!
# How a chain goes on

The next instance of a chain is one size further on, and has what is left of the budget. So placing
the next instance again and again, from one whose size the definition tells, gives the records that
the budget has room for, one after the other, and then no more
(`Workspace.Reached.newest_of_chain`). The places of the later records have to be free: placing an
instance where there is one finds that one, which has arguments and an override of its own.
-/

namespace ByteAtlas

/-! ## 1. The records of a chain -/

/-- What a record of a chain uses up of the budget, if there is no override. -/
def Budget.unit (b : Budget) (size : Int64) : Int64 := if b.inBytes then size else 1

namespace Instance

/-- Where the records of a chain are that starts with an instance. -/
def recordPlace (i : Instance) (size : Int64) (k : Nat) : Location :=
  { i.location with offset := i.offset + Int64.ofNat k * size }

/-- **The records of a chain** that starts with an instance, without an override: the later ones as
they are placed. -/
def record (i : Instance) (size : Int64) (reason : Reason) (k : Nat) : Placement where
  location := i.recordPlace size k
  notes := i.notes
  reason := reason
  allowAutoExpand := i.allowAutoExpand
  budget := { i.budget with left := i.budget.left - Int64.ofNat k * i.budget.unit size }
  sizeOverride := none
  args := i.args

/-- How many records the budget has room for. The last one need not fit into a budget of bytes. -/
def recordCount (i : Instance) (size : Int64) : Nat :=
  if i.budget.inBytes then i.budget.left.toInt.toNat ⌈/⌉ size.toInt.toNat
  else i.budget.left.toInt.toNat

variable {i : Instance} {size : Int64} {reason : Reason} {k : Nat}

theorem chainStep_of_noOverride (h : i.sizeOverride = none) :
    i.chainStep size = i.budget.unit size := by
  rw [chainStep, h]
  rfl

/-- The next placement after the first record. -/
theorem nextPlacement_first (h : i.sizeOverride = none) :
    Resolver.nextPlacement i size reason = i.record size reason 1 := by
  unfold Resolver.nextPlacement record recordPlace
  rw [budgetAfter, chainStep_of_noOverride h, h, show Int64.ofNat 1 = 1 from rfl, Int64.one_mul,
    Int64.one_mul]
  rfl

/-- The next placement after a later one. -/
theorem nextPlacement_record (id : InstanceId) :
    Resolver.nextPlacement (.ofPlacement id (i.record size reason k)) size reason =
      i.record size reason (k + 1) := by
  have hmul (n : Int64) : Int64.ofNat (k + 1) * n = Int64.ofNat k * n + n := by
    rw [Int64.ofNat_add, Int64.add_mul, show Int64.ofNat 1 = 1 from rfl, Int64.one_mul]
  have hoffset : i.offset + Int64.ofNat (k + 1) * size =
      i.offset + Int64.ofNat k * size + size := by
    rw [hmul, Int64.add_assoc]
  have hleft : i.budget.left - Int64.ofNat (k + 1) * i.budget.unit size =
      (ofPlacement id (i.record size reason k)).budgetAfter size := by
    rw [budgetAfter, chainStep_of_noOverride rfl, hmul, ← Int64.sub_sub]
    rfl
  unfold Resolver.nextPlacement
  rw [record.eq_1 i size reason (k + 1), recordPlace.eq_1 i size (k + 1), hoffset, hleft]
  rfl

/-- How many records there is room for goes by what each uses up. -/
theorem recordCount_eq : i.recordCount size =
    i.budget.left.toInt.toNat ⌈/⌉ (i.budget.unit size).toInt.toNat := by
  unfold recordCount Budget.unit
  split
  · rfl
  · rw [show (1 : Int64).toInt.toNat = 1 from rfl, Nat.ceilDiv_eq_add_pred_div, Nat.div_one,
      Nat.add_sub_cancel]

/-- There is room for a record as long as those before it leave something of the budget. -/
theorem lt_recordCount_iff (hleft : 0 < i.budget.left) (hunit : 0 < i.budget.unit size) :
    k < i.recordCount size ↔ k * (i.budget.unit size).toInt < i.budget.left.toInt := by
  have hleft : 0 < i.budget.left.toInt := Int64.lt_iff_toInt_lt.mp hleft
  have hunit : 0 < (i.budget.unit size).toInt := Int64.lt_iff_toInt_lt.mp hunit
  rw [recordCount_eq, ← not_le, ceilDiv_le_iff_le_mul (by omega), not_le, ← Int.ofNat_lt,
    Int.natCast_mul, Int.toNat_of_nonneg hunit.le, Int.toNat_of_nonneg hleft.le, Int.mul_comm]

/-- **Something of the budget is left just if there is room for the next record.** As long as there
is room for this one, no word overflows. -/
theorem left_record_pos_iff (hleft : 0 < i.budget.left) (hunit : 0 < i.budget.unit size)
    (hk : k < i.recordCount size) :
    0 < (i.record size reason (k + 1)).budget.left ↔ k + 1 < i.recordCount size := by
  rw [lt_recordCount_iff hleft hunit] at hk ⊢
  have hunit : 0 < (i.budget.unit size).toInt := Int64.lt_iff_toInt_lt.mp hunit
  have hmul : ((k + 1 : Nat) : Int) * (i.budget.unit size).toInt =
      k * (i.budget.unit size).toInt + (i.budget.unit size).toInt := by
    rw [Int.natCast_add, Int.add_mul, Int.natCast_one, Int.one_mul]
  have htoInt : (i.record size reason (k + 1)).budget.left.toInt =
      i.budget.left.toInt - ((k + 1 : Nat) : Int) * (i.budget.unit size).toInt := by
    have hmost := i.budget.left.toInt_lt
    have hmost' := (i.budget.unit size).toInt_lt
    have hleast : 0 ≤ (k : Int) * (i.budget.unit size).toInt :=
      Int.mul_nonneg (Int.natCast_nonneg k) hunit.le
    have hword : (Int64.ofNat (k + 1)).toInt = ((k + 1 : Nat) : Int).bmod (2 ^ 64) :=
      Int64.toInt_ofNat'
    show (i.budget.left - Int64.ofNat (k + 1) * i.budget.unit size).toInt = _
    rw [Int64.toInt_sub, Int64.toInt_mul, Int.sub_bmod_bmod, hword, ← Int.sub_bmod_bmod,
      Int.bmod_mul_bmod, Int.sub_bmod_bmod]
    exact Int.bmod_eq_of_le (by omega) (by omega)
  rw [Int64.lt_iff_toInt_lt, htoInt, Int64.toInt_zero]
  omega

end Instance

/-! ## 2. One step -/

namespace Resolver

variable {once : Prop} {ws : Workspace} {r : InstanceRef} {d : StructDef}

/-- **A size that the definition tells** is told, and no instance is changed for it. -/
theorem Reliable.runIn_size_of_told {resolver : Resolver} (h : resolver.Reliable once) (ho : once)
    (hs : ws.Sound once) (hr : ws.IsLive r) (hd : ws.structOf? r = some d)
    (hpacked : d.isPacked = false) (hsource : d.sizeSource = none) :
    ∃ ws', (resolver.size r false).runIn ws = (.ok (some d.size), ws') ∧ ws'.Sound once ∧
      ws.Grows ws' ∧ ws'.directory = ws.directory := by
  have hrun : ∃ ws', (resolver.size r false).runIn ws = (.ok (some d.size), ws') ∧
      ws'.directory = ws.directory := by
    cases hsize : (ws.layoutOf r).sizeFor? (ws.stampOf r d) with
    | some size =>
      refine ⟨ws, ?_, rfl⟩
      rw [resolver.runIn_size_of_kept hd hsize]
      unfold Layout.sizeFor? at hsize
      split at hsize
      · rename_i st size' hst
        split at hsize
        · rename_i he
          cases hsize
          rw [(hs.sizes ho r st _ hr hst).2 d hd (congrArg Stamp.structVersion he) hpacked hsource]
        · cases hsize
      · cases hsize
    | none =>
      refine ⟨ws.modifyLayout r (·.setSize (ws.stampOf r d) d.size), ?_, rfl⟩
      unfold Resolver.size Resolver.measureSize
      simp only [structOf?, layoutOf, modifyLayout, unlessCutShort, Resolve.runIn_bind,
        Resolve.runIn_ask, Resolve.runIn_change, Resolve.runIn_pure, hd, hsize, hpacked, hsource,
        if_true, Bool.false_eq_true, if_false]
  obtain ⟨ws', hrun, hdirectory⟩ := hrun
  obtain ⟨hs', hg, _⟩ := (h.size hs hr false).of_run hrun
  exact ⟨ws', hrun, hs', hg, hdirectory⟩

end Resolver

namespace Workspace

variable {once : Prop} {ws : Workspace} {r : InstanceRef} {d : StructDef}

/-- **One step of a chain**: whether it goes on is whether something is left of the budget, and then
the next instance is placed. -/
theorem Sound.runIn_createNext_of_told (hs : ws.Sound once) (ho : once) (hr : ws.IsLive r)
    (hd : ws.structOf? r = some d) (hpacked : d.isPacked = false) (hsource : d.sizeSource = none)
    (hsize : d.size ≠ 0) {i : Instance} (hi : ws.find? r.id = some i) {reason : Reason}
    {p : Placement} (hp : Resolver.nextPlacement i d.size reason = p) :
    ∃ ws', ws'.Sound once ∧ ws.Grows ws' ∧ ws'.directory = ws.directory ∧
      (r.canCreateNext false false).runIn ws = (.ok (some (decide (0 < p.budget.left))), ws') ∧
      (r.createNext reason).runIn ws =
        if 0 < p.budget.left then (.ok (some (ws'.place p).1.ref), (ws'.place p).2)
        else (.ok none, ws') := by
  have hreliable : (Resolver.within (ws.limits.maxDepth - ws.depth)).Reliable once :=
    Resolver.reliable_within _
  obtain ⟨ws', hrun, hs', hg, hdirectory⟩ :=
    hreliable.runIn_size_of_told ho hs hr hd hpacked hsource
  have hi' : ws'.find? r.id = some i := by
    rw [Workspace.find?, hdirectory]
    exact hi
  have hleft : i.budgetAfter d.size = p.budget.left := by
    rw [← hp]
    rfl
  refine ⟨ws', hs', hg, hdirectory, (Resolve.runIn_resolving _ rfl).trans ?_,
    (Resolve.runIn_resolving _ rfl).trans ?_⟩
  · unfold Resolver.canCreateNext
    simp only [Resolver.budgetAfter, Resolve.runIn_bind, hrun, Resolve.runIn_ask,
      Resolve.runIn_pure, hi', Bool.false_eq_true, if_false, Option.elim_some, hleft]
  · unfold Resolver.createNext
    simp only [Resolve.runIn_bind, hrun, if_neg hsize, Resolve.runIn_ask, hi', hleft, hp]
    by_cases hnone : p.budget.left ≤ 0
    · rw [if_pos hnone, if_neg (Int64.not_lt.mpr hnone), Resolve.runIn_pure]
    · rw [if_neg hnone, if_pos (Int64.not_le.mp hnone)]
      simp only [Resolve.runIn_bind, Resolve.runIn_update, Resolve.runIn_pure]

/-! ## 3. All steps -/

/-- **The newest instance of a chain** after so many steps, each of which has placed the next one,
and the workspace then. -/
def newest (ws : Workspace) (r : InstanceRef) (reason : Reason) :
    Nat → Option (InstanceRef × Workspace)
  | 0 => some (r, ws)
  | k + 1 =>
    match newest ws r reason k with
    | none => none
    | some (last, ws') =>
      match (last.createNext reason).runIn ws' with
      | (.ok (some next), ws'') => some (next, ws'')
      | (.ok none, _) | (.error _, _) => none

/-- **An instance that a chain can start with**: its definition tells a size that is not 0, nothing
overrides it, and there is a budget. -/
structure StartsChain (ws : Workspace) (i : Instance) (d : StructDef) : Prop where
  live : ws.find? i.id = some i
  struct : ws.structOf? i.ref = some d
  isPacked : d.isPacked = false
  sizeSource : d.sizeSource = none
  size : d.size ≠ 0
  sizeOverride : i.sizeOverride = none
  left : 0 < i.budget.left

/-- **Whether the places of the later records are free**, up to one of them, and none comes
twice. -/
structure HasRoom (ws : Workspace) (i : Instance) (size : Int64) (most : Nat) : Prop where
  free : ∀ k, 1 ≤ k → k ≤ most → ws.directory.findAt? (i.recordPlace size k) = none
  distinct : ∀ j k, 1 ≤ j → j < k → k ≤ most → i.recordPlace size j ≠ i.recordPlace size k

/-- What holds when a record is the newest one. -/
structure IsNewest (once : Prop) (start : Workspace) (i : Instance) (size : Int64) (reason : Reason)
    (most k : Nat) (last : InstanceRef) (ws : Workspace) : Prop where
  sound : ws.Sound once
  grows : start.Grows ws
  live : ws.IsLive last
  location : last.location = i.recordPlace size k
  next : ∃ j, ws.find? last.id = some j ∧
    Resolver.nextPlacement j size reason = i.record size reason (k + 1)
  placed : 1 ≤ k → ws.find? last.id = some (.ofPlacement last.id (i.record size reason k))
  free : ∀ m, k < m → m ≤ most → ws.directory.findAt? (i.recordPlace size m) = none

/-- Placing an instance leaves the other free places free. -/
theorem Sound.findAt?_place_of_ne (hs : ws.Sound once) {p : Placement} {l : Location}
    (hp : ws.directory.findAt? p.location = none) (hl : ws.directory.findAt? l = none)
    (hne : p.location ≠ l) : (ws.place p).2.directory.findAt? l = none := by
  have hs' := (hs.place p).1
  cases hi : (ws.place p).2.directory.findAt? l with
  | none => rfl
  | some i =>
    obtain ⟨hi, hil⟩ := hs'.directory.findAt?_eq_some.mp hi
    have hfind := Directory.find?_add_of_free hp i.id
    rw [show (ws.directory.add p).2.find? i.id = some i from hi] at hfind
    split at hfind
    · have hplaced := congrArg (fun i : Instance => i.location) (Option.some.inj hfind)
      exact absurd (hplaced.symm.trans hil) hne
    · rw [hs.directory.findAt?_eq_some.mpr ⟨hfind.symm, hil⟩] at hl
      cases hl

section

variable {i : Instance} {reason : Reason} {most : Nat}

/-- A newest record is an instance of the struct that the chain is of. -/
theorem IsNewest.structOf? {start : Workspace} {size : Int64} {k : Nat} {last : InstanceRef}
    (h : IsNewest once start i size reason most k last ws) :
    ws.structOf? last = start.structOf? i.ref := by
  rw [h.grows.structOf?, Workspace.structOf?, InstanceRef.struct, h.location]
  rfl

/-- The step from a newest record. -/
theorem IsNewest.step {start : Workspace} {k : Nat} {last : InstanceRef}
    (h : IsNewest once start i d.size reason most k last ws) (ho : once)
    (hstart : start.StartsChain i d) :
    ∃ ws', ws'.Sound once ∧ ws.Grows ws' ∧ ws'.directory = ws.directory ∧
      (last.canCreateNext false false).runIn ws =
        (.ok (some (decide (0 < (i.record d.size reason (k + 1)).budget.left))), ws') ∧
      (last.createNext reason).runIn ws =
        if 0 < (i.record d.size reason (k + 1)).budget.left then
          (.ok (some (ws'.place (i.record d.size reason (k + 1))).1.ref),
            (ws'.place (i.record d.size reason (k + 1))).2)
        else (.ok none, ws') := by
  obtain ⟨j, hj, hnext⟩ := h.next
  exact h.sound.runIn_createNext_of_told ho h.live (h.structOf?.trans hstart.struct)
    hstart.isPacked hstart.sizeSource hstart.size hj hnext

/-- The next record becomes the newest one when it is placed. -/
theorem IsNewest.place {start ws' : Workspace} {size : Int64} {k : Nat} {last : InstanceRef}
    (h : IsNewest once start i size reason most k last ws) (hroom : start.HasRoom i size most)
    (hk : k + 1 ≤ most) (hs : ws'.Sound once) (hg : ws.Grows ws')
    (hdirectory : ws'.directory = ws.directory) :
    IsNewest once start i size reason most (k + 1)
      (ws'.place (i.record size reason (k + 1))).1.ref
      (ws'.place (i.record size reason (k + 1))).2 := by
  have hfree {m : Nat} (hlt : k < m) (hle : m ≤ most) :
      ws'.directory.findAt? (i.recordPlace size m) = none := by
    rw [hdirectory]
    exact h.free m hlt hle
  have hadd : ws'.directory.findAt? (i.record size reason (k + 1)).location = none :=
    hfree (Nat.lt_succ_self k) hk
  obtain ⟨hs', hg', hlive, hlocation, _⟩ := hs.place (i.record size reason (k + 1))
  have hfound : (ws'.place (i.record size reason (k + 1))).2.find?
      (ws'.place (i.record size reason (k + 1))).1.ref.id =
      some (.ofPlacement (ws'.place (i.record size reason (k + 1))).1.ref.id
        (i.record size reason (k + 1))) := by
    refine (Directory.find?_add_of_free hadd _).trans (if_pos ?_)
    rw [Workspace.place, Directory.add, hadd]
  refine ⟨hs', (h.grows.trans hg).trans hg', hlive, hlocation,
    ⟨_, hfound, i.nextPlacement_record _⟩, fun _ => hfound, fun m hlt hle => ?_⟩
  exact hs.findAt?_place_of_ne hadd (hfree (by omega) hle)
    (hroom.distinct (k + 1) m (by omega) hlt hle)

/-- **The newest record after every number of steps**, by induction on the steps. -/
theorem StartsChain.isNewest (h : ws.StartsChain i d) (hs : ws.Sound once) (ho : once)
    (hroom : ws.HasRoom i d.size most) : ∀ (k : Nat), k ≤ most → ∀ {last : InstanceRef}
      {ws' : Workspace}, ws.newest i.ref reason k = some (last, ws') →
      IsNewest once ws i d.size reason most k last ws' := by
  intro k
  induction k with
  | zero =>
    rintro _ _ _ ⟨⟩
    refine ⟨hs, .refl ws, ⟨i, h.live, rfl⟩, ?_, ⟨i, h.live, i.nextPlacement_first h.sizeOverride⟩,
      fun hle => absurd hle (by decide), hroom.free⟩
    rw [Instance.recordPlace, show Int64.ofNat 0 = 0 from rfl, Int64.zero_mul, Int64.add_zero]
    rfl
  | succ k ih =>
    intro hk last ws'' hnewest
    rw [newest] at hnewest
    cases hprevious : ws.newest i.ref reason k with
    | none =>
      rw [hprevious] at hnewest
      cases hnewest
    | some previous =>
      obtain ⟨previous, ws'⟩ := previous
      have hprevious' := ih (by omega) hprevious
      obtain ⟨ws₁, hs₁, hg₁, hdirectory, _, hcreate⟩ := hprevious'.step ho h
      rw [hprevious] at hnewest
      dsimp only at hnewest
      rw [hcreate] at hnewest
      by_cases hleft : 0 < (i.record d.size reason (k + 1)).budget.left
      · rw [if_pos hleft] at hnewest
        cases hnewest
        exact hprevious'.place hroom hk hs₁ hg₁ hdirectory
      · rw [if_neg hleft] at hnewest
        cases hnewest

/-- As long as the budget has room there is one more record. -/
theorem StartsChain.exists_newest (h : ws.StartsChain i d) (hs : ws.Sound once) (ho : once)
    (hroom : ws.HasRoom i d.size most) (hunit : 0 < i.budget.unit d.size) : ∀ (k : Nat), k ≤ most →
    k < i.recordCount d.size → ∃ last ws', ws.newest i.ref reason k = some (last, ws') := by
  intro k
  induction k with
  | zero => exact fun _ _ => ⟨i.ref, ws, rfl⟩
  | succ k ih =>
    intro hk hcount
    obtain ⟨last, ws', hnewest⟩ := ih (by omega) (by omega)
    obtain ⟨ws₁, _, _, _, _, hcreate⟩ := (h.isNewest hs ho hroom k (by omega) hnewest).step ho h
    rw [if_pos ((Instance.left_record_pos_iff h.left hunit (by omega)).mpr hcount)] at hcreate
    rw [newest, hnewest]
    dsimp only
    rw [hcreate]
    exact ⟨_, _, rfl⟩

end

/-- **How a chain goes on**, after any history that leaves versions apart: from an instance whose
definition tells its size, placing the next instance again and again gives the records of the chain,
at the size from each other and with what is left of the budget. It goes on just as long as
something is left; that is until there are as many as the budget has room for, unless bytes are
counted and the size is negative. -/
theorem Reached.newest_of_chain {ws : Workspace} {n : Nat} {edited : Bool} (h : ws.Reached n edited)
    (hn : n < Schema.versionLimit) {i : Instance} {d : StructDef} (hstart : ws.StartsChain i d)
    (reason : Reason) {most : Nat} (hroom : ws.HasRoom i d.size most) :
    (∀ k ≤ most, ∀ last ws', ws.newest i.ref reason k = some (last, ws') →
      (1 ≤ k → last.location = i.recordPlace d.size k ∧
        ws'.find? last.id = some (.ofPlacement last.id (i.record d.size reason k))) ∧
      ∃ more next ws₁ ws₂, (last.canCreateNext false false).runIn ws' = (.ok more, ws₁) ∧
        (last.createNext reason).runIn ws' = (.ok next, ws₂) ∧
        (next.isSome = true ↔ more = some true)) ∧
    (0 < i.budget.unit d.size → i.recordCount d.size = most + 1 →
      ∃ last ws' ws'', ws.newest i.ref reason most = some (last, ws') ∧
        (last.createNext reason).runIn ws' = (.ok none, ws'')) := by
  have hs := h.atRest.sound
  refine ⟨fun k hk last ws' hnewest => ?_, fun hunit hcount => ?_⟩
  · have hlast := hstart.isNewest hs hn hroom k hk hnewest
    obtain ⟨ws₁, _, _, _, hcan, hcreate⟩ := hlast.step hn hstart
    refine ⟨fun hk => ⟨hlast.location, hlast.placed hk⟩, ?_⟩
    by_cases hleft : 0 < (i.record d.size reason (k + 1)).budget.left
    · rw [if_pos hleft] at hcreate
      exact ⟨_, _, ws₁, _, hcan, hcreate, by simp [hleft]⟩
    · rw [if_neg hleft] at hcreate
      exact ⟨_, _, ws₁, _, hcan, hcreate, by simp [hleft]⟩
  · obtain ⟨last, ws', hnewest⟩ : ∃ last ws', ws.newest i.ref reason most = some (last, ws') :=
      hstart.exists_newest hs hn hroom hunit most (Nat.le_refl most) (by omega)
    have hlast := hstart.isNewest hs hn hroom most (Nat.le_refl most) hnewest
    obtain ⟨ws₁, _, _, _, _, hcreate⟩ := hlast.step hn hstart
    rw [if_neg] at hcreate
    · exact ⟨last, ws', ws₁, hnewest, hcreate⟩
    · rw [Instance.left_record_pos_iff hstart.left hunit (by omega)]
      omega

/-- A struct of four bytes. -/
def link : StructDef := { StructDef.empty with size := 4 }

def linkSchema : Schema := ⟨(∅ : Std.TreeMap String StructDef).insert "Link" link, 0⟩

/-- A link with a budget of ten bytes. -/
def firstLink : Instance :=
  .ofPlacement 0 { Placement.single ⟨"Link", 0, 100⟩ .user with budget := ⟨10, true⟩ }

/-- A workspace with this link, before anything has been asked. -/
def withLink : Workspace := ((ofSchema linkSchema .default).place firstLink.toPlacement).2

/-- Two more links follow it, of which the last one has two bytes left. -/
theorem newest_withLink : withLink.Reached 0 false ∧ withLink.StartsChain firstLink link ∧
    withLink.HasRoom firstLink 4 2 ∧ ∃ last ws' ws'',
      withLink.newest firstLink.ref .manualExpand 2 = some (last, ws') ∧
      last.location = ⟨"Link", 0, 108⟩ ∧ (last.createNext .manualExpand).runIn ws' = (.ok none, ws'') ∧
      ∃ i, ws'.find? last.id = some i ∧ i.budget = ⟨2, true⟩ := by
  have hreached : withLink.Reached 0 false :=
    .request (.start (.of_toList rfl (by decide)) trivial (by decide)) (.place _)
  have hstart : withLink.StartsChain firstLink link :=
    ⟨rfl, by decide, rfl, rfl, by decide, rfl, by decide⟩
  have hroom : withLink.HasRoom firstLink 4 2 := by
    refine ⟨fun k h1 h2 => ?_, fun j k h1 h2 h3 => ?_⟩
    · obtain rfl | rfl : k = 1 ∨ k = 2 := by omega
      · decide
      · decide
    · obtain ⟨rfl, rfl⟩ : j = 1 ∧ k = 2 := by omega
      decide
  obtain ⟨hrecords, hend⟩ := hreached.newest_of_chain (by decide) hstart .manualExpand hroom
  obtain ⟨last, ws', ws'', hnewest, hnone⟩ := hend (by decide) (by decide)
  obtain ⟨hlocation, hfound⟩ := (hrecords 2 (Nat.le_refl 2) last ws' hnewest).1 (by decide)
  exact ⟨hreached, hstart, hroom, last, ws', ws'', hnewest, hlocation, hnone, _, hfound, rfl⟩

end Workspace

end ByteAtlas
