import ByteAtlas.Resolve.Expand
import ByteAtlas.Proofs.Additions.Reading

/-!
# What an expand pass makes

A pass looks at its budget before each turn and after each child that it has placed. The next
instance of a chain and the first child of each field are placed without a look, and what is placed
for queries is no concern of the fields that ask for it. So a turn that begins within the budget may
exceed it: by one instance for each field that holds children, besides those placed for queries
(`Workspace.Reached.expandAll_makes`).
-/

namespace ByteAtlas

open Resolve (visitWithin)

/-! ## 1. Counting what a pass has placed -/

/-- Whether a field holds child instances. -/
def Field.holdsChildren (f : Field) : Bool := f.value.isNone && f.type.structName?.isSome

/-- The number of fields that do. -/
def StructDef.childFieldCount (d : StructDef) : Nat :=
  d.fields.entries.countP fun f => f.2.holdsChildren

/-- **Whether some field holds children of a struct.** -/
def Schema.HasChildren (s : Schema) (struct : String) : Prop :=
  ∃ (name : String) (d : StructDef) (f : String × Field),
    s.get? name = some d ∧ f ∈ d.fields.entries ∧ f.2.type = .struct struct

/-- Only such structs are placed for queries. -/
theorem Schema.closed_hasChildren (s : Schema) : s.Closed (fun _ => True) s.HasChildren :=
  ⟨fun _ => trivial, fun _ hd hf htype => ⟨_, _, _, hd, hf, htype⟩, fun _ _ _ _ _ => trivial⟩

namespace Workspace

/-- The instances with a number from `since` on. -/
def madeSince (ws : Workspace) (since : InstanceId) : List Instance :=
  ws.directory.toList.filter fun i => since ≤ i.id

/-- Those of them that expand passes have placed. -/
def expandedSince (ws : Workspace) (since : InstanceId) : List Instance :=
  (ws.madeSince since).filter (·.reason = .autoExpand)

variable {start ws ws' : Workspace} {since : InstanceId} {most budget : Nat}

theorem mem_madeSince (hw : ws.directory.WellFormed) {i : Instance} :
    i ∈ ws.madeSince since ↔ ws.find? i.id = some i ∧ since ≤ i.id := by
  rw [madeSince, List.mem_filter, hw.mem_toList, decide_eq_true_eq]
  exact Iff.rfl

theorem mem_expandedSince (hw : ws.directory.WellFormed) {i : Instance} :
    i ∈ ws.expandedSince since ↔
      ws.find? i.id = some i ∧ since ≤ i.id ∧ i.reason = .autoExpand := by
  rw [expandedSince, List.mem_filter, mem_madeSince hw, decide_eq_true_eq, and_assoc]

/-- If those that were not there before have the numbers `more`, there are no more than that. -/
theorem length_expandedSince_le (hw' : ws'.directory.WellFormed) (more : List InstanceId)
    (h : ∀ i ∈ ws'.expandedSince since,
      i.id ∈ more ∨ ∃ j ∈ ws.expandedSince since, j.id = i.id) :
    (ws'.expandedSince since).length ≤ more.length + (ws.expandedSince since).length := by
  have hnodup : ((ws'.expandedSince since).map Instance.id).Nodup := by
    refine List.pairwise_map.mpr ?_
    exact ((hw'.pairwise_toList.filter _).filter _).imp Nat.ne_of_lt
  have hsub : (ws'.expandedSince since).map Instance.id ⊆
      more ++ (ws.expandedSince since).map Instance.id := by
    intro id hid
    obtain ⟨i, hi, rfl⟩ := List.mem_map.mp hid
    exact List.mem_append.mpr ((h i hi).imp_right List.mem_map.mpr)
  have hle := (List.subperm_of_subset hnodup hsub).length_le
  rwa [List.length_append, List.length_map, List.length_map] at hle

/-- Whatever is placed, what is new is what there is more of. -/
theorem Adds.size_eq {reason : Reason} {placed : String → Prop} (hw : ws.directory.WellFormed)
    (h : ws.Adds reason placed ws') :
    ws'.directory.size = ws.directory.size + (ws'.madeSince ws.directory.nextId).length := by
  have hold : (ws'.directory.toList.filter fun i => i.id < ws.directory.nextId).map Instance.id =
      ws.directory.toList.map Instance.id := by
    refine List.Pairwise.eq_of_mem_iff (r := (· < ·)) ?_ ?_ fun id => ?_
    · exact List.pairwise_map.mpr (h.wellFormed.pairwise_toList.filter _)
    · exact List.pairwise_map.mpr hw.pairwise_toList
    · simp only [List.mem_map, List.mem_filter, h.wellFormed.mem_toList, hw.mem_toList,
        decide_eq_true_eq]
      constructor
      · rintro ⟨i, ⟨hi, hlt⟩, rfl⟩
        cases hthere : ws.find? i.id with
        | none => exact absurd (h.added i.id i hi hthere).1 (Nat.not_le.mpr hlt)
        | some j => exact ⟨j, hw.id_eq _ j hthere ▸ hthere, hw.id_eq _ j hthere⟩
      · rintro ⟨i, hi, rfl⟩
        obtain ⟨j, hj, _⟩ := h.kept i.id i hi
        have hid := h.wellFormed.id_eq _ j hj
        exact ⟨j, ⟨hid ▸ hj, hid ▸ hw.lt _ i hi⟩, hid⟩
  have hlength := congrArg List.length hold
  rw [List.length_map, List.length_map, Directory.length_toList] at hlength
  rw [← Directory.length_toList ws'.directory, ← hlength, madeSince,
    List.length_eq_length_filter_add fun i : Instance => decide (i.id < ws.directory.nextId)]
  congr 2
  exact List.filter_congr fun i _ => by rw [← decide_not, decide_eq_decide, Nat.not_lt]

/-- What is placed may be said to be of any struct. -/
theorem Adds.widen {reason : Reason} {placed : String → Prop} (h : ws.Adds reason placed ws') :
    ws.Adds reason (fun _ => True) ws' where
  wellFormed := h.wellFormed
  schema := h.schema
  nextId := h.nextId
  kept id i hi := by
    obtain ⟨i', hi', hr, _⟩ := h.kept id i hi
    exact ⟨i', hi', hr, fun hno => absurd trivial hno⟩
  added id i hi hno := by
    obtain ⟨hle, _, hr⟩ := h.added id i hi hno
    exact ⟨hle, trivial, hr⟩
  hits := h.hits

/-! ## 2. Within a pass -/

/-- **How far a pass has come** that began in the workspace `start`: it has placed at most `most`
instances, and what else is new has been placed for queries. -/
structure Expanding (start : Workspace) (most : Nat) (ws : Workspace) : Prop where
  adds : start.Adds .autoExpand (fun _ => True) ws
  most : (ws.expandedSince start.directory.nextId).length ≤ most
  queried : ∀ id i, ws.find? id = some i → start.find? id = none → i.reason = .query →
    start.schema.HasChildren i.struct

namespace Expanding

theorem refl (hw : start.directory.WellFormed) : start.Expanding 0 start := by
  refine ⟨.refl hw, ?_, fun id i hi hno => ?_⟩
  · refine Nat.le_of_eq (List.length_eq_zero_iff.mpr (List.eq_nil_iff_forall_not_mem.mpr ?_))
    intro i hi
    obtain ⟨hi, hle, _⟩ := (mem_expandedSince hw).mp hi
    exact absurd (hw.lt _ i hi) (Nat.not_lt.mpr hle)
  · rw [hno] at hi
    cases hi

theorem mono {more : Nat} (h : start.Expanding most ws) (hle : most ≤ more) :
    start.Expanding more ws :=
  ⟨h.adds, Nat.le_trans h.most hle, h.queried⟩

/-- **What is placed for queries** is not counted. -/
theorem query (h : start.Expanding most ws) (hq : ws.Adds .query start.schema.HasChildren ws') :
    start.Expanding most ws' := by
  have hw := h.adds.wellFormed
  have hreason {id : InstanceId} {i i' : Instance} (hi : ws.find? id = some i)
      (hi' : ws'.find? id = some i') : i'.reason = i.reason ∧ i'.struct = i.struct := by
    obtain ⟨j, hj, hr, _⟩ := hq.kept id i hi
    rw [hi'] at hj
    cases hj
    exact ⟨by rw [hr.eq_of_query], hr.struct⟩
  have hquery {id : InstanceId} {i : Instance} (hi : ws'.find? id = some i)
      (hno : ws.find? id = none) : i.reason = .query ∧ start.schema.HasChildren i.struct := by
    obtain ⟨_, hp, hr⟩ := hq.added id i hi hno
    exact ⟨hr.elim (fun h => h) fun h => h, hp⟩
  refine ⟨h.adds.trans hq.of_query.widen, ?_, fun id i hi hno hr => ?_⟩
  · refine Nat.le_trans (length_expandedSince_le hq.wellFormed [] fun i hi => .inr ?_)
      (by rw [List.length_nil, Nat.zero_add]; exact h.most)
    obtain ⟨hi, hle, hauto⟩ := (mem_expandedSince hq.wellFormed).mp hi
    cases hthere : ws.find? i.id with
    | none =>
      rw [(hquery hi hthere).1] at hauto
      cases hauto
    | some j =>
      have hid := hw.id_eq _ j hthere
      refine ⟨j, (mem_expandedSince hw).mpr ⟨hid ▸ hthere, hid ▸ hle, ?_⟩, hid⟩
      rw [← (hreason hthere hi).1, hauto]
  · cases hthere : ws.find? id with
    | none => exact (hquery hi hthere).2
    | some j =>
      obtain ⟨hr', hs'⟩ := hreason hthere hi
      rw [hs']
      exact h.queried id j hthere hno (hr'.symm.trans hr)

/-- **What a pass places** counts for one. -/
theorem place (h : start.Expanding most ws) (p : Placement) (hp : p.reason = .autoExpand) :
    start.Expanding (most + 1) (ws.place p).2 := by
  have hw := h.adds.wellFormed
  have hadds : ws.Adds .autoExpand (fun _ => True) (ws.place p).2 := hp ▸ .place hw p trivial
  -- All but the one instance are as they were, and that one is not there for a query.
  obtain ⟨placed, hother, hplaced⟩ : ∃ placed : InstanceId,
      (∀ id, id ≠ placed → (ws.place p).2.find? id = ws.find? id) ∧
      ∀ i, (ws.place p).2.find? placed = some i → i.reason ≠ .query := by
    show ∃ placed : InstanceId, (∀ id, _ → (ws.directory.add p).2.find? id = _) ∧
      ∀ i, (ws.directory.add p).2.find? placed = some i → _
    cases hfound : ws.directory.findAt? p.location with
    | some there =>
      rw [Directory.add_of_taken hfound]
      refine ⟨there.id, fun id hne => ?_, fun i hi => ?_⟩
      · rw [Directory.find?_modify, if_neg (Ne.symm hne)]
        rfl
      · rw [Directory.find?_modify, if_pos rfl] at hi
        obtain ⟨j, _, rfl⟩ := Option.map_eq_some_iff.mp hi
        show j.reason.stronger p.reason ≠ .query
        rw [hp]
        cases j.reason <;> decide
    | none =>
      refine ⟨ws.directory.nextId, fun id hne => ?_, fun i hi => ?_⟩
      · rw [Directory.find?_add_of_free hfound, if_neg (Ne.symm hne)]
        rfl
      · rw [Directory.find?_add_of_free hfound, if_pos rfl] at hi
        cases hi
        show p.reason ≠ .query
        rw [hp]
        decide
  refine ⟨h.adds.trans hadds, ?_, fun id i hi hno hr => ?_⟩
  · refine Nat.le_trans (length_expandedSince_le hadds.wellFormed [placed] fun i hi => ?_)
      (by rw [List.length_singleton, Nat.add_comm]; exact Nat.succ_le_succ h.most)
    obtain ⟨hi, hle, hauto⟩ := (mem_expandedSince hadds.wellFormed).mp hi
    by_cases he : i.id = placed
    · exact .inl (List.mem_singleton.mpr he)
    · rw [hother i.id he] at hi
      exact .inr ⟨i, (mem_expandedSince hw).mpr ⟨hi, hle, hauto⟩, rfl⟩
  · by_cases he : id = placed
    · exact absurd hr (hplaced i (he ▸ hi))
    · rw [hother id he] at hi
      exact h.queried id i hi hno hr

/-- A new instance may still be changed, but for its reason. -/
theorem modify_new (h : start.Expanding most ws) {id : InstanceId} (hnew : start.find? id = none)
    {f : Instance → Instance} (hf : KeepsPlace f) (hreason : ∀ i, (f i).reason = i.reason) :
    start.Expanding most (ws.modify id f) := by
  have hadds := h.adds.modify_new hnew hf hreason
  have hfind {other : InstanceId} {i : Instance} (hi : (ws.modify id f).find? other = some i) :
      ∃ j, ws.find? other = some j ∧ i.struct = j.struct ∧ i.reason = j.reason := by
    rw [show (ws.modify id f).find? other = if id = other then (ws.find? id).map f
      else ws.find? other from Directory.find?_modify ws.directory id other f] at hi
    split at hi
    · rename_i he
      obtain ⟨j, hj, rfl⟩ := Option.map_eq_some_iff.mp hi
      exact ⟨j, he ▸ hj, congrArg Location.struct (hf.location j), hreason j⟩
    · exact ⟨i, hi, rfl, rfl⟩
  refine ⟨hadds, ?_, fun other i hi hno hr => ?_⟩
  · refine Nat.le_trans (length_expandedSince_le hadds.wellFormed [] fun i hi => .inr ?_)
      (by rw [List.length_nil, Nat.zero_add]; exact h.most)
    obtain ⟨hi, hle, hauto⟩ := (mem_expandedSince hadds.wellFormed).mp hi
    obtain ⟨j, hj, _, hr⟩ := hfind hi
    have hid := h.adds.wellFormed.id_eq _ j hj
    exact ⟨j, (mem_expandedSince h.adds.wellFormed).mpr ⟨hid ▸ hj, hid ▸ hle, hr ▸ hauto⟩, hid⟩
  · obtain ⟨j, hj, hs, hr'⟩ := hfind hi
    rw [hs]
    exact h.queried other j hj hno (hr' ▸ hr)

/-- As long as fewer instances have been made than the budget, the pass has not placed as many. -/
theorem within (hw : start.directory.WellFormed) (h : start.Expanding most ws)
    (hlt : ws.directory.size - start.directory.size < budget) :
    start.Expanding (budget - 1) ws := by
  have hsize := h.adds.size_eq hw
  have hle : (ws.expandedSince start.directory.nextId).length ≤ _ := List.length_filter_le _ _
  exact ⟨h.adds, by omega, h.queried⟩

end Expanding

end Workspace

/-! ## 3. Steps of a pass -/

namespace Resolve

variable {α β : Type} {start ws : Workspace} {most more : Nat} {step : Resolve α}
  {next : α → Resolve β} {mid : α → Workspace → Prop} {last : β → Workspace → Prop}

/-- **Whether a pass has placed at most `most` instances after a step**, and `post` holds of its
result there. -/
def Makes (start : Workspace) (most : Nat) (ws : Workspace) (step : Resolve α)
    (post : α → Workspace → Prop) : Prop :=
  Through (start.Expanding most) ws step post

namespace Makes

theorem pure {a : α} {post : α → Workspace → Prop} (hx : start.Expanding most ws)
    (h : post a ws) : Makes start most ws (Pure.pure a) post :=
  Through.pure hx h

theorem ask {f : Workspace → α} (h : Makes start most ws (next (f ws)) last) :
    Makes start most ws (Resolve.ask f >>= next) last :=
  Through.ask h

theorem mono (h : Makes start most ws step mid) (hle : most ≤ more) :
    Makes start more ws step mid :=
  Through.mono h (fun _ hx => hx.mono hle) fun _ _ _ hmid => hmid

/-- **One step after another.** -/
theorem bind (h : Makes start most ws step mid) (hle : most ≤ more)
    (hn : ∀ a ws₁, start.Expanding most ws₁ → mid a ws₁ →
      Makes start more ws₁ (next a) last) : Makes start more ws (step >>= next) last :=
  Through.bind h (fun _ hx => hx.mono hle) hn

/-- **What only adds for queries.** -/
theorem query {post : α → Prop} (hx : start.Expanding most ws)
    (h : OnlyAdds start.schema .query start.schema.HasChildren step post) :
    Makes start most ws step fun a _ => post a := by
  obtain ⟨hadds, hpost⟩ := h ws hx.adds.wellFormed hx.adds.schema
  exact ⟨hx.query hadds, hpost⟩

/-- The steps of a request with as many frames as the limit admits. -/
theorem resolving {request : Resolver → Resolve α} (h : ∀ resolver : Resolver,
      resolver.OnlyAdds start.schema (fun _ => True) start.schema.HasChildren →
      Makes start most ws (request resolver) mid) :
    Makes start most ws (Resolve.resolving request) mid :=
  .ask (h _ (Resolver.onlyAdds_within start.schema.closed_hasChildren _))

theorem place (hx : start.Expanding most ws) (p : Placement) (hp : p.reason = .autoExpand) :
    Makes start (most + 1) ws (Resolve.update fun ws => ws.place p) fun added _ =>
      added.inserted = true → start.find? added.ref.id = none := by
  refine ⟨hx.place p hp, fun added ha hinserted => ?_⟩
  have hadds : Resolve.AddsFrom p.reason (fun _ => True) ws _ _ :=
    Resolver.OnlyAdds.place hx.adds.wellFormed p trivial
  have hadded := hadds.2 added ha
  cases hold : start.find? added.ref.id with
  | none => rfl
  | some i =>
    obtain ⟨j, hj, _⟩ := hx.adds.kept _ i hold
    rw [hadded.2.2 hinserted] at hj
    cases hj

/-- The visitor tells whether the budget is used up. -/
theorem visitWithin (hw : start.directory.WellFormed) (hx : start.Expanding most ws) (budget : Nat)
    (s : Unit) (child : InstanceRef) :
    Makes start most ws (visitWithin start.directory.size budget s child) fun a ws' =>
      a.2 = true → 0 < budget ∧ start.Expanding (budget - 1) ws' := by
  refine .ask (.pure hx fun hgoesOn => ?_)
  have hlt : ws.directory.size - start.directory.size < budget := of_decide_eq_true hgoesOn
  exact ⟨by omega, hx.within hw hlt⟩

end Makes

end Resolve

namespace Resolver.OnlyAdds

variable {start ws : Workspace} {most budget : Nat} {resolver : Resolver}
  (h : resolver.OnlyAdds start.schema (fun _ => True) start.schema.HasChildren)
include h

theorem makes_createNext (hx : start.Expanding most ws) (r : InstanceRef) :
    Resolve.Makes start (most + 1) ws (resolver.createNext r .autoExpand) fun _ _ => True := by
  refine .bind (.query hx ((h.answers trivial).size false)) (Nat.le_succ _) fun size ws₁ hx₁ _ => ?_
  have hnone : Resolve.Makes start (most + 1) ws₁ (pure none : Resolve (Option InstanceRef))
      fun _ _ => True := .pure (hx₁.mono (Nat.le_succ _)) trivial
  cases size with
  | none => exact hnone
  | some size =>
    dsimp only
    split
    · exact hnone
    · refine .ask ?_
      cases ws₁.find? r.id with
      | none => exact hnone
      | some i =>
        dsimp only
        split
        · exact hnone
        · exact .bind (.place hx₁ (nextPlacement i size .autoExpand) rfl) (Nat.le_refl _)
            fun added ws₂ hx₂ _ => .pure hx₂ trivial

theorem makes_placeChild (hx : start.Expanding most ws) (r : InstanceRef) (field : Field)
    (struct : String) (offset : Int64) (budget : Budget) :
    Resolve.Makes start (most + 1) ws
      (resolver.placeChild r field struct .autoExpand offset budget) fun _ _ => True := by
  refine .bind (.place hx { Placement.single ⟨struct, r.file, offset⟩ .autoExpand with budget } rfl)
    (Nat.le_refl _) fun added ws₁ hx₁ hnew => ?_
  dsimp only
  split
  · rename_i hinserted
    have hnone := hnew (Bool.and_eq_true_iff.mp hinserted).1
    refine .bind (.query hx₁ ((h.answers trivial).argValues field.args)) (Nat.le_refl _)
      fun args ws₂ hx₂ _ => ?_
    exact ⟨hx₂.modify_new hnone ⟨fun _ => rfl, fun _ => rfl⟩ fun _ => rfl, fun _ _ => trivial⟩
  · exact .pure hx₁ trivial

variable (hw : start.directory.WellFormed)
include hw

/-- **A chain goes on only within the budget**, by one instance at a time. -/
theorem makes_walkChain (upTo : Option Nat) (hpos : 0 < budget) (left : Nat) :
    ∀ (n : Nat) (s : Unit) (child : InstanceRef) {ws : Workspace},
      start.Expanding (budget - 1) ws →
      Resolve.Makes start budget ws (resolver.walkChain upTo .autoExpand
        (visitWithin start.directory.size budget) left n s child) fun _ _ => True := by
  have hle : budget - 1 ≤ budget := Nat.sub_le _ _
  have hsucc : budget - 1 + 1 = budget := Nat.sub_add_cancel hpos
  induction left with
  | zero => exact fun n s child ws hx => .pure (hx.mono hle) trivial
  | succ left ih =>
    intro n s child ws hx
    unfold Resolver.walkChain
    split
    · exact .pure (hx.mono hle) trivial
    · refine .bind (.query hx ((h.answers trivial).canCreateNext false false)) hle
        fun goesOn ws₁ hx₁ _ => ?_
      split
      · refine .bind (h.makes_createNext hx₁ child) (Nat.le_of_eq hsucc) fun next ws₂ hx₂ _ => ?_
        rw [hsucc] at hx₂
        cases next with
        | none => exact .pure hx₂ trivial
        | some next =>
          refine .bind (.visitWithin hw hx₂ budget s next) (Nat.le_refl _)
            fun a ws₃ hx₃ hgoesOn => ?_
          dsimp only
          split
          · exact ih _ _ _ (hgoesOn ‹_›).2
          · exact .pure hx₃ trivial
      · exact .pure (hx₁.mono hle) trivial

/-- Of children with offsets of their own, one may be placed in any case. -/
theorem makes_walkOffsets {r : InstanceRef} {field : String × Field} {formula : Formula}
    (hfield : (h.law (r := r) trivial).Has field) (hformula : field.2.offsetFormula = some formula)
    (struct : String) (origin : Int64) (upTo : Option Nat) (left : Nat) :
    ∀ (n : Nat) (s : Unit) {most : Nat} {ws : Workspace}, start.Expanding most ws →
      Resolve.Makes start (max (most + 1) budget) ws (resolver.walkOffsets r field.2 struct formula
        origin upTo .autoExpand (visitWithin start.directory.size budget) left n s)
        fun _ _ => True := by
  have hin : formula ∈ field.2.formulas := by
    simp [Field.formulas, Field.placingFormulas, hformula]
  induction left with
  | zero => exact fun n s most ws hx => .pure (hx.mono (by omega)) trivial
  | succ left ih =>
    intro n s most ws hx
    unfold Resolver.walkOffsets
    refine .bind (.query hx ((h.law trivial).evaluateField hfield hin _ _)) (by omega)
      fun offset ws₁ hx₁ _ => ?_
    cases offset with
    | none => exact .pure (hx₁.mono (by omega)) trivial
    | some offset =>
      refine .bind (.query hx₁ ((h.law trivial).hasElement hfield _ _ _)) (by omega)
        fun isThere ws₂ hx₂ _ => ?_
      split
      · refine .bind (h.makes_placeChild hx₂ r field.2 struct offset .one) (Nat.le_max_left _ _)
          fun child ws₃ hx₃ _ => ?_
        refine .bind (.visitWithin hw hx₃ budget s child) (Nat.le_max_left _ _)
          fun a ws₄ hx₄ hgoesOn => ?_
        dsimp only
        split
        · exact .pure (hx₄.mono (Nat.le_max_left _ _)) trivial
        · rename_i hon
          have hon : a.2 = true ∧ upTo ≠ some n := by simpa using hon
          obtain ⟨hpos, hx₅⟩ := hgoesOn hon.1
          exact (ih (n + 1) a.1 hx₅).mono (by omega)
      · exact ih _ _ hx₂

/-- **A walk in a pass** places one child in any case, and others only within the budget. -/
theorem makes_walk (hx : start.Expanding most ws) (r : InstanceRef) (i : Nat) :
    Resolve.Makes start (max (most + 1) budget) ws (resolver.walk r i none .autoExpand
      (visitWithin start.directory.size budget) ()) fun _ _ => True := by
  have hle : most ≤ max (most + 1) budget := by omega
  unfold Resolver.walk
  refine .bind (.query hx (askField start.schema .query start.schema.HasChildren r i)) hle
    fun found ws₁ hx₁ hfield => ?_
  cases found with
  | none => exact .pure (hx₁.mono hle) trivial
  | some field =>
    obtain ⟨d, hd, hmem⟩ := hfield field rfl
    dsimp only
    split
    · exact .pure (hx₁.mono hle) trivial
    · exact .pure (hx₁.mono hle) trivial
    · rename_i struct _ _
      refine .ask ?_
      split
      · exact .pure (hx₁.mono hle) trivial
      · refine .bind (.query hx₁ ((h.answers trivial).elementCount i false)) hle
          fun count ws₂ hx₂ _ => ?_
        split
        · exact .pure (hx₂.mono hle) trivial
        · split
          · rename_i formula _ hformula
            refine .ask ?_
            cases ws₂.entryOf? r i with
            | none => exact .pure (hx₂.mono hle) trivial
            | some entry =>
              exact h.makes_walkOffsets hw ⟨d, hd, hmem⟩ hformula struct _ none _ 0 () hx₂
          · refine .bind (.query hx₂ ((h.answers trivial).fieldOffset i false)) hle
              fun offset ws₃ hx₃ _ => ?_
            refine .bind (h.makes_placeChild hx₃ r field.2 struct _ _) (Nat.le_max_left _ _)
              fun child ws₄ hx₄ _ => ?_
            refine .bind (.visitWithin hw hx₄ budget () child) (Nat.le_max_left _ _)
              fun a ws₅ hx₅ hgoesOn => ?_
            split
            · obtain ⟨hpos, hx₆⟩ := hgoesOn ‹_›
              exact (h.makes_walkChain hw none hpos _ 0 a.1 child hx₆).mono (Nat.le_max_right _ _)
            · exact .pure (hx₅.mono (Nat.le_max_left _ _)) trivial

end Resolver.OnlyAdds

/-! ## 4. The pass -/

namespace Resolve.Makes

variable {start ws : Workspace} {most budget k : Nat} (hw : start.directory.WellFormed)
include hw

/-- **The fields of an instance** from the one numbered `i` on: each that holds children may have
one placed beyond the budget. -/
theorem expandFields {r : InstanceRef} {d : StructDef} (hd : start.structOf? r = some d)
    (left : Nat) : ∀ (i : Nat) {most : Nat} {ws : Workspace}, start.Expanding most ws →
      budget ≤ most →
      Makes start (most + (d.fields.entries.drop i).countP fun f => f.2.holdsChildren) ws
        (Resolve.expandFields start.directory.size budget r left i) fun _ _ => True := by
  induction left with
  | zero => exact fun i most ws hx _ => .pure (hx.mono (Nat.le_add_right _ _)) trivial
  | succ left ih =>
    intro i most ws hx hbudget
    have hfield : ws.fieldOf? r i = d.fields.entries[i]? := by
      unfold Workspace.fieldOf? Workspace.structOf?
      rw [hx.adds.schema, show start.schema.get? r.struct = some d from hd]
      rfl
    have hcount : (d.fields.entries.drop i).countP (fun f => f.2.holdsChildren) =
        (d.fields.entries.drop (i + 1)).countP (fun f => f.2.holdsChildren) +
          if ws.holdsChildren r i then 1 else 0 := by
      unfold Workspace.holdsChildren
      rw [hfield]
      by_cases hi : i < d.fields.entries.length
      · rw [List.drop_eq_getElem_cons hi, List.countP_cons, List.getElem?_eq_getElem hi]
        rfl
      · rw [List.drop_eq_nil_of_le (by omega), List.drop_eq_nil_of_le (by omega),
          List.getElem?_eq_none (by omega)]
        rfl
    unfold Resolve.expandFields
    refine .ask ?_
    rw [hcount]
    split
    · refine .bind (.resolving fun _ h => .query hx ((h.answers trivial).isPresent i false)) (by omega)
        fun isPresent ws₁ hx₁ _ => ?_
      split
      · refine .bind (.resolving fun _ h => h.makes_walk hw hx₁ r i) (by omega)
          fun _ ws₂ hx₂ _ => ?_
        have hrest := ih (i + 1) hx₂ (Nat.le_max_right _ _)
        exact hrest.mono (by omega)
      · exact (ih (i + 1) hx₁ hbudget).mono (by omega)
    · exact (ih (i + 1) hx hbudget).mono (by omega)

/-- **One turn**, which begins within the budget. -/
theorem expandInstance (hk : ∀ name d, start.schema.get? name = some d → d.childFieldCount ≤ k)
    (hpos : 0 < budget) (hx : start.Expanding (budget - 1) ws) (r : InstanceRef) :
    Makes start (budget + k) ws (Resolve.expandInstance start.directory.size budget r)
      fun _ _ => True := by
  have hrest {ws : Workspace} (hx : start.Expanding budget ws) : Makes start (budget + k) ws
      (do
        let fieldCount ← Resolve.ask fun ws => (ws.structOf? r).elim 0 StructDef.fieldCount
        Resolve.expandFields start.directory.size budget r fieldCount 0) fun _ _ => True := by
    refine .ask ?_
    have hstruct : ws.structOf? r = start.structOf? r := by
      unfold Workspace.structOf?
      rw [hx.adds.schema]
    rw [hstruct]
    cases hd : start.structOf? r with
    | none => exact .pure (hx.mono (Nat.le_add_right _ _)) trivial
    | some d =>
      have hle : (d.fields.entries.drop 0).countP _ ≤ k := hk _ d hd
      exact (expandFields hw hd _ 0 hx (Nat.le_refl _)).mono (Nat.add_le_add_left hle _)
  refine .bind (.resolving fun _ h => .query hx ((h.answers trivial).canCreateNext false false))
    (by omega)
    fun goesOn ws₁ hx₁ _ => ?_
  split
  · refine .bind (.resolving fun _ h => h.makes_createNext hx₁ r) (by omega) fun _ ws₂ hx₂ _ => ?_
    exact hrest (hx₂.mono (by omega))
  · exact hrest (hx₁.mono (by omega))

/-- **The turns of a pass.** None begins once the budget is used up. -/
theorem expandFrom (hk : ∀ name d, start.schema.get? name = some d → d.childFieldCount ≤ k)
    (file : Option FileId) (left : Nat) : ∀ (index : Nat) {ws : Workspace},
      start.Expanding (budget + k) ws →
      Makes start (budget + k) ws (Resolve.expandFrom file start.directory.size budget left index)
        fun _ _ => True := by
  induction left with
  | zero => exact fun index ws hx => .pure hx trivial
  | succ left ih =>
    intro index ws hx
    unfold Resolve.expandFrom
    refine .ask ?_
    split
    · refine .ask ?_
      split
      · exact .query hx .noteLimitHit
      · exact .pure hx trivial
    · rename_i hlt
      have hlt := Nat.lt_of_not_le hlt
      refine .ask ?_
      cases ws.directory.atIndex? index with
      | none => exact .pure hx trivial
      | some i =>
        dsimp only
        split
        · refine .bind (expandInstance hw hk (by omega) (hx.within hw hlt) i.ref) (Nat.le_refl _)
            fun _ ws₁ hx₁ _ => ?_
          exact ih (index + 1) hx₁
        · exact ih (index + 1) hx

/-- **The pass**, which tells how many instances it has made. -/
theorem expandAll
    (hk : ∀ name d, start.schema.get? name = some d → d.childFieldCount ≤ k)
    (file : Option FileId) :
    Makes start (start.limits.maxExpandInstances + k) start (Resolve.expandAll file)
      fun made ws' => made = (ws'.madeSince start.directory.nextId).length := by
  have hx : start.Expanding (start.limits.maxExpandInstances + k) start :=
    (Workspace.Expanding.refl hw).mono (Nat.zero_le _)
  refine .ask (.ask (.bind (expandFrom hw hk file _ 0 hx) (Nat.le_refl _) fun _ ws₁ hx₁ _ => ?_))
  refine ⟨hx₁, fun made hmade => ?_⟩
  have hmade : ws₁.directory.size - start.directory.size = made := Except.ok.inj hmade
  show made = (ws₁.madeSince start.directory.nextId).length
  rw [← hmade, hx₁.adds.size_eq hw, Nat.add_sub_cancel_left]

end Resolve.Makes

namespace Workspace

/-- **What an expand pass makes.** After any history, the pass ends and tells how many instances are
new. It has placed at most one for each field that holds children in a definition more than its
budget. The others are children that have been placed for queries. So no more are new than the
budget allows if no definition has a field of children. -/
theorem Reached.expandAll_makes {ws : Workspace} {n : Nat} {edited : Bool}
    (h : ws.Reached n edited) (file : Option FileId) {k : Nat}
    (hk : ∀ name d, ws.schema.get? name = some d → d.childFieldCount ≤ k) :
    ∃ (made : List Instance) (ws' : Workspace),
      (Resolve.expandAll file).runIn ws = (.ok made.length, ws') ∧
      made = ws'.madeSince ws.directory.nextId ∧
      (made.filter (·.reason = .autoExpand)).length ≤ ws.limits.maxExpandInstances + k ∧
      (∀ i ∈ made, i.reason = .autoExpand ∨
        i.reason = .query ∧ ws.schema.HasChildren i.struct) ∧
      ((∀ struct, ¬ ws.schema.HasChildren struct) →
        made.length ≤ ws.limits.maxExpandInstances) := by
  have hs := h.atRest.sound
  have hw := hs.directory
  obtain ⟨count, ws', hrun, _⟩ := (Request.expandAll file).ends hs
  obtain ⟨hx, hcount⟩ := Resolve.Makes.expandAll hw hk file
  rw [hrun] at hx hcount
  have hkind (i : Instance) (hi : i ∈ ws'.madeSince ws.directory.nextId) :
      i.reason = .autoExpand ∨ i.reason = .query ∧ ws.schema.HasChildren i.struct := by
    obtain ⟨hi, hle⟩ := (mem_madeSince hx.adds.wellFormed).mp hi
    have hno : ws.find? i.id = none := by
      cases hold : ws.find? i.id with
      | none => rfl
      | some j => exact absurd (hw.lt _ j hold) (Nat.not_lt.mpr hle)
    obtain ⟨_, _, hr⟩ := hx.adds.added _ i hi hno
    exact hr.imp_right fun hr => ⟨hr, hx.queried _ i hi hno hr⟩
  refine ⟨ws'.madeSince ws.directory.nextId, ws', ?_, rfl, hx.most, hkind, fun hplain => ?_⟩
  · rw [hrun, hcount count rfl]
  · have hnone : ∀ name d, ws.schema.get? name = some d → d.childFieldCount ≤ 0 := by
      intro name d hd
      refine Nat.le_of_eq (List.countP_eq_zero.mpr fun f hf => ?_)
      cases htype : f.2.type with
      | scalar _ => simp [Field.holdsChildren, htype, ElementType.structName?]
      | struct struct => exact absurd ⟨name, d, f, hd, hf, htype⟩ (hplain struct)
    have hmost := (Resolve.Makes.expandAll hw hnone file).1.most
    rw [hrun] at hmost
    have hall : ws'.expandedSince ws.directory.nextId = ws'.madeSince ws.directory.nextId := by
      refine List.filter_eq_self.mpr fun i hi => decide_eq_true ?_
      exact (hkind i hi).resolve_right fun hquery => hplain _ hquery.2
    rwa [hall] at hmost

/-- Two bytes. -/
def half : StructDef := { StructDef.empty with size := 2 }

/-- A struct of two of them. -/
def pair : StructDef :=
  { StructDef.empty with
    size := 4
    fields := ⟨[("low", Field.ofType (.struct "Half")),
      ("high", { Field.ofType (.struct "Half") with offset := 2 })], by decide⟩ }

def pairSchema : Schema :=
  ⟨((∅ : Std.TreeMap String StructDef).insert "Pair" pair).insert "Half" half, 0⟩

/-- A chain of two pairs, and a budget of one instance. -/
def withPairs : Workspace :=
  ((ofSchema pairSchema { Limits.default with maxExpandInstances := 1 }).place
    { Placement.single ⟨"Pair", 0, 0⟩ .user with budget := ⟨2, false⟩ }).2

/-- In the turn of the first pair the second is placed, and both halves of the first: three
instances, two beyond the budget. -/
theorem expandAll_makes_withPairs : withPairs.Reached 0 false ∧
    withPairs.limits.maxExpandInstances = 1 ∧
    ∃ (made : List Instance) (ws' : Workspace),
      (Resolve.expandAll none).runIn withPairs = (.ok 3, ws') ∧
      made = ws'.madeSince withPairs.directory.nextId ∧ made.length = 3 ∧
      (made.filter (·.reason = .autoExpand)).length ≤ 1 + 2 := by
  have hreached : withPairs.Reached 0 false :=
    .request (.start (.of_toList rfl (by decide)) trivial (by decide)) (.place _)
  have hk (name : String) (d : StructDef) (hd : pairSchema.get? name = some d) :
      d.childFieldCount ≤ 2 :=
    Schema.forall_of_toList (P := fun d => d.childFieldCount ≤ 2) (by decide) hd
  obtain ⟨made, ws', hrun, hmade, hmost, _⟩ := hreached.expandAll_makes none hk
  have hthree : ((Resolve.expandAll none).runIn withPairs).1 = .ok 3 := by decide +kernel
  rw [hrun] at hthree
  have hlength : made.length = 3 := Except.ok.inj hthree
  exact ⟨hreached, rfl, made, ws', hlength ▸ hrun, hmade, hlength, hmost⟩

end Workspace

end ByteAtlas
