import ByteAtlas.Proofs.Resolve.Arrivals

/-!
# The order of what queries find

The instances of a struct are found in the order in which they were made. Children are found in the
order in which a walk comes to them, and that is another matter: a child that is made when the walk
comes to it is younger than all that were found before (`Workspace.Grows.id_lt_of_new`), but one
that was there already may be older. So what a query for children finds is in the order in which it
was made just if every child that was there already is younger than those found before it
(`Workspace.Reached.select_order`).
-/

namespace ByteAtlas

open Resolve (Ends)

/-- Whether instances come in the order in which they were made, each once. -/
def InCreationOrder (rs : List InstanceRef) : Prop := rs.Pairwise fun a b => a.id < b.id

/-! ## 1. New instances -/

/-- **An instance that is made is younger than all that there were.** -/
theorem Workspace.Grows.id_lt_of_new {once : Prop} {ws ws' : Workspace} {r new : InstanceRef}
    (hg : ws.Grows ws') (hs : ws.Sound once) (hr : ws.IsLive r) (hnew : ws'.IsLive new)
    (hnot : ¬ ws.IsLive new) : r.id < new.id := by
  obtain ⟨i, hi, _⟩ := hr
  obtain ⟨j, hj, hjr⟩ := hnew
  have hfree : ws.find? new.id = none := by
    cases hk : ws.find? new.id with
    | none => rfl
    | some k =>
      obtain ⟨j', hj', hsame⟩ := hg.instances new.id k hk
      cases hj.symm.trans hj'
      exact absurd ⟨k, hk, hsame.ref.symm.trans hjr⟩ hnot
  exact Nat.lt_of_lt_of_le (hs.directory.lt r.id i hi) (hg.added new.id j hj hfree)

/-! ## 2. Gathering children -/

/-- A field that holds children is of some struct. -/
theorem Workspace.exists_struct_of_holdsChildren {ws : Workspace} {r : InstanceRef} {i : Nat}
    (h : ws.holdsChildren r i = true) :
    ∃ f struct, ws.fieldOf? r i = some f ∧ f.2.type = .struct struct := by
  unfold Workspace.holdsChildren at h
  cases hf : ws.fieldOf? r i with
  | none =>
    rw [hf] at h
    cases h
  | some f =>
    rw [hf, Option.any_some, Bool.and_eq_true] at h
    cases htype : f.2.type with
    | scalar t =>
      rw [htype] at h
      cases h.2
    | struct struct => exact ⟨f, struct, rfl, htype⟩

/-- Whether some walk of a query comes to a child so. -/
def Arrival.IsReached (a : Arrival) : Prop :=
  ∃ r field struct last, Arrival.Comes r field struct .query last a

/-- **Children that have been gathered** since `start`, one after the other. -/
structure Gathered (once : Prop) (start : Workspace) (gathered : List Arrival) (ws : Workspace) :
    Prop where
  distinct : gathered.Pairwise fun a b => a.child.id ≠ b.child.id
  inTurn : gathered.Pairwise fun a b => a.after.Grows b.before
  reached : ∀ a ∈ gathered, a.IsReached
  since : ∀ a ∈ gathered, a.Since once start
  kept : ∀ a ∈ gathered, a.after.Grows ws

section

variable {once : Prop} {start ws ws' : Workspace} {gathered : List Arrival}

namespace Gathered

theorem nil : Gathered once start [] ws where
  distinct := .nil
  inTurn := .nil
  reached _ ha := nomatch ha
  since _ ha := nomatch ha
  kept _ ha := nomatch ha

theorem grows (h : Gathered once start gathered ws) (hg : ws.Grows ws') :
    Gathered once start gathered ws' :=
  { h with kept := fun a ha => (h.kept a ha).trans hg }

/-- One more child, which is none of the others. -/
theorem concat {a : Arrival} (h : Gathered once start gathered a.before)
    (hnew : ∀ b ∈ gathered, b.child.id ≠ a.child.id) (hreached : a.IsReached)
    (hsince : a.Since once start) : Gathered once start (gathered ++ [a]) a.after where
  distinct := List.pairwise_append.mpr ⟨h.distinct, List.pairwise_singleton _ _, fun b hb c hc => by
    rw [List.mem_singleton.mp hc]
    exact hnew b hb⟩
  inTurn := List.pairwise_append.mpr ⟨h.inTurn, List.pairwise_singleton _ _, fun b hb c hc => by
    rw [List.mem_singleton.mp hc]
    exact h.kept b hb⟩
  reached := List.forall_mem_append.mpr ⟨h.reached, List.forall_mem_singleton.mpr hreached⟩
  since := List.forall_mem_append.mpr ⟨h.since, List.forall_mem_singleton.mpr hsince⟩
  kept := List.forall_mem_append.mpr
    ⟨fun b hb => (h.kept b hb).trans (hsince.placed.trans hsince.after),
      List.forall_mem_singleton.mpr (.refl _)⟩

/-- **Only children that were there already can be out of order**: any other is younger than those
gathered before it. -/
theorem inCreationOrder_iff (h : Gathered once start gathered ws) :
    InCreationOrder (gathered.map (·.child)) ↔
      gathered.Pairwise fun a b => b.before.IsLive b.child → a.child.id < b.child.id := by
  rw [InCreationOrder, List.pairwise_map]
  constructor
  · intro hlt
    refine hlt.imp ?_
    exact fun hlt _ => hlt
  · intro hfound
    refine (h.inTurn.and hfound).imp_of_mem fun {a b} ha hb ⟨hturn, hfound⟩ => ?_
    by_cases hold : b.before.IsLive b.child
    · exact hfound hold
    · have ha := h.since a ha
      have hb := h.since b hb
      exact hb.placed.id_lt_of_new hb.sound (hturn.isLive (ha.after.isLive ha.live)) hb.live hold

end Gathered

namespace Resolver

/-- **The visitor of a query gathers children**, each once. -/
theorem follows_gatherMeeting {resolver : Resolver} (h : resolver.Reliable once)
    (filter : QueryFilter) {r : InstanceRef} {field : Field} {struct : String} (hg : start.Grows ws) :
    (resolver.gatherMeeting filter).Follows once r field struct .query ws fun found _ ws' =>
      ∃ gathered : List Arrival, found = gathered.map (·.child) ∧
        Gathered once start gathered ws' where
  grows hg := fun ⟨gathered, hfound, hgathered⟩ => ⟨gathered, hfound, hgathered.grows hg⟩
  visit := by
    rintro found last before placed child hg₀ hs hg₁ hs₁ hlive hcomes ⟨gathered, rfl, hgathered⟩
    unfold Resolver.gatherMeeting
    split
    · exact .pure hs₁ (.refl placed) ⟨gathered, rfl, hgathered.grows hg₁⟩
    · rename_i hnone
      refine .call ((h.answers _).meets filter hs₁ hlive) fun met ws₂ hs₂ hg₂ _ => ?_
      split
      · let a : Arrival := ⟨⟨child, ws₂⟩, before, placed⟩
        have hsince : a.Since once start := ⟨hg.trans hg₀, hs, hg₁, hlive, hg₂, hs₂⟩
        refine .pure hs₂ hg₂ ⟨gathered ++ [a], by rw [List.map_append]; rfl, ?_⟩
        refine Gathered.concat hgathered (fun b hb he => hnone ?_) ⟨r, field, struct, last, hcomes⟩
          hsince
        exact List.any_eq_true.mpr ⟨b.child, List.mem_map_of_mem hb, decide_eq_true he⟩
      · exact .pure hs₂ hg₂ ⟨gathered, rfl, hgathered.grows (hg₁.trans hg₂)⟩

/-- The children in a field of one instance. -/
theorem gathered_gatherFrom (field : String) (filter : QueryFilter) {frames : Nat} {r : InstanceRef}
    {gathered : List Arrival} (hg : start.Grows ws) (hs : ws.Sound once) (hr : ws.IsLive r)
    (hframes : ws.limits.maxDepth - ws.depth = frames) (h : Gathered once start gathered ws) :
    Ends once ws ((within frames).gatherFrom field filter r (gathered.map (·.child))) ws
      fun found ws' => ∃ gathered : List Arrival, found = gathered.map (·.child) ∧
        Gathered once start gathered ws' := by
  have hreliable : (within frames).Reliable once := reliable_within frames
  unfold Resolver.gatherFrom
  refine .ask ?_
  split
  · exact .pure hs (.refl ws) ⟨gathered, rfl, h⟩
  · rename_i i _
    refine .ask ?_
    split
    · rename_i hholds
      refine .call (hreliable.isPresent hs hr i false) fun present ws₁ hs₁ hg₁ _ => ?_
      split
      · obtain ⟨f, struct, hf, htype⟩ := Workspace.exists_struct_of_holdsChildren hholds
        have hframes₁ : ws₁.limits.maxDepth - ws₁.depth = frames := by
          rw [hg₁.limits, hg₁.depth, hframes]
        refine .call (follows_walk (follows_gatherMeeting hreliable filter (hg.trans hg₁))
          (.refl ws₁) hs₁ (hg₁.isLive hr) hframes₁ ((hg₁.fieldOf? r i).trans hf) htype none _ none
          ⟨gathered, rfl, h.grows hg₁⟩) fun _ _ hs₂ hg₂ hgathered => ?_
        obtain ⟨_, hgathered⟩ := hgathered
        exact .pure hs₂ (hg₁.trans hg₂) hgathered
      · exact .pure hs₁ hg₁ ⟨gathered, rfl, h.grows hg₁⟩
    · exact .pure hs (.refl ws) ⟨gathered, rfl, h⟩

/-- **The children of some instances are gathered one after the other**, by induction on the
instances. -/
theorem gathered_findChildren (field : String) (filter : QueryFilter) {frames : Nat}
    (parents : List InstanceRef) : ∀ {ws : Workspace} (gathered : List Arrival), start.Grows ws →
      ws.Sound once → ws.AllLive parents → ws.limits.maxDepth - ws.depth = frames →
      Gathered once start gathered ws →
      Ends once ws
        ((within frames).findChildren field filter parents (gathered.map (·.child))) ws
        fun found ws' => ∃ gathered : List Arrival, found = gathered.map (·.child) ∧
          Gathered once start gathered ws' := by
  induction parents with
  | nil => exact fun _ _ hs _ _ h => .pure hs (.refl _) ⟨_, rfl, h⟩
  | cons r rs ih =>
    intro ws gathered hg hs hl hframes h
    obtain ⟨hr, hrs⟩ := List.forall_mem_cons.mp hl
    rw [findChildren_cons]
    refine .call (gathered_gatherFrom field filter hg hs hr hframes h)
      fun found ws₁ hs₁ hg₁ hgathered => ?_
    obtain ⟨gathered, rfl, hgathered⟩ := hgathered
    have hframes₁ : ws₁.limits.maxDepth - ws₁.depth = frames := by
      rw [hg₁.limits, hg₁.depth, hframes]
    exact .rebase hg₁ (ih gathered (hg.trans hg₁) hs₁ (Workspace.AllLive.grows hrs hg₁) hframes₁
      hgathered)

end Resolver

/-! ## 3. Queries -/

/-- The instances that meet some conditions stay in order. -/
theorem Resolver.Reliable.sublist_keepMeeting {resolver : Resolver} (h : resolver.Reliable once)
    (filter : QueryFilter) (rs : List InstanceRef) : ∀ {ws : Workspace}, ws.Sound once →
      ws.AllLive rs → Ends once ws (resolver.keepMeeting filter rs) ws fun kept _ =>
        kept.Sublist rs := by
  induction rs with
  | nil => exact fun hs _ => .pure hs (.refl _) .slnil
  | cons r rs ih =>
    intro ws hs hl
    obtain ⟨hr, hrs⟩ := List.forall_mem_cons.mp hl
    unfold Resolver.keepMeeting
    refine .call ((h.answers r).meets filter hs hr) fun keep ws₁ hs₁ hg₁ _ => ?_
    refine .call (ih hs₁ (Workspace.AllLive.grows hrs hg₁)) fun rest ws₂ hs₂ hg₂ hrest => ?_
    refine .pure hs₂ (hg₁.trans hg₂) ?_
    split
    · exact hrest.cons_cons r
    · exact hrest.cons r

/-- **The instances of a struct are found in the order in which they were made.** -/
theorem Resolver.Reliable.inCreationOrder_findInstances {resolver : Resolver}
    (h : resolver.Reliable once) (hs : ws.Sound once) (struct : String) (file : Option FileId)
    (filter : QueryFilter) :
    Ends once ws (resolver.findInstances struct file filter) ws fun found _ =>
      InCreationOrder found := by
  unfold Resolver.findInstances
  refine .ask ((h.sublist_keepMeeting filter _ hs (hs.allLive_instancesOf struct file)).mono
    fun found _ _ _ hsub => List.Pairwise.sublist hsub ?_)
  rw [List.pairwise_map]
  exact hs.directory.pairwise_toList.filter _

/-- The selector of the last step of a query. -/
def Query.selector? : Query → Option Expr
  | .root _ _ filters => filters.selector
  | .sub _ _ filters => filters.selector
  | .error => none

/-- **The order of what a query finds**: that in which it was made, or that in which walks came to
it. -/
def Workspace.FoundBy (once : Prop) (ws : Workspace) (found : List InstanceRef) (ws' : Workspace) :
    Query → Prop
  | .sub _ _ _ => ∃ gathered : List Arrival, found = gathered.map (·.child) ∧
      Gathered once ws gathered ws' ∧
      (InCreationOrder found ↔
        gathered.Pairwise fun a b => b.before.IsLive b.child → a.child.id < b.child.id)
  | .root _ _ _ | .error => InCreationOrder found

/-- Without a selector all that was found is left. -/
theorem Filters.select_of_selector {m : Type → Type} [Monad m] {ι : Type} (env : Environment m ι)
    {filters : Filters} (h : filters.selector = Option.none) (found : List ι) :
    filters.select env found = pure found := by
  obtain ⟨texts, values, selector⟩ := filters
  cases h
  rw [Filters.select]

/-- **The order of what a query without a selector finds.** -/
theorem Resolver.foundBy_run {frames : Nat} {scope : Scope} (hs : ws.Sound once)
    (hr : ws.IsLive scope.root) (hframes : ws.limits.maxDepth - ws.depth = frames) {query : Query}
    (hselector : query.selector? = none) :
    Ends once ws (query.run ((within frames).environment scope)) ws fun found ws' =>
      ws.FoundBy once found ws' query := by
  have hreliable : (within frames).Reliable once := reliable_within frames
  have henv := hreliable.searches.environment scope
  have hroots : ws.AllLive ((within frames).environment scope).roots :=
    List.forall_mem_singleton.mpr hr
  have hasked {names : List String} : ∀ name ∈ names, (Law.ends once).Asked name :=
    fun _ _ => trivial
  cases query with
  | error => exact .pure hs (.refl ws) .nil
  | root struct isGlobal filters =>
    rw [Query.run]
    refine .call (henv.conditions filters hroots hasked hs) fun values ws₁ hs₁ hg₁ _ => ?_
    have hfound : Ends once ws₁ (((within frames).environment scope).instancesOf struct isGlobal
        ⟨filters.texts, values⟩) ws₁ fun found _ => InCreationOrder found := by
      show Ends once _ (if scope.before.isSome then _ else _) _ _
      split
      · exact .pure hs₁ (.refl ws₁) .nil
      · exact hreliable.inCreationOrder_findInstances hs₁ struct _ _
    refine .call hfound fun found ws₂ hs₂ hg₂ hfound => ?_
    rw [Filters.select_of_selector _ hselector]
    exact .pure hs₂ (hg₁.trans hg₂) hfound
  | sub parent field filters =>
    rw [Query.run_sub]
    refine .call (henv.runOrRoots parent hroots hasked hs) fun parents ws₁ hs₁ hg₁ hparents => ?_
    refine .call (henv.conditions filters (hroots.grows hg₁) hasked hs₁) fun values ws₂ hs₂ hg₂ _ => ?_
    have hg₂' := hg₁.trans hg₂
    have hframes₂ : ws₂.limits.maxDepth - ws₂.depth = frames := by
      rw [hg₂'.limits, hg₂'.depth, hframes]
    have hfound : Ends once ws₂ (((within frames).environment scope).children parents field
        ⟨filters.texts, values⟩) ws₂ fun found ws' => ∃ gathered : List Arrival,
          found = gathered.map (·.child) ∧ Gathered once ws gathered ws' := by
      show Ends once _ (if scope.before.isSome then _ else _) _ _
      split
      · exact .pure hs₂ (.refl ws₂) ⟨[], rfl, .nil⟩
      · exact gathered_findChildren field _ parents [] hg₂' hs₂ (hparents.grows hg₂) hframes₂ .nil
    refine .call hfound fun found ws₃ hs₃ hg₃ ⟨gathered, hfound, hgathered⟩ => ?_
    rw [Filters.select_of_selector _ hselector]
    subst hfound
    exact .pure hs₃ (hg₂'.trans hg₃) ⟨gathered, rfl, hgathered, hgathered.inCreationOrder_iff⟩

end

/-- **The order of what a query finds**, after any history and in any scope, if its last step has no
selector: each instance is found once, instances of a struct in the order in which they were made,
and children in the order in which walks came to them. That is the order in which they were made
just if every child that was there already when a walk came to it is younger than those found
before it; children that are made on the way always are. -/
theorem Workspace.Reached.select_order {ws : Workspace} {n : Nat} {edited : Bool}
    (h : ws.Reached n edited) (scope : Scope) (hr : ws.IsLive scope.root) (query : Query)
    (hselector : query.selector? = none) :
    ∃ found ws', (scope.select query).runIn ws = (.ok found, ws') ∧
      (found.map InstanceRef.id).Nodup ∧ ws.FoundBy (n < Schema.versionLimit) found ws' query := by
  obtain ⟨found, ws', hrun, _, _, hfound⟩ := Resolver.foundBy_run h.atRest.sound hr rfl hselector
  refine ⟨found, ws', (Resolve.runIn_resolving _ rfl).trans hrun, ?_, hfound⟩
  have hordered (hfound : InCreationOrder found) : (found.map InstanceRef.id).Nodup :=
    List.pairwise_map.mpr (hfound.imp Nat.ne_of_lt)
  cases query with
  | root _ _ _ => exact hordered hfound
  | error => exact hordered hfound
  | sub _ _ _ =>
    obtain ⟨gathered, rfl, hgathered, _⟩ := hfound
    rw [List.map_map]
    exact List.pairwise_map.mpr hgathered.distinct

namespace Workspace

/-- A struct of four bytes. -/
def rackSlot : StructDef :=
  { StructDef.empty with
    size := 4
    fields := ⟨[("load", .ofType (.scalar .char))], by decide⟩ }

/-- A struct with two of them. -/
def rack : StructDef :=
  { StructDef.empty with
    size := 8
    fields := ⟨[("slots", { Field.ofType (.struct "Slot") with count := 2 })], by decide⟩ }

def rackSchema : Schema :=
  ⟨((∅ : Std.TreeMap String StructDef).insert "Rack" rack).insert "Slot" rackSlot, 0⟩

def rackRef : InstanceRef := ⟨0, ⟨"Rack", 0, 0⟩⟩

/-- A workspace with a rack, and with the second of its slots, before anything has been asked. -/
def withRack : Workspace :=
  (((ofSchema rackSchema .default).place (.single rackRef.location .user)).2.place
    (.single ⟨"Slot", 0, 4⟩ .user)).2

/-- The numbers of what has been found. -/
def foundIds (result : Except Fault (List InstanceRef)) : List InstanceId :=
  match result with
  | .error _ => []
  | .ok found => found.map InstanceRef.id

/-- The slots of a rack are found out of order: the second one was there first. -/
theorem select_order_withRack : withRack.Reached 0 false ∧ withRack.IsLive rackRef ∧
    ∃ found ws', ((Scope.whole rackRef).select (.sub none "slots" .none)).runIn withRack =
        (.ok found, ws') ∧ found.map InstanceRef.id = [2, 1] ∧ ¬ InCreationOrder found ∧
      ∃ gathered : List Arrival, found = gathered.map (·.child) ∧
        ∃ a ∈ gathered, a.before.IsLive a.child := by
  have hfirst : ((ofSchema rackSchema .default).place (.single rackRef.location .user)).2.Reached 0
      false :=
    .request (.start (.of_toList rfl (by decide)) trivial (by decide)) (.place _)
  have hreached : withRack.Reached 0 false := .request hfirst (.place (.single ⟨"Slot", 0, 4⟩ .user))
  have hlive : withRack.IsLive rackRef := ⟨_, rfl, rfl⟩
  obtain ⟨found, ws', hrun, _, gathered, hfound, _, hiff⟩ :=
    hreached.select_order (.whole rackRef) hlive (.sub none "slots" .none) rfl
  have hids : foundIds (((Scope.whole rackRef).select (.sub none "slots" .none)).runIn
      withRack).1 = [2, 1] := by
    decide +kernel
  rw [hrun] at hids
  have hids : found.map InstanceRef.id = [2, 1] := hids
  have hnot : ¬ InCreationOrder found := fun hordered => by
    have hpairs : (found.map InstanceRef.id).Pairwise (· < ·) := List.pairwise_map.mpr hordered
    rw [hids] at hpairs
    exact absurd hpairs (by decide)
  refine ⟨hreached, hlive, found, ws', hrun, hids, hnot, gathered, hfound, ?_⟩
  by_contra hnone
  refine hnot (hiff.mpr (List.pairwise_iff_forall_sublist.mpr fun {a b} hsub hold => ?_))
  exact absurd ⟨b, hsub.subset (.tail _ (.head _)), hold⟩ hnone

end Workspace

end ByteAtlas
