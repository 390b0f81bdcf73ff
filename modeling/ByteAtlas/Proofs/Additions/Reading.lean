import ByteAtlas.Proofs.Additions.Children
import ByteAtlas.Proofs.Directory.Roll
import ByteAtlas.Proofs.Resolve.Walks

/-!
# Reading never edits

An `Accessor` is a question to an instance that does not ask for anything to be made. What is placed
to answer it is placed for queries, behind all instances that there are, and of those at most the
budgets are other ones afterwards (`Workspace.Reached.reads`).
-/

namespace ByteAtlas

/-! ## 1. What is read -/

/-- **What can be read of an instance**: everything that can be asked of it but for the next one of
its chain to be placed. -/
inductive Accessor : {α : Type} → (InstanceRef → Resolve α) → Prop where
  | enumerate (upTo : Nat) (isLazy : Bool) : Accessor fun r => r.enumerate upTo isLazy
  | isPresent (i : Nat) (isLazy : Bool) : Accessor fun r => r.isPresent i isLazy
  | fieldOffset (i : Nat) (isLazy : Bool) : Accessor fun r => r.fieldOffset i isLazy
  | valueOffset (i n : Nat) (isLazy : Bool) : Accessor fun r => r.valueOffset i n isLazy
  | elementCount (i : Nat) (isLazy : Bool) : Accessor fun r => r.elementCount i isLazy
  | totalSize (i : Nat) (isLazy : Bool) : Accessor fun r => r.totalSize i isLazy
  | fieldPreview (i : Nat) (isLazy : Bool) : Accessor fun r => r.fieldPreview i isLazy
  | valuePreview (i n : Nat) : Accessor fun r => r.valuePreview i n
  | intValue (i n : Nat) : Accessor fun r => r.intValue i n
  | fieldSummary (i : Nat) : Accessor fun r => r.fieldSummary i
  | size (isLazy : Bool) : Accessor fun r => r.size isLazy
  | canCreateNext (isLazy loose : Bool) : Accessor fun r => r.canCreateNext isLazy loose
  | nextInfo (isLazy : Bool) : Accessor fun r => r.nextInfo isLazy
  | argValue (binding : ArgBinding) : Accessor fun r => r.argValue binding
  | evaluate (source : String) : Accessor fun r => r.evaluate source
  | lookup (scope : Scope) (name : String) (index : Int64) (isOffset : Bool) :
    Accessor fun r => scope.lookup r name index isOffset
  | preview (scope : Scope) (name : String) : Accessor fun r => scope.preview r name
  | children (scope : Scope) (parents : List InstanceRef) (field : String) (filter : QueryFilter) :
    Accessor fun r => Scope.children { scope with root := r } parents field filter
  | instancesOf (scope : Scope) (struct : String) (isGlobal : Bool) (filter : QueryFilter) :
    Accessor fun r => Scope.instancesOf { scope with root := r } struct isGlobal filter
  | evaluateIn (scope : Scope) (expr : Expr) :
    Accessor fun r => Scope.evaluate { scope with root := r } expr
  | select (scope : Scope) (query : Query) :
    Accessor fun r => Scope.select { scope with root := r } query

/-- **Whatever is read, only adds**, and that for queries. -/
theorem Accessor.onlyAdds {α : Type} {accessor : InstanceRef → Resolve α} (h : Accessor accessor)
    (schema : Schema) (r : InstanceRef) :
    Resolve.OnlyAdds schema .query (fun _ => True) (accessor r) fun _ => True := by
  have hr : (fun _ => True : String → Prop) r.struct := trivial
  have hall {rs : List InstanceRef} : ∀ r ∈ rs, (fun _ => True : String → Prop) r.struct :=
    fun _ _ => trivial
  have hstructs {names : List String} : ∀ name ∈ names, (fun _ => True : String → Prop) name :=
    fun _ _ => trivial
  have hresolving {β : Type} {request : Resolver → Resolve β} {post : β → Prop}
      (hrequest : ∀ resolver : Resolver,
        resolver.OnlyAdds schema (fun _ => True) (fun _ => True) →
        Resolve.OnlyAdds schema .query (fun _ => True) (request resolver) post) :
      Resolve.OnlyAdds schema .query (fun _ => True) (Resolve.resolving request) fun _ => True :=
    (Resolve.onlyAdds_resolving schema.closed_all hrequest).mono fun _ _ => trivial
  cases h with
  | enumerate upTo isLazy => exact hresolving fun _ h => (h.answers hr).enumerate upTo isLazy
  | isPresent i isLazy => exact hresolving fun _ h => (h.answers hr).isPresent i isLazy
  | fieldOffset i isLazy => exact hresolving fun _ h => (h.answers hr).fieldOffset i isLazy
  | valueOffset i n isLazy =>
    exact hresolving fun _ h => (h.answers hr).valueOffset (h.walk_idle hr i n) isLazy
  | elementCount i isLazy => exact hresolving fun _ h => (h.answers hr).elementCount i isLazy
  | totalSize i isLazy =>
    exact hresolving fun _ h => (h.notes hr).totalSize (h.walk_addSize hr) i isLazy
  | fieldPreview i isLazy => exact hresolving fun _ h => (h.answers hr).fieldPreview i isLazy
  | valuePreview i n => exact hresolving fun _ h => (h.answers hr).valuePreview i n
  | intValue i n => exact hresolving fun _ h => (h.answers hr).intValue i n
  | fieldSummary i => exact hresolving fun _ h => (h.answers hr).fieldSummary i
  | size isLazy => exact hresolving fun _ h => (h.answers hr).size isLazy
  | canCreateNext isLazy loose => exact hresolving fun _ h => (h.answers hr).canCreateNext isLazy loose
  | nextInfo isLazy => exact hresolving fun _ h => (h.answers hr).nextInfo isLazy
  | argValue binding => exact hresolving fun _ h => (h.answers hr).argValue binding
  | evaluate source => exact hresolving fun _ h => h.evaluateIn _ trivial _ hstructs
  | lookup scope name index isOffset =>
    exact hresolving fun _ h => (h.answers hr).lookup (h.walk_idle hr) scope name index isOffset
  | preview scope name => exact hresolving fun _ h => (h.answers hr).namedPreview scope name
  | children scope parents field filter =>
    exact hresolving fun _ h _ => (h.searches.environment _).children field filter hall
  | instancesOf scope struct isGlobal filter =>
    exact hresolving fun _ h _ => (h.searches.environment _).instancesOf isGlobal filter trivial
  | evaluateIn scope expr => exact hresolving fun _ h => h.evaluateIn _ trivial expr hstructs
  | select scope query =>
    exact hresolving fun _ h _ => (h.searches.environment _).run query hall hstructs

/-! ## 2. The instances after reading -/

/-- What has been placed again for a query is the same but for its budget. -/
theorem Instance.Retouched.eq_of_query {i i' : Instance} (h : i.Retouched .query i') :
    i' = { i with budget := i'.budget } := by
  have hreason : i'.reason = i.reason := by
    rcases h.reason with hr | hr
    · exact hr
    · rw [hr, stronger_query]
  have hsame : { i' with reason := i.reason, budget := i.budget } = i := h.same
  conv_rhs => rw [← hsame, ← hreason]

namespace Workspace

/-- **What is left of the instances, and what comes after them**, when instances are placed for
queries. -/
theorem Adds.toList_eq {ws ws' : Workspace} {placed : String → Prop}
    (hw : ws.directory.WellFormed) (h : ws.Adds .query placed ws') :
    ∃ (budgets : InstanceId → Budget) (added : List Instance),
      ws'.directory.toList =
        (ws.directory.toList.map fun i => { i with budget := budgets i.id }) ++ added ∧
      ∀ a ∈ added, a.reason = .query ∧ ∀ i ∈ ws.directory.toList, i.id < a.id := by
  let budgets (id : InstanceId) : Budget := (ws'.find? id).elim .one fun i => i.budget
  let added := ws'.directory.toList.filter fun i => ws.directory.nextId ≤ i.id
  have hadded (a : Instance) (ha : a ∈ added) :
      ws'.find? a.id = some a ∧ ws.directory.nextId ≤ a.id := by
    obtain ⟨hmem, hle⟩ := List.mem_filter.mp ha
    exact ⟨h.wellFormed.mem_toList.mp hmem, by simpa using hle⟩
  have hkept (i : Instance) (hi : i ∈ ws.directory.toList) :
      ws'.find? i.id = some { i with budget := budgets i.id } := by
    obtain ⟨i', hi', hr, _⟩ := h.kept i.id i (hw.mem_toList.mp hi)
    have hbudget : budgets i.id = i'.budget := by
      show (ws'.find? i.id).elim _ _ = _
      rw [hi']
      rfl
    rw [hi', hbudget, ← hr.eq_of_query]
  refine ⟨budgets, added, h.wellFormed.toList_eq_of_mem_iff ?_ fun i => ?_, fun a ha => ⟨?_, ?_⟩⟩
  · refine List.pairwise_append.mpr ⟨?_, h.wellFormed.pairwise_toList.filter _, ?_⟩
    · rw [List.pairwise_map]
      exact hw.pairwise_toList
    · intro i hi a ha
      obtain ⟨j, hj, rfl⟩ := List.mem_map.mp hi
      have hlt := hw.lt_of_mem hj
      exact Nat.lt_of_lt_of_le hlt (hadded a ha).2
  · rw [List.mem_append]
    constructor
    · rintro (hi | hi)
      · obtain ⟨j, hj, rfl⟩ := List.mem_map.mp hi
        exact hkept j hj
      · exact (hadded i hi).1
    · intro hi
      cases hold : ws.find? i.id with
      | none =>
        refine .inr (List.mem_filter.mpr ⟨h.wellFormed.mem_toList.mpr hi, ?_⟩)
        simpa using (h.added i.id i hi hold).1
      | some j =>
        have hid := hw.id_eq _ j hold
        have hj : j ∈ ws.directory.toList := hw.mem_toList.mpr (hid ▸ hold)
        have hnow := hkept j hj
        rw [show ws'.find? j.id = some i from hid ▸ hi] at hnow
        exact .inl (List.mem_map.mpr ⟨j, hj, (Option.some.inj hnow).symm⟩)
  · obtain ⟨ha, hle⟩ := hadded a ha
    cases hold : ws.find? a.id with
    | none => exact (h.added a.id a ha hold).2.2.elim (fun h => h) fun h => h
    | some j => exact absurd (hw.lt a.id j hold) (Nat.not_lt.mpr hle)
  · exact fun i hi => Nat.lt_of_lt_of_le (hw.lt_of_mem hi) (hadded a ha).2

/-- **Reading never edits.** After any history, whatever is read of whatever instance: the instances
that were there are still there, in the same places and the same but for their budgets, and behind
them come those that were added, with greater numbers and for queries. -/
theorem Reached.reads {ws : Workspace} {n : Nat} {edited : Bool} (h : ws.Reached n edited)
    {α : Type} {accessor : InstanceRef → Resolve α} (ha : Accessor accessor) (r : InstanceRef) :
    ∃ (budgets : InstanceId → Budget) (added : List Instance),
      ((accessor r).runIn ws).2.directory.toList =
        (ws.directory.toList.map fun i => { i with budget := budgets i.id }) ++ added ∧
      ∀ a ∈ added, a.reason = .query ∧ ∀ i ∈ ws.directory.toList, i.id < a.id :=
  have hw := h.atRest.sound.directory
  ((ha.onlyAdds ws.schema r ws hw rfl).1).toList_eq hw

/-- Measuring the cells of a table places one of them. -/
theorem reads_withTable : withTable.Reached 0 false ∧
    ∃ (budgets : InstanceId → Budget) (cell : Instance),
      ((tableRef.totalSize 0 false).runIn withTable).2.directory.toList =
        (withTable.directory.toList.map fun i => { i with budget := budgets i.id }) ++ [cell] ∧
      cell.reason = .query := by
  have hreached : withTable.Reached 0 false :=
    .request (.start made_tableSchema trivial (by decide)) (.place _)
  obtain ⟨budgets, added, heq, hadded⟩ := hreached.reads (.totalSize 0 false) tableRef
  have hlength : ((tableRef.totalSize 0 false).runIn withTable).2.directory.toList.length = 2 := by
    decide +kernel
  have hone : withTable.directory.toList.length = 1 := rfl
  rw [heq, List.length_append, List.length_map, hone] at hlength
  obtain ⟨cell, rfl⟩ := List.length_eq_one_iff.mp (show added.length = 1 by omega)
  exact ⟨hreached, budgets, cell, heq, (hadded cell List.mem_cons_self).1⟩

end Workspace

end ByteAtlas
