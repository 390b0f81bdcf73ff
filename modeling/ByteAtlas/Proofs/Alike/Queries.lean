import ByteAtlas.Proofs.Alike.Walks
import ByteAtlas.Proofs.Resolve.QueryLaw

/-!
# Expressions in alike workspaces

Queries find the same instances in workspaces that are alike, and expressions have the same value.
That is a law of evaluating (`Law.steady`), and it goes along with searching
(`Resolver.Steady.searches`): an instance that is not loose is asked and walked as any other, and a
loose one holds no children.
-/

namespace ByteAtlas

open Resolve (Agree noRefs anyRef)

/-- The result of a query tells of the instances found. -/
def foundRefs (found : List InstanceRef) (r : InstanceRef) : Prop := r ∈ found

namespace Resolver.Steady

variable {k : Likeness} {resolver : Resolver} {live : InstanceRef → Prop} {r : InstanceRef}
  (h : resolver.Steady k)
include h

/-! ## 1. Conditions -/

/-- The conditions on any instance. -/
theorem meets (hr : live r) (filter : QueryFilter) : k.Steady live (resolver.meets r filter) := by
  by_cases hn : k.loose r
  · exact h.onLoose.meets filter hr hn
  · exact (h.answers hr hn).meets filter

/-! ## 2. Children -/

/-- The visitor that gathers children. -/
theorem gatherMeeting (filter : QueryFilter) :
    Visitor.Agree k.Alike live Eq foundRefs (resolver.gatherMeeting filter)
      (resolver.gatherMeeting filter) := by
  have hvisit (live : InstanceRef → Prop) (found : List InstanceRef) (child : InstanceRef)
      (hlive : live child) (hfound : ∀ r ∈ found, live r) :
      k.Tells live (resolver.gatherMeeting filter found child) fun a => foundRefs a.1 := by
    refine .ite (fun _ => .pure hfound) fun _ => .bind (h.meets hlive filter) fun _ =>
      .ite (fun _ => .pure fun r hr => ?_) fun _ => .pure hfound
    rcases List.mem_append.mp hr with hr | hr
    · exact hfound r hr
    · rw [List.mem_singleton.mp hr]
      exact hlive
  have hkeeps : Visitor.KeepsRefusals (resolver.gatherMeeting filter) := fun found child =>
    (hvisit anyRef found child trivial fun _ _ => trivial).refusals
  refine ⟨hkeeps, hkeeps, fun {s s'} child hs => hs ▸ ?_⟩
  refine Agree.mono (hvisit _ s child (.inl rfl) fun r hr => .inr (.inl hr)) (fun a b he => ?_)
    fun _ _ hr => hr
  rw [he]
  exact ⟨rfl, rfl⟩

omit h in
/-- Gathering children takes no refusal back. -/
theorem keepsRefusals_gatherMeeting (h : resolver.Steady .strict) (filter : QueryFilter) :
    Visitor.KeepsRefusals (resolver.gatherMeeting filter) := by
  have hgather : Visitor.Agree Likeness.strict.Alike anyRef Eq foundRefs
    (resolver.gatherMeeting filter) (resolver.gatherMeeting filter) := h.gatherMeeting filter
  exact hgather.refusals

/-- **The children in a field** of one instance. A loose one has none. -/
theorem gatherFrom (hplain : resolver.Steady .strict) (hr : live r) (field : String)
    (filter : QueryFilter) {found : List InstanceRef} (hfound : ∀ r ∈ found, live r) :
    k.Tells live (resolver.gatherFrom field filter r found) foundRefs := by
  unfold Resolver.gatherFrom
  refine .bind (.structOf? r) fun d => ?_
  cases d.bind fun d => d.fieldIndex? field with
  | none => exact .pure hfound
  | some i =>
    have hgather : Visitor.Agree k.Alike live Eq foundRefs (resolver.gatherMeeting filter)
      (resolver.gatherMeeting filter) := h.gatherMeeting filter
    by_cases hn : k.loose r
    · -- A loose parent holds no children, so nothing more is asked of it.
      have hleaf : Agree k.Alike live (Resolve.ask fun ws => ws.holdsChildren r i)
          (Resolve.ask fun ws => ws.holdsChildren r i) (fun a b => a = false ∧ b = false)
          noRefs := .ask fun halike _ =>
        ⟨⟨h.onLoose.leaf i halike hn, (halike.holdsChildren r i).trans (h.onLoose.leaf i halike hn)⟩,
          fun _ hr => False.elim hr⟩
      have hnext : Resolve.KeepsRefusals (do
          if (← resolver.isPresent r i false) = some true then
            let walked ← resolver.walk r i none .query (resolver.gatherMeeting filter) found
            pure walked.1
          else pure found) :=
        .bind (Agree.refusals ((hplain.answers (show anyRef r from trivial) id).isPresent i false))
          fun _ => .ite (.bind (Resolver.keepsRefusals_walk hplain
              (keepsRefusals_gatherMeeting hplain filter) id i none .query found)
            fun _ => .pure _) (.pure _)
      refine hleaf.bindAny (fun _ => .ite hnext (.pure _)) (fun _ => .ite hnext (.pure _))
        fun a b hab => ?_
      rw [hab.1, hab.2]
      exact Likeness.Tells.pure fun r hr => .inr (hfound r hr)
    · refine .bind (.ask fun halike _ => halike.holdsChildren r i) fun _ => .ite
        (fun _ => .bind ((h.answers hr hn).isPresent i false) fun _ => .ite (fun _ => ?_)
          fun _ => .pure hfound) fun _ => .pure hfound
      have hwalk := (h.walk hr hn hgather i none .query .query (Eq.refl found)).more
        fun r hr => hr.elim (hfound r) id
      refine hwalk.bindAny (fun _ => .pure _) (fun _ => .pure _) fun a b hab => ?_
      obtain ⟨a, a'⟩ := a
      obtain ⟨b, b'⟩ := b
      obtain rfl : a = b := hab.1
      exact Likeness.Tells.pure fun r hr => .inl (.inl hr)

/-! ## 3. Names -/

/-- **What a name stands for** in any instance. -/
theorem lookup (hr : live r) (scope : Scope) (name : String) (index : Int64) (isOffset : Bool) :
    k.Steady live (resolver.lookup scope r name index isOffset) := by
  by_cases hn : k.loose r
  · exact h.onLoose.lookup scope name index isOffset hr hn
  · exact (h.answers hr hn).lookup (h.walk_idle hr hn) scope name index isOffset

theorem namedPreview (hr : live r) (scope : Scope) (name : String) :
    k.Steady live (resolver.namedPreview scope r name) := by
  by_cases hn : k.loose r
  · exact h.onLoose.namedPreview scope name hr hn
  · exact (h.answers hr hn).namedPreview scope name

end Resolver.Steady

/-! ## 4. Expressions -/

/-- **Doing the same in alike workspaces is a law.** It depends on which instances are live. -/
def Law.steady (k : Likeness) : Law Resolve InstanceRef (InstanceRef → Prop) where
  Holds live step _ tells := k.Tells live step fun a r => r ∈ tells a
  Later live live' := ∀ r, live r → live' r
  Found live r := live r
  Asked _ := True
  stays hlater hr := hlater _ hr
  pure hfound := .pure hfound
  bind h hn := .bindNew h fun a => hn a _ (fun _ => .inr) fun _ => .inl

namespace Resolver.Steady

variable {k : Likeness} {resolver : Resolver} {live : InstanceRef → Prop} (h : resolver.Steady k)
  (hplain : resolver.Steady .strict)
include h hplain

theorem searches : (Law.steady k).Searches resolver resolver where
  read file offset length := Agree.mono
    (Likeness.Steady.ask fun halike _ => halike.read file offset length) (fun _ _ => id)
    fun _ _ hr => nomatch hr
  instances file _ := .ask fun {ws ws'} halike _ => ⟨(halike.instancesOf _ file).symm, by
    intro r hr
    obtain ⟨i, hi, rfl⟩ := List.mem_map.mp hr
    exact ⟨i, halike.directory.mem_toList.mp (List.mem_of_mem_filter hi), rfl⟩⟩
  lookup scope name index isOffset hr := Agree.mono (h.lookup hr scope name index isOffset)
    (fun _ _ => id) fun _ _ hr => nomatch hr
  preview scope name hr := Agree.mono (h.namedPreview hr scope name) (fun _ _ => id)
    fun _ _ hr => nomatch hr
  meets filter hr := Agree.mono (h.meets hr filter) (fun _ _ => id) fun _ _ hr => nomatch hr
  gather field filter hr hfound := h.gatherFrom hplain hr field filter hfound

theorem evaluateIn {scope : Scope} (hr : live scope.root) (expr : Expr) :
    k.Steady live (resolver.evaluateIn scope expr) :=
  Agree.mono (((h.searches hplain).environment scope).evaluate expr (List.forall_mem_singleton.mpr hr)
    fun _ _ => trivial) (fun _ _ => id) fun _ _ hr => nomatch hr

omit h in
/-- Asking for children takes no refusal back, whomever it is asked. -/
theorem keepsRefusals_findChildren (field : String) (filter : QueryFilter)
    (parents found : List InstanceRef) :
    (resolver.findChildren field filter parents found).KeepsRefusals :=
  Agree.refusals ((hplain.searches hplain).findChildren field filter parents (w := anyRef) found
    (fun _ _ => trivial) fun _ _ => trivial)

end Resolver.Steady

end ByteAtlas
