import ByteAtlas.Proofs.Flat.Measures
import ByteAtlas.Resolve.Frames

/-!
# Expressions of flat definitions

An expression without queries sees one instance, and of its fields only those of which the facts are
known (`Site.Sees`). So it has the value that the reference gives it
(`Resolver.Faithful.evaluateIn`), with fewer frames left for each field on the way.
-/

namespace ByteAtlas

theorem Site.Within.subset {site : Site} {b : Nat} {before : Option Nat} {names names' : List String}
    (h : site.Within b before names) (hsub : names' ⊆ names) : site.Within b before names' :=
  fun name hname => h name (hsub hname)

theorem Site.Sees.subset {site : Site} {s : Stage} {facts : List FieldFacts} {before : Option Nat}
    {names names' : List String} (h : site.Sees s facts before names) (hsub : names' ⊆ names) :
    site.Sees s facts before names' :=
  fun name hname => h name (hsub hname)

namespace Resolver.Faithful

section

variable {site : Site} {s : Stage} {b : Nat} {resolver : Resolver} {facts : List FieldFacts}
  {constants : List (String × Int64)} {before : Option Nat}

/-! ## 1. Names -/

/-- The scope of an expression of the instance itself. -/
theorem hides_self (i : Nat) :
    Scope.hides ⟨site.ref, constants, before⟩ site.ref i = before.any (· ≤ i) := by
  rw [Scope.hides, decide_eq_true rfl, Bool.true_and]

/-- A question about a field of which the facts are known. -/
theorem ofFacts {α : Type} {i : Nat} {step : Resolve α} {ref : FieldFacts → Except Fault α}
    {other : Except Fault α}
    (h : ∀ f, site.Follows (s.facts[i]? = some f) b b s step (.equal (ref f))) :
    site.Follows (∃ f, s.facts[i]? = some f ∧ facts[i]? = some f) b b s step
      (.equal (match facts[i]? with
        | none => other
        | some f => ref f)) := by
  cases facts[i]? with
  | none => exact ((h default).mono fun ⟨_, _, hf⟩ => nomatch hf).of_eq fun ⟨_, _, hf⟩ => nomatch hf
  | some f =>
    refine (h f).mono fun ⟨f', hf, hsame⟩ => ?_
    cases hsame
    exact hf

/-- **What a name stands for.** -/
theorem lookup (h : resolver.Faithful site) {name : String} (hw : site.Within b before [name])
    (index : Int64) (isOffset : Bool) :
    site.Follows (site.Sees s facts before [name]) b b s
      (resolver.lookup ⟨site.ref, constants, before⟩ site.ref name index isOffset)
      (.equal (site.lookup facts constants before name index isOffset)) := by
  unfold Resolver.lookup Site.lookup
  refine .ask fun ws hshown => ?_
  rw [Scope.constant?, if_pos rfl, hshown.args]
  dsimp only
  generalize ((constants.find? fun c => c.1 == name).map Prod.snd).or
    (argValue? name site.args) = known
  cases known with
  | some n => exact .pure _
  | none =>
    refine .ask fun ws hshown => ?_
    rw [hshown.struct]
    dsimp only
    cases hi : site.struct.fieldIndex? name with
    | none => exact .pure _
    | some i =>
      dsimp only
      rw [hides_self]
      by_cases hhidden : (before.any (· ≤ i) || decide (index < 0)) = true
      · rw [if_pos hhidden, if_pos hhidden]
        exact .pure _
      · rw [if_neg hhidden, if_neg hhidden]
        have hthere (hsees : site.Sees s facts before [name]) :
            ∃ f, s.facts[i]? = some f ∧ facts[i]? = some f := by
          rcases hsees name (List.mem_singleton_self _) i hi with hbefore | hthere
          · rw [hbefore, Bool.true_or] at hhidden
            exact absurd rfl hhidden
          · exact hthere
        obtain ⟨field, hfield⟩ := StructDef.field?_of_fieldIndex? hi
        have hlt : i < b := by
          refine (hw name (List.mem_singleton_self _) i hi).resolve_left fun hbefore => hhidden ?_
          rw [hbefore, Bool.true_or]
        refine (ofFacts fun f => ?_).mono hthere
        cases isOffset with
        | true => exact (h.valueOffset hfield _).widen hlt (Nat.le_of_lt hlt)
        | false => exact ((h.intValue hfield _).widen hlt (Nat.le_of_lt hlt)).map some

/-- The joined preview of a field that is not hidden. -/
theorem namedPreview (h : resolver.Faithful site) {name : String}
    (hw : site.Within b before [name]) :
    site.Follows (site.Sees s facts before [name]) b b s
      (resolver.namedPreview ⟨site.ref, constants, before⟩ site.ref name)
      (.equal (site.namedPreview facts before name)) := by
  unfold Resolver.namedPreview Site.namedPreview
  refine .ask fun ws hshown => ?_
  rw [hshown.struct, Option.bind_some]
  cases hi : site.struct.fieldIndex? name with
  | none => exact .pure _
  | some i =>
    dsimp only
    rw [hides_self]
    by_cases hhidden : before.any (· ≤ i) = true
    · rw [if_pos hhidden, if_pos hhidden]
      exact .pure _
    · rw [if_neg hhidden, if_neg hhidden]
      have hthere (hsees : site.Sees s facts before [name]) :
          ∃ f, s.facts[i]? = some f ∧ facts[i]? = some f :=
        (hsees name (List.mem_singleton_self _) i hi).resolve_left hhidden
      obtain ⟨field, hfield⟩ := StructDef.field?_of_fieldIndex? hi
      have hlt : i < b := (hw name (List.mem_singleton_self _) i hi).resolve_left hhidden
      exact (ofFacts fun f => ((h.fieldPreview hfield).widen hlt hlt).map some).mono hthere

/-! ## 2. Expressions -/

/-- **Expressions without queries** have the value that the reference gives them. -/
theorem evaluateIn (h : resolver.Faithful site) : (expr : Expr) → expr.hasQuery = false →
    site.Within b before expr.names →
    site.Follows (site.Sees s facts before expr.names) b b s
      (resolver.evaluateIn ⟨site.ref, constants, before⟩ expr)
      (.equal (site.evaluate facts constants before expr))
  | .constant n, _, _ => by
    unfold Resolver.evaluateIn Site.evaluate Expr.evaluate
    exact .pure _
  | .error, _, _ => by
    unfold Resolver.evaluateIn Site.evaluate Expr.evaluate
    exact .pure _
  | .unary op a, hq, hw => by
    unfold Expr.hasQuery at hq
    unfold Expr.names at hw
    have iha := evaluateIn h a hq hw
    unfold Resolver.evaluateIn Site.evaluate at iha ⊢
    unfold Expr.evaluate Expr.names
    exact iha.bind fun _ => .pure _
  | .binary op a b, hq, hw => by
    unfold Expr.hasQuery at hq
    unfold Expr.names at hw
    rw [Bool.or_eq_false_iff] at hq
    have iha := evaluateIn h a hq.1 (hw.subset (List.subset_append_left _ _))
    have ihb := evaluateIn h b hq.2 (hw.subset (List.subset_append_right _ _))
    unfold Resolver.evaluateIn Site.evaluate at iha ihb ⊢
    unfold Expr.evaluate Expr.names
    refine (iha.mono ?_).bind fun x => (ihb.mono ?_).bind fun y => .pure _
    · exact fun hs => hs.subset (List.subset_append_left _ _)
    · exact fun hs => hs.subset (List.subset_append_right _ _)
  | .rawRead t a, hq, hw => by
    unfold Expr.hasQuery at hq
    unfold Expr.names at hw
    have iha := evaluateIn h a hq hw
    unfold Resolver.evaluateIn Site.evaluate at iha ⊢
    unfold Expr.evaluate Expr.names
    refine iha.bind fun offset => .ask fun ws hshown => ?_
    rw [hshown.read]
    exact .pure _
  | .member none name none isOffset, _, hw => by
    unfold Expr.names at hw
    unfold Resolver.evaluateIn Site.evaluate
    rw [Expr.evaluate_member, Expr.evaluate_member, Query.runOrRoots, Query.runOrRoots, pure_bind]
    unfold Expr.names
    exact (h.lookup hw 0 isOffset).bind fun value => .pure _
  | .member none name (some e) isOffset, hq, hw => by
    unfold Expr.hasQuery at hq
    unfold Expr.names at hw
    have ihe := evaluateIn h e hq (hw.subset (List.subset_cons_self _ _))
    have hname := hw.subset (List.cons_subset_cons name (List.nil_subset e.names))
    unfold Resolver.evaluateIn Site.evaluate at ihe ⊢
    rw [Expr.evaluate_member, Expr.evaluate_member, Query.runOrRoots, Query.runOrRoots, pure_bind]
    unfold Expr.names
    refine (ihe.mono ?_).bind fun index =>
      ((h.lookup hname index isOffset).mono ?_).bind fun value => .pure _
    · exact fun hs => hs.subset (List.subset_cons_self _ _)
    · exact fun hs => hs.subset (List.cons_subset_cons _ (List.nil_subset _))
  | .previewTest none name text invert, _, hw => by
    unfold Expr.names at hw
    unfold Resolver.evaluateIn Site.evaluate
    rw [Expr.evaluate_previewTest, Expr.evaluate_previewTest, Query.runOrRoots, Query.runOrRoots,
      pure_bind]
    unfold Expr.names List.anyM
    refine (((h.namedPreview hw).bind fun preview => .pure _).bind fun hit => ?_).bind
      fun hit => .pure _
    cases hit with
    | true => exact .pure _
    | false => exact .pure _
  | .instanceId none, _, _ => by
    unfold Resolver.evaluateIn Site.evaluate
    rw [Expr.evaluate_instanceId, Expr.evaluate_instanceId]
    exact .pure _
  | .member (some _) _ _ _, hq, _ | .structOffset _, hq, _ | .previewTest (some _) _ _ _, hq, _
  | .instanceId (some _), hq, _ => by
    unfold Expr.hasQuery at hq
    cases hq

end

end Resolver.Faithful

end ByteAtlas
