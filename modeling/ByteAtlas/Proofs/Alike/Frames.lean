import ByteAtlas.Proofs.Alike.Queries

/-!
# Requests in alike workspaces

Laying out fields is the same in workspaces that are alike, too, and so is every frame, whatever the
number of frames left (`Resolver.steady_within`). So a question has the same answer in workspaces
that differ in nothing but the reasons for the instances (`Resolver.steady_within_strict`).
-/

namespace ByteAtlas

open Resolve (Agree noRefs)

theorem Resolver.Steady.layOutFirst {k : Likeness} {resolver : Resolver} (h : resolver.Steady k)
    {live : InstanceRef → Prop} {r : InstanceRef} (hr : live r) (hn : ¬ k.loose r) (d : StructDef)
    (upTo : Nat) (isLazy : Bool) : k.Steady live (resolver.layOutFirst r d upTo isLazy) :=
  (h.notes hr hn).layOutFirst (h.walk_addSize hr hn) trivial upTo isLazy

/-- Where nothing is loose, nothing is asked of loose instances. -/
theorem Resolver.steadyOnLoose_strict (resolver : Resolver) : resolver.SteadyOnLoose .strict where
  size _ hl := nomatch hl
  meets _ _ hl := nomatch hl
  lookup _ _ _ _ _ hl := nomatch hl
  namedPreview _ _ _ hl := nomatch hl
  leaf _ _ hl := nomatch hl

section

variable {k : Likeness}

/-- One frame further in. -/
theorem Resolver.Steady.within_succ {frames : Nat} (h : (Resolver.within frames).Steady k)
    (hplain : (Resolver.within frames).Steady .strict)
    (honLoose : (Resolver.within (frames + 1)).SteadyOnLoose k) :
    (Resolver.within (frames + 1)).Steady k where
  layOut d upTo isLazy hr hn :=
    .bind (.inFrame (h.layOutFirst hr hn d upTo isLazy)) fun _ => .pure ()
  evaluate expr hr _ := .inFrame (h.evaluateIn hplain hr expr)
  onLoose := honLoose

/-- Without frames everything is refused. -/
theorem Resolver.steady_within_zero (honLoose : (Resolver.within 0).SteadyOnLoose k) :
    (Resolver.within 0).Steady k where
  layOut _ _ _ _ _ := Agree.refuse
  evaluate _ _ _ := Agree.refuse
  onLoose := honLoose

theorem Resolver.steady_within_strict (frames : Nat) : (Resolver.within frames).Steady .strict := by
  induction frames with
  | zero => exact steady_within_zero (steadyOnLoose_strict _)
  | succ frames ih => exact ih.within_succ ih (steadyOnLoose_strict _)

/-- **All frames do the same**, as long as what is asked of loose instances is the same. -/
theorem Resolver.steady_within (h : ∀ frames, (Resolver.within frames).SteadyOnLoose k)
    (frames : Nat) : (Resolver.within frames).Steady k := by
  induction frames with
  | zero => exact steady_within_zero (h 0)
  | succ frames ih => exact ih.within_succ (steady_within_strict frames) (h _)

end

end ByteAtlas
