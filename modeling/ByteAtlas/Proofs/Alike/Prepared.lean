import ByteAtlas.Proofs.Alike.Frames
import ByteAtlas.Proofs.Resolve.Known

/-!
# Walks in fields that are laid out

A walk first has the fields up to its own laid out. Where another question has done so before, the
walk starts in a workspace that is alike, so it shows the same children
(`Resolver.Steady.walk_again`).
-/

namespace ByteAtlas

open Resolve (Agree noRefs)

/-- A workspace with a layout put in place of itself. -/
theorem Workspace.Sets.alike {ws ws' : Workspace} {r : InstanceRef}
    (h : ws.Sets r (ws.layoutOf r) ws') (hw : ws.directory.WellFormed)
    (hstamp : (ws.layoutOf r).stamp ≠ none) : Likeness.strict.Alike ws ws' := by
  -- What is known of an instance with a stamp has been noted.
  have hnoted {ws : Workspace} (hstamp : (ws.layoutOf r).stamp ≠ none) :
      ws.layouts[r.id]? = some (ws.layoutOf r) := by
    unfold Workspace.layoutOf at hstamp ⊢
    cases hl : ws.layouts[r.id]? with
    | some l => rfl
    | none =>
      rw [hl] at hstamp
      exact absurd rfl hstamp
  have hlayout := h.layoutOf
  have hsame : ws'.layouts[r.id]? = ws.layouts[r.id]? := by
    rw [hnoted hstamp, hnoted (hlayout ▸ hstamp), hlayout]
  obtain ⟨⟨layouts, rfl⟩, hothers, _⟩ := h
  have halike := Likeness.Alike.refl hw
  refine { halike with layouts := fun id _ => ?_ }
  by_cases hid : r.id = id
  · exact hid ▸ hsame
  · exact hothers id hid

section

variable {once : Prop} {resolver : Resolver} {ws ws₁ : Workspace} {r : InstanceRef} {i : Nat}

/-- **Having fields laid out again** changes nothing. -/
theorem Resolver.Reliable.enumerate_again (h : resolver.Reliable once) (hs : ws.Sound once)
    (hr : ws.IsLive r) (hidle : (ws.layoutOf r).measuring = none) {upTo : Nat}
    (hrun : (resolver.enumerate r upTo false).runIn ws = (.ok (), ws₁))
    (hquiet : ws₁.refusals = ws.refusals) {d : StructDef} (hd : ws.structOf? r = some d) :
    ∃ ws₂, (resolver.enumerate r upTo false).runIn ws₁ = (.ok (), ws₂) ∧
      Likeness.strict.Alike ws₁ ws₂ ∧ ws₂.refusals = ws₁.refusals := by
  obtain ⟨hs₁, hg₁, hcurrent, hlaid⟩ := (h.enumerate hs hr upTo false).of_run hrun
  obtain ⟨ws₂, hrun₂, hset⟩ := resolver.runIn_enumerate hcurrent (hlaid rfl hquiet hidle) false
  refine ⟨ws₂, hrun₂, hset.alike hs₁.directory ?_, hset.refusals⟩
  rw [hcurrent d ((hg₁.structOf? r).trans hd)]
  exact fun e => nomatch e

variable {σ σ' : Type} {related : σ → σ' → Prop} {seen : σ → InstanceRef → Prop} {visit : Visitor σ}
  {visit' : Visitor σ'}

/-- **A walk after the fields have been laid out** shows the same children as the walk that has them
laid out itself. -/
theorem Resolver.Steady.walk_again (h : resolver.Steady .strict) (hreliable : resolver.Reliable once)
    (hs : ws.Sound once) (hr : ws.IsLive r) (hidle : (ws.layoutOf r).measuring = none)
    (hv : Visitor.Agree Likeness.strict.Alike (Eq r) related seen visit visit') {field : Field}
    {struct : String} (hf : Resolver.HoldsDefined ws r i field struct) {upTo : Option Nat}
    {reason reason' : Reason} {s : σ} {s' : σ'} (hseen : ∀ r', ¬ seen s r') (hrelated : related s s')
    {a : σ × Option InstanceRef} {wsa : Workspace}
    (hrun : (resolver.walk r i upTo reason visit s).runIn ws = (.ok a, wsa))
    (hquiet : wsa.refusals = ws.refusals)
    (hlaid : (resolver.enumerate r (i + 1) false).runIn ws = (.ok (), ws₁))
    {b : σ' × Option InstanceRef} {wsb : Workspace}
    (hagain : (resolver.walk r i upTo reason' visit' s').runIn ws₁ = (.ok b, wsb))
    (hquiet' : wsb.refusals = ws₁.refusals) :
    ws₁.refusals = ws.refusals ∧ Resolver.sameEnd related a b ∧ Likeness.strict.Alike wsa wsb := by
  have hlive : Eq r r := rfl
  obtain ⟨rest, _, hrest, -, hsteady⟩ := (h.notes hlive id).elementCount_after i false
  have hagree := Agree.bind (Agree.more hsteady fun r' hr' => .inr hr') fun count =>
    h.walkCounted hlive id hv i field struct upTo reason reason' hrelated count
  obtain ⟨hs₁, hg₁, _⟩ := (hreliable.enumerate hs hr (i + 1) false).of_run hlaid
  have hf₁ : Resolver.HoldsDefined ws₁ r i field struct := by
    obtain ⟨name, hfield, hvalue, htype, hdefined⟩ := hf
    exact ⟨name, (hg₁.fieldOf? r i).trans hfield, hvalue, htype, hg₁.schema ▸ hdefined⟩
  -- Both walks are the same from where the fields have been laid out.
  rw [resolver.runIn_walk hf, hrest, bind_assoc, Resolve.runIn_bind, hlaid] at hrun
  dsimp only at hrun
  have hle : ws.refusals ≤ ws₁.refusals := hg₁.refusals
  have hle₁ : ws₁.refusals ≤ wsa.refusals := by
    have hkept := hagree.refusals ws₁
    rw [hrun] at hkept
    exact hkept
  have hquiet₁ : ws₁.refusals = ws.refusals := by omega
  obtain ⟨name, hfield, _⟩ := hf
  obtain ⟨d, hd, _⟩ := Workspace.structOf?_of_fieldOf? hfield
  obtain ⟨ws₂, hlaid₂, halike, hquiet₂⟩ :=
    hreliable.enumerate_again hs hr hidle hlaid hquiet₁ hd
  rw [resolver.runIn_walk hf₁, hrest, bind_assoc, Resolve.runIn_bind, hlaid₂] at hagain
  obtain ⟨hsame, halike', _⟩ := hagree.quiet halike
    (fun r' hr' => hr'.elim (fun hseen' => absurd hseen' (hseen r')) fun he => he ▸ hg₁.isLive hr)
    hrun hagain (by omega) (by omega)
  exact ⟨hquiet₁, hsame, halike'⟩

end

end ByteAtlas
