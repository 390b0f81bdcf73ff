import ByteAtlas.Proofs.Alike.Children

/-!
# Walks in alike workspaces

Walks show their visitors the same children in the same order in workspaces that are alike, whatever
the reasons for them (`Resolver.Steady.walk`). The two visitors may do different things, as long as
both go on, or none of them.

What relates the workspaces may depend on what has been gathered (`Visitor.AgreeTo`). So two walks
can be compared although more and more is known about the children in the one than in the other.
-/

namespace ByteAtlas

open Resolve (Agree AgreeTo noRefs anyRef)

/-! ## 1. Visitors -/

/-- Whether a visitor takes no refusal back. -/
def Visitor.KeepsRefusals {σ : Type} (visit : Visitor σ) : Prop :=
  ∀ s child, (visit s child).KeepsRefusals

/-- **Whether two visitors agree** about each child: what they have gathered stays related, and both
go on or none of them does. `seen` tells of which instances is told in what has been gathered. -/
structure Visitor.Agree (rel : Workspace → Workspace → Prop) (live : InstanceRef → Prop)
    {σ σ' : Type} (related : σ → σ' → Prop) (seen : σ → InstanceRef → Prop) (visit : Visitor σ)
    (visit' : Visitor σ') : Prop where
  refusals : visit.KeepsRefusals
  refusals' : visit'.KeepsRefusals
  visits : ∀ {s : σ} {s' : σ'} (child : InstanceRef), related s s' →
    Resolve.Agree rel (fun r => r = child ∨ seen s r ∨ live r) (visit s child) (visit' s' child)
      (fun a b => related a.1 b.1 ∧ b.2 = a.2) fun a => seen a.1

/-- What two steps end with: the same, and workspaces related by what has been gathered. -/
def Resolve.sameTo {σ σ' τ : Type} (rel : σ → σ' → Workspace → Workspace → Prop) (a : σ × τ)
    (b : σ' × τ) (ws ws' : Workspace) : Prop :=
  b.2 = a.2 ∧ rel a.1 b.1 ws ws'

/-- **Whether two visitors agree** about each child of a struct, where what relates the workspaces
depends on what has been gathered. -/
structure Visitor.AgreeTo {σ σ' : Type} (rel : σ → σ' → Workspace → Workspace → Prop)
    (live : InstanceRef → Prop) (seen : σ → InstanceRef → Prop) (struct : String)
    (visit : Visitor σ) (visit' : Visitor σ') : Prop where
  refusals : visit.KeepsRefusals
  refusals' : visit'.KeepsRefusals
  visits : ∀ {s : σ} {s' : σ'} (child : InstanceRef), child.struct = struct →
    Resolve.AgreeTo (rel s s') (fun r => r = child ∨ seen s r ∨ live r) (visit s child)
      (visit' s' child) (Resolve.sameTo rel) fun a => seen a.1

/-! ## 2. Counted walks -/

namespace Resolver

variable {resolver : Resolver} {live : InstanceRef → Prop} {r : InstanceRef} {σ σ' : Type}
  {seen : σ → InstanceRef → Prop} {visit : Visitor σ} {visit' : Visitor σ'}

/-- What two walks end with: what has been gathered is related, and both end at the same child. -/
def sameEnd (related : σ → σ' → Prop) (a : σ × Option InstanceRef) (b : σ' × Option InstanceRef) :
    Prop :=
  related a.1 b.1 ∧ b.2 = a.2

/-- The instances of which the end of a walk tells. -/
def endRefs (seen : σ → InstanceRef → Prop) (a : σ × Option InstanceRef) (r : InstanceRef) : Prop :=
  seen a.1 r ∨ a.2 = some r

/-- **What a walk does** once the elements have been counted. -/
def walkCounted (resolver : Resolver) (r : InstanceRef) (i : Nat) (field : Field) (struct : String)
    (upTo : Option Nat) (reason : Reason) (visit : Visitor σ) (s : σ) (count : Option Int64) :
    Resolve (σ × Option InstanceRef) := do
  let count := count.getD 0
  if count ≤ 0 then pure (s, none)
  else
    match field.individualOffsets, field.offsetFormula with
    | true, some formula =>
      match ← entryOf? r i with
      | none => pure (s, none)
      | some entry =>
        resolver.walkOffsets r field struct formula entry.origin upTo reason visit
          count.toInt.toNat 0 s
    | _, _ =>
      let offset := (← resolver.fieldOffset r i false).getD 0
      let child ← resolver.placeChild r field struct reason offset ⟨count, field.countIsBytes⟩
      let (s, goOn) ← visit s child
      if goOn then resolver.walkChain upTo reason visit (count.toInt.toNat - 1) 0 s child
      else pure (s, some child)

/-- Whether a field holds children of a struct that is defined. -/
def HoldsDefined (ws : Workspace) (r : InstanceRef) (i : Nat) (field : Field) (struct : String) :
    Prop :=
  ∃ name, ws.fieldOf? r i = some (name, field) ∧ field.value = none ∧ field.type = .struct struct ∧
    (ws.schema.get? struct).isSome

/-- A walk counts the elements first. -/
theorem runIn_walk (resolver : Resolver) {ws : Workspace} {i : Nat} {field : Field} {struct : String}
    (hf : HoldsDefined ws r i field struct) (upTo : Option Nat) (reason : Reason)
    (visit : Visitor σ) (s : σ) :
    (resolver.walk r i upTo reason visit s).runIn ws =
      (resolver.elementCount r i false >>=
        resolver.walkCounted r i field struct upTo reason visit s).runIn ws := by
  obtain ⟨name, hf, hvalue, htype, hdefined⟩ := hf
  unfold Resolver.walk
  rw [Resolve.runIn_bind, fieldOf?, Resolve.runIn_ask, hf]
  dsimp only
  rw [hvalue, htype]
  dsimp only
  rw [Resolve.runIn_bind, Resolve.runIn_ask]
  dsimp only
  rw [Option.isNone_eq_false_iff.mpr hdefined, if_neg Bool.false_ne_true]
  rfl

/-- A walk in any other field ends at once. -/
theorem runIn_walk_of_not_holds (resolver : Resolver) {ws : Workspace} {i : Nat}
    (hf : ∀ field struct, ¬ HoldsDefined ws r i field struct) (upTo : Option Nat) (reason : Reason)
    (visit : Visitor σ) (s : σ) :
    (resolver.walk r i upTo reason visit s).runIn ws = (.ok (s, none), ws) := by
  unfold Resolver.walk
  rw [Resolve.runIn_bind, fieldOf?, Resolve.runIn_ask]
  dsimp only
  cases hfield : ws.fieldOf? r i with
  | none => rfl
  | some f =>
    obtain ⟨name, field⟩ := f
    dsimp only
    split
    · rfl
    · rfl
    · rename_i struct hvalue htype
      have hundefined : (ws.schema.get? struct).isNone = true := by
        rw [← Option.not_isSome]
        exact Bool.not_eq_true' _ ▸ Bool.eq_false_iff.mpr fun hdefined =>
          hf field struct ⟨name, hfield, hvalue, htype, hdefined⟩
      rw [Resolve.runIn_bind, Resolve.runIn_ask]
      dsimp only
      rw [if_pos hundefined]
      rfl

section

variable {k : Likeness} (h : resolver.Steady k) (hv : visit.KeepsRefusals)
include h hv

theorem keepsRefusals_walkChain (upTo : Option Nat) (reason : Reason) (left : Nat) :
    ∀ (n : Nat) (s : σ) (child : InstanceRef),
      (resolver.walkChain upTo reason visit left n s child).KeepsRefusals := by
  have hlive (child : InstanceRef) : anyRef child := trivial
  induction left with
  | zero => exact fun _ _ _ => .pure _
  | succ left ih =>
    intro n s child
    refine .ite (.pure _) (.bind (h.canCreateNext (hlive child) false).refusals fun _ => .ite
      (.bind (h.createNext (hlive child) reason reason).refusals ?_) (.pure _))
    rintro (_ | next)
    · exact .pure _
    · exact .bind (hv s next) fun _ => .ite (ih _ _ _) (.pure _)

variable (hn : ¬ k.loose r)
include hn

theorem keepsRefusals_walkOffsets (field : Field) (struct : String) (formula : Formula)
    (origin : Int64) (upTo : Option Nat) (reason : Reason) (left : Nat) : ∀ (n : Nat) (s : σ),
    (resolver.walkOffsets r field struct formula origin upTo reason visit left n s).KeepsRefusals := by
  have hr : anyRef r := trivial
  induction left with
  | zero => exact fun _ _ => .pure _
  | succ left ih =>
    intro n s
    refine .bind (h.evaluate formula.expr hr hn).refusals ?_
    rintro (_ | offset)
    · exact .pure _
    · exact .bind (h.hasElement hr hn field origin _ offset).refusals fun _ => .ite
        (.bind (h.placeChild hr hn field struct reason reason offset .one).refusals fun child =>
          .bind (hv s child) fun _ => .ite (.pure _) (ih _ _))
        (ih _ _)

theorem keepsRefusals_walkCounted (i : Nat) (field : Field) (struct : String) (upTo : Option Nat)
    (reason : Reason) (s : σ) (count : Option Int64) :
    (resolver.walkCounted r i field struct upTo reason visit s count).KeepsRefusals := by
  have hr : anyRef r := trivial
  unfold Resolver.walkCounted
  refine .ite (.pure _) ?_
  split
  · refine .bind (.ask _) ?_
    rintro (_ | entry)
    · exact .pure _
    · exact keepsRefusals_walkOffsets h hv hn field struct _ entry.origin upTo reason _ 0 s
  · exact .bind (Agree.refusals ((h.answers hr hn).fieldOffset i false)) fun _ =>
      .bind (h.placeChild hr hn field struct reason reason _ _).refusals fun child =>
        .bind (hv s child) fun _ =>
          .ite (keepsRefusals_walkChain h hv upTo reason _ 0 _ child) (.pure _)

theorem keepsRefusals_walk (i : Nat) (upTo : Option Nat) (reason : Reason) (s : σ) :
    (resolver.walk r i upTo reason visit s).KeepsRefusals := by
  have hr : anyRef r := trivial
  unfold Resolver.walk
  refine .bind (.ask _) ?_
  rintro (_ | ⟨_, field⟩)
  · exact .pure _
  · dsimp only
    split
    · exact .pure _
    · exact .pure _
    · exact .bind (.ask _) fun _ => .ite (.pure _)
        (.bind (Agree.refusals ((h.answers hr hn).elementCount i false))
          (keepsRefusals_walkCounted h hv hn i field _ upTo reason s))

end

/-! ## 3. Walks -/

/-- **Whether what a walk does between its visits agrees.** -/
structure AgreesBetween (rel : Workspace → Workspace → Prop) (resolver : Resolver)
    (r : InstanceRef) (reason reason' : Reason) : Prop where
  evaluate : ∀ {live : InstanceRef → Prop} (constants : List (String × Int64)) (expr : Expr),
    live r → Agree rel live (resolver.evaluate (.withConstants r constants) expr)
      (resolver.evaluate (.withConstants r constants) expr) Eq noRefs
  hasElement : ∀ {live : InstanceRef → Prop} (field : Field) (origin index offset : Int64),
    live r → Agree rel live (resolver.hasElement r field origin index offset)
      (resolver.hasElement r field origin index offset) Eq noRefs
  elementCount : ∀ {live : InstanceRef → Prop} (i : Nat), live r →
    Agree rel live (resolver.elementCount r i false) (resolver.elementCount r i false) Eq noRefs
  fieldOffset : ∀ {live : InstanceRef → Prop} (i : Nat), live r →
    Agree rel live (resolver.fieldOffset r i false) (resolver.fieldOffset r i false) Eq noRefs
  entryOf? : ∀ {live : InstanceRef → Prop} (i : Nat), live r →
    Agree rel live (entryOf? r i) (entryOf? r i) Eq noRefs
  placeChild : ∀ {live : InstanceRef → Prop} (field : Field) (struct : String) (offset : Int64)
    (budget : Budget), live r →
    Agree rel live (resolver.placeChild r field struct reason offset budget)
      (resolver.placeChild r field struct reason' offset budget)
      (fun child child' => child' = child ∧ child.struct = struct) fun child r => r = child
  canCreateNext : ∀ {live : InstanceRef → Prop} {child : InstanceRef}, live child →
    Agree rel live (resolver.canCreateNext child false false)
      (resolver.canCreateNext child false false) Eq noRefs
  createNext : ∀ {live : InstanceRef → Prop} {child : InstanceRef}, live child →
    Agree rel live (resolver.createNext child reason) (resolver.createNext child reason')
      (fun a b => b = a ∧ ∀ next, a = some next → next.struct = child.struct)
      fun next r => next = some r

section

variable {reason reason' : Reason} {rel : σ → σ' → Workspace → Workspace → Prop} {struct : String}
  (hb : ∀ s s', resolver.AgreesBetween (rel s s') r reason reason')
  (hv : Visitor.AgreeTo rel live seen struct visit visit') {k : Likeness} (h : resolver.Steady k)
include hb hv h

/-- **The rest of a chain.** -/
theorem agreeTo_walkChain (upTo : Option Nat) (left : Nat) :
    ∀ (n : Nat) {s : σ} {s' : σ'} {child : InstanceRef}, child.struct = struct →
      AgreeTo (rel s s') (fun r => r = child ∨ seen s r ∨ live r)
        (resolver.walkChain upTo reason visit left n s child)
        (resolver.walkChain upTo reason' visit' left n s' child) (Resolve.sameTo rel)
        (endRefs seen) := by
  have hend {s : σ} {s' : σ'} (child : InstanceRef) :
      AgreeTo (rel s s') (fun r => r = child ∨ seen s r ∨ live r) (pure (s, some child))
        (pure (s', some child)) (Resolve.sameTo rel) (endRefs seen) := by
    refine .pure (fun hrel => ⟨rfl, hrel⟩) fun r hr => ?_
    rcases hr with hr | hr
    · exact .inr (.inl hr)
    · cases hr
      exact .inl rfl
  have hnone {s : σ} {s' : σ'} (child : InstanceRef) :
      AgreeTo (rel s s') (fun r => r = child ∨ seen s r ∨ live r) (pure (s, none))
        (pure (s', none)) (Resolve.sameTo rel) (endRefs seen) :=
    .pure (fun hrel => ⟨rfl, hrel⟩) fun r hr => .inr (.inl (hr.resolve_right fun he => nomatch he))
  have hkept := keepsRefusals_walkChain h hv.refusals upTo reason
  have hkept' := keepsRefusals_walkChain h hv.refusals' upTo reason'
  induction left with
  | zero =>
    intro n s s' child _
    unfold Resolver.walkChain
    by_cases hn : upTo = some n
    · rw [if_pos hn]
      exact hend child
    · rw [if_neg hn]
      exact hnone child
  | succ left ih =>
    intro n s s' child hchild
    unfold Resolver.walkChain
    refine .ite (fun _ => hend child) fun _ => ?_
    refine ((hb s s').canCreateNext (.inl rfl)).bindSame fun _ => .ite (fun _ => ?_)
      fun _ => hnone child
    refine ((hb s s').createNext (.inl rfl)).bindTo ?_ ?_ fun a b ⟨he, hnext⟩ => ?_
    · rintro (_ | next)
      · exact .pure _
      · exact .bind (hv.refusals s next) fun _ => .ite (hkept left _ _ _) (.pure _)
    · rintro (_ | next)
      · exact .pure _
      · exact .bind (hv.refusals' s' next) fun _ => .ite (hkept' left _ _ _) (.pure _)
    subst he
    cases b with
    | none => exact (hnone child).more fun _ => .inr
    | some next =>
      refine .bind (.more (hv.visits next ((hnext next rfl).trans hchild)) fun r hr => ?_)
        (fun a => .ite (hkept left _ _ _) (.pure _)) (fun b => .ite (hkept' left _ _ _) (.pure _))
        fun (t, goOn) (t', goOn') =>
          .given (.ite (hkept left _ _ _) (.pure _)) (.ite (hkept' left _ _ _) (.pure _))
            fun he => ?_
      · rcases hr with rfl | hr
        · exact .inl rfl
        · exact .inr (.inr hr)
      · obtain rfl : goOn' = goOn := he
        have hlive (r : InstanceRef) (hr : r = next ∨ seen t r ∨ live r) :
            seen t r ∨ some next = some r ∨ r = child ∨ seen s r ∨ live r := by
          rcases hr with rfl | hr | hr
          · exact .inr (.inl rfl)
          · exact .inl hr
          · exact .inr (.inr (.inr (.inr hr)))
        exact .ite (fun _ => (ih _ ((hnext next rfl).trans hchild)).more hlive)
          fun _ => (hend next).more hlive

variable (hr : live r) (hn : ¬ k.loose r)
include hr hn

/-- **Individually offset children.** -/
theorem agreeTo_walkOffsets (field : Field) (formula : Formula) (origin : Int64)
    (upTo : Option Nat) (left : Nat) : ∀ (n : Nat) {s : σ} {s' : σ'},
      AgreeTo (rel s s') (fun r => seen s r ∨ live r)
        (resolver.walkOffsets r field struct formula origin upTo reason visit left n s)
        (resolver.walkOffsets r field struct formula origin upTo reason' visit' left n s')
        (Resolve.sameTo rel) (endRefs seen) := by
  have hnone {s : σ} {s' : σ'} :
      AgreeTo (rel s s') (fun r => seen s r ∨ live r) (pure (s, none)) (pure (s', none))
        (Resolve.sameTo rel) (endRefs seen) :=
    .pure (fun hrel => ⟨rfl, hrel⟩) fun r hr => .inl (hr.resolve_right fun he => nomatch he)
  have hkept := keepsRefusals_walkOffsets h hv.refusals hn field struct formula origin upTo reason
  have hkept' :=
    keepsRefusals_walkOffsets h hv.refusals' hn field struct formula origin upTo reason'
  induction left with
  | zero => exact fun _ _ _ => hnone
  | succ left ih =>
    intro n s s'
    unfold Resolver.walkOffsets
    refine ((hb s s').evaluate _ formula.expr (.inr hr)).bindSame fun
      | none => hnone
      | some offset => ((hb s s').hasElement field origin _ offset (.inr hr)).bindSame fun _ =>
          .ite (fun _ => ?_) fun _ => ih _
    refine ((hb s s').placeChild field struct offset .one (.inr hr)).bindTo (fun child => ?_)
      (fun child => ?_) fun _ child ⟨he, hchild⟩ => ?_
    · exact .bind (hv.refusals s child) fun _ => .ite (.pure _) (hkept left _ _)
    · exact .bind (hv.refusals' s' child) fun _ => .ite (.pure _) (hkept' left _ _)
    subst he
    refine .bind (hv.visits _ hchild) (fun a => .ite (.pure _) (hkept left _ _))
      (fun b => .ite (.pure _) (hkept' left _ _)) fun (t, goOn) (t', goOn') =>
        .given (.ite (.pure _) (hkept left _ _)) (.ite (.pure _) (hkept' left _ _)) fun he => ?_
    obtain rfl : goOn' = goOn := he
    refine .ite (fun _ => .pure (fun hrel => ⟨rfl, hrel⟩) fun r hr => ?_)
      fun _ => (ih _).more fun r hr => ?_
    · rcases hr with hr | hr
      · exact .inl hr
      · cases hr
        exact .inr (.inl rfl)
    · rcases hr with hr | hr
      · exact .inl hr
      · exact .inr (.inr (.inr hr))

/-- **Walks whose elements have been counted.** -/
theorem agreeTo_walkCounted (i : Nat) (field : Field) (upTo : Option Nat) (s : σ) (s' : σ')
    (count : Option Int64) :
    AgreeTo (rel s s') (fun r => seen s r ∨ live r)
      (resolver.walkCounted r i field struct upTo reason visit s count)
      (resolver.walkCounted r i field struct upTo reason' visit' s' count) (Resolve.sameTo rel)
      (endRefs seen) := by
  have hnone : AgreeTo (rel s s') (fun r => seen s r ∨ live r) (pure (s, none)) (pure (s', none))
      (Resolve.sameTo rel) (endRefs seen) :=
    .pure (fun hrel => ⟨rfl, hrel⟩) fun r hr => .inl (hr.resolve_right fun he => nomatch he)
  have hkept (n : Nat) (t : σ) (c : InstanceRef) :=
    keepsRefusals_walkChain h hv.refusals upTo reason n 0 t c
  have hkept' (n : Nat) (t : σ') (c : InstanceRef) :=
    keepsRefusals_walkChain h hv.refusals' upTo reason' n 0 t c
  unfold Resolver.walkCounted
  refine .ite (fun _ => hnone) fun _ => ?_
  split
  · refine ((hb s s').entryOf? i (.inr hr)).bindSame fun
      | none => hnone
      | some entry => ?_
    exact agreeTo_walkOffsets hb hv h hr hn field _ entry.origin upTo _ 0
  · refine ((hb s s').fieldOffset i (.inr hr)).bindSame fun _ =>
      ((hb s s').placeChild field struct _ _ (.inr hr)).bindTo (fun child => ?_) (fun child => ?_)
        fun _ child ⟨he, hchild⟩ => ?_
    · exact .bind (hv.refusals s child) fun _ => .ite (hkept _ _ _) (.pure _)
    · exact .bind (hv.refusals' s' child) fun _ => .ite (hkept' _ _ _) (.pure _)
    subst he
    refine .bind (hv.visits _ hchild) (fun a => .ite (hkept _ _ _) (.pure _))
      (fun b => .ite (hkept' _ _ _) (.pure _)) fun (t, goOn) (t', goOn') =>
        .given (.ite (hkept _ _ _) (.pure _)) (.ite (hkept' _ _ _) (.pure _)) fun he => ?_
    obtain rfl : goOn' = goOn := he
    refine .ite (fun _ => ?_) fun _ => .pure (fun hrel => ⟨rfl, hrel⟩) fun r hr => ?_
    · refine .more (agreeTo_walkChain hb hv h upTo _ 0 hchild) fun r hr => ?_
      rcases hr with hr | hr | hr
      · exact .inr (.inl hr)
      · exact .inl hr
      · exact .inr (.inr (.inr hr))
    · rcases hr with hr | hr
      · exact .inl hr
      · cases hr
        exact .inr (.inl rfl)

end

end Resolver

/-! ## 4. Walks in one likeness -/

namespace Resolver.AgreesBetween

variable {resolver : Resolver} {r : InstanceRef} {reason reason' : Reason} {k : Likeness}

/-- In one likeness the steps of a walk agree if its parent is not loose. -/
theorem of_steady (h : resolver.Steady k) (hn : ¬ k.loose r) (reason reason' : Reason) :
    resolver.AgreesBetween k.Alike r reason reason' where
  evaluate _ expr hr := h.evaluate expr hr hn
  hasElement field origin index offset hr := h.hasElement hr hn field origin index offset
  elementCount i hr := (h.answers hr hn).elementCount i false
  fieldOffset i hr := (h.answers hr hn).fieldOffset i false
  entryOf? i hr := Likeness.Steady.entryOf? hr hn i
  placeChild field struct offset budget hr :=
    h.placeChild hr hn field struct reason reason' offset budget
  canCreateNext hc := h.canCreateNext hc false
  createNext hc := h.createNext hc reason reason'

/-- **In one of some likenesses** the steps of a walk agree if they do in each of them. -/
theorem among {among : Likeness → Prop} (h₀ : resolver.AgreesBetween k.Alike r reason reason')
    (h : ∀ k, among k → resolver.AgreesBetween k.Alike r reason reason') :
    resolver.AgreesBetween (Likeness.Among among) r reason reason' where
  evaluate constants expr hr := by
    have hk := h₀.evaluate constants expr hr
    exact .among hk.refusals hk.refusals' fun k hk => (h k hk).evaluate constants expr hr
  hasElement field origin index offset hr := by
    have hk := h₀.hasElement field origin index offset hr
    exact .among hk.refusals hk.refusals' fun k hk =>
      (h k hk).hasElement field origin index offset hr
  elementCount i hr := by
    have hk := h₀.elementCount i hr
    exact .among hk.refusals hk.refusals' fun k hk => (h k hk).elementCount i hr
  fieldOffset i hr := by
    have hk := h₀.fieldOffset i hr
    exact .among hk.refusals hk.refusals' fun k hk => (h k hk).fieldOffset i hr
  entryOf? i hr := by
    have hk := h₀.entryOf? i hr
    exact .among hk.refusals hk.refusals' fun k hk => (h k hk).entryOf? i hr
  placeChild field struct offset budget hr := by
    have hk := h₀.placeChild field struct offset budget hr
    exact .among hk.refusals hk.refusals' fun k hk =>
      (h k hk).placeChild field struct offset budget hr
  canCreateNext hc := by
    have hk := h₀.canCreateNext hc
    exact .among hk.refusals hk.refusals' fun k hk => (h k hk).canCreateNext hc
  createNext hc := by
    have hk := h₀.createNext hc
    exact .among hk.refusals hk.refusals' fun k hk => (h k hk).createNext hc

end Resolver.AgreesBetween

/-- One likeness, and something that does not depend on the workspaces. -/
theorem Likeness.among_eq (k : Likeness) (p : Prop) :
    Likeness.Among (fun k' => p ∧ k' = k) = fun ws ws' => p ∧ k.Alike ws ws' := by
  funext ws ws'
  exact propext ⟨fun ⟨_, ⟨hp, he⟩, h⟩ => ⟨hp, he ▸ h⟩, fun ⟨hp, h⟩ => ⟨k, ⟨hp, rfl⟩, h⟩⟩

namespace Resolver.Steady

variable {k : Likeness} {resolver : Resolver} {live : InstanceRef → Prop} {r : InstanceRef}
  (h : resolver.Steady k)
include h

/-- The visitor that adds up sizes. -/
theorem addSize : Visitor.Agree k.Alike live Eq noRefs resolver.addSize resolver.addSize := by
  have hvisit (live : InstanceRef → Prop) (total : Int64) {child : InstanceRef} (hc : live child) :
      k.Steady live (resolver.addSize total child) := .bind (h.size hc) fun _ => .pure _
  have hkeeps : Visitor.KeepsRefusals resolver.addSize := fun total child =>
    (hvisit anyRef total trivial).refusals
  refine ⟨hkeeps, hkeeps, fun {s s'} child hs => hs ▸ ?_⟩
  refine Agree.mono (hvisit _ s (.inl rfl)) (fun a b he => ?_) fun _ _ hr => hr
  rw [he]
  exact ⟨rfl, rfl⟩

omit h in
/-- The visitor that goes on. -/
theorem idle : Visitor.Agree k.Alike live Eq noRefs Visitor.idle Visitor.idle :=
  ⟨fun _ _ => .pure _, fun _ _ => .pure _,
    fun _ _ => .pure ⟨rfl, rfl⟩ fun _ hr => nomatch hr⟩

variable (hr : live r) (hn : ¬ k.loose r)
include hr hn

section

variable {σ σ' : Type} {related : σ → σ' → Prop} {seen : σ → InstanceRef → Prop} {visit : Visitor σ}
  {visit' : Visitor σ'} (hv : Visitor.Agree k.Alike live related seen visit visit')
include hv

theorem walkCounted (i : Nat) (field : Field) (struct : String) (upTo : Option Nat)
    (reason reason' : Reason) {s : σ} {s' : σ'} (hs : related s s') (count : Option Int64) :
    Agree k.Alike (fun r => seen s r ∨ live r)
      (resolver.walkCounted r i field struct upTo reason visit s count)
      (resolver.walkCounted r i field struct upTo reason' visit' s' count) (sameEnd related)
      (endRefs seen) := by
  have hbetween (s : σ) (s' : σ') : resolver.AgreesBetween
      (fun ws ws' => related s s' ∧ k.Alike ws ws') r reason reason' := by
    have hk := AgreesBetween.of_steady h hn reason reason'
    rw [← k.among_eq]
    exact hk.among fun _ he => he.2 ▸ hk
  have hvisit : Visitor.AgreeTo (fun s s' ws ws' => related s s' ∧ k.Alike ws ws') live seen struct
      visit visit' :=
    ⟨hv.refusals, hv.refusals', fun child _ => .given (hv.refusals _ child) (hv.refusals' _ child)
      fun hs => (hv.visits child hs).agreeTo.mono (fun _ _ => id)
        fun _ _ _ _ ⟨⟨hrelated, hsame⟩, halike⟩ => ⟨hsame, hrelated, halike⟩⟩
  exact .of_agreeTo ((agreeTo_walkCounted hbetween hvisit h hr hn i field upTo s s' count).mono
    (fun _ _ halike => ⟨hs, halike⟩)
    fun _ _ _ _ ⟨hsame, hrelated, halike⟩ => ⟨⟨hrelated, hsame⟩, halike⟩)

/-- **A walk** with visitors that agree. -/
theorem walk (i : Nat) (upTo : Option Nat) (reason reason' : Reason) {s : σ} {s' : σ'}
    (hs : related s s') :
    Agree k.Alike (fun r => seen s r ∨ live r) (resolver.walk r i upTo reason visit s)
      (resolver.walk r i upTo reason' visit' s') (sameEnd related) (endRefs seen) := by
  have hnone : Agree k.Alike (fun r => seen s r ∨ live r) (pure (s, none)) (pure (s', none))
      (sameEnd related) (endRefs seen) :=
    .pure ⟨hs, rfl⟩ fun r hr => .inl (hr.resolve_right fun he => nomatch he)
  unfold Resolver.walk
  refine .bind (Likeness.Steady.fieldOf? r i) fun
    | none => hnone
    | some (_, field) => ?_
  dsimp only
  split
  · exact hnone
  · exact hnone
  · exact .bind (Likeness.Steady.ask fun halike _ => by rw [halike.schema]) fun _ =>
      .ite (fun _ => hnone) fun _ => .bind ((h.answers (.inr hr) hn).elementCount i false)
        (h.walkCounted hr hn hv i field _ upTo reason reason' hs)

end

/-- Measuring a field takes such a walk. -/
theorem walk_addSize (i : Nat) :
    k.Steady live (resolver.walk r i none .query resolver.addSize 0) :=
  ((h.walk hr hn h.addSize i none .query .query (Eq.refl 0)).more
    fun _ hr => hr.resolve_left fun he => nomatch he).mono
    (fun _ _ hab => Prod.ext hab.1 hab.2.symm) fun _ _ hr => nomatch hr

theorem walk_idle (i n : Nat) :
    k.Steady live (resolver.walk r i (some n) .query .idle ()) :=
  ((h.walk hr hn idle i (some n) .query .query (Eq.refl ())).more
    fun _ hr => hr.resolve_left fun he => nomatch he).mono
    (fun _ _ hab => Prod.ext rfl hab.2.symm) fun _ _ hr => nomatch hr

end Resolver.Steady

end ByteAtlas
