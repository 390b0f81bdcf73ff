import ByteAtlas.Proofs.Resolve.Packed

/-!
# Walks along a chain

Which children a walk visits. A walk keeps what is left of the elements in the budget of the child
itself, and the child is shared: measuring it evaluates expressions, and one of them may have the
same child placed again, with another budget. So a walk may end early.
`Workspace.Reached.walk_chain` tells exactly when it reaches every element, and where the children
are in any case.

The walk is watched by its visitor (`Visitor.recording`), which notes the workspace that each visit
leaves. The walk goes on from there, so what the walk then finds out about the child is what the
child says when it is asked there.
-/

namespace ByteAtlas

open Resolve (Ends)

/-! ## 1. Visits -/

/-- **A visit to a child**, with the workspace as it is after it. -/
structure Visit where
  child : InstanceRef
  after : Workspace

namespace Visit

/-- The size that the child has after the visit. -/
def HasSize (v : Visit) (size : Int64) : Prop :=
  ((v.child.size false).runIn v.after).1 = .ok (some size)

/-- What is left of the child's budget once it has been measured. -/
def budgetLeft (v : Visit) (size : Int64) : Int64 :=
  (((v.child.size false).runIn v.after).2.find? v.child.id).elim 0 fun i => i.budgetAfter size

/-- Whether the chain goes on after a visit. -/
def GoesOn (v : Visit) : Prop :=
  ∃ size, v.HasSize size ∧ size ≠ 0 ∧ 0 < v.budgetLeft size

/-- Whether no override is set at the child. -/
def Plain (v : Visit) : Prop :=
  ∀ i, v.after.find? v.child.id = some i → i.sizeOverride = none

/-- Whether a visit goes to the child that lies next to another one. -/
def Follows (v w : Visit) : Prop :=
  v.Plain → ∀ size, v.HasSize size →
    w.child.location = { v.child.location with offset := v.child.offset + size }

/-- **The visits to a chain of children**, of which `left` may follow the first. Each of them lies
next to the one before it, and the last is the one after which the chain does not go on. -/
inductive Chain : (left : Nat) → List Visit → Prop where
  | last {v : Visit} : Chain 0 [v]
  | stop {left : Nat} {v : Visit} : ¬ v.GoesOn → Chain (left + 1) [v]
  | next {left : Nat} {v w : Visit} {rest : List Visit} : v.GoesOn → v.Follows w →
    Chain left (w :: rest) → Chain (left + 1) (v :: w :: rest)

namespace Chain

variable {left : Nat} {visits : List Visit}

theorem length_le (h : Chain left visits) : visits.length ≤ left + 1 := by
  induction h with
  | last => exact Nat.le_refl _
  | stop _ => exact Nat.succ_le_succ (Nat.zero_le _)
  | next _ _ _ ih => exact Nat.succ_le_succ ih

theorem follows (h : Chain left visits) : ∀ {k : Nat} {v w : Visit}, visits[k]? = some v →
    visits[k + 1]? = some w → v.Follows w := by
  induction h with
  | last => exact fun _ hw => nomatch hw
  | stop _ => exact fun _ hw => nomatch hw
  | next _ hfollows _ ih =>
    intro k v w hv hw
    cases k with
    | zero =>
      cases hv
      cases hw
      exact hfollows
    | succ k => exact ih hv hw

/-- **The chain is as long as it may be** just if it goes on after each child that is not the last
one it may have. -/
theorem length_eq_iff (h : Chain left visits) : visits.length = left + 1 ↔
    ∀ (k : Nat) (v : Visit), visits[k]? = some v → k < left → v.GoesOn := by
  induction h with
  | last => exact ⟨fun _ k _ _ hk => absurd hk (Nat.not_lt_zero k), fun _ => rfl⟩
  | @stop left v hstop =>
    refine ⟨fun hlength => ?_, fun hgo => ?_⟩
    · have hlength : 1 = left + 1 + 1 := hlength
      omega
    · exact absurd (hgo 0 v rfl (Nat.succ_pos left)) hstop
  | @next left v w rest hgo _ _ ih =>
    have hcons : (v :: w :: rest).length = left + 1 + 1 ↔ (w :: rest).length = left + 1 := by
      rw [List.length_cons]
      exact Nat.succ_inj
    rw [hcons, ih]
    refine ⟨fun hrest k u hu hk => ?_, fun hall k u hu hk => ?_⟩
    · cases k with
      | zero =>
        cases hu
        exact hgo
      | succ k => exact hrest k u hu (Nat.lt_of_succ_lt_succ hk)
    · exact hall (k + 1) u hu (Nat.succ_lt_succ hk)

end Chain

end Visit

/-- A visitor that also notes its visits. -/
def Visitor.recording {σ : Type} (visit : Visitor σ) : Visitor (σ × List Visit) :=
  fun (s, visits) child => do
    let (s, goOn) ← visit s child
    let ws ← Resolve.ask id
    pure ((s, visits ++ [⟨child, ws⟩]), goOn)

/-- **A visitor that never stops a walk**, and does nothing unsound. -/
def Visitor.Continues (once : Prop) {σ : Type} (visit : Visitor σ) : Prop :=
  ∀ (s : σ) {ws : Workspace} {child : InstanceRef}, ws.Sound once → ws.IsLive child →
    Ends once ws (visit s child) ws fun a _ => a.2 = true

/-! ## 2. Chains of children -/

section

variable {once : Prop} {σ : Type} {visit : Visitor σ} {ws ws₁ : Workspace} {r : InstanceRef}

theorem Visitor.Continues.recording (hv : visit.Continues once) (s : σ) (visits : List Visit)
    (hs : ws.Sound once) (hr : ws.IsLive r) :
    Ends once ws (visit.recording (s, visits) r) ws fun a ws' =>
      a.2 = true ∧ a.1.2 = visits ++ [⟨r, ws'⟩] := by
  unfold Visitor.recording
  exact .call (hv s hs hr) fun a ws₁ hs₁ hg₁ hon => .ask (.pure hs₁ hg₁ ⟨hon, rfl⟩)

/-- A child that has been measured, with something of its budget left, has a next one. -/
theorem Resolver.ends_createNext_of_left {resolver : Resolver} (hs : ws.Sound once)
    (hr : ws.IsLive r) {size : Int64}
    (hsize : (resolver.size r false).runIn ws = (.ok (some size), ws)) (hne : size ≠ 0)
    {i : Instance} (hi : ws.find? r.id = some i) (hleft : 0 < i.budgetAfter size)
    (reason : Reason) :
    Ends once ws (resolver.createNext r reason) ws fun a ws' => ∃ next, a = some next ∧
      ws'.IsLive next ∧
      next.location = { r.location with offset := r.offset + i.sizeOverride.getD size } := by
  have hloc : i.location = r.location := by
    obtain ⟨i', hi', href⟩ := hr
    rw [hi] at hi'
    cases hi'
    exact congrArg InstanceRef.location href
  unfold Resolver.createNext
  refine .run hsize ?_
  dsimp only
  rw [if_neg hne]
  refine .ask ?_
  rw [hi]
  dsimp only
  rw [if_neg (Int64.not_le.mpr hleft)]
  refine .place hs fun added ws₁ hs₁ hg₁ hlive hplace _ => .pure hs₁ hg₁ ⟨_, rfl, hlive, ?_⟩
  rw [hplace, Resolver.nextPlacement, Instance.offset, hloc]
  rfl

/-- **The rest of a walk along a chain**, by induction on how many children may follow. -/
theorem Resolver.ends_walkChain_recording (hv : visit.Continues once) (reason : Reason)
    (frames : Nat) : ∀ (left n : Nat) (s : σ) (visits : List Visit) {child : InstanceRef}
      {ws : Workspace}, ws.Sound once → ws.IsLive child →
      ws.limits.maxDepth - ws.depth = frames →
      Ends once ws ((within frames).walkChain none reason visit.recording left n
        (s, visits ++ [⟨child, ws⟩]) child) ws fun a _ =>
        ∃ rest, a.1.2 = visits ++ ⟨child, ws⟩ :: rest ∧
          Visit.Chain left (⟨child, ws⟩ :: rest) := by
  intro left
  induction left with
  | zero => exact fun n s visits child ws hs _ _ => .pure hs (.refl ws) ⟨[], rfl, .last⟩
  | succ left ih =>
    intro n s visits child ws hs hc hframes
    have hreliable : (within frames).Reliable once := reliable_within frames
    obtain ⟨known, ws₁, hrun, hs₁, hg₁, _⟩ := hreliable.size hs hc false
    have hasked : (child.size false).runIn ws = (.ok known, ws₁) :=
      (Resolve.runIn_resolving _ hframes).trans hrun
    have hends {ws' : Workspace} (hs' : ws'.Sound once) (hg' : ws.Grows ws')
        (hstop : ¬ Visit.GoesOn ⟨child, ws⟩) :
        Ends once ws
          (pure ((s, visits ++ [⟨child, ws⟩]), none) :
            Resolve ((σ × List Visit) × Option InstanceRef))
          ws' fun a _ => ∃ rest, a.1.2 = visits ++ ⟨child, ws⟩ :: rest ∧
            Visit.Chain (left + 1) (⟨child, ws⟩ :: rest) :=
      .pure hs' hg' ⟨[], rfl, .stop hstop⟩
    have hknown {size : Int64} (h : Visit.HasSize ⟨child, ws⟩ size) : known = some size := by
      unfold Visit.HasSize at h
      rw [hasked] at h
      exact Except.ok.inj h
    unfold Resolver.walkChain
    rw [if_neg (fun e => by cases e)]
    cases known with
    | none =>
      have hcan : ((within frames).canCreateNext child false false).runIn ws = (.ok none, ws₁) := by
        unfold Resolver.canCreateNext
        simp only [Resolve.runIn_bind, hrun, Resolve.runIn_pure]
      refine .run hcan ?_
      rw [if_neg (fun e => by cases e)]
      refine hends hs₁ hg₁ ?_
      rintro ⟨size, hsize, _⟩
      cases hknown hsize
    | some size =>
      obtain ⟨i, hi, hir⟩ := hg₁.isLive hc
      have hbudget : Visit.budgetLeft ⟨child, ws⟩ size = i.budgetAfter size := by
        unfold Visit.budgetLeft
        rw [hasked, hi]
        rfl
      have hcan : ((within frames).canCreateNext child false false).runIn ws =
          (.ok (some (decide (0 < i.budgetAfter size))), ws₁) := by
        unfold Resolver.canCreateNext
        simp only [budgetAfter, Resolve.runIn_bind, hrun, Resolve.runIn_ask, Resolve.runIn_pure, hi]
        rfl
      refine .run hcan ?_
      by_cases hleft : 0 < i.budgetAfter size
      · rw [if_pos (by rw [decide_eq_true hleft])]
        have hagain := hreliable.runIn_size_again hs hc hrun (.refl _)
        by_cases hne : size = 0
        · have hnone : ((within frames).createNext child reason).runIn ws₁ = (.ok none, ws₁) := by
            unfold Resolver.createNext
            simp only [Resolve.runIn_bind, hagain, hne, if_true, Resolve.runIn_pure]
          refine .run hnone (hends hs₁ hg₁ ?_)
          rintro ⟨size', hsize', hne', _⟩
          cases hknown hsize'
          exact hne' hne
        · have hgo : Visit.GoesOn ⟨child, ws⟩ := by
            refine ⟨size, ?_, hne, hbudget ▸ hleft⟩
            unfold Visit.HasSize
            rw [hasked]
          refine .call (ends_createNext_of_left hs₁ (hg₁.isLive hc) hagain hne hi hleft reason)
            fun next ws₂ hs₂ hg₂ hnext => ?_
          obtain ⟨next, rfl, hlive, hplace⟩ := hnext
          refine .call (hv.recording s _ hs₂ hlive) fun a ws₃ hs₃ hg₃ hvisit => ?_
          obtain ⟨⟨s₃, visits₃⟩, goOn⟩ := a
          obtain ⟨hon, hvisits⟩ := hvisit
          cases hon
          cases hvisits
          have hg := (hg₁.trans hg₂).trans hg₃
          have hframes₃ : ws₃.limits.maxDepth - ws₃.depth = frames := by
            rw [hg.limits, hg.depth, hframes]
          refine .finish hg (ih (n + 1) s₃ _ hs₃ (hg₃.isLive hlive) hframes₃)
            fun b ws₄ _ _ hchain => ?_
          obtain ⟨rest, hrest, hchain⟩ := hchain
          refine ⟨⟨next, ws₃⟩ :: rest, ?_, .next hgo ?_ hchain⟩
          · rw [hrest, List.append_assoc]
            rfl
          · intro hplain size' hsize'
            cases hknown hsize'
            obtain ⟨i₀, hi₀, _⟩ := hc
            obtain ⟨i', hi', hsame⟩ := hg₁.instances child.id i₀ hi₀
            rw [hi] at hi'
            cases hi'
            have hoverride := hsame.sizeOverride.trans (hplain i₀ hi₀)
            rw [hplace, hoverride]
            rfl
      · rw [if_neg (by rw [decide_eq_false hleft]; exact fun e => by cases e)]
        refine hends hs₁ hg₁ ?_
        rintro ⟨size', hsize', _, hpos⟩
        cases hknown hsize'
        exact hleft (hbudget ▸ hpos)

/-! ## 3. Walks -/

/-- The offset of a field that nothing computes is known. -/
theorem Workspace.Sound.offset_ne_none (hs : ws.Sound once) (ho : once) (hr : ws.IsLive r) {i : Nat}
    {f : String × Field} {e : FieldEntry} (h : ws.KnowsField r i f e) (hvalue : f.2.value = none)
    (hplain : f.2.offsetFormula = none) : e.offset ≠ none := by
  obtain ⟨d, hd, hf⟩ := structOf?_of_fieldOf? h.field
  have hcomputed : f.2.isComputed = false := by
    rw [Field.isComputed, hvalue, hplain]
    rfl
  rw [(hs.fits_of_current ho hr h.current hd).offset i e f h.entry hf hcomputed]
  exact fun e => by cases e

/-- **A walk along the chain in a field**: the first child lies at the offset of the field, and the
others follow. -/
theorem Resolver.ends_walk_recording {frames : Nat} (hv : visit.Continues once) (hs : ws.Sound once)
    (hr : ws.IsLive r) (hframes : ws.limits.maxDepth - ws.depth = frames) {i : Nat}
    {f : String × Field} {struct : String} (hf : ws.fieldOf? r i = some f)
    (hvalue : f.2.value = none) (htype : f.2.type = .struct struct)
    (hdefined : (ws.schema.get? struct).isSome)
    (hchain : ¬ (f.2.individualOffsets = true ∧ f.2.offsetFormula.isSome)) {c : Int64}
    (hcount : ((within frames).elementCount r i false).runIn ws = (.ok (some c), ws₁)) (hc : 0 < c)
    (reason : Reason) (s : σ) :
    Ends once ws ((within frames).walk r i none reason visit.recording (s, [])) ws fun a ws' =>
      ∃ (first : Visit) (rest : List Visit) (offset : Option Int64), a.1.2 = first :: rest ∧
        Visit.Chain (c.toInt.toNat - 1) (first :: rest) ∧
        first.child.location = ⟨struct, r.file, offset.getD 0⟩ ∧
        ((r.fieldOffset i false).runIn ws₁).1 = .ok offset ∧
        (once → ws'.refusals = ws.refusals → ∃ n, offset = some n ∧
          ((r.fieldOffset i false).runIn ws').1 = .ok (some n)) := by
  have hreliable : (within frames).Reliable once := reliable_within frames
  obtain ⟨d, hd, hfield⟩ := Workspace.structOf?_of_fieldOf? hf
  obtain ⟨hs₁, hg₁, hreached₁, hentry₁⟩ := (hreliable.elementCount hr i false hs).of_run hcount
  have hr₁ := hg₁.isLive hr
  have hd₁ := (hg₁.structOf? r).trans hd
  obtain ⟨e₁, he₁, _⟩ := hentry₁ d c hd₁ rfl
  obtain ⟨name, field⟩ := f
  unfold Resolver.walk
  refine .ask ?_
  rw [hf]
  dsimp only at hvalue htype hchain ⊢
  rw [hvalue, htype]
  refine .ask ?_
  rw [Option.isNone_eq_false_iff.mpr hdefined, if_neg Bool.false_ne_true]
  refine .run hcount ?_
  dsimp only [Option.getD_some]
  rw [if_neg (Int64.not_le.mpr hc)]
  split
  · rename_i hindividual hformula
    exact absurd ⟨hindividual, by rw [hformula]; rfl⟩ hchain
  · obtain ⟨offset, ws₂, hoffset, hs₂, hg₂, hreached₂, hentry₂⟩ :=
      hreliable.fieldOffset hs₁ hr₁ i false
    refine .run hoffset ?_
    have hg₂' := hg₁.trans hg₂
    have hr₂ := hg₂.isLive hr₁
    refine .call (hreliable.placeChild hs₂ hr₂ field struct reason _ _)
      fun child ws₃ hs₃ hg₃ hchild => ?_
    have hg₃' := hg₂'.trans hg₃
    refine .call (hv.recording s [] hs₃ hchild.1) fun a ws₄ hs₄ hg₄ hvisit => ?_
    obtain ⟨⟨s₄, visits₄⟩, goOn⟩ := a
    obtain ⟨hon, hvisits⟩ := hvisit
    cases hon
    cases hvisits
    have hg₄' := hg₃'.trans hg₄
    have hframes₄ : ws₄.limits.maxDepth - ws₄.depth = frames := by
      rw [hg₄'.limits, hg₄'.depth, hframes]
    refine .finish hg₄' (ends_walkChain_recording hv reason frames _ 0 s₄ [] hs₄
      (hg₄.isLive hchild.1) hframes₄) fun b ws₅ _ hg₅ hwalk => ?_
    obtain ⟨rest, hrest, hchain₅⟩ := hwalk
    have hg₅' := (hg₃.trans hg₄).trans hg₅
    have hframes₁ : ws₁.limits.maxDepth - ws₁.depth = frames := by
      rw [hg₁.limits, hg₁.depth, hframes]
    have hasked : ((r.fieldOffset i false).runIn ws₁).1 = .ok offset := by
      unfold InstanceRef.fieldOffset
      rw [Resolve.runIn_resolving _ hframes₁, hoffset]
    refine ⟨⟨child, ws₄⟩, rest, offset, hrest, hchain₅, hchild.2, hasked, fun ho hrefusals => ?_⟩
    obtain ⟨e₂, he₂, _⟩ := hg₂.entryOf? hr₁ hreached₁.1 hd₁ he₁
    have hf₂ : ws₂.fieldOf? r i = some (name, field) := by
      rw [Workspace.fieldOf?, hg₂'.structOf?]
      exact hf
    have hknows : ws₂.KnowsField r i (name, field) e₂ := .of_entry hf₂ hreached₂.1 he₂
    obtain ⟨e₅, hknows₅, hgrow⟩ := hknows.grows hr₂ hg₅'
    cases offset with
    | none =>
      have hle₁ := hg₁.refusals
      have hle₂ := hg₂.refusals
      have hle₅ := hg₅'.refusals
      obtain ⟨hnone, hplain⟩ := hentry₂.2.2 rfl rfl (by omega) _ e₂ hf₂ he₂
      exact absurd hnone (hs₂.offset_ne_none ho hr₂ hknows hvalue hplain)
    | some n =>
      obtain ⟨e, he, hn⟩ := hentry₂.1 n rfl
      rw [he₂] at he
      cases he
      have hn₅ := hgrow.offset n hn
      obtain ⟨_, hagain, _⟩ :=
        runIn_fieldOffset (.within _) hknows₅ (.inl (by rw [hn₅]; rfl)) false
      refine ⟨n, rfl, ?_⟩
      rw [InstanceRef.fieldOffset, Resolve.runIn_resolving _ rfl, hagain, hn₅]

end

/-- Whether a visitor never stops a walk. -/
def Visitor.NeverStops {σ : Type} (visit : Visitor σ) : Prop :=
  ∀ (s : σ) (child : InstanceRef) (ws ws' : Workspace) (a : σ × Bool),
    (visit s child).runIn ws = (.ok a, ws') → a.2 = true

theorem Visitor.NeverStops.continues {once : Prop} {σ : Type} {visit : Visitor σ}
    (hon : visit.NeverStops) (hrequest : ∀ s child, Request (visit s child)) :
    visit.Continues once := by
  intro s ws child hs _
  obtain ⟨a, ws', hrun, hs', hg', _⟩ := (hrequest s child).ends hs
  exact ⟨a, ws', hrun, hs', hg', hon s child ws ws' a hrun⟩

/-- **Which elements a walk reaches**, after any history and with any visitor that makes requests
and never stops it. The walk ends. Its first child lies at the offset of the field and each other
one behind the one before it, and there are no more of them than elements. All elements are reached
just if something is left of the budget of each child but the last, once the child has been
measured. -/
theorem Workspace.Reached.walk_chain {ws ws₁ : Workspace} {n : Nat} {edited : Bool}
    (h : ws.Reached n edited) {r : InstanceRef} (hr : ws.IsLive r) {i : Nat} {f : String × Field}
    {struct : String} (hf : ws.fieldOf? r i = some f) (hvalue : f.2.value = none)
    (htype : f.2.type = .struct struct) (hdefined : (ws.schema.get? struct).isSome)
    (hchain : ¬ (f.2.individualOffsets = true ∧ f.2.offsetFormula.isSome)) {c : Int64}
    (hcount : (r.elementCount i false).runIn ws = (.ok (some c), ws₁)) (hc : 0 < c)
    {σ : Type} {visit : Visitor σ} (hrequest : ∀ s child, Request (visit s child))
    (hon : visit.NeverStops) (reason : Reason) (s : σ) :
    ∃ (s' : σ) (visits : List Visit) (last : Option InstanceRef) (ws' : Workspace),
      (r.walk i none reason visit.recording (s, [])).runIn ws = (.ok ((s', visits), last), ws') ∧
      (ws'.refusals = ws.refusals →
        (∀ v ∈ visits, v.Plain ∧ ∃ size, v.HasSize size ∧ size ≠ 0) →
        visits.length ≤ c.toInt.toNat ∧
        (∃ first offset, visits[0]? = some first ∧
          first.child.location = ⟨struct, r.file, offset.getD 0⟩ ∧
          ((r.fieldOffset i false).runIn ws₁).1 = .ok offset ∧
          (n < Schema.versionLimit → offset.isSome ∧
            ((r.fieldOffset i false).runIn ws').1 = .ok offset)) ∧
        (∀ (k : Nat) (v w : Visit) (size : Int64), visits[k]? = some v →
          visits[k + 1]? = some w → v.HasSize size →
          w.child.location = { v.child.location with offset := v.child.offset + size }) ∧
        (visits.length = c.toInt.toNat ↔ ∀ (k : Nat) (v : Visit) (size : Int64),
          visits[k]? = some v → k + 1 < c.toInt.toNat → v.HasSize size →
          0 < v.budgetLeft size)) := by
  have hs := h.atRest.sound
  have hcount' := (Resolve.runIn_resolving _ rfl).symm.trans hcount
  obtain ⟨⟨⟨s', visits⟩, last⟩, ws', hrun, hs', hg', first, rest, offset, hvisits, hwalk, hloc,
    hasked, hknown⟩ := Resolver.ends_walk_recording (hon.continues hrequest) hs hr rfl hf hvalue
      htype hdefined hchain hcount' hc reason s
  refine ⟨s', visits, last, ws', (Resolve.runIn_resolving _ rfl).trans hrun,
    fun hrefusals hchildren => ?_⟩
  cases hvisits
  have hpositive : 0 < c.toInt.toNat := by
    have hlt := Int64.lt_iff_toInt_lt.mp hc
    have hzero : (0 : Int64).toInt = 0 := rfl
    omega
  have hleft : c.toInt.toNat - 1 + 1 = c.toInt.toNat := Nat.sub_add_cancel hpositive
  have hlength := hwalk.length_le
  have hiff := hwalk.length_eq_iff
  rw [hleft] at hlength hiff
  refine ⟨hlength, ⟨first, offset, rfl, hloc, hasked, fun hn => ?_⟩,
    fun k v w size hv hw hsize => ?_, hiff.trans ⟨fun hall k v size hv hk hsize => ?_,
      fun hall k v hv hk => ?_⟩⟩
  · obtain ⟨m, rfl, hm⟩ := hknown hn hrefusals
    exact ⟨rfl, hm⟩
  · exact hwalk.follows hv hw (hchildren v (List.mem_of_getElem? hv)).1 size hsize
  · obtain ⟨size', hsize', _, hpos⟩ := hall k v hv (by omega)
    unfold Visit.HasSize at hsize hsize'
    rw [hsize'] at hsize
    cases hsize
    exact hpos
  · obtain ⟨_, size, hsize, hne⟩ := hchildren v (List.mem_of_getElem? hv)
    exact ⟨size, hsize, hne, hall k v size hv (by omega) hsize⟩

namespace Workspace

/-- A struct as long as the number of the child in it says. The child lies where the struct does, so
measuring a cell places the same cell again. -/
def cell : StructDef :=
  { StructDef.empty with
    size := 3
    sizeSource := some "id"
    fields := ⟨[("self", .ofType (.struct "Cell")), ("id", { Field.ofType (.scalar .char) with
      value := some ⟨"$iid(self)", .instanceId (some (.sub none "self" (.mk [] [] none))),
        by cbv⟩ })], by decide⟩ }

/-- A struct of three cells. -/
def table : StructDef :=
  { StructDef.empty with
    size := 12
    fields := ⟨[("cells", { Field.ofType (.struct "Cell") with count := 3 })], by decide⟩ }

def tableSchema : Schema :=
  ⟨((∅ : Std.TreeMap String StructDef).insert "Table" table).insert "Cell" cell, 0⟩

/-- An instance of it. -/
def tableRef : InstanceRef := ⟨0, ⟨"Table", 0, 0⟩⟩

/-- A workspace with this instance. -/
def withTable : Workspace :=
  ((ofSchema tableSchema .default).place (.single tableRef.location .user)).2

theorem made_tableSchema : tableSchema.Made 0 := .of_toList rfl (by decide)

/-- What has been seen of the children in a walk: their numbers, sizes and overrides. -/
def seen (result : Except Fault ((Unit × List Visit) × Option InstanceRef)) :
    List (InstanceId × Option Int64 × Option Int64) :=
  match result with
  | .error _ => []
  | .ok ((_, visits), _) => visits.map fun v =>
    (v.child.id, ((v.child.size false).runIn v.after).1.toOption.join,
      (v.after.find? v.child.id).bind fun i => i.sizeOverride)

/-- Only the first of the three cells is visited, because nothing is left of its budget. -/
theorem walk_chain_withTable : withTable.Reached 0 false ∧ ∃ first last ws',
    (tableRef.walk 0 none .query Visitor.idle.recording ((), [])).runIn withTable =
      (.ok (((), [first]), last), ws') ∧ first.HasSize 4 ∧ ¬ 0 < first.budgetLeft 4 := by
  have hreached : withTable.Reached 0 false :=
    .request (.start made_tableSchema trivial (by decide)) (.place _)
  have hcount : ((tableRef.elementCount 0 false).runIn withTable).1 = .ok (some 3) := by
    cbv
  have hdefined : (withTable.schema.get? "Cell").isSome := rfl
  have hrequest : ∀ s child, Request (Visitor.idle s child) := fun _ _ => .done _
  have hon : Visitor.idle.NeverStops := by
    intro _ _ _ _ _ h
    cases h
    rfl
  obtain ⟨_, visits, last, ws', hrun, hrest⟩ := hreached.walk_chain (r := tableRef) (i := 0)
    ⟨_, rfl, rfl⟩ rfl rfl rfl hdefined (by decide) (Prod.ext hcount rfl) (by decide) hrequest hon
    .query ()
  have hseen : seen ((tableRef.walk 0 none .query Visitor.idle.recording ((), [])).runIn
      withTable).1 = [(1, some 4, none)] := by
    decide +kernel
  have hrefusals : ((tableRef.walk 0 none .query Visitor.idle.recording ((), [])).runIn
      withTable).2.refusals = withTable.refusals := by
    decide +kernel
  rw [hrun] at hseen hrefusals
  obtain ⟨first, rfl, hfirst⟩ := List.map_eq_singleton_iff.mp hseen
  simp only [Prod.mk.injEq] at hfirst
  obtain ⟨_, hsize, hplain⟩ := hfirst
  have hsize : first.HasSize 4 := by
    unfold Visit.HasSize
    generalize ((first.child.size false).runIn first.after).1 = result at hsize
    cases result with
    | error _ => cases hsize
    | ok known =>
      cases known with
      | none => cases hsize
      | some size =>
        cases hsize
        rfl
  have hchildren : ∀ v ∈ [first], v.Plain ∧ ∃ size, v.HasSize size ∧ size ≠ 0 := by
    intro v hv
    cases List.mem_singleton.mp hv
    refine ⟨fun i hi => ?_, 4, hsize, by decide⟩
    rw [hi] at hplain
    exact hplain
  have hiff := (hrest hrefusals hchildren).2.2.2
  refine ⟨hreached, first, last, ws', hrun, hsize, fun hpos => ?_⟩
  have hall := hiff.mpr fun k v size hv _ hsize' => by
    cases k with
    | succ k => cases hv
    | zero =>
      cases hv
      unfold Visit.HasSize at hsize hsize'
      rw [hsize] at hsize'
      cases hsize'
      exact hpos
  have hthree : 1 = (3 : Int64).toInt.toNat := hall
  exact absurd hthree (by decide)

end Workspace

end ByteAtlas
