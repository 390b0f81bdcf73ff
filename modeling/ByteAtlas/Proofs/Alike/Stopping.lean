import ByteAtlas.Proofs.Alike.Prepared
import ByteAtlas.Proofs.Resolve.Walks

/-!
# Walks that are stopped

A walk along a chain may end for four reasons: there are no more elements, nothing is left of the
budget, the element is reached that was asked for, or the visitor stops it. Only the last two depend
on who walks. So there is one row of children from each workspace, and a walk with a visitor that
only looks sees a first part of it (`Resolver.exists_row`); that visitor's own rule and the element
asked for tell how far it gets (`cutAfter`).
-/

namespace ByteAtlas

open Resolve (Agree noRefs)

/-! ## 1. Visitors that only look -/

namespace Visitor

variable {σ : Type}

/-- The visitor that does nothing to the workspace. -/
def ofFun (f : σ → InstanceRef → σ × Bool) : Visitor σ := fun s child => pure (f s child)

/-- What a walk ends with that has seen the child numbered `n`, with others after it. -/
def follow (f : σ → InstanceRef → σ × Bool) (upTo : Option Nat) :
    (n : Nat) → σ → (child : InstanceRef) → (rest : List InstanceRef) → σ × Option InstanceRef
  | n, s, child, [] => (s, if upTo = some n then some child else none)
  | n, s, child, next :: rest =>
    if upTo = some n then (s, some child)
    else if (f s next).2 then follow f upTo (n + 1) (f s next).1 next rest
    else ((f s next).1, some next)

/-- What a walk along a row of children ends with. -/
def followAll (f : σ → InstanceRef → σ × Bool) (upTo : Option Nat) (s : σ) :
    List InstanceRef → σ × Option InstanceRef
  | [] => (s, none)
  | child :: rest =>
    if (f s child).2 then follow f upTo 0 (f s child).1 child rest else ((f s child).1, some child)

/-- **The visitor that notes the children** it is shown, and stops the walk at the one of a
number. -/
def noting (stop : Option Nat) : Visitor (List InstanceRef) := fun seen child =>
  pure (seen ++ [child], stop ≠ some seen.length)

/-- What it makes of a child. -/
def note (stop : Option Nat) (seen : List InstanceRef) (child : InstanceRef) :
    List InstanceRef × Bool :=
  (seen ++ [child], stop ≠ some seen.length)

theorem note_goesOn {stop : Option Nat} {seen : List InstanceRef} {child : InstanceRef} :
    (note stop seen child).2 = true ↔ stop ≠ some seen.length :=
  decide_eq_true_iff

theorem noting_eq (stop : Option Nat) : noting stop = ofFun (note stop) := rfl

end Visitor

/-! ## 2. Where a walk is cut -/

/-- The number of the last visit of a walk that goes on for that long: the walk ends with the
element asked for, and the visitor stops it at another one. -/
def lastVisit : (upTo stop : Option Nat) → Option Nat
  | some n, some j => some (min n j)
  | some n, none => some n
  | none, stop => stop

/-- **What a walk ends with** that is cut after the visit of a number, if there are that many: what
it has seen, and where it was cut. -/
def cutAfter (children : List InstanceRef) : Option Nat → List InstanceRef × Option InstanceRef
  | none => (children, none)
  | some t => (children.take (t + 1), children[t]?)

section

variable {upTo stop : Option Nat} {n : Nat}

/-- A walk that has not been stopped before an element is cut there just if that is the one asked
for. -/
theorem lastVisit_cases (hupTo : ∀ m, upTo = some m → n ≤ m) (hstop : ∀ j, stop = some j → n < j) :
    (upTo = some n ∧ lastVisit upTo stop = some n) ∨
      (upTo ≠ some n ∧ ∀ t, lastVisit upTo stop = some t → n < t) := by
  cases upTo with
  | none => exact .inr ⟨nofun, fun t ht => hstop t ht⟩
  | some m =>
    have hle := hupTo m rfl
    by_cases hm : m = n
    · subst hm
      refine .inl ⟨rfl, ?_⟩
      cases stop with
      | none => rfl
      | some j => exact congrArg some (Nat.min_eq_left (Nat.le_of_lt (hstop j rfl)))
    · refine .inr ⟨fun he => hm (Option.some.inj he), fun t ht => ?_⟩
      cases stop with
      | none =>
        cases ht
        omega
      | some j =>
        have hlt := hstop j rfl
        cases ht
        omega

variable {before : List InstanceRef} {child : InstanceRef} {rest : List InstanceRef}

theorem cutAfter_length :
    cutAfter (before ++ child :: rest) (some before.length) = (before ++ [child], some child) := by
  unfold cutAfter
  dsimp only
  rw [List.take_length_add_append, List.getElem?_append_right (Nat.le_refl _), Nat.sub_self]
  rfl

/-- Where a row is shorter than that, nothing is cut. -/
theorem cutAfter_of_short {children : List InstanceRef} {last : Option Nat}
    (h : ∀ t, last = some t → children.length ≤ t) : cutAfter children last = (children, none) := by
  cases last with
  | none => rfl
  | some t =>
    have hle := h t rfl
    unfold cutAfter
    dsimp only
    rw [List.take_of_length_le (by omega), List.getElem?_eq_none hle]

end

namespace Visitor

/-- The rest of a row, as long as nothing has stopped the walk. -/
theorem follow_note (upTo stop : Option Nat) (rest : List InstanceRef) :
    ∀ (before : List InstanceRef) (child : InstanceRef),
      (∀ m, upTo = some m → before.length ≤ m) → (∀ j, stop = some j → before.length < j) →
      follow (note stop) upTo before.length (before ++ [child]) child rest =
        cutAfter (before ++ child :: rest) (lastVisit upTo stop) := by
  induction rest with
  | nil =>
    intro before child hupTo hstop
    unfold follow
    rcases lastVisit_cases hupTo hstop with ⟨hn, hlast⟩ | ⟨hn, hlast⟩
    · rw [if_pos hn, hlast, cutAfter_length]
    · rw [if_neg hn, cutAfter_of_short fun t ht => ?_]
      rw [List.length_append]
      exact hlast t ht
  | cons next rest ih =>
    intro before child hupTo hstop
    have hsplit : before ++ child :: next :: rest = (before ++ [child]) ++ next :: rest := by
      rw [List.append_assoc]
      rfl
    have hlength : (before ++ [child]).length = before.length + 1 := List.length_append
    unfold follow
    rcases lastVisit_cases hupTo hstop with ⟨hn, hlast⟩ | ⟨hn, hlast⟩
    · rw [if_pos hn, hlast, cutAfter_length]
    · have hupTo' (m : Nat) (hm : upTo = some m) : (before ++ [child]).length ≤ m := by
        have hle := hupTo m hm
        have hne : before.length ≠ m := fun he => hn (he ▸ hm)
        omega
      rw [if_neg hn, hsplit]
      by_cases hgo : stop = some (before ++ [child]).length
      · rw [if_neg fun hon => note_goesOn.mp hon hgo]
        have hlast : lastVisit upTo stop = some (before ++ [child]).length := by
          cases upTo with
          | none => exact hgo
          | some m =>
            rw [hgo]
            exact congrArg some (Nat.min_eq_right (hupTo' m rfl))
        rw [hlast, cutAfter_length]
        rfl
      · rw [if_pos (note_goesOn.mpr hgo), ← hlength]
        refine ih (before ++ [child]) next hupTo' fun j hj => ?_
        have hlt := hstop j hj
        have hne : (before ++ [child]).length ≠ j := fun he => hgo (he ▸ hj)
        omega

/-- **What the visitor that notes children has seen.** -/
theorem followAll_note (upTo stop : Option Nat) (children : List InstanceRef) :
    followAll (note stop) upTo [] children = cutAfter children (lastVisit upTo stop) := by
  cases children with
  | nil => exact (cutAfter_of_short fun _ _ => Nat.zero_le _).symm
  | cons child rest =>
    unfold followAll
    dsimp only
    by_cases hgo : stop = some 0
    · have hlast : lastVisit upTo stop = some ([] : List InstanceRef).length := by
        rw [hgo]
        cases upTo with
        | none => rfl
        | some m => exact congrArg some (Nat.min_eq_right (Nat.zero_le m))
      rw [if_neg fun hon => note_goesOn.mp hon hgo, hlast]
      exact cutAfter_length.symm
    · rw [if_pos (note_goesOn.mpr hgo)]
      refine follow_note upTo stop rest [] child (fun _ _ => Nat.zero_le _) fun j hj => ?_
      exact Nat.pos_of_ne_zero fun he => hgo (he ▸ hj)

end Visitor

/-! ## 3. The row of children -/

/-- A walk with a visitor that only looks, or what it ends with. -/
abbrev Looking (α : Type → Type) : Type 1 :=
  (σ : Type) → (σ → InstanceRef → σ × Bool) → (upTo : Option Nat) → σ → α σ

/-- **Whether walks end as is told**, wherever they are stopped. The one that is not stopped ends
in a certain workspace, and in none of the others more frames have been refused. -/
structure Workspace.Plays (ws last : Workspace)
    (walk : Looking fun σ => Resolve (σ × Option InstanceRef))
    (told : Looking fun σ => σ × Option InstanceRef) : Prop where
  refusals : ws.refusals ≤ last.refusals
  ends : ∀ {σ : Type} (f : σ → InstanceRef → σ × Bool) (upTo : Option Nat) (s : σ), ∃ ws',
    (walk σ f upTo s).runIn ws = (.ok (told σ f upTo s), ws') ∧ ws'.refusals ≤ last.refusals ∧
      (upTo = none → (∀ s child, (f s child).2 = true) → ws' = last)

namespace Resolver

variable {once : Prop} {resolver : Resolver} {ws : Workspace}

/-- **The rest of a chain**, by induction on how many children may follow. -/
theorem exists_rest (h : resolver.Reliable once) (reason : Reason) (left : Nat) :
    ∀ (n : Nat) {child : InstanceRef} {ws : Workspace}, ws.Sound once → ws.IsLive child →
      ∃ (rest : List InstanceRef) (last : Workspace), ws.Plays last
        (fun _ f upTo s => resolver.walkChain upTo reason (.ofFun f) left n s child)
        fun _ f upTo s => Visitor.follow f upTo n s child rest := by
  induction left with
  | zero =>
    intro n child ws hs hc
    exact ⟨[], ws, Nat.le_refl _, fun f upTo s => ⟨ws, rfl, Nat.le_refl _, fun _ _ => rfl⟩⟩
  | succ left ih =>
    intro n child ws hs hc
    obtain ⟨can, ws₁, hcan, hs₁, hg₁, _⟩ := (h.answers child).canCreateNext false false hs hc
    -- A chain that does not go on ends here, and only one that asks for this child has a result.
    have hend {last : Workspace} (hle : ws.refusals ≤ last.refusals)
        (hlast : ∀ {σ : Type} (f : σ → InstanceRef → σ × Bool) (upTo : Option Nat) (s : σ),
          upTo ≠ some n → (resolver.walkChain upTo reason (.ofFun f) (left + 1) n s child).runIn ws =
            (.ok (s, none), last)) :
        ∃ (rest : List InstanceRef) (last : Workspace), ws.Plays last
          (fun _ f upTo s => resolver.walkChain upTo reason (.ofFun f) (left + 1) n s child)
          fun _ f upTo s => Visitor.follow f upTo n s child rest := by
      refine ⟨[], last, hle, fun f upTo s => ?_⟩
      by_cases hn : upTo = some n
      · refine ⟨ws, ?_, hle, fun he => absurd (hn.symm.trans he) (Option.some_ne_none n)⟩
        rw [Resolver.walkChain, if_pos hn, Visitor.follow, if_pos hn]
        rfl
      · refine ⟨last, ?_, Nat.le_refl _, fun _ _ => rfl⟩
        rw [hlast f upTo s hn, Visitor.follow, if_neg hn]
    by_cases hgo : can = some true
    · obtain ⟨next, ws₂, hnext, hs₂, hg₂, hlive⟩ := h.createNext hs₁ (hg₁.isLive hc) reason
      have hle₂ := (hg₁.trans hg₂).refusals
      cases next with
      | none =>
        refine hend hle₂ fun f upTo s hn => ?_
        rw [Resolver.walkChain, if_neg hn, Resolve.runIn_bind, hcan]
        dsimp only
        rewrite [if_pos hgo, Resolve.runIn_bind, hnext]
        rfl
      | some next =>
        obtain ⟨rest, last, hplays⟩ := ih (n + 1) hs₂ (hlive next rfl)
        have hle := Nat.le_trans hle₂ hplays.refusals
        refine ⟨next :: rest, last, hle, fun f upTo s => ?_⟩
        by_cases hn : upTo = some n
        · refine ⟨ws, ?_, hle, fun he => absurd (hn.symm.trans he) (Option.some_ne_none n)⟩
          rw [Resolver.walkChain, if_pos hn, Visitor.follow, if_pos hn]
          rfl
        · rw [Resolver.walkChain, if_neg hn, Resolve.runIn_bind, hcan, Visitor.follow, if_neg hn]
          dsimp only
          rw [if_pos hgo, Resolve.runIn_bind, hnext]
          dsimp only
          rw [Resolve.runIn_bind, Visitor.ofFun, Resolve.runIn_pure]
          by_cases hon : (f s next).2 = true
          · rw [if_pos hon]
            dsimp only
            rw [if_pos hon]
            exact hplays.ends f upTo (f s next).1
          · rw [if_neg hon]
            dsimp only
            rw [if_neg hon]
            exact ⟨ws₂, rfl, hplays.refusals, fun _ hall => absurd (hall s next) hon⟩
    · refine hend hg₁.refusals fun f upTo s hn => ?_
      rw [Resolver.walkChain, if_neg hn, Resolve.runIn_bind, hcan]
      dsimp only
      rw [if_neg hgo]
      rfl

/-- A walk that shows no children. -/
theorem plays_none {ws last : Workspace} {walk : Looking fun σ => Resolve (σ × Option InstanceRef)}
    (hle : ws.refusals ≤ last.refusals)
    (hrun : ∀ {σ : Type} (f : σ → InstanceRef → σ × Bool) (upTo : Option Nat) (s : σ),
      (walk σ f upTo s).runIn ws = (.ok (s, none), last)) :
    ws.Plays last walk fun _ f upTo s => Visitor.followAll f upTo s [] :=
  ⟨hle, fun f upTo s => ⟨last, hrun f upTo s, Nat.le_refl _, fun _ _ => rfl⟩⟩

/-- **The row of children in a field** whose elements do not have offsets of their own. -/
theorem exists_row (h : resolver.Reliable once) (hs : ws.Sound once) {r : InstanceRef}
    (hr : ws.IsLive r) {i : Nat} {f : String × Field} (hf : ws.fieldOf? r i = some f)
    (hchain : ¬ (f.2.individualOffsets = true ∧ f.2.offsetFormula.isSome)) (reason : Reason) :
    ∃ (children : List InstanceRef) (last : Workspace), ws.Plays last
      (fun _ f upTo s => resolver.walk r i upTo reason (.ofFun f) s)
      fun _ f upTo s => Visitor.followAll f upTo s children := by
  obtain ⟨name, field⟩ := f
  by_cases hholds : ∃ struct, HoldsDefined ws r i field struct
  · obtain ⟨struct, hholds⟩ := hholds
    obtain ⟨count, ws₁, hcount, hs₁, hg₁, _⟩ := h.elementCount hr i false hs
    have hr₁ := hg₁.isLive hr
    by_cases hpos : count.getD 0 ≤ 0
    · refine ⟨[], ws₁, plays_none hg₁.refusals fun f upTo s => ?_⟩
      rw [resolver.runIn_walk hholds, Resolve.runIn_bind, hcount]
      dsimp only
      unfold walkCounted
      rw [if_pos hpos]
      rfl
    · obtain ⟨offset, ws₂, hoffset, hs₂, hg₂, _⟩ := h.fieldOffset hs₁ hr₁ i false
      obtain ⟨child, ws₃, hchild, hs₃, hg₃, hlive, _⟩ := h.placeChild hs₂ (hg₂.isLive hr₁) field
        struct reason (offset.getD 0) ⟨count.getD 0, field.countIsBytes⟩
      obtain ⟨rest, last, hplays⟩ :=
        exists_rest h reason ((count.getD 0).toInt.toNat - 1) 0 hs₃ hlive
      have hle₃ := ((hg₁.trans hg₂).trans hg₃).refusals
      refine ⟨child :: rest, last, Nat.le_trans hle₃ hplays.refusals, fun f upTo s => ?_⟩
      have hrun : (resolver.walk r i upTo reason (.ofFun f) s).runIn ws = Resolve.runIn
          (if (f s child).2 then
            resolver.walkChain upTo reason (.ofFun f) ((count.getD 0).toInt.toNat - 1) 0 (f s child).1
              child
          else pure ((f s child).1, some child)) ws₃ := by
        rw [resolver.runIn_walk hholds, Resolve.runIn_bind, hcount]
        dsimp only
        unfold walkCounted
        rw [if_neg hpos]
        split
        · rename_i hindividual hformula
          exact absurd ⟨hindividual, by rw [hformula]; rfl⟩ hchain
        · rw [Resolve.runIn_bind, hoffset]
          dsimp only
          rw [Resolve.runIn_bind, hchild]
          rfl
      rw [hrun, Visitor.followAll]
      by_cases hon : (f s child).2 = true
      · rw [if_pos hon, if_pos hon]
        exact hplays.ends f upTo (f s child).1
      · rw [if_neg hon, if_neg hon]
        exact ⟨ws₃, rfl, hplays.refusals, fun _ hall => absurd (hall s child) hon⟩
  · have hno (field' : Field) (struct : String) : ¬ HoldsDefined ws r i field' struct := by
      rintro ⟨name', hf', hrest⟩
      rw [hf] at hf'
      cases hf'
      exact hholds ⟨struct, name, hf, hrest⟩
    exact ⟨[], ws, plays_none (Nat.le_refl _) fun f upTo s =>
      resolver.runIn_walk_of_not_holds hno upTo reason (.ofFun f) s⟩

/-! ## 4. Offsets of children -/

/-- The offset of a field is known once it has been laid out, if nothing computes it. -/
theorem runIn_fieldOffset_of_plain (resolver : Resolver) {ws₁ : Workspace} {r : InstanceRef} {i : Nat}
    {isLazy : Bool} (hlaid : (resolver.enumerate r (i + 1) isLazy).runIn ws = (.ok (), ws₁))
    {f : String × Field} (hf : ws₁.fieldOf? r i = some f) (hplain : f.2.offsetFormula = none) :
    (resolver.fieldOffset r i isLazy).runIn ws =
      (.ok ((ws₁.entryOf? r i).bind fun e => e.offset), ws₁) := by
  unfold Resolver.fieldOffset
  rw [Resolve.runIn_bind, hlaid]
  dsimp only
  rw [Resolve.runIn_bind, ByteAtlas.entryOf?, Resolve.runIn_ask]
  dsimp only
  cases ws₁.entryOf? r i with
  | none => rfl
  | some e =>
    dsimp only [Option.bind_some]
    split
    · rfl
    · rename_i hunknown
      rw [Bool.or_eq_true, not_or] at hunknown
      rw [Option.not_isSome_iff_eq_none.mp hunknown.1, Resolve.runIn_bind, ByteAtlas.fieldOf?,
        Resolve.runIn_ask]
      dsimp only
      rw [hf, Option.bind_some, hplain]
      rfl

/-- **The offset of an element that a child holds** is where a walk up to it ends. -/
theorem valueOffset_of_walk (h : resolver.Reliable once) (hsteady : resolver.Steady .strict)
    (ho : once) (hs : ws.Sound once) {r : InstanceRef} (hr : ws.IsLive r)
    (hidle : (ws.layoutOf r).measuring = none) {i : Nat} {f : String × Field}
    (hf : ws.fieldOf? r i = some f) (hvalue : f.2.value = none) {struct : String}
    (htype : f.2.type = .struct struct) (hplain : f.2.offsetFormula = none) {reason : Reason} {n : Nat}
    (hn : n ≠ 0) {a : List InstanceRef × Option InstanceRef} {wsa : Workspace}
    (hwalk : (resolver.walk r i (some n) reason (.noting none) []).runIn ws = (.ok a, wsa))
    (hquiet : wsa.refusals = ws.refusals) {offset : Option Int64} {wsb : Workspace}
    (hrun : (resolver.valueOffset r i n false).runIn ws = (.ok offset, wsb))
    (hquiet' : wsb.refusals = ws.refusals) :
    offset = a.2.map InstanceRef.offset := by
  obtain ⟨⟨⟩, ws₁, hlaid, hs₁, hg₁, hcurrent, hreach⟩ := h.enumerate hs hr (i + 1) false
  have hr₁ := hg₁.isLive hr
  have hf₁ := (hg₁.fieldOf? r i).trans hf
  have hoffset := resolver.runIn_fieldOffset_of_plain hlaid hf₁ hplain
  unfold Resolver.valueOffset at hrun
  rw [Resolve.runIn_bind, hoffset] at hrun
  dsimp only at hrun
  cases hknown : (ws₁.entryOf? r i).bind fun e => e.offset with
  | none =>
    rw [hknown] at hrun
    obtain rfl : ws₁ = wsb := congrArg Prod.snd hrun
    obtain ⟨e, hknows⟩ := Workspace.KnowsField.of_laidOut hf₁ hcurrent (hreach rfl hquiet' hidle)
    rw [hknows.entry] at hknown
    exact absurd hknown (hs₁.offset_ne_none ho hr₁ hknows hvalue hplain)
  | some start =>
    have hholds : ws₁.holdsChildren r i = true := by
      rw [Workspace.holdsChildren, hf₁, Option.any_some, hvalue, htype]
      rfl
    rw [hknown] at hrun
    dsimp only at hrun
    rw [if_neg hn, Resolve.runIn_bind, Resolve.runIn_ask] at hrun
    dsimp only at hrun
    rw [hholds, Bool.not_false, Bool.and_true, if_pos rfl, Resolve.runIn_bind] at hrun
    obtain ⟨⟨⟨⟩, child⟩, ws₂, hagain, hs₂, hg₂, _⟩ :=
      h.walk_idle i n hs₁ hr₁
    rw [hagain] at hrun
    cases hrun
    have hle₁ := hg₁.refusals
    have hle₂ := hg₂.refusals
    by_cases hdefined : (ws.schema.get? struct).isSome
    · have hvisitors : Visitor.Agree Likeness.strict.Alike (Eq r) (fun _ _ => True) noRefs
          (.noting none) .idle :=
        ⟨fun _ _ => .pure _, fun _ _ => .pure _,
          fun _ _ => .pure ⟨trivial, rfl⟩ fun _ hr => False.elim hr⟩
      obtain ⟨_, ⟨_, hsame⟩, _⟩ := hsteady.walk_again h hs hr hidle hvisitors
        ⟨f.1, hf, hvalue, htype, hdefined⟩ (fun _ hr => hr) trivial hwalk hquiet hlaid hagain
        (by omega)
      rw [hsame]
    · have hno {ws' : Workspace} (hschema : ws'.schema = ws.schema)
          (hf' : ws'.fieldOf? r i = some f) (field : Field) (struct' : String) :
          ¬ HoldsDefined ws' r i field struct' := by
        rintro ⟨_, hfield, _, htype', hdefined'⟩
        rw [hf'] at hfield
        cases hfield
        rw [htype] at htype'
        cases htype'
        exact hdefined (hschema ▸ hdefined')
      rw [resolver.runIn_walk_of_not_holds (hno rfl hf)] at hwalk
      rw [resolver.runIn_walk_of_not_holds (hno hg₁.schema hf₁)] at hagain
      cases hwalk
      cases hagain
      rfl

end Resolver

namespace Workspace

/-- **A walk that is stopped sees a first part of the full walk**, after any history. From a
workspace there is one row of children in a field whose elements do not have offsets of their own. A
walk that nothing stops sees all of them. One that is to end with an element, or that its visitor
stops, sees them up to there, and its result is the child at which it has been cut, or none if there
are not so many. So the offset of an element other than the first is that of the child, if no
expression gives the offset of the field and no frame is refused.

Versions tell definitions apart as long as none has been given out twice. -/
theorem Reached.walk_cut {ws : Workspace} {versions : Nat} {edited : Bool}
    (h : ws.Reached versions edited) {r : InstanceRef} (hr : ws.IsLive r) {i : Nat}
    {f : String × Field} {struct : String} (hf : ws.fieldOf? r i = some f)
    (hvalue : f.2.value = none) (htype : f.2.type = .struct struct)
    (hchain : ¬ (f.2.individualOffsets = true ∧ f.2.offsetFormula.isSome)) (reason : Reason) :
    ∃ (children : List InstanceRef) (ws' : Workspace),
      (r.walk i none reason (.noting none) []).runIn ws = (.ok (children, none), ws') ∧
      (∀ upTo stop : Option Nat, ∃ ws'',
        (r.walk i upTo reason (.noting stop) []).runIn ws =
          (.ok (cutAfter children (lastVisit upTo stop)), ws'')) ∧
      (f.2.offsetFormula = none → versions < Schema.versionLimit → ∀ n, 1 ≤ n → ∃ offset ws'',
        (r.valueOffset i n false).runIn ws = (.ok offset, ws'') ∧
          (ws'.refusals = ws.refusals → ws''.refusals = ws.refusals →
            offset = (children[n]?).map InstanceRef.offset)) := by
  have hs := h.atRest.sound
  generalize hframes : ws.limits.maxDepth - ws.depth = frames
  have hreliable : (Resolver.within frames).Reliable (versions < Schema.versionLimit) :=
    Resolver.reliable_within frames
  have hsteady := Resolver.steady_within_strict frames
  obtain ⟨children, last, hplays⟩ := Resolver.exists_row hreliable hs hr hf hchain reason
  have hwalk (upTo stop : Option Nat) : ∃ ws'',
      ((Resolver.within frames).walk r i upTo reason (.noting stop) []).runIn ws =
        (.ok (cutAfter children (lastVisit upTo stop)), ws'') ∧ ws''.refusals ≤ last.refusals ∧
          (upTo = none → stop = none → ws'' = last) := by
    obtain ⟨ws'', hrun, hle, hlast⟩ := hplays.ends (Visitor.note stop) upTo []
    refine ⟨ws'', ?_, hle, fun hupTo hstop => hlast hupTo fun seen child => ?_⟩
    · rw [Visitor.noting_eq, hrun, Visitor.followAll_note]
    · rw [Visitor.note_goesOn, hstop]
      exact nofun
  refine ⟨children, last, ?_, fun upTo stop => ?_, fun hplain ho n hn => ?_⟩
  · obtain ⟨ws'', hrun, _, hlast⟩ := hwalk none none
    rw [InstanceRef.walk, Resolve.runIn_resolving _ hframes, hrun, hlast rfl rfl]
    rfl
  · obtain ⟨ws'', hrun, _⟩ := hwalk upTo stop
    exact ⟨ws'', (Resolve.runIn_resolving _ hframes).trans hrun⟩
  · obtain ⟨offset, ws'', hrun, _⟩ := (hreliable.answers r).valueOffset
        (hreliable.walk_idle i n) false hs hr
    refine ⟨offset, ws'', (Resolve.runIn_resolving _ hframes).trans hrun, fun hquiet hquiet' => ?_⟩
    obtain ⟨wsa, hruna, hle, _⟩ := hwalk (some n) none
    have hnoting : Visitor.KeepsRefusals (Visitor.noting none) := fun _ _ => .pure _
    have hkept : ws.refusals ≤ wsa.refusals := by
      have hkept := Resolver.keepsRefusals_walk (r := r) hsteady hnoting (fun hl => hl) i
          (some n) reason [] ws
      rw [hruna] at hkept
      exact hkept
    exact Resolver.valueOffset_of_walk hreliable hsteady ho hs hr (h.atRest.idle r hr) hf hvalue htype
      hplain (Nat.pos_iff_ne_zero.mp hn) hruna (Nat.le_antisymm (hquiet ▸ hle) hkept) hrun hquiet'

/-- Two bytes in a row of cells. -/
def tapeCell : StructDef :=
  { StructDef.empty with
    size := 2
    fields := ⟨[("square", .ofType (.scalar .char))], by decide⟩ }

/-- A struct of three cells. -/
def tape : StructDef :=
  { StructDef.empty with
    size := 6
    fields := ⟨[("squares", { Field.ofType (.struct "Cell") with count := 3 })], by decide⟩ }

def tapeSchema : Schema :=
  ⟨((∅ : Std.TreeMap String StructDef).insert "Tape" tape).insert "Cell" tapeCell, 0⟩

/-- An instance of it. -/
def tapeRef : InstanceRef := ⟨0, ⟨"Tape", 0, 4⟩⟩

/-- A workspace with this instance. -/
def withTape : Workspace :=
  ((ofSchema tapeSchema .default).place (.single tapeRef.location .user)).2

theorem made_tapeSchema : tapeSchema.Made 0 := .of_toList rfl (by decide)

/-- The walk that is to end with the second cell sees two of the three. -/
theorem walk_cut_withTape : withTape.Reached 0 false ∧ ∃ children ws' ws'' ws₁,
    (tapeRef.walk 0 none .query (.noting none) []).runIn withTape =
      (.ok (children, none), ws') ∧ children.map InstanceRef.offset = [4, 6, 8] ∧
    (tapeRef.walk 0 (some 1) .query (.noting (some 2)) []).runIn withTape =
      (.ok (children.take 2, children[1]?), ws'') ∧
    (tapeRef.valueOffset 0 1 false).runIn withTape = (.ok (some 6), ws₁) := by
  have hreached : withTape.Reached 0 false :=
    .request (.start made_tapeSchema trivial (by decide)) (.place _)
  obtain ⟨children, ws', hrun, hcut, hoffset⟩ := hreached.walk_cut (r := tapeRef) (i := 0)
    ⟨_, rfl, rfl⟩ rfl rfl rfl (by decide) .query
  obtain ⟨ws'', hrun''⟩ := hcut (some 1) (some 2)
  obtain ⟨offset, ws₁, hrun₁, htold⟩ := hoffset rfl (by decide) 1 (Nat.le_refl 1)
  have hoffsets : ((tapeRef.walk 0 none .query (.noting none) []).runIn withTape).1.map
      (fun a => a.1.map InstanceRef.offset) = .ok [4, 6, 8] := by
    decide +kernel
  have hquiet : ((tapeRef.walk 0 none .query (.noting none) []).runIn withTape).2.refusals =
      withTape.refusals := by
    decide +kernel
  have hquiet₁ : ((tapeRef.valueOffset 0 1 false).runIn withTape).2.refusals =
      withTape.refusals := by
    decide +kernel
  rw [hrun] at hoffsets hquiet
  rw [hrun₁] at hquiet₁
  have hoffsets : children.map InstanceRef.offset = [4, 6, 8] := Except.ok.inj hoffsets
  refine ⟨hreached, children, ws', ws'', ws₁, hrun, hoffsets, hrun'', ?_⟩
  rw [hrun₁, htold hquiet hquiet₁, ← List.getElem?_map, hoffsets]
  rfl

end Workspace

end ByteAtlas
