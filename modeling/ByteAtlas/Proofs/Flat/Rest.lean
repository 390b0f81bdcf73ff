import ByteAtlas.Proofs.Flat.LayOut
import ByteAtlas.Resolve.Instance

/-!
# Questions at rest

Between two questions no field is being laid out, and what is known of an instance is true if it is
up to date (`Site.Kept`). Then every question has the answer that the facts give, whatever is known
already (`Inquiry.leads`), and leaves the instance at rest. A lazy answer, if there is one, is the
same.

There is one exception. A packed struct ends where its last field ends, and a lazy question for the
size takes the fields that are laid out without looking at their stamp. If they are out of date
(`Workspace.ReadsOutdated`), so is the answer, and it is kept under the stamp of now.
-/

namespace ByteAtlas

/-! ## 1. The facts about a field -/

namespace Site

variable {site : Site} {facts : List FieldFacts} {cursor : Int64} {i k : Nat}

theorem layOut_of_fieldCount_le (hk : site.struct.fieldCount ≤ k) :
    site.layOut k = site.layOut site.struct.fieldCount := by
  obtain ⟨n, rfl⟩ := Nat.exists_eq_add_of_le hk
  induction n with
  | zero => rfl
  | succ n ih =>
    rw [← Nat.add_assoc, layOut_succ_of_le (Nat.le_add_right _ _), ih (Nat.le_add_right _ _)]

/-- **The facts about a field** are found at every stage at which it is laid out. -/
theorem fieldFacts_eq_ok (h : site.layOut k = .ok (facts, cursor))
    (hi : min (i + 1) site.struct.fieldCount ≤ k) : site.fieldFacts i = .ok facts[i]? := by
  have hlength := length_layOut h
  by_cases hik : i + 1 ≤ k
  · obtain ⟨cursor', hcursor⟩ := layOut_of_le hik h
    rw [fieldFacts, hcursor]
    exact congrArg Except.ok (List.getElem?_take_of_lt (Nat.lt_succ_self i))
  · have hall : site.layOut (i + 1) = .ok (facts, cursor) := by
      rw [layOut_of_fieldCount_le (by omega), ← layOut_of_fieldCount_le (k := k) (by omega), h]
    rw [fieldFacts, hall]
    rfl

theorem fieldFacts_eq_error {fault : Fault} (h : site.layOut k = .error fault) (hk : k ≤ i + 1) :
    site.fieldFacts i = .error fault := by
  obtain ⟨n, hn⟩ := Nat.exists_eq_add_of_le hk
  rw [fieldFacts, hn, layOut_add_eq_error h]
  rfl

end Site

/-! ## 2. Between two questions -/

/-- **What a question may do to a workspace**: what is laid out may be brought up to date, and so
may the size. -/
structure Workspace.Turns (r : InstanceRef) (ws ws' : Workspace) : Prop
    extends Workspace.Beside r ws ws' where
  refusals : ws.refusals ≤ ws'.refusals
  onward : ws.Onward r ws'
  stamp : (ws'.layoutOf r).stamp = (ws.layoutOf r).stamp ∨
    (ws'.layoutOf r).stamp = ws.stampNow? r
  size : (ws'.layoutOf r).size = (ws.layoutOf r).size ∨
    (ws'.layoutOf r).size.map Prod.fst = ws.stampNow? r

instance {r : InstanceRef} : Workspace.Course r (Workspace.Turns r) where
  refl ws := ⟨.refl r ws, Nat.le_refl _, .refl r ws, .inl rfl, .inl rfl⟩
  trans h h' := by
    refine ⟨h.toBeside.trans h'.toBeside, Nat.le_trans h.refusals h'.refusals,
      h.onward.trans h'.onward, ?_, ?_⟩
    · rcases h'.stamp with hstamp | hstamp
      · rw [hstamp]
        exact h.stamp
      · exact .inr (hstamp.trans h.toBeside.stampNow?)
    · rcases h'.size with hsize | hsize
      · rw [hsize]
        exact h.size
      · exact .inr (hsize.trans h.toBeside.stampNow?)
  refusals := Workspace.Turns.refusals
  onward := Workspace.Turns.onward

theorem Workspace.Moves.turns {r : InstanceRef} {ws ws' : Workspace} (h : ws.Moves r ws') :
    ws.Turns r ws' :=
  ⟨h.toBeside, h.refusals, h.onward, .inl h.stamp, .inl h.size⟩

/-- **What is known of an instance between two questions.** Where it is up to date it is true. -/
structure Site.Kept (site : Site) (ws : Workspace) : Prop where
  idle : (ws.layoutOf site.ref).measuring = none
  /-- With no field laid out the next one starts where the instance does, up to date or not. -/
  empty : (ws.layoutOf site.ref).entries = #[] → (ws.layoutOf site.ref).cursor = site.ref.offset
  laidOut : (ws.layoutOf site.ref).stamp = some (ws.stampOf site.ref site.struct) →
    ∃ k, site.LaidOut k ws
  size : ∀ n, (ws.layoutOf site.ref).sizeFor? (ws.stampOf site.ref site.struct) = some n →
    site.size = .ok n

namespace Site

section

variable {site : Site} {ws ws' : Workspace} {k : Nat}

/-- Only the layout counts, and the version of the instance. -/
theorem LaidOut.of_layoutOf (h : site.LaidOut k ws)
    (hlayout : ws'.layoutOf site.ref = ws.layoutOf site.ref)
    (hstamp : ws'.stampOf site.ref site.struct = ws.stampOf site.ref site.struct) :
    site.LaidOut k ws' := by
  obtain ⟨hk, s, hs, hstage⟩ := h
  exact ⟨hk, s, by rw [hlayout]; exact hs, hstage.of_layoutOf hlayout hstamp⟩

theorem LaidOut.measuring (h : site.LaidOut k ws) : (ws.layoutOf site.ref).measuring = none := by
  obtain ⟨_, s, hs, hstage⟩ := h
  exact hstage.measuring.trans (of_stageAt_eq_ok hs).1

/-- Where the next field starts. -/
theorem LaidOut.layOut (h : site.LaidOut k ws) :
    ∃ facts, site.layOut k = .ok (facts, (ws.layoutOf site.ref).cursor) := by
  obtain ⟨_, s, hs, hstage⟩ := h
  exact ⟨s.facts, hstage.cursor ▸ (of_stageAt_eq_ok hs).2.2⟩

/-- The first fields being laid out, nothing but the size has to be known to be true. -/
theorem LaidOut.kept (h : site.LaidOut k ws)
    (hsize : ∀ n, (ws.layoutOf site.ref).sizeFor? (ws.stampOf site.ref site.struct) = some n →
      site.size = .ok n) : site.Kept ws := by
  refine ⟨h.measuring, fun hempty => ?_, fun _ => ⟨k, h⟩, hsize⟩
  have hcount := h.count
  rw [hempty] at hcount
  have hk : k = 0 := hcount.symm
  subst hk
  obtain ⟨facts, hlayOut⟩ := h.layOut
  exact (congrArg Prod.snd (Except.ok.inj hlayOut)).symm

/-- How many fields are laid out, where they are up to date. -/
theorem Kept.laidOut_size (h : site.Kept ws)
    (hcurrent : (ws.layoutOf site.ref).stamp = some (ws.stampOf site.ref site.struct)) :
    site.LaidOut (ws.layoutOf site.ref).entries.size ws := by
  obtain ⟨k, hlaid⟩ := h.laidOut hcurrent
  rw [hlaid.count]
  exact hlaid

/-- Only the layout counts, and the version of the instance. -/
theorem Kept.of_layoutOf (h : site.Kept ws)
    (hlayout : ws'.layoutOf site.ref = ws.layoutOf site.ref)
    (hstamp : ws'.stampOf site.ref site.struct = ws.stampOf site.ref site.struct) :
    site.Kept ws' := by
  refine ⟨?_, ?_, fun hcurrent => ?_, ?_⟩
  · rw [hlayout]
    exact h.idle
  · rw [hlayout]
    exact h.empty
  · rw [hlayout, hstamp] at hcurrent
    obtain ⟨k, hlaid⟩ := h.laidOut hcurrent
    exact ⟨k, hlaid.of_layoutOf hlayout hstamp⟩
  · rw [hlayout, hstamp]
    exact h.size

/-- **Another version**: what is out of date has only to be idle. -/
theorem Kept.of_outdated (hidle : (ws.layoutOf site.ref).measuring = none)
    (hempty : (ws.layoutOf site.ref).entries = #[] →
      (ws.layoutOf site.ref).cursor = site.ref.offset)
    (hstamp : (ws.layoutOf site.ref).stamp ≠ some (ws.stampOf site.ref site.struct))
    (hsize : (ws.layoutOf site.ref).size.map Prod.fst ≠ some (ws.stampOf site.ref site.struct)) :
    site.Kept ws := by
  refine ⟨hidle, hempty, fun hcurrent => absurd hcurrent hstamp, fun n hn => ?_⟩
  unfold Layout.sizeFor? at hn
  split at hn
  · rename_i st size hkept
    rw [hkept] at hsize
    split at hn
    · rename_i hst
      exact absurd (congrArg some hst) hsize
    · cases hn
  · cases hn

/-- **What is out of date is dropped.** -/
theorem Kept.validated (h : site.Kept ws) :
    ∃ k, site.LaidOut k (ws.modifyLayout site.ref fun l =>
      l.validated (ws.stampOf site.ref site.struct) site.ref.offset) := by
  have hlayout := Workspace.layoutOf_modifyLayout ws site.ref fun l =>
    l.validated (ws.stampOf site.ref site.struct) site.ref.offset
  by_cases hcurrent : (ws.layoutOf site.ref).stamp = some (ws.stampOf site.ref site.struct)
  · rw [Layout.validated, if_pos hcurrent] at hlayout
    obtain ⟨k, hlaid⟩ := h.laidOut hcurrent
    exact ⟨k, hlaid.of_layoutOf hlayout rfl⟩
  · rw [Layout.validated, if_neg hcurrent] at hlayout
    refine ⟨0, Nat.zero_le _, _, rfl, fun _ _ hf => (by cases hf), ?_, ?_, ?_, rfl, ?_,
      fun _ _ _ hf => (by cases hf)⟩ <;> rw [hlayout]
    · rfl
    · rfl

/-- **The size is kept.** -/
theorem Kept.setSize (h : site.Kept ws) {n : Int64} (hn : site.size = .ok n) :
    site.Kept (ws.modifyLayout site.ref
      (·.setSize (ws.stampOf site.ref site.struct) n)) := by
  have hlayout := Workspace.layoutOf_modifyLayout ws site.ref
    (·.setSize (ws.stampOf site.ref site.struct) n)
  refine ⟨?_, ?_, fun hcurrent => ?_, fun m hm => ?_⟩
  · rw [hlayout]
    exact h.idle
  · rw [hlayout]
    exact h.empty
  · rw [hlayout] at hcurrent
    obtain ⟨k, hk, s, hs, hstage⟩ := h.laidOut hcurrent
    refine ⟨k, hk, _, ?_, hstage.setSize (ws.stampOf site.ref site.struct) n⟩
    obtain ⟨hmeasuring, _, hlayOut⟩ := of_stageAt_eq_ok hs
    rw [hlayout, stageAt, hlayOut, hmeasuring]
    rfl
  · rw [hlayout] at hm
    have hm : (if ws.stampOf site.ref site.struct = ws.stampOf site.ref site.struct then some n
      else none) = some m := hm
    rw [if_pos rfl] at hm
    cases hm
    exact hn

end

end Site

/-! ## 3. Laying out -/

/-- **A resolver that lays out fields** as the reference does. -/
structure Resolver.LaysOut (resolver : Resolver) (site : Site) : Prop
    extends resolver.Faithful site where
  layOut : ∀ {ws : Workspace} {upTo : Nat}, site.Ready 0 ws →
    (ws.layoutOf site.ref).entries.size ≤ upTo → ∀ isLazy : Bool,
    site.Leads (Workspace.Moves site.ref) (fun ws' => ∃ k, site.LaidOut k ws')
      (∃ k, site.LaidOut k ws) True ws (resolver.layOut site.ref site.struct upTo isLazy)
      ⟨fun _ _ _ => True, fun result ws' => upTo ≤ site.struct.fieldCount →
        match result with
        | .ok _ => site.LaidOut upTo ws'
        | .error fault => site.layOut upTo = .error fault⟩


theorem Resolver.laysOut_within {site : Site} (hflat : site.struct.Flat) (frames : Nat) :
    (Resolver.within frames).LaysOut site := by
  refine ⟨Resolver.faithful_within hflat frames, fun {ws upTo} hready hle isLazy => ?_⟩
  have hdepth (ws : Workspace) (depth refusals limitHits : Nat) (hr : ws.refusals ≤ refusals) :
      ws.Moves site.ref { ws with depth, refusals, limitHits } :=
    ⟨⟨rfl, rfl, rfl, rfl, fun _ _ => rfl⟩, hr, ⟨rfl, fun i e he => ⟨e, he, .refl e⟩⟩, rfl, rfl,
      fun _ _ => id⟩
  cases frames with
  | zero =>
    refine .refused rfl (hdepth ws ws.depth _ _ (Nat.le_succ _)) (fun _ _ => trivial) ?_
    exact fun ⟨k, h⟩ => ⟨k, h.of_layoutOf rfl rfl⟩
  | succ frames =>
    have hready' : site.Ready 0 { ws with depth := ws.depth + 1 } :=
      ⟨⟨hready.shown.struct, hready.shown.placed, hready.shown.files, hready.shown.limit⟩,
        hready.current, hready.count⟩
    have hfirst := (Resolver.faithful_within hflat frames).layOutFirst hready' hle isLazy
    show site.Leads _ _ _ _ ws (inFrame _ >>= fun _ => pure ()) _
    rw [← map_eq_pure_bind (fun _ : Option Unit => ())]
    refine .map ((hfirst.weaken (fun ⟨k, h⟩ => ⟨k, h.of_layoutOf rfl rfl⟩) fun _ => id).inFrame
      (fun ws' depth hmoves => ?_) ?_ (fun ws' depth ⟨k, h⟩ => ⟨k, h.of_layoutOf rfl rfl⟩) ?_
      (fun _ _ => trivial) fun result ws' depth haffirms hupTo => ?_)
    · exact Workspace.Course.trans site.ref (hdepth ws _ _ _ (Nat.le_refl _))
        (Workspace.Course.trans site.ref hmoves (hdepth ws' depth _ _ (Nat.le_refl _)))
    · exact hdepth ws ws.depth _ _ (Nat.le_succ _)
    · exact fun ⟨k, h⟩ => ⟨k, h.of_layoutOf rfl rfl⟩
    · have haffirms := haffirms hupTo
      cases result with
      | ok _ => exact Site.LaidOut.of_layoutOf haffirms rfl rfl
      | error fault => exact haffirms

namespace Resolver.LaysOut

section

variable {site : Site} {ws : Workspace} {resolver : Resolver}

/-- **Laying out the first fields** of an instance at rest. If all goes well they are laid out then,
and the others may be. -/
theorem enumerate (h : resolver.LaysOut site) (hshown : site.ShownIn ws) (hkept : site.Kept ws)
    (upTo : Nat) (isLazy : Bool) :
    site.Leads (Workspace.Turns site.ref) site.Kept True True ws
      (resolver.enumerate site.ref upTo isLazy)
      ⟨fun _ _ ws' => site.Ready 0 ws' ∧
          (ws'.layoutOf site.ref).entries.size ≤ site.struct.fieldCount,
        fun result ws' =>
          match result with
          | .ok _ => ∃ k, min upTo site.struct.fieldCount ≤ k ∧ site.LaidOut k ws'
          | .error fault => site.layOut (min upTo site.struct.fieldCount) = .error fault⟩ := by
  have hlayout := Workspace.layoutOf_modifyLayout ws site.ref fun l =>
    l.validated (ws.stampOf site.ref site.struct) site.ref.offset
  obtain ⟨k, hlaid⟩ := hkept.validated
  generalize hws₁ : ws.modifyLayout site.ref (fun l =>
    l.validated (ws.stampOf site.ref site.struct) site.ref.offset) = ws₁ at hlayout hlaid
  have hbeside : ws.Beside site.ref ws₁ := hws₁ ▸ .modifyLayout _
  have hstamp : (ws₁.layoutOf site.ref).stamp = some (ws.stampOf site.ref site.struct) := by
    rw [hlayout]
    unfold Layout.validated
    split
    · rename_i hcurrent
      exact hcurrent
    · rfl
  have hsize : (ws₁.layoutOf site.ref).size = (ws.layoutOf site.ref).size := by
    rw [hlayout]
    unfold Layout.validated
    split <;> rfl
  have hready : site.Ready 0 ws₁ :=
    ⟨hshown.beside hbeside, by rw [hbeside.stampOf, hstamp], Nat.zero_le _⟩
  have hturns : ws.Turns site.ref ws₁ := by
    refine ⟨hbeside, Nat.le_of_eq (hws₁ ▸ rfl), ⟨hbeside.schema, fun i e he => ?_⟩,
      .inr (hstamp.trans hshown.stampNow?.symm), .inl hsize⟩
    -- an entry that is up to date is there still
    unfold Workspace.entryNow? at he
    split at he
    · rename_i hcurrent
      rw [hshown.stampNow?] at hcurrent
      rw [Layout.validated, if_pos hcurrent] at hlayout
      refine ⟨e, ?_, .refl e⟩
      rw [hready.entryNow?, Workspace.entryOf?, hlayout]
      exact he
    · cases he
  have hmoved {ws' : Workspace} (hmoves : ws₁.Moves site.ref ws') {k : Nat}
      (hlaid : site.LaidOut k ws') : site.Kept ws' := by
    refine hlaid.kept ?_
    rw [Layout.sizeFor?, hmoves.size, hmoves.stampOf, hsize, hbeside.stampOf]
    exact hkept.size
  have hcount := hlaid.count
  unfold Resolver.enumerate
  refine .ask ?_
  rw [hshown.struct]
  dsimp only
  refine .change (hws₁ ▸ hturns) rfl
    (fun _ _ => hws₁ ▸ hmoved (Workspace.Course.refl site.ref ws₁) hlaid) ?_
  rw [hws₁]
  refine .ask ?_
  split
  · rename_i hthere
    refine .pure ⟨hready, hcount ▸ hlaid.1⟩ And.right fun _ _ => ⟨k, ?_, hlaid⟩
    rw [hcount, hlaid.measuring, Option.isSome_none, Bool.or_false] at hthere
    exact of_decide_eq_true hthere
  · rename_i hmissing
    rw [hcount, hlaid.measuring, Option.isSome_none, Bool.or_false, decide_eq_true_eq,
      Nat.not_le] at hmissing
    refine ((h.layOut hready (hcount ▸ Nat.le_of_lt hmissing) isLazy).widen
      (fun _ => Workspace.Moves.turns) fun ws' hmoves _ hlaid' =>
        hlaid'.elim fun _ => hmoved hmoves).mono
        (fun _ => ⟨k, hlaid⟩) (fun _ _ => trivial) (fun _ ws' htold => ?_)
        fun result ws' _ _ haffirms => ?_
    · refine ⟨hready.moves htold.1, htold.1.count _ (fun d hd => ?_) (hcount ▸ hlaid.1)⟩
      rw [hbeside.structOf?, hshown.struct] at hd
      cases hd
      exact Nat.le_refl _
    · have haffirms := haffirms (Nat.min_le_right _ _)
      cases result with
      | ok _ => exact ⟨_, Nat.le_refl _, haffirms⟩
      | error fault => exact haffirms

end

end Resolver.LaysOut

/-! ## 4. Questions about a field -/

section

variable {site : Site} {ws : Workspace} {i c : Nat} {resolver : Resolver} {isLazy : Bool}
  {α : Type} {step : Resolve α} {p : FieldFacts → Promise α} {nothing : α}

/-- **A question about a field** of an instance at rest. -/
theorem Resolver.Consults.leads (h : resolver.Consults site i isLazy c step p nothing)
    (hlays : resolver.LaysOut site) (hshown : site.ShownIn ws) (hkept : site.Kept ws) :
    site.Leads (Workspace.Turns site.ref) site.Kept True True ws step
      ⟨fun _ _ _ => True, fun result ws' =>
        match site.fieldFacts i with
        | .ok (some f) => (p f).affirms result ws'
        | .ok none => result = .ok nothing
        | .error fault => result = .error fault⟩ := by
  obtain ⟨rest, rfl, hrest, hnothing⟩ := h
  refine .call (hlays.enumerate hshown hkept (i + 1) isLazy) (fun _ ws₁ hturns htold => ?_)
    fun fault ws₁ _ _ hfault => ?_
  · obtain ⟨hready, hle⟩ := htold
    have hcurrent : (ws₁.layoutOf site.ref).stamp = some (ws₁.stampOf site.ref site.struct) :=
      hready.current
    by_cases hi : i < (ws₁.layoutOf site.ref).entries.size
    · obtain ⟨s, hs⟩ := site.exists_stageAt (ws₁.layoutOf site.ref).size
        (ws₁.layoutOf site.ref).entries.size
      have hstage (hknown : True ∧ site.Kept ws₁) :
          site.stageAt (ws₁.layoutOf site.ref).size (ws₁.layoutOf site.ref).entries.size = .ok s ∧
            site.AtStage s ws₁ := by
        obtain ⟨_, s', hs', hstage⟩ := hknown.2.laidOut_size hcurrent
        cases hs s' hs'
        exact ⟨hs', hstage⟩
      have hfacts (hknown : True ∧ site.Kept ws₁) : s.facts[i]? = some s.facts[i]! := by
        have hlength := (hstage hknown).2.count
        rw [List.getElem!_eq_getElem?_getD, List.getElem?_eq_getElem (by omega)]
        rfl
      obtain ⟨field, hfield⟩ : ∃ field, site.struct.field? i = some field :=
        ⟨_, List.getElem?_eq_getElem (Nat.lt_of_lt_of_le hi hle)⟩
      have hyields : site.Yields (i + 1) c s (True ∧ site.Kept ws₁) True ws₁ rest (p s.facts[i]!) :=
        ((hrest hfield).yields ⟨hready.shown, hcurrent, hi⟩).weaken
          (fun hknown => ⟨hfacts hknown, (hstage hknown).2⟩) fun _ => id
      refine (hyields.widen (fun _ hsteady => hsteady.moves.turns)
        fun ws' hsteady hknown hstage' => ?_).mono id (fun _ _ => trivial) (fun _ _ _ => trivial)
          fun result ws' hknown _ haffirms => ?_
      · have hlaid : site.LaidOut (ws₁.layoutOf site.ref).entries.size ws' :=
          ⟨hle, s, by rw [hsteady.size]; exact (hstage hknown).1, hstage'⟩
        refine hlaid.kept ?_
        rw [Layout.sizeFor?, hsteady.size, hsteady.stampOf]
        exact hknown.2.size
      · have hfound := Site.fieldFacts_eq_ok (Site.of_stageAt_eq_ok (hstage hknown).1).2.2
          (i := i) (by omega)
        rw [hfacts hknown] at hfound
        simp only [Promise.since, hfound]
        exact haffirms
    · refine .of_run (hnothing (Array.getElem?_eq_none (Nat.not_lt.mp hi)))
        (Workspace.Course.refl site.ref ws₁) (fun _ _ => trivial) And.right fun _ haffirms => ?_
      obtain ⟨_, k, hk, hlaid⟩ := haffirms
      have hcount := hlaid.count
      obtain ⟨facts, hlayOut⟩ := hlaid.layOut
      have hlength := Site.length_layOut hlayOut
      have hfound := Site.fieldFacts_eq_ok hlayOut hk
      rw [List.getElem?_eq_none (by omega)] at hfound
      simp only [Promise.since, hfound]
  · have hfound := Site.fieldFacts_eq_error hfault (Nat.min_le_left (i + 1) _)
    simp only [hfound]

/-- A question of which the answer is known whatever else is. -/
theorem Resolver.Consults.leads_equal {ref : FieldFacts → Except Fault α}
    (h : resolver.Consults site i isLazy c step (fun f => .equal (ref f)) nothing)
    (hlays : resolver.LaysOut site) (hshown : site.ShownIn ws) (hkept : site.Kept ws) :
    site.Leads (Workspace.Turns site.ref) site.Kept True True ws step
      (.equal (do
        let f ← site.fieldFacts i
        f.elim (pure nothing) ref)) := by
  refine (h.leads hlays hshown hkept).mono id (fun _ => id) (fun _ _ => id)
    fun result ws' _ _ haffirms => ?_
  show result = _
  dsimp only at haffirms
  split at haffirms <;> rename_i hfound
  · rw [hfound]
    exact haffirms
  · rw [hfound]
    exact haffirms
  · rw [hfound]
    exact haffirms

end

/-! ## 5. Sizes -/

/-- **Whether the size would be told from what is out of date**: all fields of a packed struct are
laid out, but for another version. -/
structure Workspace.ReadsOutdated (ws : Workspace) (r : InstanceRef) (d : StructDef) : Prop where
  packed : d.isPacked = true
  sourceless : d.sizeSource = none
  unknown : (ws.layoutOf r).sizeFor? (ws.stampOf r d) = none
  outdated : (ws.layoutOf r).stamp ≠ some (ws.stampOf r d)
  entries : (ws.layoutOf r).entries ≠ #[]
  count : d.fieldCount ≤ (ws.layoutOf r).entries.size

/-- **Where a packed struct ends**, if all its fields are laid out and not out of date. -/
theorem Site.Kept.layOut_fieldCount {site : Site} {ws : Workspace} (h : site.Kept ws)
    (hall : site.struct.fieldCount ≤ (ws.layoutOf site.ref).entries.size)
    (hfresh : (ws.layoutOf site.ref).stamp ≠ some (ws.stampOf site.ref site.struct) →
      (ws.layoutOf site.ref).entries = #[]) :
    ∃ facts, site.layOut site.struct.fieldCount = .ok (facts, (ws.layoutOf site.ref).cursor) := by
  by_cases hcurrent : (ws.layoutOf site.ref).stamp = some (ws.stampOf site.ref site.struct)
  · have hlaid := h.laidOut_size hcurrent
    have hcount : (ws.layoutOf site.ref).entries.size = site.struct.fieldCount :=
      Nat.le_antisymm hlaid.1 hall
    rw [hcount] at hlaid
    exact hlaid.layOut
  · have hempty := hfresh hcurrent
    have hzero : site.struct.fieldCount = 0 := by
      rw [hempty] at hall
      exact Nat.le_zero.mp hall
    rw [hzero, h.empty hempty]
    exact ⟨[], rfl⟩

/-- What comes of asking for the size. -/
def Site.measures (site : Site) (isLazy : Bool) : Promise (Option Int64) where
  told _ _ _ := True
  affirms result _ := (isLazy = false → result = some <$> site.size) ∧
    ∀ n, result = .ok (some n) → site.size = .ok n

namespace Resolver.LaysOut

section

variable {site : Site} {ws : Workspace} {resolver : Resolver}

/-- The size that depends on a name. -/
theorem namedSize (h : resolver.LaysOut site) (hshown : site.ShownIn ws) (hkept : site.Kept ws)
    {source : String} (hsource : site.struct.sizeSource = some source) :
    site.Leads (Workspace.Turns site.ref) site.Kept True True ws
      (do
        let base ← resolver.namedValue site.ref site.struct source
        pure (some (base.getD 0 + site.struct.size)))
      (.equal (some <$> site.size)) := by
  unfold Resolver.namedValue
  cases hindex : site.struct.fieldIndex? source with
  | some i =>
    generalize href : (do
        let f ← site.fieldFacts i
        f.elim (pure 0) fun f => f.intValue site 0) = ref
    have hsize : site.size = (fun base => base + site.struct.size) <$> ref := by
      rw [Site.size, hsource, ← href, map_bind]
      dsimp only
      rw [hindex]
      refine bind_congr fun f => ?_
      cases f.elim (pure 0) fun f => f.intValue site 0 <;> rfl
    have hvalue : site.Leads (Workspace.Turns site.ref) site.Kept True True ws
        (resolver.intValue site.ref i 0) (.equal ref) :=
      ((h.consults_intValue i 0).leads_equal h hshown hkept).mono id (fun _ => id) (fun _ _ => id)
        fun _ _ _ _ haffirms => Eq.trans haffirms href
    refine .call (p := .equal (some <$> ref)) (.map (hvalue.mono id (fun _ => id) (fun _ _ => id)
      fun result _ _ _ haffirms => ?_)) (fun base ws₁ _ _ => ?_) fun fault _ _ _ hfault => ?_
    · have haffirms : result = ref := haffirms
      rw [haffirms]
      rfl
    · refine .pure trivial And.right fun _ haffirms => ?_
      obtain ⟨n, hn, rfl⟩ := Site.of_map_some_eq (Eq.symm haffirms.2)
      rw [hsize, hn]
      rfl
    · rw [hsize, Site.of_map_some_eq_error (Eq.symm hfault)]
      rfl
  | none =>
    have hsize : site.size = pure ((site.argOrParam source).getD 0 + site.struct.size) := by
      rw [Site.size, hsource]
      dsimp only
      rw [hindex]
      rfl
    refine .ask (.pure trivial (fun _ => hkept) fun _ _ => ?_)
    rw [hshown.args, hsize]
    rfl

/-- **The size as the definition tells it.** -/
theorem measureSize (h : resolver.LaysOut site) (hshown : site.ShownIn ws) (hkept : site.Kept ws)
    {isLazy : Bool}
    (hunknown : (ws.layoutOf site.ref).sizeFor? (ws.stampOf site.ref site.struct) = none)
    (hfresh : isLazy = true → ¬ ws.ReadsOutdated site.ref site.struct) :
    site.Leads (Workspace.Turns site.ref) site.Kept True True ws
      (resolver.measureSize site.ref site.struct isLazy) (site.measures isLazy) := by
  unfold Resolver.measureSize
  cases hsource : site.struct.sizeSource with
  | some source =>
    cases isLazy with
    | true => exact .pure trivial (fun _ => hkept) fun _ _ => ⟨nofun, nofun⟩
    | false =>
      refine (h.namedSize hshown hkept hsource).mono id (fun _ => id) (fun _ _ => id)
        fun result _ _ _ haffirms => ⟨fun _ => haffirms, fun n hn => ?_⟩
      have haffirms : result = some <$> site.size := haffirms
      obtain ⟨_, hsize, hsome⟩ := Site.of_map_some_eq (haffirms.symm.trans hn)
      cases hsome
      exact hsize
  | none =>
    dsimp only
    by_cases hpacked : site.struct.isPacked = true
    · rw [if_pos hpacked]
      have hsize : site.size = (fun p => p.2 - site.ref.offset) <$>
          site.layOut site.struct.fieldCount := by
        rw [Site.size, hsource]
        dsimp only
        rw [if_pos hpacked]
        cases site.layOut site.struct.fieldCount <;> rfl
      have hends {ws : Workspace} {facts : List FieldFacts} (hlayOut : site.layOut
          site.struct.fieldCount = .ok (facts, (ws.layoutOf site.ref).cursor)) :
          site.size = .ok ((ws.layoutOf site.ref).cursor - site.ref.offset) := by
        rw [hsize, hlayOut]
        rfl
      cases isLazy with
      | true =>
        rw [Bool.not_true, if_neg Bool.false_ne_true]
        refine .ask ?_
        split
        · exact .pure trivial (fun _ => hkept) fun _ _ => ⟨nofun, nofun⟩
        · rename_i hall
          rw [Bool.or_eq_true, not_or, decide_eq_true_eq, Nat.not_lt] at hall
          obtain ⟨facts, hlayOut⟩ := hkept.layOut_fieldCount hall.1 fun houtdated =>
            Classical.byContradiction fun hentries =>
              hfresh rfl ⟨hpacked, hsource, hunknown, houtdated, hentries, hall.1⟩
          refine .pure trivial (fun _ => hkept) fun _ _ => ⟨nofun, fun n hn => ?_⟩
          cases hn
          exact hends hlayOut
      | false =>
        rw [Bool.not_false, if_pos rfl]
        refine .call (h.enumerate hshown hkept site.struct.fieldCount false)
          (fun _ ws₁ _ htold => .ask ?_) fun fault ws₁ _ _ hfault => ?_
        · have hdone (hgood : True ∧ ∃ k, min site.struct.fieldCount site.struct.fieldCount ≤ k ∧
              site.LaidOut k ws₁) : site.LaidOut site.struct.fieldCount ws₁ := by
            obtain ⟨_, k, hle, hlaid⟩ := hgood
            rw [Nat.min_self] at hle
            rw [← Nat.le_antisymm hlaid.1 hle]
            exact hlaid
          split
          · rename_i hmissing
            refine .pure trivial And.right fun _ hgood => ?_
            rw [(hdone hgood).count, (hdone hgood).measuring, decide_eq_false (Nat.lt_irrefl _)]
              at hmissing
            cases hmissing
          · refine .pure trivial And.right fun _ hgood => ?_
            obtain ⟨facts, hlayOut⟩ := (hdone hgood).layOut
            refine ⟨fun _ => ?_, fun n hn => ?_⟩
            · rw [hends hlayOut]
              rfl
            · cases hn
              exact hends hlayOut
        · rw [Nat.min_self] at hfault
          refine ⟨fun _ => ?_, nofun⟩
          rw [hsize, hfault]
          rfl
    · rw [if_neg hpacked]
      have hsize : site.size = pure site.struct.size := by
        rw [Site.size, hsource]
        exact if_neg hpacked
      refine .pure trivial (fun _ => hkept) fun _ _ => ⟨fun _ => ?_, fun n hn => ?_⟩
      · rw [hsize]
        rfl
      · cases hn
        exact hsize

/-- **The size of an instance** at rest. -/
theorem size (h : resolver.LaysOut site) (hshown : site.ShownIn ws) (hkept : site.Kept ws)
    {isLazy : Bool} (hfresh : isLazy = true → ¬ ws.ReadsOutdated site.ref site.struct) :
    site.Leads (Workspace.Turns site.ref) site.Kept True True ws
      (resolver.size site.ref isLazy) (site.measures isLazy) := by
  unfold Resolver.size
  refine .ask ?_
  rw [hshown.struct]
  dsimp only
  refine .ask (.ask ?_)
  cases hknown : (ws.layoutOf site.ref).sizeFor? (ws.stampOf site.ref site.struct) with
  | some n =>
    refine .pure trivial (fun _ => hkept) fun _ _ => ⟨fun _ => ?_, fun m hm => ?_⟩
    · rw [hkept.size n hknown]
      rfl
    · cases hm
      exact hkept.size n hknown
  | none =>
    refine .guarded (h.measureSize hshown hkept hknown hfresh) (fun size ws₁ hturns _ => ?_)
      fun _ _ _ _ hfault => hfault
    cases size with
    | none => exact .pure trivial (fun hk => hk.2.1) fun _ haffirms => haffirms.2
    | some n =>
      have hlayout := Workspace.layoutOf_modifyLayout ws₁ site.ref
        (·.setSize (ws.stampOf site.ref site.struct) n)
      have hset : ws₁.Turns site.ref
          (ws₁.modifyLayout site.ref (·.setSize (ws.stampOf site.ref site.struct) n)) := by
        have hstamp : (ws₁.modifyLayout site.ref
            (·.setSize (ws.stampOf site.ref site.struct) n)).stampNow? site.ref =
              ws₁.stampNow? site.ref := (Workspace.Beside.modifyLayout _).stampNow?
        refine ⟨.modifyLayout _, Nat.le_refl _, ⟨rfl, fun i e he => ⟨e, ?_, .refl e⟩⟩,
          .inl (by rw [hlayout]; rfl), .inr ?_⟩
        · rw [Workspace.entryNow?, hstamp, Workspace.entryOf?, hlayout]
          exact he
        · rw [hlayout, (hshown.beside hturns.toBeside).stampNow?, hturns.stampOf]
          rfl
      refine .change hset rfl (fun hk _ => ?_)
        (.pure trivial And.right fun _ haffirms => haffirms.2)
      rw [← hturns.stampOf]
      exact hk.2.1.setSize ((hk.2.2 n rfl).2 n rfl)

/-- **Whether the chain goes on** after an instance at rest. -/
theorem canCreateNext (h : resolver.LaysOut site) (hshown : site.ShownIn ws)
    (hkept : site.Kept ws) {isLazy : Bool}
    (hfresh : isLazy = true → ¬ ws.ReadsOutdated site.ref site.struct) (loose : Bool) :
    site.Leads (Workspace.Turns site.ref) site.Kept True True ws
      (resolver.canCreateNext site.ref isLazy loose)
      ⟨fun _ _ _ => True, fun result _ =>
        (isLazy = false → result = (fun n => some (site.goesOn loose n)) <$> site.size) ∧
          ∀ more, result = .ok (some more) → ∃ n, site.size = .ok n ∧
            more = site.goesOn loose n⟩ := by
  unfold Resolver.canCreateNext
  refine .call (h.size hshown hkept hfresh) (fun size ws₁ hturns _ => ?_)
    fun fault _ _ _ hfault => ⟨fun heager => ?_, nofun⟩
  · cases size with
    | none =>
      refine .pure trivial And.right fun _ haffirms => ⟨fun heager => ?_, nofun⟩
      obtain ⟨_, _, hsome⟩ := Site.of_map_some_eq (Eq.symm (haffirms.2.1 heager))
      cases hsome
    | some n =>
      obtain ⟨i, hi, _, hbudget, hoverride⟩ := (hshown.beside hturns.toBeside).placed
      have hmore : (if loose = true then
          decide ((ws₁.find? site.ref.id).elim 0 (fun i => i.budgetAfter n) ≠ 0)
          else decide (0 < (ws₁.find? site.ref.id).elim 0 fun i => i.budgetAfter n)) =
          site.goesOn loose n := by
        rw [hi, Option.elim_some, Instance.budgetAfter, Instance.chainStep, hbudget, hoverride]
        rfl
      refine .ask (.pure trivial And.right fun _ haffirms => ?_)
      have hsize := haffirms.2.2 n rfl
      rw [hmore]
      refine ⟨fun _ => ?_, fun more hsome => ?_⟩
      · rw [hsize]
        rfl
      · cases hsome
        exact ⟨n, hsize, rfl⟩
  · rw [Site.of_map_some_eq_error (Eq.symm (hfault.1 heager))]
    rfl

end

end Resolver.LaysOut

/-! ## 6. All questions -/

namespace Inquiry

/-- Whether an answer tells something for sure, also if it is a lazy one. -/
def Tells : (q : Inquiry) → q.Answer → Prop
  | isPresent _ | canCreateNext _ => fun a : Option Bool => a.isSome = true
  | fieldOffset _ | elementCount _ | totalSize _ | size => fun a : Option Int64 => a.isSome = true
  | valueOffset _ _ | fieldPreview _ | valuePreview _ _ | intValue _ _ => fun _ => False

/-- A question to a resolver. -/
def request (r : InstanceRef) (isLazy : Bool) (resolver : Resolver) :
    (q : Inquiry) → Resolve q.Answer
  | isPresent i => resolver.isPresent r i isLazy
  | fieldOffset i => resolver.fieldOffset r i isLazy
  | valueOffset i n => resolver.valueOffset r i n isLazy
  | elementCount i => resolver.elementCount r i isLazy
  | totalSize i => resolver.totalSize r i isLazy
  | fieldPreview i => resolver.fieldPreview r i isLazy
  | valuePreview i n => resolver.valuePreview r i n
  | intValue i n => resolver.intValue r i n
  | size => resolver.size r isLazy
  | canCreateNext loose => resolver.canCreateNext r isLazy loose

/-- It is asked with as many frames as the limit admits. -/
theorem ask_eq (q : Inquiry) (r : InstanceRef) (isLazy : Bool) :
    q.ask r isLazy = Resolve.resolving fun resolver => q.request r isLazy resolver := by
  cases q <;> rfl

/-- **What comes of a question**: the answer, unless it is a lazy one. That is the answer if it
tells something. -/
def answers (q : Inquiry) (site : Site) (isLazy : Bool) : Promise q.Answer where
  told _ _ _ := True
  affirms result _ := (isLazy = false → result = q.answer site) ∧
    ∀ a, result = .ok a → q.Tells a → q.answer site = .ok a

/-- Whether a lazy question would be answered from what is out of date. -/
def ReadsOutdated (q : Inquiry) (ws : Workspace) (r : InstanceRef) : Prop :=
  q.field? = none ∧ ∃ d, ws.structOf? r = some d ∧ ws.ReadsOutdated r d

section

variable {site : Site} {ws : Workspace} {i c : Nat} {resolver : Resolver} {isLazy : Bool}

theorem not_tells_nothing (q : Inquiry) : ¬ q.Tells q.nothing := by
  cases q <;> exact fun h => nomatch h

/-- The answer to a question about a field. -/
theorem answer_eq (q : Inquiry) (site : Site) (hq : q.field? = some i) : q.answer site = (do
    let f ← site.fieldFacts i
    f.elim (pure q.nothing) fun f => q.about site f) := by
  rw [answer]
  split
  · rename_i hsome
    rw [hq] at hsome
    cases hsome
    rfl
  · rename_i hnone
    rw [hq] at hnone
    cases hnone

/-- A question about a field has its answer. Some questions are never lazy. -/
theorem leads_of_consults {q : Inquiry} (hq : q.field? = some i) {step : Resolve q.Answer}
    {p : FieldFacts → Promise q.Answer} {takesLazily : Bool}
    (h : resolver.Consults site i takesLazily c step p q.nothing)
    (hlays : resolver.LaysOut site) (hshown : site.ShownIn ws) (hkept : site.Kept ws)
    (hp : ∀ f result ws', (p f).affirms result ws' → (isLazy = false → result = q.about site f) ∧
      ∀ a, result = .ok a → q.Tells a → q.about site f = .ok a) :
    site.Leads (Workspace.Turns site.ref) site.Kept True True ws step (q.answers site isLazy) := by
  refine (h.leads hlays hshown hkept).mono id (fun _ => id) (fun _ _ => id)
    fun result ws' _ _ haffirms => ?_
  have hanswer := q.answer_eq site hq
  unfold answers
  dsimp only at haffirms ⊢
  split at haffirms <;> rename_i hfound <;> rw [hanswer, hfound]
  · exact hp _ _ _ haffirms
  · refine ⟨fun _ => haffirms, fun a ha htells => ?_⟩
    rw [haffirms] at ha
    cases ha
    exact absurd htells q.not_tells_nothing
  · refine ⟨fun _ => haffirms, fun a ha _ => ?_⟩
    rw [haffirms] at ha
    cases ha

/-- **Every question to an instance at rest has its answer**, whatever is known already, and leaves
the instance at rest. -/
theorem leads (q : Inquiry) (hflat : site.struct.Flat) (hshown : site.ShownIn ws)
    (hkept : site.Kept ws) (isLazy : Bool)
    (hfresh : isLazy = true → ¬ q.ReadsOutdated ws site.ref) :
    site.Leads (Workspace.Turns site.ref) site.Kept True True ws (q.ask site.ref isLazy)
      (q.answers site isLazy) := by
  rw [ask_eq]
  refine .ask ?_
  have hlays := Resolver.laysOut_within hflat (ws.limits.maxDepth - ws.depth)
  have hnotOutdated (hq : q.field? = none) (hlazy : isLazy = true) :
      ¬ ws.ReadsOutdated site.ref site.struct :=
    fun houtdated => hfresh hlazy ⟨hq, _, hshown.struct, houtdated⟩
  have hsame {α : Type} {P : α → Prop} {ref result : Except Fault α} (h : result = ref) :
      (isLazy = false → result = ref) ∧ ∀ a, result = .ok a → P a → ref = .ok a :=
    ⟨fun _ => h, fun _ ha _ => h ▸ ha⟩
  have hsome {ref : Except Fault Int64} {result : Except Fault (Option Int64)}
      (h : ∀ n, result = .ok (some n) → ref = .ok n) (a : Option Int64) (ha : result = .ok a)
      (htells : a.isSome = true) : some <$> ref = .ok a := by
    obtain ⟨n, rfl⟩ := Option.isSome_iff_exists.mp htells
    rw [h n ha]
    rfl
  cases q with
  | isPresent i =>
    exact leads_of_consults (q := .isPresent i) rfl
      (Resolver.Faithful.consults_isPresent i isLazy) hlays hshown hkept fun _ _ _ => hsame
  | fieldOffset i =>
    exact leads_of_consults (q := .fieldOffset i) rfl (hlays.consults_fieldOffset i isLazy)
      hlays hshown hkept fun _ _ _ haffirms => ⟨haffirms.1, hsome haffirms.2⟩
  | valueOffset i n =>
    exact leads_of_consults (q := .valueOffset i n) rfl (hlays.consults_valueOffset i n isLazy)
      hlays hshown hkept fun _ _ _ haffirms => ⟨haffirms, fun _ _ => False.elim⟩
  | elementCount i =>
    exact leads_of_consults (q := .elementCount i) rfl (hlays.consults_elementCount i isLazy)
      hlays hshown hkept fun _ _ _ => hsame
  | totalSize i =>
    exact leads_of_consults (q := .totalSize i) rfl (hlays.consults_totalSize i isLazy)
      hlays hshown hkept fun _ _ _ => hsame
  | fieldPreview i =>
    exact leads_of_consults (q := .fieldPreview i) rfl (hlays.consults_fieldPreview i isLazy)
      hlays hshown hkept fun _ _ _ haffirms => ⟨haffirms, fun _ _ => False.elim⟩
  | valuePreview i n =>
    exact leads_of_consults (q := .valuePreview i n) rfl (hlays.consults_valuePreview i n)
      hlays hshown hkept fun _ _ _ => hsame
  | intValue i n =>
    exact leads_of_consults (q := .intValue i n) rfl (hlays.consults_intValue i n)
      hlays hshown hkept fun _ _ _ => hsame
  | size =>
    exact (hlays.size hshown hkept (hnotOutdated rfl)).mono id (fun _ => id) (fun _ _ => id)
      fun _ _ _ _ haffirms => ⟨haffirms.1, hsome haffirms.2⟩
  | canCreateNext loose =>
    refine (hlays.canCreateNext hshown hkept (hnotOutdated rfl) loose).mono id (fun _ => id)
      (fun _ _ => id) fun _ _ _ _ haffirms => ⟨haffirms.1, fun a ha htells => ?_⟩
    obtain ⟨more, rfl⟩ := Option.isSome_iff_exists.mp (show Option.isSome a = true from htells)
    obtain ⟨n, hn, rfl⟩ := haffirms.2 more ha
    show (fun n => some (site.goesOn loose n)) <$> site.size = _
    rw [hn]
    rfl

end

end Inquiry

end ByteAtlas
