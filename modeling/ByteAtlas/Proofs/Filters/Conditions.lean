import ByteAtlas.Proofs.Filters.Frames

/-!
# Sizes and conditions

A view tells all that will ever be laid out of an instance, or laying out has been broken off, and
the view ends with what is laid out (`Site.Complete`). Then nothing that is asked about the instance
has to wait. So its size is the one that is settled (`Resolver.Settled.size`), and whether it meets
the conditions of a query is settled, too (`Resolver.Settled.meets`).
-/

namespace ByteAtlas

/-- The size is not dropped with what is out of date. -/
theorem Layout.validated_setSize (l : Layout) (stamp stamp' : Stamp) (size offset : Int64) :
    (l.setSize stamp size).validated stamp' offset =
      (l.validated stamp' offset).setSize stamp size := by
  unfold validated
  by_cases h : l.stamp = some stamp'
  · rw [if_pos h, if_pos (show (l.setSize stamp size).stamp = _ from h)]
  · rw [if_neg h, if_neg (show ¬ (l.setSize stamp size).stamp = _ from h)]
    rfl

namespace Site

/-! ## 1. Complete views -/

section

variable (site : Site) (v : View)

/-- **Whether a view ends where laying out does.** -/
def Complete (ws : Workspace) : Prop :=
  (site.now ws).measuring = none ∨
    (v.fields.length ≤ (site.now ws).entries.size ∧ v.cursor = none)

/-- Whether all conditions are met, as it is settled. -/
def meets (filter : QueryFilter) : Bool :=
  (filter.texts.all fun c => (site.struct.fieldIndex? c.field).any fun i =>
    v.fields[i]?.elim notLoadedPreview Finding.preview = c.text) &&
  filter.values.all fun c => Findings.namedValue v.fields site c.name = some c.value

end

variable {site : Site} {v : View} {ws ws' : Workspace}

theorem Complete.due (h : site.Complete v ws) (i : Nat) : site.Due v i ws := by
  rcases h with hm | ⟨hlength, _⟩
  · exact .inr (.inl hm)
  · exact (Nat.lt_or_ge i (site.now ws).entries.size).imp_right
      fun hi => .inr (Nat.le_trans hlength hi)

theorem Complete.onward (h : site.Complete v ws) (ho : site.Onward ws ws') :
    site.Complete v ws' :=
  h.imp (fun hm => ho.measuring.trans hm)
    fun ⟨hlength, hcursor⟩ => ⟨Nat.le_trans hlength ho.count, hcursor⟩

/-- Where a view is complete, expressions see all of it. -/
theorem Complete.covers (h : site.Complete v ws) (scope : Scope) (names : List String) :
    site.Covers v v.fields scope names ws :=
  fun _ _ i _ => .inr ⟨h.due i, rfl⟩

theorem sizeFor?_now (ws : Workspace) (stamp : Stamp) :
    (site.now ws).sizeFor? stamp = (ws.layoutOf site.ref).sizeFor? stamp := by
  unfold now Layout.validated
  split <;> rfl

/-- Where all fields are laid out, the last of them ends at the cursor. -/
theorem Knows.cursor (h : site.Knows v ws) (hm : (site.now ws).measuring = none)
    (hall : site.struct.fieldCount ≤ (site.now ws).entries.size) :
    v.cursor = some (site.now ws).cursor := by
  have hstart := h.fits.cursor hm
  unfold View.startOf at hstart
  cases hf : v.fields[(site.now ws).entries.size]? with
  | none => rwa [hf] at hstart
  | some f =>
    obtain ⟨field, hfield, _⟩ := h.fits.later (Nat.le_refl _) hf
    exact absurd (Layout.lt_fieldCount hfield) (Nat.not_lt.mpr hall)

/-- **Keeping the size** that is settled. -/
theorem Knows.setSize (h : site.Knows v ws) {size : Int64} (hsize : v.size = some size)
    {stamp : Stamp} (hstamp : ws.stampOf site.ref site.struct = stamp) :
    site.Knows v (ws.modifyLayout site.ref (·.setSize stamp size)) ∧
      site.Onward ws (ws.modifyLayout site.ref (·.setSize stamp size)) := by
  have hnow : site.now (ws.modifyLayout site.ref (·.setSize stamp size)) =
      (site.now ws).setSize stamp size := by
    unfold now
    rw [Workspace.layoutOf_modifyLayout]
    exact Layout.validated_setSize _ _ _ _ _
  have hstamped : site.Stamped ws →
      site.Stamped (ws.modifyLayout site.ref (·.setSize stamp size)) := by
    unfold Stamped
    rw [Workspace.layoutOf_modifyLayout]
    exact id
  refine ⟨⟨h.seen.beside (.modifyLayout _), ?_, ?_⟩, .of_now rfl hstamped ?_ ?_ ?_⟩ <;> rw [hnow]
  · exact ⟨h.fits.entry, h.fits.later, h.fits.cursor, h.fits.all⟩
  · show v.size = ((if stamp = ws.stampOf site.ref site.struct then some size else none).or _)
    rw [if_pos hstamp.symm, hsize]
    rfl
  all_goals rfl

end Site

namespace Resolver.Settled

variable {resolver : Resolver} {site : Site} {v : View} (h : resolver.Settled site v)
  {ws : Workspace} (hs : site.SeenIn ws)
include h hs

/-! ## 2. Sizes -/

theorem measureSize : site.Answers v (site.Complete v ws) ws
    (resolver.measureSize site.ref site.struct false) fun a _ => a = v.measured site := by
  unfold Resolver.measureSize View.measured
  cases site.struct.sizeSource with
  | some source =>
    dsimp only
    rw [if_neg Bool.false_ne_true]
    refine .bind hs ((h.namedValue hs source).mono (fun _ hc i _ => hc.due i)
      fun _ _ _ _ _ _ => id) fun base ws₁ _ => .pure fun _ ⟨_, _, hbase⟩ => ?_
    rw [hbase]
  | none =>
    dsimp only
    refine .ite (fun hpacked => ?_) fun hpacked => .pure fun _ _ => (if_neg hpacked).symm
    rw [if_pos hpacked, if_pos Bool.not_false]
    refine .bind hs ((h.enumerateFirst hs (Nat.le_refl _)).mono (fun _ _ => trivial)
      fun _ _ _ _ _ _ => id) fun _ ws₁ hs₁ => .ask (.ite (fun hshort => ?_) fun hfull => ?_)
    · refine .pure fun _ ⟨⟨_, hcomplete⟩, ho, hstamped, hlaid⟩ => ?_
      rw [← Site.now_of_stamped hstamped, Bool.or_eq_true, decide_eq_true_iff] at hshort
      have hbroken : (site.now ws₁).measuring.isSome :=
        hshort.elim (fun hlt => hlaid.resolve_left (Nat.not_le.mpr hlt)) id
      rcases hcomplete.onward ho with hm | ⟨_, hcursor⟩
      · rw [hm] at hbroken
        cases hbroken
      · rw [hcursor]
        rfl
    · refine .pure fun hk ⟨_, _, hstamped, _⟩ => ?_
      rw [← Site.now_of_stamped hstamped, Bool.or_eq_true, decide_eq_true_iff, not_or,
        Nat.not_lt, Bool.not_eq_true, Option.isSome_eq_false_iff, Option.isNone_iff_eq_none]
        at hfull
      rw [hk.cursor hfull.2 hfull.1, ← Site.now_of_stamped hstamped]
      rfl

/-- **The size of the instance.** -/
theorem size : site.Answers v (site.Complete v ws) ws (resolver.size site.ref false)
    fun a _ => a = v.size := by
  unfold Resolver.size
  refine .ask ?_
  rw [hs.struct]
  dsimp only
  refine .ask (.ask ?_)
  cases hsize : (ws.layoutOf site.ref).sizeFor? (ws.stampOf site.ref site.struct) with
  | some size =>
    refine .pure fun hk _ => ?_
    rw [hk.size, Site.sizeFor?_now, hsize]
    rfl
  | none =>
    refine Site.Quietly.bind (.unlessCutShort (h.measureSize hs)) fun a ws₁ hb => ?_
    have hmeasured (hk : site.Knows v ws) (ha : a = v.measured site) : a = v.size := by
      rw [hk.size, Site.sizeFor?_now, hsize, ha]
      rfl
    cases a with
    | none => exact .pure fun ⟨⟨hk, _⟩, hk₁, ho, ha⟩ => ⟨hk₁, ho, hmeasured hk ha⟩
    | some size =>
      refine .bind (p := fun _ ws' => site.Knows v ws' ∧ site.Onward ws ws')
        (.change (.modifyLayout _) rfl fun ⟨⟨hk, _⟩, hk₁, ho, ha⟩ => ?_) fun _ _ _ =>
          .pure fun ⟨⟨⟨hk, _⟩, _, _, ha⟩, hk', ho'⟩ => ⟨hk', ho', hmeasured hk ha⟩
      obtain ⟨hk', ho'⟩ := hk₁.setSize (hmeasured hk ha).symm (hb.stampOf site.ref site.struct)
      exact ⟨hk', ho.trans ho'⟩

/-! ## 3. Conditions -/

omit hs in
theorem matchesTexts (cs : List TextCondition) : ∀ {ws : Workspace}, site.SeenIn ws →
    site.Answers v (site.Complete v ws) ws (resolver.matchesTexts site.ref site.struct cs)
      fun a _ => a = cs.all fun c => (site.struct.fieldIndex? c.field).any fun i =>
        v.fields[i]?.elim notLoadedPreview Finding.preview = c.text := by
  induction cs with
  | nil => exact fun _ => .pure fun _ _ => rfl
  | cons c cs ih =>
    intro ws hs
    unfold Resolver.matchesTexts
    rw [List.all_cons]
    cases hi : site.struct.fieldIndex? c.field with
    | none => exact .pure fun _ _ => rfl
    | some i =>
      obtain ⟨field, hfield⟩ := StructDef.field?_of_fieldIndex? hi
      refine .bind hs ((h.fieldPreview hs hfield).mono (fun _ hc => hc.due i)
        fun _ _ _ _ _ _ => id) fun preview ws₁ hs₁ => .ite (fun hsame => ?_) fun hother => ?_
      · refine (ih hs₁).mono (fun _ hgiven => hgiven.1.2.onward hgiven.2.1)
          fun _ _ _ hgiven _ _ ha => ?_
        rw [ha, Option.any_some, ← hgiven.2.2, decide_eq_true hsame, Bool.true_and]
      · refine .pure fun _ hgiven => ?_
        rw [Option.any_some, ← hgiven.2.2, decide_eq_false hother, Bool.false_and]

omit hs in
theorem matchesValues (cs : List ValueCondition) : ∀ {ws : Workspace}, site.SeenIn ws →
    site.Answers v (site.Complete v ws) ws (resolver.matchesValues site.ref site.struct cs)
      fun a _ => a = cs.all fun c =>
        Findings.namedValue v.fields site c.name = some c.value := by
  induction cs with
  | nil => exact fun _ => .pure fun _ _ => rfl
  | cons c cs ih =>
    intro ws hs
    unfold Resolver.matchesValues
    rw [List.all_cons]
    refine .bind hs ((h.namedValue hs c.name).mono (fun _ hc i _ => hc.due i)
      fun _ _ _ _ _ _ => id) fun value ws₁ hs₁ => .ite (fun hsame => ?_) fun hother => ?_
    · refine (ih hs₁).mono (fun _ hgiven => hgiven.1.2.onward hgiven.2.1)
        fun _ _ _ hgiven _ _ ha => ?_
      rw [ha, ← hgiven.2.2, decide_eq_true hsame, Bool.true_and]
    · refine .pure fun _ hgiven => ?_
      rw [← hgiven.2.2, decide_eq_false hother, Bool.false_and]

/-- **Whether the instance meets the conditions** of a query. -/
theorem meets (filter : QueryFilter) : site.Answers v (site.Complete v ws) ws
    (resolver.meets site.ref filter) fun a _ => a = site.meets v filter := by
  unfold Resolver.meets Site.meets
  refine .ite (fun hempty => .pure fun _ _ => ?_) fun _ => .ask ?_
  · unfold QueryFilter.isEmpty at hempty
    rw [Bool.and_eq_true, List.isEmpty_iff, List.isEmpty_iff] at hempty
    rw [hempty.1, hempty.2]
    rfl
  · rw [hs.struct]
    dsimp only
    refine .bind hs (h.matchesTexts filter.texts hs) fun texts ws₁ hs₁ =>
      .ite (fun hmet => ?_) fun hmissed => .pure fun _ ⟨_, _, htexts⟩ => ?_
    · refine (h.matchesValues filter.values hs₁).mono (fun _ ⟨⟨_, hc⟩, ho, _⟩ => hc.onward ho)
        fun _ _ _ ⟨_, _, htexts⟩ _ _ ha => ?_
      rw [← htexts, hmet, Bool.true_and, ha]
    · rw [← htexts, Bool.eq_false_iff.mpr hmissed, Bool.false_and]

end Resolver.Settled

end ByteAtlas
