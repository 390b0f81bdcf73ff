import ByteAtlas.Proofs.Flat.Evaluate

/-!
# Laying out flat definitions

Each step of laying out fields goes from one stage of the reference to the next
(`Resolver.Faithful.layOutField`), and so all of them together come to the stage that was asked for
(`Resolver.Faithful.layOutFields`). Where a frame is refused they stop at a stage before it, and a
field of which the room is not known is taken back.
-/

namespace ByteAtlas

/-! ## 1. Stages of the reference -/

theorem StructDef.field?_eq_none_iff {d : StructDef} {i : Nat} :
    d.field? i = none ↔ d.fieldCount ≤ i :=
  List.getElem?_eq_none_iff

namespace Site

variable {site : Site} {facts : List FieldFacts} {cursor : Int64} {k : Nat}

/-- What comes of laying out one more field. -/
theorem layOut_succ (hk : site.layOut k = .ok (facts, cursor)) {field : String × Field}
    (hfield : site.struct.field? k = some field) :
    site.layOut (k + 1) = (do
      let condition ← site.conditionValue facts k field.2
      let present : Bool := condition ≠ 0
      let f := site.factsOf facts k field.2 present cursor
      if present && site.struct.isPacked && !field.2.isComputed then
        let total ← f.total site
        pure (facts ++ [f], cursor + total)
      else pure (facts ++ [f], cursor)) := by
  rw [layOut, hk]
  dsimp only [bind, Except.bind]
  rw [hfield]

theorem layOut_succ_of_le (hk : site.struct.fieldCount ≤ k) :
    site.layOut (k + 1) = site.layOut k := by
  rw [layOut]
  rw [StructDef.field?_eq_none_iff.mpr hk]
  cases site.layOut k <;> rfl

/-- **Each of the first fields has its facts**, and the next stage has them as well. -/
theorem layOut_succ_eq_ok {facts' : List FieldFacts} {cursor' : Int64}
    (h : site.layOut (k + 1) = .ok (facts', cursor')) :
    ∃ facts cursor, site.layOut k = .ok (facts, cursor) ∧
      ((site.struct.fieldCount ≤ k ∧ facts' = facts) ∨
        (k < site.struct.fieldCount ∧ ∃ f, facts' = facts ++ [f])) := by
  cases hk : site.layOut k with
  | error fault =>
    rw [layOut, hk] at h
    cases h
  | ok p =>
    obtain ⟨facts, cursor⟩ := p
    refine ⟨facts, cursor, rfl, ?_⟩
    cases hfield : site.struct.field? k with
    | none =>
      have hle := StructDef.field?_eq_none_iff.mp hfield
      rw [layOut_succ_of_le hle, hk] at h
      cases h
      exact .inl ⟨hle, rfl⟩
    | some field =>
      have hlt : k < site.struct.fieldCount := by
        refine Nat.lt_of_not_le fun hle => ?_
        rw [StructDef.field?_eq_none_iff.mpr hle] at hfield
        cases hfield
      refine .inr ⟨hlt, ?_⟩
      rw [layOut_succ hk hfield] at h
      cases hcondition : site.conditionValue facts k field.2 with
      | error fault =>
        rw [hcondition] at h
        cases h
      | ok condition =>
        rw [hcondition] at h
        dsimp only [bind, Except.bind] at h
        split at h
        · cases htotal : (site.factsOf facts k field.2 (condition ≠ 0) cursor).total site with
          | error fault =>
            rw [htotal] at h
            cases h
          | ok total =>
            rw [htotal] at h
            cases h
            exact ⟨_, rfl⟩
        · cases h
          exact ⟨_, rfl⟩

theorem length_layOut (h : site.layOut k = .ok (facts, cursor)) :
    facts.length = min k site.struct.fieldCount := by
  induction k generalizing facts cursor with
  | zero =>
    cases h
    exact (Nat.zero_min _).symm
  | succ k ih =>
    obtain ⟨facts', cursor', hk, ⟨hle, rfl⟩ | ⟨hlt, f, rfl⟩⟩ := layOut_succ_eq_ok h
    · rw [ih hk]
      omega
    · rw [List.length_append, List.length_singleton, ih hk]
      omega

/-- **The stages on the way**: the facts about the first fields are the same. -/
theorem layOut_of_le {j : Nat} (hj : j ≤ k) (h : site.layOut k = .ok (facts, cursor)) :
    ∃ cursor', site.layOut j = .ok (facts.take j, cursor') := by
  induction k generalizing facts cursor with
  | zero =>
    cases h
    cases Nat.le_zero.mp hj
    exact ⟨_, rfl⟩
  | succ k ih =>
    by_cases hjk : j = k + 1
    · subst hjk
      have hlength := length_layOut h
      rw [List.take_of_length_le (by omega)]
      exact ⟨_, h⟩
    · obtain ⟨facts', cursor', hk, hstep⟩ := layOut_succ_eq_ok h
      obtain ⟨cursor'', hcursor⟩ := ih (by omega) hk
      rcases hstep with ⟨_, rfl⟩ | ⟨hlt, f, rfl⟩
      · exact ⟨_, hcursor⟩
      · have hlength := length_layOut hk
        rw [List.take_append_of_le_length (by omega)]
        exact ⟨_, hcursor⟩

end Site

/-! ## 2. Moving on -/

theorem Workspace.Beside.stampNow? {r : InstanceRef} {ws ws' : Workspace} (h : ws.Beside r ws') :
    ws'.stampNow? r = ws.stampNow? r := by
  rw [Workspace.stampNow?, Workspace.stampNow?, h.structOf?]
  cases ws.structOf? r with
  | none => rfl
  | some d => exact congrArg some (h.stampOf r d)

/-- **What laying out may do to a workspace.** There are no more entries than fields. -/
structure Workspace.Moves (r : InstanceRef) (ws ws' : Workspace) : Prop
    extends Workspace.Beside r ws ws' where
  refusals : ws.refusals ≤ ws'.refusals
  onward : ws.Onward r ws'
  stamp : (ws'.layoutOf r).stamp = (ws.layoutOf r).stamp
  size : (ws'.layoutOf r).size = (ws.layoutOf r).size
  count : ∀ n, (∀ d, ws.structOf? r = some d → d.fieldCount ≤ n) →
    (ws.layoutOf r).entries.size ≤ n → (ws'.layoutOf r).entries.size ≤ n

instance {r : InstanceRef} : Workspace.Course r (Workspace.Moves r) where
  refl ws := ⟨.refl r ws, Nat.le_refl _, .refl r ws, rfl, rfl, fun _ _ => id⟩
  trans h h' := by
    refine ⟨h.toBeside.trans h'.toBeside, Nat.le_trans h.refusals h'.refusals,
      h.onward.trans h'.onward, h'.stamp.trans h.stamp, h'.size.trans h.size,
      fun n hn hle => h'.count n (fun d hd => hn d ?_) (h.count n hn hle)⟩
    rw [← h.structOf?]
    exact hd
  refusals := Workspace.Moves.refusals
  onward := Workspace.Moves.onward

theorem Workspace.Steady.moves {r : InstanceRef} {b c : Nat} {ws ws' : Workspace}
    (h : ws.Steady r b c ws') : ws.Moves r ws' :=
  ⟨h.toBeside, h.refusals, h.onward, h.stamp, h.size, fun _ _ hle => h.count ▸ hle⟩

/-- Other entries, by which what has been begun stays begun. -/
theorem Workspace.Moves.of_entries {r : InstanceRef} {ws ws' : Workspace} (hb : ws.Beside r ws')
    (hr : ws.refusals ≤ ws'.refusals) (hstamp : (ws'.layoutOf r).stamp = (ws.layoutOf r).stamp)
    (hsize : (ws'.layoutOf r).size = (ws.layoutOf r).size)
    (hcount : ∀ n, (∀ d, ws.structOf? r = some d → d.fieldCount ≤ n) →
      (ws.layoutOf r).entries.size ≤ n → (ws'.layoutOf r).entries.size ≤ n)
    (hentry : ∀ j e, ws.entryOf? r j = some e → ∃ e', ws'.entryOf? r j = some e' ∧ e.Onward e') :
    ws.Moves r ws' := by
  refine ⟨hb, hr, ⟨hb.schema, fun j e he => ?_⟩, hstamp, hsize, hcount⟩
  unfold Workspace.entryNow? at he ⊢
  rw [hstamp, hb.stampNow?]
  split at he
  · rename_i hcurrent
    rw [if_pos hcurrent]
    exact hentry j e he
  · cases he

/-- A change of the layout by which the entries stay as they are. -/
theorem Workspace.Moves.modifyLayout {r : InstanceRef} {ws : Workspace} {g : Layout → Layout}
    (hg : ∀ l, (g l).stamp = l.stamp ∧ (g l).size = l.size ∧ (g l).entries = l.entries) :
    ws.Moves r (ws.modifyLayout r g) := by
  have hl := Workspace.layoutOf_modifyLayout ws r g
  obtain ⟨hstamp, hsize, hentries⟩ := hg (ws.layoutOf r)
  refine .of_entries (.modifyLayout g) (Nat.le_refl _) (by rw [hl, hstamp]) (by rw [hl, hsize])
    (fun n _ hle => by rw [hl, hentries]; exact hle) fun j e he => ⟨e, ?_, .refl e⟩
  rw [Workspace.entryOf?, hl, hentries]
  exact he

/-- **Whether the first fields are laid out**, and no others. -/
def Site.LaidOut (site : Site) (k : Nat) (ws : Workspace) : Prop :=
  k ≤ site.struct.fieldCount ∧ ∃ s, site.stageAt (ws.layoutOf site.ref).size k = .ok s ∧
    site.AtStage s ws

/-! ## 3. One field -/

namespace Site

section

variable {site : Site} {s : Stage} {ws : Workspace} {i : Nat} {f : FieldFacts}

/-- **The entry that a field gets at first** is true. -/
theorem agrees_firstEntry (facts : List FieldFacts) (field : Field) (present : Bool)
    (cursor : Int64) :
    site.Agrees (site.factsOf facts i field present cursor)
      (Resolver.firstEntry site.struct field present cursor) := by
  have hread {e : FieldEntry} (hvalues : e.values = #[]) (hnext : e.nextElement = none) :
      site.ReadSoFar (site.factsOf facts i field present cursor) e := by
    unfold Site.ReadSoFar
    split
    · exact .inl hvalues
    · rw [hnext]
      exact ⟨fun _ => hvalues, hvalues⟩
    · trivial
  cases hvalue : field.value with
  | some formula =>
    have hfirst : Resolver.firstEntry site.struct field present cursor =
        { FieldEntry.reached present cursor with
          offset := some 0, count := some 1, totalSize := some 0 } := by
      rw [Resolver.firstEntry, hvalue]
      rfl
    rw [hfirst]
    refine ⟨rfl, rfl, fun n hn => ?_, fun _ => rfl, fun n hn => ?_, fun _ => rfl, fun n hn => ?_,
      hread rfl rfl, by rintro _ ⟨⟩⟩ <;> cases hn
    · simp only [factsOf, offsetOf, hvalue, Option.isSome_some, if_true]
      rfl
    · simp only [factsOf, countOf, hvalue, Option.isSome_some, if_true]
      rfl
    · simp only [factsOf, FieldFacts.total, hvalue]
      rfl
  | none =>
    cases hformula : field.offsetFormula with
    | some formula =>
      have hfirst : Resolver.firstEntry site.struct field present cursor =
          .reached present cursor := by
        rw [Resolver.firstEntry, Field.isComputed, hvalue, hformula]
        rfl
      rw [hfirst]
      refine ⟨rfl, rfl, by rintro _ ⟨⟩, fun hplaced => ?_, by rintro _ ⟨⟩, fun hcounted => ?_,
          by rintro _ ⟨⟩, hread rfl rfl,
        by rintro _ ⟨⟩⟩
      · simp only [factsOf, hvalue, hformula] at hplaced
        cases hplaced
      · simp only [factsOf, hvalue] at hcounted
        cases hcounted
    | none =>
      have hfirst : Resolver.firstEntry site.struct field present cursor =
          { FieldEntry.reached present cursor with
            offset := some
              (if present && !site.struct.isPacked then cursor + field.offset else cursor) } := by
        rw [Resolver.firstEntry, Field.isComputed, hvalue, hformula]
        rfl
      rw [hfirst]
      refine ⟨rfl, rfl, fun n hn => ?_, fun _ => rfl, by rintro _ ⟨⟩, fun hcounted => ?_,
          by rintro _ ⟨⟩,
        hread rfl rfl, by rintro _ ⟨⟩⟩
      · cases hn
        simp only [factsOf, offsetOf, hvalue, hformula, Option.isSome_none, Bool.false_eq_true,
          if_false]
        rfl
      · simp only [factsOf, hvalue] at hcounted
        cases hcounted

/-- **Taking the last entry back.** -/
theorem AtStage.pop {facts : List FieldFacts}
    (h : site.AtStage { s with facts := facts ++ [f] } ws) :
    site.AtStage { s with facts } (ws.modifyLayout site.ref Layout.pop) := by
  have hlayout := Workspace.layoutOf_modifyLayout ws site.ref Layout.pop
  have hcount := h.count
  rw [List.length_append, List.length_singleton] at hcount
  have hold {j : Nat} {f' : FieldFacts} (hf' : facts[j]? = some f') :
      (facts ++ [f])[j]? = some f' ∧ j < facts.length :=
    ⟨by rw [List.getElem?_append_left (List.getElem?_eq_some_iff.mp hf').1, hf'],
      (List.getElem?_eq_some_iff.mp hf').1⟩
  refine ⟨fun j f' hf' => ?_, ?_, ?_, ?_, ?_, ?_, fun j f' e hf' he => ?_⟩
  · obtain ⟨hf'', hlt⟩ := hold hf'
    have hdescribes := h.facts j f' hf''
    rw [List.take_append_of_le_length (Nat.le_of_lt hlt)] at hdescribes
    exact hdescribes
  · rw [hlayout]
    exact h.stamp
  · rw [hlayout]
    exact h.cursor
  · rw [hlayout]
    exact h.measuring
  · rw [hlayout]
    exact h.size
  · rw [hlayout]
    show (ws.layoutOf site.ref).entries.pop.size = facts.length
    rw [Array.size_pop]
    omega
  · obtain ⟨hf'', hlt⟩ := hold hf'
    rw [Workspace.entryOf?, hlayout] at he
    have he : (ws.layoutOf site.ref).entries.pop[j]? = some e := he
    rw [Array.getElem?_pop] at he
    split at he
    · exact h.agrees j f' e hf'' he
    · cases he

theorem Ready.moves (h : site.Ready i ws) {ws' : Workspace} (hm : ws.Moves site.ref ws') :
    site.Ready 0 ws' := by
  refine ⟨h.shown.beside hm.toBeside, ?_, Nat.zero_le _⟩
  rw [hm.stampOf, hm.stamp]
  exact h.current

/-- At a stage no field is being laid out, and the size is the one that is given. -/
theorem of_stageAt_eq_ok {size : Option (Stamp × Int64)} {k : Nat}
    (h : site.stageAt size k = .ok s) :
    s.measuring = none ∧ s.size = size ∧ site.layOut k = .ok (s.facts, s.cursor) := by
  unfold stageAt at h
  cases hlayOut : site.layOut k with
  | error fault =>
    rw [hlayOut] at h
    cases h
  | ok p =>
    rw [hlayOut] at h
    cases h
    exact ⟨rfl, rfl, rfl⟩

theorem of_stageAt_eq_error {size : Option (Stamp × Int64)} {k : Nat} {fault : Fault}
    (h : site.stageAt size k = .error fault) : site.layOut k = .error fault := by
  cases hlayOut : site.layOut k with
  | error fault' =>
    simp only [stageAt, hlayOut] at h
    exact congrArg Except.error (Except.error.inj h)
  | ok p =>
    rw [stageAt, hlayOut] at h
    exact nomatch h

/-- There is only one stage at which so many fields are laid out. -/
theorem exists_stageAt (site : Site) (size : Option (Stamp × Int64)) (k : Nat) :
    ∃ s, ∀ s', site.stageAt size k = .ok s' → s' = s := by
  cases site.stageAt size k with
  | error _ => exact ⟨⟨[], 0, none, none⟩, fun _ hs => nomatch hs⟩
  | ok s => exact ⟨s, fun _ hs => (Except.ok.inj hs).symm⟩

theorem LaidOut.count {k : Nat} (h : site.LaidOut k ws) :
    (ws.layoutOf site.ref).entries.size = k := by
  obtain ⟨hle, s, hs, hstage⟩ := h
  rw [hstage.count, length_layOut (of_stageAt_eq_ok hs).2.2]
  exact Nat.min_eq_left hle

theorem layOut_add_eq_error {k : Nat} {fault : Fault} (h : site.layOut k = .error fault)
    (n : Nat) : site.layOut (k + n) = .error fault := by
  induction n with
  | zero => exact h
  | succ n ih =>
    rw [← Nat.add_assoc, layOut, ih]
    rfl

/-- **Taking an entry back** that was added before a step about it. What was begun on it, if it lies
where no expression says, cannot be wrong. -/
theorem Ready.takenBack (h : site.Ready i ws) (hcount : (ws.layoutOf site.ref).entries.size = i)
    {field : String × Field} (hfield : site.struct.field? i = some field)
    (hformula : field.2.offsetFormula = none) {e : FieldEntry} (hpreview : e.preview = none)
    {ws₁ ws₂ ws₃ : Workspace} (hpush : ws₁ = ws.modifyLayout site.ref (·.push e))
    (hsteady : ws₁.Steady site.ref (i + 1) i ws₂)
    (hpop : ws₃ = (ws₂.modifyLayout site.ref Layout.pop).modifyLayout site.ref
      (·.setMeasuring none)) :
    ws.Moves site.ref ws₃ ∧ (ws.Spares site.ref ws₃ → ws₁.Spares site.ref ws₂) := by
  have hl₁ : ws₁.layoutOf site.ref = (ws.layoutOf site.ref).push e := by
    rw [hpush, Workspace.layoutOf_modifyLayout]
  have hl₃ : ws₃.layoutOf site.ref = ((ws₂.layoutOf site.ref).pop).setMeasuring none := by
    rw [hpop, Workspace.layoutOf_modifyLayout, Workspace.layoutOf_modifyLayout]
  have hb₁ : ws.Beside site.ref ws₁ := hpush ▸ .modifyLayout _
  have hb₃ : ws₂.Beside site.ref ws₃ := hpop ▸ (Workspace.Beside.modifyLayout _).trans
      (.modifyLayout _)
  have hsize₂ : (ws₂.layoutOf site.ref).entries.size = i + 1 := by
    rw [hsteady.count, hl₁, ← hcount]
    exact Array.size_push _
  have hentry₁ (j : Nat) : ws₁.entryOf? site.ref j =
      if j = i then some e else ws.entryOf? site.ref j := by
    rw [Workspace.entryOf?, hl₁]
    show ((ws.layoutOf site.ref).entries.push e)[j]? = _
    rw [Array.getElem?_push, hcount]
    rfl
  have hentry₃ (j : Nat) : ws₃.entryOf? site.ref j =
      if j < i then ws₂.entryOf? site.ref j else none := by
    rw [Workspace.entryOf?, hl₃]
    show (ws₂.layoutOf site.ref).entries.pop[j]? = _
    rw [Array.getElem?_pop, hsize₂, Nat.add_sub_cancel]
    rfl
  have hmoves : ws.Moves site.ref ws₃ := by
    refine .of_entries ((hb₁.trans hsteady.toBeside).trans hb₃) ?_ ?_ ?_ (fun n _ hle => ?_)
      fun j e' he' => ?_
    · rw [hpop]
      exact Nat.le_trans (Nat.le_of_eq (by rw [hpush]; rfl)) hsteady.refusals
    · rw [hl₃]
      exact hsteady.stamp.trans (by rw [hl₁]; rfl)
    · rw [hl₃]
      exact hsteady.size.trans (by rw [hl₁]; rfl)
    · rw [hl₃]
      exact Nat.le_trans (Nat.le_of_eq (Array.size_pop.trans (by omega))) hle
    · have hlt : j < i := hcount ▸ (Array.getElem?_eq_some_iff.mp he').1
      obtain ⟨e₂, he₂, hon, _⟩ := hsteady.entry j e' (by
        rw [hentry₁, if_neg (Nat.ne_of_lt hlt), he'])
      exact ⟨e₂, by rw [hentry₃, if_pos hlt, he₂], hon⟩
  refine ⟨hmoves, fun hs j e₂ he₂ => ?_⟩
  have hready₁ : site.Ready 0 ws₁ := ⟨h.shown.beside hb₁, by rw [hl₁, hb₁.stampOf]; exact h.current,
    Nat.zero_le _⟩
  have hready₂ := hready₁.steady hsteady
  have hready₃ := h.moves hmoves
  rw [hready₂.entryNow?] at he₂
  rw [hready₁.entryNow?, hready₁.shown.fieldOf?, hentry₁]
  have hlt : j < i + 1 := hsize₂ ▸ (Array.getElem?_eq_some_iff.mp he₂).1
  by_cases hj : j = i
  · subst hj
    rw [if_pos rfl]
    refine ⟨fun _ htold => ?_, fun hsome => ?_⟩
    · obtain ⟨f, hf, hsome⟩ := htold
      rw [hfield] at hf
      cases hf
      rw [hformula] at hsome
      cases hsome
    · obtain ⟨e₂', he₂', _, hsame⟩ := hsteady.entry j e (by rw [hentry₁, if_pos rfl])
      rw [he₂] at he₂'
      cases he₂'
      rw [hsame (Nat.le_refl _), hpreview] at hsome
      cases hsome
  · rw [if_neg hj]
    have hs := hs j e₂ (by rw [hready₃.entryNow?, hentry₃, if_pos (by omega), he₂])
    rw [h.entryNow?, h.shown.fieldOf?] at hs
    exact hs

/-- The stage after a field, given the one before it. -/
def passed (site : Site) (s : Stage) (f : FieldFacts) : Except Fault Stage :=
  if f.present && site.struct.isPacked && !f.field.isComputed then do
    let total ← f.total site
    pure { s with facts := s.facts ++ [f], cursor := s.cursor + total }
  else pure { s with facts := s.facts ++ [f] }

/-- **The next stage** of the reference. -/
theorem stageAt_succ {size : Option (Stamp × Int64)} {k : Nat} (hk : site.stageAt size k = .ok s)
    {field : String × Field} (hfield : site.struct.field? k = some field) :
    site.stageAt size (k + 1) = (do
      let condition ← site.conditionValue s.facts k field.2
      site.passed s (site.factsOf s.facts k field.2 (condition ≠ 0) s.cursor)) := by
  unfold stageAt at hk ⊢
  cases hlayOut : site.layOut k with
  | error fault =>
    rw [hlayOut] at hk
    cases hk
  | ok p =>
    obtain ⟨facts, cursor⟩ := p
    rw [hlayOut] at hk
    cases hk
    rw [layOut_succ hlayOut hfield]
    cases site.conditionValue facts k field.2 with
    | error fault => rfl
    | ok condition =>
      generalize hf : site.factsOf facts k field.2 (decide (condition ≠ 0)) cursor = f
      have hpresent : f.present = decide (condition ≠ 0) := by rw [← hf]; rfl
      have hsame : f.field = field.2 := by rw [← hf]; rfl
      dsimp only [bind, Except.bind]
      rw [hf, passed, hpresent, hsame]
      by_cases htakes : (decide (condition ≠ 0) && site.struct.isPacked && !field.2.isComputed) = true
      · rw [if_pos htakes, if_pos htakes]
        cases f.total site <;> rfl
      · rw [if_neg htakes, if_neg htakes]
        rfl

end

end Site

namespace Resolver.Faithful

section

variable {site : Site} {s : Stage} {ws : Workspace} {i : Nat} {f : FieldFacts}
  {field : String × Field} {resolver : Resolver}

/-- **The condition of a field** sees the fields before it. -/
theorem conditionValue (h : resolver.Faithful site) (hready : site.Ready i ws)
    (hfield : site.struct.field? i = some field) (known : Prop)
    (hk : known → s.facts.length = i ∧ site.AtStage s ws) :
    site.Yields i i s known True ws (resolver.conditionValue site.ref i field.2)
      ⟨fun _ a _ => known → ∀ x, a = some x → site.conditionValue s.facts i field.2 = .ok x,
        fun result _ => result = some <$> site.conditionValue s.facts i field.2⟩ := by
  unfold Resolver.conditionValue Site.conditionValue
  cases hcondition : field.2.condition with
  | none =>
    refine .pure (fun _ x hx => ?_) (fun hknown => (hk hknown).2) fun _ _ => rfl
    cases hx
    rfl
  | some condition =>
    have hmem : condition ∈ field.2.formulas := by
      rw [Field.formulas, hcondition]
      exact List.mem_append_left _ (List.mem_append_right _ (List.mem_singleton_self _))
    have hbefore (j : Nat) : (some i).any (· ≤ j) = true ∨ j < i := by
      by_cases hj : j < i
      · exact .inr hj
      · exact .inl (decide_eq_true (Nat.not_lt.mp hj))
    have hevaluate : site.Follows (site.Sees s s.facts (some i) condition.expr.names) i i s
        (resolver.evaluate (.upToField site.ref i) condition.expr)
        (.equal (some <$> site.evaluate s.facts [] (some i) condition.expr)) :=
      h.evaluate (h.flat.simple hfield _ hmem) fun _ _ j _ => hbefore j
    refine ((hevaluate.yields hready).weaken (fun hknown => ⟨?_, (hk hknown).2⟩)
      fun _ => id).unlessCutShort.mono id (fun _ => id) (fun a ws' htold hknown x hx => ?_)
      fun _ _ _ _ => id
    · intro name _ j _
      refine (hbefore j).imp_right fun hj => ?_
      have hlt : j < s.facts.length := (hk hknown).1.symm ▸ hj
      exact ⟨_, List.getElem?_eq_getElem hlt, List.getElem?_eq_getElem hlt⟩
    · obtain ⟨_, hvalue, hsome⟩ := Site.of_map_some_eq (Eq.symm (htold.2 hknown x hx))
      cases hsome
      exact hvalue

theorem preview_firstEntry (d : StructDef) (field : Field) (present : Bool) (cursor : Int64) :
    (firstEntry d field present cursor).preview = none := by
  unfold firstEntry
  split
  · rfl
  · split <;> rfl

/-- **The rest of laying out a field**, once it is known whether it is present. If the room that it
takes up is not known, it is taken back. -/
theorem layOutEntry (h : resolver.Faithful site) (hready : site.Ready i ws)
    (hcount : (ws.layoutOf site.ref).entries.size = i) (hfield : site.struct.field? i = some field)
    (present : Bool) (cursor : Int64) (isLazy : Bool) (known : Prop)
    (hk : known → s.measuring = none ∧ s.facts.length = i ∧ s.cursor = cursor ∧
      f = site.factsOf s.facts i field.2 present cursor ∧
      site.AtStage { s with measuring := some i } ws) :
    site.Leads (Workspace.Moves site.ref)
      (fun ws' => ∃ s', (s' = s ∨ site.passed s f = .ok s') ∧ site.AtStage s' ws') known True ws
      (do
        modifyLayout site.ref (·.push (firstEntry site.struct field.2 present cursor))
        let passed ← resolver.passField site.ref site.struct i field.2 present isLazy
        modifyLayout site.ref (·.setMeasuring none)
        pure passed)
      ⟨fun _ _ _ => True, fun result ws' =>
        match result with
        | .ok passed => passed = true ∧ ∃ s', site.passed s f = .ok s' ∧ site.AtStage s' ws'
        | .error fault => site.passed s f = .error fault⟩ := by
  have hpush := Workspace.layoutOf_modifyLayout ws site.ref
    (·.push (firstEntry site.struct field.2 present cursor))
  have hmoves : ws.Moves site.ref (ws.modifyLayout site.ref
      (·.push (firstEntry site.struct field.2 present cursor))) := by
    refine .of_entries (.modifyLayout _) (Nat.le_refl _) (by rw [hpush]; rfl) (by rw [hpush]; rfl)
      (fun n hn _ => ?_) fun j e he => ⟨e, ?_, .refl e⟩
    · have hle := hn site.struct hready.shown.struct
      have hlt : i < site.struct.fieldCount := (List.getElem?_eq_some_iff.mp hfield).1
      rw [hpush]
      exact Nat.le_trans (Nat.le_of_eq ((Array.size_push _).trans (by rw [hcount])))
        (Nat.le_trans (Nat.succ_le_of_lt hlt) hle)
    · have hlt := (Array.getElem?_eq_some_iff.mp he).1
      rw [Workspace.entryOf?, hpush]
      show ((ws.layoutOf site.ref).entries.push _)[j]? = some e
      rw [Array.getElem?_push, if_neg (by omega)]
      exact he
  have hstage (hknown : known) : site.AtStage { s with facts := s.facts ++ [f], measuring := some i }
      (ws.modifyLayout site.ref (·.push (firstEntry site.struct field.2 present cursor))) := by
    obtain ⟨_, hlength, hcursor, hf, hstage⟩ := hk hknown
    refine hstage.push ⟨⟨field.1, ?_⟩, ?_⟩ ?_
    · rw [hlength, hfield, hf]
      rfl
    · show f = site.factsOf s.facts s.facts.length f.field f.present f.origin
      rw [hlength, hf]
      rfl
    · rw [hf]
      exact Site.agrees_firstEntry _ _ _ _
  have hready' : site.Ready (i + 1) (ws.modifyLayout site.ref
      (·.push (firstEntry site.struct field.2 present cursor))) := by
    refine ⟨hready.shown.beside hmoves.toBeside, ?_, ?_⟩
    · rw [hpush, hmoves.stampOf]
      exact hready.current
    · rw [hpush]
      exact Nat.le_of_eq (by rw [← hcount]; exact (Array.size_push _).symm)
  have hmeasured {ws' : Workspace} : ws'.Moves site.ref
      (ws'.modifyLayout site.ref (·.setMeasuring none)) :=
    .modifyLayout fun _ => ⟨rfl, rfl, rfl⟩
  have hend (hknown : known) {facts : List FieldFacts} {cursor : Int64} {ws' : Workspace}
      (hstage : site.AtStage { s with facts, cursor, measuring := some i } ws') :
      site.AtStage { s with facts, cursor } (ws'.modifyLayout site.ref (·.setMeasuring none)) := by
    show site.AtStage ⟨facts, cursor, s.measuring, s.size⟩ _
    rw [(hk hknown).1]
    exact hstage.setMeasuring none
  unfold Resolver.passField
  by_cases htakes : (present && site.struct.isPacked && !field.2.isComputed) = true
  · rw [if_pos htakes]
    have htotal := (h.totalSize (s := { s with facts := s.facts ++ [f], measuring := some i })
      (f := f) hfield isLazy).yields hready'
    have hgiven (hknown : known) : (s.facts ++ [f])[i]? = some f := by
      obtain ⟨_, hlength, _⟩ := hk hknown
      rw [← hlength, List.getElem?_append_right (Nat.le_refl _), Nat.sub_self]
      rfl
    have hnext (hknown : known) : site.passed s f = (do
        let total ← f.total site
        pure { s with facts := s.facts ++ [f], cursor := s.cursor + total }) := by
      obtain ⟨_, _, _, hf, _⟩ := hk hknown
      rw [Site.passed, hf]
      exact if_pos htakes
    obtain ⟨hsteady, htold, hspared, hresult⟩ := htotal
    cases hrun : (resolver.totalSize site.ref i isLazy).runIn
        (ws.modifyLayout site.ref (·.push (firstEntry site.struct field.2 present cursor))) with
    | mk result wsD =>
      rw [hrun] at hsteady htold hspared hresult
      dsimp only at hsteady htold hspared hresult
      have hstart := Workspace.Course.trans site.ref hmoves hsteady.moves
      cases result with
      | error fault =>
        refine ⟨?_, ?_, ?_, ?_⟩ <;>
          simp only [ByteAtlas.modifyLayout, Resolve.runIn_bind, Resolve.runIn_change, hrun]
        · exact hstart
        · exact fun _ hok => by cases hok
        · exact fun _ _ _ hok => by cases hok
        · intro hknown _ hr
          obtain ⟨href, _⟩ := hresult ⟨hgiven hknown, hstage hknown⟩ trivial hr
          refine ⟨?_, fun _ hok => by cases hok⟩
          rw [hnext hknown, Site.of_map_some_eq_error (Eq.symm href)]
          rfl
      | ok total =>
        cases total with
        | none =>
          rw [Bool.and_eq_true, Bool.not_eq_true', Field.isComputed, Bool.or_eq_false_iff] at htakes
          have hformula := Option.not_isSome_iff_eq_none.mp (Bool.eq_false_iff.mp htakes.2.2)
          obtain ⟨hback, hspares⟩ := hready.takenBack hcount hfield hformula
            (preview_firstEntry _ _ _ _) rfl hsteady rfl
          refine ⟨?_, ?_, ?_, ?_⟩ <;>
            simp only [ByteAtlas.modifyLayout, Resolve.runIn_bind, Resolve.runIn_change,
              Resolve.runIn_pure, hrun]
          · exact hback
          · exact fun _ _ => trivial
          · intro hknown hs _ _
            have hstage₂ := hspared ⟨hgiven hknown, hstage hknown⟩ (hspares hs) none rfl
            have hpopped := Site.AtStage.pop (s := { s with measuring := some i }) hstage₂
            exact ⟨s, .inl rfl, hend hknown hpopped⟩
          · intro hknown _ hr
            obtain ⟨href, _⟩ := hresult ⟨hgiven hknown, hstage hknown⟩ trivial hr
            obtain ⟨_, _, hsome⟩ := Site.of_map_some_eq (Eq.symm href)
            cases hsome
        | some total =>
          have hadvance : wsD.Moves site.ref (wsD.modifyLayout site.ref (·.advance total)) :=
            .modifyLayout fun _ => ⟨rfl, rfl, rfl⟩
          have hlast := Workspace.Course.trans site.ref hadvance hmeasured
          have hdone (hknown : known)
              (hstage₂ : site.AtStage { s with facts := s.facts ++ [f], measuring := some i } wsD) :
              site.passed s f =
                  .ok { s with facts := s.facts ++ [f], cursor := s.cursor + total } ∧
                site.AtStage { s with facts := s.facts ++ [f], cursor := s.cursor + total }
                  ((wsD.modifyLayout site.ref (·.advance total)).modifyLayout site.ref
                    (·.setMeasuring none)) := by
            obtain ⟨e, he, htotal⟩ := htold (some total) rfl total rfl
            have htrue := (hstage₂.agrees i f e (hgiven hknown) he).total total htotal
            refine ⟨by rw [hnext hknown, htrue]; rfl, hend hknown (hstage₂.advance total)⟩
          refine ⟨?_, ?_, ?_, ?_⟩ <;>
            simp only [ByteAtlas.modifyLayout, Resolve.runIn_bind, Resolve.runIn_change,
              Resolve.runIn_pure, hrun]
          · exact Workspace.Course.trans site.ref hstart hlast
          · exact fun _ _ => trivial
          · intro hknown hs _ _
            have hspares := (hs.rest hmoves.onward).first
              (Workspace.Course.onward (r := site.ref) hlast)
            have hstage₂ := hspared ⟨hgiven hknown, hstage hknown⟩ hspares (some total) rfl
            exact ⟨_, .inr (hdone hknown hstage₂).1, (hdone hknown hstage₂).2⟩
          · intro hknown _ hr
            have hstage₂ := (hresult ⟨hgiven hknown, hstage hknown⟩ trivial hr).2 (some total) rfl
            obtain ⟨hpassed, hstage₃⟩ := hdone hknown hstage₂
            exact ⟨⟨trivial, _, hpassed, hstage₃⟩, fun _ _ => ⟨_, .inr hpassed, hstage₃⟩⟩
  · rw [if_neg htakes]
    have hnext (hknown : known) :
        site.passed s f = .ok { s with facts := s.facts ++ [f] } := by
      obtain ⟨_, _, _, hf, _⟩ := hk hknown
      rw [Site.passed, hf]
      exact if_neg htakes
    refine .change hmoves rfl (fun hknown _ => hstage hknown) ?_
    rw [pure_bind]
    refine .change hmeasured rfl (fun hk' _ => hend hk'.1 hk'.2) (.pure trivial ?_ ?_)
    · exact fun hk' => ⟨_, .inr (hnext hk'.1.1), hk'.2⟩
    · exact fun hk' _ => ⟨rfl, _, hnext hk'.1.1, hk'.2⟩

/-- **Laying out one more field** leads to the next stage. -/
theorem layOutField (h : resolver.Faithful site) {k : Nat} (hready : site.Ready k ws)
    (hcount : (ws.layoutOf site.ref).entries.size = k) (isLazy : Bool) :
    site.Leads (Workspace.Moves site.ref) (fun ws' => ∃ k', site.LaidOut k' ws')
      (site.LaidOut k ws) True ws (resolver.layOutField site.ref site.struct isLazy)
      ⟨fun _ _ _ => True, fun result ws' => k < site.struct.fieldCount →
        match result with
        | .ok passed => passed = true ∧ site.LaidOut (k + 1) ws'
        | .error fault => site.layOut (k + 1) = .error fault⟩ := by
  obtain ⟨s, hs⟩ := site.exists_stageAt (ws.layoutOf site.ref).size k
  have hlaid (hknown : site.LaidOut k ws) :
      site.stageAt (ws.layoutOf site.ref).size k = .ok s ∧ site.AtStage s ws := by
    obtain ⟨_, s', hs', hstage⟩ := hknown
    cases hs s' hs'
    exact ⟨hs', hstage⟩
  have hback (hknown : site.LaidOut k ws) {ws' : Workspace} (hstage : site.AtStage s ws') :
      site.LaidOut k ws' := by
    refine ⟨hknown.1, s, ?_, hstage⟩
    rw [hstage.size, ← (hlaid hknown).2.size]
    exact (hlaid hknown).1
  unfold Resolver.layOutField
  refine .ask ?_
  dsimp only
  rw [hcount]
  cases hfield : site.struct.field? k with
  | none =>
    refine .pure trivial (fun hknown => ⟨k, hknown⟩) fun _ _ hlt => ?_
    exact absurd hlt (Nat.not_lt.mpr (StructDef.field?_eq_none_iff.mp hfield))
  | some field =>
    have hlt : k < site.struct.fieldCount := (List.getElem?_eq_some_iff.mp hfield).1
    have hnone (hknown : site.LaidOut k ws) : s.measuring = none ∧ s.facts.length = k := by
      refine ⟨(Site.of_stageAt_eq_ok (hlaid hknown).1).1, ?_⟩
      rw [← (hlaid hknown).2.count, hcount]
    have hidle (hknown : site.LaidOut k ws) : ({ s with measuring := none } : Stage) = s := by
      rw [← (hnone hknown).1]
    have hmeasuring {ws' : Workspace} {j : Option Nat} : ws'.Moves site.ref
        (ws'.modifyLayout site.ref (·.setMeasuring j)) :=
      .modifyLayout fun _ => ⟨rfl, rfl, rfl⟩
    refine .change hmeasuring rfl (fun hknown _ => (hlaid hknown).2.setMeasuring (some k)) ?_
    have hl₁ := Workspace.layoutOf_modifyLayout ws site.ref (·.setMeasuring (some k))
    have hready₁ : site.Ready k (ws.modifyLayout site.ref (·.setMeasuring (some k))) := by
      refine ⟨hready.shown.beside (.modifyLayout _), ?_, ?_⟩ <;> rw [hl₁]
      · exact hready.current
      · exact hready.count
    have hcondition := h.conditionValue (s := { s with measuring := some k }) hready₁ hfield
      (site.LaidOut k ws ∧ site.AtStage { s with measuring := some k }
        (ws.modifyLayout site.ref (·.setMeasuring (some k)))) fun hk => ⟨(hnone hk.1).2, hk.2⟩
    refine .call (hcondition.widen (fun _ => Workspace.Steady.moves) fun _ _ _ hstage => hstage)
      (fun condition ws₂ _ ⟨hsteady, htold⟩ => ?_) fun fault _ hk _ href _ => ?_
    · cases condition with
      | none =>
        refine .change hmeasuring rfl (fun hk _ => hk.2.setMeasuring none)
          (.pure trivial (fun hk => ⟨k, hback hk.1.1.1 ?_⟩) fun _ haffirms => ?_)
        · exact hidle hk.1.1.1 ▸ hk.2
        · obtain ⟨_, _, hsome⟩ := Site.of_map_some_eq (Eq.symm haffirms.2)
          cases hsome
      | some condition =>
        have hcount₂ : (ws₂.layoutOf site.ref).entries.size = k := by
          rw [hsteady.count, hl₁]
          exact hcount
        have hnext (hk : site.LaidOut k ws ∧ site.AtStage { s with measuring := some k }
            (ws.modifyLayout site.ref (·.setMeasuring (some k)))) :
            site.stageAt (ws.layoutOf site.ref).size (k + 1) = site.passed s
              (site.factsOf s.facts k field.2 (condition ≠ 0) (ws.layoutOf site.ref).cursor) := by
          rw [Site.stageAt_succ (hlaid hk.1).1 hfield, htold hk condition rfl, (hlaid hk.1).2.cursor]
          rfl
        have hlaid' {s' : Stage} {ws' : Workspace}
            (hs' : site.stageAt (ws.layoutOf site.ref).size (k + 1) = .ok s')
            (hstage : site.AtStage s' ws') : site.LaidOut (k + 1) ws' := by
          refine ⟨hlt, s', ?_, hstage⟩
          rw [hstage.size, (Site.of_stageAt_eq_ok hs').2.1]
          exact hs'
        have hentry := h.layOutEntry (s := s) (hready₁.steady hsteady) hcount₂ hfield
          (condition ≠ 0) (ws.layoutOf site.ref).cursor isLazy
          ((site.LaidOut k ws ∧ site.AtStage { s with measuring := some k }
            (ws.modifyLayout site.ref (·.setMeasuring (some k)))) ∧
              site.AtStage { s with measuring := some k } ws₂)
          fun hk => ⟨(hnone hk.1.1).1, (hnone hk.1.1).2, (hlaid hk.1.1).2.cursor.symm, rfl, hk.2⟩
        refine (hentry.widen (fun _ => id) fun ws' _ hk hkept => ?_).mono id (fun _ _ => trivial)
          (fun _ _ _ => trivial) fun result ws' hk _ haffirms _ => ?_
        · obtain ⟨s', rfl | hs', hstage⟩ := hkept
          · exact ⟨k, hback hk.1.1 hstage⟩
          · exact ⟨k + 1, hlaid' ((hnext hk.1).trans hs') hstage⟩
        · cases result with
          | ok passed =>
            obtain ⟨hpassed, s', hs', hstage⟩ := haffirms
            exact ⟨hpassed, hlaid' ((hnext hk.1).trans hs') hstage⟩
          | error fault => exact Site.of_stageAt_eq_error ((hnext hk.1).trans haffirms)
    · have href : .error fault = some <$> site.conditionValue s.facts k field.2 := href
      have hnext := Site.stageAt_succ (hlaid hk.1).1 hfield
      rw [Site.of_map_some_eq_error href.symm] at hnext
      exact Site.of_stageAt_eq_error hnext

/-! ## 4. All fields -/

/-- **Laying out more fields**, as long as it is possible. -/
theorem layOutFields (h : resolver.Faithful site) (isLazy : Bool) (left : Nat) :
    ∀ {ws : Workspace} {k : Nat}, site.Ready k ws → (ws.layoutOf site.ref).entries.size = k →
      site.Leads (Workspace.Moves site.ref) (fun ws' => ∃ k', site.LaidOut k' ws')
        (site.LaidOut k ws) True ws (resolver.layOutFields site.ref site.struct isLazy left)
        ⟨fun _ _ _ => True, fun result ws' => k + left ≤ site.struct.fieldCount →
          match result with
          | .ok _ => site.LaidOut (k + left) ws'
          | .error fault => site.layOut (k + left) = .error fault⟩ := by
  induction left with
  | zero => exact fun _ _ => .pure trivial (fun hk => ⟨_, hk⟩) fun hk _ _ => hk
  | succ left ih =>
    intro ws k hready hcount
    unfold Resolver.layOutFields
    refine .call (h.layOutField hready hcount isLazy) (fun passed ws₁ hmoves _ => ?_)
      fun fault ws₁ _ _ hfault hle => ?_
    · have hready₁ : site.Ready (ws₁.layoutOf site.ref).entries.size ws₁ :=
        ⟨(hready.moves hmoves).shown, (hready.moves hmoves).current, Nat.le_refl _⟩
      cases passed with
      | false =>
        refine .pure trivial (fun hk => hk.2) fun _ haffirms hle => ?_
        exact nomatch (haffirms.2 (by omega)).1
      | true =>
        refine (ih hready₁ rfl).mono (fun hk => ?_) (fun _ _ => trivial) (fun _ _ _ => trivial)
          fun result ws' _ haffirms hnext hle => ?_
        · obtain ⟨k', hlaid⟩ := hk.2
          rw [hlaid.count]
          exact hlaid
        · rw [(haffirms.2 (by omega)).2.count, Nat.add_right_comm] at hnext
          exact hnext hle
    · have hfault : site.layOut (k + 1) = .error fault := hfault (by omega)
      show site.layOut (k + (left + 1)) = .error fault
      rw [Nat.add_comm left, ← Nat.add_assoc]
      exact Site.layOut_add_eq_error hfault left

/-- **Laying out the first fields**, from those on that are laid out. -/
theorem layOutFirst (h : resolver.Faithful site) (hready : site.Ready 0 ws) {upTo : Nat}
    (hle : (ws.layoutOf site.ref).entries.size ≤ upTo) (isLazy : Bool) :
    site.Leads (Workspace.Moves site.ref) (fun ws' => ∃ k', site.LaidOut k' ws')
      (∃ k, site.LaidOut k ws) True ws
      (resolver.layOutFirst site.ref site.struct upTo isLazy)
      ⟨fun _ _ _ => True, fun result ws' => upTo ≤ site.struct.fieldCount →
        match result with
        | .ok _ => site.LaidOut upTo ws'
        | .error fault => site.layOut upTo = .error fault⟩ := by
  unfold Resolver.layOutFirst
  refine .ask ?_
  have hfields := h.layOutFields isLazy (upTo - (ws.layoutOf site.ref).entries.size)
    ⟨hready.shown, hready.current, Nat.le_refl _⟩ rfl
  rw [Nat.add_sub_cancel' hle] at hfields
  refine hfields.weaken (fun ⟨k, hlaid⟩ => ?_) fun _ => id
  rw [hlaid.count]
  exact hlaid

end

end Resolver.Faithful

/-! ## 5. Frames -/

/-- **A resolver is faithful** with any number of frames left. -/
theorem Resolver.faithful_within {site : Site} (hflat : site.struct.Flat) (frames : Nat) :
    (Resolver.within frames).Faithful site := by
  induction frames with
  | zero =>
    refine ⟨hflat, fun _ _ => ⟨fun _ => .refused rfl ?_ (fun _ _ => trivial) fun hk => ?_⟩⟩
    · exact .of_layoutOf ⟨rfl, rfl, rfl, rfl, fun _ _ => rfl⟩ (Nat.le_succ _) rfl
    · exact hk.2.of_layoutOf rfl rfl
  | succ frames ih => exact ⟨hflat, fun hquery hwithin => (ih.evaluateIn _ hquery hwithin).inFrame⟩

end ByteAtlas
