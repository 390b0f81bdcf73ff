import ByteAtlas.Proofs.Filters.Views
import ByteAtlas.Resolve.Query

/-!
# Questions about fields

Each question about a field of a flat instance is answered as it is settled, if no frame is refused
and the frames do so in turn (`Resolver.Settled`).
-/

namespace ByteAtlas

theorem Field.mem_placingFormulas_of_value {field : Field} {formula : Formula}
    (h : field.value = some formula) : formula ∈ field.placingFormulas := by
  simp [Field.placingFormulas, h]

theorem Field.mem_placingFormulas_of_offset {field : Field} {formula : Formula}
    (h : field.offsetFormula = some formula) : formula ∈ field.placingFormulas := by
  simp [Field.placingFormulas, h]

/-- **Whether an expression sees** no field but such as are laid out, or never will be, and of each
of them what is settled. -/
def Site.Covers (site : Site) (v : View) (found : Findings) (scope : Scope) (names : List String)
    (ws : Workspace) : Prop :=
  ∀ name ∈ names, ∀ i, site.struct.fieldIndex? name = some i →
    scope.hides site.ref i = true ∨ (site.Due v i ws ∧ found[i]? = v.fields[i]?)

/-- **Whether the frames of a resolver answer what is settled.** -/
structure Resolver.Settled (resolver : Resolver) (site : Site) (v : View) : Prop where
  flat : site.struct.Flat
  layOut : ∀ {ws : Workspace} {upTo : Nat}, site.SeenIn ws → upTo ≤ site.struct.fieldCount →
    site.Answers v (site.Stamped ws ∧ (site.now ws).measuring = none) ws
      (resolver.layOut site.ref site.struct upTo false)
      fun _ ws' => upTo ≤ (site.now ws').entries.size
  evaluate : ∀ {ws : Workspace} {scope : Scope} {expr : Expr} (found : Findings),
    site.SeenIn ws → scope.root = site.ref → expr.hasQuery = false →
    site.Answers v (site.Covers v found scope expr.names ws) ws (resolver.evaluate scope expr)
      fun a _ => a = some (found.evaluate site scope expr)

namespace Resolver.Settled

variable {resolver : Resolver} {site : Site} {v : View} (h : resolver.Settled site v)
  {ws : Workspace} {i : Nat} {field : String × Field} (hs : site.SeenIn ws)
  (hfield : site.struct.field? i = some field)
include h hs hfield

/-! ## 1. Offsets -/

omit hfield in
/-- **The first fields are laid out**, or laying out has been broken off. -/
theorem enumerateFirst {upTo : Nat} (hle : upTo ≤ site.struct.fieldCount) :
    site.Answers v True ws (resolver.enumerate site.ref upTo false) fun _ ws' =>
      site.Stamped ws' ∧ (upTo ≤ (site.now ws').entries.size ∨ (site.now ws').measuring.isSome) := by
  have hvalidate : site.Answers v True ws (validateLayout site.ref site.struct)
      fun _ ws₁ => site.Stamped ws₁ := by
    obtain ⟨hstamped, hnow⟩ : site.Stamped _ ∧ site.now _ = _ := Site.now_validate ws
    refine .change (.modifyLayout _) rfl fun ⟨hk, _⟩ =>
      ⟨hk.of_now (hs.beside (.modifyLayout _)) hnow rfl, .of_now rfl (fun _ => hstamped) ?_ ?_ ?_,
        hstamped⟩ <;> rw [hnow]
  unfold Resolver.enumerate
  refine .ask ?_
  rw [hs.struct]
  dsimp only
  refine .bind hs hvalidate fun _ ws₁ hs₁ => .ask ?_
  rw [Nat.min_eq_left hle]
  split
  · rename_i hdone
    refine .pure fun _ ⟨_, _, hstamped⟩ => ⟨hstamped, ?_⟩
    rwa [← Site.now_of_stamped hstamped, Bool.or_eq_true, decide_eq_true_iff] at hdone
  · rename_i hopen
    refine (h.layOut hs₁ hle).mono (fun _ ⟨_, _, hstamped⟩ => ⟨hstamped, ?_⟩)
      fun _ ws' _ ⟨_, _, hstamped⟩ _ ho hle => ⟨ho.stamped hstamped, .inl hle⟩
    rw [← Site.now_of_stamped hstamped, Bool.or_eq_true, not_or] at hopen
    exact Option.not_isSome_iff_eq_none.mp hopen.2

theorem enumerate : site.Answers v (site.Due v i ws) ws
    (resolver.enumerate site.ref (i + 1) false) fun _ ws' => site.Laid v i ws' := by
  refine (h.enumerateFirst hs (Nat.succ_le_of_lt (Layout.lt_fieldCount hfield))).mono
    (fun _ _ => trivial) fun _ ws' _ hdue _ ho ⟨hstamped, hthere⟩ => ⟨hstamped, ?_⟩
  rcases hthere with hthere | hbroken
  · exact .inl hthere
  · rcases hdue.onward ho with hdue | hdue | hdue
    · exact .inl hdue
    · rw [hdue] at hbroken
      cases hbroken
    · exact .inr hdue

omit hfield in
/-- The value of an expression for the place or the value of a field sees the fields before it. -/
theorem evaluatePlacing (hfield : site.struct.field? i = some field) {formula : Formula}
    (hformula : formula ∈ field.2.placingFormulas) (constants : List (String × Int64)) :
    site.Answers v (site.Laid v i ws ∧ ∃ e, ws.entryOf? site.ref i = some e) ws
      (resolver.evaluate (.withConstants site.ref constants) formula.expr) fun a _ =>
        a = some ((v.upTo i).evaluate site (.withConstants site.ref constants) formula.expr) := by
  have hsimple : formula.expr.hasQuery = false :=
    h.flat.simple hfield formula (List.mem_append_left _ (List.mem_append_left _ hformula))
  refine (h.evaluate (v.upTo i) hs rfl hsimple).mono (fun _ ⟨hlaid, e, he⟩ => ?_)
    fun _ _ _ _ _ _ => id
  intro name hname j hj
  have hlt := h.flat.backward hfield formula hformula name hname j hj
  exact .inr ⟨(hlaid.of_entry he (Nat.le_of_lt hlt)).due, v.getElem?_upTo hlt⟩

/-- **Where a field starts.** -/
theorem fieldOffset : site.Answers v (site.Due v i ws) ws (resolver.fieldOffset site.ref i false)
    fun a ws' => site.Laid v i ws' ∧ a = v.fields[i]?.bind Finding.offset := by
  unfold Resolver.fieldOffset
  refine .bind hs (h.enumerate hs hfield) fun _ ws₁ hs₁ => .ask ?_
  cases he : ws₁.entryOf? site.ref i with
  | none =>
    refine .pure fun _ ⟨_, _, hlaid⟩ => ⟨hlaid, ?_⟩
    rw [Site.Knows.none_of_laid hlaid he]
    rfl
  | some e =>
    dsimp only
    split
    · rename_i hknown
      refine .pure fun hk ⟨_, _, hlaid⟩ => ⟨hlaid, ?_⟩
      rw [hk.entry hlaid.stamped he hfield]
      rw [Bool.or_false] at hknown
      obtain ⟨offset, hoffset⟩ := Option.isSome_iff_exists.mp hknown
      show e.offset = e.offset.or _
      rw [hoffset]
      rfl
    · rename_i hunknown
      rw [Bool.or_false] at hunknown
      have hnone : e.offset = none := Option.not_isSome_iff_eq_none.mp hunknown
      have hoffset (hk : site.Knows v ws₁) (hlaid : site.Laid v i ws₁) :
          v.fields[i]?.bind Finding.offset = (v.upTo i).offsetOf site field.2 e.origin := by
        rw [hk.entry hlaid.stamped he hfield]
        show e.offset.or _ = _
        rw [hnone, Option.none_or]
      refine .ask ?_
      rw [hs₁.fieldOf?, hfield, Option.bind_some]
      unfold Findings.offsetOf at hoffset
      cases hformula : field.2.offsetFormula with
      | none =>
        refine .pure fun hk ⟨_, _, hlaid⟩ => ⟨hlaid, ?_⟩
        rw [hoffset hk hlaid, hformula]
        rfl
      | some formula =>
        have hmem := Field.mem_placingFormulas_of_offset hformula
        refine .bind hs₁ (.unlessCutShort ((h.evaluatePlacing hs₁ hfield hmem _).mono
          (fun _ ⟨_, _, hlaid⟩ => ⟨hlaid, e, he⟩) fun _ _ _ _ _ _ => id)) fun a ws₂ hs₂ => ?_
        cases a with
        | none => exact .pure fun _ ⟨_, _, hsome⟩ => nomatch hsome
        | some offset =>
          have hsettled (hk : site.Knows v ws₁) (hlaid : site.Laid v i ws₁)
              (hvalue : some offset = some ((v.upTo i).evaluate site
                (.withConstants site.ref [indexConstant 0, originConstant e.origin])
                formula.expr)) :
              v.fields[i]?.bind Finding.offset = some offset := by
            rw [hoffset hk hlaid, hformula, Option.map_some, hvalue]
          refine .bind hs₂ (.modifyEntry (fun ⟨⟨_, _, _, hlaid⟩, ho, _⟩ => ho.stamped hlaid.stamped)
            fun hk₂ ⟨⟨hk₁, _, _, hlaid⟩, ho, hvalue⟩ {e' f'} he' hfield' => ?_)
            fun _ _ _ => .pure fun _ ⟨⟨_, ⟨hk₁, _, _, hlaid⟩, ho, hvalue⟩, ho', _⟩ =>
              ⟨hlaid.onward (ho.trans ho'), (hsettled hk₁ hlaid hvalue).symm⟩
          have hfound := hsettled hk₁ hlaid hvalue
          rw [hk₂.entry (ho.stamped hlaid.stamped) he' hfield'] at hfound
          exact Findings.ofEntry_setOffset hfound

end Resolver.Settled

/-! ## 2. Elements -/

/-- **Whether the elements that are wanted are there**, as far as there are any. -/
structure Site.IsRead (site : Site) (v : View) (i : Nat) (field : Field) (wanted : Wanted)
    (enough : Bool) (ws : Workspace) : Prop where
  first : ∀ {n : Nat}, wanted = .first (n + 1) →
    enough = (v.fields[i]?.bind fun f => f.element n).isSome ∧
      ((ws.entryOf? site.ref i).bind fun e => e.values[n]?) =
        v.fields[i]?.bind fun f => f.element n
  all : wanted = .throughZero → field.value = none → field.untilZero = true → ∀ {f : Finding},
    v.fields[i]? = some f → ∃ e, ws.entryOf? site.ref i = some e ∧ f.length = e.values.size

/-- Where nothing is settled, nothing is read. -/
theorem Site.IsRead.of_none {site : Site} {v : View} {i : Nat} {field : Field} {wanted : Wanted}
    {ws : Workspace} (hf : v.fields[i]? = none) (he : ws.entryOf? site.ref i = none) :
    site.IsRead v i field wanted false ws := by
  refine ⟨fun _ => ?_, fun _ _ _ f hsome => ?_⟩
  · rw [hf, he]
    exact ⟨rfl, rfl⟩
  · rw [hf] at hsome
    cases hsome

/-- A question for the count of a field that answers what is settled. -/
def Site.Counts (site : Site) (v : View) (i : Nat) (count : Resolve (Option Int64)) : Prop :=
  ∀ {ws : Workspace}, site.SeenIn ws → site.Answers v (site.Due v i ws) ws count
    fun a ws' => site.Laid v i ws' ∧ a = v.fields[i]?.map Finding.count

namespace Resolver.Settled

variable {resolver : Resolver} {site : Site} {v : View} (h : resolver.Settled site v)
  {ws : Workspace} {i : Nat} {field : String × Field} (hs : site.SeenIn ws)
  (hfield : site.struct.field? i = some field)
include h hs hfield

/-- The element that an expression gives. -/
theorem readFormula {e : FieldEntry} {formula : Formula} {wanted : Wanted}
    (hvalue : field.2.value = some formula) (he : ws.entryOf? site.ref i = some e)
    (hwanted : wanted.metBy e.values.size = false) :
    site.Answers v (site.Laid v i ws) ws (resolver.readFormula site.ref i e formula wanted)
      fun a ws' => site.Laid v i ws' ∧ site.IsRead v i field.2 wanted a ws' := by
  have hmem := Field.mem_placingFormulas_of_value hvalue
  unfold Resolver.readFormula
  refine .bind hs (.unlessCutShort ((h.evaluatePlacing hs hfield hmem _).mono
    (fun _ hlaid => ⟨hlaid, e, he⟩) fun _ _ _ _ _ _ => id)) fun a ws₁ hs₁ => ?_
  cases a with
  | none => exact .pure fun _ ⟨_, _, hsome⟩ => nomatch hsome
  | some value =>
    -- The value comes from where the field was reached, which is the same whatever is kept.
    have hsettled {e' : FieldEntry} (hk : site.Knows v ws) (hlaid : site.Laid v i ws)
        (hk₁ : site.Knows v ws₁) (ho : site.Onward ws ws₁)
        (hsome : some value = some ((v.upTo i).evaluate site
          (.withConstants site.ref [originConstant e.origin]) formula.expr))
        (he' : ws₁.entryOf? site.ref i = some e') :
        (v.upTo i).ofEntry site i field.2 e = (v.upTo i).ofEntry site i field.2 e' ∧
          ⟨0, .int value⟩ = (v.upTo i).valueOf site e'.origin formula := by
      have hsame := Option.some.inj ((hk.entry hlaid.stamped he hfield).symm.trans
        (hk₁.entry (ho.stamped hlaid.stamped) he' hfield))
      have horigin : e.origin = e'.origin := congrArg Finding.origin hsame
      cases hsome
      exact ⟨hsame, by rw [← horigin]; rfl⟩
    refine .bind hs₁ (.modifyEntry (fun ⟨⟨_, hlaid⟩, ho, _⟩ => ho.stamped hlaid.stamped)
      fun hk₁ ⟨⟨hk, hlaid⟩, ho, hsome⟩ {e' f'} he' hfield' => ?_) fun _ ws₂ hs₂ =>
        .pure fun _ ⟨⟨hk₁, ⟨hk, hlaid⟩, ho, hsome⟩, ho', hentry⟩ =>
          ⟨hlaid.onward (ho.trans ho'), fun {n} hn => ?_, fun _ hnone => ?_⟩
    · cases hfield.symm.trans hfield'
      rw [(hsettled hk hlaid hk₁ ho hsome he').2]
      split
      · exact Findings.ofEntry_setValue hvalue ‹_›
      · rfl
    · subst hn
      obtain ⟨e', he'⟩ := hlaid.exists_entry he ho
      obtain ⟨hsame, hvalued⟩ := hsettled hk hlaid hk₁ ho hsome he'
      rw [hentry, he', hk.entry hlaid.stamped he hfield, hvalued]
      have hshort : e.values.size ≤ n := Nat.not_lt.mp fun hlt =>
        Bool.false_ne_true (hwanted.symm.trans (Wanted.metBy_first.mpr hlt))
      refine ⟨?_, ?_⟩
      · rw [Option.bind_some, Findings.element_of_value hvalue, Bool.eq_iff_iff,
          Wanted.metBy_first, Option.isSome_iff_ne_none, Ne, Array.getElem?_eq_none_iff]
        split
        · exact Nat.not_le.symm
        · rename_i hfull
          rw [Array.isEmpty_iff, ← Array.size_eq_zero_iff] at hfull
          omega
      · rw [Option.bind_some, hsame, Findings.element_of_value hvalue]
        show (ite _ _ _ : FieldEntry).values[n]? = _
        split <;> rfl
    · rw [hvalue] at hnone
      cases hnone

/-- The elements that lie in the file. -/
theorem readScalars {count : Resolve (Option Int64)} (hcount : site.Counts v i count)
    {t : ScalarType} (hvalue : field.2.value = none) (htype : field.2.type = .scalar t)
    (wanted : Wanted) :
    site.Answers v (site.Laid v i ws ∧ ∃ e, ws.entryOf? site.ref i = some e) ws
      (resolver.readScalars count site.ref i field.2 t wanted)
      fun a ws' => site.Laid v i ws' ∧ site.IsRead v i field.2 wanted a ws' := by
  unfold Resolver.readScalars
  refine .bind hs ((h.fieldOffset hs hfield).mono (fun _ hg => hg.1.due) fun _ _ _ _ _ _ => id)
    fun offset ws₁ hs₁ => ?_
  dsimp only
  refine .bind hs₁ ((hcount hs₁).mono (fun _ ⟨_, _, hlaid, _⟩ => hlaid.due)
    fun _ _ _ _ _ _ => id) fun count ws₂ hs₂ => .get ?_
  cases he₂ : ws₂.entryOf? site.ref i with
  | none =>
    refine .pure fun _ ⟨⟨_, ⟨_, hlaid, e, he⟩, ho, _⟩, ho', _⟩ => ?_
    obtain ⟨_, he'⟩ := hlaid.exists_entry he (ho.trans ho')
    rw [he₂] at he'
    cases he'
  | some e =>
    dsimp only
    rw [hs₂.fileSize, hs₂.readElements]
    have hsettled (hk₂ : site.Knows v ws₂) (hlaid : site.Laid v i ws₂)
        (hoffset : offset = v.fields[i]?.bind Finding.offset)
        (hcount : count = v.fields[i]?.map Finding.count) :
        v.fields[i]? = some ((v.upTo i).ofEntry site i field.2 e) ∧
          ((v.upTo i).ofEntry site i field.2 e).count = count.getD 0 ∧
          ((v.upTo i).ofEntry site i field.2 e).offset.getD 0 = offset.getD 0 := by
      have hentry := hk₂.entry hlaid.stamped he₂ hfield
      rw [hoffset, hcount, hentry]
      exact ⟨rfl, rfl, rfl⟩
    refine .bind hs₂ (.modifyEntry (fun ⟨_, _, hlaid, _⟩ => hlaid.stamped)
      fun hk₂ ⟨⟨_, _, _, _, hoffset⟩, _, hlaid, hcount⟩ {e' f'} he' hfield' => ?_) fun _ ws₃ _ =>
        .pure fun _ ⟨⟨hk₂, ⟨_, _, _, _, hoffset⟩, _, hlaid, hcount⟩, ho, hentry⟩ =>
          ⟨hlaid.onward ho, ?_⟩
    · cases hfield.symm.trans hfield'
      cases he₂.symm.trans he'
      obtain ⟨_, hsame, hstart⟩ := hsettled hk₂ hlaid hoffset hcount
      exact Findings.ofEntry_readOn hvalue htype hsame hstart _
    · obtain ⟨hfound, hsame, hstart⟩ := hsettled hk₂ hlaid hoffset hcount
      rw [he₂] at hentry
      refine ⟨fun {n} hn => ?_, fun hall _ huntil f hf => ⟨_, hentry, ?_⟩⟩
      · subst hn
        rw [hentry, hfound, Option.bind_some, Findings.element_of_scalar hvalue htype, hsame, hstart]
        refine ⟨?_, rfl⟩
        rw [Bool.eq_iff_iff, Wanted.metBy_first, Option.isSome_iff_ne_none, Ne,
          Array.getElem?_eq_none_iff]
        exact Nat.not_le.symm
      · subst hall
        cases hfound.symm.trans hf
        rw [Findings.length_of_scalar hvalue htype huntil, hsame, hstart]
        rfl

/-- **Reading elements**, given how to count. -/
theorem readValuesWith {count : Resolve (Option Int64)} (hcount : site.Counts v i count)
    (wanted : Wanted) :
    site.Answers v (site.Due v i ws) ws (resolver.readValuesWith count site.ref i wanted)
      fun a ws' => site.Laid v i ws' ∧ site.IsRead v i field.2 wanted a ws' := by
  unfold Resolver.readValuesWith
  refine .bind hs (h.enumerate hs hfield) fun _ ws₁ hs₁ => .ask ?_
  cases he : ws₁.entryOf? site.ref i with
  | none =>
    exact .pure fun _ ⟨_, _, hlaid⟩ =>
      ⟨hlaid, .of_none (Site.Knows.none_of_laid hlaid he) he⟩
  | some e =>
    dsimp only
    obtain ⟨t, htype⟩ := h.flat.scalar hfield
    cases hmet : wanted.metBy e.values.size with
    | true =>
      refine .pure fun hk ⟨_, _, hlaid⟩ => ⟨hlaid, fun {n} hn => ?_, fun hn => ?_⟩
      · subst hn
        have hlt := Wanted.metBy_first.mp hmet
        rw [he, hk.entry hlaid.stamped he hfield, Option.bind_some, Option.bind_some,
          Findings.element_of_lt htype hlt, Array.getElem?_eq_getElem hlt]
        exact ⟨rfl, rfl⟩
      · rw [hn] at hmet
        cases hmet
    | false =>
      rw [if_neg Bool.false_ne_true]
      refine .ask ?_
      rw [hs₁.fieldOf?, hfield]
      dsimp only
      cases hvalue : field.2.value with
      | some formula =>
        exact (h.readFormula hs₁ hfield hvalue he hmet).mono (fun _ ⟨_, _, hlaid⟩ => hlaid)
          fun _ _ _ _ _ _ => id
      | none =>
        rw [htype]
        exact (h.readScalars hs₁ hfield hcount hvalue htype wanted).mono
          (fun _ ⟨_, _, hlaid⟩ => ⟨hlaid, e, he⟩) fun _ _ _ _ _ _ => id

/-- The integer reading of an element, given how to count. -/
theorem intValueWith {count : Resolve (Option Int64)} (hcount : site.Counts v i count) (n : Nat) :
    site.Answers v (site.Due v i ws) ws (resolver.intValueWith count site.ref i n)
      fun a _ => a = v.fields[i]?.elim 0 fun f => f.intValue n := by
  unfold Resolver.intValueWith
  refine .bind hs (h.readValuesWith hs hfield hcount (.first (n + 1))) fun enough ws₁ hs₁ => ?_
  have hvalue (hread : site.IsRead v i field.2 (.first (n + 1)) enough ws₁) :
      (v.fields[i]?.elim 0 fun f => f.intValue n) =
        ((ws₁.entryOf? site.ref i).bind fun e => e.values[n]?).elim 0 fun e => e.value.toInt := by
    rw [(hread.first rfl).2]
    cases v.fields[i]? <;> rfl
  cases enough with
  | true =>
    refine .ask (.pure fun _ ⟨_, _, _, hread⟩ => ?_)
    rw [hvalue hread]
  | false =>
    refine .pure fun _ ⟨_, _, _, hread⟩ => ?_
    obtain ⟨hmissing, helement⟩ := hread.first rfl
    rw [hvalue hread, helement, Option.isSome_eq_false_iff.mp hmissing.symm |>
        Option.isNone_iff_eq_none.mp]
    rfl

omit h hfield in
/-- What a name stands for where it is no field. -/
theorem argOrParam (name : String) {given : Prop} :
    site.Answers v given ws (argOrParam site.ref site.struct name)
      fun a _ => a = site.argOrParam name :=
  .ask (f := fun ws => (ws.argOf? site.ref name).or (site.struct.param? name)) (.pure fun _ _ => by
    rw [hs.args]
    rfl)

omit h hfield in
/-- A count is cut to the limit. -/
theorem limitCount (count : Int64) {given : Prop} :
    site.Answers v given ws (ByteAtlas.limitCount count)
      fun a _ => a = cutCount site.maxElements count := by
  have hlast {given : Prop} {ws₁ : Workspace} : site.Answers v given ws₁
      (if site.maxElements < 0 then throw .negativeElementLimit
        else pure (if count < 0 then 0
          else if site.maxElements < count then site.maxElements else count))
      fun a _ => a = cutCount site.maxElements count := by
    split
    · exact Site.Quietly.throw _
    · exact .pure fun _ _ => rfl
  have hnote {given : Prop} : site.Answers v given ws noteLimitHit fun _ _ => True :=
    .change ⟨rfl, rfl, rfl, rfl, fun _ _ => rfl⟩ rfl fun ⟨hk, _⟩ =>
      ⟨hk.of_now (hs.beside ⟨rfl, rfl, rfl, rfl, fun _ _ => rfl⟩) rfl rfl,
        .of_now rfl id rfl rfl rfl, trivial⟩
  unfold ByteAtlas.limitCount
  refine .ask ?_
  rw [hs.limit]
  exact .ite (fun _ => .bind hs hnote fun _ _ _ => hlast) fun _ => hlast

omit h hfield in
/-- A count is cut and kept. -/
theorem keepCount (count : Option Int64) :
    site.Answers v (site.Laid v i ws ∧
        v.fields[i]?.map Finding.count = count.map (cutCount site.maxElements)) ws
      (match count with
        | none => pure none
        | some count => do
          let count ← ByteAtlas.limitCount count
          modifyEntry site.ref i fun e => { e with count := some count }
          pure (some count))
      fun a ws' => site.Laid v i ws' ∧ a = v.fields[i]?.map Finding.count := by
  cases count with
  | none => exact .pure fun _ ⟨hlaid, hsettled⟩ => ⟨hlaid, hsettled.symm⟩
  | some count =>
    refine .bind hs (limitCount hs count) fun cut ws₁ hs₁ => ?_
    refine .bind hs₁ (.modifyEntry (fun ⟨⟨_, hlaid, _⟩, ho, _⟩ => ho.stamped hlaid.stamped)
      fun hk₁ ⟨⟨_, hlaid, hsettled⟩, ho, hcut⟩ {e' f'} he' hfield' => ?_) fun _ _ _ =>
        .pure fun _ ⟨⟨_, ⟨_, hlaid, hsettled⟩, ho, hcut⟩, ho', _⟩ =>
          ⟨hlaid.onward (ho.trans ho'), by rw [hsettled, hcut]; rfl⟩
    rw [hk₁.entry (ho.stamped hlaid.stamped) he' hfield', Option.map_some, Option.map_some,
      ← hcut] at hsettled
    exact Findings.ofEntry_setCount (Option.some.inj hsettled)

omit hfield in
/-- A count of a field that is there, before it is cut. -/
theorem uncutCount {e : FieldEntry} (he : ws.entryOf? site.ref i = some e)
    (hcounts : ∀ {j : Nat} {field : String × Field}, j < i → site.struct.field? j = some field →
      site.Counts v j (resolver.elementCount site.ref j false)) :
    site.Answers v (site.Laid v i ws) ws
      (if field.2.value.isSome then pure (some 1)
        else
          match field.2.countSource with
          | .literal => pure (some field.2.count)
          | .fileSize => do
            let size ← Resolve.ask fun ws => ws.fileSize site.ref.file
            pure (some (Int64.ofNat size + field.2.count))
          | .named source => do
            let base ←
              match site.struct.fieldIndex? source with
              | some j =>
                if _h : j < i then
                  some <$> resolver.intValueWith (resolver.elementCount site.ref j false) site.ref j 0
                else ByteAtlas.argOrParam site.ref site.struct source
              | none => ByteAtlas.argOrParam site.ref site.struct source
            pure (some (base.elim 0 (· + field.2.count))))
      fun a _ => a = some ((v.upTo i).uncutCount site i field.2) := by
  unfold Findings.uncutCount
  refine .ite (fun hvalue => .pure fun _ _ => by rw [if_pos hvalue]) fun hvalue => ?_
  rw [if_neg hvalue]
  cases field.2.countSource with
  | literal => exact .pure fun _ _ => rfl
  | fileSize =>
    refine .ask (.pure fun _ _ => ?_)
    rw [hs.fileSize]
  | named source =>
    dsimp only
    unfold Findings.namedValue
    cases hj : site.struct.fieldIndex? source with
    | none =>
      refine .bind hs (argOrParam hs source) fun base _ _ => .pure fun _ hg => ?_
      rw [hg.2.2]
      rfl
    | some j =>
      dsimp only
      by_cases hlt : j < i
      · obtain ⟨field', hfield'⟩ := StructDef.field?_of_fieldIndex? hj
        simp only [hlt, dite_true, Option.any_some, decide_true, if_true]
        refine .bind hs (p := fun a _ => a = some ((v.upTo i)[j]?.elim 0 fun f => f.intValue 0))
          (.map ((h.intValueWith hs hfield' (hcounts hlt hfield') 0).mono
            (fun _ hlaid => (hlaid.of_entry he (Nat.le_of_lt hlt)).due)
            fun a _ _ _ _ _ ha => by rw [ha, v.getElem?_upTo hlt]))
          fun base _ _ => .pure fun _ hg => ?_
        rw [hg.2.2]
      · simp only [hlt, dite_false, Option.any_some, decide_false, Bool.false_eq_true, if_false]
        refine .bind hs (argOrParam hs source) fun base _ _ => .pure fun _ hg => ?_
        rw [hg.2.2]

omit hs in
/-- **Counting** goes down in the index of the field. -/
theorem elementCount : site.Counts v i (resolver.elementCount site.ref i false) := by
  induction i using Nat.strongRecOn generalizing field with
  | _ i ih =>
    intro ws hs
    unfold Resolver.elementCount
    refine .bind hs (h.enumerate hs hfield) fun _ ws₁ hs₁ => .ask ?_
    cases he : ws₁.entryOf? site.ref i with
    | none =>
      refine .pure fun _ ⟨_, _, hlaid⟩ => ⟨hlaid, ?_⟩
      rw [Site.Knows.none_of_laid hlaid he]
      rfl
    | some e =>
      dsimp only
      split
      · rename_i hknown
        refine .pure fun hk ⟨_, _, hlaid⟩ => ⟨hlaid, ?_⟩
        obtain ⟨count, hcount⟩ := Option.isSome_iff_exists.mp hknown
        rw [hk.entry hlaid.stamped he hfield, Option.map_some]
        show _ = some (e.count.getD _)
        rw [hcount]
        rfl
      · rename_i hunknown
        have hnone : e.count = none := Option.not_isSome_iff_eq_none.mp hunknown
        have hcount (hk : site.Knows v ws₁) (hlaid : site.Laid v i ws₁) :
            v.fields[i]?.map Finding.count =
              some ((v.upTo i).countOf site i field.2 e.present) := by
          rw [hk.entry hlaid.stamped he hfield, Option.map_some]
          show some (e.count.getD _) = _
          rw [hnone]
          rfl
        unfold Findings.countOf at hcount
        cases hpresent : e.present with
        | false =>
          refine (keepCount hs₁ (some 0)).mono (fun hk ⟨_, _, hlaid⟩ => ⟨hlaid, ?_⟩)
            fun _ _ _ _ _ _ => id
          rw [hcount hk hlaid, hpresent]
          rfl
        | true =>
          refine .bind hs₁ (p := fun a _ => a = some ((v.upTo i).uncutCount site i field.2))
            (.unlessCutShort (.ask ?_)) fun count ws₂ hs₂ => (keepCount hs₂ count).mono
              (fun _ ⟨⟨hk₁, _, _, hlaid⟩, ho, hsome⟩ => ⟨hlaid.onward ho, ?_⟩)
              fun _ _ _ _ _ _ => id
          · rw [hs₁.struct, Option.getD_some, hfield]
            exact (h.uncutCount hs₁ he fun hlt hfield => ih _ hlt hfield).mono
              (fun _ ⟨_, _, hlaid⟩ => hlaid) fun _ _ _ _ _ _ => id
          · rw [hcount hk₁ hlaid, hpresent, hsome]
            rfl

end Resolver.Settled

end ByteAtlas
