import ByteAtlas.Proofs.Flat.Follows

/-!
# Fields of flat definitions

For each question about a field, in the order of `ByteAtlas.Resolve.Fields`: once the fields up to
this one are laid out, the answer is the one that the facts give, and the layout stays at its stage.
The resolver has to be faithful, that is, to evaluate expressions as the reference does
(`Resolver.Faithful`).

Every question first has fields laid out. How this is done is left open here
(`Resolver.Consults`): while a field is being laid out nothing more is laid out, so within the
course of another step these are the fields that are there.
-/

namespace ByteAtlas

/-! ## 1. Faithful resolvers -/

/-- Whether names of fields are hidden or stand for one of the first. -/
def Site.Within (site : Site) (b : Nat) (before : Option Nat) (names : List String) : Prop :=
  ∀ name ∈ names, ∀ i, site.struct.fieldIndex? name = some i →
    before.any (· ≤ i) = true ∨ i < b

/-- Whether names of fields are hidden or stand for fields of which the facts are known. -/
def Site.Sees (site : Site) (s : Stage) (facts : List FieldFacts) (before : Option Nat)
    (names : List String) : Prop :=
  ∀ name ∈ names, ∀ i, site.struct.fieldIndex? name = some i →
    before.any (· ≤ i) = true ∨ ∃ f, s.facts[i]? = some f ∧ facts[i]? = some f

/-- **A resolver that evaluates expressions** as the reference does. -/
structure Resolver.Faithful (resolver : Resolver) (site : Site) : Prop where
  flat : site.struct.Flat
  evaluate : ∀ {b : Nat} {s : Stage} {facts : List FieldFacts} {constants : List (String × Int64)}
    {before : Option Nat} {expr : Expr}, expr.hasQuery = false → site.Within b before expr.names →
    site.Follows (site.Sees s facts before expr.names) b b s
      (resolver.evaluate ⟨site.ref, constants, before⟩ expr)
      (.equal (some <$> site.evaluate facts constants before expr))

section

variable {site : Site} {s : Stage} {ws : Workspace} {i : Nat} {f : FieldFacts}
  {field : String × Field}

/-- The field of the definition is the one of the facts. -/
theorem Site.AtStage.field_eq (h : site.AtStage s ws) (hf : s.facts[i]? = some f)
    (hfield : site.struct.field? i = some field) : f.field = field.2 := by
  obtain ⟨name, hfield'⟩ := (h.facts i f hf).field
  rw [hfield] at hfield'
  cases hfield'
  rfl

/-- An offset that is not known yet is what an expression says. -/
theorem Site.AtStage.offset_of_unknown (h : site.AtStage s ws) (hf : s.facts[i]? = some f)
    (hfield : site.struct.field? i = some field) {e : FieldEntry}
    (he : ws.entryOf? site.ref i = some e) (hnone : e.offset = none) :
    ∃ formula, field.2.offsetFormula = some formula ∧
      f.offset = site.evaluate (s.facts.take i) [indexConstant 0, originConstant e.origin] none
        formula.expr := by
  have hagrees := h.agrees i f e hf he
  have hplaced : (f.field.value.isSome || f.field.offsetFormula.isNone) = false := by
    refine Bool.eq_false_iff.mpr fun hplaced => ?_
    have hsome := hagrees.placed hplaced
    rw [hnone] at hsome
    cases hsome
  rw [Bool.or_eq_false_iff] at hplaced
  obtain ⟨formula, hformula⟩ := Option.isSome_iff_exists.mp
    (Option.isNone_eq_false_iff.mp hplaced.2)
  refine ⟨formula, h.field_eq hf hfield ▸ hformula, ?_⟩
  rw [(h.facts i f hf).eq, hagrees.origin]
  unfold Site.factsOf Site.offsetOf
  dsimp only
  rw [hplaced.1, if_neg Bool.false_ne_true, hformula]

/-- **The expressions that place a field** see only fields of which the facts are known. -/
theorem StructDef.Flat.sees (h : site.struct.Flat) (hf : s.facts[i]? = some f)
    (hfield : site.struct.field? i = some field) {formula : Formula}
    (hformula : formula ∈ field.2.placingFormulas) :
    site.Sees s (s.facts.take i) none formula.expr.names := by
  intro name hname j hj
  have hlt : j < i := h.backward hfield formula hformula name hname j hj
  have hi := (List.getElem?_eq_some_iff.mp hf).1
  have hj' : s.facts[j]? = some s.facts[j] := List.getElem?_eq_getElem (by omega)
  exact .inr ⟨_, hj', by rw [List.getElem?_take_of_lt hlt, hj']⟩

/-- **The expression that places a field** has the value that the facts tell. -/
theorem Resolver.Faithful.evaluatePlacing {resolver : Resolver} (h : resolver.Faithful site)
    (hfield : site.struct.field? i = some field) {formula : Formula}
    (hformula : formula ∈ field.2.placingFormulas) (constants : List (String × Int64)) :
    site.Follows (s.facts[i]? = some f) (i + 1) i s
      (resolver.evaluate (.withConstants site.ref constants) formula.expr)
      (.aside site.ref i (some <$> site.evaluate (s.facts.take i) constants none formula.expr)) := by
  have hquery : formula.expr.hasQuery = false := by
    refine h.flat.simple hfield formula ?_
    rw [Field.formulas, List.append_assoc]
    exact List.mem_append_left _ hformula
  have hwithin : site.Within i none formula.expr.names := fun name hname j hj =>
    .inr (h.flat.backward hfield formula hformula name hname j hj)
  have hevaluate : site.Follows (s.facts[i]? = some f) i i s
      (resolver.evaluate (.withConstants site.ref constants) formula.expr)
      (.equal (some <$> site.evaluate (s.facts.take i) constants none formula.expr)) :=
    (h.evaluate hquery hwithin).mono fun hf => h.flat.sees hf hfield hformula
  exact hevaluate.aside (Nat.le_refl i)

end

/-! ## 2. Questions about a field -/

/-- **A question about a field.** It first has the fields up to this one laid out. Then it is
answered, and if the field is not there nothing is known. -/
def Resolver.Consults (resolver : Resolver) (site : Site) (i : Nat) (isLazy : Bool) (c : Nat)
    {α : Type} (step : Resolve α) (p : FieldFacts → Promise α) (nothing : α) : Prop :=
  ∃ rest : Resolve α, step = (resolver.enumerate site.ref (i + 1) isLazy >>= fun _ => rest) ∧
    (∀ {s : Stage} {f : FieldFacts} {field : String × Field}, site.struct.field? i = some field →
      site.Follows (s.facts[i]? = some f) (i + 1) c s rest (p f)) ∧
    ∀ {ws : Workspace}, ws.entryOf? site.ref i = none → rest.runIn ws = (.ok nothing, ws)

section

variable {site : Site} {s : Stage} {ws : Workspace} {i b c : Nat} {f : FieldFacts}
  {field : String × Field} {resolver : Resolver} {isLazy : Bool} {α β : Type}

/-- **Nothing is laid out** where the fields are there already. -/
theorem Site.Ready.enumerate {known good : Prop} {next : Unit → Resolve α} {q : Promise α}
    (hready : site.Ready (i + 1) ws) (hk : known → site.AtStage s ws)
    (h : ∀ ws₁, site.Ready (i + 1) ws₁ → ws₁.entryOf? site.ref = ws.entryOf? site.ref →
      site.Yields (i + 1) c s (known ∧ site.AtStage s ws₁) good ws₁ (next ()) (q.since ws)) :
    site.Yields (i + 1) c s known good ws
      (resolver.enumerate site.ref (i + 1) isLazy >>= next) q := by
  have hlayout : (ws.modifyLayout site.ref fun l =>
      l.validated (ws.stampOf site.ref site.struct) site.ref.offset).layoutOf site.ref =
      ws.layoutOf site.ref := by
    rw [Workspace.layoutOf_modifyLayout, Layout.validated, if_pos hready.current]
  have hsteady : ws.Steady site.ref (i + 1) c (ws.modifyLayout site.ref fun l =>
      l.validated (ws.stampOf site.ref site.struct) site.ref.offset) :=
    .of_layoutOf (.modifyLayout _) (Nat.le_refl _) hlayout
  have hentry : (ws.modifyLayout site.ref fun l =>
      l.validated (ws.stampOf site.ref site.struct) site.ref.offset).entryOf? site.ref =
      ws.entryOf? site.ref := by
    funext j
    rw [Workspace.entryOf?, hlayout]
    rfl
  unfold Resolver.enumerate
  rw [bind_assoc]
  refine .ask ?_
  rw [hready.shown.struct]
  dsimp only
  rw [bind_assoc]
  refine .change hsteady rfl (fun hk' _ => (hk hk').of_layoutOf hlayout rfl) ?_
  rw [bind_assoc]
  refine .ask ?_
  have hcount := hready.count
  have hthere : (decide (min (i + 1) site.struct.fieldCount ≤
      ((ws.modifyLayout site.ref fun l =>
        l.validated (ws.stampOf site.ref site.struct) site.ref.offset).layoutOf
          site.ref).entries.size) ||
      ((ws.modifyLayout site.ref fun l =>
        l.validated (ws.stampOf site.ref site.struct) site.ref.offset).layoutOf
          site.ref).measuring.isSome) = true := by
    rw [hlayout, decide_eq_true (Nat.le_trans (Nat.min_le_left _ _) hcount), Bool.true_or]
  rw [if_pos hthere, pure_bind]
  exact h _ (hready.steady hsteady) hentry

namespace Resolver.Consults

variable {step : Resolve α} {next : α → Resolve β} {p : FieldFacts → Promise α} {nothing : α}
  {q : FieldFacts → Promise β} {nothing' : β}

/-- **In the course of another step** the question is answered for the fields that are there. What
is promised has to depend on entries alone. -/
theorem follows (h : resolver.Consults site i isLazy c step p nothing)
    (hfield : site.struct.field? i = some field)
    (hlocal : ∀ ws ws₁ a ws', ws₁.entryOf? site.ref = ws.entryOf? site.ref →
      (p f).told ws₁ a ws' → (p f).told ws a ws') :
    site.Follows (s.facts[i]? = some f) (i + 1) c s step (p f) := by
  obtain ⟨rest, hstep, hrest, _⟩ := h
  refine ⟨fun hready => ?_⟩
  rw [hstep]
  refine hready.enumerate And.right fun ws₁ hready₁ hentry => ?_
  exact ((hrest hfield).yields hready₁).mono (fun hk => ⟨hk.1.1, hk.2⟩) (fun _ _ => trivial)
    (fun a ws' => hlocal _ _ a ws' hentry) fun _ _ _ _ => id

/-- **What comes of an answer.** -/
theorem bind (h : resolver.Consults site i isLazy c step p nothing)
    (hn : ∀ {s : Stage} {ws : Workspace} {f : FieldFacts} {field : String × Field},
      site.struct.field? i = some field → ∀ a ws₁, site.Ready (i + 1) ws₁ →
      (p f).told ws a ws₁ →
      site.Yields (i + 1) c s
        ((s.facts[i]? = some f ∧ site.AtStage s ws) ∧ site.AtStage s ws₁)
        (True ∧ (p f).affirms (.ok a) ws₁) ws₁ (next a) ((q f).since ws))
    (he : ∀ f fault ws, (p f).affirms (.error fault) ws → (q f).affirms (.error fault) ws)
    (hnothing : ∀ ws, ws.entryOf? site.ref i = none →
      (next nothing).runIn ws = (.ok nothing', ws)) :
    resolver.Consults site i isLazy c (step >>= next) q nothing' := by
  obtain ⟨rest, hstep, hrest, hnone⟩ := h
  refine ⟨rest >>= next, by rw [hstep, bind_assoc], fun hfield => ⟨fun hready => ?_⟩,
    fun {ws} hno => ?_⟩
  · exact .follow (hrest hfield) hready id (hn hfield) fun fault ws₁ _ _ => he _ fault ws₁
  · rw [Resolve.runIn_bind, hnone hno]
    exact hnothing ws hno

end Resolver.Consults

/-- Looking at the entry of a field that is there. -/
theorem Site.Leads.entry {known good : Prop} {next : Option FieldEntry → Resolve α}
    {q : Promise α} (hready : site.Ready b ws) (hi : i < b)
    (hn : ∀ e, ws.entryOf? site.ref i = some e →
      site.Yields b c s known good ws (next (some e)) q) :
    site.Yields b c s known good ws (ByteAtlas.entryOf? site.ref i >>= next) q := by
  refine .ask ?_
  obtain ⟨e, he⟩ := hready.entryOf? hi
  rw [he]
  exact hn e he

/-- Looking at the definition of a field. -/
theorem Site.Leads.definition {known good : Prop} {next : Option (String × Field) → Resolve α}
    {q : Promise α} (hready : site.Ready b ws) (hfield : site.struct.field? i = some field)
    (h : site.Yields b c s known good ws (next (some field)) q) :
    site.Yields b c s known good ws (ByteAtlas.fieldOf? site.ref i >>= next) q := by
  refine .ask ?_
  rw [hready.shown.fieldOf?, hfield]
  exact h

/-! ## 3. Offsets -/

/-- What comes of asking for an offset. Whatever has happened the answer is the one that is kept. -/
def Site.locates (site : Site) (i : Nat) (isLazy : Bool) (f : FieldFacts) :
    Promise (Option Int64) where
  told ws a ws' := ∀ e, ws.entryOf? site.ref i = some e →
    ws'.entryOf? site.ref i = some { e with offset := a }
  affirms result _ := (isLazy = false → result = some <$> f.offset) ∧
    ∀ n, result = .ok (some n) → f.offset = .ok n

namespace Resolver.Faithful

theorem consults_fieldOffset (h : resolver.Faithful site) (i : Nat) (isLazy : Bool) :
    resolver.Consults site i isLazy i (resolver.fieldOffset site.ref i isLazy)
      (site.locates i isLazy) none := by
  unfold Resolver.fieldOffset
  refine ⟨_, rfl, fun {s f field} hfield => ⟨fun {ws} hready =>
    .entry hready (Nat.lt_succ_self i) fun e he => ?_⟩, fun hnone => ?_⟩
  · dsimp only
    split
    · rename_i hknown
      refine .pure (fun e' he' => ?_) And.right fun ⟨hf, hstage⟩ _ => ⟨fun heager => ?_, ?_⟩
      · rw [he] at he'
        cases he'
        exact he
      · rw [heager, Bool.or_false] at hknown
        obtain ⟨n, hn⟩ := Option.isSome_iff_exists.mp hknown
        rw [hn, (hstage.agrees i f e hf he).offset n hn]
        rfl
      · exact fun n hn => (hstage.agrees i f e hf he).offset n (Except.ok.inj hn)
    · rename_i hunknown
      rw [Bool.or_eq_true, not_or] at hunknown
      refine .definition hready hfield ?_
      rw [Option.bind_some]
      have hnone : e.offset = none := Option.not_isSome_iff_eq_none.mp hunknown.1
      have htold {ws₁ : Workspace} (hsame : ws₁.entryOf? site.ref i = ws.entryOf? site.ref i) :
          (site.locates i isLazy f).told ws none ws₁ := by
        intro e' he'
        rw [he] at he'
        cases he'
        rw [hsame, he, ← hnone]
      cases hformula : field.2.offsetFormula with
      | none =>
        refine .pure (htold rfl) And.right fun ⟨hf, hstage⟩ _ => ?_
        obtain ⟨_, hsome, _⟩ := hstage.offset_of_unknown hf hfield he hnone
        rw [hformula] at hsome
        cases hsome
      | some formula =>
        have htrue (hf : s.facts[i]? = some f) (hstage : site.AtStage s ws) :
            f.offset = site.evaluate (s.facts.take i)
              [indexConstant 0, originConstant e.origin] none formula.expr := by
          obtain ⟨formula', hsome, htrue⟩ := hstage.offset_of_unknown hf hfield he hnone
          rw [hformula] at hsome
          cases hsome
          exact htrue
        have hmem : formula ∈ field.2.placingFormulas := by
          rw [Field.placingFormulas, hformula]
          exact List.mem_append_right _ (List.mem_singleton_self _)
        refine .guarded ((h.evaluatePlacing hfield hmem _).yields hready)
          (fun offset ws₁ hsteady hkept => ?_) fun fault ws₁ hk _ href => ⟨fun _ => ?_, nofun⟩
        · obtain ⟨_, hsame⟩ := hkept
          have hsame : ws₁.entryOf? site.ref i = ws.entryOf? site.ref i := hsame
          cases offset with
          | none =>
            refine .pure (htold hsame) (fun hk => hk.2.1) fun hk haffirms => ?_
            obtain ⟨_, _, hsome⟩ := Site.of_map_some_eq (Eq.symm haffirms.2)
            cases hsome
          | some offset =>
            have hoffset (hf : s.facts[i]? = some f) (hstage : site.AtStage s ws)
                (href : .ok (some offset) = some <$> site.evaluate (s.facts.take i)
                  [indexConstant 0, originConstant e.origin] none formula.expr) :
                f.offset = .ok offset := by
              obtain ⟨_, hvalue, hsome⟩ := Site.of_map_some_eq href.symm
              cases hsome
              exact (htrue hf hstage).trans hvalue
            refine .modifyEntry (Nat.lt_succ_self i) (fun e => ⟨⟨id, id⟩, fun _ => rfl⟩)
              (fun hk _ => ?_) (.pure (fun e' he' => ?_) And.right fun hk haffirms => ?_)
            · obtain ⟨⟨hf, hstage⟩, hstage₁, hvalue⟩ := hk
              refine hstage₁.modifyEntry fun f' e' hf' _ hagrees => ?_
              rw [hf] at hf'
              cases hf'
              exact hagrees.setOffset (hoffset hf hstage (hvalue offset rfl))
            · rw [Workspace.entryOf?_modifyEntry, hsame, he']
              rfl
            · obtain ⟨⟨⟨hf, hstage⟩, _⟩, _⟩ := hk
              have hn := hoffset hf hstage haffirms.2
              refine ⟨fun _ => by rw [hn]; rfl, fun n hsome => ?_⟩
              cases hsome
              exact hn
        · rw [htrue hk.1 hk.2, Site.of_map_some_eq_error (Eq.symm href)]
          rfl
  · rw [Resolve.runIn_bind, ByteAtlas.entryOf?, Resolve.runIn_ask, hnone]
    rfl

/-- The offset of a field, in the course of another step. -/
theorem fieldOffset (h : resolver.Faithful site) (hfield : site.struct.field? i = some field)
    (isLazy : Bool) :
    site.Follows (s.facts[i]? = some f) (i + 1) i s (resolver.fieldOffset site.ref i isLazy)
      (site.locates i isLazy f) :=
  (h.consults_fieldOffset i isLazy).follows hfield fun _ _ _ _ hsame htold e he =>
    htold e (by rw [hsame, he])

end Resolver.Faithful

/-! ## 4. Elements -/

/-- So many elements are read at least, as far as there are any. -/
def Wanted.atLeast (w : Wanted) (fileSize : Nat) : Nat :=
  match w with
  | first n => n
  | throughZero => fileSize + 1

/-- Whether the elements that are wanted of a field have been read. -/
def Site.HasRead (site : Site) (f : FieldFacts) (wanted : Wanted) (e : FieldEntry) : Prop :=
  match f.field.value, f.field.type with
  | some _, _ => ∃ value, f.value = .ok value ∧ e.values = #[⟨0, .int value⟩]
  | none, .scalar t => ∃ start count k, f.offset = .ok start ∧ f.count = .ok count ∧
    wanted.atLeast site.fileSize ≤ k ∧ e.values = ((f.reading site t count start).first k).1
  | none, .struct _ => True

/-- Whether reading a field ends with a fault. -/
def FieldFacts.FaultsWith (f : FieldFacts) (fault : Fault) : Prop :=
  match f.field.value, f.field.type with
  | some _, _ => f.value = .error fault
  | none, .scalar _ => f.offset = .error fault ∨ (∃ n, f.offset = .ok n) ∧ f.count = .error fault
  | none, .struct _ => False

/-- **What comes of reading elements.** -/
def Site.reads (site : Site) (i : Nat) (wanted : Wanted) (f : FieldFacts) : Promise Bool where
  told _ _ _ := True
  affirms
    | .error fault, _ => f.FaultsWith fault
    | .ok enough, ws => ∃ e, ws.entryOf? site.ref i = some e ∧
      enough = wanted.metBy e.values.size ∧ site.HasRead f wanted e

section

variable {e : FieldEntry} {wanted : Wanted}

/-- What has been read before counts. -/
theorem Site.Agrees.hasRead (h : site.Agrees f e) (hwanted : wanted.metBy 0 = false)
    (hmet : wanted.metBy e.values.size = true) : site.HasRead f wanted e := by
  have hvalues := h.values
  have hempty : e.values ≠ #[] := by
    intro hnil
    rw [hnil] at hmet
    exact Bool.false_ne_true (hwanted.symm.trans hmet)
  unfold Site.ReadSoFar at hvalues
  unfold Site.HasRead
  cases hvalue : f.field.value with
  | some formula =>
    rw [hvalue] at hvalues
    exact hvalues.resolve_left hempty
  | none =>
    cases htype : f.field.type with
    | struct _ => exact trivial
    | scalar t =>
      rw [hvalue, htype] at hvalues
      obtain ⟨hcounted, hvalues⟩ := hvalues
      cases hcount : e.count with
      | none => exact absurd (hcounted hcount) hempty
      | some count =>
        cases hnext : e.nextElement with
        | none =>
          rw [hnext] at hvalues
          exact absurd hvalues hempty
        | some next =>
          rw [hnext, hcount] at hvalues
          obtain ⟨start, hstart, hfirst⟩ := hvalues
          rw [Option.getD_some] at hfirst
          refine ⟨start, count, e.values.size, h.offset start hstart, h.count count hcount, ?_,
            by rw [hfirst]⟩
          cases wanted with
          | first n => exact of_decide_eq_true hmet
          | throughZero => cases hmet

/-- **The element of a number**, once so many have been read. -/
theorem Site.HasRead.element {n : Nat} (h : site.HasRead f (.first (n + 1)) e)
    (hscalar : ∃ t, f.field.type = .scalar t) : f.element site n = .ok e.values[n]? := by
  unfold Site.HasRead at h
  unfold FieldFacts.element
  cases hvalue : f.field.value with
  | some formula =>
    rw [hvalue] at h
    obtain ⟨value, hv, hvalues⟩ := h
    rw [hv, hvalues]
    cases n with
    | zero => rfl
    | succ n => rfl
  | none =>
    obtain ⟨t, htype⟩ := hscalar
    rw [hvalue, htype] at h
    obtain ⟨start, count, k, hstart, hcount, hle, hvalues⟩ := h
    rw [htype, hstart, hcount, hvalues, Reading.getElem?_first hle]
    rfl

theorem FieldFacts.FaultsWith.element {fault : Fault} (h : f.FaultsWith fault) {n : Nat} :
    f.element site n = .error fault := by
  unfold FaultsWith at h
  unfold FieldFacts.element
  cases hvalue : f.field.value with
  | some formula =>
    rw [hvalue] at h
    have h : f.value = .error fault := h
    rw [h]
    rfl
  | none =>
    cases htype : f.field.type with
    | struct _ =>
      rw [hvalue, htype] at h
      exact h.elim
    | scalar t =>
      rw [hvalue, htype] at h
      rcases h with hoffset | ⟨⟨n, hoffset⟩, hcount⟩
      · rw [hoffset]
        rfl
      · rw [hoffset, hcount]
        rfl

end

/-- What comes of asking for a count. Whatever has happened the answer is the one that is kept. -/
def Site.counts (site : Site) (i : Nat) (f : FieldFacts) : Promise (Option Int64) where
  told ws a ws' := ∀ e, ws.entryOf? site.ref i = some e →
    ws'.entryOf? site.ref i = some { e with count := a }
  affirms result _ := result = some <$> f.count

namespace Resolver.Faithful

theorem readFormula (h : resolver.Faithful site) (hready : site.Ready (i + 1) ws)
    (hfield : site.struct.field? i = some field) {formula : Formula}
    (hvalue : field.2.value = some formula) {e : FieldEntry}
    (he : ws.entryOf? site.ref i = some e) (wanted : Wanted) :
    site.Yields (i + 1) i s (s.facts[i]? = some f ∧ site.AtStage s ws) True ws
      (resolver.readFormula site.ref i e formula wanted) (site.reads i wanted f) := by
  have hmem : formula ∈ field.2.placingFormulas := by
    rw [Field.placingFormulas, hvalue]
    exact List.mem_append_left _ (List.mem_singleton_self _)
  have hfound (hf : s.facts[i]? = some f) (hstage : site.AtStage s ws) :
      f.field.value = some formula ∧
        f.value = site.evaluate (s.facts.take i) [originConstant e.origin] none formula.expr := by
    have hvalue' : f.field.value = some formula := hstage.field_eq hf hfield ▸ hvalue
    refine ⟨hvalue', ?_⟩
    rw [(hstage.facts i f hf).eq, (hstage.agrees i f e hf he).origin]
    unfold Site.factsOf Site.valueOf
    dsimp only
    rw [hvalue']
  unfold Resolver.readFormula
  refine .guarded ((h.evaluatePlacing hfield hmem _).yields hready) (fun value ws₁ hsteady _ => ?_) ?_
  · cases value with
    | none =>
      refine .pure trivial (fun hk => hk.2.1) fun hk haffirms => ?_
      obtain ⟨_, _, hsome⟩ := Site.of_map_some_eq (Eq.symm haffirms.2)
      cases hsome
    | some value =>
      have htrue (hf : s.facts[i]? = some f) (hstage : site.AtStage s ws)
          (href : .ok (some value) = some <$> site.evaluate (s.facts.take i)
            [originConstant e.origin] none formula.expr) : f.value = .ok value := by
        obtain ⟨_, hevaluate, hsome⟩ := Site.of_map_some_eq href.symm
        cases hsome
        exact (hfound hf hstage).2.trans hevaluate
      have hread {e' : FieldEntry} (hv : f.field.value = some formula) (hvalue : f.value = .ok value)
          (hagrees : site.Agrees f e') :
          (if e'.values.isEmpty then { e' with values := #[⟨0, .int value⟩] } else e') =
            { e' with values := #[⟨0, .int value⟩] } := by
        have hvalues := hagrees.values
        unfold Site.ReadSoFar at hvalues
        rw [hv] at hvalues
        rcases hvalues with hempty | ⟨value', hvalue', hvalues⟩
        · rw [hempty]
          rfl
        · rw [hvalue] at hvalue'
          cases hvalue'
          rw [hvalues]
          cases e'
          cases hvalues
          rfl
      refine .modifyEntry (Nat.lt_succ_self i) (fun e => ?_) (fun hk _ => ?_)
        (.pure trivial And.right fun hk haffirms => ?_)
      · split
        · exact ⟨⟨id, id⟩, fun _ => rfl⟩
        · exact ⟨.refl e, fun _ => rfl⟩
      · obtain ⟨⟨hf, hstage⟩, hstage₁, hknown⟩ := hk
        obtain ⟨hvalue', _⟩ := hfound hf hstage
        have hv := htrue hf hstage (hknown value rfl)
        refine hstage₁.modifyEntry fun f' e' hf' _ hagrees => ?_
        rw [hf] at hf'
        cases hf'
        rw [hread hvalue' hv hagrees]
        refine hagrees.setValues ?_
        unfold Site.ReadSoFar
        rw [hvalue']
        exact .inr ⟨value, hv, rfl⟩
      · obtain ⟨⟨⟨hf, hstage⟩, hstage₁, _⟩, _⟩ := hk
        obtain ⟨hvalue', _⟩ := hfound hf hstage
        have hv := htrue hf hstage haffirms.2
        obtain ⟨e₁, he₁, hagrees⟩ := hstage₁.entryOf? hf
        refine ⟨{ e₁ with values := #[⟨0, .int value⟩] }, ?_, rfl, ?_⟩
        · rw [Workspace.entryOf?_modifyEntry, he₁]
          exact congrArg some (hread hvalue' hv hagrees)
        · unfold Site.HasRead
          rw [hvalue']
          exact ⟨value, hv, rfl⟩
  · intro fault _ ⟨hf, hstage⟩ _ href
    obtain ⟨hvalue', htrue⟩ := hfound hf hstage
    unfold Site.reads FieldFacts.FaultsWith
    dsimp only
    rw [hvalue']
    exact htrue.trans (Site.of_map_some_eq_error (Eq.symm href))

/-- **The elements of a scalar type.** Where it is not known where the field starts, reading them
would begin what may be wrong. -/
theorem readScalars (h : resolver.Faithful site) {countElements : Resolve (Option Int64)}
    (hfield : site.struct.field? i = some field)
    (hcount : site.Follows (s.facts[i]? = some f) (i + 1) i s countElements (site.counts i f))
    (hvalue : field.2.value = none) {t : ScalarType} (htype : field.2.type = .scalar t)
    (wanted : Wanted) :
    site.Follows (s.facts[i]? = some f) (i + 1) i s
      (resolver.readScalars countElements site.ref i field.2 t wanted) (site.reads i wanted f) := by
  have hfound {ws : Workspace} (hf : s.facts[i]? = some f) (hstage : site.AtStage s ws) :
      f.field = field.2 ∧ f.field.value = none ∧ f.field.type = .scalar t := by
    rw [hstage.field_eq hf hfield]
    exact ⟨rfl, hvalue, htype⟩
  unfold Resolver.readScalars
  refine ⟨fun {ws} hready => .follow (h.fieldOffset hfield false) hready id
    (fun offset ws₁ hready₁ htold₁ => ?_) ?_⟩
  · refine .follow hcount hready₁ (fun hk => ⟨hk.1.1, hk.2⟩)
      (fun count ws₂ hready₂ htold₂ => .get ?_) ?_
    · obtain ⟨e₀, he₀⟩ := hready.entryOf? (Nat.lt_succ_self i)
      have he : ws₂.entryOf? site.ref i = some { e₀ with offset := offset, count := count } :=
        htold₂ _ (htold₁ e₀ he₀)
      rw [he]
      dsimp only
      generalize hresult : ws₂.readElements site.ref.file field.2 t (count.getD 0) (offset.getD 0)
        (wanted.missing e₀.values.size (ws₂.fileSize site.ref.file))
        (e₀.nextElement.getD (offset.getD 0)) e₀.values = result
      have hread {start : Int64} (hf : s.facts[i]? = some f) (hstage : site.AtStage s ws₂)
          (hstart : offset = some start) :
          result = (f.reading site t (count.getD 0) start).first
            (e₀.values.size + wanted.missing e₀.values.size site.fileSize) := by
        obtain ⟨hfield', hvalue', htype'⟩ := hfound hf hstage
        have hsofar := (hstage.agrees i f _ hf he).first_size hvalue' htype' hstart
        rw [Reading.first_add, hsofar, ← hresult, hready₂.shown.readElements,
          hready₂.shown.fileSize, ← hfield', hstart]
        rfl
      refine .modifyEntry (Nat.lt_succ_self i) (fun e => ⟨⟨fun _ => rfl, id⟩, fun _ => rfl⟩)
        (fun hk hgood => ?_) (.pure trivial And.right fun hk haffirms => ?_)
      · obtain ⟨⟨⟨hf, _⟩, _⟩, hstage⟩ := hk
        obtain ⟨hfield', hvalue', htype'⟩ := hfound hf hstage
        cases offset with
        | none =>
          rcases hgood with ⟨⟨_, hoffset, _⟩, _⟩ | hspares
          · obtain ⟨_, _, hsome⟩ := Site.of_map_some_eq (Eq.symm (hoffset rfl))
            cases hsome
          · obtain ⟨_, hformula, _⟩ := hstage.offset_of_unknown hf hfield he rfl
            have hbegun := (hready₂.spares_modifyEntry he hfield hspares
              fun _ => ⟨fun _ => rfl, id⟩).1 rfl (by rw [hformula]; rfl)
            have hoffset := (hstage.agrees i f _ hf he).offset_isSome hvalue' htype' hbegun
            cases hoffset
        | some start =>
          refine hstage.modifyEntry fun f' e' hf' he' hagrees => ?_
          rw [hf] at hf'
          cases hf'
          rw [he] at he'
          cases he'
          rw [hread hf hstage rfl]
          exact hagrees.readTo hvalue' htype' rfl _
      · obtain ⟨⟨⟨⟨hf, _⟩, _⟩, hstage⟩, _⟩ := hk
        obtain ⟨⟨_, hoffset, _⟩, hcount⟩ := haffirms
        obtain ⟨_, hvalue', htype'⟩ := hfound hf hstage
        obtain ⟨start, hstart, rfl⟩ := Site.of_map_some_eq (Eq.symm (hoffset rfl))
        obtain ⟨c, hc, rfl⟩ := Site.of_map_some_eq (Eq.symm hcount)
        have hle : wanted.atLeast site.fileSize ≤
            e₀.values.size + wanted.missing e₀.values.size site.fileSize := by
          cases wanted with
          | first n =>
            rw [Wanted.atLeast, Wanted.missing]
            omega
          | throughZero => exact Nat.le_add_left _ _
        refine ⟨_, by rw [Workspace.entryOf?_modifyEntry, he]; rfl, rfl, ?_⟩
        unfold Site.HasRead
        rw [hvalue', htype']
        exact ⟨start, c, _, hstart, hc, hle, by rw [hread hf hstage rfl]; rfl⟩
    · rintro fault _ ⟨⟨hf, _⟩, hstage⟩ hgood href
      obtain ⟨_, hvalue', htype'⟩ := hfound hf hstage
      obtain ⟨start, hstart, _⟩ := Site.of_map_some_eq (Eq.symm (hgood.2.1 rfl))
      unfold Site.reads FieldFacts.FaultsWith Promise.since
      dsimp only
      rw [hvalue', htype']
      exact .inr ⟨⟨start, hstart⟩, Site.of_map_some_eq_error (Eq.symm href)⟩
  · rintro fault _ ⟨hf, hstage⟩ _ href
    obtain ⟨_, hvalue', htype'⟩ := hfound hf hstage
    unfold Site.reads FieldFacts.FaultsWith
    dsimp only
    rw [hvalue', htype']
    exact .inl (Site.of_map_some_eq_error (Eq.symm (href.1 rfl)))

/-- **The elements that are wanted** are read. -/
theorem consults_readValuesWith (h : resolver.Faithful site) {countElements : Resolve (Option Int64)}
    (hcount : ∀ {s : Stage} {f : FieldFacts} {field : String × Field},
      site.struct.field? i = some field →
      site.Follows (s.facts[i]? = some f) (i + 1) i s countElements (site.counts i f))
    {wanted : Wanted} (hwanted : wanted.metBy 0 = false) :
    resolver.Consults site i false i (resolver.readValuesWith countElements site.ref i wanted)
      (site.reads i wanted) false := by
  unfold Resolver.readValuesWith
  refine ⟨_, rfl, fun {s f field} hfield => ⟨fun {ws} hready =>
    .entry hready (Nat.lt_succ_self i) fun e he => ?_⟩, fun hnone => ?_⟩
  · dsimp only
    split
    · rename_i hmet
      refine .pure trivial And.right fun ⟨hf, hstage⟩ _ => ⟨e, he, hmet.symm, ?_⟩
      exact (hstage.agrees i f e hf he).hasRead hwanted hmet
    · refine .definition hready hfield ?_
      dsimp only
      split
      · rename_i hvalue
        exact h.readFormula hready hfield hvalue he wanted
      · rename_i hvalue htype
        exact (h.readScalars hfield (hcount hfield) hvalue htype wanted).yields hready
      · rename_i htype
        obtain ⟨t, ht⟩ := h.flat.scalar hfield
        rw [htype] at ht
        cases ht
  · rw [Resolve.runIn_bind, ByteAtlas.entryOf?, Resolve.runIn_ask, hnone]
    rfl

/-- **Something of an element**, read if need be. -/
theorem consults_readElement (h : resolver.Faithful site) {countElements : Resolve (Option Int64)}
    (hcount : ∀ {s : Stage} {f : FieldFacts} {field : String × Field},
      site.struct.field? i = some field →
      site.Follows (s.facts[i]? = some f) (i + 1) i s countElements (site.counts i f))
    (n : Nat) (g : Option Element → α) :
    resolver.Consults site i false i
      (do
        if ← resolver.readValuesWith countElements site.ref i (.first (n + 1)) then
          let entry ← ByteAtlas.entryOf? site.ref i
          pure (g (entry.bind fun e => e.values[n]?))
        else pure (g none))
      (fun f => .equal (g <$> f.element site n)) (g none) := by
  refine (h.consults_readValuesWith hcount rfl).bind
      (fun {s ws f field} hfield enough ws₁ hready _ => ?_)
    (fun f fault _ hfault => ?_) fun ws _ => rfl
  · have hread (hf : s.facts[i]? = some f) (hstage : site.AtStage s ws)
        (haffirms : (site.reads i (.first (n + 1)) f).affirms (.ok enough) ws₁) :
        ∃ e, ws₁.entryOf? site.ref i = some e ∧
          enough = Wanted.metBy (.first (n + 1)) e.values.size ∧
          f.element site n = .ok e.values[n]? := by
      obtain ⟨e, he, henough, hread⟩ := haffirms
      refine ⟨e, he, henough, hread.element ?_⟩
      rw [hstage.field_eq hf hfield]
      exact h.flat.scalar hfield
    cases enough with
    | false =>
      refine .pure trivial And.right fun ⟨⟨hf, hstage⟩, _⟩ haffirms => ?_
      obtain ⟨e, he, henough, helement⟩ := hread hf hstage haffirms.2
      have hle : ¬ n + 1 ≤ e.values.size := of_decide_eq_false henough.symm
      show Except.ok (g none) = g <$> f.element site n
      rw [helement, Array.getElem?_eq_none (by omega)]
      rfl
    | true =>
      refine .ask (.pure trivial And.right fun ⟨⟨hf, hstage⟩, _⟩ haffirms => ?_)
      obtain ⟨e, he, _, helement⟩ := hread hf hstage haffirms.2
      show Except.ok (g ((ws₁.entryOf? site.ref i).bind fun e => e.values[n]?)) =
        g <$> f.element site n
      rw [helement, he]
      rfl
  · show Except.error fault = g <$> f.element site n
    rw [FieldFacts.FaultsWith.element hfault]
    rfl

/-- **The integer reading of an element.** -/
theorem consults_intValueWith (h : resolver.Faithful site) {countElements : Resolve (Option Int64)}
    (hcount : ∀ {s : Stage} {f : FieldFacts} {field : String × Field},
      site.struct.field? i = some field →
      site.Follows (s.facts[i]? = some f) (i + 1) i s countElements (site.counts i f))
    (n : Nat) :
    resolver.Consults site i false i (resolver.intValueWith countElements site.ref i n)
      (fun f => .equal (f.intValue site n)) 0 := by
  unfold FieldFacts.intValue
  simp only [bind_pure_comp]
  exact h.consults_readElement hcount n fun element => element.elim 0 fun e => e.value.toInt

end Resolver.Faithful

/-! ## 5. Counts -/

theorem StructDef.field?_of_lt {d : StructDef} {j : Nat} (hfield : d.field? i = some field)
    (hj : j < i) : ∃ field', d.field? j = some field' :=
  ⟨_, List.getElem?_eq_getElem (Nat.lt_trans hj (List.getElem?_eq_some_iff.mp hfield).1)⟩

/-- A count that is not known yet is found from the one that is not cut to the limit. -/
theorem Site.AtStage.count_of_unknown {e : FieldEntry} (h : site.AtStage s ws)
    (hf : s.facts[i]? = some f) (hfield : site.struct.field? i = some field)
    (he : ws.entryOf? site.ref i = some e) (hnone : e.count = none) :
    f.count = (if e.present then
        if field.2.value.isSome then pure 1
        else site.unlimitedCount (s.facts.take i) i field.2
      else pure 0) >>= site.limited := by
  have hagrees := h.agrees i f e hf he
  have hvalue : f.field.value = none := by
    rw [← Option.not_isSome_iff_eq_none]
    intro hvalue
    have hsome := hagrees.counted hvalue
    rw [hnone] at hsome
    cases hsome
  have hsame := h.field_eq hf hfield
  rw [hagrees.present, (h.facts i f hf).eq]
  unfold Site.factsOf Site.countOf
  dsimp only
  rw [← hsame, hvalue]
  cases f.present <;> rfl

namespace Resolver.Faithful

theorem argOrParam {given : Prop} {next : Option Int64 → Resolve α}
    {ref : Option Int64 → Except Fault α} (name : String)
    (hn : ∀ base, site.Follows given b c s (next base) (.equal (ref base))) :
    site.Follows given b c s (ByteAtlas.argOrParam site.ref site.struct name >>= next)
      (.equal (ref (site.argOrParam name))) := by
  refine .ask fun ws hshown => ?_
  rw [hshown.args]
  exact hn _

theorem runIn_limitCount (hshown : site.ShownIn ws) (count : Int64) :
    ∃ limitHits, (ByteAtlas.limitCount count).runIn ws =
      (site.limited count, { ws with limitHits }) := by
  unfold ByteAtlas.limitCount Site.limited
  simp only [Resolve.runIn_bind, Resolve.runIn_ask, hshown.limit]
  by_cases hlt : site.maxElements < count <;> by_cases hneg : site.maxElements < 0 <;>
    simp only [hlt, hneg, if_true, if_false] <;> exact ⟨_, rfl⟩

/-- **Cutting a count** to the limit depends on nothing but the limit. -/
theorem limitCount (given : Prop) (i : Nat) (count : Int64) :
    site.Follows given b c s (ByteAtlas.limitCount count)
      ⟨fun ws a ws' => site.limited count = .ok a ∧
        ws'.entryOf? site.ref i = ws.entryOf? site.ref i,
        fun result _ => result = site.limited count⟩ := by
  refine ⟨fun {ws} hready => ?_⟩
  obtain ⟨limitHits, hrun⟩ := runIn_limitCount hready.shown count
  exact .of_run hrun (.of_layoutOf ⟨rfl, rfl, rfl, rfl, fun _ _ => rfl⟩ (Nat.le_refl _) rfl)
    (fun _ h => ⟨h, rfl⟩) (fun hk => hk.2.of_layoutOf rfl rfl) fun _ _ => rfl

/-- A count that refers to a name. -/
theorem namedCount (h : resolver.Faithful site) (hfield : site.struct.field? i = some field)
    (hlower : ∀ {j : Nat}, j < i → ∀ {s : Stage} {f : FieldFacts} {field : String × Field},
      site.struct.field? j = some field →
      site.Follows (s.facts[j]? = some f) (j + 1) j s (resolver.elementCount site.ref j false)
        (site.counts j f)) (source : String) (added : Int64) :
    site.Follows (s.facts[i]? = some f) i i s
      (do
        let base ←
          match site.struct.fieldIndex? source with
          | some j =>
            if _h : j < i then
              some <$> resolver.intValueWith (resolver.elementCount site.ref j false) site.ref j 0
            else ByteAtlas.argOrParam site.ref site.struct source
          | none => ByteAtlas.argOrParam site.ref site.struct source
        pure (some (base.elim 0 (· + added))))
      (.equal (some <$> do
        let base ←
          match site.struct.fieldIndex? source with
          | some j =>
            match if j < i then (s.facts.take i)[j]? else none with
            | some f => some <$> f.intValue site 0
            | none => pure (site.argOrParam source)
          | none => pure (site.argOrParam source)
        pure (base.elim 0 (· + added)))) := by
  have hother : site.Follows (s.facts[i]? = some f) i i s
      (do
        let base ← ByteAtlas.argOrParam site.ref site.struct source
        pure (some (base.elim 0 (· + added))))
      (.equal (pure (some ((site.argOrParam source).elim 0 (· + added))))) :=
    argOrParam source fun _ => .pure _
  cases site.struct.fieldIndex? source with
  | none => exact hother
  | some j =>
    by_cases hj : j < i
    · dsimp only
      rw [dif_pos hj, if_pos hj, List.getElem?_take_of_lt hj]
      obtain ⟨_, hfieldj⟩ := StructDef.field?_of_lt hfield hj
      have hbase {fj : FieldFacts} (hfj : s.facts[i]? = some f → s.facts[j]? = some fj) :
          site.Follows (s.facts[i]? = some f) i i s
            (do
              let base ← some <$> resolver.intValueWith (resolver.elementCount site.ref j false)
                site.ref j 0
              pure (some (base.elim 0 (· + added))))
            (.equal (some <$> do
              let base ← some <$> fj.intValue site 0
              pure (base.elim 0 (· + added)))) := by
        have hint : site.Follows (s.facts[j]? = some fj) (j + 1) j s
            (resolver.intValueWith (resolver.elementCount site.ref j false) site.ref j 0)
            (.equal (fj.intValue site 0)) :=
          (h.consults_intValueWith (hlower hj) 0).follows hfieldj fun _ _ _ _ _ _ => trivial
        refine ((((hint.mono hfj).widen hj (Nat.le_of_lt hj)).map some).bind fun base =>
          .pure (some (base.elim 0 (· + added)))).of_eq fun _ => ?_
        cases fj.intValue site 0 <;> rfl
      cases hfj : s.facts[j]? with
      | none =>
        have hnot : s.facts[i]? ≠ some f := by
          intro hf
          have hi := (List.getElem?_eq_some_iff.mp hf).1
          have hj' := List.getElem?_eq_none_iff.mp hfj
          omega
        exact (@hbase f fun hf => absurd hf hnot).of_eq fun hf => absurd hf hnot
      | some fj => exact hbase fun _ => hfj
    · dsimp only
      rw [dif_neg hj, if_neg hj]
      exact hother

/-- A count before it is cut to the limit. -/
theorem unlimitedCount (h : resolver.Faithful site) (hfield : site.struct.field? i = some field)
    (hlower : ∀ {j : Nat}, j < i → ∀ {s : Stage} {f : FieldFacts} {field : String × Field},
      site.struct.field? j = some field →
      site.Follows (s.facts[j]? = some f) (j + 1) j s (resolver.elementCount site.ref j false)
        (site.counts j f)) :
    site.Follows (s.facts[i]? = some f) i i s
      (do
        let d ← structOf? site.ref
        let d := d.getD .empty
        match d.field? i with
        | none => pure (some 0)
        | some (_, field) =>
          if field.value.isSome then pure (some 1)
          else
            match field.countSource with
            | .literal => pure (some field.count)
            | .fileSize =>
              let size ← Resolve.ask fun ws => ws.fileSize site.ref.file
              pure (some (Int64.ofNat size + field.count))
            | .named source =>
              let base ←
                match d.fieldIndex? source with
                | some j =>
                  if _h : j < i then
                    some <$> resolver.intValueWith (resolver.elementCount site.ref j false)
                      site.ref j 0
                  else ByteAtlas.argOrParam site.ref d source
                | none => ByteAtlas.argOrParam site.ref d source
              pure (some (base.elim 0 (· + field.count))))
      (.equal (some <$>
        if field.2.value.isSome then pure 1
        else site.unlimitedCount (s.facts.take i) i field.2)) := by
  refine .ask fun ws hshown => ?_
  rw [hshown.struct]
  dsimp only [Option.getD_some]
  rw [hfield]
  dsimp only
  split
  · exact .pure _
  · unfold Site.unlimitedCount
    cases field.2.countSource with
    | literal => exact .pure _
    | fileSize =>
      refine .ask fun ws hshown => ?_
      rw [hshown.fileSize]
      exact .pure _
    | named source => exact h.namedCount hfield hlower source field.2.count

/-- A count is cut to the limit and kept. -/
theorem keepCount {known good : Prop} (hready : site.Ready (i + 1) ws) {count : Int64}
    {e : FieldEntry} (he : ws.entryOf? site.ref i = some e)
    (hstage : known → s.facts[i]? = some f ∧ site.AtStage s ws)
    (hcount : known → f.count = site.limited count) {q : Promise (Option Int64)}
    (htold : ∀ count ws', ws'.entryOf? site.ref i = some { e with count := some count } →
      q.told ws (some count) ws')
    (haffirms : ∀ result ws', result = some <$> f.count → q.affirms result ws') :
    site.Yields (i + 1) i s known good ws
      (do
        let count ← ByteAtlas.limitCount count
        modifyEntry site.ref i fun e => { e with count := some count }
        pure (some count)) q := by
  refine .follow (limitCount known i count) hready (fun hk => ⟨hk, (hstage hk).2⟩)
    (fun count' ws₁ _ ⟨hlimited, hsame⟩ => ?_) fun fault ws₁ hk _ href => ?_
  · refine .modifyEntry (Nat.lt_succ_self i) (fun e => ⟨⟨id, id⟩, fun _ => rfl⟩) (fun hk _ => ?_)
      (.pure (htold count' _ ?_) And.right fun hk _ => ?_)
    · refine hk.2.modifyEntry fun f' e' hf' _ hagrees => ?_
      rw [(hstage hk.1).1] at hf'
      cases hf'
      exact hagrees.setCount ((hcount hk.1).trans hlimited)
    · rw [Workspace.entryOf?_modifyEntry, hsame, he]
      rfl
    · refine haffirms _ _ ?_
      rw [hcount hk.1.1, hlimited]
      rfl
  · refine haffirms _ _ ?_
    have href : .error fault = site.limited count := href
    rw [hcount hk, ← href]
    rfl

/-- **A count that is not known yet** is found and kept. -/
theorem consults_elementCount_of (h : resolver.Faithful site)
    (hlower : ∀ {j : Nat}, j < i → ∀ {s : Stage} {f : FieldFacts} {field : String × Field},
      site.struct.field? j = some field →
      site.Follows (s.facts[j]? = some f) (j + 1) j s (resolver.elementCount site.ref j false)
        (site.counts j f)) (isLazy : Bool) :
    resolver.Consults site i isLazy i (resolver.elementCount site.ref i isLazy) (site.counts i)
      none := by
  unfold Resolver.elementCount
  refine ⟨_, rfl, fun {s f field} hfield => ⟨fun {ws} hready =>
    .entry hready (Nat.lt_succ_self i) fun e he => ?_⟩, fun hnone => ?_⟩
  · dsimp only
    have htold {ws₁ : Workspace} (hsame : ws₁.entryOf? site.ref i = ws.entryOf? site.ref i) :
        (site.counts i f).told ws e.count ws₁ := by
      intro e' he'
      rw [he] at he'
      cases he'
      rw [hsame, he]
    have hkeep (count : Int64) (ws' : Workspace)
        (he' : ws'.entryOf? site.ref i = some { e with count := some count }) :
        (site.counts i f).told ws (some count) ws' := by
      intro e' hsame
      rw [he] at hsame
      cases hsame
      exact he'
    by_cases hsome : e.count.isSome
    · rw [if_pos hsome]
      refine .pure (htold rfl) And.right fun ⟨hf, hstage⟩ _ => ?_
      obtain ⟨n, hn⟩ := Option.isSome_iff_exists.mp hsome
      show Except.ok e.count = some <$> f.count
      rw [hn, (hstage.agrees i f e hf he).count n hn]
      rfl
    · rw [if_neg hsome]
      have hnone := Option.not_isSome_iff_eq_none.mp hsome
      cases hpresent : e.present with
      | false =>
        refine keepCount hready he id (fun ⟨hf, hstage⟩ => ?_) hkeep fun _ _ => id
        rw [hstage.count_of_unknown hf hfield he hnone, hpresent]
        rfl
      | true =>
        have htrue (hf : s.facts[i]? = some f) (hstage : site.AtStage s ws) :
            f.count = (if field.2.value.isSome then pure 1
              else site.unlimitedCount (s.facts.take i) i field.2) >>= site.limited := by
          rw [hstage.count_of_unknown hf hfield he hnone, hpresent, if_pos rfl]
        refine .guarded (((h.unlimitedCount hfield hlower).aside (Nat.le_refl i)).yields hready)
          (fun count ws₁ hsteady hkept => ?_) fun fault ws₁ hk _ href => ?_
        · obtain ⟨_, hsame⟩ := hkept
          have hsame : ws₁.entryOf? site.ref i = ws.entryOf? site.ref i := hsame
          cases count with
          | none =>
            refine .pure (hnone ▸ htold hsame) (fun hk => hk.2.1) fun hk haffirms => ?_
            obtain ⟨_, _, hsome⟩ := Site.of_map_some_eq (Eq.symm haffirms.2)
            cases hsome
          | some count =>
            refine keepCount (hready.steady hsteady) (hsame.trans he)
              (fun hk => ⟨hk.1.1, hk.2.1⟩) (fun hk => ?_) hkeep fun _ _ => id
            obtain ⟨⟨hf, hstage⟩, _, hknown⟩ := hk
            obtain ⟨_, hcount, hsome⟩ := Site.of_map_some_eq (Eq.symm (hknown count rfl))
            cases hsome
            rw [htrue hf hstage, hcount]
            rfl
        · show Except.error fault = some <$> f.count
          rw [htrue hk.1 hk.2, Site.of_map_some_eq_error (Eq.symm href)]
          rfl
  · rw [Resolve.runIn_bind, ByteAtlas.entryOf?, Resolve.runIn_ask, hnone]
    rfl

/-- The count of a field, in the course of another step. -/
theorem elementCount (h : resolver.Faithful site) (isLazy : Bool) :
    ∀ {i : Nat} {s : Stage} {f : FieldFacts} {field : String × Field},
      site.struct.field? i = some field →
      site.Follows (s.facts[i]? = some f) (i + 1) i s (resolver.elementCount site.ref i isLazy)
        (site.counts i f) := by
  intro i
  induction i using Nat.strongRecOn generalizing isLazy with
  | _ i ih =>
    intro s f field hfield
    exact (h.consults_elementCount_of (ih _ · _) isLazy).follows hfield
      fun _ _ _ _ hsame htold e he => htold e (by rw [hsame, he])

theorem consults_elementCount (h : resolver.Faithful site) (i : Nat) (isLazy : Bool) :
    resolver.Consults site i isLazy i (resolver.elementCount site.ref i isLazy) (site.counts i)
      none :=
  h.consults_elementCount_of (fun _ => h.elementCount false) isLazy

end Resolver.Faithful

end

end ByteAtlas
