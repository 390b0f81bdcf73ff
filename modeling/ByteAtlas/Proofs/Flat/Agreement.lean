import ByteAtlas.Proofs.Flat.Reference
import ByteAtlas.Proofs.Resolve.Sound

/-!
# Layouts that agree with the facts

A layout keeps the answers found so far, in no particular order. It agrees with the facts if each
answer that is kept is the true one (`Site.Agrees`), and it is at a `Stage` if it has an entry for
each of the first fields and each of them agrees (`Site.AtStage`). All that is asked of an instance
concerns the layout of this instance alone (`Workspace.Beside`).

Where a frame is refused an answer may be wrong, and some wrong answers are kept: elements that are
read from the start of the file because their offset was refused, and previews that are joined
without elements that were refused. Both leave a trace. What is begun on a field stays begun
(`Workspace.Onward`), so where nothing of the kind has been begun nothing wrong is kept
(`Workspace.Spares`).
-/

namespace ByteAtlas

/-! ## 1. Everything beside a layout -/

/-- **Whether two workspaces differ in nothing but the layout of one instance** and the counters. -/
structure Workspace.Beside (r : InstanceRef) (ws ws' : Workspace) : Prop where
  schema : ws'.schema = ws.schema
  files : ws'.files = ws.files
  limits : ws'.limits = ws.limits
  directory : ws'.directory = ws.directory
  others : ∀ id, r.id ≠ id → ws'.layouts[id]? = ws.layouts[id]?

namespace Workspace.Beside

variable {r : InstanceRef} {ws ws' ws'' : Workspace}

theorem refl (r : InstanceRef) (ws : Workspace) : ws.Beside r ws :=
  ⟨rfl, rfl, rfl, rfl, fun _ _ => rfl⟩

theorem trans (h : ws.Beside r ws') (h' : ws'.Beside r ws'') : ws.Beside r ws'' :=
  ⟨h'.schema.trans h.schema, h'.files.trans h.files, h'.limits.trans h.limits,
    h'.directory.trans h.directory, fun id hid => (h'.others id hid).trans (h.others id hid)⟩

/-- Changing the layout. -/
theorem modifyLayout (f : Layout → Layout) : ws.Beside r (ws.modifyLayout r f) :=
  ⟨rfl, rfl, rfl, rfl, (Workspace.sets_modifyLayout ws r f).others⟩

theorem structOf? (h : ws.Beside r ws') (other : InstanceRef) :
    ws'.structOf? other = ws.structOf? other := by
  rw [Workspace.structOf?, h.schema]
  rfl

theorem find? (h : ws.Beside r ws') (id : InstanceId) : ws'.find? id = ws.find? id := by
  rw [Workspace.find?, h.directory]
  rfl

theorem stampOf (h : ws.Beside r ws') (other : InstanceRef) (d : StructDef) :
    ws'.stampOf other d = ws.stampOf other d := by
  rw [Workspace.stampOf, Workspace.versionOf, h.find?]
  rfl

end Workspace.Beside

/-! ## 2. What is begun -/

/-- Whether what has been begun on a field stays begun: its elements and its preview. -/
structure FieldEntry.Onward (e e' : FieldEntry) : Prop where
  elements : e.nextElement.isSome → e'.nextElement.isSome
  preview : e.preview.isSome → e'.preview.isSome

theorem FieldEntry.Onward.refl (e : FieldEntry) : e.Onward e := ⟨id, id⟩

theorem FieldEntry.Onward.trans {a b c : FieldEntry} (hab : a.Onward b) (hbc : b.Onward c) :
    a.Onward c :=
  ⟨hbc.elements ∘ hab.elements, hbc.preview ∘ hab.preview⟩

namespace Workspace

/-- What is known about a field of an instance, unless it is out of date. -/
def entryNow? (ws : Workspace) (r : InstanceRef) (i : Nat) : Option FieldEntry :=
  if (ws.layoutOf r).stamp = ws.stampNow? r then ws.entryOf? r i else none

/-- Whether what has been begun on the fields of an instance stays begun. -/
structure Onward (r : InstanceRef) (ws ws' : Workspace) : Prop where
  schema : ws'.schema = ws.schema
  entry : ∀ i e, ws.entryNow? r i = some e → ∃ e', ws'.entryNow? r i = some e' ∧ e.Onward e'

/-- **Whether nothing has been begun that may be wrong** where a frame was refused: no elements of a
field that lies where an expression says, and no preview. -/
def Spares (r : InstanceRef) (ws ws' : Workspace) : Prop :=
  ∀ i e', ws'.entryNow? r i = some e' →
    (e'.nextElement.isSome → (∃ f, ws.fieldOf? r i = some f ∧ f.2.offsetFormula.isSome) →
      ∃ e, ws.entryNow? r i = some e ∧ e.nextElement.isSome) ∧
    (e'.preview.isSome → ∃ e, ws.entryNow? r i = some e ∧ e.preview.isSome)

variable {r : InstanceRef} {ws ws₁ ws' : Workspace}

theorem Onward.refl (r : InstanceRef) (ws : Workspace) : ws.Onward r ws :=
  ⟨rfl, fun _ e he => ⟨e, he, .refl e⟩⟩

theorem Onward.trans (h : ws.Onward r ws₁) (h' : ws₁.Onward r ws') : ws.Onward r ws' := by
  refine ⟨h'.schema.trans h.schema, fun i e he => ?_⟩
  obtain ⟨e₁, he₁, hon⟩ := h.entry i e he
  obtain ⟨e', he', hon'⟩ := h'.entry i e₁ he₁
  exact ⟨e', he', hon.trans hon'⟩

theorem Onward.fieldOf? (h : ws.Onward r ws') (i : Nat) : ws'.fieldOf? r i = ws.fieldOf? r i := by
  rw [Workspace.fieldOf?, Workspace.structOf?, h.schema]
  rfl

/-- **The first part** of what has begun nothing has begun nothing. -/
theorem Spares.first (h : ws.Spares r ws') (hon : ws₁.Onward r ws') : ws.Spares r ws₁ := by
  intro i e₁ he₁
  obtain ⟨e', he', hentry⟩ := hon.entry i e₁ he₁
  obtain ⟨helements, hpreview⟩ := h i e' he'
  exact ⟨fun hsome => helements (hentry.elements hsome),
    fun hsome => hpreview (hentry.preview hsome)⟩

/-- **The rest** of what has begun nothing has begun nothing. -/
theorem Spares.rest (h : ws.Spares r ws') (hon : ws.Onward r ws₁) : ws₁.Spares r ws' := by
  intro i e' he'
  obtain ⟨helements, hpreview⟩ := h i e' he'
  rw [hon.fieldOf?]
  refine ⟨fun hsome hformula => ?_, fun hsome => ?_⟩
  · obtain ⟨e, he, hbegun⟩ := helements hsome hformula
    obtain ⟨e₁, he₁, hentry⟩ := hon.entry i e he
    exact ⟨e₁, he₁, hentry.elements hbegun⟩
  · obtain ⟨e, he, hbegun⟩ := hpreview hsome
    obtain ⟨e₁, he₁, hentry⟩ := hon.entry i e he
    exact ⟨e₁, he₁, hentry.preview hbegun⟩

/-- What is known being the same, nothing has been begun. -/
theorem Spares.of_layoutOf (hlayout : ws'.layoutOf r = ws.layoutOf r)
    (hnow : ws'.stampNow? r = ws.stampNow? r) : ws.Spares r ws' := by
  intro i e he
  have hsame : ws.entryNow? r i = some e := by
    rw [← he, entryNow?, entryNow?, entryOf?, entryOf?, hlayout, hnow]
  exact ⟨fun hnext _ => ⟨e, hsame, hnext⟩, fun hpreview => ⟨e, hsame, hpreview⟩⟩

end Workspace

/-! ## 3. Sites in a workspace -/

/-- **Whether a workspace shows a site.** -/
structure Site.ShownIn (site : Site) (ws : Workspace) : Prop where
  struct : ws.structOf? site.ref = some site.struct
  placed : ∃ i, ws.find? site.ref.id = some i ∧ i.args = site.args ∧ i.budget = site.budget ∧
    i.sizeOverride = site.sizeOverride
  files : ws.files = site.files
  limit : ws.limits.maxElements = site.maxElements

namespace Site.ShownIn

variable {site : Site} {ws ws' : Workspace}

theorem args (h : site.ShownIn ws) (name : String) :
    ws.argOf? site.ref name = argValue? name site.args := by
  obtain ⟨i, hi, hargs, _⟩ := h.placed
  rw [Workspace.argOf?, hi, ← hargs]
  rfl

theorem beside (h : site.ShownIn ws) (hb : ws.Beside site.ref ws') : site.ShownIn ws' := by
  refine ⟨(hb.structOf? _).trans h.struct, ?_, hb.files.trans h.files, ?_⟩
  · rw [hb.find?]
    exact h.placed
  · rw [hb.limits]
    exact h.limit

theorem stampNow? (h : site.ShownIn ws) :
    ws.stampNow? site.ref = some (ws.stampOf site.ref site.struct) := by
  rw [Workspace.stampNow?, h.struct]
  rfl

theorem fieldOf? (h : site.ShownIn ws) (i : Nat) :
    ws.fieldOf? site.ref i = site.struct.field? i := by
  rw [Workspace.fieldOf?, h.struct]

theorem fileSize (h : site.ShownIn ws) : ws.fileSize site.ref.file = site.fileSize := by
  unfold Site.fileSize Workspace.fileSize Workspace.file?
  rw [h.files]
  rfl

theorem read (h : site.ShownIn ws) (offset : Int64) (length : Nat) :
    ws.read site.ref.file offset length = site.workspace.read site.ref.file offset length := by
  unfold Workspace.read Workspace.file?
  rw [h.files]
  rfl

theorem readElements (h : site.ShownIn ws) (f : Field) (t : ScalarType) (count start : Int64)
    (n : Nat) : ∀ (next : Int64) (values : Array Element),
      ws.readElements site.ref.file f t count start n next values =
        site.workspace.readElements site.ref.file f t count start n next values := by
  induction n with
  | zero => exact fun _ _ => rfl
  | succ n ih =>
    intro next values
    unfold Workspace.readElements
    rw [h.read, ih]

end Site.ShownIn

/-! ## 4. Steps that stay where they are -/

/-- **Whether only what is known of fields has changed**: of the entries those before `b`, and of
the previews those before `c`. -/
structure Workspace.Steady (r : InstanceRef) (b c : Nat) (ws ws' : Workspace) : Prop
    extends Workspace.Beside r ws ws' where
  refusals : ws.refusals ≤ ws'.refusals
  stamp : (ws'.layoutOf r).stamp = (ws.layoutOf r).stamp
  cursor : (ws'.layoutOf r).cursor = (ws.layoutOf r).cursor
  measuring : (ws'.layoutOf r).measuring = (ws.layoutOf r).measuring
  size : (ws'.layoutOf r).size = (ws.layoutOf r).size
  count : (ws'.layoutOf r).entries.size = (ws.layoutOf r).entries.size
  later : ∀ j, b ≤ j → ws'.entryOf? r j = ws.entryOf? r j
  entry : ∀ j e, ws.entryOf? r j = some e → ∃ e', ws'.entryOf? r j = some e' ∧ e.Onward e' ∧
    (c ≤ j → e'.preview = e.preview)

namespace Workspace.Steady

variable {r : InstanceRef} {b b' c c' : Nat} {ws ws₁ ws' : Workspace}

/-- The same layout, and no refusal taken back. -/
theorem of_layoutOf (hb : ws.Beside r ws') (hr : ws.refusals ≤ ws'.refusals)
    (hl : ws'.layoutOf r = ws.layoutOf r) : ws.Steady r b c ws' := by
  have hentry (j : Nat) : ws'.entryOf? r j = ws.entryOf? r j := by
    rw [Workspace.entryOf?, hl]
    rfl
  refine ⟨hb, hr, ?_, ?_, ?_, ?_, ?_, fun j _ => hentry j, fun j e he => ?_⟩
  iterate 5 rw [hl]
  exact ⟨e, (hentry j).trans he, .refl e, fun _ => rfl⟩

theorem refl (r : InstanceRef) (b c : Nat) (ws : Workspace) : ws.Steady r b c ws :=
  of_layoutOf (.refl r ws) (Nat.le_refl _) rfl

theorem trans (h : ws.Steady r b c ws₁) (h' : ws₁.Steady r b c ws') : ws.Steady r b c ws' := by
  refine ⟨h.toBeside.trans h'.toBeside, Nat.le_trans h.refusals h'.refusals,
    h'.stamp.trans h.stamp, h'.cursor.trans h.cursor, h'.measuring.trans h.measuring,
    h'.size.trans h.size, h'.count.trans h.count,
    fun j hj => (h'.later j hj).trans (h.later j hj), fun j e he => ?_⟩
  obtain ⟨e₁, he₁, hon, hpreview⟩ := h.entry j e he
  obtain ⟨e', he', hon', hpreview'⟩ := h'.entry j e₁ he₁
  exact ⟨e', he', hon.trans hon', fun hj => (hpreview' hj).trans (hpreview hj)⟩

/-- More may have changed. -/
theorem mono (h : ws.Steady r b c ws') (hb : b ≤ b') (hc : c ≤ c') : ws.Steady r b' c' ws' := by
  refine ⟨h.toBeside, h.refusals, h.stamp, h.cursor, h.measuring, h.size, h.count,
    fun j hj => h.later j (Nat.le_trans hb hj), fun j e he => ?_⟩
  obtain ⟨e', he', hon, hpreview⟩ := h.entry j e he
  exact ⟨e', he', hon, fun hj => hpreview (Nat.le_trans hc hj)⟩

/-- A change of one entry. -/
theorem modifyEntry {i : Nat} {g : FieldEntry → FieldEntry} (hi : i < b)
    (hg : ∀ e, e.Onward (g e) ∧ (c ≤ i → (g e).preview = e.preview)) :
    ws.Steady r b c (ws.modifyLayout r (·.modifyEntry i g)) := by
  have hl := Workspace.layoutOf_modifyLayout ws r (·.modifyEntry i g)
  have hentry (j : Nat) : (ws.modifyLayout r (·.modifyEntry i g)).entryOf? r j =
      if i = j then (ws.entryOf? r j).map g else ws.entryOf? r j := by
    rw [Workspace.entryOf?, hl]
    exact Array.getElem?_modify
  refine ⟨.modifyLayout _, Nat.le_refl _, ?_, ?_, ?_, ?_, ?_, fun j hj => ?_, fun j e he => ?_⟩
  · rw [hl]
    rfl
  · rw [hl]
    rfl
  · rw [hl]
    rfl
  · rw [hl]
    rfl
  · rw [hl]
    exact Array.size_modify
  · rw [hentry, if_neg (by omega)]
  · rw [hentry, he]
    by_cases hij : i = j
    · rw [if_pos hij]
      exact ⟨g e, rfl, (hg e).1, fun hj => (hg e).2 (hij ▸ hj)⟩
    · rw [if_neg hij]
      exact ⟨e, rfl, .refl e, fun _ => rfl⟩

theorem entryNow? (h : ws.Steady r b c ws') {i : Nat} :
    ws'.entryNow? r i = if (ws.layoutOf r).stamp = ws.stampNow? r then ws'.entryOf? r i else none := by
  have hnow : ws'.stampNow? r = ws.stampNow? r := by
    unfold Workspace.stampNow?
    rw [h.structOf?]
    cases ws.structOf? r with
    | none => rfl
    | some d => exact congrArg some (h.stampOf r d)
  rw [Workspace.entryNow?, h.stamp, hnow]

theorem onward (h : ws.Steady r b c ws') : ws.Onward r ws' := by
  refine ⟨h.schema, fun i e he => ?_⟩
  rw [h.entryNow?]
  unfold Workspace.entryNow? at he
  split at he
  · rename_i hstamp
    rw [if_pos hstamp]
    obtain ⟨e', he', hon, _⟩ := h.entry i e he
    exact ⟨e', he', hon⟩
  · cases he

end Workspace.Steady

/-- **Whether a workspace shows a site with so many fields laid out** at least. -/
structure Site.Ready (site : Site) (b : Nat) (ws : Workspace) : Prop where
  shown : site.ShownIn ws
  current : (ws.layoutOf site.ref).stamp = some (ws.stampOf site.ref site.struct)
  count : b ≤ (ws.layoutOf site.ref).entries.size

namespace Site.Ready

variable {site : Site} {b b' c : Nat} {ws ws' : Workspace}

theorem mono (h : site.Ready b ws) (hb : b' ≤ b) : site.Ready b' ws :=
  ⟨h.shown, h.current, Nat.le_trans hb h.count⟩

theorem steady {d : Nat} (h : site.Ready b ws) (hs : ws.Steady site.ref d c ws') :
    site.Ready b ws' :=
  ⟨h.shown.beside hs.toBeside, by rw [hs.stamp, h.current, hs.stampOf],
      by rw [hs.count]; exact h.count⟩

theorem entryNow? (h : site.Ready b ws) (i : Nat) :
    ws.entryNow? site.ref i = ws.entryOf? site.ref i := by
  rw [Workspace.entryNow?, if_pos (h.current.trans h.shown.stampNow?.symm)]

/-- The entry of a field that is laid out. -/
theorem entryOf? (h : site.Ready b ws) {i : Nat} (hi : i < b) :
    ∃ e, ws.entryOf? site.ref i = some e :=
  ⟨_, Array.getElem?_eq_getElem (Nat.lt_of_lt_of_le hi h.count)⟩

/-- **A change of an entry that begins nothing** that may be wrong. -/
theorem spares_modifyEntry {i : Nat} {e : FieldEntry} {field : String × Field}
    {g : FieldEntry → FieldEntry} (h : site.Ready b ws) (he : ws.entryOf? site.ref i = some e)
    (hfield : site.struct.field? i = some field)
    (hs : ws.Spares site.ref (ws.modifyLayout site.ref (·.modifyEntry i g)))
    (hg : ∀ e : FieldEntry, e.Onward (g e)) :
    ((g e).nextElement.isSome → field.2.offsetFormula.isSome → e.nextElement.isSome) ∧
      ((g e).preview.isSome → e.preview.isSome) := by
  have hready : site.Ready b (ws.modifyLayout site.ref (·.modifyEntry i g)) :=
    h.steady (.modifyEntry (b := i + 1) (c := i + 1) (Nat.lt_succ_self i)
      fun e => ⟨hg e, fun hle => absurd hle (Nat.not_succ_le_self i)⟩)
  have he' : (ws.modifyLayout site.ref (·.modifyEntry i g)).entryNow? site.ref i = some (g e) := by
    rw [hready.entryNow?, Workspace.entryOf?_modifyEntry, he]
    rfl
  obtain ⟨helements, hpreview⟩ := hs i (g e) he'
  rw [h.entryNow?, he, h.shown.fieldOf?, hfield] at helements
  rw [h.entryNow?, he] at hpreview
  refine ⟨fun hnext hformula => ?_, fun hsome => ?_⟩
  · obtain ⟨_, heq, hbegun⟩ := helements hnext ⟨field, rfl, hformula⟩
    cases heq
    exact hbegun
  · obtain ⟨_, heq, hbegun⟩ := hpreview hsome
    cases heq
    exact hbegun

end Site.Ready

/-! ## 5. Entries -/

theorem ScalarType.ofNat_size_pos (t : ScalarType) : 0 < Int64.ofNat t.size := by
  cases t with
  | int t => cases t <;> decide
  | pad | char | f32 | f64 => decide

/-- A field without a count has no elements. -/
theorem Reading.first_of_count_eq_zero {g : Reading} (h : g.count = 0) (n : Nat) :
    g.first n = (#[], g.start) := by
  refine readOn_of_end ?_ n
  unfold hasNext Field.hasNext
  rw [h]
  dsimp only
  cases g.field.countIsBytes with
  | false => rfl
  | true =>
    rw [if_pos rfl, Int64.sub_self, Int64.zero_add,
      decide_eq_false (Int64.not_le.mpr g.type.ofNat_size_pos), Bool.false_and]

/-- How far the elements of a field have been read: from where the field is known to start, and none
where it is not known how many there are. -/
def Site.ReadSoFar (site : Site) (f : FieldFacts) (e : FieldEntry) : Prop :=
  match f.field.value, f.field.type with
  | some _, _ => e.values = #[] ∨ ∃ value, f.value = .ok value ∧ e.values = #[⟨0, .int value⟩]
  | none, .scalar t =>
    (e.count = none → e.values = #[]) ∧
      match e.nextElement with
      | none => e.values = #[]
      | some next => ∃ start, e.offset = some start ∧
        (f.reading site t (e.count.getD 0) start).first e.values.size = (e.values, next)
  | none, .struct _ => True

/-- **Whether what is known of a field is true.** -/
structure Site.Agrees (site : Site) (f : FieldFacts) (e : FieldEntry) : Prop where
  present : e.present = f.present
  origin : e.origin = f.origin
  offset : ∀ n, e.offset = some n → f.offset = .ok n
  /-- An offset that takes no expression is known from the start. -/
  placed : f.field.value.isSome || f.field.offsetFormula.isNone → e.offset.isSome
  count : ∀ n, e.count = some n → f.count = .ok n
  counted : f.field.value.isSome → e.count.isSome
  total : ∀ n, e.totalSize = some n → f.total site = .ok n
  values : site.ReadSoFar f e
  preview : ∀ p, e.preview = some p → f.preview site = .ok p

namespace Site.Agrees

variable {site : Site} {f : FieldFacts} {e : FieldEntry}

/-- **How far a scalar field has been read**, once it is known where it starts. -/
theorem first_size (h : site.Agrees f e) (hvalue : f.field.value = none) {t : ScalarType}
    (htype : f.field.type = .scalar t) {start : Int64} (hstart : e.offset = some start) :
    (f.reading site t (e.count.getD 0) start).first e.values.size =
      (e.values, e.nextElement.getD start) := by
  have hvalues := h.values
  unfold Site.ReadSoFar at hvalues
  rw [hvalue, htype] at hvalues
  obtain ⟨_, hvalues⟩ := hvalues
  cases hnext : e.nextElement with
  | none =>
    rw [hnext] at hvalues
    have hvalues : e.values = #[] := hvalues
    rw [hvalues]
    rfl
  | some next =>
    rw [hnext] at hvalues
    obtain ⟨start', hstart', hfirst⟩ := hvalues
    rw [hstart] at hstart'
    cases hstart'
    exact hfirst

/-- A scalar field of which elements have been begun to be read has its offset. -/
theorem offset_isSome (h : site.Agrees f e) (hvalue : f.field.value = none) {t : ScalarType}
    (htype : f.field.type = .scalar t) (hnext : e.nextElement.isSome) : e.offset.isSome := by
  have hvalues := h.values
  unfold Site.ReadSoFar at hvalues
  rw [hvalue, htype] at hvalues
  obtain ⟨next, hnext⟩ := Option.isSome_iff_exists.mp hnext
  rw [hnext] at hvalues
  obtain ⟨_, start, hstart, _⟩ := hvalues
  rw [hstart]
  rfl

theorem setOffset (h : site.Agrees f e) {n : Int64} (hn : f.offset = .ok n) :
    site.Agrees f { e with offset := some n } := by
  refine ⟨h.present, h.origin, fun _ hm => Option.some.inj hm ▸ hn, fun _ => rfl, h.count, h.counted,
    h.total, ?_, h.preview⟩
  have hvalues := h.values
  unfold Site.ReadSoFar at hvalues ⊢
  cases hvalue : f.field.value with
  | some _ =>
    rw [hvalue] at hvalues
    exact hvalues
  | none =>
    cases htype : f.field.type with
    | struct _ => exact trivial
    | scalar t =>
      rw [hvalue, htype] at hvalues
      refine ⟨hvalues.1, ?_⟩
      cases hnext : e.nextElement with
      | none =>
        rw [hnext] at hvalues
        exact hvalues.2
      | some next =>
        rw [hnext] at hvalues
        obtain ⟨start, hstart, hfirst⟩ := hvalues.2
        have hsame := h.offset start hstart
        rw [hn] at hsame
        cases hsame
        exact ⟨n, rfl, hfirst⟩

theorem setCount (h : site.Agrees f e) {n : Int64} (hn : f.count = .ok n) :
    site.Agrees f { e with count := some n } := by
  refine ⟨h.present, h.origin, h.offset, h.placed, fun _ hm => Option.some.inj hm ▸ hn,
    fun _ => rfl, h.total, ?_, h.preview⟩
  have hvalues := h.values
  unfold Site.ReadSoFar at hvalues ⊢
  cases hvalue : f.field.value with
  | some _ =>
    rw [hvalue] at hvalues
    exact hvalues
  | none =>
    cases htype : f.field.type with
    | struct _ => exact trivial
    | scalar t =>
      rw [hvalue, htype] at hvalues
      refine ⟨fun hnone => (nomatch hnone : False).elim, ?_⟩
      cases hnext : e.nextElement with
      | none =>
        rw [hnext] at hvalues
        exact hvalues.2
      | some next =>
        rw [hnext] at hvalues
        obtain ⟨hnone, start, hstart, hfirst⟩ := hvalues
        refine ⟨start, hstart, ?_⟩
        cases hcount : e.count with
        | some m =>
          have hsame := h.count m hcount
          rw [hn] at hsame
          cases hsame
          rw [hcount] at hfirst
          exact hfirst
        | none =>
          -- nothing has been read, so the count has had no part in it
          have hempty := hnone hcount
          rw [hempty] at hfirst ⊢
          exact hfirst

/-- **Reading on**, once it is known where the field starts. -/
theorem readTo (h : site.Agrees f e) (hvalue : f.field.value = none) {t : ScalarType}
    (htype : f.field.type = .scalar t) {start : Int64} (hstart : e.offset = some start) (k : Nat) :
    site.Agrees f
      { e with
        values := ((f.reading site t (e.count.getD 0) start).first k).1
        nextElement := some ((f.reading site t (e.count.getD 0) start).first k).2 } := by
  refine ⟨h.present, h.origin, h.offset, h.placed, h.count, h.counted, h.total, ?_, h.preview⟩
  unfold Site.ReadSoFar
  rw [hvalue, htype]
  refine ⟨fun hnone => ?_, start, hstart, Reading.first_size k⟩
  have hnone : e.count = none := hnone
  have hzero : (f.reading site t (e.count.getD 0) start).count = 0 := by
    rw [hnone]
    rfl
  rw [Reading.first_of_count_eq_zero hzero]

theorem setTotal (h : site.Agrees f e) {n : Int64} (hn : f.total site = .ok n) :
    site.Agrees f { e with totalSize := some n } :=
  ⟨h.present, h.origin, h.offset, h.placed, h.count, h.counted,
    fun _ hm => Option.some.inj hm ▸ hn, h.values, h.preview⟩

theorem setPreview (h : site.Agrees f e) {p : String} (hp : f.preview site = .ok p) :
    site.Agrees f { e with preview := some p } :=
  ⟨h.present, h.origin, h.offset, h.placed, h.count, h.counted, h.total, h.values,
    fun _ hm => Option.some.inj hm ▸ hp⟩

theorem setValues (h : site.Agrees f e) {values : Array Element} {nextElement : Option Int64}
    (hv : site.ReadSoFar f { e with values, nextElement }) :
    site.Agrees f { e with values, nextElement } :=
  ⟨h.present, h.origin, h.offset, h.placed, h.count, h.counted, h.total, hv, h.preview⟩

end Site.Agrees

/-! ## 6. Stages -/

/-- **How far an instance is laid out**, and all else that a layout keeps. -/
structure Stage where
  facts : List FieldFacts
  cursor : Int64
  measuring : Option Nat
  size : Option (Stamp × Int64)

/-- **The stage at which the first fields are laid out**, and no other is. -/
def Site.stageAt (site : Site) (size : Option (Stamp × Int64)) (k : Nat) : Except Fault Stage := do
  let (facts, cursor) ← site.layOut k
  pure ⟨facts, cursor, none, size⟩

/-- Whether facts are those about a field, given the facts about the fields before it. -/
structure Site.Describes (site : Site) (facts : List FieldFacts) (i : Nat) (f : FieldFacts) :
    Prop where
  field : ∃ name, site.struct.field? i = some (name, f.field)
  eq : f = site.factsOf facts i f.field f.present f.origin

/-- **Whether the layout of an instance is at a stage**: there is an entry for each of the facts,
and it agrees with them. -/
structure Site.AtStage (site : Site) (s : Stage) (ws : Workspace) : Prop where
  facts : ∀ i f, s.facts[i]? = some f → site.Describes (s.facts.take i) i f
  stamp : (ws.layoutOf site.ref).stamp = some (ws.stampOf site.ref site.struct)
  cursor : (ws.layoutOf site.ref).cursor = s.cursor
  measuring : (ws.layoutOf site.ref).measuring = s.measuring
  size : (ws.layoutOf site.ref).size = s.size
  count : (ws.layoutOf site.ref).entries.size = s.facts.length
  agrees : ∀ i f e, s.facts[i]? = some f → ws.entryOf? site.ref i = some e → site.Agrees f e

namespace Site.AtStage

variable {site : Site} {s : Stage} {ws : Workspace}

/-- The entry of a field of which the facts are there. -/
theorem entryOf? (h : site.AtStage s ws) {i : Nat} {f : FieldFacts} (hf : s.facts[i]? = some f) :
    ∃ e, ws.entryOf? site.ref i = some e ∧ site.Agrees f e := by
  have hlt : i < (ws.layoutOf site.ref).entries.size := by
    rw [h.count]
    exact (List.getElem?_eq_some_iff.mp hf).1
  exact ⟨_, Array.getElem?_eq_getElem hlt, h.agrees i f _ hf (Array.getElem?_eq_getElem hlt)⟩

/-- Only the layout counts, and the version of the instance. -/
theorem of_layoutOf (h : site.AtStage s ws) {ws' : Workspace}
    (hlayout : ws'.layoutOf site.ref = ws.layoutOf site.ref)
    (hstamp : ws'.stampOf site.ref site.struct = ws.stampOf site.ref site.struct) :
    site.AtStage s ws' := by
  refine ⟨h.facts, ?_, ?_, ?_, ?_, ?_, fun i f e hf he => ?_⟩
  · rw [hlayout, hstamp]
    exact h.stamp
  · rw [hlayout]
    exact h.cursor
  · rw [hlayout]
    exact h.measuring
  · rw [hlayout]
    exact h.size
  · rw [hlayout]
    exact h.count
  · rw [Workspace.entryOf?, hlayout] at he
    exact h.agrees i f e hf he

/-- Changes of the layout that leave the entries as they are. -/
theorem modifyLayout {g : Layout → Layout} (h : site.AtStage s ws)
    (hg : ∀ l, (g l).stamp = l.stamp ∧ (g l).entries = l.entries) :
    site.AtStage
      { s with
        cursor := (g (ws.layoutOf site.ref)).cursor
        measuring := (g (ws.layoutOf site.ref)).measuring
        size := (g (ws.layoutOf site.ref)).size }
      (ws.modifyLayout site.ref g) := by
  have hlayout := Workspace.layoutOf_modifyLayout ws site.ref g
  obtain ⟨hstamp, hentries⟩ := hg (ws.layoutOf site.ref)
  refine ⟨h.facts, ?_, by rw [hlayout], by rw [hlayout], by rw [hlayout], ?_,
    fun i f e hf he => ?_⟩
  · rw [hlayout, hstamp]
    exact h.stamp
  · rw [hlayout, hentries]
    exact h.count
  · rw [Workspace.entryOf?, hlayout, hentries] at he
    exact h.agrees i f e hf he

theorem setMeasuring (h : site.AtStage s ws) (field : Option Nat) :
    site.AtStage { s with measuring := field }
      (ws.modifyLayout site.ref (·.setMeasuring field)) := by
  have hset := h.modifyLayout (g := (·.setMeasuring field)) fun _ => ⟨rfl, rfl⟩
  dsimp only [Layout.setMeasuring] at hset
  rw [h.cursor, h.size] at hset
  exact hset

theorem advance (h : site.AtStage s ws) (total : Int64) :
    site.AtStage { s with cursor := s.cursor + total }
      (ws.modifyLayout site.ref (·.advance total)) := by
  have hset := h.modifyLayout (g := (·.advance total)) fun _ => ⟨rfl, rfl⟩
  dsimp only [Layout.advance] at hset
  rw [h.cursor, h.measuring, h.size] at hset
  exact hset

theorem setSize (h : site.AtStage s ws) (stamp : Stamp) (size : Int64) :
    site.AtStage { s with size := some (stamp, size) }
      (ws.modifyLayout site.ref (·.setSize stamp size)) := by
  have hset := h.modifyLayout (g := (·.setSize stamp size)) fun _ => ⟨rfl, rfl⟩
  dsimp only [Layout.setSize] at hset
  rw [h.cursor, h.measuring] at hset
  exact hset

/-- **A change of an entry** that keeps it true. -/
theorem modifyEntry (h : site.AtStage s ws) {i : Nat} {g : FieldEntry → FieldEntry}
    (hg : ∀ f e, s.facts[i]? = some f → ws.entryOf? site.ref i = some e → site.Agrees f e →
      site.Agrees f (g e)) :
    site.AtStage s (ws.modifyLayout site.ref (·.modifyEntry i g)) := by
  have hlayout := Workspace.layoutOf_modifyLayout ws site.ref (·.modifyEntry i g)
  refine ⟨h.facts, ?_, ?_, ?_, ?_, ?_, fun j f e hf he => ?_⟩
  · rw [hlayout]
    exact h.stamp
  · rw [hlayout]
    exact h.cursor
  · rw [hlayout]
    exact h.measuring
  · rw [hlayout]
    exact h.size
  · rw [hlayout]
    exact Array.size_modify.trans h.count
  · rw [Workspace.entryOf?, hlayout] at he
    have he : ((ws.layoutOf site.ref).entries.modify i g)[j]? = some e := he
    rw [Array.getElem?_modify] at he
    by_cases hij : i = j
    · subst hij
      rw [if_pos rfl] at he
      obtain ⟨e₀, he₀, rfl⟩ := Option.map_eq_some_iff.mp he
      exact hg f e₀ hf he₀ (h.agrees i f e₀ hf he₀)
    · rw [if_neg hij] at he
      exact h.agrees j f e hf he

/-- **One more entry.** -/
theorem push (h : site.AtStage s ws) {f : FieldFacts} {e : FieldEntry}
    (hf : site.Describes s.facts s.facts.length f) (he : site.Agrees f e) :
    site.AtStage { s with facts := s.facts ++ [f] } (ws.modifyLayout site.ref (·.push e)) := by
  have hlayout := Workspace.layoutOf_modifyLayout ws site.ref (·.push e)
  refine ⟨fun j f' hf' => ?_, ?_, ?_, ?_, ?_, ?_, fun j f' e' hf' he' => ?_⟩
  · by_cases hj : j < s.facts.length
    · rw [List.getElem?_append_left hj] at hf'
      rw [List.take_append_of_le_length (Nat.le_of_lt hj)]
      exact h.facts j f' hf'
    · have hlast := (List.getElem?_eq_some_iff.mp hf').1
      rw [List.length_append, List.length_singleton] at hlast
      have hj : j = s.facts.length := by omega
      subst hj
      rw [List.getElem?_append_right (Nat.le_refl _), Nat.sub_self] at hf'
      cases hf'
      rw [List.take_left' rfl]
      exact hf
  · rw [hlayout]
    exact h.stamp
  · rw [hlayout]
    exact h.cursor
  · rw [hlayout]
    exact h.measuring
  · rw [hlayout]
    exact h.size
  · rw [hlayout, List.length_append, List.length_singleton, ← h.count]
    exact Array.size_push _
  · rw [Workspace.entryOf?, hlayout] at he'
    have he' : ((ws.layoutOf site.ref).entries.push e)[j]? = some e' := he'
    have hcount := h.count
    rw [Array.getElem?_push] at he'
    by_cases hj : j = (ws.layoutOf site.ref).entries.size
    · rw [if_pos hj] at he'
      cases he'
      rw [List.getElem?_append_right (by omega), hj, hcount, Nat.sub_self] at hf'
      cases hf'
      exact he
    · rw [if_neg hj] at he'
      have hlt := (Array.getElem?_eq_some_iff.mp he').1
      rw [List.getElem?_append_left (by omega)] at hf'
      exact h.agrees j f' e' hf' he'

end Site.AtStage

end ByteAtlas
