import ByteAtlas.Proofs.Filters.Findings
import ByteAtlas.Resolve.Frames

/-!
# Views of a flat instance

A `View` is all that is settled about an instance. A layout fits it (`Site.Fits`) if it keeps
nothing else, and a workspace in which the layout of the instance does so knows the view
(`Site.Knows`).

A step about the instance that is refused no frame leaves a workspace that knows the view, and its
answer is read off the view (`Site.Answers`). While a field is being laid out, that is so of the
questions about the fields before it (`Site.Due`). Laying out may have been broken off by a fault.
Then no more fields are laid out, and what is settled ends there.
-/

namespace ByteAtlas

/-! ## 1. Views -/

/-- **What is settled about an instance.** -/
structure View where
  fields : Findings
  /-- Where the last field ends, unless laying out has been broken off. -/
  cursor : Option Int64
  size : Option Int64

namespace View

variable (v : View)

/-- What is settled about the fields before one. -/
def upTo (i : Nat) : Findings := v.fields.take i

theorem getElem?_upTo {i j : Nat} (h : j < i) : (v.upTo i)[j]? = v.fields[j]? :=
  List.getElem?_take_of_lt h

/-- Where a field is reached. -/
def startOf (i : Nat) : Option Int64 := v.fields[i]?.elim v.cursor fun f => some f.origin

/-- The size as the definition tells it. -/
def measured (site : Site) : Option Int64 :=
  match site.struct.sizeSource with
  | some source => some ((v.fields.namedValue site source).getD 0 + site.struct.size)
  | none =>
    if site.struct.isPacked then v.cursor.map (· - site.ref.offset) else some site.struct.size

end View

/-- How far the cursor is moved past a field. -/
def Finding.room (f : Finding) (d : StructDef) (field : Field) : Int64 :=
  if f.present && d.isPacked && !field.isComputed then f.total else 0

/-! ## 2. Workspaces that know a view -/

namespace Site

variable (site : Site)

/-- **Whether a workspace shows a site** as far as its expressions see it. -/
structure SeenIn (ws : Workspace) : Prop where
  struct : ws.structOf? site.ref = some site.struct
  args : ∀ name, ws.argOf? site.ref name = argValue? name site.args
  files : ws.files = site.files
  limit : ws.limits.maxElements = site.maxElements

/-- The layout, with what is out of date dropped. -/
def now (ws : Workspace) : Layout :=
  (ws.layoutOf site.ref).validated (ws.stampOf site.ref site.struct) site.ref.offset

/-- Whether nothing is out of date. -/
def Stamped (ws : Workspace) : Prop :=
  (ws.layoutOf site.ref).stamp = some (ws.stampOf site.ref site.struct)

/-- **Whether a layout keeps nothing but what is settled.** -/
structure Fits (v : View) (l : Layout) : Prop where
  entry : ∀ {i : Nat} {e : FieldEntry} {field : String × Field}, l.entries[i]? = some e →
    site.struct.field? i = some field →
    v.fields[i]? = some ((v.upTo i).ofEntry site i field.2 e)
  /-- The fields that are not laid out yet. -/
  later : ∀ {i : Nat} {f : Finding}, l.entries.size ≤ i → v.fields[i]? = some f →
    ∃ field, site.struct.field? i = some field ∧
      f = (v.upTo i).ofEntry site i field.2
        (Resolver.firstEntry site.struct field.2 f.present f.origin) ∧
      f.present = decide ((v.upTo i).conditionOf site i field.2 ≠ 0) ∧
      v.startOf (i + 1) = some (f.origin + f.room site.struct field.2)
  cursor : l.measuring = none → v.startOf l.entries.size = some l.cursor
  all : l.measuring = none → ∀ {i : Nat} {field : String × Field},
    site.struct.field? i = some field → ∃ f, v.fields[i]? = some f

/-- **Whether a workspace knows a view.** -/
structure Knows (v : View) (ws : Workspace) : Prop where
  seen : site.SeenIn ws
  fits : site.Fits v (site.now ws)
  size : v.size =
    ((site.now ws).sizeFor? (ws.stampOf site.ref site.struct)).or (v.measured site)

/-- Whether a field is laid out as soon as it is asked for, or never will be. -/
def Due (v : View) (i : Nat) (ws : Workspace) : Prop :=
  i < (site.now ws).entries.size ∨ (site.now ws).measuring = none ∨ v.fields.length ≤ i

/-- Whether a field is laid out, or never will be. -/
structure Laid (v : View) (i : Nat) (ws : Workspace) : Prop where
  stamped : site.Stamped ws
  there : i < (site.now ws).entries.size ∨ v.fields.length ≤ i

/-- **What steps about an instance leave as it is**, once they are done. -/
structure Onward (ws ws' : Workspace) : Prop where
  depth : ws'.depth = ws.depth
  stamped : site.Stamped ws → site.Stamped ws'
  measuring : (site.now ws').measuring = (site.now ws).measuring
  count : (site.now ws).entries.size ≤ (site.now ws').entries.size
  held : (site.now ws).measuring.isSome →
    (site.now ws').entries.size = (site.now ws).entries.size ∧
      (site.now ws').cursor = (site.now ws).cursor

/-- **What comes of a step about an instance** that is refused no frame, if something is given. -/
structure Quietly {α : Type} (given : Prop) (ws : Workspace) (step : Resolve α)
    (post : α → Workspace → Prop) : Prop where
  beside : ∀ {a : α} {ws' : Workspace}, step.runIn ws = (.ok a, ws') →
    ws.Beside site.ref ws' ∧ ws.refusals ≤ ws'.refusals
  quiet : given → ∀ {a : α} {ws' : Workspace}, step.runIn ws = (.ok a, ws') →
    ws'.refusals = ws.refusals → post a ws'

/-- **A step that answers** what is settled. -/
abbrev Answers {α : Type} (v : View) (given : Prop) (ws : Workspace) (step : Resolve α)
    (post : α → Workspace → Prop) : Prop :=
  site.Quietly (site.Knows v ws ∧ given) ws step fun a ws' =>
    site.Knows v ws' ∧ site.Onward ws ws' ∧ post a ws'

end Site

namespace Site

variable {site : Site} {v : View} {ws ws₁ ws' : Workspace} {i j : Nat}

/-! ## 3. What is seen -/

namespace SeenIn

theorem beside (h : site.SeenIn ws) (hb : ws.Beside site.ref ws') : site.SeenIn ws' where
  struct := (hb.structOf? _).trans h.struct
  args name := by
    rw [Workspace.argOf?, hb.find?]
    exact h.args name
  files := hb.files.trans h.files
  limit := by
    rw [hb.limits]
    exact h.limit

theorem fieldOf? (h : site.SeenIn ws) (i : Nat) :
    ws.fieldOf? site.ref i = site.struct.field? i := by
  rw [Workspace.fieldOf?, h.struct]

theorem fileSize (h : site.SeenIn ws) : ws.fileSize site.ref.file = site.fileSize := by
  unfold Site.fileSize Workspace.fileSize Workspace.file?
  rw [h.files]
  rfl

theorem read (h : site.SeenIn ws) (offset : Int64) (length : Nat) :
    ws.read site.ref.file offset length = site.workspace.read site.ref.file offset length := by
  unfold Workspace.read Workspace.file?
  rw [h.files]
  rfl

theorem readElements (h : site.SeenIn ws) (f : Field) (t : ScalarType) (count start : Int64)
    (n : Nat) : ∀ (next : Int64) (values : Array Element),
      ws.readElements site.ref.file f t count start n next values =
        site.workspace.readElements site.ref.file f t count start n next values := by
  induction n with
  | zero => exact fun _ _ => rfl
  | succ n ih =>
    intro next values
    unfold Workspace.readElements
    rw [h.read, ih]

end SeenIn

/-! ## 4. Layouts as they are now -/

theorem now_of_stamped (h : site.Stamped ws) : site.now ws = ws.layoutOf site.ref := by
  unfold Stamped at h
  rw [now, Layout.validated, if_pos h]

theorem entryOf?_of_stamped (h : site.Stamped ws) (i : Nat) :
    ws.entryOf? site.ref i = (site.now ws).entries[i]? := by
  rw [now_of_stamped h]
  rfl

/-- A change of a layout that is up to date. -/
theorem now_modifyLayout (h : site.Stamped ws) {f : Layout → Layout}
    (hf : (f (ws.layoutOf site.ref)).stamp = (ws.layoutOf site.ref).stamp) :
    site.Stamped (ws.modifyLayout site.ref f) ∧
      site.now (ws.modifyLayout site.ref f) = f (site.now ws) := by
  have hstamped : site.Stamped (ws.modifyLayout site.ref f) := by
    unfold Stamped
    rw [Workspace.layoutOf_modifyLayout, hf]
    exact h
  refine ⟨hstamped, ?_⟩
  rw [now_of_stamped hstamped, Workspace.layoutOf_modifyLayout, now_of_stamped h]

/-- Dropping what is out of date. -/
theorem now_validate (ws : Workspace) :
    site.Stamped (ws.modifyLayout site.ref fun l =>
      l.validated (ws.stampOf site.ref site.struct) site.ref.offset) ∧
    site.now (ws.modifyLayout site.ref fun l =>
      l.validated (ws.stampOf site.ref site.struct) site.ref.offset) = site.now ws := by
  have hstamped : site.Stamped (ws.modifyLayout site.ref fun l =>
      l.validated (ws.stampOf site.ref site.struct) site.ref.offset) := by
    unfold Stamped
    rw [Workspace.layoutOf_modifyLayout, Layout.validated]
    split
    · assumption
    · rfl
  exact ⟨hstamped, by rw [now_of_stamped hstamped, Workspace.layoutOf_modifyLayout, now]⟩

namespace Onward

theorem refl (ws : Workspace) : site.Onward ws ws :=
  ⟨rfl, id, rfl, Nat.le_refl _, fun _ => ⟨rfl, rfl⟩⟩

theorem trans (h : site.Onward ws ws₁) (h' : site.Onward ws₁ ws') : site.Onward ws ws' := by
  refine ⟨h'.depth.trans h.depth, h'.stamped ∘ h.stamped, h'.measuring.trans h.measuring,
    Nat.le_trans h.count h'.count, fun hm => ?_⟩
  obtain ⟨hcount, hcursor⟩ := h.held hm
  obtain ⟨hcount', hcursor'⟩ := h'.held (by rw [h.measuring]; exact hm)
  exact ⟨hcount'.trans hcount, hcursor'.trans hcursor⟩

/-- A layout with as many entries. -/
theorem of_now (hdepth : ws'.depth = ws.depth) (hstamped : site.Stamped ws → site.Stamped ws')
    (hmeasuring : (site.now ws').measuring = (site.now ws).measuring)
    (hcount : (site.now ws').entries.size = (site.now ws).entries.size)
    (hcursor : (site.now ws').cursor = (site.now ws).cursor) : site.Onward ws ws' :=
  ⟨hdepth, hstamped, hmeasuring, Nat.le_of_eq hcount.symm, fun _ => ⟨hcount, hcursor⟩⟩

end Onward

theorem Due.onward (h : site.Due v i ws) (ho : site.Onward ws ws') : site.Due v i ws' := by
  rcases h with h | h | h
  · exact .inl (Nat.lt_of_lt_of_le h ho.count)
  · exact .inr (.inl (ho.measuring.trans h))
  · exact .inr (.inr h)

theorem Laid.onward (h : site.Laid v i ws) (ho : site.Onward ws ws') : site.Laid v i ws' :=
  ⟨ho.stamped h.stamped, h.there.imp_left fun hi => Nat.lt_of_lt_of_le hi ho.count⟩

theorem Laid.due (h : site.Laid v i ws) : site.Due v i ws :=
  h.there.imp_right .inr

/-- Where there is an entry, the fields before it are laid out. -/
theorem Laid.of_entry (h : site.Laid v i ws) {e : FieldEntry}
    (he : ws.entryOf? site.ref i = some e) (hj : j ≤ i) : site.Laid v j ws := by
  rw [entryOf?_of_stamped h.stamped] at he
  obtain ⟨hi, _⟩ := Array.getElem?_eq_some_iff.mp he
  exact ⟨h.stamped, .inl (Nat.lt_of_le_of_lt hj hi)⟩

/-- An entry stays. -/
theorem Laid.exists_entry (h : site.Laid v i ws) {e : FieldEntry}
    (he : ws.entryOf? site.ref i = some e) (ho : site.Onward ws ws') :
    ∃ e', ws'.entryOf? site.ref i = some e' := by
  rw [entryOf?_of_stamped h.stamped] at he
  rw [entryOf?_of_stamped (ho.stamped h.stamped)]
  obtain ⟨hi, _⟩ := Array.getElem?_eq_some_iff.mp he
  exact ⟨_, Array.getElem?_eq_getElem (Nat.lt_of_lt_of_le hi ho.count)⟩

namespace Knows

/-- **What is settled about a field** that has an entry. -/
theorem entry (h : site.Knows v ws) (hs : site.Stamped ws) {e : FieldEntry}
    (he : ws.entryOf? site.ref i = some e) {field : String × Field}
    (hfield : site.struct.field? i = some field) :
    v.fields[i]? = some ((v.upTo i).ofEntry site i field.2 e) :=
  h.fits.entry ((entryOf?_of_stamped hs i).symm.trans he) hfield

/-- Nothing is settled about a field that never will be laid out. -/
theorem none_of_laid (h : site.Laid v i ws) (he : ws.entryOf? site.ref i = none) :
    v.fields[i]? = none := by
  rw [entryOf?_of_stamped h.stamped, Array.getElem?_eq_none_iff] at he
  exact List.getElem?_eq_none (h.there.resolve_left (Nat.not_lt.mpr he))

/-- What does not change the layout. -/
theorem of_now (h : site.Knows v ws) (hseen : site.SeenIn ws') (hnow : site.now ws' = site.now ws)
    (hstamp : ws'.stampOf site.ref site.struct = ws.stampOf site.ref site.struct) :
    site.Knows v ws' := by
  refine ⟨hseen, ?_, ?_⟩ <;> rw [hnow]
  · exact h.fits
  · rw [hstamp]
    exact h.size

/-- A change of a layout that is up to date. -/
theorem modifyLayout (h : site.Knows v ws) (hs : site.Stamped ws) {f : Layout → Layout}
    (hstamp : ∀ l, (f l).stamp = l.stamp) (hsize : ∀ l, (f l).size = l.size)
    (hfits : site.Fits v (f (site.now ws))) :
    site.Knows v (ws.modifyLayout site.ref f) := by
  obtain ⟨_, hnow⟩ := now_modifyLayout hs (hstamp _)
  refine ⟨h.seen.beside (.modifyLayout _), ?_, ?_⟩ <;> rw [hnow]
  · exact hfits
  · rw [Layout.sizeFor?, hsize]
    exact h.size

/-- **Keeping what is settled about a field.** -/
theorem modifyEntry (h : site.Knows v ws) (hs : site.Stamped ws) {g : FieldEntry → FieldEntry}
    (hg : ∀ {e : FieldEntry} {field : String × Field}, ws.entryOf? site.ref i = some e →
      site.struct.field? i = some field → (v.upTo i).ofEntry site i field.2 (g e) =
        (v.upTo i).ofEntry site i field.2 e) :
    site.Knows v (ws.modifyLayout site.ref (·.modifyEntry i g)) ∧
      site.Onward ws (ws.modifyLayout site.ref (·.modifyEntry i g)) := by
  obtain ⟨hstamped, hnow⟩ := now_modifyLayout hs (f := (·.modifyEntry i g)) rfl
  have hcount : ((site.now ws).modifyEntry i g).entries.size = (site.now ws).entries.size :=
    Array.size_modify
  have hentry (j : Nat) : ((site.now ws).modifyEntry i g).entries[j]? =
      if i = j then (site.now ws).entries[j]?.map g else (site.now ws).entries[j]? :=
    Array.getElem?_modify
  refine ⟨h.modifyLayout hs (fun _ => rfl) (fun _ => rfl) ?_, .of_now rfl (fun _ => hstamped) ?_ ?_ ?_⟩
  · refine ⟨fun {j e field} he hfield => ?_, fun hle => h.fits.later (hcount ▸ hle), fun hm => ?_,
      h.fits.all⟩
    · rw [hentry] at he
      split at he
      · rename_i hij
        subst hij
        obtain ⟨e, he', rfl⟩ := Option.map_eq_some_iff.mp he
        rw [hg ((entryOf?_of_stamped hs i).trans he') hfield]
        exact h.fits.entry he' hfield
      · exact h.fits.entry he hfield
    · rw [hcount]
      exact h.fits.cursor hm
  · rw [hnow]
    rfl
  · rw [hnow, hcount]
  · rw [hnow]
    rfl

end Knows

/-! ## 5. Rules -/

namespace Quietly

variable {α β : Type} {given given' : Prop} {step : Resolve α} {next : α → Resolve β}
  {p post post' : α → Workspace → Prop} {q : β → Workspace → Prop}

theorem pure {a : α} (h : given → post a ws) : site.Quietly given ws (Pure.pure a) post := by
  refine ⟨fun hrun => ?_, fun hg _ _ hrun _ => ?_⟩ <;> cases hrun
  · exact ⟨.refl _ _, Nat.le_refl _⟩
  · exact h hg

/-- A step with a fault has no result. -/
theorem throw (fault : Fault) : site.Quietly given ws (MonadExcept.throw fault) post :=
  ⟨fun hrun => (nomatch hrun), fun _ _ _ hrun => (nomatch hrun)⟩

/-- Looking at the workspace. -/
theorem ask {f : Workspace → α} (h : site.Quietly given ws (next (f ws)) q) :
    site.Quietly given ws (Resolve.ask f >>= next) q :=
  ⟨fun hrun => h.beside hrun, fun hg _ _ hrun => h.quiet hg hrun⟩

/-- Looking at all of the workspace. -/
theorem get {next : Workspace → Resolve β} (h : site.Quietly given ws (next ws) q) :
    site.Quietly given ws (MonadState.get >>= next) q :=
  ⟨fun hrun => h.beside hrun, fun hg _ _ hrun => h.quiet hg hrun⟩

/-- Changing the workspace. -/
theorem change {f : Workspace → Workspace} {post : Unit → Workspace → Prop}
    (hb : ws.Beside site.ref (f ws)) (hr : (f ws).refusals = ws.refusals)
    (h : given → post () (f ws)) : site.Quietly given ws (Resolve.change f) post := by
  refine ⟨fun hrun => ?_, fun hg _ _ hrun _ => ?_⟩ <;> cases hrun
  · exact ⟨hb, Nat.le_of_eq hr.symm⟩
  · exact h hg

theorem mono (h : site.Quietly given ws step post) (hg : given' → given)
    (hp : given' → ∀ a ws', post a ws' → post' a ws') : site.Quietly given' ws step post' :=
  ⟨h.beside, fun hg' _ _ hrun hr => hp hg' _ _ (h.quiet (hg hg') hrun hr)⟩

/-- **One step after another.** -/
theorem bind (h : site.Quietly given ws step p)
    (hn : ∀ a ws₁, ws.Beside site.ref ws₁ →
      site.Quietly (given ∧ p a ws₁) ws₁ (next a) q) :
    site.Quietly given ws (step >>= next) q := by
  have hsplit {b : β} {ws' : Workspace} (hrun : (step >>= next).runIn ws = (.ok b, ws')) :
      ∃ a ws₁, step.runIn ws = (.ok a, ws₁) ∧ (next a).runIn ws₁ = (.ok b, ws') := by
    rw [Resolve.runIn_bind] at hrun
    cases hstep : step.runIn ws with
    | mk result ws₁ =>
      rw [hstep] at hrun
      cases result with
      | error fault => cases hrun
      | ok a => exact ⟨a, ws₁, rfl, hrun⟩
  refine ⟨fun hrun => ?_, fun hg b ws' hrun hr => ?_⟩
  · obtain ⟨a, ws₁, hstep, hnext⟩ := hsplit hrun
    obtain ⟨hb, hle⟩ := h.beside hstep
    obtain ⟨hb', hle'⟩ := (hn a ws₁ hb).beside hnext
    exact ⟨hb.trans hb', Nat.le_trans hle hle'⟩
  · obtain ⟨a, ws₁, hstep, hnext⟩ := hsplit hrun
    obtain ⟨hb, hle⟩ := h.beside hstep
    obtain ⟨_, hle'⟩ := (hn a ws₁ hb).beside hnext
    exact (hn a ws₁ hb).quiet ⟨hg, h.quiet hg hstep (by omega)⟩ hnext (by omega)

theorem map {f : α → β} (h : site.Quietly given ws step fun a => q (f a)) :
    site.Quietly given ws (f <$> step) q := by
  rw [map_eq_pure_bind]
  exact h.bind fun _ _ _ => .pure And.right

/-- **What is not cut short** has its result. -/
theorem unlessCutShort {step : Resolve (Option α)} {post : Option α → Workspace → Prop}
    (h : site.Quietly given ws step post) :
    site.Quietly given ws (ByteAtlas.unlessCutShort step) post := by
  have hrest {a : Option α} {ws' : Workspace}
      (hrun : (ByteAtlas.unlessCutShort step).runIn ws = (.ok a, ws')) :
      ∃ b, step.runIn ws = (.ok b, ws') ∧ a = if ws'.refusals = ws.refusals then b else none := by
    unfold ByteAtlas.unlessCutShort at hrun
    rw [Resolve.runIn_bind, Resolve.runIn_ask] at hrun
    dsimp only at hrun
    rw [Resolve.runIn_bind] at hrun
    cases hstep : step.runIn ws with
    | mk result ws₂ =>
      rw [hstep] at hrun
      cases result with
      | error fault => cases hrun
      | ok b =>
        dsimp only at hrun
        rw [Resolve.runIn_bind, Resolve.runIn_ask] at hrun
        cases hrun
        exact ⟨b, rfl, rfl⟩
  refine ⟨fun hrun => ?_, fun hg a ws' hrun hr => ?_⟩
  · obtain ⟨b, hstep, _⟩ := hrest hrun
    exact h.beside hstep
  · obtain ⟨b, hstep, rfl⟩ := hrest hrun
    rw [if_pos hr]
    exact h.quiet hg hstep hr

/-- **One frame further in.** -/
theorem inFrame {post : Option α → Workspace → Prop}
    (h : site.Quietly given { ws with depth := ws.depth + 1 } step fun a ws₁ =>
      post (some a) { ws₁ with depth := ws₁.depth - 1 }) :
    site.Quietly given ws (ByteAtlas.inFrame step) post := by
  by_cases hlt : ws.depth < ws.limits.maxDepth
  · have hrest {a : Option α} {ws' : Workspace}
        (hrun : (ByteAtlas.inFrame step).runIn ws = (.ok a, ws')) :
        ∃ b ws₁, step.runIn { ws with depth := ws.depth + 1 } = (.ok b, ws₁) ∧ a = some b ∧
          ws' = { ws₁ with depth := ws₁.depth - 1 } := by
      rw [runIn_inFrame_of_lt step hlt] at hrun
      cases hstep : step.runIn { ws with depth := ws.depth + 1 } with
      | mk result ws₁ =>
        rw [hstep] at hrun
        cases result with
        | error fault => cases hrun
        | ok b =>
          cases hrun
          exact ⟨b, ws₁, rfl, rfl, rfl⟩
    refine ⟨fun hrun => ?_, fun hg a ws' hrun hr => ?_⟩
    · obtain ⟨b, ws₁, hstep, _, rfl⟩ := hrest hrun
      obtain ⟨hb, hle⟩ := h.beside hstep
      exact ⟨⟨hb.schema, hb.files, hb.limits, hb.directory, hb.others⟩, hle⟩
    · obtain ⟨b, ws₁, hstep, rfl, rfl⟩ := hrest hrun
      exact h.quiet hg hstep hr
  · have hrun := runIn_inFrame_of_le step (Nat.not_lt.mp hlt)
    refine ⟨fun hrun' => ?_, fun _ _ _ hrun' hr => ?_⟩ <;> rw [hrun] at hrun' <;> cases hrun'
    · exact ⟨⟨rfl, rfl, rfl, rfl, fun _ _ => rfl⟩, Nat.le_succ _⟩
    · exact absurd hr (Nat.succ_ne_self _)

end Quietly

namespace Answers

variable {α β : Type} {given given' : Prop} {step : Resolve α} {next : α → Resolve β}
  {p post post' : α → Workspace → Prop} {q : β → Workspace → Prop}

theorem pure {a : α} (h : site.Knows v ws → given → post a ws) :
    site.Answers v given ws (Pure.pure a) post :=
  Quietly.pure fun ⟨hk, hg⟩ => ⟨hk, .refl ws, h hk hg⟩

theorem mono (h : site.Answers v given ws step post) (hg : site.Knows v ws → given' → given)
    (hp : ∀ a ws', site.Knows v ws → given' → site.Knows v ws' → site.Onward ws ws' →
      post a ws' → post' a ws') : site.Answers v given' ws step post' :=
  Quietly.mono h (fun ⟨hk, hg'⟩ => ⟨hk, hg hk hg'⟩) fun ⟨hk, hg'⟩ a ws' ⟨hk', ho, hpost⟩ =>
    ⟨hk', ho, hp a ws' hk hg' hk' ho hpost⟩

/-- **One step after another.** -/
theorem bind (hs : site.SeenIn ws) (h : site.Answers v given ws step p)
    (hn : ∀ a ws₁, site.SeenIn ws₁ →
      site.Answers v ((site.Knows v ws ∧ given) ∧ site.Onward ws ws₁ ∧ p a ws₁) ws₁ (next a)
        q) :
    site.Answers v given ws (step >>= next) q :=
  Quietly.bind h fun a ws₁ hb => Quietly.mono (hn a ws₁ (hs.beside hb))
    (fun ⟨hg, hk₁, ho, hp⟩ => ⟨hk₁, hg, ho, hp⟩)
    fun ⟨_, _, ho, _⟩ _ _ ⟨hk', ho', hq⟩ => ⟨hk', ho.trans ho', hq⟩

theorem ask {f : Workspace → α} (h : site.Answers v given ws (next (f ws)) q) :
    site.Answers v given ws (Resolve.ask f >>= next) q :=
  Quietly.ask h

theorem get {next : Workspace → Resolve β} (h : site.Answers v given ws (next ws) q) :
    site.Answers v given ws (MonadState.get >>= next) q :=
  Quietly.get h

theorem map {f : α → β} (h : site.Answers v given ws step fun a => q (f a)) :
    site.Answers v given ws (f <$> step) q :=
  Quietly.map h

theorem ite {c : Prop} [Decidable c] {other : Resolve α}
    (h : c → site.Answers v given ws step post) (h' : ¬ c → site.Answers v given ws other post) :
    site.Answers v given ws (if c then step else other) post := by
  split
  · exact h ‹c›
  · exact h' ‹¬ c›

theorem unlessCutShort {step : Resolve (Option α)} {post : Option α → Workspace → Prop}
    (h : site.Answers v given ws step post) :
    site.Answers v given ws (ByteAtlas.unlessCutShort step) post :=
  Quietly.unlessCutShort h

/-- **Keeping what is settled about a field.** -/
theorem modifyEntry {g : FieldEntry → FieldEntry} (hs : given → site.Stamped ws)
    (hg : site.Knows v ws → given → ∀ {e : FieldEntry} {field : String × Field},
      ws.entryOf? site.ref i = some e → site.struct.field? i = some field →
        (v.upTo i).ofEntry site i field.2 (g e) = (v.upTo i).ofEntry site i field.2 e) :
    site.Answers v given ws (ByteAtlas.modifyEntry site.ref i g) fun _ ws' =>
      ws'.entryOf? site.ref i = (ws.entryOf? site.ref i).map g :=
  Quietly.change (.modifyLayout _) rfl fun ⟨hk, hgiven⟩ => by
    obtain ⟨hk', ho⟩ := hk.modifyEntry (hs hgiven) (hg hk hgiven)
    exact ⟨hk', ho, Workspace.entryOf?_modifyEntry⟩

end Answers

end Site

end ByteAtlas
