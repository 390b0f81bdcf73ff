import ByteAtlas.Proofs.Elements.Notes
import ByteAtlas.Proofs.Resolve.Arguments
import ByteAtlas.Proofs.Resolve.Children

/-!
# One move after another

Whatever is resolved changes the workspace by a few kinds of moves only (`Workspace.Move`):
something is noted in the layout of an instance, a field is reached or given up there, the size of
an instance becomes known, an instance is placed or gets its arguments, something is counted.
`Workspace.Moved` is one move after another, none of which changes what was there at the start. So
what each move keeps is kept by all of a resolution: what holds of the entries (`Workspace.Every`),
and that a count that has become known is the one that the entries make up
(`Workspace.Moved.explains`).
-/

namespace ByteAtlas

/-- Nothing is known about the elements of a field that has just been reached. -/
theorem Resolver.firstEntry_of_value {d : StructDef} {f : Field} (hv : f.value = none)
    (present : Bool) (cursor : Int64) :
    (firstEntry d f present cursor).values = #[] ∧
      (firstEntry d f present cursor).nextElement = none ∧
      (firstEntry d f present cursor).count = none ∧
      (firstEntry d f present cursor).totalSize = none ∧
      (firstEntry d f present cursor).preview = none := by
  have hsome : ¬ f.value.isSome = true := by
    rw [hv]
    exact Bool.false_ne_true
  unfold firstEntry
  dsimp only
  rw [if_neg hsome]
  split <;> exact ⟨rfl, rfl, rfl, rfl, rfl⟩

namespace Workspace

/-! ## 1. Moves -/

/-- What a resolution may do to the layout of an instance whose struct is defined. -/
inductive Rewrites (ws : Workspace) (r : InstanceRef) (d : StructDef) (l : Layout) :
    Layout → Prop where
  | validated : Rewrites ws r d l (l.validated (ws.stampOf r d) r.offset)
  /-- Something that is about no entry and not about the size. -/
  | same {l' : Layout} : l'.entries = l.entries → l'.stamp = l.stamp → l'.size = l.size →
    Rewrites ws r d l l'
  /-- The size becomes known. Where an argument or a parameter makes it up, it is as they are
  now. -/
  | size {size : Int64} :
    (∀ source, d.SizedBy source → size = d.sizeWith source (ws.argOf? r source)) →
    Rewrites ws r d l (l.setSize (ws.stampOf r d) size)
  | note {i : Nat} {f : String × Field} {e : FieldEntry} {g : FieldEntry → FieldEntry} :
    l.stamp = some (ws.stampOf r d) → d.field? i = some f → l.entries[i]? = some e →
    ws.Notes r d i f.2 e (g e) → Rewrites ws r d l (l.modifyEntry i g)
  | reach {f : String × Field} (present : Bool) (cursor : Int64) :
    l.stamp = some (ws.stampOf r d) → d.field? l.entries.size = some f →
    Rewrites ws r d l (l.push (Resolver.firstEntry d f.2 present cursor))
  | pop : Rewrites ws r d l l.pop

/-- **One move of a resolution.** -/
inductive Move (ws : Workspace) : Workspace → Prop where
  | layout {r : InstanceRef} {d : StructDef} {g : Layout → Layout} : ws.IsLive r →
    ws.structOf? r = some d → ws.Rewrites r d (ws.layoutOf r) (g (ws.layoutOf r)) →
    Move ws (ws.modifyLayout r g)
  /-- What is left of an instance whose struct is not defined. -/
  | undefined {r : InstanceRef} {g : Layout → Layout} : ws.IsLive r → ws.structOf? r = none →
    (∀ l, (g l).size = l.size) → Move ws (ws.modifyLayout r g)
  | place (p : Placement) : (∀ r, (ws.place p).2.IsLive r → ws.IsLive r ∨
      ws.layoutOf r = .unknown r.offset) → Move ws (ws.place p).2
  /-- A new instance gets its arguments. Nothing is known about it by then, unless one of them is
  taken from a field. -/
  | bind {id : InstanceId} {i : Instance} (args : List Arg) : ws.find? id = some i → i.args = [] →
    i.version = initialVersion → (ws.schema.BindsFields i.struct ∨ ws.layouts[id]? = none) →
    Move ws (ws.modify id (Instance.bindArgs args))
  | count (depth refusals limitHits : Nat) : Move ws { ws with depth, refusals, limitHits }

/-- Whether a workspace keeps what another one holds, with any number of frames open. -/
def KeepsWithin (ws ws' : Workspace) : Prop := ws.Keeps { ws' with depth := ws.depth }

/-- **One move after another**, none of which changes what was there at the start. -/
inductive Moved (start : Workspace) : Workspace → Prop where
  | refl : Moved start start
  | tail {ws ws' : Workspace} : Moved start ws → ws.Move ws' → start.KeepsWithin ws' →
    Moved start ws'

variable {start ws ws' : Workspace} {r : InstanceRef}

theorem Keeps.within (h : ws.Keeps ws') : ws.KeepsWithin ws' :=
  ⟨h.schema, h.files, h.limits, rfl, h.refusals, h.nextId, h.instances, h.added⟩

theorem KeepsWithin.trans {a b c : Workspace} (hab : a.KeepsWithin b) (hbc : b.KeepsWithin c) :
    a.KeepsWithin c :=
  Keeps.trans hab ⟨hbc.schema, hbc.files, hbc.limits, rfl, hbc.refusals, hbc.nextId, hbc.instances,
    hbc.added⟩

theorem Moved.keeps (h : start.Moved ws) : start.KeepsWithin ws := by
  cases h with
  | refl => exact (Keeps.refl start).within
  | tail _ _ hkeeps => exact hkeeps

theorem Move.moved (h : ws.Move ws') (hkeeps : ws.KeepsWithin ws') : ws.Moved ws' :=
  .tail .refl h hkeeps

theorem Moved.trans {a b c : Workspace} (hab : a.Moved b) (hbc : b.Moved c) : a.Moved c := by
  induction hbc with
  | refl => exact hab
  | tail _ hmove hkeeps ih => exact .tail ih hmove (hab.keeps.trans hkeeps)

/-! ## 2. Where an entry comes from -/

section

variable {d : StructDef} {l l' : Layout} {i : Nat} {f : String × Field} {e' : FieldEntry}

/-- **An entry was there before**, with something less noted, or its field has just been reached.
Otherwise the entries have been dropped. -/
theorem Rewrites.entry (h : ws.Rewrites r d l l') (hf : d.field? i = some f)
    (he : l'.entries[i]? = some e') : l'.stamp = l.stamp ∧
      ((l.entries.size = i ∧ ∃ present cursor, e' = Resolver.firstEntry d f.2 present cursor) ∨
        ∃ e, l.entries[i]? = some e ∧ ws.Notes r d i f.2 e e') := by
  cases h with
  | validated =>
    unfold Layout.validated at he ⊢
    split at he
    · rename_i hsame
      rw [if_pos hsame]
      exact ⟨rfl, .inr ⟨e', he, .nothing⟩⟩
    · cases he
  | same hentries hstamp _ =>
    rw [hentries] at he
    exact ⟨hstamp, .inr ⟨e', he, .nothing⟩⟩
  | size _ => exact ⟨rfl, .inr ⟨e', he, .nothing⟩⟩
  | @note j g e change _ hg hold hnote =>
    have he : (l.entries.modify j change)[i]? = some e' := he
    rw [Array.getElem?_modify] at he
    refine ⟨rfl, .inr ?_⟩
    by_cases hj : j = i
    · subst hj
      rw [if_pos rfl, hold] at he
      cases he
      rw [hg] at hf
      cases hf
      exact ⟨e, hold, hnote⟩
    · rw [if_neg hj] at he
      exact ⟨e', he, .nothing⟩
  | @reach g present cursor _ hg =>
    have he : (l.entries.push _)[i]? = some e' := he
    rw [Array.getElem?_push] at he
    refine ⟨rfl, ?_⟩
    split at he
    · rename_i hi
      cases he
      rw [hi, hg] at hf
      cases hf
      exact .inl ⟨hi.symm, present, cursor, rfl⟩
    · exact .inr ⟨e', he, .nothing⟩
  | pop =>
    have he : l.entries.pop[i]? = some e' := he
    rw [Array.getElem?_pop] at he
    refine ⟨rfl, .inr ?_⟩
    split at he
    · exact ⟨e', he, .nothing⟩
    · cases he

/-- **Where an entry comes from after a move.** -/
theorem Move.entry (h : ws.Move ws') (hr : ws'.IsLive r) (hd : ws'.structOf? r = some d)
    (hf : d.field? i = some f) (he : ws'.entryOf? r i = some e') :
    ws.IsLive r ∧ ws.structOf? r = some d ∧ (ws'.layoutOf r).stamp = (ws.layoutOf r).stamp ∧
      (((ws.layoutOf r).entries.size = i ∧
          ∃ present cursor, e' = Resolver.firstEntry d f.2 present cursor) ∨
        ∃ e, ws.entryOf? r i = some e ∧ ws.Notes r d i f.2 e e') := by
  have hsame (hr : ws.IsLive r) (hd : ws.structOf? r = some d)
      (hlayout : ws'.layoutOf r = ws.layoutOf r) : ws.IsLive r ∧ ws.structOf? r = some d ∧
        (ws'.layoutOf r).stamp = (ws.layoutOf r).stamp ∧
        (((ws.layoutOf r).entries.size = i ∧
            ∃ present cursor, e' = Resolver.firstEntry d f.2 present cursor) ∨
          ∃ e, ws.entryOf? r i = some e ∧ ws.Notes r d i f.2 e e') := by
    rw [entryOf?, hlayout] at he
    exact ⟨hr, hd, by rw [hlayout], .inr ⟨e', he, .nothing⟩⟩
  cases h with
  | @layout r₀ d₀ g hr₀ hd₀ hrewrites =>
    rcases (sets_modifyLayout ws r₀ g).layoutOf_cases hr₀ hr with ⟨rfl, hlayout⟩ | ⟨_, hlayout⟩
    · obtain rfl : d₀ = d := Option.some.inj (hd₀.symm.trans hd)
      rw [entryOf?, hlayout] at he
      rw [hlayout]
      exact ⟨hr, hd₀, hrewrites.entry hf he⟩
    · exact hsame hr hd hlayout
  | @undefined r₀ g hr₀ hnone _ =>
    rcases (sets_modifyLayout ws r₀ g).layoutOf_cases hr₀ hr with ⟨rfl, _⟩ | ⟨_, hlayout⟩
    · have hd : ws.structOf? r = some d := hd
      rw [hnone] at hd
      cases hd
    · exact hsame hr hd hlayout
  | place p hplace =>
    rcases hplace r hr with hold | hunknown
    · exact hsame hold hd rfl
    · have he : (ws.layoutOf r).entries[i]? = some e' := he
      rw [hunknown] at he
      cases he
  | bind args =>
    exact hsame ((isLive_modify (keepsVersion_bindArgs args).toKeepsPlace _).mp hr) hd rfl
  | count _ _ _ => exact hsame hr hd rfl

/-- **A size stays as it is, or it becomes known** as the arguments of now make it up. -/
theorem Rewrites.size_cases (h : ws.Rewrites r d l l') : l'.size = l.size ∨
    ∃ size, l'.size = some (ws.stampOf r d, size) ∧
      ∀ source, d.SizedBy source → size = d.sizeWith source (ws.argOf? r source) := by
  cases h with
  | validated =>
    unfold Layout.validated
    split <;> exact .inl rfl
  | same _ _ hsize => exact .inl hsize
  | size hsize => exact .inr ⟨_, rfl, hsize⟩
  | note | reach | pop => exact .inl rfl

end

/-! ## 3. What moves keep of each entry -/

/-- **Whether something holds of every entry** that belongs to the definition as it is now. -/
def Every (P : InstanceRef → StructDef → Field → FieldEntry → Prop) (ws : Workspace) : Prop :=
  ∀ r d st, ws.IsLive r → ws.structOf? r = some d → (ws.layoutOf r).stamp = some st →
    st.structVersion = d.version →
    ∀ i f e, d.field? i = some f → ws.entryOf? r i = some e → P r d f.2 e

/-- **Whether it holds as soon as a field is reached**, and notes keep it. -/
structure Noted (ws : Workspace) (P : InstanceRef → StructDef → Field → FieldEntry → Prop) :
    Prop where
  first : ∀ r d f present cursor, P r d f (Resolver.firstEntry d f present cursor)
  note : ∀ {r d i f e e'}, d.field? i = some f → ws.Notes r d i f.2 e e' → P r d f.2 e →
    P r d f.2 e'

section

variable {P : InstanceRef → StructDef → Field → FieldEntry → Prop}

/-- **A move keeps what holds of every entry.** -/
theorem Move.every (h : ws.Move ws') (hP : ws.Noted P) (hws : ws.Every P) : ws'.Every P := by
  intro r d st hr hd hst hversion i f e' hf he'
  obtain ⟨hr₀, hd₀, hstamp, ⟨_, present, cursor, rfl⟩ | ⟨e, he, hnote⟩⟩ := h.entry hr hd hf he'
  · exact hP.first r d f.2 present cursor
  · exact hP.note hf hnote (hws r d st hr₀ hd₀ (hstamp.symm.trans hst) hversion i f e hf he)

/-- **So do all of them.** -/
theorem Moved.every (h : start.Moved ws) (hP : ∀ ws, start.KeepsWithin ws → ws.Noted P)
    (hstart : start.Every P) : ws.Every P := by
  induction h with
  | refl => exact hstart
  | tail hmoved hmove _ ih => exact hmove.every (hP _ hmoved.keeps) ih

end

/-! ## 4. Entries in order -/

/-- Whether an entry is in order: of a field of a scalar type, and the room that it is known to take
up is right; of a single integer; and of a field that is not present. -/
structure InOrder (_ : InstanceRef) (d : StructDef) (f : Field) (e : FieldEntry) : Prop where
  scalars : d.PlainBudgets → ∀ t, f.value = none → f.type = .scalar t →
    e.Orderly f t ∧ ∀ total, e.totalSize = some total → e.Occupies f t total
  integer : ∀ t, f.OneInt t → e.KeepsOne
  absent : f.value = none → e.present = false → ∀ c, e.count = some c → c = 0

theorem inOrder_firstEntry (r : InstanceRef) (d : StructDef) (f : Field) (present : Bool)
    (cursor : Int64) : InOrder r d f (Resolver.firstEntry d f present cursor) := by
  refine ⟨fun _ t hv _ => ?_, fun t hone => ?_, fun hv _ c h => ?_⟩
  · obtain ⟨hvalues, hnext, hcount, htotal, _⟩ :=
      Resolver.firstEntry_of_value (d := d) hv present cursor
    refine ⟨⟨fun _ => hvalues, fun _ _ h => ?_, fun _ h => ?_, fun k hk => ?_⟩, fun _ h => ?_⟩
    · rw [hnext] at h
      cases h
    · rw [hcount] at h
      cases h
    · rw [hvalues] at hk
      cases hk
    · rw [htotal] at h
      cases h
  · obtain ⟨hvalues, _, hcount, _, hpreview⟩ :=
      Resolver.firstEntry_of_value (d := d) hone.value present cursor
    refine ⟨⟨fun _ h => ?_, .inl hvalues⟩, fun _ h => ?_⟩
    · rw [hcount] at h
      cases h
    · rw [hpreview] at h
      cases h
  · rw [(Resolver.firstEntry_of_value hv present cursor).2.2.1] at h
    cases h

/-- **Notes keep an entry in order.** -/
theorem noted_inOrder (ws : Workspace) : ws.Noted InOrder where
  first := inOrder_firstEntry
  note hf hnote he := by
    refine ⟨fun hd t hv ht => ?_, fun t hone => hnote.keepsOne hone (he.integer t hone),
      fun hv habsent => hnote.absent hv habsent (he.absent hv)⟩
    have hplain := hd.offsetFormula hf hv ht
    obtain ⟨horder, htotal⟩ := he.scalars hd t hv ht
    exact ⟨hnote.orderly hv ht hplain hd horder, hnote.occupies hv ht hplain hd horder htotal⟩

/-- **A workspace that is sound, with every entry in order.** -/
structure Ordered (ws : Workspace) : Prop where
  sound : ws.Sound True
  inOrder : ws.Every InOrder

theorem Moved.inOrder (h : start.Moved ws) (hstart : start.Every InOrder) : ws.Every InOrder :=
  h.every (fun ws _ => noted_inOrder ws) hstart

/-! ## 5. Counts that have become known -/

section

variable {d : StructDef} {i : Nat} {f : String × Field} {c : Int64}

/-- What a layout that is up to date holds is in order. -/
theorem Every.of_current {P : InstanceRef → StructDef → Field → FieldEntry → Prop}
    (h : ws.Every P) (hr : ws.IsLive r) (hd : ws.structOf? r = some d) (hc : ws.Current r)
    {e : FieldEntry} (hf : d.field? i = some f) (he : ws.entryOf? r i = some e) : P r d f.2 e :=
  h r d _ hr hd (hc d hd) rfl i f e hf he

/-- **A count that has become known** is the one that the entries make up. -/
theorem Moved.explains (h : start.Moved ws) (hstart : start.Every InOrder) (hr : start.IsLive r)
    (hd : start.structOf? r = some d) (hf : d.field? i = some f)
    (hplain : d.PlainBudgets ∨ f.2.countSource = .literal) (hc : ws.Current r)
    (hv : f.2.value = none) {e : FieldEntry}
    (he : ws.entryOf? r i = some e) (hcount : e.count = some c) :
    (start.Current r ∧ ∃ e₀, start.entryOf? r i = some e₀ ∧ e₀.count = some c) ∨
      ws.Counts r d i f.2 e.present c := by
  induction h generalizing e with
  | refl => exact .inl ⟨hc, e, he, hcount⟩
  | @tail ws ws' hmoved hmove hkeeps ih =>
    have hkept := hmoved.keeps
    have hr' : ws'.IsLive r := hkeeps.isLive hr
    have hd' : ws'.structOf? r = some d := (hkeeps.structOf? r).trans hd
    have hstamp' : ws'.stampOf r d = ws.stampOf r d :=
      (hkeeps.stampOf hr d).trans (hkept.stampOf hr d).symm
    obtain ⟨hr₁, hd₁, hstamp, hfrom⟩ := hmove.entry hr' hd' hf he
    have hc₁ : ws.Current r := by
      intro d₁ hd₁'
      rw [hd₁] at hd₁'
      cases hd₁'
      rw [← hstamp, hc d hd', hstamp']
    have hinOrder := hmoved.inOrder hstart
    -- A first element that is known to this workspace is known to the next, if it has its field.
    have hstays {present : Bool} (hlt : i < (ws'.layoutOf r).entries.size)
        (hcounts : ws.Counts r d i f.2 present c) : ws'.Counts r d i f.2 present c := by
      have hlimits : ws'.limits = ws.limits := hkeeps.limits.trans hkept.limits.symm
      refine hplain.elim (fun hplain => ?_) fun hsource => hcounts.of_literal hsource hlimits
      refine hcounts.mono (hkeeps.files.trans hkept.files.symm) hlimits
        (fun name => (hkeeps.argOf? hr name).trans (hkept.argOf? hr name).symm)
        fun j hj g e₁ v hg he₁ ht => ?_
      have hj' : j < (ws'.layoutOf r).entries.size := Nat.lt_trans hj hlt
      have he' : ws'.entryOf? r j = some (ws'.layoutOf r).entries[j] :=
        Array.getElem?_eq_getElem hj'
      obtain ⟨_, _, _, ⟨hsize, _⟩ | ⟨e₂, he₂, hnote⟩⟩ := hmove.entry hr' hd' hg he'
      · have hlt₁ := (Array.getElem?_eq_some_iff.mp he₁).1
        omega
      · rw [he₁] at he₂
        cases he₂
        refine ⟨_, he', hnote.tells hplain (fun hv hs hb => ?_) (fun t hv ht => ?_) ht⟩
        · exact hplain g (List.mem_of_getElem? hg) hv hs hb
        · exact ((hinOrder.of_current hr₁ hd₁ hc₁ hg he₁).scalars hplain t hv ht).1
    have hlt := (Array.getElem?_eq_some_iff.mp he).1
    rcases hfrom with ⟨_, present, cursor, rfl⟩ | ⟨e₁, he₁, hnote⟩
    · rw [(Resolver.firstEntry_of_value hv present cursor).2.2.1] at hcount
      cases hcount
    · -- The count was known before, or it has been noted right now.
      have hold (hcount₁ : e₁.count = some c) :
          (start.Current r ∧ ∃ e₀, start.entryOf? r i = some e₀ ∧ e₀.count = some c) ∨
            ws'.Counts r d i f.2 e.present c := by
        rcases ih hc₁ he₁ hcount₁ with hleft | hright
        · exact .inl hleft
        · rw [hnote.present]
          exact .inr (hstays hlt hright)
      cases hnote with
      | count _ hnew =>
        cases hcount
        exact .inr (hstays hlt (hnew hv).1)
      | _ => exact hold hcount

end

end Workspace

end ByteAtlas
