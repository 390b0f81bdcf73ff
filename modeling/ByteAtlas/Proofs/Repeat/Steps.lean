import ByteAtlas.Proofs.Additions.Children
import ByteAtlas.Proofs.Resolve.Arguments
import ByteAtlas.Proofs.Resolve.Edits

/-!
# Steps that repeat themselves

A step that is taken a second time finds what it has left behind: instances it has placed, budgets
it has replaced, what has become known. `Resolve.Repeats` says that it has the same result
nevertheless, and adds no instance any more. That is said not only of the workspace that the step
has led to but of each later one (`Workspace.Later`), so that it goes from the parts of a step to
the whole: what the second part leaves behind is there when the first one is repeated.

Two things have to be given for it. No instance has become new whose struct is asked for by name,
because such a question finds all instances there are (`Workspace.Later.unseen`). And a chain goes
on as its budgets say. What the schema says is enough for that if nothing that is asked about a
child can have it placed again with another budget (`Workspace.ChainsKept`); a chain may well go on
as its count says without it.
-/

namespace ByteAtlas

/-! ## 1. Later workspaces -/

/-- **Whether nothing that is asked about an instance of a struct has another one placed.** -/
def Schema.Apart (s : Schema) (struct : String) : Prop :=
  ∃ asked placed, s.Closed asked placed ∧ asked struct ∧ ¬ placed struct

/-- **Whether a schema admits no way to place a child in a field again** between its being placed
and its being gone on from: what is asked about the child leads to no other one of its struct, and
no argument of it is taken from a field. That is more than is needed: an argument that is taken from
a field is excluded because computing it asks the instance that the children are in, wherever that
leads. -/
structure Field.ChainKept (s : Schema) (d : StructDef) (f : Field) (struct : String) : Prop where
  apart : s.Apart struct
  args : f.PlainArgs d

namespace Workspace

/-- **Whether the schema makes sure that chains of children go on as their counts say**, for each
field that is known to hold more than one child in a chain. -/
def ChainsKept (ws : Workspace) : Prop :=
  ∀ r d i f e struct count, ws.IsLive r → ws.structOf? r = some d → ws.Current r →
    d.field? i = some f → ws.entryOf? r i = some e → e.count = some count → 1 < count →
    f.2.value = none → f.2.type = .struct struct →
    ¬ (f.2.individualOffsets = true ∧ f.2.offsetFormula.isSome) → f.2.ChainKept ws.schema d struct

/-- Whether no field is being laid out, in a sound workspace with a schema. -/
structure Calm (once : Prop) (schema : Schema) (ws : Workspace) : Prop where
  sound : ws.Sound once
  idle : ws.Idle
  schema : ws.schema = schema

/-- **Whether a workspace has grown** without a frame having been refused, and without a new
instance of one of the structs `seen`. -/
structure Later (seen : String → Prop) (ws ws' : Workspace) : Prop extends Grows ws ws' where
  quiet : ws'.refusals = ws.refusals
  unseen : ∀ id i, ws'.find? id = some i → ws.find? id = none → ¬ seen i.struct

/-- Whether more is known, and there are no new instances. -/
abbrev Learns (ws ws' : Workspace) : Prop := ws.Later (fun _ => True) ws'

section

variable {once : Prop} {schema : Schema} {seen : String → Prop} {ws ws' : Workspace}
  {r : InstanceRef}

theorem Calm.grows (h : ws.Calm once schema) (hs : ws'.Sound once) (hg : ws.Grows ws') :
    ws'.Calm once schema := by
  refine ⟨hs, fun r hr => ?_, hg.schema.trans h.schema⟩
  by_cases hold : ws.IsLive r
  · exact (hg.layouts r hold).measuring.trans (h.idle r hold)
  · exact hg.idle r hr hold

theorem Calm.setDepth (h : ws.Calm once schema) (depth : Nat) :
    Workspace.Calm once schema { ws with depth } :=
  ⟨h.sound.setDepth depth, h.idle, h.schema⟩

/-- Fields that hold more than one child do so later, too. -/
theorem ChainsKept.of_grows (h : ws'.ChainsKept) (hg : ws.Grows ws') : ws.ChainsKept := by
  intro r d i f e struct count hr hd hc hf he hcount hone hvalue htype hchain
  obtain ⟨e', he', hgrow⟩ := hg.entryOf? hr hc hd he
  have hkept := h r d i f e' struct count (hg.isLive hr) ((hg.structOf? r).trans hd)
    (hg.current hr hc) hf he' (hgrow.count count hcount) hone hvalue htype hchain
  rwa [hg.schema] at hkept

theorem Grows.setDepth (h : ws.Grows ws') (depth : Nat) :
    Grows { ws with depth } { ws' with depth } :=
  ⟨⟨h.schema, h.files, h.limits, rfl, h.refusals, h.nextId, h.instances, h.added⟩, h.layouts,
    h.idle, h.settled⟩

namespace Later

theorem refl (seen : String → Prop) (ws : Workspace) : ws.Later seen ws :=
  ⟨.refl ws, rfl, fun id i hi hnone => by rw [hi] at hnone; cases hnone⟩

theorem trans {a b c : Workspace} (hab : a.Later seen b) (hbc : b.Later seen c) :
    a.Later seen c := by
  refine ⟨hab.toGrows.trans hbc.toGrows, hbc.quiet.trans hab.quiet, fun id i hi hnone => ?_⟩
  cases hb : b.find? id with
  | none => exact hbc.unseen id i hi hb
  | some j =>
    obtain ⟨i', hi', hsame⟩ := hbc.instances id j hb
    rw [hi] at hi'
    cases hi'
    rw [hsame.struct]
    exact hab.unseen id j hb hnone

/-- What is new in between is still new at the end. -/
theorem left {a b c : Workspace} (h : a.Later seen c) (hab : a.Grows b) (hbc : b.Grows c) :
    a.Later seen b := by
  have hle := hab.refusals
  have hle' := hbc.refusals
  have hsame := h.quiet
  refine ⟨hab, by omega, fun id i hi hnone => ?_⟩
  obtain ⟨i', hi', hkept⟩ := hbc.instances id i hi
  rw [← hkept.struct]
  exact h.unseen id i' hi' hnone

theorem right {a b c : Workspace} (h : a.Later seen c) (hab : a.Grows b) (hbc : b.Grows c) :
    b.Later seen c := by
  have hle := hab.refusals
  have hle' := hbc.refusals
  have hsame := h.quiet
  refine ⟨hbc, by omega, fun id i hi hnone => h.unseen id i hi ?_⟩
  cases ha : a.find? id with
  | none => rfl
  | some j =>
    obtain ⟨j', hj', _⟩ := hab.instances id j ha
    rw [hnone] at hj'
    cases hj'

theorem learns (h : ws.Learns ws') (seen : String → Prop) : ws.Later seen ws' :=
  ⟨h.toGrows, h.quiet, fun id i hi hnone _ => h.unseen id i hi hnone trivial⟩

/-- Without a change of the directory no instance is new. -/
theorem of_directory (hg : ws.Grows ws') (hquiet : ws'.refusals = ws.refusals)
    (hd : ws'.directory = ws.directory) : ws.Learns ws' := by
  refine ⟨hg, hquiet, fun id i hi hnone => ?_⟩
  rw [Workspace.find?, hd] at hi
  rw [Workspace.find?, hi] at hnone
  cases hnone

theorem setDepth (h : ws.Later seen ws') (depth : Nat) :
    Later seen { ws with depth } { ws' with depth } :=
  ⟨h.toGrows.setDepth depth, h.quiet, h.unseen⟩

end Later

end

end Workspace

/-! ## 2. Repeated steps -/

namespace Resolve

section

variable (once : Prop) (schema : Schema) (seen : String → Prop) {α : Type}

/-- **A step that ends soundly, and repeats itself in every later workspace** that is like the one
in which it was taken (`same`): it has the same result then, adds no instance, and leaves a
workspace that is like the one that it has left before (`alike`). -/
def RepeatsIf (ws : Workspace) (same : Workspace → Prop) (step : Resolve α)
    (post : α → Workspace → Prop) (alike : α → Workspace → Workspace → Prop) : Prop :=
  ∃ a ws', step.runIn ws = (.ok a, ws') ∧ ws'.Calm once schema ∧ ws.Grows ws' ∧ post a ws' ∧
    (ws.Later seen ws' → ws'.ChainsKept → ∀ w, w.Calm once schema → ws'.Later seen w → same w →
      ∃ w', step.runIn w = (.ok a, w') ∧ w'.Calm once schema ∧ w.Learns w' ∧ alike a ws' w')

/-- **A step that repeats itself in every later workspace.** -/
def Repeats (ws : Workspace) (step : Resolve α) (post : α → Workspace → Prop) : Prop :=
  RepeatsIf once schema seen ws (fun _ => True) step post fun _ _ _ => True

end

variable {once : Prop} {schema : Schema} {seen : String → Prop} {α β : Type} {ws : Workspace}
  {same : Workspace → Prop} {step : Resolve α} {next : α → Resolve β}
  {post mid : α → Workspace → Prop} {alike : α → Workspace → Workspace → Prop}
  {last : β → Workspace → Prop} {alike' : β → Workspace → Workspace → Prop}

namespace RepeatsIf

theorem pure {a : α} (hc : ws.Calm once schema) (hp : post a ws)
    (hlike : ∀ w, ws.Later seen w → same w → alike a ws w) :
    RepeatsIf once schema seen ws same (Pure.pure a) post alike :=
  ⟨a, ws, rfl, hc, .refl ws, hp, fun _ _ w hw hlater hsame =>
    ⟨w, rfl, hw, .refl _ w, hlike w hlater hsame⟩⟩

/-- **One step after another.** -/
theorem bind (h : RepeatsIf once schema seen ws same step mid alike)
    (hn : ∀ a ws₁, ws₁.Calm once schema → ws.Grows ws₁ → mid a ws₁ →
      RepeatsIf once schema seen ws₁ (alike a ws₁) (next a) last alike') :
    RepeatsIf once schema seen ws same (step >>= next) last alike' := by
  obtain ⟨a, ws₁, hrun, hc₁, hg₁, hm, hagain⟩ := h
  obtain ⟨b, ws₂, hrun', hc₂, hg₂, hl, hagain'⟩ := hn a ws₁ hc₁ hg₁ hm
  refine ⟨b, ws₂, by rw [runIn_bind, hrun]; exact hrun', hc₂, hg₁.trans hg₂, hl, ?_⟩
  intro hlater hkept w hw hlater' hsame
  have hlater₂ := hlater.right hg₁ hg₂
  obtain ⟨w₁, hw₁, hcw₁, hlearns₁, hlike₁⟩ := hagain (hlater.left hg₁ hg₂)
    (hkept.of_grows hg₂) w hw (hlater₂.trans hlater') hsame
  obtain ⟨w₂, hw₂, hcw₂, hlearns₂, hlike₂⟩ := hagain' hlater₂ hkept w₁ hcw₁
    (hlater'.trans (hlearns₁.learns seen)) hlike₁
  refine ⟨w₂, ?_, hcw₂, hlearns₁.trans hlearns₂, hlike₂⟩
  rw [runIn_bind, hw₁]
  exact hw₂

/-- **Looking at something** of which only matters later what it has led to. -/
theorem look {f : Workspace → α}
    (hstable : ∀ w, w.Calm once schema → ws.Later seen w → same w →
      (next (f w)).runIn w = (next (f ws)).runIn w)
    (h : RepeatsIf once schema seen ws same (next (f ws)) last alike') :
    RepeatsIf once schema seen ws same (Resolve.ask f >>= next) last alike' := by
  obtain ⟨b, ws', hrun, hc, hg, hl, hagain⟩ := h
  refine ⟨b, ws', by rw [runIn_bind, runIn_ask]; exact hrun, hc, hg, hl, ?_⟩
  intro hlater hkept w hw hlater' hsame
  obtain ⟨w', hw', hrest⟩ := hagain hlater hkept w hw hlater' hsame
  refine ⟨w', ?_, hrest⟩
  rw [runIn_bind, runIn_ask]
  exact (hstable w hw (hlater.trans hlater') hsame).trans hw'

/-- **Looking at something that stays as it is.** -/
theorem ask {f : Workspace → α}
    (hstable : ∀ w, w.Calm once schema → ws.Later seen w → same w → f w = f ws)
    (h : RepeatsIf once schema seen ws same (next (f ws)) last alike') :
    RepeatsIf once schema seen ws same (Resolve.ask f >>= next) last alike' :=
  look (fun w hw hlater hsame => by rw [hstable w hw hlater hsame]) h

theorem mono {post' : α → Workspace → Prop} {alike' : α → Workspace → Workspace → Prop}
    (h : RepeatsIf once schema seen ws same step post alike)
    (hp : ∀ a ws', ws'.Calm once schema → ws.Grows ws' → post a ws' → post' a ws')
    (hlike : ∀ a ws' w', post a ws' → alike a ws' w' → alike' a ws' w') :
    RepeatsIf once schema seen ws same step post' alike' := by
  obtain ⟨a, ws', hrun, hc, hg, hpost, hagain⟩ := h
  refine ⟨a, ws', hrun, hc, hg, hp a ws' hc hg hpost, fun hlater hkept w hw hlater' hsame => ?_⟩
  obtain ⟨w', hw', hcw', hlearns, hl⟩ := hagain hlater hkept w hw hlater' hsame
  exact ⟨w', hw', hcw', hlearns, hlike a ws' w' hpost hl⟩

/-- Less is taken as given than there is. -/
theorem of_same {same' : Workspace → Prop}
    (h : RepeatsIf once schema seen ws same' step post alike)
    (hsame : ∀ w, ws.Later seen w → same w → same' w) :
    RepeatsIf once schema seen ws same step post alike := by
  obtain ⟨a, ws', hrun, hc, hg, hpost, hagain⟩ := h
  exact ⟨a, ws', hrun, hc, hg, hpost, fun hlater hkept w hw hlater' hw' =>
    hagain hlater hkept w hw hlater' (hsame w (hlater.trans hlater') hw')⟩

/-- Where the step is not taken a second time, it need only end. -/
theorem of_not_same (hc : ws.Calm once schema) (h : Ends once ws step ws post)
    (hno : ∀ w, ¬ same w) : RepeatsIf once schema seen ws same step post alike := by
  obtain ⟨a, ws', hrun, hs, hg, hpost⟩ := h
  exact ⟨a, ws', hrun, hc.grows hs hg, hg, hpost, fun _ _ w _ _ hsame => (hno w hsame).elim⟩

/-- Where a frame is refused there is nothing to repeat. -/
theorem of_refused (hc : ws.Calm once schema)
    (h : Ends once ws step ws fun _ ws' => ws.refusals < ws'.refusals) :
    RepeatsIf once schema seen ws same step (fun _ _ => True) alike := by
  obtain ⟨a, ws', hrun, hs, hg, hlt⟩ := h
  refine ⟨a, ws', hrun, hc.grows hs hg, hg, trivial, fun hlater => ?_⟩
  exact absurd hlater.quiet (Nat.ne_of_gt hlt)

/-- A step that repeats itself does so in particular in workspaces of some kind. -/
theorem of_repeats (h : Repeats once schema seen ws step post) :
    RepeatsIf once schema seen ws same step post fun _ _ _ => True := by
  obtain ⟨a, ws', hrun, hc, hg, hpost, hagain⟩ := h
  exact ⟨a, ws', hrun, hc, hg, hpost, fun hlater hkept w hw hlater' _ =>
    hagain hlater hkept w hw hlater' trivial⟩

end RepeatsIf

namespace Repeats

theorem pure {a : α} (hc : ws.Calm once schema) (hp : post a ws) :
    Repeats once schema seen ws (Pure.pure a) post :=
  RepeatsIf.pure hc hp fun _ _ _ => trivial

/-- **One step after another.** -/
theorem bind (h : Repeats once schema seen ws step mid)
    (hn : ∀ a ws₁, ws₁.Calm once schema → ws.Grows ws₁ → mid a ws₁ →
      Repeats once schema seen ws₁ (next a) last) :
    Repeats once schema seen ws (step >>= next) last :=
  RepeatsIf.bind h hn

/-- Where the step is repeated, no frame was refused in it, and nothing has become new that is
seen. -/
theorem facts (h : Repeats once schema seen ws step post) :
    RepeatsIf once schema seen ws (fun _ => True) step post
      fun _ ws' _ => ws.Later seen ws' ∧ ws'.ChainsKept := by
  obtain ⟨a, ws', hrun, hc, hg, hpost, hagain⟩ := h
  refine ⟨a, ws', hrun, hc, hg, hpost, fun hlater hkept w hw hlater' _ => ?_⟩
  obtain ⟨w', hw', hcw', hlearns, _⟩ := hagain hlater hkept w hw hlater' trivial
  exact ⟨w', hw', hcw', hlearns, hlater, hkept⟩

/-- **One step after another**, where the second one may rely on that. -/
theorem call (h : Repeats once schema seen ws step mid)
    (hn : ∀ a ws₁, ws₁.Calm once schema → ws.Grows ws₁ → mid a ws₁ →
      RepeatsIf once schema seen ws₁ (fun _ => ws.Later seen ws₁ ∧ ws₁.ChainsKept) (next a) last
        fun _ _ _ => True) :
    Repeats once schema seen ws (step >>= next) last :=
  RepeatsIf.bind h.facts hn

theorem ask {f : Workspace → α}
    (hstable : ∀ w, w.Calm once schema → ws.Later seen w → f w = f ws)
    (h : Repeats once schema seen ws (next (f ws)) last) :
    Repeats once schema seen ws (Resolve.ask f >>= next) last :=
  RepeatsIf.ask (fun w hw hlater _ => hstable w hw hlater) h

theorem mono (h : Repeats once schema seen ws step mid)
    (hp : ∀ a ws', ws'.Calm once schema → ws.Grows ws' → mid a ws' → post a ws') :
    Repeats once schema seen ws step post :=
  RepeatsIf.mono h hp fun _ _ _ _ _ => trivial

/-- Looking last at something that stays as it is. -/
theorem asked {f : Workspace → α} (hc : ws.Calm once schema) (hp : post (f ws) ws)
    (hstable : ∀ w, w.Calm once schema → ws.Later seen w → f w = f ws) :
    Repeats once schema seen ws (Resolve.ask f) post := by
  refine ⟨f ws, ws, rfl, hc, .refl ws, hp, fun _ _ w hw hlater _ => ⟨w, ?_, hw, .refl _ w, trivial⟩⟩
  rw [runIn_ask, hstable w hw hlater]

/-- What is known anyway of how the step ends. -/
theorem withPost (h : Repeats once schema seen ws step mid) (he : Ends once ws step ws post) :
    Repeats once schema seen ws step post := by
  obtain ⟨a, ws', hrun, hc, hg, _, hagain⟩ := h
  obtain ⟨_, _, hpost⟩ := he.of_run hrun
  exact ⟨a, ws', hrun, hc, hg, hpost, hagain⟩

/-- **A step whose answer is known once it has been given.** -/
theorem of_ends {known : Workspace → α → Workspace → Prop} (hc : ws.Calm once schema)
    (hends : ∀ w, w.Calm once schema → ws.Grows w → Ends once w step w (known w))
    (hagain : ∀ a ws', ws'.Calm once schema → ws.Later seen ws' → known ws a ws' →
      ∀ w, w.Calm once schema → ws'.Grows w → ∃ w' r l, step.runIn w = (.ok a, w') ∧ w.Sets r l w') :
    Repeats once schema seen ws step (known ws) := by
  obtain ⟨a, ws', hrun, hs, hg, hknown⟩ := hends ws hc (.refl ws)
  have hc' := hc.grows hs hg
  refine ⟨a, ws', hrun, hc', hg, hknown, fun hlater _ w hw hlater' _ => ?_⟩
  obtain ⟨w', r, l, hw', hset⟩ := hagain a ws' hc' hlater hknown w hw hlater'.toGrows
  obtain ⟨_, _, hrun', hs', hg', _⟩ := hends w hw (hg.trans hlater'.toGrows)
  rw [hw'] at hrun'
  cases hrun'
  exact ⟨w', hw', hw.grows hs' hg', .of_directory hg' hset.refusals hset.directory, trivial⟩

/-- A change of what is known. -/
theorem note {f : Workspace → Workspace} (hc : ws.Calm once schema)
    (hf : ∀ w, w.Calm once schema → ws.Grows w → (f w).Sound once ∧ w.Grows (f w) ∧
      (f w).refusals = w.refusals ∧ (f w).directory = w.directory) :
    Repeats once schema seen ws (Resolve.change f) fun _ _ => True := by
  obtain ⟨hs, hg, _, _⟩ := hf ws hc (.refl ws)
  refine ⟨(), f ws, rfl, hc.grows hs hg, hg, trivial, fun _ _ w hw hlater _ => ?_⟩
  obtain ⟨hs', hg', hrefusals, hd⟩ := hf w hw (hg.trans hlater.toGrows)
  exact ⟨f w, rfl, hw.grows hs' hg', .of_directory hg' hrefusals hd, trivial⟩

/-- Only that the step repeats itself. -/
theorem weaken (h : Repeats once schema seen ws step post) :
    Repeats once schema seen ws step fun _ _ => True :=
  h.mono fun _ _ _ _ _ => trivial

/-- What is taken as given when it is repeated is given after that. -/
theorem keep (h : Repeats once schema seen ws step post) (fact : Prop) :
    RepeatsIf once schema seen ws (fun _ => fact) step post fun _ _ _ => fact := by
  obtain ⟨a, ws', hrun, hc, hg, hpost, hagain⟩ := h
  refine ⟨a, ws', hrun, hc, hg, hpost, fun hlater hkept w hw hlater' hfact => ?_⟩
  obtain ⟨w', hw', hcw', hlearns, _⟩ := hagain hlater hkept w hw hlater' trivial
  exact ⟨w', hw', hcw', hlearns, hfact⟩

theorem map {f : α → β} (h : Repeats once schema seen ws step fun a ws' => last (f a) ws') :
    Repeats once schema seen ws (f <$> step) last := by
  rw [map_eq_pure_bind]
  exact h.bind fun a ws₁ hc₁ _ hl => .pure hc₁ hl

/-- **What is not cut short** the first time is not cut short later. -/
theorem unlessCutShort {step : Resolve (Option α)}
    (h : Repeats once schema seen ws step fun _ _ => True) :
    Repeats once schema seen ws (ByteAtlas.unlessCutShort step) fun _ _ => True := by
  obtain ⟨a, ws', hrun, hc, hg, _, hagain⟩ := h
  have hcut {w w' : Workspace} (hw : step.runIn w = (.ok a, w')) :
      (ByteAtlas.unlessCutShort step).runIn w =
        (.ok (if w'.refusals = w.refusals then a else none), w') := by
    unfold ByteAtlas.unlessCutShort
    simp only [runIn_bind, runIn_ask, hw, runIn_pure]
  refine ⟨_, ws', hcut hrun, hc, hg, trivial, fun hlater hkept w hw hlater' _ => ?_⟩
  obtain ⟨w', hw', hcw', hlearns, _⟩ := hagain hlater hkept w hw hlater' trivial
  refine ⟨w', ?_, hcw', hlearns, trivial⟩
  rw [hcut hw', if_pos hlearns.quiet, if_pos hlater.quiet]

/-- **One frame further in.** If the frame is refused, there is nothing to repeat. -/
theorem inFrame (hc : ws.Calm once schema) (h : ∀ depth,
      Repeats once schema seen { ws with depth } step fun _ _ => True) :
    Repeats once schema seen ws (ByteAtlas.inFrame step) fun _ _ => True := by
  have hthrough {w w' : Workspace} {a : α} (hd : w.depth < w.limits.maxDepth)
      (hrun : step.runIn { w with depth := w.depth + 1 } = (.ok a, w')) :
      (ByteAtlas.inFrame step).runIn w = (.ok (some a), { w' with depth := w'.depth - 1 }) := by
    rw [runIn_inFrame_of_lt step hd, hrun]
  have hback {w w' : Workspace} (hg : Workspace.Grows { w with depth := w.depth + 1 } w') :
      w'.depth = w.depth + 1 ∧ w.Grows { w' with depth := w'.depth - 1 } := by
    have hdepth : w'.depth = w.depth + 1 := hg.depth
    refine ⟨hdepth, ?_⟩
    rw [hdepth, Nat.add_sub_cancel]
    exact hg.setDepth w.depth
  by_cases hd : ws.depth < ws.limits.maxDepth
  · obtain ⟨a, ws', hrun, hc', hg, _, hagain⟩ := h (ws.depth + 1)
    obtain ⟨hdepth, hg'⟩ := hback hg
    refine ⟨some a, _, hthrough hd hrun, hc'.setDepth _, hg', trivial, ?_⟩
    intro hlater hkept w hw hlater' _
    have hwd : w.depth = ws.depth := hlater'.depth.trans hg'.depth
    have hfirst : Workspace.Later seen { ws with depth := ws'.depth } ws' :=
      hlater.setDepth ws'.depth
    have hbelow : ws'.Later seen { w with depth := ws'.depth } := hlater'.setDepth ws'.depth
    rw [hdepth] at hfirst hbelow
    obtain ⟨w', hw', hcw', hlearns, _⟩ := hagain hfirst hkept _ (hw.setDepth _) hbelow trivial
    rw [← hwd] at hw' hlearns
    have hroom : w.depth < w.limits.maxDepth := by
      rw [hwd, hlater'.limits, show ws'.limits = ws.limits from hg.limits]
      exact hd
    refine ⟨_, hthrough hroom hw', hcw'.setDepth _, ?_, trivial⟩
    obtain ⟨hdepth', hgrow⟩ := hback hlearns.toGrows
    exact ⟨hgrow, hlearns.quiet, hlearns.unseen⟩
  · obtain ⟨_, ws', hrefused, hrest⟩ := ends_refuseFrame hc.sound
    have hrun := runIn_inFrame_of_le step (Nat.not_lt.mp hd)
    rw [hrefused] at hrun
    exact .of_refused hc ⟨none, ws', hrun, hrest⟩

end Repeats

end Resolve

end ByteAtlas
