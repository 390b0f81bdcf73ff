import ByteAtlas.Proofs.Resolve.Ends
import ByteAtlas.Proofs.Resolve.FieldLaw

/-!
# Questions about fields end soundly

For each question about the fields of an instance that its resolver answers, in the order of
`ByteAtlas.Resolve.Fields`: it ends soundly, given that the two steps of the resolver that take a
frame do (`Resolver.Reliable`). What the question notes was not known when it was asked.
-/

namespace ByteAtlas

open Resolve (Ends)

/-- Whether a text is the preview of a field for which an entry stands. There is none of a field
without an offset. -/
def Field.Previews (f : Field) (e : FieldEntry) (text : String) : Prop :=
  (e.present = false ∧ text = notPresentPreview) ∨
  (e.present = true ∧ (e.preview = some text ∨
    (e.preview = none ∧ e.offset = none ∧ f.offsetFormula = none ∧ text = notLoadedPreview)))

/-- The preview of a field stays as it is. -/
theorem Field.Previews.grows {f : Field} {e e' : FieldEntry} {text : String} (h : f.Previews e text)
    (hg : FieldEntry.Grows (some f) e e') : f.Previews e' text := by
  rcases h with ⟨habsent, htext⟩ | ⟨hpresent, hp | ⟨hp, hunplaced, hplain, htext⟩⟩
  · exact .inl ⟨hg.present.trans habsent, htext⟩
  · exact .inr ⟨hg.present.trans hpresent, .inl (hg.preview text hp)⟩
  · exact .inr ⟨hg.present.trans hpresent, .inr ⟨(hg.unplaced f rfl hplain hunplaced).trans hp,
      (hg.placed f rfl hplain).trans hunplaced, hplain, htext⟩⟩

/-- Whether the first fields of an instance have been laid out. -/
def Workspace.LaidOut (ws : Workspace) (r : InstanceRef) (upTo : Nat) : Prop :=
  ∀ d, ws.structOf? r = some d → min upTo d.fieldCount ≤ (ws.layoutOf r).entries.size

/-- **Whether the steps that take a frame end soundly.** Fields are laid out of instances whose
layout is up to date, and none of whose fields is being laid out. Only a refused frame keeps fields
from being laid out, unless lazily, and expressions from having a value. -/
structure Resolver.Reliable (once : Prop) (resolver : Resolver) : Prop where
  layOut : ∀ {ws : Workspace} {r : InstanceRef} {d : StructDef} (upTo : Nat) (isLazy : Bool),
    ws.Sound once → ws.IsLive r → ws.structOf? r = some d →
    (ws.layoutOf r).stamp = some (ws.stampOf r d) → (ws.layoutOf r).measuring = none →
    Ends once ws (resolver.layOut r d upTo isLazy) ws fun _ ws' =>
      isLazy = false → ws'.refusals = ws.refusals → ws'.LaidOut r upTo
  evaluate : ∀ {ws : Workspace} (scope : Scope) (expr : Expr), ws.Sound once → ws.IsLive scope.root →
    Ends once ws (resolver.evaluate scope expr) ws fun a ws' =>
      ws'.refusals = ws.refusals → a ≠ none

namespace Workspace

/-- Whether the layout of an instance is up to date, if its struct is defined. -/
def Current (ws : Workspace) (r : InstanceRef) : Prop :=
  ∀ d, ws.structOf? r = some d → (ws.layoutOf r).stamp = some (ws.stampOf r d)

section

variable {once : Prop} {start ws : Workspace} {r : InstanceRef} {d : StructDef} {i : Nat}

theorem Grows.current (h : Grows ws start) (hr : ws.IsLive r) (hc : ws.Current r) :
    start.Current r := by
  intro d hd
  rw [h.structOf?] at hd
  rw [h.stampOf hr]
  have hnow : ws.stampNow? r = some (ws.stampOf r d) := by
    rw [Workspace.stampNow?, hd]
    rfl
  exact ((h.layouts r hr).kept _ hnow (hc d hd)).1

theorem fieldOf?_eq (hd : ws.structOf? r = some d) (i : Nat) : ws.fieldOf? r i = d.field? i := by
  rw [fieldOf?, hd]

/-- A field belongs to a definition. -/
theorem structOf?_of_fieldOf? {f : String × Field} (hf : ws.fieldOf? r i = some f) :
    ∃ d, ws.structOf? r = some d ∧ d.field? i = some f := by
  rw [fieldOf?] at hf
  split at hf
  · rename_i d hd
    exact ⟨d, hd, hf⟩
  · cases hf

theorem HasField.grows {ws' : Workspace} {field : String × Field} (hg : ws.Grows ws')
    (h : ws.HasField r field) : ws'.HasField r field :=
  h.imp fun _ hd => ⟨(hg.structOf? r).trans hd.1, hd.2⟩

theorem Sound.fits_of_current (h : ws.Sound once) (ho : once) (hr : ws.IsLive r) (hc : ws.Current r)
    (hd : ws.structOf? r = some d) : (ws.layoutOf r).Fits d r.offset :=
  h.fits ho r d _ hr hd (hc d hd) rfl

theorem fieldIn_structOf? : fieldIn (ws.structOf? r) i = (ws.fieldOf? r i).map Prod.snd := by
  unfold fieldIn fieldOf?
  cases ws.structOf? r <;> rfl

/-- What is known about a field of an up to date layout stays known. -/
theorem Grows.entryOf? (h : Grows start ws) (hr : start.IsLive r) (hc : start.Current r)
    (hd : start.structOf? r = some d) {e : FieldEntry} (he : start.entryOf? r i = some e) :
    ∃ e', ws.entryOf? r i = some e' ∧ FieldEntry.Grows (fieldIn (start.structOf? r) i) e e' := by
  have hnow : start.stampNow? r = some (start.stampOf r d) := by
    rw [Workspace.stampNow?, hd]
    rfl
  exact ((h.layouts r hr).kept _ hnow (hc d hd)).2 i e he

/-- Fields that have been laid out still are. -/
theorem Grows.laidOut (h : Grows start ws) (hr : start.IsLive r) (hc : start.Current r) {upTo : Nat}
    (hl : start.LaidOut r upTo) : ws.LaidOut r upTo := by
  intro d hd
  rw [h.structOf?] at hd
  have hnow : start.stampNow? r = some (start.stampOf r d) := by
    rw [Workspace.stampNow?, hd]
    rfl
  exact Nat.le_trans (hl d hd) ((h.layouts r hr).kept _ hnow (hc d hd)).2.size_le

/-- **What is known once the first fields have been asked for**: the layout is up to date, and goes
as far as that, unless lazily or if a frame was refused. -/
def Reaches (ws ws' : Workspace) (r : InstanceRef) (upTo : Nat) (isLazy : Bool) : Prop :=
  ws'.Current r ∧ (isLazy = false → ws'.refusals = ws.refusals →
    (ws.layoutOf r).measuring = none → ws'.LaidOut r upTo)

theorem Reaches.grows {before : Workspace} {upTo : Nat} {isLazy : Bool}
    (h : before.Reaches start r upTo isLazy) (hb : before.Grows start) (hr : start.IsLive r)
    (hg : Grows start ws) : before.Reaches ws r upTo isLazy := by
  refine ⟨hg.current hr h.1, fun hl hquiet hm => hg.laidOut hr h.1 (h.2 hl ?_ hm)⟩
  have hle := hb.refusals
  have hle' := hg.refusals
  omega

/-- Dropping what does not hold. -/
theorem Sound.validate (h : ws.Sound once) (hr : ws.IsLive r) (hd : ws.structOf? r = some d) :
    let ws' := ws.modifyLayout r fun l => l.validated (ws.stampOf r d) r.offset
    ws'.Sound once ∧ ws.Grows ws' ∧ ws'.Current r := by
  have hnow : ws.stampNow? r = some (ws.stampOf r d) := by
    rw [stampNow?, hd]
    rfl
  have hstamp : ((ws.layoutOf r).validated (ws.stampOf r d) r.offset).stamp =
      some (ws.stampOf r d) := by
    unfold Layout.validated
    split
    · rename_i hs
      exact hs
    · rfl
  have hm : (ws.layoutOf r).measuring ≠ none →
      (ws.layoutOf r).stamp = some (ws.stampOf r d) := by
    intro hm
    obtain ⟨d', hd', hs⟩ := h.measuring r hr hm
    rw [hd] at hd'
    cases hd'
    exact hs
  have hadmits : ws.Admits once r ((ws.layoutOf r).validated (ws.stampOf r d) r.offset) := by
    refine ⟨?_, ?_, ?_, ?_⟩
    · intro ho d' st hd' hst hv
      unfold Layout.validated at hst ⊢
      split
      · rename_i hs
        rw [if_pos hs] at hst
        exact h.fits ho r d' st hr hd' hst hv
      · exact Layout.fits_of_empty rfl rfl rfl
    · intro _
      exact ⟨d, hd, hstamp⟩
    · intro ho st hst
      rw [hstamp] at hst
      cases hst
      exact h.versions ho _ d hd
    · intro ho st n hsize
      rw [Layout.size_validated] at hsize
      exact h.sizes ho r st n hr hsize
  refine ⟨h.modifyLayout hr hadmits, (Grows.refl ws).modifyLayout hr ⟨?_, ?_, ?_⟩, ?_⟩
  · intro _
    rw [hnow]
    exact .validated hm r.offset
  · exact fun hnot => absurd hr hnot
  · intro hs d' hd'
    rw [hd] at hd'
    cases hd'
    exact (hs r d hr hd).validated
  · intro d' hd'
    have hd'' : d = d' := Option.some.inj (hd.symm.trans hd')
    rw [layoutOf_modifyLayout, hstamp, hd'']
    rfl

/-- A note in an entry of a sound workspace. -/
theorem Sound.modifyEntry (h : ws.Sound once) (hr : ws.IsLive r) {f : FieldEntry → FieldEntry}
    (hf : once → ∀ d e, ws.structOf? r = some d → ws.entryOf? r i = some e →
      Layout.Harmless d i (i < (ws.layoutOf r).passed) e (f e)) :
    (ws.modifyLayout r (·.modifyEntry i f)).Sound once := by
  have hadmits := h.admits hr
  refine h.modifyLayout hr ⟨?_, hadmits.measuring, hadmits.stamps, hadmits.sizes⟩
  intro ho d st hd hst hv
  exact (hadmits.fits ho d st hd hst hv).modifyEntry fun e he => hf ho d e hd he

/-- What was not known is noted in an entry. -/
theorem Grows.modifyEntry (h : Grows start ws) (hr : start.IsLive r) {f : FieldEntry → FieldEntry}
    (hf : ∀ d e e', start.structOf? r = some d → start.Current r →
      start.entryOf? r i = some e → ws.entryOf? r i = some e' →
      FieldEntry.Grows (fieldIn (start.structOf? r) i) e e' →
      FieldEntry.Grows (fieldIn (start.structOf? r) i) e (f e')) :
    Grows start (ws.modifyLayout r (·.modifyEntry i f)) := by
  have hext := h.extends (h.isLive hr)
  refine h.modifyLayout (h.isLive hr)
    ⟨fun _ => (h.layouts r hr).modifyEntry fun hnow hstamp e e' => ?_, ?_, ?_⟩
  · obtain ⟨d, hd⟩ := Option.isSome_iff_exists.mp (Option.isSome_map.symm.trans hnow)
    refine hf d e e' hd fun d' hd' => ?_
    rw [hstamp, stampNow?, hd']
    rfl
  · exact fun hnot => absurd hr hnot
  · exact fun hs d hd => (hext.settled hs d hd).modifyEntry i f

/-- **The value that an expression gives is noted**, unless there is one already. -/
theorem Sound.noteFormula (hs : ws.Sound once) (hr : ws.IsLive r) {f : Field}
    (hf : fieldIn (ws.structOf? r) i = some f) (hvalue : f.value.isSome) (value : Int64) :
    let ws' := ws.modifyLayout r (·.modifyEntry i fun e =>
      if e.values.isEmpty then { e with values := #[⟨0, .int value⟩] } else e)
    ws'.Sound once ∧ ws.Grows ws' := by
  refine ⟨hs.modifyEntry hr fun _ d e _ _ => ?_, (Grows.refl ws).modifyEntry hr ?_⟩
  · split <;> exact .of_same rfl rfl rfl rfl
  · intro _ e e' _ _ _ _ hg
    split
    · rename_i hv
      have hempty : e.values = #[] := by
        have hp := hg.values
        rw [Array.isEmpty_iff.mp hv] at hp
        exact Array.toList_eq_nil_iff.mp (List.prefix_nil.mp hp)
      refine hg.setValues (by rw [hempty]; exact List.nil_prefix) (fun _ _ _ _ => Nat.le_refl 1)
        fun g hg' hex => ?_
      rw [hf] at hg'
      cases hg'
      exact absurd hempty ((Field.Exhausted.iff_of_value hvalue).mp hex)
    · exact hg

end

/-- Whether an element of a field has been read, or there is none. -/
def HasRead (ws : Workspace) (r : InstanceRef) (i n : Nat) : Prop :=
  ∀ f e, ws.fieldOf? r i = some f → ws.entryOf? r i = some e →
    n < e.values.size ∨ f.2.Exhausted e

/-- **What is known once elements have been read**, without a frame having been refused: whether the
one asked for is there. -/
def ReadsTo (ws ws' : Workspace) (r : InstanceRef) (i : Nat) (wanted : Wanted) (there : Bool) :
    Prop :=
  ws'.refusals = ws.refusals → ∀ n, wanted = .first (n + 1) →
    ws'.HasRead r i n ∧ (there = true ↔ ∃ e, ws'.entryOf? r i = some e ∧ n < e.values.size)

/-- **What is known once elements have been counted**: the count is noted, and it is the one that
was known. -/
structure Counted (ws ws' : Workspace) (r : InstanceRef) (i : Nat) (isLazy : Bool)
    (a : Option Int64) : Prop where
  reaches : ws.Reaches ws' r (i + 1) isLazy
  noted : ∀ d n, ws'.structOf? r = some d → a = some n →
    ∃ e, ws'.entryOf? r i = some e ∧ e.count = some n
  known : ∀ d e n, ws.Current r → ws.structOf? r = some d → ws.entryOf? r i = some e →
    e.count = some n → a = some n
  missing : a = none → ws'.refusals = ws.refusals → ws'.entryOf? r i = none

end Workspace

/-- **Noting in an entry** what was not known in the workspace `mid`. -/
theorem Resolve.Ends.note {once : Prop} {β : Type} {start mid ws : Workspace} {r : InstanceRef}
    {i : Nat}
    {f : FieldEntry → FieldEntry} {next : Unit → Resolve β} {last : β → Workspace → Prop}
    (hs : ws.Sound once) (hg : mid.Grows ws) (hr : mid.IsLive r)
    (hharm : once → ∀ d e, ws.structOf? r = some d → ws.entryOf? r i = some e →
      Layout.Harmless d i (i < (ws.layoutOf r).passed) e (f e))
    (hnew : ∀ d e e', mid.structOf? r = some d → mid.Current r →
      mid.entryOf? r i = some e → ws.entryOf? r i = some e' →
      FieldEntry.Grows (fieldIn (mid.structOf? r) i) e e' →
      FieldEntry.Grows (fieldIn (mid.structOf? r) i) e (f e'))
    (hn : ∀ ws', ws'.Sound once → mid.Grows ws' → ws'.entryOf? r i = (ws.entryOf? r i).map f →
      ws'.refusals = ws.refusals → Ends once start (next ()) ws' last) :
    Ends once start (modifyEntry r i f >>= next) ws last :=
  .change (hn _ (hs.modifyEntry (hg.isLive hr) hharm) (hg.modifyEntry hr hnew)
    Workspace.entryOf?_modifyEntry rfl)

/-- **Ending soundly is a law** of what is asked of an instance. Of how it ends nothing is said. -/
def Resolver.Reliable.law {once : Prop} {resolver : Resolver} (h : resolver.Reliable once)
    (r : InstanceRef) : resolver.FieldLaw resolver r where
  Holds step _ := Resolve.EndsFor once r step
  Defines _ := True
  pure _ _ hs _ := .pure hs (.refl _) trivial
  bind h hn _ hs hr := .call (h hs hr) fun a _ hs₁ hg₁ _ => .rebase hg₁ (hn a hs₁ (hg₁.isLive hr))
  struct hn _ hs hr := .ask (hn _ (fun _ _ => trivial) hs hr)
  schema _ := .look _
  fileSize := .look _
  layout := .look _
  instance? _ _ := .look _
  evaluate _ _ _ _ _ _ hs hr := (h.evaluate _ _ hs hr).weaken

namespace Resolver.Reliable

variable {once : Prop} {resolver : Resolver} {ws : Workspace} {r : InstanceRef}

/-! ## 1. Laying out -/

/-- **After a field has been asked for, the layout is up to date**, and goes as far as the field
unless it is lazy. -/
theorem enumerate (h : resolver.Reliable once) (hs : ws.Sound once) (hr : ws.IsLive r) (upTo : Nat)
    (isLazy : Bool) : Ends once ws (resolver.enumerate r upTo isLazy) ws fun _ ws' =>
      ws.Reaches ws' r upTo isLazy := by
  unfold Resolver.enumerate
  refine .ask ?_
  cases hd : ws.structOf? r with
  | none =>
    have hno {d : StructDef} (hd' : ws.structOf? r = some d) : False := by
      rw [hd] at hd'
      cases hd'
    exact .pure hs (.refl ws) ⟨fun d hd' => (hno hd').elim, fun _ _ _ d hd' => (hno hd').elim⟩
  | some d =>
    obtain ⟨hs₁, hg₁, hc₁⟩ := hs.validate hr hd
    refine .change (.ask ?_)
    split
    · rename_i hdone
      refine .pure hs₁ hg₁ ⟨hc₁, fun _ _ hm d' hd' => ?_⟩
      rw [hg₁.structOf?, hd] at hd'
      cases hd'
      rw [(hg₁.layouts r hr).measuring, hm] at hdone
      simpa using hdone
    · rename_i hmore
      simp only [Bool.or_eq_true, not_or, Bool.not_eq_true, Option.isSome_eq_false_iff,
        Option.isNone_iff_eq_none] at hmore
      have hr₁ := hg₁.isLive hr
      refine .finish hg₁ (h.layOut _ isLazy hs₁ hr₁ hd (hc₁ d hd) hmore.2) ?_
      refine fun _ ws' _ hg' hlaid => ⟨hg'.current hr₁ hc₁, fun hl hsame _ d' hd' => ?_⟩
      have hle := hlaid hl hsame d' hd'
      rw [hg'.structOf?, hg₁.structOf?, hd] at hd'
      cases hd'
      omega

theorem isPresent (h : resolver.Reliable once) (hs : ws.Sound once) (hr : ws.IsLive r) (i : Nat)
    (isLazy : Bool) : Ends once ws (resolver.isPresent r i isLazy) ws fun a ws' =>
      ws.Reaches ws' r (i + 1) isLazy ∧ a = (ws'.entryOf? r i).map FieldEntry.present := by
  unfold Resolver.isPresent
  refine .call (h.enumerate hs hr _ _) fun _ ws₁ hs₁ hg₁ hlaid => ?_
  exact .ask (.pure hs₁ hg₁ ⟨hlaid, rfl⟩)

/-! ## 2. Offsets -/

/-- **An offset that is found is noted**, and it is the one that was known. If there is none,
nothing computes it. -/
theorem fieldOffset (h : resolver.Reliable once) (hs : ws.Sound once) (hr : ws.IsLive r) (i : Nat)
    (isLazy : Bool) : Ends once ws (resolver.fieldOffset r i isLazy) ws fun a ws' =>
      ws.Reaches ws' r (i + 1) isLazy ∧
      (∀ n, a = some n → ∃ e, ws'.entryOf? r i = some e ∧ e.offset = some n) ∧
      (∀ f e, ws.Current r → ws.fieldOf? r i = some f → ws.entryOf? r i = some e →
        (e.offset.isSome ∨ f.2.offsetFormula = none) → a = e.offset) ∧
      (a = none → isLazy = false → ws'.refusals = ws.refusals → ∀ f e,
        ws'.fieldOf? r i = some f → ws'.entryOf? r i = some e →
        e.offset = none ∧ f.2.offsetFormula = none) := by
  unfold Resolver.fieldOffset
  refine .call (h.enumerate hs hr _ _) fun _ ws₁ hs₁ hg₁ hlaid => .ask ?_
  have hc₁ := hlaid.1
  have hr₁ := hg₁.isLive hr
  -- What was known in the beginning still is.
  have hknown {f : String × Field} {e : FieldEntry} (hc : ws.Current r)
      (hf : ws.fieldOf? r i = some f) (he : ws.entryOf? r i = some e)
      (hsure : e.offset.isSome ∨ f.2.offsetFormula = none) :
      ∃ e₁, ws₁.entryOf? r i = some e₁ ∧ e₁.offset = e.offset := by
    obtain ⟨d, hd, _⟩ := Workspace.structOf?_of_fieldOf? hf
    obtain ⟨e₁, he₁, hgrow⟩ := hg₁.entryOf? hr hc hd he
    rw [Workspace.fieldIn_structOf?, hf] at hgrow
    exact ⟨e₁, he₁, hgrow.offset_eq hsure⟩
  cases he : ws₁.entryOf? r i with
  | none =>
    refine .pure hs₁ hg₁ ⟨hlaid, fun n hn => (by cases hn), fun f e hc hf he' hsure => ?_,
      fun _ _ _ f e _ he' => ?_⟩
    · obtain ⟨e₁, he₁, _⟩ := hknown hc hf he' hsure
      rw [he] at he₁
      cases he₁
    · rw [he] at he'
      cases he'
  | some entry =>
    have hsame {f : String × Field} {e : FieldEntry} (hc : ws.Current r)
        (hf : ws.fieldOf? r i = some f) (he' : ws.entryOf? r i = some e)
        (hsure : e.offset.isSome ∨ f.2.offsetFormula = none) : entry.offset = e.offset := by
      obtain ⟨e₁, he₁, heq⟩ := hknown hc hf he' hsure
      rw [he] at he₁
      cases he₁
      exact heq
    dsimp only
    split
    · rename_i hdone
      refine .pure hs₁ hg₁ ⟨hlaid, fun n hn => ⟨entry, he, hn⟩, fun f e hc hf he' => hsame hc hf he',
        fun hnone hl => ?_⟩
      rw [hnone, hl] at hdone
      cases hdone
    · rename_i hnone
      have hnone : entry.offset = none := by
        simp only [Bool.or_eq_true, not_or, Bool.not_eq_true, Option.isSome_eq_false_iff,
          Option.isNone_iff_eq_none] at hnone
        exact hnone.1
      refine .ask ?_
      split
      · rename_i hplain
        refine .pure hs₁ hg₁ ⟨hlaid, fun n hn => (by cases hn), fun f e hc hf he' hsure => ?_,
          fun _ _ _ f e hf he' => ⟨?_, ?_⟩⟩
        · rw [← hsame hc hf he' hsure, hnone]
        · rw [he] at he'
          cases he'
          exact hnone
        · exact Option.bind_eq_none_iff.mp hplain f hf
      · rename_i formula hformula
        obtain ⟨f, hf, hformula⟩ := Option.bind_eq_some_iff.mp hformula
        obtain ⟨d, hd, hfield⟩ := Workspace.structOf?_of_fieldOf? hf
        have hcomputed {f' : String × Field} {e : FieldEntry} (hc : ws.Current r)
            (hf' : ws.fieldOf? r i = some f') (he' : ws.entryOf? r i = some e) :
            ¬ (e.offset.isSome ∨ f'.2.offsetFormula = none) := by
          intro hsure
          have heq := hsame hc hf' he' hsure
          rw [Workspace.fieldOf?, ← hg₁.structOf?, ← Workspace.fieldOf?, hf] at hf'
          cases hf'
          rcases hsure with hsome | hplain
          · rw [← heq, hnone] at hsome
            cases hsome
          · rw [hformula] at hplain
            cases hplain
        refine .call (ends_unlessCutShort (h.evaluate _ _ hs₁ hr₁))
          fun offset ws₂ hs₂ hg₂ hcut => ?_
        cases offset with
        | none =>
          refine .pure hs₂ (hg₁.trans hg₂) ⟨hlaid.grows hg₁ hr₁ hg₂, fun n hn => (by cases hn),
            fun f e hc hf he' hsure => absurd hsure (hcomputed hc hf he'), fun _ _ hquiet => ?_⟩
          have hle := hg₁.refusals
          have hle' := hg₂.refusals
          rcases hcut with ⟨hsame₂, hvalue⟩ | ⟨hmore, _⟩
          · exact absurd rfl (hvalue hsame₂)
          · omega
        | some offset =>
          refine .note hs₂ hg₂ hr₁ ?_ ?_ fun ws₃ hs₃ hg₃ he₃ _ => ?_
          · intro _ d' e hd' _
            rw [hg₂.structOf?, hd] at hd'
            cases hd'
            refine ⟨rfl, rfl, fun f' hf' hcomp => ?_, fun _ _ _ => rfl⟩
            rw [hfield] at hf'
            cases hf'
            rw [Field.isComputed, hformula] at hcomp
            simp at hcomp
          · intro _ e e' _ _ he' _ hg
            rw [he] at he'
            cases he'
            refine hg.setOffset hnone (fun g hg => ?_) offset
            rw [Workspace.fieldIn_structOf?, hf] at hg
            cases hg
            rw [hformula]
            exact fun e => by cases e
          · refine .pure hs₃ (hg₁.trans hg₃) ⟨hlaid.grows hg₁ hr₁ hg₃, ?_,
              fun f e hc hf he' hsure => absurd hsure (hcomputed hc hf he'), fun e => by cases e⟩
            rintro _ ⟨⟩
            obtain ⟨e₂, he₂, _⟩ := hg₂.entryOf? hr₁ hc₁ hd he
            exact ⟨_, by rw [he₃, he₂]; rfl, rfl⟩

/-! ## 3. Elements -/

/-- The value that an expression gives is the only element. -/
theorem readFormula (h : resolver.Reliable once) (hs : ws.Sound once) (hr : ws.IsLive r)
    (hc : ws.Current r) {i : Nat} {f : String × Field} (hf : ws.fieldOf? r i = some f)
    {entry : FieldEntry} (he : ws.entryOf? r i = some entry) {formula : Formula}
    (hvalue : f.2.value = some formula) {wanted : Wanted}
    (hmore : wanted.metBy entry.values.size = false) :
    Ends once ws (resolver.readFormula r i entry formula wanted) ws fun ok ws' =>
      ws.ReadsTo ws' r i wanted ok := by
  have hsome : f.2.value.isSome := by rw [hvalue]; rfl
  obtain ⟨d, hd, _⟩ := Workspace.structOf?_of_fieldOf? hf
  have hin : fieldIn (ws.structOf? r) i = some f.2 := by
    rw [Workspace.fieldIn_structOf?, hf]
    rfl
  unfold Resolver.readFormula
  refine .call (ends_unlessCutShort (h.evaluate _ _ hs hr)) fun value ws₁ hs₁ hg₁ hcut => ?_
  have hr₁ := hg₁.isLive hr
  obtain ⟨e₁, he₁, hgrow⟩ := hg₁.entryOf? hr hc hd he
  cases value with
  | none =>
    refine .pure hs₁ hg₁ fun hquiet => ?_
    rcases hcut with ⟨_, hvalue⟩ | ⟨hrefused, _⟩
    · exact absurd rfl (hvalue hquiet)
    · exact absurd hquiet hrefused
  | some value =>
    have hin₁ : fieldIn (ws₁.structOf? r) i = some f.2 := by
      rw [hg₁.structOf?]
      exact hin
    obtain ⟨hs₂, hg₂⟩ := hs₁.noteFormula hr₁ hin₁ hsome value
    refine .change ?_
    have he₂ := Workspace.entryOf?_modifyEntry_of_some he₁ fun e =>
      if e.values.isEmpty then { e with values := #[⟨0, .int value⟩] } else e
    generalize ws₁.modifyLayout r _ = ws₂ at hs₂ hg₂ he₂ ⊢
    refine .pure hs₂ (hg₁.trans hg₂) ?_
    rintro _ n rfl
    have hfew : ¬ n + 1 ≤ entry.values.size := fun hle => by
      rw [Wanted.metBy_first.mpr hle] at hmore
      cases hmore
    -- After the note there is an element, and only one unless there were others before.
    have hone (e₂ : FieldEntry) (he : ws₂.entryOf? r i = some e₂) :
        e₂.values ≠ #[] ∧ (n < e₂.values.size ↔ n + 1 ≤ 1) := by
      rw [he₂] at he
      cases he
      by_cases hv : e₁.values = #[]
      · rw [if_pos (by rw [hv]; rfl)]
        exact ⟨by simp, by simp⟩
      · rw [if_neg (by simpa using hv)]
        refine ⟨hv, ?_⟩
        have hpos : 0 < e₁.values.size := Array.size_pos_iff.mpr hv
        by_cases hempty : entry.values = #[]
        · have hle := hgrow.single f.2 hin hsome hempty
          omega
        · rw [(hgrow.exhausted f.2 hin ((Field.Exhausted.iff_of_value hsome).mpr hempty)).2] at *
          omega
    refine ⟨fun f' e₂ hf' he => .inr ?_, ?_⟩
    · have hsame : f' = f := by
        rw [Workspace.fieldOf?, hg₂.structOf?, hg₁.structOf?, ← Workspace.fieldOf?, hf] at hf'
        exact (Option.some.inj hf').symm
      rw [hsame, Field.Exhausted.iff_of_value hsome]
      exact (hone e₂ he).1
    · show decide (n + 1 ≤ 1) = true ↔ _
      rw [decide_eq_true_iff]
      constructor
      · exact fun hle => ⟨_, he₂, (hone _ he₂).2.mpr hle⟩
      · rintro ⟨e₂, he, hlt⟩
        exact (hone e₂ he).2.mp hlt

theorem readScalars (h : resolver.Reliable once) (hs : ws.Sound once) (hr : ws.IsLive r)
    (hc : ws.Current r) {countElements : Resolve (Option Int64)} {i : Nat}
    (hcount : ∀ {ws : Workspace}, ws.Sound once → ws.IsLive r →
      Ends once ws countElements ws fun a ws' => ws.Counted ws' r i false a)
    {f : String × Field} (hf : ws.fieldOf? r i = some f) {entry : FieldEntry}
    (he : ws.entryOf? r i = some entry) (hvalue : f.2.value = none) {type : ScalarType}
    (htype : f.2.type = .scalar type) (wanted : Wanted) :
    Ends once ws (resolver.readScalars countElements r i f.2 type wanted) ws fun ok ws' =>
      ws.ReadsTo ws' r i wanted ok := by
  obtain ⟨d, hd, _⟩ := Workspace.structOf?_of_fieldOf? hf
  have hin : fieldIn (ws.structOf? r) i = some f.2 := by
    rw [Workspace.fieldIn_structOf?, hf]
    rfl
  unfold Resolver.readScalars
  refine .call (h.fieldOffset hs hr i false) fun offset ws₁ hs₁ hg₁ hoffset => ?_
  obtain ⟨⟨hc₁, _⟩, hnoted, hknown, hmissing⟩ := hoffset
  have hr₁ := hg₁.isLive hr
  refine .call (hcount hs₁ hr₁) fun count ws₂ hs₂ hg₂ hcounted => .get ?_
  have hr₂ := hg₂.isLive hr₁
  have hg := hg₁.trans hg₂
  have hd₁ := (hg₁.structOf? r).trans hd
  have hd₂ := (hg.structOf? r).trans hd
  have hf₁ : ws₁.fieldOf? r i = some f := by
    rw [Workspace.fieldOf?, hg₁.structOf?]
    exact hf
  obtain ⟨e₁, he₁, hgrow₁⟩ := hg₁.entryOf? hr hc hd he
  obtain ⟨e₂, he₂, hgrow₂⟩ := hg₂.entryOf? hr₁ hc₁ hd₁ he₁
  rw [hg₁.structOf?] at hgrow₂
  dsimp only
  rw [he₂]
  dsimp only
  have hread (left : Nat) (next : Int64) (values : Array Element) :
      ws₂.readElements r.file f.2 type (count.getD 0) (offset.getD 0) left next values =
        (Reading.mk ws₂ r.file f.2 type (count.getD 0) (offset.getD 0)).readOn left
          (values, next) := rfl
  rw [hread]
  refine .note hs₂ hg hr ?_ ?_ fun ws₃ hs₃ hg₃ he₃ hsame => .pure hs₃ hg₃ ?_
  · exact fun _ d e _ _ => .of_same rfl rfl rfl rfl
  · intro _ e e' _ _ he' he₂' hgrow
    rw [he₂] at he₂'
    cases he₂'
    rw [he] at he'
    cases he'
    refine hgrow.setValues (hgrow.values.trans (Reading.prefix_readOn _ (e₂.values, _))) ?_ ?_
    · intro g hg hsome
      rw [hin] at hg
      cases hg
      rw [hvalue] at hsome
      cases hsome
    · intro g hg hex
      obtain ⟨hex₂, heq⟩ := hgrow.exhausted g hg hex
      rw [hin] at hg hgrow
      cases hg
      obtain ⟨hsure, c, hcount, _⟩ := (Field.Exhausted.iff_of_scalar hvalue htype).mp hex
      obtain ⟨hsure₂, c₂, hcount₂, hend⟩ := (Field.Exhausted.iff_of_scalar hvalue htype).mp hex₂
      -- What was known of the offset and the count is what has been answered.
      have hstart : offset = e₂.offset :=
        (hknown f entry hc hf he hsure).trans (hgrow.offset_eq hsure).symm
      have hlimit : count = some c₂ := by
        have hanswer := hcounted.known d e₁ c hc₁ hd₁ he₁ (hgrow₁.count c hcount)
        rw [hanswer, ← hcount₂, hgrow.count c hcount]
      rw [hstart, hlimit, Reading.readOn_of_end (by exact hend)]
      exact ⟨(Field.Exhausted.iff_of_scalar hvalue htype).mpr ⟨hsure₂, c₂, hcount₂, hend⟩, heq⟩
  · rintro hquiet n rfl
    have hle₁ := hg₁.refusals
    have hle₂ := hg₂.refusals
    rw [he₂] at he₃
    refine ⟨fun f' e₃ hf' he₃' => ?_, ?_⟩
    · rw [Workspace.fieldOf?, hg₃.structOf?, ← Workspace.fieldOf?, hf] at hf'
      cases hf'
      rw [he₃] at he₃'
      cases he₃'
      dsimp only
      generalize hleft : (Wanted.first (n + 1)).missing _ _ = left
      by_cases hlt : n < ((Reading.mk ws₂ r.file f.2 type (count.getD 0) (offset.getD 0)).readOn
          left (e₂.values, e₂.nextElement.getD (offset.getD 0))).1.size
      · exact .inl hlt
      · -- Fewer elements than asked for are all there are.
        have hstart : offset = e₂.offset ∧ (e₂.offset.isSome ∨ f.2.offsetFormula = none) := by
          rw [hin] at hgrow₂
          cases hoffset : offset with
          | some m =>
            obtain ⟨e, he, hm⟩ := hnoted m hoffset
            rw [he₁] at he
            cases he
            have hm₂ := hgrow₂.offset m hm
            rw [hm₂]
            exact ⟨rfl, .inl rfl⟩
          | none =>
            obtain ⟨hnone, hplain⟩ := hmissing hoffset rfl (by omega) f e₁ hf₁ he₁
            have heq := hgrow₂.offset_eq (.inr hplain)
            rw [heq, hnone]
            exact ⟨rfl, .inr hplain⟩
        have hlimit : ∃ c, count = some c ∧ e₂.count = some c := by
          cases hcount : count with
          | some c =>
            obtain ⟨e, he, hc⟩ := hcounted.noted d c hd₂ hcount
            rw [he₂] at he
            cases he
            exact ⟨c, rfl, hc⟩
          | none =>
            have hno := hcounted.missing hcount (by omega)
            rw [he₂] at hno
            cases hno
        obtain ⟨c, rfl, hcount⟩ := hlimit
        obtain ⟨hstart, hsure⟩ := hstart
        refine .inr ((Field.Exhausted.iff_of_scalar hvalue htype).mpr ⟨hsure, c, hcount, ?_⟩)
        rw [← hstart]
        refine Reading.hasNext_of_size_lt (g := ⟨ws₂, r.file, f.2, type, c, offset.getD 0⟩) _ ?_
        have hmissing : left = n + 1 - e₂.values.size := hleft.symm
        simp only [Option.getD_some] at hlt ⊢
        omega
    · rw [he₃]
      simp [Wanted.metBy_first]

theorem readValuesWith (h : resolver.Reliable once) (hs : ws.Sound once) (hr : ws.IsLive r)
    {countElements : Resolve (Option Int64)} (i : Nat)
    (hcount : ∀ {ws : Workspace}, ws.Sound once → ws.IsLive r →
      Ends once ws countElements ws fun a ws' => ws.Counted ws' r i false a) (wanted : Wanted) :
    Ends once ws (resolver.readValuesWith countElements r i wanted) ws fun ok ws' =>
      ws.Reaches ws' r (i + 1) false ∧ ws.ReadsTo ws' r i wanted ok := by
  unfold Resolver.readValuesWith
  refine .call (h.enumerate hs hr _ _) fun _ ws₁ hs₁ hg₁ hlaid => .ask ?_
  have hc₁ := hlaid.1
  have hr₁ := hg₁.isLive hr
  cases he : ws₁.entryOf? r i with
  | none =>
    refine .pure hs₁ hg₁ ⟨hlaid, fun _ n _ => ⟨fun f e _ he' => ?_, ?_⟩⟩
    · rw [he] at he'
      cases he'
    · simp [he]
  | some entry =>
    -- What is read from here on is read without a refused frame if all of it is.
    have hlast {ok : Bool} {ws' : Workspace} (hg' : ws₁.Grows ws')
        (hok : ws₁.ReadsTo ws' r i wanted ok) :
        ws.Reaches ws' r (i + 1) false ∧ ws.ReadsTo ws' r i wanted ok := by
      refine ⟨hlaid.grows hg₁ hr₁ hg', fun hquiet => hok ?_⟩
      have hle := hg₁.refusals
      have hle' := hg'.refusals
      omega
    dsimp only
    split
    · rename_i hmet
      refine .pure hs₁ hg₁ ⟨hlaid, ?_⟩
      rintro _ n rfl
      have hlt : n < entry.values.size := Wanted.metBy_first.mp hmet
      refine ⟨fun f e _ he' => .inl ?_, by simp [he, hlt]⟩
      rw [he] at he'
      cases he'
      exact hlt
    · rename_i hmore
      have hmore : wanted.metBy entry.values.size = false := by simpa using hmore
      have hnot (n : Nat) (hn : wanted = .first (n + 1)) :
          false = true ↔ ∃ e, ws₁.entryOf? r i = some e ∧ n < e.values.size := by
        refine ⟨(fun hno => nomatch hno), fun ⟨e, he', hlt⟩ => ?_⟩
        rw [he] at he'
        cases he'
        rw [hn, Wanted.metBy_first.mpr hlt] at hmore
        cases hmore
      refine .ask ?_
      cases hf : ws₁.fieldOf? r i with
      | none =>
        refine .pure hs₁ hg₁ ⟨hlaid, fun _ n hn => ⟨fun f e hf' => ?_, hnot n hn⟩⟩
        rw [hf] at hf'
        cases hf'
      | some f =>
        dsimp only
        split
        · rename_i formula _ hvalue
          exact .finish hg₁ (h.readFormula hs₁ hr₁ hc₁ hf he hvalue hmore)
            fun _ ws' _ hg' => hlast hg'
        · rename_i type hvalue htype
          exact .finish hg₁ (h.readScalars hs₁ hr₁ hc₁ hcount hf he hvalue htype wanted)
            fun _ ws' _ hg' => hlast hg'
        · rename_i struct hvalue htype
          refine .pure hs₁ hg₁ ⟨hlaid, fun _ n hn => ⟨fun f' e hf' _ => .inr ?_, hnot n hn⟩⟩
          rw [hf] at hf'
          cases hf'
          exact Field.Exhausted.of_struct hvalue htype

/-- **What is answered for an element is what is known of it**, unless a frame was refused. -/
theorem intValueWith (h : resolver.Reliable once) (hs : ws.Sound once) (hr : ws.IsLive r)
    {countElements : Resolve (Option Int64)} (i n : Nat)
    (hcount : ∀ {ws : Workspace}, ws.Sound once → ws.IsLive r →
      Ends once ws countElements ws fun a ws' => ws.Counted ws' r i false a) :
    Ends once ws (resolver.intValueWith countElements r i n) ws fun v ws' =>
      ws.Reaches ws' r (i + 1) false ∧ (ws'.refusals = ws.refusals → ws'.HasRead r i n ∧
        v = ((ws'.entryOf? r i).bind fun e => e.values[n]?).elim 0 fun e => e.value.toInt) := by
  unfold Resolver.intValueWith
  refine .call (h.readValuesWith hs hr i hcount _) fun ok ws₁ hs₁ hg₁ ⟨hlaid, hread⟩ => ?_
  cases ok with
  | false =>
    refine .pure hs₁ hg₁ ⟨hlaid, fun hquiet => ?_⟩
    obtain ⟨hread, hthere⟩ := hread hquiet n rfl
    refine ⟨hread, ?_⟩
    cases he : ws₁.entryOf? r i with
    | none => rfl
    | some e =>
      have hle : e.values.size ≤ n := Nat.le_of_not_lt fun hlt =>
        nomatch hthere.mpr ⟨e, he, hlt⟩
      rw [Option.bind_some, Array.getElem?_eq_none hle]
      rfl
  | true => exact .ask (.pure hs₁ hg₁ ⟨hlaid, fun hquiet => ⟨(hread hquiet n rfl).1, rfl⟩⟩)

/-! ## 4. Counts -/

/-- Elements are not cut to a negative limit. -/
theorem limitCount (hs : ws.Sound once) (count : Int64) :
    Ends once ws (ByteAtlas.limitCount count) ws fun _ _ => True := by
  unfold ByteAtlas.limitCount
  have hlimit : ¬ ws.limits.maxElements < 0 := Int64.not_lt.mpr hs.limit
  refine .ask ?_
  dsimp only
  rw [if_neg hlimit]
  split
  · exact .call (ends_noteLimitHit hs) fun _ _ hs₁ hg₁ _ => .pure hs₁ hg₁ trivial
  · exact .pure hs (.refl ws) trivial

/-- A count that is found is cut to the limit and noted. -/
theorem noteCount {start mid : Workspace} {i : Nat} {entry : FieldEntry} (hs : ws.Sound once)
    (hstart : start.Grows mid) (hg : mid.Grows ws) (hr : mid.IsLive r) (hc : mid.Current r)
    (he : mid.entryOf? r i = some entry) (hnone : entry.count = none) (count : Int64) :
    Ends once start
      (do
        let count ← ByteAtlas.limitCount count
        modifyEntry r i fun e => { e with count := some count }
        pure (some count))
      ws fun a ws' => a ≠ none ∧ mid.Grows ws' ∧ ∀ d n, ws'.structOf? r = some d → a = some n →
        ∃ e, ws'.entryOf? r i = some e ∧ e.count = some n := by
  refine .call (limitCount hs count) fun count ws₁ hs₁ hg₁ _ => ?_
  have hg₁ := hg.trans hg₁
  refine .note hs₁ hg₁ hr ?_ ?_ fun ws₂ hs₂ hg₂ he₂ _ => ?_
  · exact fun _ d e _ _ => .of_same rfl rfl rfl rfl
  · intro _ e e' _ _ he' _ hgrow
    rw [he] at he'
    cases he'
    exact hgrow.setCount hnone count
  · refine .pure hs₂ (hstart.trans hg₂) ⟨(fun e => nomatch e), hg₂, ?_⟩
    rintro d _ hd ⟨⟩
    rw [hg₂.structOf?] at hd
    obtain ⟨e, he₁, _⟩ := hg₁.entryOf? hr hc hd he
    exact ⟨_, by rw [he₂, he₁]; rfl, rfl⟩

/-- **A count that is found is noted.** Counting goes down in the index of the field. -/
theorem elementCount (h : resolver.Reliable once) (hr : ws.IsLive r) (i : Nat) (isLazy : Bool)
    (hs : ws.Sound once) : Ends once ws (resolver.elementCount r i isLazy) ws fun a ws' =>
      ws.Counted ws' r i isLazy a := by
  induction i using Nat.strongRecOn generalizing ws isLazy with
  | _ i ih =>
    rw [Resolver.elementCount]
    refine .call (h.enumerate hs hr _ _) fun _ ws₁ hs₁ hg₁ hlaid => .ask ?_
    have hc₁ := hlaid.1
    have hr₁ := hg₁.isLive hr
    cases he : ws₁.entryOf? r i with
    | none =>
      refine .pure hs₁ hg₁ ⟨hlaid, fun d n _ hn => (by cases hn), fun d e n hc hd he' _ => ?_,
        fun _ _ => he⟩
      obtain ⟨e₁, he₁, _⟩ := hg₁.entryOf? hr hc hd he'
      rw [he] at he₁
      cases he₁
    | some entry =>
      -- What was known in the beginning still is.
      have hknown (d : StructDef) (e : FieldEntry) (n : Int64) (hc : ws.Current r)
          (hd : ws.structOf? r = some d) (he' : ws.entryOf? r i = some e) (hn : e.count = some n) :
          entry.count = some n := by
        obtain ⟨e₁, he₁, hgrow⟩ := hg₁.entryOf? hr hc hd he'
        rw [he] at he₁
        cases he₁
        exact hgrow.count n hn
      dsimp only
      split
      · rename_i hsome
        refine .pure hs₁ hg₁ ⟨hlaid, fun d n _ hn => ⟨entry, he, hn⟩, hknown, fun hnone => ?_⟩
        rw [hnone] at hsome
        cases hsome
      · rename_i hnone
        have hnone : entry.count = none := by
          simpa using hnone
        have hnew (d : StructDef) (e : FieldEntry) (n : Int64) (hc : ws.Current r)
            (hd : ws.structOf? r = some d) (he' : ws.entryOf? r i = some e)
            (hn : e.count = some n) : False := by
          have hsome := hknown d e n hc hd he' hn
          rw [hnone] at hsome
          cases hsome
        have hnote {ws₂ : Workspace} (hs₂ : ws₂.Sound once) (hg₂ : ws₁.Grows ws₂) (count : Int64) :
            Ends once ws
              (do
                let count ← ByteAtlas.limitCount count
                modifyEntry r i fun e => { e with count := some count }
                pure (some count))
              ws₂ fun a ws' => ws.Counted ws' r i isLazy a :=
          (noteCount hs₂ hg₁ hg₂ hr₁ hc₁ he hnone count).mono fun a ws' _ _ ⟨hsome, hg, hnoted⟩ =>
            ⟨hlaid.grows hg₁ hr₁ hg, hnoted, fun d e n hc hd he hn => (hnew d e n hc hd he hn).elim,
              fun e => absurd e hsome⟩
        split
        · rw [pure_bind]
          exact hnote hs₁ (.refl ws₁) 0
        · refine .call (ends_unlessCutShort (?_ : Ends once ws₁ _ ws₁ fun a _ => a ≠ none))
            fun count ws₂ hs₂ hg₂ hcut => ?_
          · refine .ask ?_
            split
            · exact .pure hs₁ (.refl ws₁) fun e => by cases e
            · split
              · exact .pure hs₁ (.refl ws₁) fun e => by cases e
              · split
                · exact .pure hs₁ (.refl ws₁) fun e => by cases e
                · exact .ask (.pure hs₁ (.refl ws₁) fun e => by cases e)
                · have hname {d : StructDef} {source : String} {f : Option Int64 → Int64} :
                      Ends once ws₁
                        (ByteAtlas.argOrParam r d source >>= fun base => pure (some (f base))) ws₁
                        fun a _ => a ≠ none :=
                    .call ((h.law r).argOrParam d source hs₁ hr₁) fun _ _ hs₂ hg₂ _ =>
                      .pure hs₂ hg₂ fun e => by cases e
                  split
                  · rename_i j hj
                    split
                    · rename_i hlt
                      have hvalue : Ends once ws₁ (some <$> _) ws₁ fun _ _ => True :=
                        .map (h.intValueWith hs₁ hr₁ j 0 (fun hs hr => ih j hlt hr false hs)).weaken
                      exact .call hvalue fun _ _ hs₂ hg₂ _ => .pure hs₂ hg₂ fun e => by cases e
                    · exact hname
                  · exact hname
          · cases count with
            | none =>
              refine .pure hs₂ (hg₁.trans hg₂) ⟨hlaid.grows hg₁ hr₁ hg₂, fun d n _ hn => (by cases hn),
                fun d e n hc hd he hn => (hnew d e n hc hd he hn).elim, fun _ hquiet => ?_⟩
              have hle₁ := hg₁.refusals
              have hle₂ := hg₂.refusals
              rcases hcut with ⟨_, hsome⟩ | ⟨hrefused, _⟩
              · exact absurd rfl hsome
              · omega
            | some count => exact hnote hs₂ hg₂ count

/-! ## 5. Elements -/

theorem readValues (h : resolver.Reliable once) (hs : ws.Sound once) (hr : ws.IsLive r) (i : Nat)
    (wanted : Wanted) : Ends once ws (resolver.readValues r i wanted) ws fun ok ws' =>
      ws.Reaches ws' r (i + 1) false ∧ ws.ReadsTo ws' r i wanted ok :=
  h.readValuesWith hs hr i (fun hs hr => h.elementCount hr i false hs) wanted

theorem intValue (h : resolver.Reliable once) (hs : ws.Sound once) (hr : ws.IsLive r) (i n : Nat) :
    Ends once ws (resolver.intValue r i n) ws fun v ws' =>
      ws.Reaches ws' r (i + 1) false ∧ (ws'.refusals = ws.refusals → ws'.HasRead r i n ∧
        v = ((ws'.entryOf? r i).bind fun e => e.values[n]?).elim 0 fun e => e.value.toInt) :=
  h.intValueWith hs hr i n fun hs hr => h.elementCount hr i false hs

/-- **There is a preview** of an element just if it has been read. -/
theorem valuePreview (h : resolver.Reliable once) (hs : ws.Sound once) (hr : ws.IsLive r) (i n : Nat) :
    Ends once ws (resolver.valuePreview r i n) ws fun p ws' =>
      ws.Reaches ws' r (i + 1) false ∧ (ws'.refusals = ws.refusals → ws'.HasRead r i n ∧
        (p.isSome ↔ ∃ e, ws'.entryOf? r i = some e ∧ n < e.values.size)) := by
  unfold Resolver.valuePreview
  refine .call (h.readValues hs hr i _) fun ok ws₁ hs₁ hg₁ ⟨hlaid, hread⟩ => ?_
  cases ok with
  | false =>
    refine .pure hs₁ hg₁ ⟨hlaid, fun hquiet => ?_⟩
    obtain ⟨hread, hthere⟩ := hread hquiet n rfl
    exact ⟨hread, (by simpa using hthere)⟩
  | true =>
    refine .ask (.pure hs₁ hg₁ ⟨hlaid, fun hquiet => ?_⟩)
    obtain ⟨hread, hthere⟩ := hread hquiet n rfl
    obtain ⟨e, he, hlt⟩ := hthere.mp rfl
    refine ⟨hread, fun _ => ⟨e, he, hlt⟩, fun _ => ?_⟩
    rw [he, Option.bind_some, Array.getElem?_eq_getElem hlt]
    rfl

theorem readEnds (h : resolver.Reliable once) (i : Nat) (wanted : Wanted) :
    Resolve.EndsFor once r (resolver.readValues r i wanted) :=
  fun _ hs hr => (h.readValues hs hr i wanted).weaken

/-! ## 6. Previews -/

/-- **A preview that is joined is noted**, unless a frame was refused. -/
theorem fieldPreview (h : resolver.Reliable once) (hs : ws.Sound once) (hr : ws.IsLive r) (i : Nat)
    (isLazy : Bool) : Ends once ws (resolver.fieldPreview r i isLazy) ws fun a ws' =>
      ws.Reaches ws' r (i + 1) isLazy ∧ (isLazy = false → ws'.refusals = ws.refusals → ∀ f e,
        ws'.fieldOf? r i = some f → ws'.entryOf? r i = some e → f.2.Previews e a) := by
  unfold Resolver.fieldPreview
  refine .call (h.enumerate hs hr _ _) fun _ ws₁ hs₁ hg₁ hlaid => .ask ?_
  have hc₁ := hlaid.1
  have hr₁ := hg₁.isLive hr
  cases he : ws₁.entryOf? r i with
  | none =>
    refine .pure hs₁ hg₁ ⟨hlaid, fun _ _ f e _ he' => ?_⟩
    rw [he] at he'
    cases he'
  | some entry =>
    dsimp only
    split
    · rename_i habsent
      refine .pure hs₁ hg₁ ⟨hlaid, fun _ _ f e _ he' => ?_⟩
      rw [he] at he'
      cases he'
      exact .inl ⟨by simpa using habsent, rfl⟩
    · rename_i hpresent
      have hpresent : entry.present = true := by simpa using hpresent
      cases hp : entry.preview with
      | some p =>
        refine .pure hs₁ hg₁ ⟨hlaid, fun _ _ f e _ he' => ?_⟩
        rw [he] at he'
        cases he'
        exact .inr ⟨hpresent, .inl hp⟩
      | none =>
        refine .call (h.fieldOffset hs₁ hr₁ i isLazy) fun offset ws₂ hs₂ hg₂ hoffset => ?_
        obtain ⟨⟨hc₂, _⟩, hnoted, _, hmissing⟩ := hoffset
        have hle₁ := hg₁.refusals
        have hle₂ := hg₂.refusals
        split
        · rename_i hnone
          have hnone := Option.isNone_iff_eq_none.mp hnone
          refine .pure hs₂ (hg₁.trans hg₂) ⟨hlaid.grows hg₁ hr₁ hg₂, fun hl hquiet f e hf he₂ => ?_⟩
          obtain ⟨hunplaced, hplain⟩ := hmissing hnone hl (by omega) f e hf he₂
          obtain ⟨d, hd, _⟩ := Workspace.structOf?_of_fieldOf? hf
          rw [hg₂.structOf?] at hd
          obtain ⟨e₂, he₂', hgrow⟩ := hg₂.entryOf? hr₁ hc₁ hd he
          rw [he₂] at he₂'
          cases he₂'
          have hin : fieldIn (ws₁.structOf? r) i = some f.2 := by
            rw [← hg₂.structOf?, Workspace.fieldIn_structOf?, hf]
            rfl
          have hplaced := hgrow.placed f.2 hin hplain
          have hpreview := hgrow.unplaced f.2 hin hplain (hplaced.symm.trans hunplaced)
          exact .inr ⟨hgrow.present.trans hpresent,
            .inr ⟨hpreview.trans hp, hunplaced, hplain, rfl⟩⟩
        · rename_i hsome
          refine .ask (.call ((h.law r).takePreviews h.readEnds i _ _ _ _ hs₂ (hg₂.isLive hr₁))
            fun previews ws₃ hs₃ hg₃ _ => ?_)
          have hg₂₃ := hg₂.trans hg₃
          refine .note hs₃ hg₂₃ hr₁ ?_ ?_ fun ws₄ hs₄ hg₄ he₄ _ => .pure hs₄ (hg₁.trans hg₄)
            ⟨hlaid.grows hg₁ hr₁ hg₄, fun _ _ f e hf he' => ?_⟩
          · exact fun _ d e _ _ => .of_same rfl rfl rfl rfl
          · intro d e e' hd _ he' he₃ hgrow
            rw [he] at he'
            cases he'
            obtain ⟨n, hn⟩ := Option.ne_none_iff_exists'.mp (by simpa using hsome)
            obtain ⟨e₂, he₂, hplaced⟩ := hnoted n hn
            obtain ⟨e₃, he₃', hgrow₃⟩ :=
              hg₃.entryOf? (hg₂.isLive hr₁) hc₂ ((hg₂.structOf? r).trans hd) he₂
            rw [he₃] at he₃'
            cases he₃'
            refine hgrow.setPreview hp ?_ _
            rw [hgrow₃.offset n hplaced]
            rfl
          · obtain ⟨d, hd, _⟩ := Workspace.structOf?_of_fieldOf? hf
            rw [hg₄.structOf?] at hd
            obtain ⟨e₃, he₃, hgrow⟩ := hg₂₃.entryOf? hr₁ hc₁ hd he
            rw [he₄, he₃] at he'
            cases he'
            exact .inr ⟨hgrow.present.trans hpresent, .inl rfl⟩

end Resolver.Reliable

end ByteAtlas
