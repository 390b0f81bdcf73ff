import ByteAtlas.Proofs.Resolve.Fields
import ByteAtlas.Proofs.Resolve.QueryLaw

/-!
# Sizes, walks and queries end soundly

For each question about the size of an instance and its chain, and for placing children: it ends
soundly if the resolver is reliable. From there it is a law of walks (`Resolver.Reliable.walks`),
and so of queries and of expressions. What queries find is live, and expressions are evaluated for
live instances only.
-/

namespace ByteAtlas

open Resolve (Ends)

/-! ## 1. Placing instances -/

/-- **Placing an instance** in the course of a step. -/
theorem Resolve.Ends.place {once : Prop} {β : Type} {start ws : Workspace} {p : Placement}
    {next : Directory.Added → Resolve β} {last : β → Workspace → Prop} (hs : ws.Sound once)
    (hn : ∀ added ws', ws'.Sound once → ws.Grows ws' → ws'.IsLive added.ref →
      added.ref.location = p.location → (added.inserted = true → ws.find? added.ref.id = none) →
      Ends once start (next added) ws' last) :
    Ends once start (Resolve.update (fun ws => ws.place p) >>= next) ws last := by
  obtain ⟨hs', hg, hlive, hloc, hnew⟩ := hs.place p
  exact .update (hn _ _ hs' hg hlive hloc hnew)

/-! ## 2. Sizes -/

namespace Workspace

variable {once : Prop} {ws : Workspace} {r : InstanceRef} {d : StructDef}

theorem Sound.setSize (hs : ws.Sound once) (hr : ws.IsLive r) (hd : ws.structOf? r = some d)
    {st : Stamp} (hst : st.structVersion = d.version) {size : Int64}
    (hsize : d.isPacked = false → d.sizeSource = none → size = d.size) :
    (ws.modifyLayout r (·.setSize st size)).Sound once := by
  have hadmits := hs.admits hr
  refine hs.modifyLayout hr ⟨fun ho d st hd hst hv => ?_, hadmits.measuring, hadmits.stamps,
    fun ho st n hn => ?_⟩
  · have hfits := hadmits.fits ho d st hd hst hv
    exact ⟨hfits.size_le, hfits.origin, hfits.offset, hfits.cursor, hfits.measuring⟩
  · cases hn
    refine ⟨hst ▸ hs.versions ho r.struct d hd, fun d' hd' _ => ?_⟩
    rw [hd] at hd'
    cases hd'
    exact hsize

theorem Grows.setSize {start : Workspace} (hg : Grows start ws) (hr : ws.IsLive r)
    (hd : ws.structOf? r = some d) {size : Int64}
    (hsize : d.isPacked = true → d.sizeSource = none →
      (ws.layoutOf r).measuring = none ∧ d.fieldCount ≤ (ws.layoutOf r).entries.size ∧
        size = (ws.layoutOf r).cursor - r.offset)
    {st : Stamp} (hnone : ∀ st', start.stampNow? r = some st' →
      (start.layoutOf r).sizeFor? st' = none) :
    Grows start (ws.modifyLayout r (·.setSize st size)) := by
  have hext := hg.extends hr
  refine hg.modifyLayout hr ⟨fun hr' => (hext.grows hr').setSize hnone st size, hext.idle, ?_⟩
  intro hset d' hd'
  rw [hd] at hd'
  cases hd'
  exact (hext.settled hset d hd).setSize hsize st

/-- **A total size may be noted** that was not known at `start`: the cursor had not passed the field
then, or the field takes no room. -/
theorem Grows.harmless_totalSize {start : Workspace} {i : Nat} {e e' : FieldEntry}
    (hg : Grows start ws) (hs : start.Sound once) (ho : once) (hr : start.IsLive r)
    (hc : start.Current r)
    (hd : ws.structOf? r = some d) (he : start.entryOf? r i = some e)
    (he' : ws.entryOf? r i = some e') (hnone : e.totalSize = none) (total : Int64) :
    Layout.Harmless d i (i < (ws.layoutOf r).passed) e' { e' with totalSize := some total } := by
  rw [hg.structOf?] at hd
  refine ⟨rfl, rfl, fun _ _ _ => rfl, fun hp f hf => ?_⟩
  have hlt : i < (ws.layoutOf r).passed := by
    simpa using hp
  -- While a field is being laid out the cursor does not move, and otherwise it has passed all.
  have hpassed : i < (start.layoutOf r).passed := by
    have hm := (hg.layouts r hr).measuring
    have hsize := (Array.getElem?_eq_some_iff.mp he).1
    rw [Layout.passed, hm] at hlt
    cases hmeasuring : (start.layoutOf r).measuring with
    | none =>
      rw [Layout.passed, hmeasuring]
      exact hsize
    | some k =>
      rw [hmeasuring] at hlt
      rw [Layout.passed, hmeasuring]
      exact hlt
  have hroom := (hs.fits_of_current ho hr hc hd).takesRoom_eq_false hpassed he hf hnone
  obtain ⟨e'', he'', hgrow⟩ := hg.entryOf? hr hc hd he
  rw [he'] at he''
  cases he''
  have hroom' : e'.takesRoom d f.2 = false := (hgrow.takesRoom d f.2).trans hroom
  have hroom'' : { e' with totalSize := some total }.takesRoom d f.2 = false := hroom'
  rw [FieldEntry.next?, hroom'', FieldEntry.next?, hroom']
  rfl

end Workspace

namespace Resolver.Reliable

variable {once : Prop} {resolver : Resolver} {ws : Workspace} {r : InstanceRef}

/-- The size of a packed struct is where its last field ends, and of another one it is the one that
its definition tells. Only a refused frame keeps it from being known, unless lazily. -/
theorem measureSize (h : resolver.Reliable once) (hs : ws.Sound once) (hr : ws.IsLive r)
    (d : StructDef)
    (isLazy : Bool) : Ends once ws (resolver.measureSize r d isLazy) ws fun a ws' =>
      (∀ size, a = some size →
        (d.isPacked = true → d.sizeSource = none →
          (ws'.layoutOf r).measuring = none ∧ d.fieldCount ≤ (ws'.layoutOf r).entries.size ∧
            size = (ws'.layoutOf r).cursor - r.offset) ∧
        (d.isPacked = false → d.sizeSource = none → size = d.size)) ∧
      (ws.structOf? r = some d → isLazy = false → ws'.refusals = ws.refusals →
        (ws.layoutOf r).measuring = none → a ≠ none) := by
  unfold Resolver.measureSize
  cases hsource : d.sizeSource with
  | some source =>
    dsimp only
    split
    · rename_i hl
      exact .pure hs (.refl ws) ⟨(fun _ hv => nomatch hv), fun _ hno => nomatch hl.symm.trans hno⟩
    · exact .call ((h.law r).namedValue h.readEnds d source hs hr) fun _ _ hs₁ hg₁ _ =>
        .pure hs₁ hg₁ ⟨fun _ _ => ⟨(fun _ e => nomatch e), fun _ e => nomatch e⟩,
          fun _ _ _ _ e => nomatch e⟩
  | none =>
    dsimp only
    split
    · rename_i hpacked
      have hrest {ws₁ : Workspace} (hs₁ : ws₁.Sound once) (hg₁ : ws.Grows ws₁)
          (hlaid : isLazy = false → ws₁.refusals = ws.refusals →
            (ws.layoutOf r).measuring = none → ws₁.LaidOut r d.fieldCount) :
          Ends once ws
            (do
              let layout ← layoutOf r
              if layout.entries.size < d.fieldCount || layout.measuring.isSome then pure none
              else pure (some (layout.cursor - r.offset)))
            ws₁ fun a ws' => (∀ size, a = some size →
              (d.isPacked = true → (none : Option String) = none →
                (ws'.layoutOf r).measuring = none ∧
                  d.fieldCount ≤ (ws'.layoutOf r).entries.size ∧
                  size = (ws'.layoutOf r).cursor - r.offset) ∧
              (d.isPacked = false → (none : Option String) = none → size = d.size)) ∧
              (ws.structOf? r = some d → isLazy = false → ws'.refusals = ws.refusals →
                (ws.layoutOf r).measuring = none → a ≠ none) := by
        refine .ask ?_
        split
        · rename_i hshort
          refine .pure hs₁ hg₁ ⟨(fun _ hv => nomatch hv), fun hd hl hquiet hm => ?_⟩
          have hle := hlaid hl hquiet hm d ((hg₁.structOf? r).trans hd)
          rw [(hg₁.layouts r hr).measuring, hm] at hshort
          simp only [Option.isSome_none, Bool.or_false, decide_eq_true_eq] at hshort
          omega
        · rename_i hfull
          refine .pure hs₁ hg₁ ⟨?_, fun _ _ _ _ e => nomatch e⟩
          rintro _ ⟨⟩
          simp only [Bool.or_eq_true, decide_eq_true_eq, not_or, Bool.not_eq_true,
            Option.isSome_eq_false_iff, Option.isNone_iff_eq_none] at hfull
          refine ⟨fun _ _ => ⟨hfull.2, Nat.le_of_not_lt hfull.1, rfl⟩, fun hloose _ => ?_⟩
          rw [hpacked] at hloose
          cases hloose
      split
      · exact .call (h.enumerate hs hr _ _) fun _ _ hs₁ hg₁ hlaid =>
          hrest hs₁ hg₁ fun _ => hlaid.2 rfl
      · rename_i hl
        exact hrest hs (.refl ws) fun hno => absurd hno (by simpa using hl)
    · rename_i hp
      refine .pure hs (.refl ws) ⟨?_, fun _ _ _ _ e => nomatch e⟩
      rintro _ ⟨⟩
      exact ⟨fun hp' => absurd hp' hp, fun _ _ => rfl⟩

/-- **A size that is found is noted**, and the size of a packed struct, without edits, is where its
last field ends. -/
theorem size (h : resolver.Reliable once) (hs : ws.Sound once) (hr : ws.IsLive r) (isLazy : Bool) :
    Ends once ws (resolver.size r isLazy) ws fun a ws' =>
      (ws.Settled → ∀ d v, ws.structOf? r = some d → d.isPacked = true → d.sizeSource = none →
        a = some v → (ws'.layoutOf r).measuring = none ∧
          d.fieldCount ≤ (ws'.layoutOf r).entries.size ∧ v = (ws'.layoutOf r).cursor - r.offset) ∧
      (∀ st v, ws'.stampNow? r = some st → a = some v →
        (ws'.layoutOf r).sizeFor? st = some v) ∧
      (ws.structOf? r = none → a = some 0) ∧
      (isLazy = false → ws'.refusals = ws.refusals → (ws.layoutOf r).measuring = none →
        a ≠ none) := by
  unfold Resolver.size
  refine .ask ?_
  cases hd : ws.structOf? r with
  | none =>
    refine .pure hs (.refl ws) ⟨(fun _ _ _ hd' => by cases hd'), fun st _ hst => ?_, fun _ => rfl,
      fun _ _ _ e => by cases e⟩
    rw [Workspace.stampNow?, hd] at hst
    cases hst
  | some d =>
    refine .ask (.ask ?_)
    have hnow {ws' : Workspace} (hg : ws.Grows ws') : ws'.stampNow? r = some (ws.stampOf r d) := by
      rw [hg.stampNow? hr, Workspace.stampNow?, hd]
      rfl
    cases hsize : (ws.layoutOf r).sizeFor? (ws.stampOf r d) with
    | some size =>
      refine .pure hs (.refl ws) ⟨?_, ?_, (fun hno => by cases hno), fun _ _ _ e => by cases e⟩
      · rintro hset _ v ⟨⟩ hp hn ⟨⟩
        unfold Layout.sizeFor? at hsize
        split at hsize
        · rename_i st v' hv
          split at hsize
          · cases hsize
            exact (hset r d hr hd).size st _ hv hp hn
          · cases hsize
        · cases hsize
      · rintro st v hst ⟨⟩
        rw [hnow (.refl ws)] at hst
        cases hst
        exact hsize
    | none =>
      refine .call (ends_unlessCutShort (h.measureSize hs hr d isLazy))
        fun a ws₁ hs₁ hg₁ hm => ?_
      have hr₁ := hg₁.isLive hr
      cases a with
      | none =>
        refine .pure hs₁ hg₁ ⟨(fun _ _ _ _ _ _ hv => by cases hv), (fun _ _ _ hv => by cases hv),
          (fun hno => by cases hno), fun hl hquiet hidle => ?_⟩
        rcases hm with ⟨_, hm⟩ | ⟨hrefused, _⟩
        · exact hm.2 hd hl hquiet hidle
        · exact absurd hquiet hrefused
      | some size =>
        have hm : _ := (hm.resolve_right fun hno => by cases hno.2).2.1 size rfl
        obtain ⟨hm, hfixed⟩ := hm
        have hd₁ : ws₁.structOf? r = some d := (hg₁.structOf? r).trans hd
        have hnone : ∀ st, ws.stampNow? r = some st → (ws.layoutOf r).sizeFor? st = none := by
          intro st hst
          rw [Workspace.stampNow?, hd] at hst
          cases hst
          exact hsize
        have hg₂ : ws.Grows (ws₁.modifyLayout r (·.setSize (ws.stampOf r d) size)) :=
          hg₁.setSize hr₁ hd₁ hm hnone
        refine .change (.pure (hs₁.setSize hr₁ hd₁ rfl hfixed) hg₂
          ⟨?_, ?_, (fun hno => by cases hno), fun _ _ _ e => by cases e⟩)
        · rintro hset _ _ ⟨⟩ hp hn ⟨⟩
          rw [Workspace.layoutOf_modifyLayout]
          exact hm hp hn
        · rintro st v hst ⟨⟩
          rw [hnow hg₂] at hst
          cases hst
          rw [Workspace.layoutOf_modifyLayout]
          simp [Layout.setSize, Layout.sizeFor?]

/-! ## 3. Chains -/

/-- **Each question about an instance ends soundly.** -/
theorem answers (h : resolver.Reliable once) (r : InstanceRef) : (h.law r).Answers where
  enumerate upTo isLazy _ hs hr := (h.enumerate hs hr upTo isLazy).weaken
  fieldOffset i isLazy _ hs hr := (h.fieldOffset hs hr i isLazy).weaken
  elementCount i isLazy _ hs hr := (h.elementCount hr i isLazy hs).weaken
  readValues := h.readEnds
  fieldPreview i isLazy _ hs hr := (h.fieldPreview hs hr i isLazy).weaken
  size isLazy _ hs hr := (h.size hs hr isLazy).weaken

/-- The next instance of a chain is live. -/
theorem createNext (h : resolver.Reliable once) (hs : ws.Sound once) (hr : ws.IsLive r)
    (reason : Reason) :
    Ends once ws (resolver.createNext r reason) ws fun a ws' =>
      ∀ next, a = some next → ws'.IsLive next := by
  unfold Resolver.createNext
  refine .call (h.size hs hr false) fun size ws₁ hs₁ hg₁ _ => ?_
  cases size with
  | none => exact .pure hs₁ hg₁ fun _ e => nomatch e
  | some size =>
    dsimp only
    split
    · exact .pure hs₁ hg₁ fun _ e => nomatch e
    · refine .ask ?_
      cases ws₁.find? r.id with
      | none => exact .pure hs₁ hg₁ fun _ e => nomatch e
      | some i =>
        dsimp only
        split
        · exact .pure hs₁ hg₁ fun _ e => nomatch e
        · refine .place hs₁ fun added ws₂ hs₂ hg₂ hlive _ _ => .pure hs₂ (hg₁.trans hg₂) ?_
          rintro _ ⟨⟩
          exact hlive

/-! ## 4. Placing children -/

/-- **A child is live** once it is placed. A new one may get its arguments then, because nothing of
it is known yet to those who had it placed. -/
theorem placeChild (h : resolver.Reliable once) (hs : ws.Sound once) (hr : ws.IsLive r) (field : Field)
    (struct : String) (reason : Reason) (offset : Int64) (budget : Budget) :
    Ends once ws (resolver.placeChild r field struct reason offset budget) ws fun child ws' =>
      ws'.IsLive child ∧ child.location = ⟨struct, r.file, offset⟩ := by
  unfold Resolver.placeChild
  refine .place hs fun added ws₁ hs₁ hg₁ hlive hloc hnew => ?_
  split
  · rename_i hargs
    simp only [Bool.and_eq_true] at hargs
    have hplace := Workspace.keepsVersion_bindArgs
    refine .call ((h.answers r).argValues field.args hs₁ (hg₁.isLive hr)) fun args ws₂ hs₂ hg₂ _ => ?_
    refine .change (.pure (hs₂.modify (hplace args) _) ?_ ⟨?_, hloc⟩)
    · exact (hg₁.trans hg₂).modify_new (hplace args) (hnew hargs.1)
    · exact (Workspace.isLive_modify (hplace args).toKeepsPlace _).mpr (hg₂.isLive hlive)
  · exact .pure hs₁ hg₁ ⟨hlive, hloc⟩

theorem hasElement (h : resolver.Reliable once) (field : Field) (origin index offset : Int64) :
    Resolve.EndsFor once r (resolver.hasElement r field origin index offset) :=
  (h.law r).hasElementWith (fun _ _ _ _ _ hs hr => (h.evaluate _ _ hs hr).weaken) origin index offset

end Resolver.Reliable

/-! ## 5. Walks -/

/-- Whether references all lead to live instances. -/
def Workspace.AllLive (ws : Workspace) (rs : List InstanceRef) : Prop := ∀ r ∈ rs, ws.IsLive r

theorem Workspace.AllLive.none {ws : Workspace} {α : Type} {a : α} : ws.AllLive (tellsNone a) :=
  fun _ hr => absurd hr List.not_mem_nil

theorem Workspace.Grows.live {ws ws' : Workspace} {r : InstanceRef} (h : ws.Grows ws')
    (hr : ws.IsLive r) : ws'.IsLive r :=
  h.isLive hr

theorem Workspace.AllLive.grows {ws ws' : Workspace} {rs : List InstanceRef} (h : ws.AllLive rs)
    (hg : ws.Grows ws') : ws'.AllLive rs :=
  fun r hr => hg.isLive (h r hr)

/-- **Ending soundly is a law.** Instances found are live. -/
def Law.ends (once : Prop) : Law Resolve InstanceRef Workspace where
  Holds ws step _ tells := ws.Sound once → Ends once ws step ws fun a ws' => ws'.AllLive (tells a)
  Later := Workspace.Grows
  Found := Workspace.IsLive
  Asked _ := True
  stays := @Workspace.Grows.live
  pure hfound hs := .pure hs (.refl _) hfound
  bind h hn hs := .call (h hs) fun a _ hs₁ hg₁ ha => .rebase hg₁ (hn a _ hg₁ ha hs₁)

namespace Resolver.Reliable

variable {once : Prop} {resolver : Resolver} {ws : Workspace} {r : InstanceRef}

/-- **It is a law of walks.** Children that have been placed are live. -/
def walks (h : resolver.Reliable once) (reason : Reason) :
    (Law.ends once).Walks resolver resolver reason where
  Has := Workspace.HasField
  Child := Workspace.IsLive
  found hc := hc
  childStays := @Workspace.Grows.live
  hasStays := Workspace.HasField.grows
  fields {_ r} _ := h.law r
  answers {_ r} _ := h.answers r
  asks hr _ _ _ hends hs := (hends hs hr).mono fun _ _ _ _ _ => .none
  has _ _ hfield := hfield.ofAny
  field _ _ hn hs := .ask (hn _ (fun _ hf => Workspace.hasField_of_fieldOf? hf) hs)
  createNext hc hn hs := .call (h.createNext hs hc reason) fun next _ hs₁ hg₁ hlive =>
    .rebase hg₁ (hn next _ hg₁ hlive hs₁)
  placeChild offset budget hr _ _ hn hs :=
    .call (h.placeChild hs hr _ _ reason offset budget) fun child _ hs₁ hg₁ hlive =>
      .rebase hg₁ (hn child _ hg₁ hlive.1 hs₁)

/-- A walk with a visitor that gathers no instances. -/
theorem walk (h : resolver.Reliable once) {σ : Type} {visit : Visitor σ}
    (hv : ∀ s child, Resolve.EndsFor once child (visit s child)) (i : Nat) (upTo : Option Nat)
    (reason : Reason) (s : σ) : Resolve.EndsFor once r (resolver.walk r i upTo reason visit s) :=
  fun _ hs hr => ((h.walks reason).walk_tellsNone visit visit
    (fun s hc hs => (hv s _ hs hc).mono fun _ _ _ _ _ => .none) hr i upTo s hs).weaken

theorem walk_addSize (h : resolver.Reliable once) (i : Nat) :
    Resolve.EndsFor once r (resolver.walk r i none .query resolver.addSize 0) :=
  fun _ hs hr => ((h.walks .query).walk_addSize hr i hs).weaken

theorem walk_idle (h : resolver.Reliable once) (i n : Nat) :
    Resolve.EndsFor once r (resolver.walk r i (some n) .query .idle ()) :=
  fun _ hs hr => ((h.walks .query).walk_idle hr i n hs).weaken

/-! ## 6. Total sizes -/

/-- **A total size that is found is noted.** Only a refused frame keeps that of a field from being
found, unless lazily. -/
theorem totalSize (h : resolver.Reliable once) (hs : ws.Sound once) (hr : ws.IsLive r) (i : Nat)
    (isLazy : Bool) : Ends once ws (resolver.totalSize r i isLazy) ws fun a ws' =>
      ws.Reaches ws' r (i + 1) isLazy ∧
      (∀ d n, ws'.structOf? r = some d → a = some n →
        ∃ e, ws'.entryOf? r i = some e ∧ e.totalSize = some n) ∧
      (a = none → isLazy = false → ws'.refusals = ws.refusals →
        ws'.entryOf? r i = none ∨ ws'.fieldOf? r i = none) := by
  unfold Resolver.totalSize
  refine .call (h.enumerate hs hr _ _) fun _ ws₁ hs₁ hg₁ hlaid => .ask ?_
  have hc₁ := hlaid.1
  have hr₁ := hg₁.isLive hr
  have hunknown {ws₂ : Workspace} (hs₂ : ws₂.Sound once) (hg₂ : ws₁.Grows ws₂)
      (hwhy : isLazy = false → ws₂.refusals = ws₁.refusals →
        ws₂.entryOf? r i = none ∨ ws₂.fieldOf? r i = none) :
      Ends once ws (pure none : Resolve (Option Int64)) ws₂ fun a ws' =>
        ws.Reaches ws' r (i + 1) isLazy ∧
        (∀ d n, ws'.structOf? r = some d → a = some n →
          ∃ e, ws'.entryOf? r i = some e ∧ e.totalSize = some n) ∧
        (a = none → isLazy = false → ws'.refusals = ws.refusals →
          ws'.entryOf? r i = none ∨ ws'.fieldOf? r i = none) := by
    refine .pure hs₂ (hg₁.trans hg₂) ⟨hlaid.grows hg₁ hr₁ hg₂, (fun _ _ _ e => nomatch e),
      fun _ hl hquiet => hwhy hl ?_⟩
    have hle₁ := hg₁.refusals
    have hle₂ := hg₂.refusals
    omega
  cases he : ws₁.entryOf? r i with
  | none => exact hunknown hs₁ (.refl ws₁) fun _ _ => .inl he
  | some entry =>
    dsimp only
    split
    · rename_i hsome
      refine .pure hs₁ hg₁ ⟨hlaid, fun d n _ hn => ⟨entry, he, hn⟩, fun hnone => ?_⟩
      rw [hnone] at hsome
      cases hsome
    · rename_i hnone
      have hnone : entry.totalSize = none := by
        simpa using hnone
      refine .ask ?_
      cases hf : ws₁.fieldOf? r i with
      | none => exact hunknown hs₁ (.refl ws₁) fun _ _ => .inr hf
      | some f =>
        refine .ask ?_
        split
        · rename_i hl
          refine hunknown hs₁ (.refl ws₁) fun hno _ => ?_
          rw [hno] at hl
          cases hl
        · have hmeasure : Ends once ws₁ (some <$> resolver.measureField r i f.2 _) ws₁
              fun a _ => a ≠ none :=
            .map (((h.answers r).measureField (h.walk_addSize i) f.2
              (ws₁.schema.fixedSize? f.2.type) hs₁ hr₁).mono fun _ _ _ _ _ e => nomatch e)
          refine .call (ends_unlessCutShort hmeasure) fun total ws₂ hs₂ hg₂ hcut => ?_
          cases total with
          | none =>
            refine hunknown hs₂ hg₂ fun _ hquiet => ?_
            rcases hcut with ⟨_, hsome⟩ | ⟨hrefused, _⟩
            · exact absurd rfl hsome
            · exact absurd hquiet hrefused
          | some total =>
            refine .note hs₂ hg₂ hr₁ ?_ ?_ fun ws₃ hs₃ hg₃ he₃ _ => ?_
            · exact fun ho d e hd he₂ =>
                hg₂.harmless_totalSize hs₁ ho hr₁ hc₁ hd he he₂ hnone total
            · intro _ e e' _ _ he' _ hgrow
              rw [he] at he'
              cases he'
              exact hgrow.setTotalSize hnone total
            · refine .pure hs₃ (hg₁.trans hg₃) ⟨hlaid.grows hg₁ hr₁ hg₃, ?_, fun e => nomatch e⟩
              rintro d _ hd ⟨⟩
              rw [hg₃.structOf?] at hd
              obtain ⟨e, he₂, _⟩ := hg₂.entryOf? hr₁ hc₁ hd he
              exact ⟨_, by rw [he₃, he₂]; rfl, rfl⟩

/-! ## 7. Queries and expressions -/

end Resolver.Reliable

/-- The instances of a struct are live. -/
theorem Workspace.Sound.allLive_instancesOf {once : Prop} {ws : Workspace} (hs : ws.Sound once)
    (struct : String) (file : Option FileId) :
    ws.AllLive ((ws.directory.instancesOf struct file).map Instance.ref) := by
  intro r hr
  obtain ⟨i, hi, rfl⟩ := List.mem_map.mp hr
  exact ⟨i, hs.directory.mem_toList.mp (List.mem_filter.mp hi).1, rfl⟩

namespace Resolver.Reliable

variable {once : Prop} {resolver : Resolver} (h : resolver.Reliable once)
include h

theorem searches : (Law.ends once).Searches resolver resolver :=
  (h.walks .query).searches (fun _ _ _ hs => ⟨_, _, rfl, hs, .refl _, .none⟩)
    (fun file _ hs => ⟨_, _, rfl, hs, .refl _, hs.allLive_instancesOf _ file⟩) fun _ => h.walk_idle

/-- **Evaluating for a live instance** ends soundly. -/
theorem evaluateIn {ws : Workspace} (hs : ws.Sound once) (scope : Scope)
    (hr : ws.IsLive scope.root) (expr : Expr) :
    Ends once ws (resolver.evaluateIn scope expr) ws fun _ _ => True :=
  ((h.searches.environment scope).evaluate expr (List.forall_mem_singleton.mpr hr)
    (fun _ _ => trivial) hs).weaken

/-- **What a query finds is live.** -/
theorem select {ws : Workspace} (hs : ws.Sound once) (scope : Scope) (hr : ws.IsLive scope.root)
    (query : Query) :
    Ends once ws (query.run (resolver.environment scope)) ws fun found ws' => ws'.AllLive found :=
  (h.searches.environment scope).run query (List.forall_mem_singleton.mpr hr)
    (fun _ _ => trivial) hs

end Resolver.Reliable

end ByteAtlas
