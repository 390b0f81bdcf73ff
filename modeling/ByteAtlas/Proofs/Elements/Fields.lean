import ByteAtlas.Proofs.Elements.Single
import ByteAtlas.Proofs.Elements.Steps

/-!
# What is found out about fields

Presence, offset, count, elements and previews of a field: whatever is asked about them is one move
after another (`Resolver.Moves`). What is noted of the elements is read with the place and the count
that are known by then, and a count is noted once what it refers to is known
(`Resolver.Moves.readScalars`, `Resolver.Moves.elementCount`).
-/

namespace ByteAtlas

open Resolve (Ends MovesFrom Proceeds)

/-- **A note about a field**, if its instance has a definition. -/
theorem Resolve.MovesFrom.note {β : Type} {ws : Workspace} {r : InstanceRef} {i : Nat}
    {g : FieldEntry → FieldEntry} {next : Unit → Resolve β} {last : β → Workspace → Prop}
    (hs : ws.Sound True) (hr : ws.IsLive r) (hc : ws.Current r)
    (hn : ∀ d f e, ws.structOf? r = some d → d.field? i = some f → ws.entryOf? r i = some e →
      ws.Notes r d i f.2 e (g e))
    (hlast : MovesFrom (ws.modifyLayout r (·.modifyEntry i g)) (next ()) last) :
    MovesFrom ws (modifyEntry r i g >>= next) last := by
  refine MovesFrom.change (f := (·.modifyLayout r (·.modifyEntry i g))) ?_
    (ws.keeps_modifyLayout r _).within hlast
  cases hd : ws.structOf? r with
  | none => exact .undefined hr hd fun _ => rfl
  | some d =>
    refine .layout hr hd ?_
    cases he : ws.entryOf? r i with
    | none =>
      refine .same ?_ rfl rfl
      have hsize : (ws.layoutOf r).entries.size ≤ i := Array.getElem?_eq_none_iff.mp he
      refine Array.ext (Array.size_modify ..) fun j hj hj' => ?_
      exact (Array.getElem_modify hj).trans (if_neg (by omega))
    | some e =>
      obtain ⟨f, hf⟩ := Layout.field?_isSome (Nat.lt_of_lt_of_le
        (Array.getElem?_eq_some_iff.mp he).1 (hs.fits_of_current trivial hr hc hd).size_le)
      exact .note (hc d hd) hf he (hn d f e hd hf he)

namespace Resolver.Moves

variable {resolver : Resolver} (h : resolver.Moves) {r : InstanceRef}
include h

/-! ## 1. Offsets -/

theorem enumerate (upTo : Nat) (isLazy : Bool) :
    Resolve.Moves r (resolver.enumerate r upTo isLazy) := by
  intro ws hws hr
  refine ⟨(h.reliable.enumerate hws.sound hr upTo isLazy).weaken, ?_⟩
  unfold Resolver.enumerate
  refine .ask ?_
  cases hd : ws.structOf? r with
  | none => exact .pure trivial
  | some d =>
    obtain ⟨hs₁, hg₁, hc₁⟩ := hws.sound.validate hr hd
    have hmove : ws.Move (ws.modifyLayout r fun l => l.validated (ws.stampOf r d) r.offset) :=
      .layout hr hd .validated
    refine .change hmove hg₁.toKeeps.within (.ask ?_)
    split
    · exact .pure trivial
    · rename_i hmore
      simp only [Bool.or_eq_true, not_or, Bool.not_eq_true, Option.isSome_eq_false_iff,
        Option.isNone_iff_eq_none] at hmore
      exact h.layOut _ isLazy (hws.moved hs₁ (hmove.moved hg₁.toKeeps.within)) (hg₁.isLive hr) hd
        (hc₁ d hd) hmore.2

/-- After a field has been asked for, the layout is up to date. -/
theorem enumerates {ws : Workspace} (hws : ws.Ordered) (hr : ws.IsLive r) (upTo : Nat)
    (isLazy : Bool) : Proceeds ws (resolver.enumerate r upTo isLazy) fun _ ws' => ws'.Current r :=
  (h.enumerate upTo isLazy).proceeds hws hr
    ((h.reliable.enumerate hws.sound hr upTo isLazy).mono fun _ _ _ _ hreaches => hreaches.1)

theorem fieldOffset (i : Nat) (isLazy : Bool) :
    Resolve.Moves r (resolver.fieldOffset r i isLazy) := by
  intro ws hws hr
  refine ⟨(h.reliable.fieldOffset hws.sound hr i isLazy).weaken, ?_⟩
  unfold Resolver.fieldOffset
  refine (h.enumerates hws hr _ isLazy).call hws fun _ ws₁ hws₁ hg₁ _ hc₁ => .ask ?_
  have hr₁ := hg₁.isLive hr
  cases ws₁.entryOf? r i with
  | none => exact .pure trivial
  | some entry =>
    dsimp only
    split
    · exact .pure trivial
    · refine .ask ?_
      split
      · exact .pure trivial
      · rename_i formula hformula
        obtain ⟨f, hf, hformula⟩ := Option.bind_eq_some_iff.mp hformula
        refine (h.evaluate (.withConstants r _) formula.expr).unlessCutShort.call hws₁ hr₁
          fun offset ws₂ hws₂ hg₂ hr₂ => ?_
        cases offset with
        | none => exact .pure trivial
        | some offset =>
          refine .note hws₂.sound hr₂ (hg₂.current hr₁ hc₁) (fun d f' e hd hf' _ => ?_)
            (.pure trivial)
          refine .offset offset ?_
          rw [hg₂.structOf?] at hd
          rw [Workspace.fieldOf?_eq hd, hf'] at hf
          cases hf
          rw [hformula]
          exact fun e => nomatch e

/-! ## 2. Elements -/

theorem readFormula {ws : Workspace} (hws : ws.Ordered) (hr : ws.IsLive r) (hc : ws.Current r)
    {i : Nat} {f : String × Field} (hf : ws.fieldOf? r i = some f) (entry : FieldEntry)
    {formula : Formula} (hvalue : f.2.value = some formula) (wanted : Wanted) :
    MovesFrom ws (resolver.readFormula r i entry formula wanted) fun _ _ => True := by
  unfold Resolver.readFormula
  refine (h.evaluate (.withConstants r _) formula.expr).unlessCutShort.call hws hr
    fun value ws₁ hws₁ hg₁ hr₁ => ?_
  cases value with
  | none => exact .pure trivial
  | some value =>
    refine .note hws₁.sound hr₁ (hg₁.current hr hc) (fun d f' e hd hf' _ => ?_) (.pure trivial)
    rw [hg₁.structOf?] at hd
    rw [Workspace.fieldOf?_eq hd, hf'] at hf
    cases hf
    split
    · rename_i hempty
      exact .value value (by rw [hvalue]; rfl) (Array.isEmpty_iff.mp hempty)
    · exact .nothing

/-- Whether all elements of a field that ends at a zero have been read. -/
def ReadsAll (ws ws' : Workspace) (r : InstanceRef) (i : Nat) (wanted : Wanted) : Prop :=
  ws'.refusals = ws.refusals → wanted = .throughZero → ∀ f e, ws'.fieldOf? r i = some f →
    ws'.entryOf? r i = some e → f.2.untilZero = true → f.2.value = none →
    f.2.type.scalar?.isSome → f.2.Exhausted e

section

variable {count : Resolve (Option Int64)} (hcount : Resolve.Moves r count) {i : Nat}
  (hcounted : ∀ {ws : Workspace}, ws.Sound True → ws.IsLive r →
    Ends True ws count ws fun a ws' => ws.Counted ws' r i false a)
include hcount hcounted

/-- **What is read from the file is noted** with the place that the field has, if it is not an
expression that gives it, and with the count that is known. -/
theorem readScalars {ws : Workspace} (hws : ws.Ordered) (hr : ws.IsLive r) (hc : ws.Current r)
    {f : String × Field} (hf : ws.fieldOf? r i = some f) {entry : FieldEntry}
    (he : ws.entryOf? r i = some entry) (hvalue : f.2.value = none) {type : ScalarType}
    (htype : f.2.type = .scalar type) (wanted : Wanted) :
    MovesFrom ws (resolver.readScalars count r i f.2 type wanted) fun _ ws' =>
      ReadsAll ws ws' r i wanted := by
  obtain ⟨d, hd, hfield⟩ := Workspace.structOf?_of_fieldOf? hf
  unfold Resolver.readScalars
  refine ((h.fieldOffset i false).proceeds hws hr
    (h.reliable.fieldOffset hws.sound hr i false)).call hws fun offset ws₁ hws₁ hg₁ _ hoffset => ?_
  obtain ⟨⟨hc₁, _⟩, hnoted, hknown, hmissing⟩ := hoffset
  have hr₁ := hg₁.isLive hr
  refine (hcount.proceeds hws₁ hr₁ (hcounted hws₁.sound hr₁)).call hws₁
    fun count ws₂ hws₂ hg₂ _ hcounts => .get ?_
  have hr₂ := hg₂.isLive hr₁
  have hd₁ := (hg₁.structOf? r).trans hd
  have hd₂ := (hg₂.structOf? r).trans hd₁
  obtain ⟨e₁, he₁, hgrow₁⟩ := hg₁.entryOf? hr hc hd he
  obtain ⟨e₂, he₂, hgrow₂⟩ := hg₂.entryOf? hr₁ hc₁ hd₁ he₁
  rw [Workspace.fieldIn_structOf?, hf] at hgrow₁
  rw [Workspace.fieldIn_structOf?, hg₁.fieldOf?, hf] at hgrow₂
  have hc₂ := hg₂.current hr₁ hc₁
  dsimp only
  rw [he₂]
  dsimp only
  have hread (left : Nat) (next : Int64) (values : Array Element) :
      ws₂.readElements r.file f.2 type (count.getD 0) (offset.getD 0) left next values =
        (Reading.mk ws₂ r.file f.2 type (count.getD 0) (offset.getD 0)).readOn left
          (values, next) := rfl
  rw [hread]
  have hplace (hplain : f.2.offsetFormula = none) : offset.getD 0 = e₂.offset.getD 0 := by
    rw [hknown f entry hc hf he (.inr hplain), hgrow₂.offset_eq (.inr hplain),
      hgrow₁.offset_eq (.inr hplain)]
  have hlimit : count.getD 0 = e₂.count.getD 0 ∨ count.getD 0 = 0 := by
    cases hn : count with
    | none => exact .inr rfl
    | some n =>
      obtain ⟨e, he, hcount⟩ := hcounts.noted d n hd₂ hn
      rw [he₂] at he
      cases he
      rw [hcount]
      exact .inl rfl
  refine .note hws₂.sound hr₂ hc₂ (fun d' f' e hd' hf' he' => ?_) (.pure ?_)
  · obtain rfl : d = d' := Option.some.inj (hd₂.symm.trans hd')
    obtain rfl : f = f' := Option.some.inj (hfield.symm.trans hf')
    obtain rfl : e₂ = e := Option.some.inj (he₂.symm.trans he')
    exact .elements _ hvalue htype hplace hlimit
  · rintro hquiet rfl f' e hf' he' huntil _ _
    have hquiet : ws₂.refusals = ws.refusals := hquiet
    have hle₁ := hg₁.refusals
    have hle₂ := hg₂.refusals
    rw [Workspace.entryOf?_modifyEntry_of_some he₂] at he'
    cases he'
    have hf' : ws₂.fieldOf? r i = some f' := hf'
    rw [hg₂.fieldOf?, hg₁.fieldOf?, hf] at hf'
    cases hf'
    -- Without a refused frame the place and the count are those that are noted.
    have hstart : offset = e₂.offset ∧ (e₂.offset.isSome ∨ f.2.offsetFormula = none) := by
      cases hoffset : offset with
      | some m =>
        obtain ⟨e, he, hm⟩ := hnoted m hoffset
        rw [he₁] at he
        cases he
        rw [hgrow₂.offset m hm]
        exact ⟨rfl, .inl rfl⟩
      | none =>
        obtain ⟨hnone, hplain⟩ := hmissing hoffset rfl (by omega) f e₁
          ((hg₁.fieldOf? r i).trans hf) he₁
        rw [hgrow₂.offset_eq (.inr hplain), hnone]
        exact ⟨rfl, .inr hplain⟩
    have hcountedTo : ∃ c, count = some c ∧ e₂.count = some c := by
      cases hn : count with
      | some c =>
        obtain ⟨e, he, hcount⟩ := hcounts.noted d c hd₂ hn
        rw [he₂] at he
        cases he
        exact ⟨c, rfl, hcount⟩
      | none =>
        have hno := hcounts.missing hn (by omega)
        rw [he₂] at hno
        cases hno
    obtain ⟨c, rfl, hcount⟩ := hcountedTo
    obtain ⟨rfl, hsure⟩ := hstart
    refine (Field.Exhausted.iff_of_scalar hvalue htype).mpr ⟨hsure, c, hcount, ?_⟩
    exact Reading.hasNext_readOn_of_untilZero
      (g := ⟨ws₂, r.file, f.2, type, c, e₂.offset.getD 0⟩) huntil _

theorem readValuesWith {ws : Workspace} (hws : ws.Ordered) (hr : ws.IsLive r) (wanted : Wanted) :
    Proceeds ws (resolver.readValuesWith count r i wanted) fun _ ws' =>
      ReadsAll ws ws' r i wanted := by
  refine ⟨(h.reliable.readValuesWith hws.sound hr i hcounted wanted).weaken, ?_⟩
  unfold Resolver.readValuesWith
  refine (h.enumerates hws hr _ false).call hws fun _ ws₁ hws₁ hg₁ _ hc₁ => .ask ?_
  have hr₁ := hg₁.isLive hr
  cases he : ws₁.entryOf? r i with
  | none =>
    refine .pure fun _ _ f e _ he' => ?_
    rw [he] at he'
    cases he'
  | some entry =>
    dsimp only
    split
    · rename_i hmet
      refine .pure ?_
      rintro _ rfl
      cases hmet
    · refine .ask ?_
      cases hf : ws₁.fieldOf? r i with
      | none =>
        refine .pure fun _ _ f e hf' => ?_
        rw [hf] at hf'
        cases hf'
      | some f =>
        have hother (hno : f.2.value = none → f.2.type.scalar?.isSome → False) {ws' : Workspace}
            (hf' : ws'.fieldOf? r i = some f) : ReadsAll ws ws' r i wanted := by
          intro _ _ f₁ e hf₁ _ _ hv hs
          rw [hf'] at hf₁
          cases hf₁
          exact (hno hv hs).elim
        dsimp only
        split
        · rename_i formula _ hvalue
          have hsome : f.2.value.isSome := by rw [hvalue]; rfl
          -- The schema is the same afterwards, so the field is.
          have hmoves := h.readFormula hws₁ hr₁ hc₁ hf entry hvalue wanted
          refine ⟨hmoves.1, fun a _ => hother (fun hv _ => ?_) ?_⟩
          · rw [hvalue] at hv
            cases hv
          · exact (hmoves.1.keeps.fieldOf? r i).trans hf
        · rename_i type hvalue htype
          have hmoves := h.readScalars hcount hcounted hws₁ hr₁ hc₁ hf he hvalue htype wanted
          refine ⟨hmoves.1, fun a ha hquiet => hmoves.2 a ha ?_⟩
          have hle₁ := hg₁.refusals
          have hle := hmoves.1.keeps.refusals
          dsimp only at hle
          omega
        · rename_i struct hvalue htype
          refine .pure (hother (fun _ hs => ?_) hf)
          rw [htype] at hs
          cases hs

theorem intValueWith (n : Nat) : Resolve.Moves r (resolver.intValueWith count r i n) := by
  intro ws hws hr
  refine ⟨(h.reliable.intValueWith hws.sound hr i n hcounted).weaken, ?_⟩
  unfold Resolver.intValueWith
  refine (h.readValuesWith hcount hcounted hws hr _).call hws fun there _ _ _ _ _ => ?_
  cases there with
  | false => exact .pure trivial
  | true => exact .ask (.pure trivial)

end

/-! ## 3. Counts -/

omit h in
/-- **A count is cut to the limit**, and nothing else is changed than that the limit may be hit. -/
theorem limitCount {ws : Workspace} (hws : ws.Ordered) (n : Int64) :
    Proceeds ws (ByteAtlas.limitCount n) fun c ws' =>
      c = cutCount ws.limits.maxElements n ∧ ∃ limitHits, ws' = { ws with limitHits } := by
  refine ⟨(Reliable.limitCount hws.sound n).weaken, ?_⟩
  unfold ByteAtlas.limitCount cutCount
  have hlimit : ¬ ws.limits.maxElements < 0 := Int64.not_lt.mpr hws.sound.limit
  refine .ask ?_
  dsimp only
  rw [if_neg hlimit]
  split
  · refine .change (.count ws.depth ws.refusals _) { Workspace.Keeps.refl ws with } (.pure ?_)
    exact ⟨rfl, _, rfl⟩
  · exact .pure ⟨rfl, _, rfl⟩

omit h in
/-- **A count that is found is cut to the limit and noted.** If it has been noted in the meantime,
it is the same. -/
theorem keepCount {mid ws : Workspace} (hmid : mid.Ordered) (hws : ws.Ordered)
    (hmoved : mid.Moved ws) (hgrow : mid.Grows ws) (hr : mid.IsLive r) (hc : mid.Current r) {i : Nat}
    {entry : FieldEntry} (he : mid.entryOf? r i = some entry) (hnone : entry.count = none) {n : Int64}
    (hn : ∀ d f, mid.structOf? r = some d → d.field? i = some f → f.2.value = none →
      ws.CountsTo r d i f.2 entry.present n) :
    MovesFrom ws
      (do
        let count ← ByteAtlas.limitCount n
        modifyEntry r i fun e => { e with count := some count }
        pure (some count)) fun _ _ => True := by
  refine (limitCount hws n).call hws fun c ws₁ hws₁ hg₁ hm₁ hcut => ?_
  have hg := hgrow.trans hg₁
  refine .note hws₁.sound (hg.isLive hr) (hg.current hr hc) (fun d f e hd hf he₁ => ?_)
    (.pure trivial)
  rw [hg.structOf?] at hd
  obtain ⟨e', he', hentry⟩ := hg.entryOf? hr hc hd he
  obtain rfl : e = e' := Option.some.inj (he₁.symm.trans he')
  obtain ⟨rfl, hits, rfl⟩ := hcut
  refine .count (cutCount_nonneg hws.sound.limit n) fun hv => ?_
  have hcounts : Workspace.Counts { ws with limitHits := hits } r d i f.2 e.present
      (cutCount ws.limits.maxElements n) := by
    rw [hentry.present]
    exact Workspace.Counts.mono ⟨n, hn d f hd hf hv, rfl⟩ rfl rfl (fun _ => rfl)
      fun j _ g e v _ he ht => ⟨e, he, ht⟩
  refine ⟨hcounts, fun hplain c hc' => ?_⟩
  -- In the beginning the count was not known, so what is known is what the entries make up.
  rcases (hmoved.trans hm₁).explains hmid.inOrder hr hd hf hplain (hg.current hr hc) hv he₁ hc' with
    ⟨_, e₀, he₀, hcount₀⟩ | hother
  · rw [he] at he₀
    cases he₀
    rw [hnone] at hcount₀
    cases hcount₀
  · exact hother.eq hcounts

/-- **What the name of a field stands for** is what its entry tells, if no frame is refused. -/
theorem names_field {ws : Workspace} {i j : Nat}
    (ih : Resolve.Moves r (resolver.elementCount r j false))
    (hws : ws.Ordered) (hr : ws.IsLive r) (hc : ws.Current r) {d : StructDef}
    (hd : ws.structOf? r = some d) {f : String × Field} (hf : d.field? i = some f)
    {entry : FieldEntry} (he : ws.entryOf? r i = some entry) {source : String}
    (hj : d.fieldIndex? source = some j) (hlt : j < i) :
    Proceeds ws (some <$> resolver.intValueWith (resolver.elementCount r j false) r j 0)
      fun base ws' => ws'.refusals = ws.refusals → ws'.Names r d i source base := by
  have hcounted {ws : Workspace} (hs : ws.Sound True) (hr : ws.IsLive r) :=
    h.reliable.elementCount hr j false hs
  have hvalue := (h.intValueWith ih hcounted 0).proceeds hws hr
    ((h.reliable.intValueWith hws.sound hr j 0 hcounted).mono
      fun v ws' _ hg hv => show ws.Grows ws' ∧ _ from ⟨hg, hv.2⟩)
  refine .map ⟨hvalue.ends, hvalue.moves.mono fun v ws' ⟨hg, hv⟩ hquiet => ?_⟩
  obtain ⟨hread, rfl⟩ := hv hquiet
  obtain ⟨e', he', _⟩ := hg.entryOf? hr hc hd he
  have hlt' : j < (ws'.layoutOf r).entries.size :=
    Nat.lt_trans hlt (Array.getElem?_eq_some_iff.mp he').1
  have hej : ws'.entryOf? r j = some (ws'.layoutOf r).entries[j] := Array.getElem?_eq_getElem hlt'
  obtain ⟨g, hg'⟩ := Layout.field?_isSome (Nat.lt_trans hlt (Layout.lt_fieldCount hf))
  rw [hej]
  refine .field hj hlt hg' hej ⟨hread g _ ?_ hej, rfl⟩
  rw [hg.fieldOf?, Workspace.fieldOf?_eq hd, hg']

omit h in
/-- Another name stands for an argument or a parameter. -/
theorem names_other {ws : Workspace} (hws : ws.Ordered) {d : StructDef} {i : Nat} {source : String}
    (hno : ∀ j, d.fieldIndex? source = some j → i ≤ j) :
    Proceeds ws (ByteAtlas.argOrParam r d source) fun base ws' => ws'.Names r d i source base :=
  .ask (.pure hws (.other hno))

omit h in
/-- **What has been counted is cut to the limit and noted**, if it is what the entries make up. -/
theorem keepCounted {ws : Workspace} (hws : ws.Ordered) (hr : ws.IsLive r) (hc : ws.Current r)
    {i : Nat} {entry : FieldEntry} (he : ws.entryOf? r i = some entry) (hnone : entry.count = none)
    {step : Resolve (Option Int64)} {next : Option Int64 → Resolve (Option Int64)}
    (hskip : next none = pure none)
    (hkeep : ∀ n, next (some n) = do
      let count ← ByteAtlas.limitCount n
      modifyEntry r i fun e => { e with count := some count }
      pure (some count))
    (hstep : Proceeds ws step fun a ws' => ws'.refusals = ws.refusals → ∀ n, a = some n →
      ∀ d f, ws.structOf? r = some d → d.field? i = some f → f.2.value = none →
        ws'.CountsTo r d i f.2 entry.present n) :
    MovesFrom ws (unlessCutShort step >>= next) fun _ _ => True := by
  refine hstep.unlessCutShort.call hws fun count ws₁ hws₁ hg₁ hm₁ hcut => ?_
  cases count with
  | none =>
    rw [hskip]
    exact .pure trivial
  | some n =>
    rw [hkeep]
    rcases hcut with ⟨hquiet, hn⟩ | ⟨_, hno⟩
    · exact keepCount hws hws₁ hm₁ hg₁ hr hc he hnone (hn hquiet n rfl)
    · cases hno

/-- Counting goes down in the index of the field. -/
theorem elementCount (i : Nat) : ∀ isLazy : Bool,
    Resolve.Moves r (resolver.elementCount r i isLazy) := by
  induction i using Nat.strongRecOn with
  | _ i ih =>
    intro isLazy ws hws hr
    refine ⟨(h.reliable.elementCount hr i isLazy hws.sound).weaken, ?_⟩
    rw [Resolver.elementCount]
    refine (h.enumerates hws hr _ isLazy).call hws fun _ ws₁ hws₁ hg₁ _ hc₁ => .ask ?_
    have hr₁ := hg₁.isLive hr
    cases he : ws₁.entryOf? r i with
    | none => exact .pure trivial
    | some entry =>
      dsimp only
      split
      · exact .pure trivial
      · rename_i hnone
        have hnone : entry.count = none := by simpa using hnone
        split
        · rename_i habsent
          rw [pure_bind]
          refine keepCount hws₁ hws₁ .refl (.refl ws₁) hr₁ hc₁ he hnone fun d f _ _ _ => ?_
          exact .absent (by simpa using habsent)
        · rename_i hpresent
          have hpresent : entry.present = true := by simpa using hpresent
          refine keepCounted hws₁ hr₁ hc₁ he hnone rfl (fun _ => rfl) (.ask ?_)
          rw [hpresent]
          cases hd : ws₁.structOf? r with
          | none =>
            have hempty : ((none : Option StructDef).getD .empty).field? i = none :=
              List.getElem?_nil
            rw [hempty]
            refine .pure hws₁ fun _ _ _ _ _ hd' => ?_
            cases hd'
          | some d =>
            rw [Option.getD_some]
            cases hf : d.field? i with
            | none =>
              refine .pure hws₁ fun _ _ _ d' f hd' hf' => ?_
              cases hd'
              rw [hf] at hf'
              cases hf'
            | some f =>
              -- Only the field that is counted is asked about.
              have hpost {a : Option Int64} {ws' : Workspace} (h : ws'.refusals = ws₁.refusals →
                  f.2.value = none → ∀ n, a = some n → ws'.CountsTo r d i f.2 true n) :
                  ws'.refusals = ws₁.refusals → ∀ n, a = some n → ∀ d' f', some d = some d' →
                    d'.field? i = some f' → f'.2.value = none → ws'.CountsTo r d' i f'.2 true n := by
                rintro hquiet n hn _ f' ⟨⟩ hf' hv
                rw [hf] at hf'
                cases hf'
                exact h hquiet hv n hn
              dsimp only
              split
              · rename_i hsome
                refine .pure hws₁ (hpost fun _ hv => ?_)
                rw [hv] at hsome
                cases hsome
              · split
                · rename_i hsource
                  refine .pure hws₁ (hpost ?_)
                  rintro _ _ _ ⟨⟩
                  exact .literal rfl hsource
                · rename_i hsource
                  refine .ask (.pure hws₁ (hpost ?_))
                  rintro _ _ _ ⟨⟩
                  exact .fileSize rfl hsource
                · rename_i source hsource
                  have hnames {base : Option Int64} {ws' : Workspace}
                      (h : ws'.refusals = ws₁.refusals → ws'.Names r d i source base) :=
                    hpost (a := some (base.elim 0 (· + f.2.count))) fun hquiet _ n hn =>
                      Option.some.inj hn ▸ Workspace.CountsTo.named rfl hsource (h hquiet)
                  split
                  · rename_i j hj
                    split
                    · rename_i hlt
                      have hbase := h.names_field (ih j hlt false) hws₁ hr₁ hc₁ hd hf he hj hlt
                      exact .thenPure ⟨hbase.ends, hbase.moves.mono fun _ _ hb => hnames hb⟩
                    · rename_i hge
                      have hbase := names_other (r := r) hws₁ fun j' hj' =>
                        show i ≤ j' from Option.some.inj (hj.symm.trans hj') ▸ Nat.not_lt.mp hge
                      exact .thenPure ⟨hbase.ends, hbase.moves.mono fun _ _ hb => hnames fun _ => hb⟩
                  · rename_i hno
                    have hbefore {j : Nat} (hj : d.fieldIndex? source = some j) : i ≤ j := by
                      rw [hno] at hj
                      cases hj
                    have hbase := names_other (r := r) hws₁ fun _ => hbefore
                    exact .thenPure ⟨hbase.ends, hbase.moves.mono fun _ _ hb => hnames fun _ => hb⟩

/-! ## 4. Values and previews -/

/-- **Elements are read**, all of them if the field ends at a zero and that is what is wanted. -/
theorem readsValues {ws : Workspace} (hws : ws.Ordered) (hr : ws.IsLive r) (i : Nat)
    (wanted : Wanted) : Proceeds ws (resolver.readValues r i wanted) fun _ ws' =>
      ReadsAll ws ws' r i wanted :=
  h.readValuesWith (h.elementCount i false)
    (fun hs hr => h.reliable.elementCount hr i false hs) hws hr wanted

theorem readValues (i : Nat) (wanted : Wanted) :
    Resolve.Moves r (resolver.readValues r i wanted) := fun _ hws hr =>
  let hreads := h.readsValues hws hr i wanted
  ⟨hreads.ends, hreads.moves.mono fun _ _ _ => trivial⟩

/-- **Moving is a law** of what is asked of an instance. -/
def law (r : InstanceRef) : resolver.FieldLaw resolver r where
  Holds step _ := Resolve.Moves r step
  Defines _ := True
  pure _ _ hws _ := .pure hws trivial
  bind h hn ws hws hr := (h ws hws hr).bind hws fun a ws₁ hws₁ hg₁ _ =>
    hn a ws₁ hws₁ (hg₁.isLive hr)
  struct hn ws hws hr := .ask (hn _ (fun _ _ => trivial) ws hws hr)
  schema _ := .look _
  fileSize := .look _
  layout := .look _
  instance? _ _ := .look _
  evaluate constants before _ _ _ := h.evaluate ⟨r, constants, before⟩ _

omit h in
/-- **The joined preview of a single integer** that has a place shows its elements. -/
theorem shows {ws : Workspace} (hws : ws.Ordered) (hr : ws.IsLive r) (hc : ws.Current r) {i : Nat}
    {o : Int64} {e₀ : FieldEntry} (he₀ : ws.entryOf? r i = some e₀) (ho : e₀.offset = some o)
    (hpresent : e₀.present = true) {f : String × Field} (hf : ws.fieldOf? r i = some f) {t : IntType}
    (hone : f.2.OneInt t) {previews : List String} {ws' : Workspace}
    (hrun : (resolver.takePreviews r i true previewLimit 0 "").runIn ws = (.ok previews, ws'))
    {e : FieldEntry} (he : ws'.entryOf? r i = some e) : e.Shows (joinPreviews true previews) := by
  obtain ⟨d, hd, hfield⟩ := Workspace.structOf?_of_fieldOf? hf
  have hkept : e₀.ReadsOne := ((hws.inOrder.of_current hr hd hc hfield he₀).integer t hone).toReadsOne
  obtain ⟨ws₁, e₁, hrun₁, hreads⟩ := resolver.runIn_takePreviews_oneInt (.of_entry hf hc he₀) hone
    hpresent hws.sound.limit hkept ho
  rw [hrun] at hrun₁
  cases hrun₁
  obtain rfl : e = e₁ := Option.some.inj (he.symm.trans hreads.knows.entry)
  exact hreads.shows hkept hws.sound.limit

theorem fieldPreview (i : Nat) (isLazy : Bool) :
    Resolve.Moves r (resolver.fieldPreview r i isLazy) := by
  intro ws hws hr
  refine ⟨(h.reliable.fieldPreview hws.sound hr i isLazy).weaken, ?_⟩
  unfold Resolver.fieldPreview
  refine (h.enumerates hws hr _ isLazy).call hws fun _ ws₁ hws₁ hg₁ _ hc₁ => .ask ?_
  have hr₁ := hg₁.isLive hr
  cases he₁ : ws₁.entryOf? r i with
  | none => exact .pure trivial
  | some entry =>
    dsimp only
    split
    · exact .pure trivial
    · rename_i hpresent
      have hpresent : entry.present = true := by simpa using hpresent
      cases entry.preview with
      | some preview => exact .pure trivial
      | none =>
        refine ((h.fieldOffset i isLazy).proceeds hws₁ hr₁
          (h.reliable.fieldOffset hws₁.sound hr₁ i isLazy)).call hws₁
            fun offset ws₂ hws₂ hg₂ _ hoffset => ?_
        obtain ⟨⟨hc₂, _⟩, hnoted, _⟩ := hoffset
        have hr₂ := hg₂.isLive hr₁
        split
        · exact .pure trivial
        · rename_i hplaced
          obtain ⟨o, rfl⟩ := Option.ne_none_iff_exists'.mp (by simpa using hplaced)
          obtain ⟨e₂, he₂, ho⟩ := hnoted o rfl
          refine .ask ?_
          generalize hseparated : Option.elim _ true ScalarType.isSeparated = separated
          have htakes := (h.law r).takePreviews h.readValues i separated previewLimit 0 "" ws₂ hws₂ hr₂
          have htook : Proceeds ws₂ (resolver.takePreviews r i separated previewLimit 0 "")
              fun previews ws' => (resolver.takePreviews r i separated previewLimit 0 "").runIn ws₂ =
                (.ok previews, ws') :=
            ⟨htakes.ends, htakes.moves.1, fun previews hp => Prod.ext hp rfl⟩
          refine htook.call hws₂ fun previews ws₃ hws₃ hg₃ _ hrun => ?_
          refine .note hws₃.sound (hg₃.isLive hr₂) (hg₃.current hr₂ hc₂) (fun d f e hd hf he => ?_)
            (.pure trivial)
          have hfield₂ : ws₂.fieldOf? r i = some f :=
            (hg₃.fieldOf? r i).symm.trans ((Workspace.fieldOf?_eq hd i).trans hf)
          obtain ⟨d₂, hd₂, _⟩ := Workspace.structOf?_of_fieldOf? hfield₂
          obtain ⟨e', he', hgrow₂⟩ := hg₂.entryOf? hr₁ hc₁ ((hg₂.structOf? r).symm.trans hd₂) he₁
          obtain rfl : e₂ = e' := Option.some.inj (he₂.symm.trans he')
          obtain ⟨e', he', hgrow₃⟩ := hg₃.entryOf? hr₂ hc₂ hd₂ he₂
          obtain rfl : e = e' := Option.some.inj (he.symm.trans he')
          have hpresent₂ : e₂.present = true := hgrow₂.present.trans hpresent
          refine .preview (hgrow₃.present.trans hpresent₂) fun t hone => ?_
          obtain rfl : separated = true := by
            rw [← hseparated, hfield₂, Option.bind_some, hone.type]
            rfl
          exact shows hws₂ hr₂ hc₂ he₂ ho hpresent₂ hfield₂ hone hrun he

end Resolver.Moves

end ByteAtlas
