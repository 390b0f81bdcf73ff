import ByteAtlas.Proofs.Elements.Fields

/-!
# Sizes, children and the room that fields take

Sizes that become known, and children that are placed and get their arguments: all of it is one move
after another, and so are walks, because that is a law of them (`Resolver.Moves.walks`). The room that a field of a scalar type takes is noted as its count and
its elements make it up at that moment (`Resolver.Moves.totalSize`).
-/

namespace ByteAtlas

open Resolve (Ends MovesFrom Proceeds)

/-! ## 1. Placing instances -/

/-- Nothing is known of an instance that is placed, or it was there. -/
theorem Workspace.Sound.move_place {once : Prop} {ws : Workspace} (h : ws.Sound once)
    (p : Placement) : ws.Move (ws.place p).2 := by
  refine .place p fun r hr => ?_
  cases hp : ws.directory.findAt? p.location with
  | some i =>
    have hplace : ws.place p =
        (⟨i.ref, false⟩, ws.modify i.id (Instance.merge p.reason p.budget)) := by
      rw [Workspace.place, Directory.add_of_taken hp]
      rfl
    rw [hplace] at hr
    exact .inl ((isLive_modify (keepsVersion_merge _ _).toKeepsPlace i.id).mp hr)
  | none =>
    obtain ⟨i, hi, hir⟩ := hr
    have hfind : (ws.place p).2.find? r.id =
        if ws.directory.nextId = r.id then some (.ofPlacement r.id p) else ws.find? r.id :=
      Directory.find?_add_of_free hp r.id
    rw [hfind] at hi
    split at hi
    · rename_i hid
      refine .inr (layoutOf_eq_unknown ?_)
      cases hl : ws.layouts[r.id]? with
      | none => rfl
      | some l => exact absurd h.directory.find?_nextId (hid ▸ h.known r.id l hl)
    · exact .inl ⟨i, hi, hir⟩

/-- What is new is as it was placed, and nothing is known about it yet. -/
theorem Workspace.Sound.placed_new {once : Prop} {ws : Workspace} (h : ws.Sound once) (p : Placement)
    (hnew : (ws.place p).1.inserted = true) :
    (ws.place p).2.find? (ws.place p).1.ref.id = some (.ofPlacement ws.directory.nextId p) ∧
      (ws.place p).2.layouts[(ws.place p).1.ref.id]? = none := by
  cases hp : ws.directory.findAt? p.location with
  | some i =>
    rw [Workspace.place, Directory.add_of_taken hp] at hnew
    cases hnew
  | none =>
    have hadded : (ws.place p).1 = ⟨⟨ws.directory.nextId, p.location⟩, true⟩ := by
      rw [Workspace.place, Directory.add, hp]
    rw [hadded]
    refine ⟨(Directory.find?_add_of_free hp _).trans (if_pos rfl), ?_⟩
    cases hl : ws.layouts[ws.directory.nextId]? with
    | none => exact hl
    | some l => exact absurd h.directory.find?_nextId (h.known _ l hl)

/-- Placing an instance in the course of a step. -/
theorem Resolve.MovesFrom.place {β : Type} {ws : Workspace} {p : Placement}
    {next : Directory.Added → Resolve β} {last : β → Workspace → Prop} (hws : ws.Ordered)
    (hn : ∀ added ws₁, ws₁.Ordered → ws.Grows ws₁ → ws₁.IsLive added.ref →
      MovesFrom ws₁ (next added) last) :
    MovesFrom ws (Resolve.update (fun ws => ws.place p) >>= next) last := by
  obtain ⟨hs₁, hg₁, hlive, _⟩ := hws.sound.place p
  have hmoved := (hws.sound.move_place p).moved hg₁.toKeeps.within
  exact Resolve.Through.update ((hn _ _ (hws.moved hs₁ hmoved) hg₁ hlive).after hmoved)

namespace Resolver.Moves

variable {resolver : Resolver} (h : resolver.Moves) {r : InstanceRef} {ws : Workspace}
include h

/-! ## 2. Sizes and chains -/

/-- **What is measured** is what the arguments make up, if they make up the size. -/
theorem measures (hws : ws.Ordered) (hr : ws.IsLive r) (d : StructDef) (isLazy : Bool) :
    Proceeds ws (unlessCutShort (resolver.measureSize r d isLazy)) fun size ws' =>
      ∀ n, size = some n → ∀ source, d.SizedBy source →
        n = d.sizeWith source (ws'.argOf? r source) := by
  have hmoves := Resolve.Moves.unlessCutShort
    ((h.law r).measureSize h.readValues (fun upTo => h.enumerate upTo false) d isLazy) ws hws hr
  refine ⟨hmoves.ends, hmoves.moves.1, fun size hsize n hn source hby => ?_⟩
  have hrun := resolver.runIn_measureSize_of_sizedBy ws r hby isLazy
  rw [hrun] at hsize ⊢
  cases hsize
  cases isLazy with
  | true => cases hn
  | false => exact (Option.some.inj hn).symm

theorem size (isLazy : Bool) : Resolve.Moves r (resolver.size r isLazy) := by
  intro ws hws hr
  refine ⟨(h.reliable.size hws.sound hr isLazy).weaken, ?_⟩
  unfold Resolver.size
  refine .ask ?_
  cases hd : ws.structOf? r with
  | none => exact .pure trivial
  | some d =>
    refine .ask (.ask ?_)
    cases (ws.layoutOf r).sizeFor? (ws.stampOf r d) with
    | some size => exact .pure trivial
    | none =>
      refine (h.measures hws hr d isLazy).call hws fun size ws₁ _ hg₁ _ hsize => ?_
      cases size with
      | none => exact .pure trivial
      | some size =>
        refine .rewrite (hg₁.isLive hr) ((hg₁.structOf? r).trans hd) ?_ (.pure trivial)
        rw [← hg₁.stampOf hr d]
        exact .size (hsize size rfl)

/-- **Each question about an instance moves.** -/
theorem answers (r : InstanceRef) : (h.law r).Answers :=
  ⟨h.enumerate, h.fieldOffset, h.elementCount, h.readValues, h.fieldPreview, h.size⟩

theorem createNext (reason : Reason) : Resolve.Moves r (resolver.createNext r reason) := by
  intro ws hws hr
  refine ⟨(h.reliable.createNext hws.sound hr reason).weaken, ?_⟩
  unfold Resolver.createNext
  refine (h.size false).call hws hr fun size ws₁ hws₁ _ _ => ?_
  cases size with
  | none => exact .pure trivial
  | some size =>
    dsimp only
    split
    · exact .pure trivial
    · refine .ask ?_
      cases ws₁.find? r.id with
      | none => exact .pure trivial
      | some i =>
        dsimp only
        split
        · exact .pure trivial
        · exact .place hws₁ fun _ _ _ _ _ => .pure trivial

/-! ## 3. Children -/

/-- **While its arguments are computed a new child has none.** Nothing is known about it either
then, unless one of them is taken from a field. -/
theorem awaits (hws : ws.Ordered) (hr : ws.IsLive r) {d : StructDef} (hd : ws.structOf? r = some d)
    {f : String × Field} (hf : f ∈ d.fields.entries) {id : InstanceId} {i : Instance}
    (hi : ws.find? id = some i) (htype : f.2.type = .struct i.struct)
    (hunknown : ws.layouts[id]? = none) :
    Proceeds ws (resolver.argValues r f.2.args) fun _ ws' =>
      ∃ i', ws'.find? id = some i' ∧ i'.args = i.args ∧ i'.version = i.version ∧
        (ws'.schema.BindsFields i'.struct ∨ ws'.layouts[id]? = none) := by
  have hmoves := (h.answers r).argValues f.2.args ws hws hr
  refine ⟨hmoves.ends, hmoves.moves.1, fun args hargs => ?_⟩
  by_cases hplain : f.2.PlainArgs d
  · obtain ⟨_, hrun⟩ := resolver.runIn_argValues_of_plain hd f.2.args hplain
    rw [hrun]
    exact ⟨i, hi, rfl, rfl, .inr hunknown⟩
  · -- Finding out about a field may lead to the child, and so to what is known about it. It may be
    -- placed once more there, but it is not new then, and only what is new gets arguments.
    have hkeeps := hmoves.moves.1.keeps
    obtain ⟨i', hi', hsame⟩ := hkeeps.instances id i hi
    refine ⟨i', hi', hsame.args, hsame.version, .inl ?_⟩
    rw [hsame.struct, hkeeps.schema]
    exact ⟨r.struct, d, f, hd, hf, htype, hplain⟩

/-- **A child that is placed** gets its arguments if it is new, so nothing that was there is
changed. -/
theorem placeChild (hws : ws.Ordered) (hr : ws.IsLive r) {f : String × Field}
    (hfield : ws.HasField r f) {struct : String} (htype : f.2.type = .struct struct)
    (reason : Reason) (offset : Int64)
    (budget : Budget) :
    Proceeds ws (resolver.placeChild r f.2 struct reason offset budget) fun child ws' =>
      ws'.IsLive child := by
  obtain ⟨d, hd, hf⟩ := hfield
  have hends := h.reliable.placeChild hws.sound hr f.2 struct reason offset budget
  have hmoved : ws.Moved
      ((resolver.placeChild r f.2 struct reason offset budget).runIn ws).2 := by
    obtain ⟨child, ws', hrun, _, hg, _⟩ := hends
    rw [hrun]
    unfold Resolver.placeChild at hrun
    rw [Resolve.runIn_bind, Resolve.runIn_update] at hrun
    obtain ⟨hs₁, hg₁, _⟩ :=
      hws.sound.place { Placement.single ⟨struct, r.file, offset⟩ reason with budget }
    have hmoved₁ := (hws.sound.move_place
      { Placement.single ⟨struct, r.file, offset⟩ reason with budget }).moved hg₁.toKeeps.within
    dsimp only at hrun
    split at hrun
    · rename_i hbinds
      obtain ⟨hi, hunknown⟩ := hws.sound.placed_new _ (Bool.and_eq_true_iff.mp hbinds).1
      have hawaits := h.awaits (hws.moved hs₁ hmoved₁) (hg₁.isLive hr) ((hg₁.structOf? r).trans hd)
        hf hi htype hunknown
      obtain ⟨args, ws₂, hargs, _⟩ := hawaits.ends
      obtain ⟨hmoved₂, hnew⟩ := hawaits.moves
      rw [hargs] at hmoved₂ hnew
      obtain ⟨i, hi, hnone, hversion, hbound⟩ := hnew args rfl
      rw [Resolve.runIn_bind, hargs] at hrun
      dsimp only at hrun
      rw [Resolve.runIn_bind, Resolve.runIn_change] at hrun
      cases hrun
      exact .tail (hmoved₁.trans hmoved₂) (.bind args hi hnone hversion hbound) hg.toKeeps.within
    · cases hrun
      exact hmoved₁
  obtain ⟨child, ws', hrun, hs, hg, hlive, _⟩ := hends
  refine ⟨⟨child, ws', hrun, hs, hg, trivial⟩, hmoved, fun a ha => ?_⟩
  rw [hrun] at ha ⊢
  cases ha
  exact hlive

end Resolver.Moves

/-! ## 4. Walks -/

/-- **Making moves is a law.** Instances found are live. -/
def Law.proceeds : Law Resolve InstanceRef Workspace where
  Holds ws step _ tells := ws.Ordered → Proceeds ws step fun a ws' => ws'.AllLive (tells a)
  Later := Workspace.Grows
  Found := Workspace.IsLive
  Asked _ := True
  stays := @Workspace.Grows.live
  pure hfound hws := .pure hws hfound
  bind h hn hws := (h hws).bind hws fun a _ hws₁ hg₁ ha => hn a _ hg₁ ha hws₁

namespace Resolver.Moves

variable {resolver : Resolver} (h : resolver.Moves) {r : InstanceRef} {ws : Workspace}

/-- **It is a law of walks.** Children that have been placed are live. -/
def walks (reason : Reason) : Law.proceeds.Walks resolver resolver reason where
  Has := Workspace.HasField
  Child := Workspace.IsLive
  found hc := hc
  childStays := @Workspace.Grows.live
  hasStays := Workspace.HasField.grows
  fields {_ r} _ := h.law r
  answers {_ r} _ := h.answers r
  asks hr _ _ _ hmoves hws := (hmoves _ hws hr).mono fun _ _ _ => .none
  has _ _ hfield := hfield.ofAny
  field _ _ hn hws := .ask (hn _ (fun _ hf => Workspace.hasField_of_fieldOf? hf) hws)
  createNext hc hn hws := ((h.createNext reason).proceeds hws hc
      (h.reliable.createNext hws.sound hc reason)).bind hws fun next _ hws₁ hg₁ hlive =>
    hn next _ hg₁ hlive hws₁
  placeChild offset budget hr hfield htype hn hws :=
    (h.placeChild hws hr hfield htype reason offset budget).bind hws fun child _ hws₁ hg₁ hlive =>
      hn child _ hg₁ hlive hws₁

include h

/-- A walk with a visitor that gathers no instances. -/
theorem walk {σ : Type} {visit : Visitor σ} (hv : ∀ s child, Resolve.Moves child (visit s child))
    (i : Nat) (upTo : Option Nat) (reason : Reason) (s : σ) :
    Resolve.Moves r (resolver.walk r i upTo reason visit s) := fun _ hws hr =>
  ((h.walks reason).walk_tellsNone visit visit
    (fun s hc hws => (hv s _ _ hws hc).mono fun _ _ _ => .none) hr i upTo s hws).weaken

theorem walk_addSize (i : Nat) :
    Resolve.Moves r (resolver.walk r i none .query resolver.addSize 0) := fun _ hws hr =>
  ((h.walks .query).walk_addSize hr i hws).weaken

theorem walk_idle (i n : Nat) : Resolve.Moves r (resolver.walk r i (some n) .query .idle ()) :=
  fun _ hws hr => ((h.walks .query).walk_idle hr i n hws).weaken

/-! ## 5. Total sizes -/

/-- **The number of elements that take up room** is the one that the entry tells, if no frame is
refused. -/
theorem occupiedCount (hws : ws.Ordered) (hr : ws.IsLive r) (hc : ws.Current r) {i : Nat}
    {f : String × Field} (hf : ws.fieldOf? r i = some f) {entry : FieldEntry}
    (he : ws.entryOf? r i = some entry) (size : Int64) :
    Proceeds ws (resolver.occupiedCount r i f.2 size) fun n ws' => ws'.refusals = ws.refusals →
      f.2.value = none → f.2.type.scalar?.isSome → ∃ e c, ws'.entryOf? r i = some e ∧
        e.count = some c ∧ (f.2.untilZero = true → f.2.Exhausted e) ∧
        n = f.2.occupied size c e.values := by
  obtain ⟨d, hd, _⟩ := Workspace.structOf?_of_fieldOf? hf
  refine ⟨(h.reliable.answers r).occupiedCount i f.2 size hws.sound hr, ?_⟩
  unfold Resolver.occupiedCount
  refine ((h.elementCount i false).proceeds hws hr
    (h.reliable.elementCount hr i false hws.sound)).call hws fun count ws₁ hws₁ hg₁ _ hcounted => ?_
  have hr₁ := hg₁.isLive hr
  have hc₁ := hg₁.current hr hc
  have hd₁ := (hg₁.structOf? r).trans hd
  obtain ⟨e₁, he₁, _⟩ := hg₁.entryOf? hr hc hd he
  have hcount (hquiet : ws₁.refusals = ws.refusals) :
      ∃ c, count = some c ∧ e₁.count = some c := by
    cases hn : count with
    | none =>
      have hno := hcounted.missing hn hquiet
      rw [he₁] at hno
      cases hno
    | some c =>
      obtain ⟨e, he, hc⟩ := hcounted.noted d c hd₁ hn
      rw [he₁] at he
      cases he
      exact ⟨c, rfl, hc⟩
  unfold Field.occupied
  dsimp only
  split
  · rename_i huntil
    refine (h.readsValues hws₁ hr₁ i .throughZero).call hws₁ fun _ ws₂ hws₂ hg₂ _ hall =>
        .ask (.pure ?_)
    intro hquiet hv hs
    have hle₁ := hg₁.refusals
    have hle₂ := hg₂.refusals
    obtain ⟨c, _, hc⟩ := hcount (by omega)
    obtain ⟨e₂, he₂, hgrow⟩ := hg₂.entryOf? hr₁ hc₁ hd₁ he₁
    have hf₂ : ws₂.fieldOf? r i = some f := by rw [hg₂.fieldOf?, hg₁.fieldOf?, hf]
    refine ⟨e₂, c, he₂, hgrow.count c hc, fun _ => ?_, ?_⟩
    · exact hall (by omega) rfl f e₂ hf₂ he₂ huntil hv hs
    · rw [he₂]
      rfl
  · rename_i huntil
    -- The count is known, and there is nothing more to read.
    split
    · refine .pure fun hquiet _ _ => ?_
      obtain ⟨c, rfl, hc⟩ := hcount hquiet
      exact ⟨e₁, c, he₁, hc, fun huntil' => absurd huntil' huntil, rfl⟩
    · refine .pure fun hquiet _ _ => ?_
      obtain ⟨c, rfl, hc⟩ := hcount hquiet
      exact ⟨e₁, c, he₁, hc, fun huntil' => absurd huntil' huntil, rfl⟩

/-- **The room that a field of a scalar type takes** is what its entry tells. -/
theorem measureField (hws : ws.Ordered) (hr : ws.IsLive r) (hc : ws.Current r) {i : Nat}
    {f : String × Field} (hf : ws.fieldOf? r i = some f) {entry : FieldEntry}
    (he : ws.entryOf? r i = some entry) :
    Proceeds ws (resolver.measureField r i f.2 (ws.schema.fixedSize? f.2.type)) fun total ws' =>
      ws'.refusals = ws.refusals → ∀ t, f.2.value = none → f.2.type = .scalar t →
        ∃ e, ws'.entryOf? r i = some e ∧ e.Occupies f.2 t total := by
  refine ⟨(h.reliable.answers r).measureField (h.reliable.walk_addSize i) f.2 _ hws.sound hr, ?_⟩
  unfold Resolver.measureField
  split
  · rename_i hsome
    refine .pure fun _ t hv _ => ?_
    rw [hv] at hsome
    cases hsome
  · cases hfixed : ws.schema.fixedSize? f.2.type with
    | some size =>
      refine (h.occupiedCount hws hr hc hf he size).call hws fun n ws₁ _ _ _ hn => .pure ?_
      intro hquiet t hv ht
      obtain ⟨e, c, he₁, hc, hall, rfl⟩ := hn hquiet hv (by rw [ht]; rfl)
      rw [ht] at hfixed
      cases hfixed
      exact ⟨e, he₁, c, hc, hall, rfl⟩
    | none =>
      refine Resolve.Moves.call (h.walk_addSize i) hws hr fun _ _ _ _ _ =>
        .pure fun _ t _ ht => ?_
      rw [ht] at hfixed
      cases hfixed

/-- **A total size is noted** as the entry tells it. -/
theorem totalSize (i : Nat) (isLazy : Bool) :
    Resolve.Moves r (resolver.totalSize r i isLazy) := by
  intro ws hws hr
  refine ⟨(h.reliable.totalSize hws.sound hr i isLazy).weaken, ?_⟩
  unfold Resolver.totalSize
  refine (h.enumerates hws hr _ isLazy).call hws fun _ ws₁ hws₁ hg₁ _ hc₁ => .ask ?_
  have hr₁ := hg₁.isLive hr
  cases he : ws₁.entryOf? r i with
  | none => exact .pure trivial
  | some entry =>
    dsimp only
    split
    · exact .pure trivial
    · refine .ask ?_
      cases hf : ws₁.fieldOf? r i with
      | none => exact .pure trivial
      | some f =>
        refine .ask ?_
        split
        · exact .pure trivial
        · have hmeasure := h.measureField hws₁ hr₁ hc₁ hf he
          have htotal : Proceeds ws₁
              (some <$> resolver.measureField r i f.2 (ws₁.schema.fixedSize? f.2.type))
              fun a ws' => ∀ total, a = some total → ws'.refusals = ws₁.refusals →
                ∀ t, f.2.value = none → f.2.type = .scalar t →
                  ∃ e, ws'.entryOf? r i = some e ∧ e.Occupies f.2 t total :=
            .map ⟨hmeasure.ends, hmeasure.moves.mono fun total ws' hn => by
              rintro _ ⟨⟩
              exact hn⟩
          refine htotal.unlessCutShort.call hws₁ fun total ws₂ hws₂ hg₂ _ hcut => ?_
          cases total with
          | none => exact .pure trivial
          | some total =>
            rcases hcut with ⟨hquiet, hn⟩ | ⟨_, hno⟩
            · refine .note hws₂.sound (hg₂.isLive hr₁) (hg₂.current hr₁ hc₁)
                (fun d f' e hd hf' he₂ => .total fun t hv ht => ?_) (.pure trivial)
              rw [hg₂.structOf?] at hd
              rw [Workspace.fieldOf?_eq hd, hf'] at hf
              cases hf
              obtain ⟨e', he', hoccupies⟩ := hn total rfl hquiet t hv ht
              rw [he₂] at he'
              cases he'
              exact hoccupies
            · cases hno

end Resolver.Moves

end ByteAtlas
