import ByteAtlas.Proofs.Flat.Reference
import ByteAtlas.Proofs.Resolve.Known
import ByteAtlas.Proofs.Resolve.Through

/-!
# Steps that place nothing

Asking for a field of an instance may place other instances: a query finds children by placing them,
the offset of a child that is not the first is found on a walk, and a packed struct measures its
children to lay out what comes after them. In a self-contained definition
(`StructDef.SelfContained`) no expression does any of this. There are then only the layouts to
measure, and these are not measured lazily, nor a second time.

So a step of such an instance places nothing as long as it keeps to the fields that can be laid out
without measuring (`Workspace.Opens`), and it leaves what has been laid out (`Workspace.Still`).
-/

namespace ByteAtlas

/-! ## 1. Self-contained definitions -/

/-- Whether the offset of a numbered child is asked for. -/
def Expr.asksChild (d : StructDef) : Expr → Bool
  | .constant _ => false
  | .unary _ a => a.asksChild d
  | .binary _ a b => a.asksChild d || b.asksChild d
  | .rawRead _ a => a.asksChild d
  | .member _ name i isOffset =>
    match i with
    | some e =>
      e.asksChild d || isOffset && ((d.fieldIndex? name).bind d.field?).any fun f =>
        f.2.value.isNone && f.2.type.structName?.isSome
    | none => false
  | .structOffset _ => false
  | .previewTest .. => false
  | .instanceId _ => false
  | .error => false

/-- Whether the expressions of a field keep to the instance. In a packed struct those that place the
field or give its value keep to the fields before it. -/
def StructDef.SelfContainedAt (d : StructDef) (field : String × Field) (i : Nat) : Prop :=
  (∀ formula ∈ field.2.placingFormulas ++ field.2.condition.toList,
    formula.expr.hasQuery = false ∧ formula.expr.asksChild d = false) ∧
  (d.isPacked = true → ∀ formula ∈ field.2.placingFormulas, ∀ name ∈ formula.expr.names,
    (d.fieldIndex? name).all (· < i) = true)

instance (d : StructDef) (field : String × Field) (i : Nat) :
    Decidable (d.SelfContainedAt field i) :=
  inferInstanceAs (Decidable (_ ∧ _))

/-- **Self-contained definitions**: no expression has a query or asks for a numbered child, and in a
packed struct no field is placed by one that comes later. -/
def StructDef.SelfContained (d : StructDef) : Prop :=
  ∀ p ∈ d.fields.entries.zipIdx, d.SelfContainedAt p.1 p.2

instance (d : StructDef) : Decidable d.SelfContained :=
  inferInstanceAs (Decidable (∀ p ∈ d.fields.entries.zipIdx, d.SelfContainedAt p.1 p.2))

theorem StructDef.SelfContained.at {d : StructDef} (h : d.SelfContained) {i : Nat}
    {f : String × Field} (hf : d.field? i = some f) : d.SelfContainedAt f i :=
  h (f, i) (List.mem_zipIdx_iff_getElem?.mpr hf)

/-! ## 2. What stays -/

namespace Workspace

/-- Whether the struct of an instance has a self-contained definition, if any. -/
def Contained (ws : Workspace) (r : InstanceRef) : Prop :=
  ∀ d, ws.structOf? r = some d → d.SelfContained

/-- **Whether the first fields of an instance can be laid out without measuring**: fields do not
follow each other, or these are laid out, or the layout goes no further for now. -/
def Opens (ws : Workspace) (r : InstanceRef) (upTo : Nat) : Prop :=
  ∀ d, ws.structOf? r = some d → d.isPacked = false ∨
    (ws.layoutOf r).stamp = some (ws.stampOf r d) ∧
      (upTo ≤ (ws.layoutOf r).entries.size ∨ (ws.layoutOf r).measuring.isSome)

/-- Two workspaces with the same definitions and the same instances. -/
structure SamePlaces (ws ws' : Workspace) : Prop where
  schema : ws'.schema = ws.schema
  directory : ws'.directory = ws.directory

/-- A layout up to date, with so many fields at least. -/
structure Laid (ws : Workspace) (r : InstanceRef) (measuring : Option Nat) (fields : Nat) :
    Prop where
  current : ws.Current r
  measuring : (ws.layoutOf r).measuring = measuring
  fields : fields ≤ (ws.layoutOf r).entries.size

/-- **What a step that keeps to the instance leaves as it is.** -/
structure Still (r : InstanceRef) (ws ws' : Workspace) : Prop extends SamePlaces ws ws' where
  layout : ∀ {measuring fields}, ws.Laid r measuring fields → ws'.Laid r measuring fields

variable {r : InstanceRef} {ws ws' ws'' : Workspace}

namespace SamePlaces

theorem refl (ws : Workspace) : ws.SamePlaces ws := ⟨rfl, rfl⟩

theorem trans (h : ws.SamePlaces ws') (h' : ws'.SamePlaces ws'') : ws.SamePlaces ws'' :=
  ⟨h'.schema.trans h.schema, h'.directory.trans h.directory⟩

theorem structOf? (h : ws.SamePlaces ws') (r : InstanceRef) :
    ws'.structOf? r = ws.structOf? r := by
  rw [Workspace.structOf?, h.schema, Workspace.structOf?]

theorem fieldOf? (h : ws.SamePlaces ws') (r : InstanceRef) (i : Nat) :
    ws'.fieldOf? r i = ws.fieldOf? r i := by
  rw [Workspace.fieldOf?, h.structOf?, Workspace.fieldOf?]

theorem contained (h : ws.SamePlaces ws') (hc : ws.Contained r) : ws'.Contained r := by
  intro d hd
  rw [h.structOf?] at hd
  exact hc d hd

end SamePlaces

namespace Still

theorem refl (r : InstanceRef) (ws : Workspace) : ws.Still r ws := ⟨.refl ws, fun h => h⟩

theorem trans (h : ws.Still r ws') (h' : ws'.Still r ws'') : ws.Still r ws'' :=
  ⟨h.toSamePlaces.trans h'.toSamePlaces, fun hl => h'.layout (h.layout hl)⟩

/-- What could be laid out still can. -/
theorem opens (h : ws.Still r ws') {upTo : Nat} (ho : ws.Opens r upTo) : ws'.Opens r upTo := by
  intro d hd
  rw [h.structOf?] at hd
  refine (ho d hd).imp_right fun hlaid => ?_
  have hcurrent : ws.Current r := fun d' hd' => by
    cases hd.symm.trans hd'
    exact hlaid.1
  have hkept := h.layout ⟨hcurrent, rfl, Nat.le_refl _⟩
  refine ⟨hkept.current d ((h.structOf? r).trans hd),
    hlaid.2.imp (Nat.le_trans · hkept.fields) fun hm => ?_⟩
  rw [hkept.measuring]
  exact hm

theorem current (h : ws.Still r ws') (hc : ws.Current r) : ws'.Current r :=
  (h.layout ⟨hc, rfl, Nat.le_refl _⟩).current

end Still

theorem Opens.mono {upTo upTo' : Nat} (h : ws.Opens r upTo) (hle : upTo' ≤ upTo) :
    ws.Opens r upTo' :=
  fun d hd => (h d hd).imp_right fun hlaid => ⟨hlaid.1, hlaid.2.imp_left (Nat.le_trans hle)⟩

/-- A field with an entry that is up to date has been laid out. -/
theorem Current.opens (hc : ws.Current r) {i : Nat} {e : FieldEntry}
    (he : ws.entryOf? r i = some e) : ws.Opens r (i + 1) :=
  fun d hd => .inr ⟨hc d hd, .inl (Array.getElem?_eq_some_iff.mp he).1⟩

theorem samePlaces_modifyLayout (ws : Workspace) (r : InstanceRef) (f : Layout → Layout) :
    ws.SamePlaces (ws.modifyLayout r f) := ⟨rfl, rfl⟩

/-- A layout that is changed. -/
theorem Laid.modifyLayout {f : Layout → Layout} {measuring measuring' : Option Nat}
    {fields fields' : Nat} (h : ws.Laid r measuring fields)
    (hstamp : ∀ l, (f l).stamp = l.stamp)
    (hmeasuring : (ws.layoutOf r).measuring = measuring →
      (f (ws.layoutOf r)).measuring = measuring')
    (hfields : fields ≤ (ws.layoutOf r).entries.size →
      fields' ≤ (f (ws.layoutOf r)).entries.size) :
    (ws.modifyLayout r f).Laid r measuring' fields' := by
  have hset := ws.sets_modifyLayout r f
  refine ⟨fun d hd => ?_, ?_, ?_⟩
  · rw [hset.layoutOf, hstamp]
    exact h.current d hd
  · rw [hset.layoutOf]
    exact hmeasuring h.measuring
  · rw [hset.layoutOf]
    exact hfields h.fields

/-- Where no field is being laid out, it is enough that as many are laid out as before. -/
theorem Still.of_laid {fields : Nat} (hsame : ws.SamePlaces ws') (h : ws.Laid r none fields)
    (h' : ws'.Laid r none (ws.layoutOf r).entries.size) : ws.Still r ws' := by
  refine ⟨hsame, fun hl => ⟨h'.current, ?_, Nat.le_trans hl.fields h'.fields⟩⟩
  rw [h'.measuring, ← hl.measuring, h.measuring]

end Workspace

/-! ## 3. Steps -/

namespace Resolve

variable {α β : Type} {r : InstanceRef} {ws : Workspace}

/-- Whether a step places nothing, and `post` holds of its result. -/
def PlacesNone (ws : Workspace) (step : Resolve α) (post : α → Workspace → Prop) : Prop :=
  Through ws.SamePlaces ws step post

/-- **Whether a step keeps to an instance**: it places nothing, what has been laid out stays, and
`post` holds of its result. -/
def KeepsTo (r : InstanceRef) (ws : Workspace) (step : Resolve α) (post : α → Workspace → Prop) :
    Prop :=
  PlacesNone ws step fun a ws' => ws.Still r ws' ∧ post a ws'

namespace PlacesNone

variable {step : Resolve α} {next : α → Resolve β} {post mid : α → Workspace → Prop}
  {last : β → Workspace → Prop}

theorem pure {a : α} (h : post a ws) : PlacesNone ws (Pure.pure a) post :=
  Through.pure (.refl ws) h

theorem mono (h : PlacesNone ws step mid)
    (hp : ∀ a ws', ws.SamePlaces ws' → mid a ws' → post a ws') : PlacesNone ws step post :=
  Through.mono h (fun _ hsame => hsame) hp

theorem bind (h : PlacesNone ws step mid)
    (hn : ∀ a ws₁, ws.SamePlaces ws₁ → mid a ws₁ → PlacesNone ws₁ (next a) last) :
    PlacesNone ws (step >>= next) last :=
  Through.bind h (fun _ hsame => hsame) fun a ws₁ hsame ha =>
    Through.mono (hn a ws₁ hsame ha) (fun _ => hsame.trans) fun _ _ _ hlast => hlast

theorem ask {f : Workspace → α} (h : PlacesNone ws (next (f ws)) last) :
    PlacesNone ws (Resolve.ask f >>= next) last :=
  Through.ask h

theorem modifyLayout {f : Layout → Layout} {kept : Workspace → Prop}
    (h : kept (ws.modifyLayout r f)) :
    PlacesNone ws (ByteAtlas.modifyLayout r f) fun _ => kept :=
  ⟨ws.samePlaces_modifyLayout r f, fun _ _ => h⟩

end PlacesNone

namespace KeepsTo

variable {step : Resolve α} {next : α → Resolve β} {post mid : α → Workspace → Prop}
  {last : β → Workspace → Prop}

theorem pure {a : α} (h : post a ws) : KeepsTo r ws (Pure.pure a) post :=
  PlacesNone.pure ⟨.refl r ws, h⟩

theorem done {a : α} : KeepsTo r ws (Pure.pure a) fun _ _ => True := .pure trivial

theorem throw (fault : Fault) : KeepsTo r ws (MonadExcept.throw fault : Resolve α) post :=
  ⟨.refl ws, fun _ ha => nomatch ha⟩

theorem mono (h : KeepsTo r ws step mid) (hp : ∀ a ws', ws.Still r ws' → mid a ws' → post a ws') :
    KeepsTo r ws step post :=
  PlacesNone.mono h fun a ws' _ hmid => ⟨hmid.1, hp a ws' hmid.1 hmid.2⟩

theorem weaken (h : KeepsTo r ws step mid) : KeepsTo r ws step fun _ _ => True :=
  h.mono fun _ _ _ _ => trivial

/-- **One step after another.** -/
theorem bind (h : KeepsTo r ws step mid)
    (hn : ∀ a ws₁, ws.Still r ws₁ → mid a ws₁ → KeepsTo r ws₁ (next a) last) :
    KeepsTo r ws (step >>= next) last :=
  PlacesNone.bind h fun a ws₁ _ hmid => PlacesNone.mono (hn a ws₁ hmid.1 hmid.2)
    fun _ _ _ hlast => ⟨hmid.1.trans hlast.1, hlast.2⟩

theorem ask {f : Workspace → α} (h : KeepsTo r ws (next (f ws)) last) :
    KeepsTo r ws (Resolve.ask f >>= next) last :=
  PlacesNone.ask h

theorem get {next : Workspace → Resolve β} (h : KeepsTo r ws (next ws) last) :
    KeepsTo r ws (MonadState.get >>= next) last :=
  ask (f := id) h

theorem map {f : α → β} (h : KeepsTo r ws step fun a ws' => last (f a) ws') :
    KeepsTo r ws (f <$> step) last := by
  rw [map_eq_pure_bind]
  exact h.bind fun _ _ _ hlast => .pure hlast

theorem ite {c : Prop} [Decidable c] {other : Resolve α} (h : c → KeepsTo r ws step post)
    (h' : ¬ c → KeepsTo r ws other post) : KeepsTo r ws (if c then step else other) post := by
  split
  · exact h ‹_›
  · exact h' ‹_›

/-- A change of what is counted. -/
theorem count (depth refusals limitHits : Workspace → Nat) : KeepsTo r ws (Resolve.change fun ws =>
    { ws with depth := depth ws, refusals := refusals ws, limitHits := limitHits ws })
    fun _ _ => True :=
  ⟨⟨rfl, rfl⟩, fun _ _ => ⟨⟨⟨rfl, rfl⟩, fun hl => ⟨hl.current, hl.measuring, hl.fields⟩⟩, trivial⟩⟩

theorem noteLimitHit : KeepsTo r ws ByteAtlas.noteLimitHit fun _ _ => True :=
  count Workspace.depth Workspace.refusals fun ws => ws.limitHits + 1

theorem refuseFrame : KeepsTo r ws ByteAtlas.refuseFrame fun _ _ => True :=
  count Workspace.depth (fun ws => ws.refusals + 1) fun ws => ws.limitHits + 1

/-- A change of the layout that drops no field. -/
theorem modifyLayout {f : Layout → Layout} (hstamp : ∀ l, (f l).stamp = l.stamp)
    (hmeasuring : ∀ l, (f l).measuring = l.measuring)
    (hfields : ∀ l, l.entries.size ≤ (f l).entries.size) :
    KeepsTo r ws (ByteAtlas.modifyLayout r f) fun _ _ => True :=
  ⟨ws.samePlaces_modifyLayout r f, fun _ _ => ⟨⟨ws.samePlaces_modifyLayout r f, fun hl =>
    hl.modifyLayout hstamp (hmeasuring _).trans fun hle => Nat.le_trans hle (hfields _)⟩, trivial⟩⟩

theorem modifyEntry (i : Nat) (f : FieldEntry → FieldEntry) :
    KeepsTo r ws (ByteAtlas.modifyEntry r i f) fun _ _ => True :=
  modifyLayout (fun _ => rfl) (fun _ => rfl) fun _ => Nat.le_of_eq Array.size_modify.symm

theorem unlessCutShort {step : Resolve (Option α)} (h : KeepsTo r ws step fun _ _ => True) :
    KeepsTo r ws (ByteAtlas.unlessCutShort step) fun _ _ => True :=
  .ask (h.bind fun _ _ _ _ => .ask .done)

/-- One frame further in. -/
theorem inFrame (h : ∀ ws', ws.Still r ws' → KeepsTo r ws' step fun _ _ => True) :
    KeepsTo r ws (ByteAtlas.inFrame step) fun _ _ => True :=
  .ask <| .ite (fun _ =>
    (count (fun ws => ws.depth + 1) Workspace.refusals Workspace.limitHits).bind fun _ ws' hs _ =>
      (h ws' hs).bind fun _ _ _ _ =>
        (count (fun ws => ws.depth - 1) Workspace.refusals Workspace.limitHits).bind
          fun _ _ _ _ => .done)
    fun _ => refuseFrame.bind fun _ _ _ _ => .done

/-- Checking the stamp: afterwards the layout is up to date, or there is no definition. -/
theorem validateLayout {d : StructDef} (hd : ws.structOf? r = some d) :
    KeepsTo r ws (ByteAtlas.validateLayout r d) fun _ ws' => ws'.Current r ∧
      ((ws.layoutOf r).stamp = some (ws.stampOf r d) → ws'.layoutOf r = ws.layoutOf r) := by
  have hset := ws.sets_modifyLayout r fun l => l.validated (ws.stampOf r d) r.offset
  have hrun : (ByteAtlas.validateLayout r d).runIn ws =
      (.ok (), ws.modifyLayout r fun l => l.validated (ws.stampOf r d) r.offset) := rfl
  have hplaces := ws.samePlaces_modifyLayout r fun l => l.validated (ws.stampOf r d) r.offset
  have hsame (hstamp : (ws.layoutOf r).stamp = some (ws.stampOf r d)) :
      (ws.modifyLayout r fun l => l.validated (ws.stampOf r d) r.offset).layoutOf r =
        ws.layoutOf r := by
    rw [hset.layoutOf, Layout.validated, if_pos hstamp]
  have hcurrent :
      (ws.modifyLayout r fun l => l.validated (ws.stampOf r d) r.offset).Current r := by
    intro d' hd'
    cases hd.symm.trans hd'
    rw [hset.layoutOf]
    unfold Layout.validated
    split
    · assumption
    · rfl
  unfold KeepsTo PlacesNone Through
  rw [hrun]
  refine ⟨hplaces, fun _ _ => ⟨⟨hplaces, fun hl => ?_⟩, hcurrent, hsame⟩⟩
  have hkept := hsame (hl.current d hd)
  refine ⟨hcurrent, (congrArg Layout.measuring hkept).trans hl.measuring, ?_⟩
  rw [hkept]
  exact hl.fields

end KeepsTo

end Resolve

/-! ## 4. Resolvers -/

/-- **Whether an expression keeps to an instance**: it has no queries, asks for no numbered child,
and the fields that it names can be laid out without measuring. -/
def Expr.KeepsTo (e : Expr) (r : InstanceRef) (ws : Workspace) : Prop :=
  e.hasQuery = false ∧ ∀ d, ws.structOf? r = some d → e.asksChild d = false ∧
    ∀ name ∈ e.names, ∀ i, d.fieldIndex? name = some i → ws.Opens r (i + 1)

/-- **Whether the steps of a resolver that take a frame keep to an instance**, where they have no
need to measure. -/
structure Resolver.KeepsTo (resolver : Resolver) (r : InstanceRef) : Prop where
  layOut : ∀ {ws : Workspace} {d : StructDef} {upTo : Nat} {isLazy : Bool},
    ws.structOf? r = some d → d.SelfContained → ws.Laid r none 0 →
    isLazy = true ∨ d.isPacked = false →
    Resolve.KeepsTo r ws (resolver.layOut r d upTo isLazy) fun _ _ => True
  evaluate : ∀ {ws : Workspace} {scope : Scope} {e : Expr}, scope.root = r → ws.Contained r →
    e.KeepsTo r ws → Resolve.KeepsTo r ws (resolver.evaluate scope e) fun _ _ => True

end ByteAtlas
