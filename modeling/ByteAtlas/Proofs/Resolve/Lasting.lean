import Mathlib
import ByteAtlas.Proofs.Resolve.History
import ByteAtlas.Proofs.Resolve.Known

/-!
# What an instance has told lasts

The stamp of a layout names the versions of the instance and of its own definition. Whatever happens
to other definitions, and to other instances, leaves it up to date (`Workspace.Elsewhere`). So what
has been told of the instance is told again, also where it was measured in children whose
definition has another size by now (`Workspace.Reached.told_again`).
-/

namespace ByteAtlas

namespace Workspace

/-! ## 1. Histories elsewhere -/

/-- **The workspaces that a history leads to which leaves an instance and its definition alone.**
Everything may be asked, also of this instance, and everything else may be edited. -/
inductive Elsewhere (r : InstanceRef) (start : Workspace) : Workspace → Prop where
  | refl : Elsewhere r start start
  | request {ws : Workspace} {α : Type} {step : Resolve α} :
    Elsewhere r start ws → Request step → Elsewhere r start (step.runIn ws).2
  | addSource {ws : Workspace} (s : Source) :
    Elsewhere r start ws → Elsewhere r start (ws.addSource s).2
  | openFile {ws : Workspace} (disk : Disk) (path : String) :
    Elsewhere r start ws → Elsewhere r start (ws.openFile disk path).2
  | setLimits {ws : Workspace} {limits : Limits} :
    Elsewhere r start ws → 0 ≤ limits.maxElements → Elsewhere r start (ws.setLimits limits)
  | delete {ws : Workspace} {id : InstanceId} :
    Elsewhere r start ws → id ≠ r.id → Elsewhere r start (ws.delete id).2
  | deleteAuto {ws : Workspace} :
    Elsewhere r start ws → ws.deleteAuto.2.IsLive r → Elsewhere r start ws.deleteAuto.2
  | setReason {ws : Workspace} (id : InstanceId) (reason : Reason) :
    Elsewhere r start ws → Elsewhere r start (ws.modify id (.setReason reason))
  | edit {ws : Workspace} {id : InstanceId} {f : Instance → Instance} :
    Elsewhere r start ws → id ≠ r.id → Instance.Edit f → Elsewhere r start (ws.modify id f)
  | schema {ws : Workspace} {k : Nat} {schema : Schema} :
    Elsewhere r start ws → ws.schema.Change k schema →
    schema.get? r.struct = ws.schema.get? r.struct → Elsewhere r start { ws with schema }

variable {r : InstanceRef} {start ws ws' : Workspace} {n : Nat} {edited : Bool}

theorem Elsewhere.reached (h : start.Elsewhere r ws) (hstart : start.Reached n edited) :
    ∃ n edited, ws.Reached n edited := by
  induction h with
  | refl => exact ⟨n, edited, hstart⟩
  | request _ hrequest ih => obtain ⟨_, _, h⟩ := ih; exact ⟨_, _, h.request hrequest⟩
  | addSource s _ ih => obtain ⟨_, _, h⟩ := ih; exact ⟨_, _, h.addSource s⟩
  | openFile disk path _ ih => obtain ⟨_, _, h⟩ := ih; exact ⟨_, _, h.openFile disk path⟩
  | setLimits _ hlimit ih => obtain ⟨_, _, h⟩ := ih; exact ⟨_, _, h.setLimits hlimit⟩
  | delete _ _ ih => obtain ⟨_, _, h⟩ := ih; exact ⟨_, _, h.delete _⟩
  | deleteAuto _ _ ih => obtain ⟨_, _, h⟩ := ih; exact ⟨_, _, h.deleteAuto⟩
  | setReason id reason _ ih => obtain ⟨_, _, h⟩ := ih; exact ⟨_, _, h.setReason id reason⟩
  | edit _ _ hf ih => obtain ⟨_, _, h⟩ := ih; exact ⟨_, _, h.edit _ hf⟩
  | schema _ hchange _ ih => obtain ⟨_, _, h⟩ := ih; exact ⟨_, _, h.schema hchange⟩

/-! ## 2. What lasts -/

/-- **Whether an instance is still there, under the same stamp**, and what was known of it is still
known. -/
structure Lasts (r : InstanceRef) (ws ws' : Workspace) : Prop where
  live : ws'.IsLive r
  structOf? : ws'.structOf? r = ws.structOf? r
  version : ws'.versionOf r = ws.versionOf r
  layout : Layout.Grows (ws.stampNow? r) (ws.structOf? r) (ws.layoutOf r) (ws'.layoutOf r)

namespace Lasts

theorem refl (hr : ws.IsLive r) : ws.Lasts r ws := ⟨hr, rfl, rfl, .refl _ _ _⟩

/-- Nothing happens to the instance. -/
theorem of_same (hr : ws'.IsLive r) (hstruct : ws'.structOf? r = ws.structOf? r)
    (hversion : ws'.versionOf r = ws.versionOf r) (hlayout : ws'.layoutOf r = ws.layoutOf r) :
    ws.Lasts r ws' :=
  ⟨hr, hstruct, hversion, hlayout ▸ .refl _ _ _⟩

theorem of_grows (hr : ws.IsLive r) (hg : ws.Grows ws') : ws.Lasts r ws' :=
  ⟨hg.isLive hr, hg.structOf? r, hg.versionOf hr, hg.layouts r hr⟩

theorem of_shrinks (hr : ws'.IsLive r) (hg : ws.Shrinks ws') : ws.Lasts r ws' := by
  refine .of_same hr (hg.structOf? r) ?_ (hg.layoutOf hr)
  obtain ⟨i, hi, _⟩ := hr
  rw [versionOf, hi, versionOf, hg.instances r.id i hi]

theorem stampOf (h : ws.Lasts r ws') (d : StructDef) : ws'.stampOf r d = ws.stampOf r d := by
  rw [Workspace.stampOf, h.version]
  rfl

theorem stampNow? (h : ws.Lasts r ws') : ws'.stampNow? r = ws.stampNow? r := by
  rw [Workspace.stampNow?, h.structOf?, Workspace.stampNow?]
  exact congrArg (Option.map · _) (funext h.stampOf)

theorem trans {a b c : Workspace} (hab : a.Lasts r b) (hbc : b.Lasts r c) : a.Lasts r c where
  live := hbc.live
  structOf? := hbc.structOf?.trans hab.structOf?
  version := hbc.version.trans hab.version
  layout := by
    have hgrow := hbc.layout
    rw [hab.stampNow?, hab.structOf?] at hgrow
    exact hab.layout.trans hgrow

/-- **What is known of a field lasts.** -/
theorem knowsField (h : ws.Lasts r ws') {i : Nat} {f : String × Field} {e : FieldEntry}
    (hknows : ws.KnowsField r i f e) :
    ∃ e', ws'.KnowsField r i f e' ∧ FieldEntry.Grows (some f.2) e e' := by
  obtain ⟨d, hd, _⟩ := structOf?_of_fieldOf? hknows.field
  have hnow : ws.stampNow? r = some (ws.stampOf r d) := by
    rw [Workspace.stampNow?, hd]
    rfl
  obtain ⟨hstamp, hentries⟩ := h.layout.kept _ hnow (hknows.current d hd)
  obtain ⟨e', he', hgrow⟩ := hentries i e hknows.entry
  rw [fieldIn_structOf?, hknows.field] at hgrow
  refine ⟨e', .of_entry ?_ (fun d' hd' => ?_) he', hgrow⟩
  · rw [fieldOf?, h.structOf?]
    exact hknows.field
  · rw [h.structOf?, hd] at hd'
    cases hd'
    rw [h.stampOf, hstamp]

end Lasts

/-- **What is known of an instance lasts** through whatever happens elsewhere. -/
theorem Elsewhere.lasts (h : start.Elsewhere r ws) (hstart : start.Reached n edited)
    (hr : start.IsLive r) : start.Lasts r ws := by
  induction h with
  | refl => exact .refl hr
  | request hws hrequest ih =>
    obtain ⟨_, _, hreached⟩ := hws.reached hstart
    obtain ⟨_, ws', hrun, _, hg, _⟩ := hrequest.ends hreached.atRest.sound
    rw [hrun]
    exact ih.trans (.of_grows ih.live hg)
  | addSource s _ ih => exact ih.trans (.of_same ih.live rfl rfl rfl)
  | openFile disk path _ ih =>
    unfold Workspace.openFile
    split
    · exact ih
    · split
      · exact ih
      · exact ih.trans (.of_same ih.live rfl rfl rfl)
  | setLimits _ _ ih => exact ih.trans (.of_same ih.live rfl rfl rfl)
  | delete hws hne ih =>
    obtain ⟨_, _, hreached⟩ := hws.reached hstart
    refine ih.trans (.of_shrinks ?_ (hreached.atRest.sound.delete _))
    obtain ⟨i, hi, hir⟩ := ih.live
    refine ⟨i, ?_, hir⟩
    rw [show (Workspace.delete _ _).2.find? r.id = _ from Directory.find?_delete _ _ _, if_neg hne]
    exact hi
  | deleteAuto hws hlive _ =>
    obtain ⟨_, _, hreached⟩ := hws.reached hstart
    exact Lasts.trans ‹_› (.of_shrinks hlive hreached.atRest.sound.deleteAuto)
  | setReason id reason _ ih =>
    have hf := keepsVersion_setReason reason
    exact ih.trans (.of_same ((isLive_modify hf.toKeepsPlace id).mpr ih.live) rfl
      (versionOf_modify hf id) rfl)
  | edit _ hne hf ih =>
    refine ih.trans (.of_same ((isLive_modify hf.keepsPlace _).mpr ih.live) rfl ?_ rfl)
    rw [versionOf, find?_modify, if_neg hne]
    rfl
  | schema _ _ hsame ih => exact ih.trans (.of_same ih.live hsame rfl rfl)

/-! ## 3. What is told again -/

/-- **What has been told of an instance is told again**, after any history, and after anything that
happens elsewhere since: the room that a field takes up, where it starts, and the size of the
instance. So no edit of another definition reaches them. -/
theorem Reached.told_again (h : start.Reached n edited) (hr : start.IsLive r)
    {i : Nat} {f : String × Field} (hf : start.fieldOf? r i = some f) :
    (∀ total told, (r.totalSize i false).runIn start = (.ok (some total), told) →
      ∀ ws, told.Elsewhere r ws → ∀ isLazy, ∃ ws',
        (r.totalSize i isLazy).runIn ws = (.ok (some total), ws')) ∧
    (∀ offset told, (r.fieldOffset i false).runIn start = (.ok (some offset), told) →
      ∀ ws, told.Elsewhere r ws → ∀ isLazy, ∃ ws',
        (r.fieldOffset i isLazy).runIn ws = (.ok (some offset), ws')) ∧
    (∀ size told, (r.size false).runIn start = (.ok (some size), told) →
      ∀ ws, told.Elsewhere r ws → ∀ isLazy, (r.size isLazy).runIn ws = (.ok (some size), ws)) := by
  obtain ⟨d, hd, _⟩ := structOf?_of_fieldOf? hf
  have hs := h.atRest.sound
  -- What was told has been noted in a workspace from which on it lasts.
  have hlasts {α : Type} {question : InstanceRef → Resolve α} (hq : Question question) {a : α}
      {told : Workspace} (hrun : (question r).runIn start = (.ok a, told)) :
      told.structOf? r = some d ∧ told.fieldOf? r i = some f ∧
        ∀ ws, told.Elsewhere r ws → told.Lasts r ws := by
    obtain ⟨_, hg, _⟩ := (hq.ends hs hr).of_run hrun
    have hreached := h.question hr hq
    rw [hrun] at hreached
    exact ⟨(hg.structOf? r).trans hd, (hg.fieldOf? r i).trans hf,
      fun ws hws => hws.lasts hreached (hg.isLive hr)⟩
  refine ⟨fun total told hrun ws hws isLazy => ?_, fun offset told hrun ws hws isLazy => ?_,
    fun size told hrun ws hws isLazy => ?_⟩
  · obtain ⟨hstruct, hfield, hlast⟩ := hlasts (.totalSize i false) hrun
    obtain ⟨_, _, ⟨hc, _⟩, hnoted, _⟩ :=
      (Resolve.ends_resolving fun _ hr' => hr'.totalSize hs hr i false).of_run hrun
    obtain ⟨e, he, htotal⟩ := hnoted d total hstruct rfl
    obtain ⟨e', hknows, hgrow⟩ := (hlast ws hws).knowsField (.of_entry hfield hc he)
    obtain ⟨ws', hrun', _⟩ :=
      Resolver.runIn_totalSize (.within _) hknows (hgrow.totalSize total htotal) isLazy
    exact ⟨ws', (Resolve.runIn_resolving _ rfl).trans hrun'⟩
  · obtain ⟨_, hfield, hlast⟩ := hlasts (.fieldOffset i false) hrun
    obtain ⟨_, _, ⟨hc, _⟩, hnoted, _⟩ :=
      (Resolve.ends_resolving fun _ hr' => hr'.fieldOffset hs hr i false).of_run hrun
    obtain ⟨e, he, hoffset⟩ := hnoted offset rfl
    obtain ⟨e', hknows, hgrow⟩ := (hlast ws hws).knowsField (.of_entry hfield hc he)
    have hoffset' := hgrow.offset offset hoffset
    obtain ⟨ws', hrun', _⟩ :=
      Resolver.runIn_fieldOffset (.within _) hknows (.inl (by rw [hoffset']; rfl)) isLazy
    rw [hoffset'] at hrun'
    exact ⟨ws', (Resolve.runIn_resolving _ rfl).trans hrun'⟩
  · obtain ⟨hstruct, _, hlast⟩ := hlasts (.size false) hrun
    obtain ⟨_, _, _, hnoted, _⟩ :=
      (Resolve.ends_resolving fun _ hr' => hr'.size hs hr false).of_run hrun
    have hnow : told.stampNow? r = some (told.stampOf r d) := by
      rw [Workspace.stampNow?, hstruct]
      rfl
    have hkept := (hlast ws hws).layout.size _ size hnow (hnoted _ size hnow rfl)
    refine (Resolve.runIn_resolving _ rfl).trans (Resolver.runIn_size_of_kept (.within _)
      (((hlast ws hws).structOf?).trans hstruct) ?_ isLazy)
    rwa [(hlast ws hws).stampOf]

/-- So many bytes. -/
def jar (size : Int64) : StructDef := { StructDef.empty with size }

/-- A packed struct of a jar and a mark. -/
def crate : StructDef :=
  { StructDef.empty with
    isPacked := true
    fields := ⟨[("jar", Field.ofType (.struct "Jar")), ("mark", Field.ofType (.scalar .char))],
      by decide⟩ }

def crateSchema : Schema :=
  ⟨((∅ : Std.TreeMap String StructDef).insert "Crate" crate).insert "Jar" (jar 2), 0⟩

def crateRef : InstanceRef := ⟨0, ⟨"Crate", 0, 0⟩⟩

/-- A workspace with a crate, before anything has been asked. -/
def withCrate : Workspace :=
  ((ofSchema crateSchema .default).place (.single crateRef.location .user)).2

/-- Jars are made larger once the room of one has been told. It is told again, where a workspace in
which it has not been asked for tells the new size. -/
theorem told_again_withCrate : withCrate.Reached 0 false ∧ ∃ told,
    (crateRef.totalSize 0 false).runIn withCrate = (.ok (some 2), told) ∧
    (∃ ws', (crateRef.totalSize 0 false).runIn
      { told with schema := told.schema.insert "Jar" (jar 4) } = (.ok (some 2), ws')) ∧
    ((crateRef.totalSize 0 false).runIn
      { withCrate with schema := withCrate.schema.insert "Jar" (jar 4) }).1 = .ok (some 4) := by
  have hreached : withCrate.Reached 0 false :=
    .request (.start (.of_toList rfl (by decide)) trivial (by decide)) (.place _)
  have htwo : ((crateRef.totalSize 0 false).runIn withCrate).1 = .ok (some 2) := by cbv
  rcases hrun : (crateRef.totalSize 0 false).runIn withCrate with ⟨answer, told⟩
  rw [hrun] at htwo
  have htwo : answer = .ok (some 2) := htwo
  subst htwo
  refine ⟨hreached, told, rfl, ?_, by cbv⟩
  have hlive : withCrate.IsLive crateRef := ⟨_, rfl, rfl⟩
  have hfield : withCrate.fieldOf? crateRef 0 = some ("jar", Field.ofType (.struct "Jar")) := rfl
  refine (hreached.told_again hlive hfield).1 2 told hrun _
    (.schema .refl (.insert "Jar" (jar 4)) ?_) false
  exact (Schema.get?_insert _ _ _ _).trans (if_neg (by decide))

end Workspace

end ByteAtlas
