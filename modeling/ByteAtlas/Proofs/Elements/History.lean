import ByteAtlas.Proofs.Elements.Requests
import ByteAtlas.Proofs.Flat.Agreement
import ByteAtlas.Proofs.Resolve.History

/-!
# Entries after a history

`Workspace.Led` are the workspaces that requests and edits lead to while files are opened and their
content is replaced, but not that of the files that are kept. In all of them the entries of fields
of scalar types are in order, and the elements that have been read from a kept file are those that
it has (`Workspace.Led.every`).
-/

namespace ByteAtlas

namespace Workspace

/-! ## 1. Elements of a file -/

/-- **The element with a number**, read where it lies. -/
def elementAt (ws : Workspace) (file : FileId) (t : ScalarType) (start : Int64) (k : Nat) :
    Element :=
  let place := start + Int64.ofNat k * Int64.ofNat t.size
  ⟨place, Scalar.decode t (ws.read file place t.size)⟩

/-- What an element is depends on its file only. -/
theorem elementAt_congr {ws ws' : Workspace} {file : FileId} (h : ws'.file? file = ws.file? file)
    (t : ScalarType) (start : Int64) (k : Nat) :
    ws'.elementAt file t start k = ws.elementAt file t start k := by
  unfold elementAt read
  rw [h]

/-- **Whether the elements that have been read of a field are those of its file**, if the file is
kept and nothing computes where the field starts. -/
def ReadFrom (kept : FileId → Prop) (ws : Workspace) (r : InstanceRef) (d : StructDef) (f : Field)
    (e : FieldEntry) : Prop :=
  kept r.file → d.PlainBudgets → f.value = none → f.offsetFormula = none →
    ∀ t, f.type = .scalar t → ∀ k x, e.values[k]? = some x →
      x = ws.elementAt r.file t (e.offset.getD 0) k

/-- What notes keep of the entry of a field of a scalar type. -/
def Right (kept : FileId → Prop) (ws : Workspace) (r : InstanceRef) (d : StructDef) (f : Field)
    (e : FieldEntry) : Prop :=
  InOrder r d f e ∧ ReadFrom kept ws r d f e

variable {kept : FileId → Prop} {start ws ws' : Workspace} {n : Nat}

/-- **Elements that are read on** are those of the file. -/
theorem readFrom_note {r : InstanceRef} {d : StructDef} {i : Nat} {f : String × Field}
    {e e' : FieldEntry} (hfile : ws.file? r.file = start.file? r.file)
    (hnote : ws.Notes r d i f.2 e e') (horder : InOrder r d f.2 e)
    (he : ReadFrom kept start r d f.2 e) : ReadFrom kept start r d f.2 e' := by
  intro hkept hplain hv hn t ht k x hx
  have hold := he hkept hplain hv hn t ht
  cases hnote with
  | offset _ hformula => exact absurd hn hformula
  | value _ hsome _ =>
    rw [hv] at hsome
    cases hsome
  | @elements t' start' c left _ ht' hstart hc =>
    rw [ht] at ht'
    cases ht'
    by_cases hlt : k < e.values.size
    · refine hold k x ?_
      obtain ⟨rest, hrest⟩ := Reading.prefix_readOn (g := ⟨ws, r.file, f.2, t, c, start'⟩) left
        (e.values, e.nextElement.getD start')
      rw [← Array.getElem?_toList, ← hrest, List.getElem?_append_left (by simpa using hlt)] at hx
      rwa [← Array.getElem?_toList]
    · -- The element is new, so it lies so many elements behind those that were there.
      obtain ⟨j, rfl⟩ := Nat.exists_eq_add_of_le (Nat.le_of_not_lt hlt)
      have hrow := Reading.getElem?_readOn (g := ⟨ws, r.file, f.2, t, c, start'⟩) left j
        (e.values, e.nextElement.getD start') hx
      have hnext : e.nextElement.getD start' =
          e.offset.getD 0 + Int64.ofNat e.values.size * Int64.ofNat t.size := by
        cases hnone : e.nextElement with
        | none =>
          rw [(horder.scalars hplain t hv ht).1.unread hnone, Option.getD_none, hstart hn]
          simp
        | some next => exact (horder.scalars hplain t hv ht).1.inRow hn next hnone
      rw [← elementAt_congr hfile, hrow]
      unfold Reading.next elementAt
      rw [hnext, Int64.ofNat_add, Int64.add_mul, Int64.add_assoc]
  | _ => exact hold k x hx

/-- **What is right stays so** in the course of a request. -/
theorem noted_right (h : start.KeepsWithin ws) : ws.Noted (Right kept start) where
  first r d f present cursor := by
    refine ⟨inOrder_firstEntry r d f present cursor, fun _ _ hv _ t _ k x hx => ?_⟩
    rw [(Resolver.firstEntry_of_value (d := d) hv present cursor).1] at hx
    cases hx
  note hf hnote he := by
    refine ⟨(noted_inOrder ws).note hf hnote he.1, readFrom_note ?_ hnote he.1 he.2⟩
    unfold file?
    rw [show ws.files = start.files from h.files]

/-- What follows of an entry follows of every one. -/
theorem Every.mono {P Q : InstanceRef → StructDef → Field → FieldEntry → Prop} (h : ws.Every P)
    (hPQ : ∀ r d f e, ws.IsLive r → P r d f e → Q r d f e) : ws.Every Q :=
  fun r d st hr hd hst hversion i f e hf he =>
    hPQ r d f.2 e hr (h r d st hr hd hst hversion i f e hf he)

/-- What is read in the course of a request is read from the files that there are. -/
theorem Moved.right (h : start.Moved ws) (hstart : start.Every (Right kept start)) :
    ws.Every (Right kept ws) := by
  refine (h.every (fun _ => noted_right) hstart).mono fun r d f e _ he => ⟨he.1, ?_⟩
  intro hkept hplain hv hoffset t ht k x hx
  rw [he.2 hkept hplain hv hoffset t ht k x hx, elementAt_congr]
  unfold file?
  rw [h.keeps.files]

/-! ## 2. Histories -/

/-- Files may be opened and their content replaced, but not that of a file that is `kept`, while
there are instances in it. Only the versions of definitions are counted. -/
def Rules.keeping (kept : FileId → Prop) : Rules where
  schemas _ := True
  files ws files := ∀ r, ws.IsLive r → kept r.file → files[r.file]? = ws.file? r.file
  edits := true
  perEdit := 0

/-- **The workspaces that a history leads to** in which files may be opened and their content
replaced, with the number of versions that the schema has given out. A file that is `kept` stays as
it is while there are instances in it. -/
abbrev Led (kept : FileId → Prop) (ws : Workspace) (versions : Nat) : Prop :=
  ws.History (.keeping kept) versions

theorem Led.atRest (h : ws.Led kept n) : ws.AtRest n true :=
  History.atRest h rfl

/-- **Whatever requests and edits lead to** is led to, if no file need be kept. -/
theorem Reached.led {edited : Bool} (h : ws.Reached n edited) : ws.Led (fun _ => False) n :=
  h.mono ⟨fun _ hschema => hschema, fun _ _ _ _ _ hkept => hkept.elim, fun _ => rfl⟩ rfl

/-! ## 3. What is right after a history -/

section

variable {P : InstanceRef → StructDef → Field → FieldEntry → Prop}

theorem Every.shrinks (h : ws.Every P) (hg : ws.Shrinks ws') : ws'.Every P := by
  intro r d st hr hd hst hversion i f e hf he
  rw [hg.layoutOf hr] at hst
  rw [entryOf?, hg.layoutOf hr] at he
  exact h r d st (hg.isLive hr) ((hg.structOf? r).symm.trans hd) hst hversion i f e hf he

/-- An edit of an instance leaves what is known alone. -/
theorem Every.modify (h : ws.Every P) {f : Instance → Instance} (hf : KeepsPlace f)
    (id : InstanceId) : (ws.modify id f).Every P :=
  fun r d st hr => h r d st ((isLive_modify hf id).mp hr)

/-- **What has the version of a definition** was found out about it, so an edit of another one does
not matter. -/
theorem Every.setSchema {once : Prop} {k : Nat} {schema : Schema} (h : ws.Every P)
    (hs : ws.Sound once) (ho : once) (hchange : ws.schema.Change k schema)
    (hroom : ws.schema.newestVersion.toNat + k < 2 ^ 32) : Every P { ws with schema } := by
  intro r d st hr hd hst hversion i f e hf he
  rcases (hchange.versions hroom).2 r.struct d hd with hold | ⟨hlt, _⟩
  · exact h r d st hr hold hst hversion i f e hf he
  · have hstamp := hs.stamps ho r st hr hst
    rw [← hversion] at hlt
    exact absurd hstamp (UInt32.not_le.mpr hlt)

end

/-- **Every entry is right** after every history. -/
theorem Led.every (h : ws.Led kept n) (hn : n < Schema.versionLimit) :
    ws.Every (Right kept ws) := by
  induction h with
  | start _ _ _ =>
    intro r d st hr
    obtain ⟨i, hi, _⟩ := hr
    exact nomatch (show (none : Option Instance) = some i from hi)
  | @request ws n α step h hrequest ih =>
    have hs : ws.Sound True := eq_true hn ▸ (Led.atRest h).sound
    have hws : ws.Ordered := ⟨hs, (ih hn).mono fun _ _ _ _ _ he => he.1⟩
    exact (hrequest.proceeds hws).moves.1.right (ih hn)
  | @files ws n files _ hkeep ih =>
    have hold : Every (Right kept ws) { ws with files } := ih hn
    refine hold.mono fun r d f e hr he => ⟨he.1, ?_⟩
    intro hkept hplain hv hoffset t ht k x hx
    have hfile : file? { ws with files } r.file = ws.file? r.file := hkeep r hr hkept
    rw [he.2 hkept hplain hv hoffset t ht k x hx, elementAt_congr hfile]
  | setLimits _ _ ih => exact ih hn
  | delete id h ih => exact (ih hn).shrinks ((Led.atRest h).sound.delete id)
  | deleteAuto h ih => exact (ih hn).shrinks (Led.atRest h).sound.deleteAuto
  | setReason id reason _ ih =>
    exact (ih hn).modify (keepsVersion_setReason reason).toKeepsPlace id
  | edit id _ _ hf ih => exact (ih hn).modify hf.keepsPlace id
  | @schema ws n k schema h _ hchange _ ih =>
    have hlt : n + k < 2 ^ 32 - 1 := hn
    have hn' : n < Schema.versionLimit := by unfold Schema.versionLimit; omega
    have hnewest := ((Led.atRest h).made.versions hn').1
    exact (ih hn').setSchema (Led.atRest h).sound hn' hchange (by omega)

/-- So every request can be looked at move by move. -/
theorem Led.ordered (h : ws.Led kept n) (hn : n < Schema.versionLimit) : ws.Ordered :=
  ⟨eq_true hn ▸ h.atRest.sound, (h.every hn).mono fun _ _ _ _ _ he => he.1⟩

/-! ## 4. Requests alone -/

/-- **The workspaces that requests lead to** from a given one. -/
inductive Requested (start : Workspace) : Workspace → Prop where
  | refl : Requested start start
  | request {ws : Workspace} {α : Type} {step : Resolve α} :
    Requested start ws → Request step → Requested start (step.runIn ws).2

theorem Requested.led (h : start.Requested ws) (hstart : start.Led kept n) : ws.Led kept n := by
  induction h with
  | refl => exact hstart
  | request _ hrequest ih => exact ih.request hrequest

/-- Through requests what is known grows. -/
theorem Requested.grows (h : start.Requested ws) (hstart : start.Led kept n) : start.Grows ws := by
  induction h with
  | refl => exact .refl start
  | request hrequested hrequest ih =>
    obtain ⟨_, ws', hrun, _, hg, _⟩ := hrequest.ends (Led.atRest (hrequested.led hstart)).sound
    rw [hrun]
    exact ih.trans hg

end Workspace

end ByteAtlas
