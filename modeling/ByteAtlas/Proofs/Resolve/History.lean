import ByteAtlas.Proofs.Resolve.Edits
import ByteAtlas.Proofs.Resolve.Requests

/-!
# Histories of a workspace

`Workspace.History`: the workspaces that requests and edits lead to, in any order. What else may
happen is a parameter (`Workspace.Rules`), so that a property that needs the files to stay, or that
depends on what definitions there are, is about the same histories as any other one. After every
history no frame is open and no field is being laid out, and what is known about an instance fits
its definition (`Workspace.History.atRest`).
-/

namespace ByteAtlas

namespace Workspace

/-! ## 1. Histories -/

/-- **What may happen in a history** besides requests: which definitions there may be, what the
files may be replaced by, whether anything is edited, and how many versions an edit of an instance
counts. -/
structure Rules where
  schemas : Schema → Prop
  files : Workspace → Array Source → Prop
  edits : Bool
  perEdit : Nat

/-- **The workspaces that a history leads to**, with the number of versions that have been given
out. -/
inductive History (rules : Rules) : Workspace → (versions : Nat) → Prop where
  | start {n : Nat} {schema : Schema} {limits : Limits} : schema.Made n → rules.schemas schema →
    0 ≤ limits.maxElements → History rules (ofSchema schema limits) n
  | request {ws : Workspace} {n : Nat} {α : Type} {step : Resolve α} :
    History rules ws n → Request step → History rules (step.runIn ws).2 n
  | files {ws : Workspace} {n : Nat} {files : Array Source} :
    History rules ws n → rules.files ws files → History rules { ws with files } n
  | setLimits {ws : Workspace} {n : Nat} {limits : Limits} :
    History rules ws n → 0 ≤ limits.maxElements → History rules (ws.setLimits limits) n
  | delete {ws : Workspace} {n : Nat} (id : InstanceId) :
    History rules ws n → History rules (ws.delete id).2 n
  | deleteAuto {ws : Workspace} {n : Nat} : History rules ws n → History rules ws.deleteAuto.2 n
  | setReason {ws : Workspace} {n : Nat} (id : InstanceId) (reason : Reason) :
    History rules ws n → History rules (ws.modify id (.setReason reason)) n
  | edit {ws : Workspace} {n : Nat} (id : InstanceId) {f : Instance → Instance} :
    History rules ws n → rules.edits = true → Instance.Edit f →
    History rules (ws.modify id f) (n + rules.perEdit)
  | schema {ws : Workspace} {n k : Nat} {schema : Schema} :
    History rules ws n → rules.edits = true → ws.schema.Change k schema → rules.schemas schema →
    History rules { ws with schema } (n + k)

/-- Whether everything that may happen by these rules may happen by others. -/
structure Rules.Within (rules rules' : Rules) : Prop where
  schemas : ∀ schema, rules.schemas schema → rules'.schemas schema
  files : ∀ ws files, rules.files ws files → rules'.files ws files
  edits : rules.edits = true → rules'.edits = true

namespace History

variable {rules rules' : Rules} {ws : Workspace} {n : Nat}

/-- **A history by some rules** is one by others that permit as much. The versions are counted
anew. -/
theorem within (h : ws.History rules n) (rules' : Rules) (hrules : rules.Within rules') :
    ∃ m, ws.History rules' m ∧ (rules'.perEdit ≤ rules.perEdit → m ≤ n) ∧
      (rules'.perEdit = rules.perEdit → m = n) := by
  induction h with
  | @start n _ _ hmade hschema hlimit =>
    exact ⟨n, .start hmade (hrules.schemas _ hschema) hlimit, fun _ => Nat.le_refl n, fun _ => rfl⟩
  | request _ hrequest ih =>
    obtain ⟨m, h, hm⟩ := ih
    exact ⟨m, h.request hrequest, hm⟩
  | files _ hfiles ih =>
    obtain ⟨m, h, hm⟩ := ih
    exact ⟨m, h.files (hrules.files _ _ hfiles), hm⟩
  | setLimits _ hlimit ih =>
    obtain ⟨m, h, hm⟩ := ih
    exact ⟨m, h.setLimits hlimit, hm⟩
  | delete id _ ih =>
    obtain ⟨m, h, hm⟩ := ih
    exact ⟨m, h.delete id, hm⟩
  | deleteAuto _ ih =>
    obtain ⟨m, h, hm⟩ := ih
    exact ⟨m, h.deleteAuto, hm⟩
  | setReason id reason _ ih =>
    obtain ⟨m, h, hm⟩ := ih
    exact ⟨m, h.setReason id reason, hm⟩
  | edit id _ hedits hf ih =>
    obtain ⟨m, h, hle, heq⟩ := ih
    exact ⟨_, h.edit id (hrules.edits hedits) hf, fun hper => Nat.add_le_add (hle hper) hper,
      fun hper => by rw [heq hper, hper]⟩
  | @schema _ _ k _ _ hedits hchange hschema ih =>
    obtain ⟨m, h, hle, heq⟩ := ih
    exact ⟨_, h.schema (hrules.edits hedits) hchange (hrules.schemas _ hschema),
      fun hper => Nat.add_le_add_right (hle hper) k, fun hper => by rw [heq hper]⟩

/-- The same with the versions counted alike. -/
theorem mono (h : ws.History rules n) (hrules : rules.Within rules')
    (hper : rules'.perEdit = rules.perEdit) : ws.History rules' n := by
  obtain ⟨m, h', _, hm⟩ := h.within rules' hrules
  exact hm hper ▸ h'

end History

/-- Files are added, and where anything may be edited every definition is allowed. Only the versions
of definitions are counted. -/
def Rules.adding (edits : Bool) : Rules where
  schemas _ := True
  files ws files := ws.files.toList <+: files.toList
  edits := edits
  perEdit := 0

/-- **The workspaces that a history leads to in which files are added**, with the number of versions
that the schema has given out and whether anything may have been edited since the workspace was
made. -/
abbrev Reached (ws : Workspace) (versions : Nat) (edited : Bool) : Prop :=
  ws.History (.adding edited) versions

namespace Reached

variable {ws : Workspace} {n : Nat} {edited : Bool}

theorem addSource (s : Source) (h : ws.Reached n edited) : (ws.addSource s).2.Reached n edited := by
  refine h.files (show ws.files.toList <+: (ws.files.push s).toList from ?_)
  rw [Array.toList_push]
  exact List.prefix_append _ _

theorem openFile (disk : Disk) (path : String) (h : ws.Reached n edited) :
    (ws.openFile disk path).2.Reached n edited := by
  unfold Workspace.openFile
  split
  · exact h
  · split
    · exact h
    · exact h.addSource _

/-- Where nothing has been edited, something may be edited next. -/
theorem mayEdit (h : ws.Reached n edited) : ws.Reached n true :=
  h.mono ⟨fun _ hschema => hschema, fun _ _ hfiles => hfiles, fun _ => rfl⟩ rfl

theorem edit (id : InstanceId) {f : Instance → Instance} (h : ws.Reached n edited)
    (hf : Instance.Edit f) : (ws.modify id f).Reached n true :=
  History.edit id h.mayEdit rfl hf

theorem schema {k : Nat} {schema : Schema} (h : ws.Reached n edited)
    (hchange : ws.schema.Change k schema) : Reached { ws with schema } (n + k) true :=
  History.schema h.mayEdit rfl hchange trivial

end Reached

/-- To ask by number is to ask the instance, if it is live. -/
theorem runIn_toInstance {ws : Workspace} {r : InstanceRef} (hr : ws.IsLive r) {α : Type}
    (question : InstanceRef → Resolve α) :
    ((toInstance r.id question).runIn ws).2 = ((question r).runIn ws).2 := by
  obtain ⟨i, hi, rfl⟩ := hr
  unfold toInstance
  rw [Resolve.runIn_bind, Resolve.runIn_ask, show ws.find? i.ref.id = some i from hi]
  dsimp only
  rw [Resolve.runIn_map]

/-- A question to a live instance is a step of a history. -/
theorem History.question {rules : Rules} {ws : Workspace} {n : Nat} (h : ws.History rules n)
    {r : InstanceRef} (hr : ws.IsLive r) {α : Type} {question : InstanceRef → Resolve α}
    (hq : Question question) : ((question r).runIn ws).2.History rules n := by
  rw [← runIn_toInstance hr question]
  exact h.request (.question r.id hq)

/-! ## 2. Between requests -/

/-- **What holds between requests.** -/
structure AtRest (ws : Workspace) (n : Nat) (edited : Bool) : Prop where
  made : ws.schema.Made n
  sound : ws.Sound (n < Schema.versionLimit)
  idle : ws.Idle
  depth : ws.depth = 0
  settled : edited = false → ws.Settled

namespace AtRest

variable {ws : Workspace} {n : Nat} {edited : Bool}

theorem ofSchema {schema : Schema} {limits : Limits} (hmade : schema.Made n)
    (hlimit : 0 ≤ limits.maxElements) : (Workspace.ofSchema schema limits).AtRest n false := by
  have hnone (r : InstanceRef) : ¬ (Workspace.ofSchema schema limits).IsLive r := by
    rintro ⟨i, hi, _⟩
    exact nomatch (show (none : Option Instance) = some i from hi)
  refine ⟨hmade, ⟨Directory.wellFormed_empty, hlimit, ?_, ?_, ?_, ?_, ?_, ?_⟩, ?_, rfl, ?_⟩
  · exact fun id l hl => nomatch (show (none : Option Layout) = some l from hl)
  · exact fun _ r _ _ hr => absurd hr (hnone r)
  · exact fun r hr => absurd hr (hnone r)
  · exact fun hn => (hmade.versions hn).2
  · exact fun _ r _ hr => absurd hr (hnone r)
  · exact fun _ r _ _ hr => absurd hr (hnone r)
  · exact fun r hr => absurd hr (hnone r)
  · exact fun _ r _ hr => absurd hr (hnone r)

/-- A request. -/
theorem grows (h : ws.AtRest n edited) {ws' : Workspace} (hs : ws'.Sound (n < Schema.versionLimit))
    (hg : ws.Grows ws') : ws'.AtRest n edited := by
  refine ⟨?_, hs, fun r hr => ?_, hg.depth.trans h.depth, fun he => hg.settled (h.settled he)⟩
  · rw [hg.schema]
    exact h.made
  · by_cases hold : ws.IsLive r
    · exact (hg.layouts r hold).measuring.trans (h.idle r hold)
    · exact hg.idle r hr hold

theorem shrinks (h : ws.AtRest n edited) {ws' : Workspace} (hg : ws.Shrinks ws') :
    ws'.AtRest n edited := by
  refine ⟨?_, hg.sound h.sound, hg.idle h.idle, hg.depth.trans h.depth, fun he => ?_⟩
  · rw [hg.schema]
    exact h.made
  · exact hg.settled (h.settled he)

/-- Files have no part in what holds between requests. -/
theorem setFiles (h : ws.AtRest n edited) (files : Array Source) :
    AtRest { ws with files } n edited :=
  ⟨h.made, ⟨h.sound.directory, h.sound.limit, h.sound.known, h.sound.fits, h.sound.measuring,
    h.sound.versions, h.sound.stamps, h.sound.sizes⟩, h.idle, h.depth, h.settled⟩

theorem setLimits (h : ws.AtRest n edited) {limits : Limits} (hlimit : 0 ≤ limits.maxElements) :
    (ws.setLimits limits).AtRest n edited :=
  ⟨h.made, ⟨h.sound.directory, hlimit, h.sound.known, h.sound.fits, h.sound.measuring,
    h.sound.versions, h.sound.stamps, h.sound.sizes⟩, h.idle, h.depth, h.settled⟩

theorem setReason (h : ws.AtRest n edited) (id : InstanceId) (reason : Reason) :
    (ws.modify id (.setReason reason)).AtRest n edited :=
  have hf := keepsVersion_setReason reason
  ⟨h.made, h.sound.modify hf id, h.idle.edit hf.toKeepsPlace id, h.depth,
    fun he => (h.settled he).modify hf id⟩

theorem edit (h : ws.AtRest n edited) (id : InstanceId) {f : Instance → Instance}
    (hf : Instance.Edit f) : (ws.modify id f).AtRest n true :=
  ⟨h.made, h.sound.edit h.idle hf.keepsPlace id, h.idle.edit hf.keepsPlace id, h.depth,
    fun he => nomatch he⟩

theorem setSchema (h : ws.AtRest n edited) {k : Nat} {schema : Schema}
    (hchange : ws.schema.Change k schema) : AtRest { ws with schema } (n + k) true := by
  refine ⟨h.made.change hchange, h.sound.setSchema h.idle hchange ?_ ?_, h.idle, h.depth,
    fun he => nomatch he⟩
  · exact fun hn => Nat.lt_of_le_of_lt (Nat.le_add_right n k) hn
  · intro hn
    have hlt : n + k < 2 ^ 32 - 1 := hn
    have hnewest := (h.made.versions (by unfold Schema.versionLimit; omega)).1
    omega

end AtRest

/-- **It holds after every history** that counts the versions of definitions only. -/
theorem History.atRest {rules : Rules} {ws : Workspace} {n : Nat} (h : ws.History rules n)
    (hper : rules.perEdit = 0) : ws.AtRest n rules.edits := by
  induction h with
  | start hmade _ hlimit =>
    have hrest := AtRest.ofSchema hmade hlimit
    exact ⟨hrest.made, hrest.sound, hrest.idle, hrest.depth, fun _ => hrest.settled rfl⟩
  | request _ hrequest ih =>
    obtain ⟨_, ws', hrun, hs, hg, _⟩ := hrequest.ends ih.sound
    rw [hrun]
    exact ih.grows hs hg
  | files _ _ ih => exact ih.setFiles _
  | setLimits _ hlimit ih => exact ih.setLimits hlimit
  | delete id _ ih => exact ih.shrinks (ih.sound.delete id)
  | deleteAuto _ ih => exact ih.shrinks ih.sound.deleteAuto
  | setReason id reason _ ih => exact ih.setReason id reason
  | edit id _ hedits hf ih =>
    rw [hper, hedits]
    exact ih.edit id hf
  | schema _ hedits hchange _ ih =>
    rw [hedits]
    exact ih.setSchema hchange

theorem Reached.atRest {ws : Workspace} {n : Nat} {edited : Bool} (h : ws.Reached n edited) :
    ws.AtRest n edited :=
  History.atRest h rfl

end Workspace

end ByteAtlas
