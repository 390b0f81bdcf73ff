import ByteAtlas.Directory.Basic
import ByteAtlas.Workspace.Layout
import ByteAtlas.Workspace.Limits

/-!
# Workspaces

A `Workspace` holds a schema, the open files, the instances placed in them and what is known about
each (`Workspace.layouts`). It also counts: how many resolution frames are open, how many were
refused, and how often a limit was hit.

Files keep the number they get when they are opened. Opening a file that is open already gives the
number it has, under whatever name (`Workspace.openFile`). A read outside of a file gives no bytes,
and an unknown file has the size 0.
-/

namespace ByteAtlas

/-! ## 1. Errors -/

/-- What is wrong with a request to a workspace. -/
inductive AccessError where
  | source (error : SourceError)
  | schema (error : SchemaError)
  | undefinedFile (file : FileId)
  /-- An error with a line in front that tells where it arose. -/
  | context (text : String) (error : AccessError)
  deriving DecidableEq, Repr

def AccessError.message : AccessError → String
  | source e => e.message
  | schema e => e.message
  | undefinedFile file => "no open file with id " ++ toString file
  | context text error => contextMessage text error.message

/-! ## 2. Workspaces -/

/-- A schema, open files, and instances with what is known about them. -/
structure Workspace where
  schema : Schema
  files : Array Source
  directory : Directory
  limits : Limits
  layouts : Std.TreeMap InstanceId Layout
  /-- The number of resolution frames that are open. -/
  depth : Nat
  /-- The number of frames that have been refused. -/
  refusals : Nat
  /-- How often a limit has been hit. -/
  limitHits : Nat

namespace Workspace

/-- A workspace without files and instances. -/
def ofSchema (schema : Schema) (limits : Limits) : Workspace where
  schema := schema
  files := #[]
  directory := .empty
  limits := limits
  layouts := ∅
  depth := 0
  refusals := 0
  limitHits := 0

instance : Inhabited Workspace := ⟨ofSchema .empty .default⟩

def setLimits (ws : Workspace) (limits : Limits) : Workspace := { ws with limits }

/-! ### Files -/

/-- Adds a source, under the next number. -/
def addSource (ws : Workspace) (s : Source) : FileId × Workspace :=
  (ws.files.size, { ws with files := ws.files.push s })

/-- The number of the open file with a handle. -/
def fileWithHandle? (ws : Workspace) (handle : FileHandle) : Option FileId :=
  ws.files.findIdx? fun s => s.handle == some handle

/-- **Opens a file**, or finds the open one. -/
def openFile (ws : Workspace) (disk : Disk) (path : String) :
    Except SourceError FileId × Workspace :=
  match disk.openFile path with
  | .error e => (.error e, ws)
  | .ok s =>
    match s.handle.bind ws.fileWithHandle? with
    | some file => (.ok file, ws)
    | none =>
      let (file, ws) := ws.addSource s
      (.ok file, ws)

def file? (ws : Workspace) (file : FileId) : Option Source := ws.files[file]?

/-- The announced size of a file. -/
def fileSize (ws : Workspace) (file : FileId) : Nat :=
  match ws.file? file with
  | some s => s.size
  | none => 0

/-- The bytes of a file from an offset on that are there, at most so many. -/
def read (ws : Workspace) (file : FileId) (offset : Int64) (length : Nat) : List UInt8 :=
  match ws.file? file with
  | some s => if offset < 0 then [] else s.read offset.toInt.toNat length
  | none => []

/-! ### Instances -/

def find? (ws : Workspace) (id : InstanceId) : Option Instance := ws.directory.find? id

/-- Places an instance, or finds the one that is there. -/
def place (ws : Workspace) (p : Placement) : Directory.Added × Workspace :=
  let (added, directory) := ws.directory.add p
  (added, { ws with directory })

/-- **Places an instance on behalf of the user.** Its struct has to be defined and its file open. -/
def create (ws : Workspace) (l : Location) : Except AccessError InstanceRef × Workspace :=
  match ws.schema.require l.struct with
  | .error e => (.error (.schema e), ws)
  | .ok _ =>
    match ws.file? l.file with
    | none => (.error (.undefinedFile l.file), ws)
    | some _ =>
      let (added, ws) := ws.place (.single l .user)
      (.ok added.ref, ws)

/-- Changes the properties of one instance. -/
def modify (ws : Workspace) (id : InstanceId) (f : Instance → Instance) : Workspace :=
  { ws with directory := ws.directory.modify id f }

/-- Removes an instance; whether it was there. -/
def delete (ws : Workspace) (id : InstanceId) : Bool × Workspace :=
  let (removed, directory) := ws.directory.delete id
  (removed.isSome, { ws with directory, layouts := ws.layouts.erase id })

/-- Removes the instances that the user did not ask for; how many there were. -/
def deleteAuto (ws : Workspace) : Nat × Workspace :=
  let (count, directory) := ws.directory.deleteAuto
  let layouts := ws.layouts.filter fun id _ => (directory.find? id).isSome
  (count, { ws with directory, layouts })

/-! ### What is known about an instance -/

/-- The definition of an instance's struct. -/
def structOf? (ws : Workspace) (r : InstanceRef) : Option StructDef := ws.schema.get? r.struct

/-- The name and the definition of a field of an instance. -/
def fieldOf? (ws : Workspace) (r : InstanceRef) (i : Nat) : Option (String × Field) :=
  match ws.structOf? r with
  | some d => d.field? i
  | none => none

/-- The value of an argument of an instance. -/
def argOf? (ws : Workspace) (r : InstanceRef) (name : String) : Option Int64 :=
  match ws.find? r.id with
  | some i => i.arg? name
  | none => none

theorem argOf?_eq (ws : Workspace) (r : InstanceRef) (name : String) :
    ws.argOf? r name = (ws.find? r.id).bind fun i => i.arg? name := by
  unfold argOf?
  cases ws.find? r.id <;> rfl

/-- The version of an instance. -/
def versionOf (ws : Workspace) (r : InstanceRef) : Version :=
  match ws.find? r.id with
  | some i => i.version
  | none => initialVersion

theorem versionOf_eq (ws : Workspace) (r : InstanceRef) :
    ws.versionOf r = (ws.find? r.id).elim initialVersion Instance.version := by
  unfold versionOf
  cases ws.find? r.id <;> rfl

/-- The versions that what is computed now is computed from. -/
def stampOf (ws : Workspace) (r : InstanceRef) (d : StructDef) : Stamp :=
  ⟨ws.versionOf r, d.version⟩

/-- What is known about an instance, up to date or not. -/
def layoutOf (ws : Workspace) (r : InstanceRef) : Layout :=
  (ws.layouts[r.id]?).getD (.unknown r.offset)

/-- What is known about a field of an instance, up to date or not. -/
def entryOf? (ws : Workspace) (r : InstanceRef) (i : Nat) : Option FieldEntry :=
  (ws.layoutOf r).entries[i]?

def modifyLayout (ws : Workspace) (r : InstanceRef) (f : Layout → Layout) : Workspace :=
  { ws with layouts := ws.layouts.alter r.id fun l => some (f (l.getD (.unknown r.offset))) }

end Workspace

end ByteAtlas
