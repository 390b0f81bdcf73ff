import ByteAtlas.Source.Bytes

/-!
# Sources

A `Source` is an open file or a buffer: a name, the size announced when it was opened, and its
bytes. No read starts at or past the announced size, whatever happens to the content later
(`Source.read`).

A `Disk` is a flat directory of files. Two names may stand for one file, which is what a
`FileHandle` tells; a path that leads through a file, or to a name that is not there, does not open
(`Disk.openFile`).
-/

namespace ByteAtlas

/-! ## 1. Errors -/

/-- Why a file cannot be read. -/
inductive FileFault where
  | notFound
  | notADirectory
  | notUtf8
  deriving DecidableEq, Repr

def FileFault.message : FileFault → String
  | notFound => "No such file or directory (os error 2)"
  | notADirectory => "Not a directory (os error 20)"
  | notUtf8 => "stream did not contain valid UTF-8"

/-- Why a source cannot be opened or read. -/
inductive SourceError where
  | openFailed (path : String) (fault : FileFault)
  | file (fault : FileFault)
  /-- An error with a line in front that tells where it arose. -/
  | context (text : String) (error : SourceError)
  deriving DecidableEq, Repr

/-- A line in front of the message of an error. -/
def contextMessage (text message : String) : String :=
  text ++ ":\n  " ++ message

def SourceError.message : SourceError → String
  | openFailed path fault => "failed to open " ++ path ++ ": " ++ fault.message
  | file fault => fault.message
  | context text error => contextMessage text error.message

/-! ## 2. Sources -/

/-- The number of a file on a disk. Two names of one file give the same. -/
abbrev FileHandle := Nat

/-- An open file, or a buffer. -/
structure Source where
  name : String
  /-- The size when the source was opened. -/
  size : Nat
  content : Bytes
  /-- The file, if the source is not a buffer. -/
  handle : Option FileHandle
  deriving DecidableEq, Repr

namespace Source

/-- A buffer with a name. -/
def ofBytes (name : String) (bytes : Bytes) : Source :=
  ⟨name, bytes.size, bytes, none⟩

/-- **The bytes from an offset on that are there**, at most so many, and none if the offset is at
the announced size or past it. -/
def read (s : Source) (offset length : Nat) : List UInt8 :=
  if offset < s.size then s.content.read offset length else []

/-- The source after the content of its file has been replaced. The announced size stays. -/
def withContent (s : Source) (content : Bytes) : Source :=
  { s with content }

end Source

/-! ## 3. Disks -/

/-- A directory of files, without directories in it. -/
structure Disk where
  names : List (String × FileHandle)
  contents : List Bytes

namespace Disk

def empty : Disk := ⟨[], []⟩

/-- The file that a name stands for. -/
def handle? (d : Disk) (name : String) : Option FileHandle :=
  (d.names.find? fun e => e.1 == name).map Prod.snd

/-- Writes a file, over the one of that name if there is one. -/
def write (d : Disk) (name : String) (content : Bytes) : Disk :=
  match d.handle? name with
  | some h => { d with contents := d.contents.set h content }
  | none => ⟨d.names ++ [(name, d.contents.length)], d.contents ++ [content]⟩

/-- Gives a file a second name. -/
def link (d : Disk) (newName name : String) : Disk :=
  match d.handle? name with
  | some h => { d with names := d.names ++ [(newName, h)] }
  | none => d

/-- The parts of a path between the slashes, from the first that is a name. -/
def pathParts (path : String) : List String :=
  (path.splitOn "/").dropWhile fun part => part == "." || part.isEmpty

/-- **The file that a path leads to**, with its name. Below a file there is nothing, and outside of
    the directory nothing is known. -/
def find (d : Disk) (path : String) : Except FileFault (String × FileHandle) :=
  if path.startsWith "/" then .error .notFound
  else
    match pathParts path with
    | [] => .error .notFound
    | name :: rest =>
      match d.handle? name with
      | none => .error .notFound
      | some h => if rest.isEmpty then .ok (name, h) else .error .notADirectory

/-- Opens a file for reading. The size is the one it has now. -/
def openFile (d : Disk) (path : String) : Except SourceError Source :=
  match d.find path with
  | .error fault => .error (.openFailed path fault)
  | .ok (name, h) =>
    let content := (d.contents[h]?).getD #[]
    .ok ⟨name, content.size, content, some h⟩

end Disk

/-! ## 4. Reads -/

/-- A read never gives more than was asked for. -/
theorem Source.length_read_le (s : Source) (offset length : Nat) :
    (s.read offset length).length ≤ length := by
  unfold Source.read
  split
  · exact Bytes.length_read_le s.content offset length
  · exact Nat.zero_le length

/-- At the announced size and past it nothing is read. -/
theorem Source.read_of_size_le {s : Source} {offset : Nat} (h : s.size ≤ offset) (length : Nat) :
    s.read offset length = [] := by
  simp [Source.read, Nat.not_lt.mpr h]

end ByteAtlas
