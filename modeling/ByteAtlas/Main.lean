import ByteAtlas.Report.Command
import ByteAtlas.Report.Options

/-!
# The report program

Reads the files that the command line names, runs the report command on them and writes what it
gives.
-/

namespace ByteAtlas

/-- The content of a file. -/
def readBytes (path : String) : IO (Except FileFault ByteArray) := do
  try
    let bytes ← IO.FS.readBinFile path
    pure (.ok bytes)
  catch
    | .noFileOrDirectory .. => pure (.error .notFound)
    | .inappropriateType .. => pure (.error .notADirectory)
    | e => throw e

/-- The last part of a path. -/
def lastPart (path : String) : String := ((path.splitOn "/").getLast?).getD path

/-- A file as a source. -/
def openSource (path : String) : IO (Except SourceError Source) := do
  match ← readBytes path with
  | .error fault => pure (.error (.openFailed path fault))
  | .ok bytes => pure (.ok (.ofBytes (lastPart path) bytes.data))

/-- The request that options stand for. -/
def requestOf (o : ReportOptions) : IO ReportRequest := do
  let schema ← readBytes o.schema
  let limits ← o.limits.mapM readBytes
  let file ← openSource o.file
  pure
    { schema, limits, maxDepth := o.maxDepth, file, struct := o.struct, offset := o.offset
      count := o.count, expand := o.expand, json := o.json, sources := o.sources }

end ByteAtlas

open ByteAtlas in
def main (words : List String) : IO UInt32 := do
  match ReportOptions.ofWords words with
  | .error fault => do
    IO.eprintln ("Error: " ++ fault.message)
    pure 1
  | .ok options => do
    let request ← requestOf options
    let output := request.run
    IO.print output.text
    for note in output.notes do
      IO.eprintln note
    pure (UInt32.ofNat output.status)
