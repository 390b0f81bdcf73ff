import ByteAtlas.Report.Basic
import ByteAtlas.Report.Number
import ByteAtlas.Resolve.Expand

/-!
# The report command

The command places an instance of a struct in a file, and after it as many of its chain as are asked
for, and reports on all instances that there are then. `ReportRequest` holds what it works on, with
the files already read; `ReportRequest.run` gives what it writes. What is wrong is told in the order
in which it is met: schema, limits, file, struct, offset, count.
-/

namespace ByteAtlas

open Resolve (ask update)

/-- What the command works on. -/
structure ReportRequest where
  /-- The content of the schema file. -/
  schema : Except FileFault ByteArray
  /-- The content of the limits file, if one is named. -/
  limits : Option (Except FileFault ByteArray)
  maxDepth : Option String
  file : Except SourceError Source
  struct : String
  offset : String
  count : String
  expand : Bool
  json : Bool
  /-- The expressions to evaluate for each instance. -/
  sources : List String

/-- What is wrong with a request. -/
inductive ReportError where
  | schema (error : SchemaError)
  | file (fault : FileFault)
  | limits (error : DecodeError)
  | source (error : SourceError)
  | number (fault : NumberFault)
  | resolution (fault : Fault)
  deriving DecidableEq, Repr

def ReportError.message : ReportError → String
  | schema e => e.message
  | file f => f.message
  | limits e => e.message?.getD "malformed JSON"
  | source e => e.message
  | number f => f.message
  | resolution .negativeElementLimit => "elements are limited to fewer than none"

/-- The status that the command ends with. -/
def ReportError.status : ReportError → Nat
  | resolution _ => 101
  | _ => 1

/-- What the command writes, and its status. -/
structure ReportOutput where
  status : Nat
  /-- The text of the reports. -/
  text : String
  /-- The lines beside them. -/
  notes : List String
  deriving DecidableEq, Repr

namespace ReportRequest

/-! ## 1. What is asked for -/

/-- The schema of the request. -/
def readSchema (r : ReportRequest) : Except ReportError Schema :=
  match r.schema with
  | .error fault => .error (.schema (.file fault))
  | .ok bytes => (Schema.load (some bytes)).mapError .schema

/-- The limits in a file. -/
def readLimitsFile : Option (Except FileFault ByteArray) → Except ReportError Limits
  | none => .ok .default
  | some (.error fault) => .error (.file fault)
  | some (.ok bytes) =>
    match String.fromUTF8? bytes with
    | none => .error (.file .notUtf8)
    | some text => (decodeText Limits.decode text).mapError .limits

/-- The limits of the request. A depth of its own counts more than the one in the file. -/
def readLimits (r : ReportRequest) : Except ReportError Limits := do
  let limits ← readLimitsFile r.limits
  match r.maxDepth with
  | none => pure limits
  | some text =>
    let maxDepth ← (readNatural text).mapError .number
    pure { limits with maxDepth }

/-- The workspace before the first instance is placed, and the placement of that. -/
def prepare (r : ReportRequest) : Except ReportError (Workspace × Placement) := do
  let schema ← r.readSchema
  let limits ← r.readLimits
  let source ← r.file.mapError .source
  let (file, ws) := (Workspace.ofSchema schema limits).addSource source
  let _ ← (ws.schema.require r.struct).mapError .schema
  let offset ← (readInteger r.offset).mapError .number
  let count ← (readInteger r.count).mapError .number
  pure (ws, { Placement.single ⟨r.struct, file, offset⟩ .user with budget := ⟨count, false⟩ })

/-! ## 2. What comes of it -/

/-- Places the rest of a chain, at most so many instances. -/
def placeChain : (left : Nat) → InstanceRef → Resolve Unit
  | 0, _ => pure ()
  | left + 1, r => do
    match ← r.createNext .manualExpand with
    | none => pure ()
    | some next => placeChain left next

/-- The text of reports, as lines or as JSON. -/
def textOf (json : Bool) (reports : List InstanceReport) : String :=
  if json then (Json.array (reports.map InstanceReport.encode)).pretty ++ "\n"
  else String.join ((reports.flatMap InstanceReport.lines).map (· ++ "\n"))

/-- Places what is asked for and reports on it. -/
def perform (r : ReportRequest) (first : Placement) : Resolve ReportOutput := do
  let added ← update fun ws => ws.place first
  placeChain first.budget.left.toInt.toNat added.ref
  let expanded ←
    if r.expand then do
      let created ← Resolve.expandAll (some added.ref.file)
      pure ["Expanded " ++ toString created ++ " instances"]
    else pure []
  let instances ← ask fun ws => ws.directory.toList.map Instance.ref
  let reports ← reportsOn r.sources instances
  let hits ← ask Workspace.limitHits
  let limited :=
    if hits = 0 then [] else ["Resolution limits were hit " ++ toString hits ++ " times"]
  pure ⟨0, textOf r.json reports, expanded ++ limited⟩

/-- What the command writes about an error. -/
def failed (e : ReportError) : ReportOutput := ⟨e.status, "", ["Error: " ++ e.message]⟩

/-- **What the command writes.** -/
def run (r : ReportRequest) : ReportOutput :=
  match r.prepare with
  | .error e => failed e
  | .ok (ws, first) =>
    match ((r.perform first).runIn ws).1 with
    | .error fault => failed (.resolution fault)
    | .ok output => output

end ReportRequest

end ByteAtlas
