import ByteAtlas.Resolve.Instance
import ByteAtlas.Json.Printer

/-!
# Reports on instances

An `InstanceReport` tells what is known about one instance once everything has been resolved: its
size, a line for each field, a line about the next instance, and the values of some expressions. It
is shown as indented lines or as JSON.
-/

namespace ByteAtlas

open Resolve (ask)

/-- What there is to tell about an instance. -/
structure InstanceReport where
  ref : InstanceRef
  size : Option Int64
  reason : Reason
  /-- A line for each field. -/
  fields : List String
  /-- The line about the next instance. -/
  next : String
  /-- Expressions with their values. -/
  values : List (String × Int64)
  deriving Repr

/-! ## 1. Making reports -/

/-- The lines about the fields from index `i` on, of which there are `left`. The offset is resolved
    first. -/
def fieldLines (r : InstanceRef) : (left i : Nat) → Resolve (List String)
  | 0, _ => pure []
  | left + 1, i => do
    let _ ← r.fieldOffset i false
    let line ← r.fieldSummary i
    let rest ← fieldLines r left (i + 1)
    pure (line :: rest)

/-- The values of expressions, one after the other. -/
def valuesOf (r : InstanceRef) : List String → Resolve (List (String × Int64))
  | [] => pure []
  | source :: sources => do
    let value ← r.evaluate source
    let rest ← valuesOf r sources
    pure ((source, value) :: rest)

/-- **The report on an instance.** -/
def InstanceRef.report (r : InstanceRef) (sources : List String) : Resolve InstanceReport := do
  let size ← r.size false
  let reason ← ask fun ws => (ws.find? r.id).elim .user fun i => i.reason
  let count ← ask fun ws => (ws.structOf? r).elim 0 StructDef.fieldCount
  let fields ← fieldLines r count 0
  let next ← r.nextInfo false
  let values ← valuesOf r sources
  pure ⟨r, size, reason, fields, next, values⟩

/-- The reports on some instances, one after the other. -/
def reportsOn (sources : List String) : List InstanceRef → Resolve (List InstanceReport)
  | [] => pure []
  | r :: rs => do
    let report ← r.report sources
    let rest ← reportsOn sources rs
    pure (report :: rest)

/-! ## 2. Showing them -/

namespace InstanceReport

/-- The report in lines. -/
def lines (r : InstanceReport) : List String :=
  ["#" ++ toString r.ref.id ++ " " ++ r.ref.struct ++ " @" ++ decimalText r.ref.offset ++
    " size " ++ knownText r.size ++ " (" ++ r.reason.text ++ ")"] ++
  r.fields.map ("  " ++ ·) ++
  ["  next: " ++ r.next] ++
  r.values.map fun v => "  " ++ v.1 ++ " = " ++ decimalText v.2

/-- The report as JSON. -/
def encode (r : InstanceReport) : Json :=
  .record [("id", .ofInt r.ref.id), ("def_name", .string r.ref.struct),
    ("offset", .ofWord r.ref.offset), ("size", r.size.elim .null Json.ofWord),
    ("reason", .string r.reason.text), ("fields", .array (r.fields.map .string)),
    ("next", .string r.next),
    ("eval", .array (r.values.map fun v => .array [.string v.1, .ofWord v.2]))]

end InstanceReport

end ByteAtlas
