import ByteAtlas.Workspace.Basic
import ByteAtlas.Expr.Evaluate

/-!
# Resolution

To resolve is to compute on demand what a schema says about an instance. A step of it, `Resolve α`,
reads and changes the workspace: it fills the layouts, and it may place child instances. The only
`Fault` is that elements are to be cut to a negative limit; the workspace is then left as it is.

Two kinds of step may lead to one another without end, laying out fields and evaluating expressions.
Each of them takes a frame (`inFrame`). A frame beyond the limit is refused, and the step then has
no result. What was computed while a frame was refused somewhere within is not known
(`unlessCutShort`), so it is not kept.

A `Resolver` has the two steps that take a frame, for use one frame further in. All other steps are
built from them.
-/

namespace ByteAtlas

/-! ## 1. Steps -/

/-- Why a resolution breaks off. -/
inductive Fault where
  /-- A number of elements is to be cut to less than none. -/
  | negativeElementLimit
  deriving DecidableEq, Repr

/-- A step of a resolution, with the workspace as its state. -/
abbrev Resolve := ExceptT Fault (StateM Workspace)

namespace Resolve

variable {α β : Type}

/-- Something of the workspace as it is now. -/
def ask (f : Workspace → α) : Resolve α := do
  let ws ← get
  pure (f ws)

/-- A change of the workspace with a result. -/
def update (f : Workspace → α × Workspace) : Resolve α := modifyGet f

/-- A change of the workspace. -/
def change (f : Workspace → Workspace) : Resolve Unit := modify f

/-- Runs a step in a workspace. -/
def runIn (step : Resolve α) (ws : Workspace) : Except Fault α × Workspace :=
  Id.run (StateT.run (ExceptT.run step) ws)

@[simp] theorem runIn_pure (a : α) (ws : Workspace) : runIn (pure a) ws = (.ok a, ws) := rfl

@[simp] theorem runIn_throw (fault : Fault) (ws : Workspace) :
    runIn (throw fault : Resolve α) ws = (.error fault, ws) := rfl

@[simp] theorem runIn_ask (f : Workspace → α) (ws : Workspace) :
    runIn (ask f) ws = (.ok (f ws), ws) := rfl

@[simp] theorem runIn_update (f : Workspace → α × Workspace) (ws : Workspace) :
    runIn (update f) ws = (.ok (f ws).1, (f ws).2) := rfl

@[simp] theorem runIn_change (f : Workspace → Workspace) (ws : Workspace) :
    runIn (change f) ws = (.ok (), f ws) := rfl

/-- Two steps one after the other: the second starts where the first has left the workspace, and is
    not taken after a fault. -/
theorem runIn_bind (step : Resolve α) (next : α → Resolve β) (ws : Workspace) :
    runIn (step >>= next) ws =
      match runIn step ws with
      | (.ok a, ws') => runIn (next a) ws'
      | (.error fault, ws') => (.error fault, ws') := by
  unfold runIn ExceptT.run StateT.run Id.run
  simp only [bind, ExceptT.bind, ExceptT.mk, StateT.bind, ExceptT.bindCont]
  cases step ws with
  | mk result next => cases result <;> rfl

@[simp] theorem runIn_map (f : α → β) (step : Resolve α) (ws : Workspace) :
    runIn (f <$> step) ws = ((runIn step ws).1.map f, (runIn step ws).2) := by
  rw [map_eq_pure_bind, runIn_bind]
  rcases runIn step ws with ⟨_ | _, _⟩ <;> rfl

end Resolve

open Resolve (ask update change)

/-! ## 2. Limits and frames -/

/-- A limit is hit. -/
def noteLimitHit : Resolve Unit :=
  change fun ws => { ws with limitHits := ws.limitHits + 1 }

/-- A frame is refused. -/
def refuseFrame : Resolve Unit :=
  change fun ws => { ws with refusals := ws.refusals + 1, limitHits := ws.limitHits + 1 }

section

variable {α : Type}

/-- **A step within one more frame**, if there is one left. -/
def inFrame (step : Resolve α) : Resolve (Option α) := do
  if ← ask fun ws => decide (ws.depth < ws.limits.maxDepth) then
    change fun ws => { ws with depth := ws.depth + 1 }
    let a ← step
    change fun ws => { ws with depth := ws.depth - 1 }
    pure (some a)
  else
    refuseFrame
    pure none

/-- Beyond the limit nothing happens but the refusal. -/
theorem runIn_inFrame_of_le (step : Resolve α) {ws : Workspace}
    (h : ws.limits.maxDepth ≤ ws.depth) :
    (inFrame step).runIn ws = (.ok none, (refuseFrame.runIn ws).2) := by
  simp [inFrame, Resolve.runIn_bind, refuseFrame, Nat.not_lt.mpr h, Except.map]

/-- Below the limit the step runs one frame further in, and the frame is given back after it. -/
theorem runIn_inFrame_of_lt (step : Resolve α) {ws : Workspace}
    (h : ws.depth < ws.limits.maxDepth) :
    (inFrame step).runIn ws =
      match step.runIn { ws with depth := ws.depth + 1 } with
      | (.ok a, ws') => (.ok (some a), { ws' with depth := ws'.depth - 1 })
      | (.error fault, ws') => (.error fault, ws') := by
  simp only [inFrame, Resolve.runIn_bind, Resolve.runIn_ask, h, decide_true, if_true,
    Resolve.runIn_change, Resolve.runIn_pure]

/-- **The result of a step, unless a frame was refused within it.** -/
def unlessCutShort (step : Resolve (Option α)) : Resolve (Option α) := do
  let before ← ask Workspace.refusals
  let result ← step
  let after ← ask Workspace.refusals
  pure (if after = before then result else none)

end

/-! ## 3. What is known about an instance -/

/-- The definition of an instance's struct. -/
def structOf? (r : InstanceRef) : Resolve (Option StructDef) := ask (·.structOf? r)

/-- The name and the definition of a field. -/
def fieldOf? (r : InstanceRef) (i : Nat) : Resolve (Option (String × Field)) :=
  ask (·.fieldOf? r i)

def layoutOf (r : InstanceRef) : Resolve Layout := ask (·.layoutOf r)

def entryOf? (r : InstanceRef) (i : Nat) : Resolve (Option FieldEntry) := ask (·.entryOf? r i)

def modifyLayout (r : InstanceRef) (f : Layout → Layout) : Resolve Unit :=
  change (·.modifyLayout r f)

def modifyEntry (r : InstanceRef) (i : Nat) (f : FieldEntry → FieldEntry) : Resolve Unit :=
  modifyLayout r (·.modifyEntry i f)

/-- Drops what was computed from other versions. -/
def validateLayout (r : InstanceRef) (d : StructDef) : Resolve Unit :=
  change fun ws => ws.modifyLayout r fun l => l.validated (ws.stampOf r d) r.offset

/-! ## 4. The resolver -/

/-- What an expression is evaluated for, and what it sees. -/
structure Scope where
  root : InstanceRef
  /-- Names with values of their own. They hide those of the root. -/
  constants : List (String × Int64)
  /-- While the root is laid out: the field for which it is. Of the root's fields only those before
      it are seen, and queries find nothing. -/
  before : Option Nat
  deriving Repr

namespace Scope

/-- All of an instance. -/
def whole (root : InstanceRef) : Scope := ⟨root, [], none⟩

/-- An instance as far as it is laid out, for the condition of a field. -/
def upToField (root : InstanceRef) (i : Nat) : Scope := ⟨root, [], some i⟩

/-- All of an instance, with constants. -/
def withConstants (root : InstanceRef) (constants : List (String × Int64)) : Scope :=
  ⟨root, constants, none⟩

end Scope

/-- **The steps that take a frame.** -/
structure Resolver where
  /-- Lays out the first fields of an instance. A lazy layout stops before a field that would have
      to be read or measured. -/
  layOut : (r : InstanceRef) → (d : StructDef) → (upTo : Nat) → (isLazy : Bool) → Resolve Unit
  /-- The value of an expression. -/
  evaluate : Scope → Expr → Resolve (Option Int64)

end ByteAtlas
