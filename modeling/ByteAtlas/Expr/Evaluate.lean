import ByteAtlas.Expr.Compile
import ByteAtlas.Expr.Environment

/-!
# Evaluation

`Expr.evaluate` gives the value of an expression in an environment, `Query.run` the instances that a
query selects. Evaluation always succeeds: what is not found counts as 0, a missing instance has the
id -1, and an error node is 0 or no instances.

Operands are evaluated from left to right. A query comes before the index that is applied to its
first instance, parents before the conditions on their children, and a selector last.
-/

namespace ByteAtlas

/-- **The instance of a rank by offset**, those of one offset keeping their order. There is none at
    a negative rank or past the last. -/
def selectRank {ι : Type} (offsetOf : ι → Int64) (rank : Int64) (found : List ι) : List ι :=
  if rank < 0 then []
  else ((found.mergeSort fun a b => offsetOf a ≤ offsetOf b)[rank.toInt.toNat]?).toList

section

variable {m : Type → Type} [Monad m] {ι : Type} (env : Environment m ι)

mutual

/-- The value of an expression. -/
def Expr.evaluate : Expr → m Int64
  | .constant n => pure n
  | .unary op a => do
    let x ← a.evaluate
    pure (op.apply x)
  | .binary op a b => do
    let x ← a.evaluate
    let y ← b.evaluate
    pure (op.apply x y)
  | .rawRead t a => do
    let offset ← a.evaluate
    let bytes ← env.read offset t.size
    pure (t.decode bytes)
  | .member q name i isOffset => do
    let found ← match q with
      | some q => q.run
      | none => pure env.roots
    match found with
    | [] => pure 0
    | inst :: _ => do
      let index ← match i with
        | some e => e.evaluate
        | none => pure 0
      let value ← env.lookup inst name index isOffset
      pure (value.getD 0)
  | .structOffset q => do
    let found ← q.run
    pure ((found.head?.map env.offsetOf).getD 0)
  | .previewTest q name text invert => do
    let found ← match q with
      | some q => q.run
      | none => pure env.roots
    let hit ← found.anyM fun inst => do
      let preview ← env.preview inst name
      pure ((preview == some text) != invert)
    pure (BinaryOp.truth hit)
  | .instanceId q => do
    let found ← match q with
      | some q => q.run
      | none => pure env.roots
    pure ((found.head?.map env.idOf).getD (-1))
  | .error => pure 0

/-- The instances that a query selects. -/
def Query.run : Query → m (List ι)
  | .root struct isGlobal filters => do
    let values ← filters.conditions
    let found ← env.instancesOf struct isGlobal ⟨filters.texts, values⟩
    filters.select found
  | .sub parent field filters => do
    let parents ← match parent with
      | some p => p.run
      | none => pure env.roots
    let values ← filters.conditions
    let found ← env.children parents field ⟨filters.texts, values⟩
    filters.select found
  | .error => pure []

/-- The conditions on values, their expressions evaluated. -/
def Filters.conditions : Filters → m (List ValueCondition)
  | .mk _ values _ => evaluateValues values

/-- What is left of the instances found once the selector is applied. -/
def Filters.select (found : List ι) : Filters → m (List ι)
  | .mk _ _ selector =>
    match selector with
    | none => pure found
    | some e => do
      let rank ← e.evaluate
      pure (selectRank env.offsetOf rank found)

/-- The values that the conditions compare with. -/
def evaluateValues : List (String × Expr) → m (List ValueCondition)
  | [] => pure []
  | (name, e) :: vs => do
    let value ← e.evaluate
    let rest ← evaluateValues vs
    pure (⟨name, value⟩ :: rest)

end

end

end ByteAtlas
