import ByteAtlas.Expr.Evaluate

/-!
# Evaluation in parts

A node of an expression may leave out its query or its index. What stands in for them gets a name
here, and each node that may leave out something is evaluated in parts: first the query, then the
index, then what the environment says about the instance.
-/

namespace ByteAtlas

section

variable {m : Type → Type} [Monad m] {ι : Type} (env : Environment m ι)

/-- The instances that a node is about; without a query, the roots. -/
def Query.runOrRoots : Option Query → m (List ι)
  | some q => q.run env
  | none => pure env.roots

/-- The index of an element; 0 if there is none. -/
def Expr.evaluateIndex : Option Expr → m Int64
  | some e => e.evaluate env
  | none => pure 0

theorem Expr.evaluate_member (q : Option Query) (name : String) (i : Option Expr)
    (isOffset : Bool) :
    (Expr.member q name i isOffset).evaluate env = (do
      match ← Query.runOrRoots env q with
      | [] => pure 0
      | inst :: _ => do
        let index ← Expr.evaluateIndex env i
        let value ← env.lookup inst name index isOffset
        pure (value.getD 0)) := by
  unfold Expr.evaluate
  cases q <;> cases i <;> rfl

theorem Expr.evaluate_previewTest (q : Option Query) (name text : String) (invert : Bool) :
    (Expr.previewTest q name text invert).evaluate env = (do
      let found ← Query.runOrRoots env q
      let hit ← found.anyM fun inst => do
        let preview ← env.preview inst name
        pure ((preview == some text) != invert)
      pure (BinaryOp.truth hit)) := by
  unfold Expr.evaluate
  cases q <;> rfl

theorem Expr.evaluate_instanceId (q : Option Query) :
    (Expr.instanceId q).evaluate env = (do
      let found ← Query.runOrRoots env q
      pure ((found.head?.map env.idOf).getD (-1))) := by
  unfold Expr.evaluate
  cases q <;> rfl

theorem Query.run_sub (parent : Option Query) (field : String) (filters : Filters) :
    (Query.sub parent field filters).run env = (do
      let parents ← Query.runOrRoots env parent
      let values ← filters.conditions env
      let found ← env.children parents field ⟨filters.texts, values⟩
      filters.select env found) := by
  unfold Query.run
  cases parent <;> rfl

end

end ByteAtlas
