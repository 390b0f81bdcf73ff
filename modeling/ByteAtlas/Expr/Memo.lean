import ByteAtlas.Expr.Compile

/-!
# Remembered expressions

An `ExprMemo` compiles each text once. A text keeps the slot it got at first, so two requests give
the same tree from the same slot exactly if their texts are equal.
-/

namespace ByteAtlas

/-- The texts compiled so far with their trees, in the order of first use. -/
structure ExprMemo where
  entries : List (String × Expr)

namespace ExprMemo

def empty : ExprMemo := ⟨[]⟩

/-- The number of texts compiled. -/
def size (memo : ExprMemo) : Nat := memo.entries.length

def isEmpty (memo : ExprMemo) : Bool := memo.entries.isEmpty

/-- The slot and the tree of a text, which is compiled if it is new. -/
def get (memo : ExprMemo) (source : String) : (Nat × Expr) × ExprMemo :=
  match memo.entries.findIdx? fun e => e.1 == source with
  | some i => ((i, (memo.entries[i]?.map Prod.snd).getD .error), memo)
  | none =>
    let expr := (Expr.compile source).tree
    ((memo.size, expr), ⟨memo.entries ++ [(source, expr)]⟩)

end ExprMemo

end ByteAtlas
