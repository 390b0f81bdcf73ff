import ByteAtlas.Resolve.Frames

/-!
# Questions to an instance

What can be asked of an instance in a workspace, and what can be made from it. Fields go by their
index in the definition. A lazy question neither reads elements to find out where something is nor
measures children. All answers are kept until the instance or its definition is edited.
-/

namespace ByteAtlas

open Resolve (ask resolving)

namespace InstanceRef

/-! ## 1. Fields -/

/-- Has the first fields laid out. -/
def enumerate (r : InstanceRef) (upTo : Nat) (isLazy : Bool) : Resolve Unit :=
  resolving fun resolver => resolver.enumerate r upTo isLazy

/-- The number of fields laid out so far, up to date or not. -/
def laidOutCount (r : InstanceRef) : Resolve Nat := ask fun ws => (ws.layoutOf r).entries.size

/-- Whether a field's condition holds. -/
def isPresent (r : InstanceRef) (i : Nat) (isLazy : Bool) : Resolve (Option Bool) :=
  resolving fun resolver => resolver.isPresent r i isLazy

/-- Where a field starts. -/
def fieldOffset (r : InstanceRef) (i : Nat) (isLazy : Bool) : Resolve (Option Int64) :=
  resolving fun resolver => resolver.fieldOffset r i isLazy

/-- Where an element of a field starts. -/
def valueOffset (r : InstanceRef) (i n : Nat) (isLazy : Bool) : Resolve (Option Int64) :=
  resolving fun resolver => resolver.valueOffset r i n isLazy

/-- The number of elements of a field, or of bytes that they may take. -/
def elementCount (r : InstanceRef) (i : Nat) (isLazy : Bool) : Resolve (Option Int64) :=
  resolving fun resolver => resolver.elementCount r i isLazy

/-- The room that a field takes up. -/
def totalSize (r : InstanceRef) (i : Nat) (isLazy : Bool) : Resolve (Option Int64) :=
  resolving fun resolver => resolver.totalSize r i isLazy

/-- The joined preview of a field. -/
def fieldPreview (r : InstanceRef) (i : Nat) (isLazy : Bool) : Resolve String :=
  resolving fun resolver => resolver.fieldPreview r i isLazy

/-- The preview of an element. -/
def valuePreview (r : InstanceRef) (i n : Nat) : Resolve (Option String) :=
  resolving fun resolver => resolver.valuePreview r i n

/-- The integer reading of an element, 0 if it is not there. -/
def intValue (r : InstanceRef) (i n : Nat) : Resolve Int64 :=
  resolving fun resolver => resolver.intValue r i n

/-- A line about a field. -/
def fieldSummary (r : InstanceRef) (i : Nat) : Resolve String :=
  resolving fun resolver => resolver.fieldSummary r i

/-! ## 2. The instance -/

/-- The size in bytes. -/
def size (r : InstanceRef) (isLazy : Bool) : Resolve (Option Int64) :=
  resolving fun resolver => resolver.size r isLazy

/-- Whether the chain goes on. -/
def canCreateNext (r : InstanceRef) (isLazy loose : Bool) : Resolve (Option Bool) :=
  resolving fun resolver => resolver.canCreateNext r isLazy loose

/-- A line about the next instance of the chain. -/
def nextInfo (r : InstanceRef) (isLazy : Bool) : Resolve String :=
  resolving fun resolver => resolver.nextInfo r isLazy

/-- Places the next instance of the chain. -/
def createNext (r : InstanceRef) (reason : Reason) : Resolve (Option InstanceRef) :=
  resolving fun resolver => resolver.createNext r reason

/-- Places the children in a field and shows them to a visitor. -/
def walk {σ : Type} (r : InstanceRef) (i : Nat) (upTo : Option Nat) (reason : Reason)
    (visit : Visitor σ) (s : σ) : Resolve (σ × Option InstanceRef) :=
  resolving fun resolver => resolver.walk r i upTo reason visit s

/-- The value that an argument for children has. -/
def argValue (r : InstanceRef) (binding : ArgBinding) : Resolve Int64 :=
  resolving fun resolver => resolver.argValue r binding

/-! ## 3. Expressions -/

/-- **The value of the text of an expression**, for all of the instance. -/
def evaluate (r : InstanceRef) (source : String) : Resolve Int64 :=
  resolving fun resolver => resolver.evaluateIn (.whole r) (Expr.compile source).tree

end InstanceRef

/-! ## 4. Scopes -/

namespace Scope

/-- What a name stands for in an instance. -/
def lookup (scope : Scope) (r : InstanceRef) (name : String) (index : Int64) (isOffset : Bool) :
    Resolve (Option Int64) :=
  resolving fun resolver => resolver.lookup scope r name index isOffset

/-- The joined preview of a field of an instance. -/
def preview (scope : Scope) (r : InstanceRef) (name : String) : Resolve (Option String) :=
  resolving fun resolver => resolver.namedPreview scope r name

/-- The children in a field of some instances. -/
def children (scope : Scope) (parents : List InstanceRef) (field : String) (filter : QueryFilter) :
    Resolve (List InstanceRef) :=
  resolving fun resolver => (resolver.environment scope).children parents field filter

/-- The live instances of a struct. -/
def instancesOf (scope : Scope) (struct : String) (isGlobal : Bool) (filter : QueryFilter) :
    Resolve (List InstanceRef) :=
  resolving fun resolver => (resolver.environment scope).instancesOf struct isGlobal filter

/-- The value of an expression. -/
def evaluate (scope : Scope) (expr : Expr) : Resolve Int64 :=
  resolving fun resolver => resolver.evaluateIn scope expr

/-- The instances that a query selects. -/
def select (scope : Scope) (query : Query) : Resolve (List InstanceRef) :=
  resolving fun resolver => query.run (resolver.environment scope)

end Scope

end ByteAtlas
