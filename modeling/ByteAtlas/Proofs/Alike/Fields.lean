import ByteAtlas.Proofs.Alike.Steps
import ByteAtlas.Proofs.Resolve.FieldLaw

/-!
# Questions in alike workspaces

For each question about the fields of an instance, its size and its chain: it has the same answer in
workspaces that are alike, and they are alike afterwards. That goes along the definitions, for an
instance that is not loose and a resolver whose frames do the same (`Resolver.Steady`). What is
asked of a loose instance is taken as given.
-/

namespace ByteAtlas

open Resolve (Agree noRefs)

/-- **Whether what is asked of loose instances is the same**, and they hold no children. -/
structure Resolver.SteadyOnLoose (k : Likeness) (resolver : Resolver) : Prop where
  size : ∀ {live : InstanceRef → Prop} {r : InstanceRef}, live r → k.loose r →
    k.Steady live (resolver.size r false)
  meets : ∀ {live : InstanceRef → Prop} {r : InstanceRef} (filter : QueryFilter), live r →
    k.loose r → k.Steady live (resolver.meets r filter)
  lookup : ∀ {live : InstanceRef → Prop} {r : InstanceRef} (scope : Scope) (name : String)
    (index : Int64) (isOffset : Bool), live r → k.loose r →
    k.Steady live (resolver.lookup scope r name index isOffset)
  namedPreview : ∀ {live : InstanceRef → Prop} {r : InstanceRef} (scope : Scope) (name : String),
    live r → k.loose r → k.Steady live (resolver.namedPreview scope r name)
  leaf : ∀ {ws ws' : Workspace} {r : InstanceRef} (i : Nat), k.Alike ws ws' → k.loose r →
    ws.holdsChildren r i = false

/-- **Whether a resolver does the same** in workspaces that are alike: its frames for instances that
are not loose, and what is asked of the others. -/
structure Resolver.Steady (k : Likeness) (resolver : Resolver) : Prop where
  layOut : ∀ {live : InstanceRef → Prop} {r : InstanceRef} (d : StructDef) (upTo : Nat)
    (isLazy : Bool), live r → ¬ k.loose r → k.Steady live (resolver.layOut r d upTo isLazy)
  evaluate : ∀ {live : InstanceRef → Prop} {scope : Scope} (expr : Expr), live scope.root →
    ¬ k.loose scope.root → k.Steady live (resolver.evaluate scope expr)
  onLoose : resolver.SteadyOnLoose k

namespace Resolver.Steady

variable {k : Likeness} {resolver : Resolver} {live : InstanceRef → Prop} {r : InstanceRef}

/-- What is read depends on the workspace, which is another one, but comes out the same. -/
theorem readOn (hr : live r) (hn : ¬ k.loose r) (i : Nat) (field : Field) (type : ScalarType)
    (wanted : Wanted) (start count : Int64) :
    k.Steady live (Resolver.readOn r i field type wanted start count) := by
  let read (ws : Workspace) : Option (Array Element × Int64) :=
    (ws.entryOf? r i).map fun entry =>
      ws.readElements r.file field type count start
        (wanted.missing entry.values.size (ws.fileSize r.file))
        (entry.nextElement.getD start) entry.values
  have hread : k.Steady live (Resolve.ask read) := .ask fun {ws ws'} halike hlive => by
    show (ws'.entryOf? r i).map _ = (ws.entryOf? r i).map _
    simp only [halike.entryOf? (hlive r hr) hn i, halike.readElements, halike.fileSize]
  let rest : Option (Array Element × Int64) → Resolve Bool
    | none => pure false
    | some (values, next) => do
      modifyEntry r i fun e => { e with values := values, nextElement := some next }
      pure (wanted.metBy values.size)
  have hrest : k.Steady live (Resolve.ask read >>= rest) := hread.bind fun
    | none => .pure false
    | some _ => .bind (.modifyEntry hr hn i _) fun _ => .pure _
  refine hrest.congr fun ws => ?_
  unfold Resolver.readOn
  rw [Resolve.runIn_bind, Resolve.runIn_bind, Resolve.runIn_ask]
  dsimp only [read]
  show Resolve.runIn _ ws = _
  cases ws.entryOf? r i <;> rfl

variable (h : resolver.Steady k) (hr : live r)
include h hr

/-- **Doing the same is a law** of what is asked of an instance that is not loose. -/
def law (hn : ¬ k.loose r) : resolver.FieldLaw resolver r where
  Holds step _ := k.Steady live step
  Defines _ := True
  pure := .pure
  bind := .bind
  struct hn := .bind (.structOf? r) fun d => hn d fun _ _ => trivial
  schema g := .ask fun halike _ => congrArg g halike.schema
  fileSize := .ask fun halike _ => halike.fileSize r.file
  layout := .layoutOf hr hn
  instance? _ hg := .ask fun halike _ => halike.apply_find? hg r.id
  evaluate _ _ _ _ _ := h.evaluate _ hr hn

theorem notes (hn : ¬ k.loose r) : (h.law hr hn).Notes where
  modifyLayout := .modifyLayout hr hn
  validate := .validateLayout hr hn
  readOn := readOn hr hn
  limitCount := .limitCount
  unlessCutShort := .unlessCutShort
  layOut {d} upTo isLazy _ := h.layOut d upTo isLazy hr hn

theorem answers (hn : ¬ k.loose r) : (h.law hr hn).Answers := (h.notes hr hn).answers

/-- The size of any instance. -/
theorem size : k.Steady live (resolver.size r false) := by
  by_cases hn : k.loose r
  · exact h.onLoose.size hr hn
  · exact (h.answers hr hn).size false

theorem canCreateNext (loose : Bool) : k.Steady live (resolver.canCreateNext r false loose) := by
  have hleft (size : Int64) : k.Steady live (Resolver.budgetAfter r size) := .ask fun halike _ =>
    halike.apply_find? (g := fun i => i.elim 0 fun i => i.budgetAfter size) (fun _ _ => rfl) r.id
  exact .bind (h.size hr) fun
    | none => .pure none
    | some size => .bind (hleft size) fun _ => .pure _

end Resolver.Steady

end ByteAtlas
