import ByteAtlas.Resolve.Instance
import ByteAtlas.Proofs.Resolve.Known

/-!
# An instance as a table of variables

An expression can be evaluated against named constants and a buffer (`Constants.environment`) or for
an instance (`Resolver.environment`). The two have nothing in common but the expression: one looks a
name up in a table and reads a buffer, the other asks arguments, fields and parameters in turn and
reads an open file.

They agree where an instance has nothing but arguments and its file is a buffer: a plain expression
then has the same value for both, and evaluating it for the instance leaves the workspace as it is
(`Workspace.HasVariables.evaluate_plain`).
-/

namespace ByteAtlas

/-! ## 1. Reads -/

/-- A buffer is read like the bytes that it was made of, also at its end and past it. -/
theorem Source.read_ofBytes (name : String) (bytes : Bytes) (offset length : Nat) :
    (Source.ofBytes name bytes).read offset length = bytes.read offset length := by
  by_cases hend : offset < bytes.size
  · exact if_pos hend
  · have hnone : (bytes.read offset length).length = 0 := by
      rw [Bytes.length_read]
      omega
    rw [List.eq_nil_of_length_eq_zero hnone]
    exact if_neg hend

theorem Workspace.read_ofBytes {ws : Workspace} {file : FileId} {name : String} {bytes : Bytes}
    (hfile : ws.file? file = some (.ofBytes name bytes)) (offset : Int64) (length : Nat) :
    ws.read file offset length = bytes.readAt offset length := by
  unfold Workspace.read Bytes.readAt
  rw [hfile]
  dsimp only
  rw [Source.read_ofBytes]

/-! ## 2. Plain expressions -/

/-- Whether an expression computes with constants, reads and names only, and each name stands by
itself: it is applied to no query and has no index. -/
def Expr.isPlain : Expr → Bool
  | .constant _ | .error => true
  | .unary _ a => a.isPlain
  | .binary _ a b => a.isPlain && b.isPlain
  | .rawRead _ a => a.isPlain
  | .member q _ i _ => q.isNone && i.isNone
  | .structOffset _ | .previewTest .. | .instanceId _ => false

/-- A name among constants has no offset, and one that is missing has the value 0. -/
theorem Constants.evaluate_name (c : Constants) (name : String) (isOffset : Bool) :
    Id.run ((Expr.member none name none isOffset).evaluate c.environment) =
      (c.values[name]?.map fun n => if isOffset then 0 else n).getD 0 := by
  rw [Expr.evaluate]
  change (if (0 : Int64) ≠ 0 ∨ isOffset then none else c.values[name]?).getD 0 = _
  cases isOffset <;> cases c.values[name]? <;> simp

/-! ## 3. Tables of variables -/

/-- **An instance that is no more than a table of variables**: its arguments are the named values,
its definition has no fields and no parameters, and its file is a buffer of the bytes. -/
structure Workspace.HasVariables (ws : Workspace) (r : InstanceRef) (c : Constants) : Prop where
  live : ws.IsLive r
  args : ∀ name, ws.argOf? r name = c.values[name]?
  struct : ∃ d, ws.structOf? r = some d ∧ d.fields = .empty ∧ d.params = []
  file : ∃ name, ws.file? r.file = some (.ofBytes name c.bytes)

section

variable {ws : Workspace} {r : InstanceRef} {c : Constants}

theorem Workspace.HasVariables.read (h : ws.HasVariables r c) (offset : Int64) (length : Nat) :
    ws.read r.file offset length = c.bytes.readAt offset length := by
  obtain ⟨name, hfile⟩ := h.file
  exact read_ofBytes hfile offset length

/-- A name stands for the variable, and the instance has no other names. The offset of a variable is
not there in the table and 0 in the instance. -/
theorem Workspace.HasVariables.runIn_lookup (h : ws.HasVariables r c) (resolver : Resolver)
    (name : String) (isOffset : Bool) :
    (resolver.lookup (.whole r) r name 0 isOffset).runIn ws =
      (.ok (c.values[name]?.map fun n => if isOffset then 0 else n), ws) := by
  obtain ⟨d, hd, hfields, hparams⟩ := h.struct
  have hconstant : (Scope.whole r).constant? r name = none := by
    simp [Scope.constant?, Scope.whole]
  have hindex : d.fieldIndex? name = none := by
    rw [StructDef.fieldIndex?, hfields]
    rfl
  have hparam : d.param? name = none := by
    rw [StructDef.param?, hparams]
    rfl
  unfold Resolver.lookup
  rw [Resolve.runIn_bind, Resolve.runIn_ask]
  dsimp only
  rw [hconstant, Option.none_or, h.args name]
  cases c.values[name]? with
  | some n => rfl
  | none =>
    dsimp only
    rw [ByteAtlas.structOf?, Resolve.runIn_bind, Resolve.runIn_ask, hd]
    dsimp only
    rw [hindex]
    dsimp only
    rw [hparam]
    rfl

/-- **A plain expression has the same value for an instance as for the variables that the instance
has.** -/
theorem Workspace.HasVariables.runIn_evaluateIn (h : ws.HasVariables r c) (resolver : Resolver)
    {e : Expr} (he : e.isPlain = true) :
    (resolver.evaluateIn (.whole r) e).runIn ws =
      (.ok (Id.run (e.evaluate c.environment)), ws) := by
  unfold Resolver.evaluateIn
  induction e using Expr.isPlain.induct with
  | case1 n => rfl
  | case2 => rfl
  | case3 op a ih =>
    rw [Expr.evaluate, Resolve.runIn_bind, ih he]
    rfl
  | case4 op a b iha ihb =>
    obtain ⟨ha, hb⟩ := Bool.and_eq_true_iff.mp he
    rw [Expr.evaluate, Resolve.runIn_bind, iha ha]
    dsimp only
    rw [Resolve.runIn_bind, ihb hb]
    rfl
  | case5 t a ih =>
    rw [Expr.evaluate, Resolve.runIn_bind, ih he]
    dsimp only [Resolver.environment]
    rw [Resolve.runIn_bind, Resolve.runIn_ask]
    exact congrArg (fun bytes => (Except.ok (t.decode bytes), ws)) (h.read _ _)
  | case6 q name i isOffset =>
    obtain ⟨hq, hi⟩ := Bool.and_eq_true_iff.mp he
    cases Option.isNone_iff_eq_none.mp hq
    cases Option.isNone_iff_eq_none.mp hi
    rw [Expr.evaluate, Resolve.runIn_bind, Resolve.runIn_pure]
    dsimp only [Resolver.environment]
    rw [Resolve.runIn_bind, Resolve.runIn_pure]
    dsimp only
    rw [Resolve.runIn_bind, show Scope.root (.whole r) = r from rfl, h.runIn_lookup]
    dsimp only
    rw [Resolve.runIn_pure]
    rw [c.evaluate_name]
  | case7 | case8 | case9 => exact absurd he (by simp [Expr.isPlain])

/-- **The value of a plain expression depends on the variables and the bytes alone.** Whether they
are given as a table and a buffer, or as the arguments of an instance in a buffer, evaluation gives
the same, and it leaves the workspace as it is. -/
theorem Workspace.HasVariables.evaluate_plain (h : ws.HasVariables r c) {e : Expr}
    (he : e.isPlain = true) :
    ((Scope.whole r).evaluate e).runIn ws = (.ok (Id.run (e.evaluate c.environment)), ws) :=
  (Resolve.runIn_resolving _ rfl).trans (h.runIn_evaluateIn _ he)

end

/-! ## 4. Every table is the one of an instance -/

/-- The named values as arguments. -/
def Constants.args (c : Constants) : List Arg :=
  c.values.toList.map fun v => ⟨v.1, v.2⟩

theorem argValue?_map (name : String) (values : List (String × Int64)) :
    argValue? name (values.map fun v => ⟨v.1, v.2⟩) =
      (values.find? fun v => compare v.1 name == .eq).map Prod.snd := by
  induction values with
  | nil => rfl
  | cons v values ih =>
    by_cases hname : v.1 = name
    · simp [argValue?, hname]
    · simp [argValue?, hname, ih]

theorem Constants.argValue?_args (c : Constants) (name : String) :
    argValue? name c.args = c.values[name]? := by
  rw [args, argValue?_map]
  by_cases hmem : name ∈ c.values
  · have hfound := Std.TreeMap.find?_toList_eq_some_iff_getKey?_eq_some_and_getElem?_eq_some.mpr
      ⟨Std.TreeMap.getKey?_eq_some hmem, Std.TreeMap.getElem?_eq_some_getElem hmem⟩
    rw [hfound, Std.TreeMap.getElem?_eq_some_getElem hmem]
    rfl
  · rw [Std.TreeMap.find?_toList_eq_none_iff_not_mem.mpr hmem,
      Std.TreeMap.getElem?_eq_none hmem]
    rfl

/-- A workspace with one instance, of a struct without fields, that has the named values as its
arguments and a buffer of the bytes. -/
def Workspace.ofConstants (c : Constants) : Workspace :=
  (((ofSchema ⟨(∅ : Std.TreeMap String StructDef).insert "Variables" .empty, 0⟩ .default).addSource
    (.ofBytes "bytes" c.bytes)).2.place
      { Placement.single ⟨"Variables", 0, 0⟩ .user with args := c.args }).2

theorem Workspace.hasVariables_ofConstants (c : Constants) :
    (ofConstants c).HasVariables ⟨0, ⟨"Variables", 0, 0⟩⟩ c where
  live := ⟨_, rfl, rfl⟩
  args := c.argValue?_args
  struct := ⟨.empty, rfl, rfl, rfl⟩
  file := ⟨"bytes", rfl⟩

/-- Two bytes are left at the offset at which four are read, and the missing ones count as 0; the
variable is the argument of the instance. -/
theorem Workspace.evaluate_plain_pastEnd :
    let c := Constants.ofList [("n", 256)] #[1, 2, 3, 4]
    let e := Expr.binary .mul (.member none "n" none false) (.rawRead .u32 (.constant 2))
    ((Scope.whole ⟨0, ⟨"Variables", 0, 0⟩⟩).evaluate e).runIn (ofConstants c) =
        (.ok (Id.run (e.evaluate c.environment)), ofConstants c) ∧
      Id.run (e.evaluate c.environment) = 0x40300 :=
  ⟨(hasVariables_ofConstants _).evaluate_plain rfl, by decide +kernel⟩

end ByteAtlas
