import Mathlib
import ByteAtlas.Proofs.Expr.Evaluation
import ByteAtlas.Proofs.Lazy.Fields
import ByteAtlas.Resolve.Frames

/-!
# Lazy questions place nothing

Laying out lazily, and evaluating what keeps to the instance, keep to the instance. So this holds of
all frames (`Resolver.keepsTo_within`), and a lazy question to an instance of a self-contained
definition leaves the directory as it is (`Workspace.Contained.lazy_directory`).

The definition has to be self-contained. A condition that asks for the second child of an earlier
field has it placed, however lazily the field with the condition is asked for.
-/

namespace ByteAtlas

namespace Resolver.KeepsTo

variable {resolver : Resolver} {r : InstanceRef} {ws : Workspace} (h : resolver.KeepsTo r)
include h

/-! ## 1. Expressions -/

/-- **What a name stands for**, where its field can be laid out. -/
theorem lookup (hc : ws.Contained r) (scope : Scope) (name : String) (index : Int64)
    (isOffset : Bool) (ho : ∀ d, ws.structOf? r = some d → ∀ i,
      d.fieldIndex? name = some i → ws.Opens r (i + 1) ∧
      (isOffset = true → index ≠ 0 → ws.holdsChildren r i = false)) :
    Resolve.KeepsTo r ws (resolver.lookup scope r name index isOffset) fun _ _ => True := by
  unfold Resolver.lookup
  refine .ask ?_
  dsimp only
  cases (scope.constant? r name).or (ws.argOf? r name) with
  | some n => exact .done
  | none =>
    refine .ask ?_
    cases hd : ws.structOf? r with
    | none => exact .done
    | some d =>
      dsimp only
      cases hi : d.fieldIndex? name with
      | none => exact .done
      | some i =>
        obtain ⟨hopens, hplain⟩ := ho d hd i hi
        refine .ite (fun _ => .done) fun hshown => ?_
        cases isOffset with
        | true =>
          refine h.valueOffset hc i _ (.inr hopens) (.inr ?_)
          by_cases hindex : index = 0
          · subst hindex
            exact .inl rfl
          · exact .inr (hplain rfl hindex)
        | false => exact .map (h.intValue hc hopens _)

/-- The joined preview of a field that can be laid out. -/
theorem namedPreview (hc : ws.Contained r) (scope : Scope) (name : String)
    (ho : ∀ d, ws.structOf? r = some d → ∀ i, d.fieldIndex? name = some i → ws.Opens r (i + 1)) :
    Resolve.KeepsTo r ws (resolver.namedPreview scope r name) fun _ _ => True := by
  unfold Resolver.namedPreview
  refine .ask ?_
  cases hd : ws.structOf? r with
  | none => exact .done
  | some d =>
    rw [Option.bind_some]
    cases hi : d.fieldIndex? name with
    | none => exact .done
    | some i =>
      exact .ite (fun _ => .done) fun _ => .map (h.fieldPreview hc i (.inr (ho d hd i hi)))

end Resolver.KeepsTo

namespace Expr.KeepsTo

variable {r : InstanceRef} {ws ws' : Workspace}

theorem still {e : Expr} (h : e.KeepsTo r ws) (hs : ws.Still r ws') : e.KeepsTo r ws' :=
  ⟨h.1, fun d hd => (h.2 d ((hs.structOf? r).symm.trans hd)).imp_right fun hnames name hname i hi =>
    hs.opens (hnames name hname i hi)⟩

theorem unary {op : UnaryOp} {a : Expr} (h : (Expr.unary op a).KeepsTo r ws) : a.KeepsTo r ws := by
  unfold Expr.KeepsTo hasQuery asksChild names at h
  exact h

theorem rawRead {t : IntType} {a : Expr} (h : (Expr.rawRead t a).KeepsTo r ws) :
    a.KeepsTo r ws := by
  unfold Expr.KeepsTo hasQuery asksChild names at h
  exact h

theorem binary {op : BinaryOp} {a b : Expr} (h : (Expr.binary op a b).KeepsTo r ws) :
    a.KeepsTo r ws ∧ b.KeepsTo r ws := by
  unfold Expr.KeepsTo hasQuery asksChild names at h
  obtain ⟨hquery, hrest⟩ := h
  rw [Bool.or_eq_false_iff] at hquery
  refine ⟨⟨hquery.1, fun d hd => ?_⟩, hquery.2, fun d hd => ?_⟩
  · obtain ⟨hchild, hnames⟩ := hrest d hd
    rw [Bool.or_eq_false_iff] at hchild
    exact ⟨hchild.1, fun name hname => hnames name (List.mem_append_left _ hname)⟩
  · obtain ⟨hchild, hnames⟩ := hrest d hd
    rw [Bool.or_eq_false_iff] at hchild
    exact ⟨hchild.2, fun name hname => hnames name (List.mem_append_right _ hname)⟩

/-- The name of a node, and its index. -/
theorem member {name : String} {i : Option Expr} {isOffset : Bool}
    (h : (Expr.member none name i isOffset).KeepsTo r ws) :
    (∀ e, i = some e → e.KeepsTo r ws) ∧ ∀ d, ws.structOf? r = some d → ∀ j,
      d.fieldIndex? name = some j → ws.Opens r (j + 1) ∧
        (isOffset = true → i ≠ none → ws.holdsChildren r j = false) := by
  unfold Expr.KeepsTo hasQuery asksChild names at h
  obtain ⟨hquery, hrest⟩ := h
  refine ⟨?_, fun d hd j hj => ?_⟩
  · rintro e rfl
    refine ⟨hquery, fun d hd => ?_⟩
    obtain ⟨hchild, hnames⟩ := hrest d hd
    exact ⟨(Bool.or_eq_false_iff.mp hchild).1,
      fun name hname => hnames name (List.mem_cons_of_mem _ hname)⟩
  · obtain ⟨hchild, hnames⟩ := hrest d hd
    refine ⟨hnames name List.mem_cons_self j hj, fun hoffset hi => ?_⟩
    cases i with
    | none => exact absurd rfl hi
    | some e =>
      have hfield := (Bool.or_eq_false_iff.mp hchild).2
      rw [hoffset, Bool.true_and, hj, Option.bind_some] at hfield
      rw [Workspace.holdsChildren, Workspace.fieldOf?_eq hd]
      exact hfield

theorem previewTest {name text : String} {invert : Bool}
    (h : (Expr.previewTest none name text invert).KeepsTo r ws) :
    ∀ d, ws.structOf? r = some d → ∀ j, d.fieldIndex? name = some j → ws.Opens r (j + 1) := by
  unfold Expr.KeepsTo hasQuery asksChild names at h
  exact fun d hd j hj => (h.2 d hd).2 name (List.mem_singleton_self _) j hj

end Expr.KeepsTo

namespace Resolver.KeepsTo

variable {resolver : Resolver} {r : InstanceRef} {ws : Workspace} (h : resolver.KeepsTo r)
include h

/-- **An expression that keeps to the instance.** -/
theorem evaluateIn {scope : Scope} (hroot : scope.root = r) : (e : Expr) → {ws : Workspace} →
    ws.Contained r → e.KeepsTo r ws →
    Resolve.KeepsTo r ws (resolver.evaluateIn scope e) fun _ _ => True
  | .constant n, _, _, _ => by
    unfold Resolver.evaluateIn Expr.evaluate
    exact .done
  | .error, _, _, _ => by
    unfold Resolver.evaluateIn Expr.evaluate
    exact .done
  | .unary op a, ws, hc, he => by
    have iha := evaluateIn hroot a hc he.unary
    unfold Resolver.evaluateIn at iha ⊢
    unfold Expr.evaluate
    exact iha.bind fun _ _ _ _ => .done
  | .binary op a b, ws, hc, he => by
    have iha := evaluateIn hroot a hc he.binary.1
    have ihb {ws' : Workspace} (hs : ws.Still r ws') :=
      evaluateIn hroot b (hs.contained hc) (he.binary.2.still hs)
    unfold Resolver.evaluateIn at iha ihb ⊢
    unfold Expr.evaluate
    exact iha.bind fun _ _ hs _ => (ihb hs).bind fun _ _ _ _ => .done
  | .rawRead t a, ws, hc, he => by
    have iha := evaluateIn hroot a hc he.rawRead
    unfold Resolver.evaluateIn at iha ⊢
    unfold Expr.evaluate
    exact iha.bind fun _ _ _ _ => .ask .done
  | .member none name none isOffset, ws, hc, he => by
    unfold Resolver.evaluateIn
    rw [Expr.evaluate_member, Query.runOrRoots, pure_bind]
    dsimp only [Resolver.environment]
    rw [hroot]
    refine (h.lookup hc scope name 0 isOffset fun d hd j hj => ?_).bind fun _ _ _ _ => .done
    exact ⟨(he.member.2 d hd j hj).1, fun _ hindex => absurd rfl hindex⟩
  | .member none name (some e) isOffset, ws, hc, he => by
    have ihe := evaluateIn hroot e hc (he.member.1 e rfl)
    unfold Resolver.evaluateIn at ihe ⊢
    rw [Expr.evaluate_member, Query.runOrRoots, pure_bind]
    dsimp only [Resolver.environment]
    refine ihe.bind fun index ws₁ hs₁ _ => ?_
    rw [hroot]
    refine (h.lookup (hs₁.contained hc) scope name index isOffset fun d hd j hj => ?_).bind
      fun _ _ _ _ => .done
    obtain ⟨hopens, hplain⟩ := (he.still hs₁).member.2 d hd j hj
    exact ⟨hopens, fun hoffset _ => hplain hoffset (Option.some_ne_none e)⟩
  | .previewTest none name text invert, ws, hc, he => by
    unfold Resolver.evaluateIn
    rw [Expr.evaluate_previewTest, Query.runOrRoots, pure_bind]
    dsimp only [Resolver.environment]
    rw [hroot]
    have hpreview := h.namedPreview hc scope name he.previewTest
    have hhit : Resolve.KeepsTo r ws ([r].anyM fun inst => do
        let preview ← resolver.namedPreview scope inst name
        pure ((preview == some text) != invert)) fun _ _ => True := by
      unfold List.anyM
      refine (hpreview.bind fun _ _ _ _ => .done).bind fun hit _ _ _ => ?_
      cases hit <;> exact .done
    exact hhit.bind fun _ _ _ _ => .done
  | .instanceId none, ws, _, _ => by
    unfold Resolver.evaluateIn
    rw [Expr.evaluate_instanceId]
    exact .done
  | .member (some _) _ _ _, _, _, he | .structOffset _, _, _, he
  | .previewTest (some _) _ _ _, _, _, he | .instanceId (some _), _, _, he => by
    unfold Expr.KeepsTo Expr.hasQuery at he
    cases he.1

/-! ## 2. Laying out -/

/-- The condition of a field that is being laid out. Nothing is measured for it, because the layout
goes no further meanwhile. -/
theorem conditionValue {d : StructDef} (hd : ws.structOf? r = some d) (hself : d.SelfContained)
    {i : Nat} {f : String × Field} (hf : d.field? i = some f) {n : Nat}
    (hlaid : ws.Laid r (some i) n) :
    Resolve.KeepsTo r ws (resolver.conditionValue r i f.2) fun _ _ => True := by
  unfold Resolver.conditionValue
  cases hcondition : f.2.condition with
  | none => exact .done
  | some condition =>
    have hc : ws.Contained r := fun d' hd' => by
      cases hd.symm.trans hd'
      exact hself
    obtain ⟨hquery, hchild⟩ := ((hself.at hf).1 condition
      (List.mem_append_right _ (by simp [hcondition])))
    refine .unlessCutShort (h.evaluate rfl hc ⟨hquery, fun d' hd' => ?_⟩)
    cases hd.symm.trans hd'
    refine ⟨hchild, fun _ _ _ _ d' hd' => .inr ⟨hlaid.current d' hd', .inr ?_⟩⟩
    rw [hlaid.measuring]
    rfl

/-- Moving past a field. Where its size is not known, the field is dropped again. -/
theorem passField (hc : ws.Contained r) {d : StructDef} {i n : Nat} {field : Field}
    {present isLazy : Bool} (hplain : isLazy = true ∨ d.isPacked = false)
    (hlaid : ws.Laid r (some i) (n + 1)) :
    Resolve.PlacesNone ws (resolver.passField r d i field present isLazy)
      fun _ ws' => ws'.Laid r (some i) n := by
  have hstay : ws.Laid r (some i) n :=
    ⟨hlaid.current, hlaid.measuring, Nat.le_of_succ_le hlaid.fields⟩
  unfold Resolver.passField
  split
  · rename_i hpasses
    have hlazy : isLazy = true := hplain.resolve_right fun hp => by simp [hp] at hpasses
    subst hlazy
    refine Resolve.PlacesNone.bind (h.totalSize hc i) fun size ws₁ _ hkept => ?_
    have hlaid₁ := hkept.1.layout hlaid
    cases size with
    | some size =>
      have hmoved : Resolve.PlacesNone ws₁ (modifyLayout r (·.advance size))
          fun _ ws' => ws'.Laid r (some i) n :=
        .modifyLayout (hlaid₁.modifyLayout (fun _ => rfl) id fun hle => Nat.le_of_succ_le hle)
      exact hmoved.bind fun _ _ _ hl => .pure hl
    | none =>
      have hdropped : Resolve.PlacesNone ws₁ (modifyLayout r Layout.pop)
          fun _ ws' => ws'.Laid r (some i) n :=
        .modifyLayout (hlaid₁.modifyLayout (fun _ => rfl) id fun hle => by
          rw [Layout.pop, Array.size_pop]
          omega)
      exact hdropped.bind fun _ _ _ hl => .pure hl
  · exact .pure hstay

/-- Laying out one more field. -/
theorem layOutField {d : StructDef} {isLazy : Bool} (hd : ws.structOf? r = some d)
    (hself : d.SelfContained) (hlaid : ws.Laid r none 0)
    (hplain : isLazy = true ∨ d.isPacked = false) :
    Resolve.KeepsTo r ws (resolver.layOutField r d isLazy) fun _ _ => True := by
  have hall : ws.Laid r none (ws.layoutOf r).entries.size :=
    ⟨hlaid.current, hlaid.measuring, Nat.le_refl _⟩
  -- Between the first step and the last the field is being laid out.
  have hlast {α : Type} {a : α} {ws₁ : Workspace}
      (h₁ : ws₁.Laid r (some (ws.layoutOf r).entries.size) (ws.layoutOf r).entries.size) :
      Resolve.PlacesNone ws₁ (do
        modifyLayout r (·.setMeasuring none)
        pure a) fun _ ws' => ws'.Laid r none (ws.layoutOf r).entries.size := by
    have hset : Resolve.PlacesNone ws₁ (modifyLayout r (·.setMeasuring none))
        fun _ ws' => ws'.Laid r none (ws.layoutOf r).entries.size :=
      .modifyLayout (h₁.modifyLayout (fun _ => rfl) (fun _ => rfl) id)
    exact hset.bind fun _ _ _ hl => .pure hl
  refine Resolve.PlacesNone.mono ?_ fun _ ws' hsame hl => ⟨.of_laid hsame hlaid hl, trivial⟩
  unfold Resolver.layOutField
  refine .ask ?_
  dsimp only
  cases hf : d.field? (ws.layoutOf r).entries.size with
  | none => exact .pure hall
  | some f =>
    dsimp only
    have hbegin : Resolve.PlacesNone ws
        (modifyLayout r (·.setMeasuring (some (ws.layoutOf r).entries.size)))
        fun _ ws' => ws'.Laid r (some (ws.layoutOf r).entries.size) (ws.layoutOf r).entries.size :=
      .modifyLayout (hall.modifyLayout (fun _ => rfl) (fun _ => rfl) id)
    refine hbegin.bind fun _ ws₁ hsame₁ h₁ => ?_
    have hd₁ := (hsame₁.structOf? r).trans hd
    refine Resolve.PlacesNone.bind (h.conditionValue hd₁ hself hf h₁)
      fun condition ws₂ hsame₂ hkept => ?_
    have h₂ := hkept.1.layout h₁
    have hc₂ : ws₂.Contained r := fun d' hd' => by
      rw [hsame₂.structOf?, hd₁] at hd'
      cases hd'
      exact hself
    cases condition with
    | none => exact hlast h₂
    | some condition =>
      dsimp only
      have hpush : Resolve.PlacesNone ws₂ (modifyLayout r (·.push (firstEntry d f.2
          (condition ≠ 0) (ws.layoutOf r).cursor)))
          fun _ ws' => ws'.Laid r (some (ws.layoutOf r).entries.size)
            ((ws.layoutOf r).entries.size + 1) :=
        .modifyLayout (h₂.modifyLayout (fun _ => rfl) id fun hle => by
          rw [Layout.push, Array.size_push]
          omega)
      refine hpush.bind fun _ ws₃ hsame₃ h₃ => ?_
      exact (h.passField (hsame₃.contained hc₂) hplain h₃).bind fun _ _ _ h₄ => hlast h₄

/-- Laying out the fields one by one. -/
theorem layOutFields {d : StructDef} {isLazy : Bool} (hself : d.SelfContained)
    (hplain : isLazy = true ∨ d.isPacked = false) (left : Nat) : ∀ {ws : Workspace},
    ws.structOf? r = some d → ws.Laid r none 0 →
    Resolve.KeepsTo r ws (resolver.layOutFields r d isLazy left) fun _ _ => True := by
  induction left with
  | zero => exact fun _ _ => .done
  | succ left ih =>
    intro ws hd hlaid
    unfold Resolver.layOutFields
    exact (h.layOutField hd hself hlaid hplain).bind fun _ _ hs _ =>
      .ite (fun _ => ih ((hs.structOf? r).trans hd) (hs.layout hlaid)) fun _ => .done

end Resolver.KeepsTo

/-! ## 3. Frames -/

/-- **All frames keep to an instance.** -/
theorem Resolver.keepsTo_within (r : InstanceRef) (frames : Nat) :
    (Resolver.within frames).KeepsTo r := by
  induction frames with
  | zero =>
    refine ⟨fun _ _ _ _ => ?_, fun _ _ _ => ?_⟩
    · exact .refuseFrame
    · exact Resolve.KeepsTo.refuseFrame.bind fun _ _ _ _ => .done
  | succ frames ih =>
    refine ⟨fun {ws d upTo isLazy} hd hself hlaid hplain => ?_,
      fun {ws scope e} hroot hc he => ?_⟩
    · refine (Resolve.KeepsTo.inFrame fun ws₁ hs₁ => ?_).bind fun _ _ _ _ => .done
      exact .ask (ih.layOutFields hself hplain _ ((hs₁.structOf? r).trans hd) (hs₁.layout hlaid))
    · exact Resolve.KeepsTo.inFrame fun ws₁ hs₁ =>
        ih.evaluateIn hroot e (hs₁.contained hc) (he.still hs₁)

/-! ## 4. Questions -/

/-- **What can be asked lazily of an instance.** -/
inductive LazyQuestion : {α : Type} → (InstanceRef → Resolve α) → Prop where
  | enumerate (upTo : Nat) : LazyQuestion fun r => r.enumerate upTo true
  | isPresent (i : Nat) : LazyQuestion fun r => r.isPresent i true
  | fieldOffset (i : Nat) : LazyQuestion fun r => r.fieldOffset i true
  | valueOffset (i n : Nat) : LazyQuestion fun r => r.valueOffset i n true
  | elementCount (i : Nat) : LazyQuestion fun r => r.elementCount i true
  | totalSize (i : Nat) : LazyQuestion fun r => r.totalSize i true
  | size : LazyQuestion fun r => r.size true
  | fieldPreview (i : Nat) : LazyQuestion fun r => r.fieldPreview i true
  | canCreateNext (loose : Bool) : LazyQuestion fun r => r.canCreateNext true loose
  | nextInfo : LazyQuestion fun r => r.nextInfo true

theorem Resolve.KeepsTo.resolving {α : Type} {r : InstanceRef} {ws : Workspace}
    {request : Resolver → Resolve α}
    (h : ∀ resolver : Resolver, resolver.KeepsTo r →
      Resolve.KeepsTo r ws (request resolver) fun _ _ => True) :
    Resolve.KeepsTo r ws (Resolve.resolving request) fun _ _ => True :=
  .ask (h _ (Resolver.keepsTo_within r _))

/-- A lazy question keeps to the instance. -/
theorem LazyQuestion.keepsTo {α : Type} {question : InstanceRef → Resolve α}
    (hq : LazyQuestion question) {ws : Workspace} {r : InstanceRef} (hc : ws.Contained r) :
    Resolve.KeepsTo r ws (question r) fun _ _ => True := by
  cases hq with
  | enumerate upTo => exact .resolving fun _ h => (h.enumerate hc (.inl rfl)).weaken
  | isPresent i => exact .resolving fun _ h => h.isPresent hc i (.inl rfl)
  | fieldOffset i => exact .resolving fun _ h => h.fieldOffset hc i (.inl rfl)
  | valueOffset i n => exact .resolving fun _ h => h.valueOffset hc i n (.inl rfl) (.inl rfl)
  | elementCount i => exact .resolving fun _ h => h.elementCount i hc (.inl rfl)
  | totalSize i => exact .resolving fun _ h => h.totalSize hc i
  | size => exact .resolving fun _ _ => Resolver.KeepsTo.size
  | fieldPreview i => exact .resolving fun _ h => h.fieldPreview hc i (.inl rfl)
  | canCreateNext loose => exact .resolving fun _ _ => Resolver.KeepsTo.canCreateNext loose
  | nextInfo => exact .resolving fun _ _ => Resolver.KeepsTo.nextInfo

namespace Workspace

/-- **A lazy question places nothing** if the definition of the instance's struct is self-contained,
whatever is known already and whatever the children are. -/
theorem Contained.lazy_directory {ws : Workspace} {r : InstanceRef} (hc : ws.Contained r) {α : Type}
    {question : InstanceRef → Resolve α} (hq : LazyQuestion question) :
    ((question r).runIn ws).2.directory = ws.directory :=
  (hq.keepsTo hc).1.directory

/-- Beads of a size that each tells itself. -/
def bead : StructDef :=
  { StructDef.empty with
    fields := ⟨[("v", .ofType (.scalar (.int .u8)))], by decide⟩
    size := 1
    sizeSource := some "v" }

/-- A packed row of beads between their number and a mark, which is there if there are any. -/
def beadRow : StructDef :=
  { StructDef.empty with
    isPacked := true
    fields := ⟨[("n", .ofType (.scalar (.int .u8))),
      ("beads", { Field.ofType (.struct "Bead") with count := 0, countSource := .named "n" }),
      ("mark", { Field.ofType (.scalar .char) with
        condition := some ⟨"n", .member none "n" none false, by cbv⟩ })], by decide⟩ }

/-- A grid of two beads and a mark, which is there unless the second bead is at the start. -/
def beadGrid : StructDef :=
  { StructDef.empty with
    fields := ⟨[("beads", { Field.ofType (.struct "Bead") with count := 2 }),
      ("mark", { Field.ofType (.scalar .char) with
        condition := some ⟨"$arr(@beads, 1)", .member none "beads" (some (.constant 1)) true,
          by cbv⟩ })], by decide⟩ }

/-- A workspace with a row and a grid in two bytes. -/
def withBeads : Workspace :=
  let schema : Schema := ⟨(((∅ : Std.TreeMap String StructDef).insert "Bead" bead).insert "Row"
    beadRow).insert "Grid" beadGrid, 0⟩
  let ws := ((ofSchema schema .default).addSource (.ofBytes "bytes" #[2, 7])).2
  ((ws.place (.single ⟨"Row", 0, 0⟩ .user)).2.place (.single ⟨"Grid", 0, 0⟩ .user)).2

/-- The row is asked for its mark lazily: its beads are not placed. -/
theorem lazy_directory_withBeads : withBeads.Contained ⟨0, ⟨"Row", 0, 0⟩⟩ ∧
    ((InstanceRef.isPresent ⟨0, ⟨"Row", 0, 0⟩⟩ 2 true).runIn withBeads).2.directory =
      withBeads.directory := by
  have hcontained : withBeads.Contained ⟨0, ⟨"Row", 0, 0⟩⟩ := by
    intro d hd
    cases hd
    decide
  exact ⟨hcontained, hcontained.lazy_directory (.isPresent 2)⟩

/-- The grid is asked for its mark lazily: both of its beads are placed. -/
example : ((InstanceRef.isPresent ⟨1, ⟨"Grid", 0, 0⟩⟩ 1 true).runIn
    withBeads).2.directory.size = 4 := by
  decide +kernel

end Workspace

end ByteAtlas
