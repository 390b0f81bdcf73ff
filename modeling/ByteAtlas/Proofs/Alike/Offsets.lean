import ByteAtlas.Proofs.Alike.Stopping
import ByteAtlas.Proofs.Elements.History
import ByteAtlas.Proofs.Repeat.Evaluation

/-!
# Children with offsets of their own

In a field whose elements have offsets of their own, an expression tells where each of them is, and
a condition may tell that it is not there. A full walk looks at all elements in turn and shows those
that are there and lie in the file, wherever the others are (`Workspace.Reached.walk_offsets`). A
query for the children finds each of them once, where the walk reaches it first.

What the expressions say is told of the workspace in which the walk asks them. They still say so
afterwards, as long as a walk does not change what they ask for (`Workspace.ElementOf.again`).
-/

namespace ByteAtlas

open Resolve (Agree noRefs Repeats)

/-- **Each once**: one more is the last of them, if it is not there already. -/
theorem eraseDups_concat {α : Type} [DecidableEq α] (l : List α) (a : α) :
    (l ++ [a]).eraseDups = if a ∈ l then l.eraseDups else l.eraseDups ++ [a] := by
  rw [List.eraseDups_append]
  split
  · rename_i hmem
    simp [List.removeAll, hmem]
  · rename_i hmem
    simp [List.removeAll, hmem, List.eraseDups_cons]

/-- What tells apart the members of a list tells apart those that are each there once. -/
theorem eraseDups_map {α β : Type} [DecidableEq α] [DecidableEq β] {f : α → β} {l : List α}
    (hinj : ∀ a ∈ l, ∀ b ∈ l, f a = f b → a = b) : (l.map f).eraseDups = l.eraseDups.map f := by
  induction l using List.reverseRecOn with
  | nil => rfl
  | append_singleton l a ih =>
    have hold : (l.map f).eraseDups = l.eraseDups.map f :=
      ih fun x hx y hy => hinj x (List.mem_append_left _ hx) y (List.mem_append_left _ hy)
    have hmem : f a ∈ l.map f ↔ a ∈ l := by
      refine ⟨fun h => ?_, List.mem_map_of_mem⟩
      obtain ⟨b, hb, hfb⟩ := List.mem_map.mp h
      have hba := hinj b (List.mem_append_left _ hb) a (List.mem_append_right _ (.head _)) hfb
      exact hba ▸ hb
    rw [List.map_append, List.map_singleton, eraseDups_concat, eraseDups_concat, hold]
    by_cases ha : a ∈ l
    · rw [if_pos ha, if_pos (hmem.mpr ha)]
    · rw [if_neg ha, if_neg (hmem.not.mpr ha), List.map_append, List.map_singleton]

/-! ## 1. What expressions say of an element -/

namespace Scope

/-- The scope in which the offset of an element is evaluated. -/
def ofOffset (r : InstanceRef) (origin : Int64) (n : Nat) : Scope :=
  .withConstants r [indexConstant (.ofNat n), originConstant origin]

/-- The scope in which the condition on an element is evaluated. -/
def ofElement (r : InstanceRef) (origin : Int64) (n : Nat) (offset : Int64) : Scope :=
  .withConstants r [indexConstant (.ofNat n), offsetConstant offset, originConstant origin]

end Scope

namespace Workspace

/-- **Whether an expression has a value** when it is evaluated in one more frame. -/
def Yields (ws : Workspace) (scope : Scope) (expr : Expr) (value : Int64) : Prop :=
  ((inFrame (scope.evaluate expr)).runIn ws).1 = .ok (some value)

/-- The workspace that this leaves. -/
def afterwards (ws : Workspace) (scope : Scope) (expr : Expr) : Workspace :=
  ((inFrame (scope.evaluate expr)).runIn ws).2

/-- **Whether an element is there** at its offset: it lies in the file, and the condition on it, if
there is one, is not zero. -/
def IsThere (ws : Workspace) (r : InstanceRef) (field : Field) (origin : Int64) (n : Nat)
    (offset : Int64) : Prop :=
  (0 ≤ offset.toInt ∧ offset.toInt < ws.fileSize r.file) ∧
    ∀ condition, field.elementCondition = some condition → ∃ value, value ≠ 0 ∧
      ws.Yields (.ofElement r origin n offset) condition.expr value

/-- **What the expressions of a field say of the element with a number**, in the course of a walk
from one workspace to another. -/
structure ElementOf (ws : Workspace) (r : InstanceRef) (field : Field) (formula : Formula)
    (origin : Int64) (last : Workspace) (n : Nat) (offset : Int64) (there : Bool) : Prop where
  inTurn : ∃ before : Workspace, ws.Grows before ∧
    before.Yields (.ofOffset r origin n) formula.expr offset ∧
    (before.afterwards (.ofOffset r origin n) formula.expr).Grows last ∧
    (there = true ↔
      (before.afterwards (.ofOffset r origin n) formula.expr).IsThere r field origin n offset)
  /-- They still say so at the end, if no instance has been added that the expressions of the schema
  ask for by the name of its struct, and the schema makes sure that chains go on as their counts
  say. -/
  again : ws.Later ws.schema.AsksFor last → last.ChainsKept →
    last.Yields (.ofOffset r origin n) formula.expr offset ∧
      (there = true ↔ last.IsThere r field origin n offset)

/-- Nothing is lost of it where the walk starts earlier. -/
theorem ElementOf.earlier {r : InstanceRef} {field : Field} {formula : Formula} {origin : Int64}
    {start ws last : Workspace} {n : Nat} {offset : Int64} {there : Bool}
    (h : ws.ElementOf r field formula origin last n offset there) (hstart : start.Grows ws)
    (hlast : ws.Grows last) : start.ElementOf r field formula origin last n offset there where
  inTurn := by
    obtain ⟨before, hbefore, hrest⟩ := h.inTurn
    exact ⟨before, hstart.trans hbefore, hrest⟩
  again hlater := h.again (hstart.schema ▸ hlater.right hstart hlast)

end Workspace

namespace Resolver

/-- Evaluating, as an expression of a field is evaluated. -/
theorem runIn_evaluate_within {frames : Nat} {ws : Workspace}
    (hframes : ws.limits.maxDepth - ws.depth = frames) (scope : Scope) (expr : Expr) :
    ((within frames).evaluate scope expr).runIn ws = (inFrame (scope.evaluate expr)).runIn ws := by
  cases frames with
  | zero =>
    rw [runIn_inFrame_of_le _ (by omega)]
    rfl
  | succ frames =>
    have hlt : decide (ws.depth < ws.limits.maxDepth) = true := decide_eq_true (by omega)
    have hstep : (scope.evaluate expr).runIn { ws with depth := ws.depth + 1 } =
        ((within frames).evaluateIn scope expr).runIn { ws with depth := ws.depth + 1 } :=
      Resolve.runIn_resolving _ (show ws.limits.maxDepth - (ws.depth + 1) = frames by omega)
    show (inFrame ((within frames).evaluateIn scope expr)).runIn ws = _
    unfold inFrame
    simp only [Resolve.runIn_bind, Resolve.runIn_ask, hlt, if_true, Resolve.runIn_change, hstep]

theorem withinFile_iff {fileSize : Nat} {offset : Int64} :
    withinFile fileSize offset = true ↔ 0 ≤ offset.toInt ∧ offset.toInt < fileSize := by
  unfold withinFile
  rw [Bool.and_eq_true, decide_eq_true_iff, decide_eq_true_iff, Int64.le_iff_toInt_le,
    Int64.toInt_zero]

section

variable {once : Prop} {frames : Nat} {ws ws' : Workspace} {r : InstanceRef}

/-- **Whether an element is there** is what the walk finds, if no frame is refused. -/
theorem hasElement_iff (hframes : ws.limits.maxDepth - ws.depth = frames) (hs : ws.Sound once)
    (hr : ws.IsLive r) {field : Field} {origin offset : Int64} {n : Nat} {there : Bool}
    (hrun : ((within frames).hasElement r field origin (.ofNat n) offset).runIn ws =
      (.ok there, ws')) (hquiet : ws'.refusals = ws.refusals) :
    there = true ↔ ws.IsThere r field origin n offset := by
  unfold hasElement at hrun
  rw [Resolve.runIn_bind, Resolve.runIn_ask] at hrun
  dsimp only at hrun
  unfold Workspace.IsThere
  rw [← withinFile_iff]
  cases hin : withinFile (ws.fileSize r.file) offset with
  | false =>
    rw [hin] at hrun
    cases hrun
    simp
  | true =>
    rw [hin] at hrun
    cases hcondition : field.elementCondition with
    | none =>
      rw [hcondition] at hrun
      cases hrun
      simp
    | some condition =>
      rw [hcondition] at hrun
      obtain ⟨value, ws₁, hvalue, _, _, hsome⟩ := (reliable_within frames).evaluate
        (.ofElement r origin n offset) condition.expr hs hr
      unfold Scope.ofElement at hvalue
      simp only [Bool.not_true, Bool.false_eq_true, if_false, Resolve.runIn_bind, hvalue] at hrun
      cases hrun
      cases value with
      | none => exact absurd rfl (hsome hquiet)
      | some value =>
        have hyields : ws.Yields (.ofElement r origin n offset) condition.expr value := by
          unfold Workspace.Yields Scope.ofElement
          rw [← runIn_evaluate_within hframes, hvalue]
        rw [Option.getD_some, decide_eq_true_iff]
        refine ⟨fun hne => ⟨rfl, fun _ he => ?_⟩, fun h => ?_⟩
        · cases he
          exact ⟨value, hne, hyields⟩
        · obtain ⟨value', hne, hyields'⟩ := h.2 condition rfl
          rw [Workspace.Yields, hyields] at hyields'
          cases hyields'
          exact hne

end

/-! ## 2. A full walk -/

section

variable {once : Prop} {schema : Schema} {frames : Nat} {ws : Workspace} {r : InstanceRef} {i : Nat}
  {f : String × Field} {formula : Formula}

/-- **Looking at one element**: what its expressions say then, and what they say wherever the walk
ends. -/
theorem exists_element (hc : ws.Calm once schema) (hframes : ws.limits.maxDepth - ws.depth = frames)
    (hr : ws.IsLive r) (hf : ws.fieldOf? r i = some f) (hformula : f.2.offsetFormula = some formula)
    (origin : Int64) (n : Nat) : ∃ (offset : Option Int64) (ws₁ : Workspace),
      ((within frames).evaluate (.ofOffset r origin n) formula.expr).runIn ws = (.ok offset, ws₁) ∧
      ws₁.Calm once schema ∧ ws.Grows ws₁ ∧ (ws₁.refusals = ws.refusals → offset ≠ none) ∧
      ∀ o, offset = some o → ∃ (there : Bool) (ws₂ : Workspace),
        ((within frames).hasElement r f.2 origin (.ofNat n) o).runIn ws₁ = (.ok there, ws₂) ∧
        ws₂.Calm once schema ∧ ws₁.Grows ws₂ ∧ ∀ last : Workspace, last.Calm once schema →
          ws₂.Grows last → last.refusals = ws.refusals →
          ws.ElementOf r f.2 formula origin last n o there := by
  have hres : (within frames).Repeating once schema schema.AsksFor := repeating_within id frames
  have hin : formula ∈ f.2.elementFormulas := by
    simp [Field.elementFormulas, Field.placingFormulas, hformula]
  obtain ⟨offset, ws₁, hoffset, hc₁, hg₁, _, hagain₁⟩ :=
    hres.evaluateField hc hr hf hin [indexConstant (.ofNat n), originConstant origin]
  have hsome := ((reliable_within frames).evaluate _ formula.expr hc.sound hr).of_run hoffset
  refine ⟨offset, ws₁, hoffset, hc₁, hg₁, hsome.2.2, ?_⟩
  rintro o rfl
  have hr₁ := hg₁.isLive hr
  have hframes₁ : ws₁.limits.maxDepth - ws₁.depth = frames := by
    rw [hg₁.limits, hg₁.depth, hframes]
  obtain ⟨there, ws₂, hthere, hc₂, hg₂, _, hagain₂⟩ :=
    hres.hasElement hc₁ hr₁ ((hg₁.fieldOf? r i).trans hf) origin (.ofNat n) o
  refine ⟨there, ws₂, hthere, hc₂, hg₂, fun last hlast hg hquiet => ?_⟩
  have hle₁ := hg₁.refusals
  have hle₂ := hg₂.refusals
  have hle := hg.refusals
  have hg₁' := hg₂.trans hg
  have hyields {w w' : Workspace} (hw : w.limits.maxDepth - w.depth = frames)
      (hrun : ((within frames).evaluate (.ofOffset r origin n) formula.expr).runIn w =
        (.ok (some o), w')) :
      w.Yields (.ofOffset r origin n) formula.expr o ∧
        w.afterwards (.ofOffset r origin n) formula.expr = w' := by
    rw [runIn_evaluate_within hw] at hrun
    exact ⟨congrArg Prod.fst hrun, congrArg Prod.snd hrun⟩
  obtain ⟨hyielded, hafter⟩ := hyields hframes hoffset
  refine ⟨⟨ws, .refl ws, hyielded, hafter ▸ hg₁', ?_⟩, fun hlater hkept => ?_⟩
  · rw [hafter]
    exact hasElement_iff hframes₁ hc₁.sound hr₁ hthere (by omega)
  · rw [hc.schema] at hlater
    have hframes' : last.limits.maxDepth - last.depth = frames := by
      rw [hg₁'.limits, hg₁'.depth, hframes₁]
    have hlater₁ := hlater.right hg₁ hg₁'
    obtain ⟨w₁, hrun₁, _⟩ :=
      hagain₁ (hlater.left hg₁ hg₁') (hkept.of_grows hg₁') last hlast hlater₁ trivial
    obtain ⟨w₂, hrun₂, _, hlearns₂, _⟩ := hagain₂ (hlater₁.left hg₂ hg) (hkept.of_grows hg) last
      hlast (hlater₁.right hg₂ hg) trivial
    exact ⟨(hyields hframes' hrun₁).1,
      hasElement_iff hframes' hlast.sound (hg₁'.isLive hr₁) hrun₂ hlearns₂.quiet⟩

/-- **The walk along the elements** from the one numbered `n` on, by induction on how many are
left. -/
theorem walkOffsets_noting (hformula : f.2.offsetFormula = some formula) (struct : String)
    (origin : Int64) (reason : Reason) (left : Nat) : ∀ (n : Nat) (seen : List InstanceRef)
    {ws : Workspace}, ws.Calm once schema → ws.limits.maxDepth - ws.depth = frames → ws.IsLive r →
    ws.fieldOf? r i = some f → ∃ (children : List InstanceRef) (last : Workspace),
      ((within frames).walkOffsets r f.2 struct formula origin none reason (.noting none) left n
        seen).runIn ws = (.ok (seen ++ children, none), last) ∧
      last.Calm once schema ∧ ws.Grows last ∧ (∀ child ∈ children, last.IsLive child) ∧
      (last.refusals = ws.refusals → ∃ elements : List (Int64 × Bool), elements.length = left ∧
        (∀ k offset there, elements[k]? = some (offset, there) →
          ws.ElementOf r f.2 formula origin last (n + k) offset there) ∧
        children.map InstanceRef.location =
          (elements.filter Prod.snd).map fun e => ⟨struct, r.file, e.1⟩) := by
  induction left with
  | zero =>
    intro n seen ws hc _ _ _
    refine ⟨[], ws, ?_, hc, .refl ws, nofun, fun _ => ⟨[], rfl, nofun, rfl⟩⟩
    rw [List.append_nil]
    rfl
  | succ left ih =>
    intro n seen ws hc hframes hr hf
    obtain ⟨offset, ws₁, hoffset, hc₁, hg₁, hsome, hnext⟩ :=
      exists_element hc hframes hr hf hformula origin n
    unfold Scope.ofOffset at hoffset
    cases offset with
    | none =>
      refine ⟨[], ws₁, ?_, hc₁, hg₁, nofun, fun hquiet => absurd rfl (hsome hquiet)⟩
      rw [walkOffsets, Resolve.runIn_bind, hoffset, List.append_nil]
      rfl
    | some offset =>
      obtain ⟨there, ws₂, hthere, hc₂, hg₂, helement⟩ := hnext offset rfl
      have hg₁₂ := hg₁.trans hg₂
      have hr₂ := hg₁₂.isLive hr
      have hrest {ws₃ : Workspace} (hc₃ : ws₃.Calm once schema) (hg₃ : ws₂.Grows ws₃)
          (seen : List InstanceRef) := ih (n + 1) seen hc₃
            (by rw [hg₃.limits, hg₃.depth, hg₁₂.limits, hg₁₂.depth, hframes]) (hg₃.isLive hr₂)
            (((hg₁₂.trans hg₃).fieldOf? r i).trans hf)
      -- The elements are those of the rest, and this one before them.
      have helements {ws₃ last : Workspace} (hg₃ : ws₂.Grows ws₃) (hlast : last.Calm once schema)
          (hg : ws₃.Grows last) (hquiet : last.refusals = ws.refusals)
          {elements : List (Int64 × Bool)}
          (htold : ∀ k offset there, elements[k]? = some (offset, there) →
            ws₃.ElementOf r f.2 formula origin last (n + 1 + k) offset there) :
          ∀ k o t, ((offset, there) :: elements)[k]? = some (o, t) →
            ws.ElementOf r f.2 formula origin last (n + k) o t
        | 0, o, t, he => by
          cases he
          exact helement last hlast (hg₃.trans hg) hquiet
        | k + 1, o, t, he => by
          have htold := (htold k o t he).earlier (hg₁₂.trans hg₃) hg
          rwa [Nat.add_assoc, Nat.add_comm 1 k] at htold
      rw [walkOffsets, Resolve.runIn_bind, hoffset]
      dsimp only
      rw [Resolve.runIn_bind, hthere]
      have hle₁₂ := hg₁₂.refusals
      cases there with
      | false =>
        obtain ⟨children, last, hrun, hlast, hg, hlive, htold⟩ := hrest hc₂ (.refl ws₂) seen
        refine ⟨children, last, hrun, hlast, hg₁₂.trans hg, hlive, fun hquiet => ?_⟩
        have hle := hg.refusals
        obtain ⟨elements, hlength, helse, hchildren⟩ := htold (by omega)
        exact ⟨(offset, false) :: elements, congrArg Nat.succ hlength,
          helements (.refl ws₂) hlast hg hquiet helse, hchildren⟩
      | true =>
        obtain ⟨child, ws₃, hchild, hs₃, hg₃, hlive₃, hlocation⟩ :=
          (reliable_within frames).placeChild hc₂.sound hr₂ f.2 struct reason offset .one
        obtain ⟨children, last, hrun, hlast, hg, hlive, htold⟩ :=
          hrest (hc₂.grows hs₃ hg₃) hg₃ (seen ++ [child])
        refine ⟨child :: children, last, ?_, hlast, (hg₁₂.trans hg₃).trans hg, fun c hc => ?_,
          fun hquiet => ?_⟩
        · dsimp only
          rw [if_pos rfl, Resolve.runIn_bind, hchild]
          dsimp only
          rw [Resolve.runIn_bind, Visitor.noting_eq, Visitor.ofFun, Resolve.runIn_pure]
          dsimp only
          rw [Visitor.note_goesOn.mpr (Option.some_ne_none seen.length).symm, if_neg (by simp),
            ← Visitor.noting_eq]
          exact hrun.trans (by rw [List.append_assoc, List.singleton_append])
        · rcases List.mem_cons.mp hc with rfl | hc
          · exact hg.isLive hlive₃
          · exact hlive c hc
        · have hle₃ := hg₃.refusals
          have hle := hg.refusals
          obtain ⟨elements, hlength, helse, hchildren⟩ := htold (by omega)
          refine ⟨(offset, true) :: elements, congrArg Nat.succ hlength,
            helements hg₃ hlast hg hquiet helse, ?_⟩
          rw [List.map_cons, hlocation, hchildren]
          rfl

/-- **A full walk**: the count, and what it shows. -/
theorem walk_noting (hc : ws.Calm once schema) (hframes : ws.limits.maxDepth - ws.depth = frames)
    (hr : ws.IsLive r) (hf : ws.fieldOf? r i = some f) (hvalue : f.2.value = none) {struct : String}
    (htype : f.2.type = .struct struct) (hstruct : (ws.schema.get? struct).isSome)
    (hindividual : f.2.individualOffsets = true) (hformula : f.2.offsetFormula = some formula)
    (reason : Reason) : ∃ (count : Option Int64) (ws₁ : Workspace) (children : List InstanceRef)
      (last : Workspace),
      ((within frames).elementCount r i false).runIn ws = (.ok count, ws₁) ∧
      ((within frames).walk r i none reason (.noting none) []).runIn ws =
        (.ok (children, none), last) ∧
      last.Sound once ∧ ws.Grows last ∧ (∀ child ∈ children, last.IsLive child) ∧
      (last.refusals = ws.refusals → ∃ (c : Int64) (e : FieldEntry) (elements : List (Int64 × Bool)),
        count = some c ∧ ws₁.entryOf? r i = some e ∧ elements.length = c.toInt.toNat ∧
        (∀ n offset there, elements[n]? = some (offset, there) →
          ws₁.ElementOf r f.2 formula e.origin last n offset there) ∧
        children.map InstanceRef.location =
          (elements.filter Prod.snd).map fun e => ⟨struct, r.file, e.1⟩) := by
  obtain ⟨name, field⟩ := f
  have hholds : HoldsDefined ws r i field struct := ⟨name, hf, hvalue, htype, hstruct⟩
  obtain ⟨count, ws₁, hcount, hs₁, hg₁, hcounted⟩ :=
    (reliable_within frames).elementCount hr i false hc.sound
  have hc₁ := hc.grows hs₁ hg₁
  have hr₁ := hg₁.isLive hr
  have hf₁ := (hg₁.fieldOf? r i).trans hf
  have hentry (hquiet : ws₁.refusals = ws.refusals) :
      ∃ c e, count = some c ∧ ws₁.entryOf? r i = some e := by
    obtain ⟨e, hknows⟩ := Workspace.KnowsField.of_laidOut hf₁ hcounted.reaches.1
      (hcounted.reaches.2 rfl hquiet (hc.idle r hr))
    cases count with
    | none => exact nomatch (hcounted.missing rfl hquiet).symm.trans hknows.entry
    | some c => exact ⟨c, e, rfl, hknows.entry⟩
  refine ⟨count, ws₁, ?_⟩
  rw [(within frames).runIn_walk hholds, Resolve.runIn_bind, hcount]
  dsimp only
  unfold walkCounted
  by_cases hpos : count.getD 0 ≤ 0
  · refine ⟨[], ws₁, rfl, ?_, hs₁, hg₁, nofun, fun hquiet => ?_⟩
    · rw [if_pos hpos]
      rfl
    · obtain ⟨c, e, rfl, he⟩ := hentry hquiet
      rw [Option.getD_some, Int64.le_iff_toInt_le, Int64.toInt_zero] at hpos
      exact ⟨c, e, [], rfl, he, (Int.toNat_of_nonpos hpos).symm, nofun, rfl⟩
  · rw [if_neg hpos, hindividual, hformula]
    dsimp only
    rw [Resolve.runIn_bind, ByteAtlas.entryOf?, Resolve.runIn_ask]
    dsimp only
    cases he : ws₁.entryOf? r i with
    | none =>
      refine ⟨[], ws₁, rfl, rfl, hs₁, hg₁, nofun, fun hquiet => ?_⟩
      obtain ⟨_, _, _, he'⟩ := hentry hquiet
      rw [he] at he'
      cases he'
    | some e =>
      obtain ⟨children, last, hrun, hlast, hg, hlive, htold⟩ := walkOffsets_noting hformula struct
        e.origin reason (count.getD 0).toInt.toNat 0 [] hc₁
        (by rw [hg₁.limits, hg₁.depth, hframes]) hr₁ hf₁
      refine ⟨children, last, rfl, hrun, hlast.sound, hg₁.trans hg, hlive, fun hquiet => ?_⟩
      have hle₁ := hg₁.refusals
      have hle := hg.refusals
      obtain ⟨c, e', rfl, he'⟩ := hentry (by omega)
      obtain ⟨elements, hlength, helements, hchildren⟩ := htold (by omega)
      refine ⟨c, e, elements, rfl, rfl, hlength, fun n offset there hn => ?_, hchildren⟩
      have helement := helements n offset there hn
      rwa [Nat.zero_add] at helement

end

/-! ## 3. Each child once -/

section

variable {once : Prop} {resolver : Resolver} {ws ws₁ : Workspace} {r : InstanceRef} {i : Nat}
  {f : String × Field}

/-- **The visitor that gathers all children** keeps each of those noted once. -/
theorem agree_gatherAll (resolver : Resolver) (live : InstanceRef → Prop) :
    Visitor.Agree Likeness.strict.Alike live (fun seen found => found = seen.eraseDups)
      (fun seen r => r ∈ seen) (.noting none) (resolver.gatherMeeting .all) := by
  have hgather (found : List InstanceRef) (child : InstanceRef) :
      resolver.gatherMeeting .all found child =
        pure (if found.any (fun r => r.id = child.id) then found else found ++ [child], true) := by
    unfold gatherMeeting
    split <;> rfl
  refine ⟨fun _ _ => .pure _, fun found child => hgather found child ▸ .pure _, ?_⟩
  rintro seen _ child rfl
  rw [hgather]
  refine ⟨.pure _, .pure _, fun halike hlive hrun hrun' _ _ => ?_⟩
  cases hrun
  cases hrun'
  have hmem : seen.eraseDups.any (fun r => r.id = child.id) = true ↔ child ∈ seen := by
    simp only [List.any_eq_true, List.mem_eraseDups, decide_eq_true_iff]
    refine ⟨fun ⟨r, hr, hid⟩ => ?_, fun h => ⟨child, h, rfl⟩⟩
    obtain ⟨i, hi, rfl⟩ := hlive r (.inr (.inl hr))
    obtain ⟨j, hj, rfl⟩ := hlive child (.inl rfl)
    rw [hid, hj] at hi
    cases hi
    exact hr
  refine ⟨⟨?_, rfl⟩, halike, fun _ hr => hr, fun r hr => hlive r ?_⟩
  · simp only [eraseDups_concat, hmem]
  · rcases List.mem_append.mp hr with hr | hr
    · exact .inr (.inl hr)
    · exact .inl (List.mem_singleton.mp hr)

/-- **The children in one field of one instance**, from where the field has been laid out. -/
theorem runIn_findChildren_single (resolver : Resolver) (hf : ws.fieldOf? r i = some f)
    (hholds : ws.holdsChildren r i = true) {present : Option Bool}
    (hpresent : (resolver.isPresent r i false).runIn ws = (.ok present, ws₁)) (filter : QueryFilter) :
    (resolver.findChildren f.1 filter [r] []).runIn ws =
      Resolve.runIn (if present = some true then
          Prod.fst <$> resolver.walk r i none .query (resolver.gatherMeeting filter) []
        else pure []) ws₁ := by
  obtain ⟨d, hd, hfield⟩ := Workspace.structOf?_of_fieldOf? hf
  have hindex : d.fieldIndex? f.1 = some i := NameMap.indexOf?_of_at? hfield
  unfold findChildren
  rw [Resolve.runIn_bind, ByteAtlas.structOf?, Resolve.runIn_ask, hd]
  dsimp only
  rw [Option.bind_some, hindex]
  dsimp only
  rw [Resolve.runIn_bind, Resolve.runIn_ask, hholds]
  dsimp only
  rw [if_pos rfl, Resolve.runIn_bind, hpresent]
  dsimp only
  split
  · rfl
  · rfl

/-- The count of a field that is not there. -/
theorem runIn_elementCount_of_absent (resolver : Resolver) {isLazy : Bool}
    (hlaid : (resolver.enumerate r (i + 1) isLazy).runIn ws = (.ok (), ws₁)) {e : FieldEntry}
    (he : ws₁.entryOf? r i = some e) (habsent : e.present = false)
    (hcount : ∀ c, e.count = some c → c = 0) (hlimit : 0 ≤ ws₁.limits.maxElements) :
    ∃ ws₂, (resolver.elementCount r i isLazy).runIn ws = (.ok (some 0), ws₂) := by
  rw [elementCount, Resolve.runIn_bind, hlaid]
  dsimp only
  rw [Resolve.runIn_bind, ByteAtlas.entryOf?, Resolve.runIn_ask, he]
  dsimp only
  cases hc : e.count with
  | some c =>
    rw [hcount c hc]
    exact ⟨_, rfl⟩
  | none =>
    have hlimit' : ¬ ws₁.limits.maxElements < 0 := Int64.not_lt.mpr hlimit
    rw [habsent]
    simp [limitCount, hlimit', Resolve.runIn_bind]
    rfl

/-- **A query for all children finds those that the walk shows, each once.** It asks first whether
the field is there; a walk in one that is not has nothing to show. -/
theorem found_of_walk (h : resolver.Reliable once) (hsteady : resolver.Steady .strict)
    (hs : ws.Sound once) (hr : ws.IsLive r) (hidle : (ws.layoutOf r).measuring = none)
    {field : Field} {struct : String} (hholds : HoldsDefined ws r i field struct)
    {children found : List InstanceRef} {wsa wsb : Workspace} {reason : Reason}
    {stopped : Option InstanceRef}
    (hwalk : (resolver.walk r i none reason (.noting none) []).runIn ws =
      (.ok (children, stopped), wsa))
    (hquiet : wsa.refusals = ws.refusals) {name : String}
    (hname : ws.fieldOf? r i = some (name, field))
    (hfind : (resolver.findChildren name .all [r] []).runIn ws = (.ok found, wsb))
    (hquiet' : wsb.refusals = ws.refusals)
    (habsent : ∀ (ws₁ : Workspace) (e : FieldEntry),
      (resolver.isPresent r i false).runIn ws = (.ok (some false), ws₁) → ws₁.KnowsField r i
        (name, field) e → e.present = false → ∀ c, e.count = some c → c = 0) :
    found = children.eraseDups := by
  obtain ⟨⟨⟩, ws₁, hlaid, hs₁, hg₁, hcurrent, hreach⟩ := h.enumerate hs hr (i + 1) false
  have hpresent : (resolver.isPresent r i false).runIn ws =
      (.ok ((ws₁.entryOf? r i).map FieldEntry.present), ws₁) := by
    unfold isPresent
    rw [Resolve.runIn_bind, hlaid]
    rfl
  have hchildren : ws.holdsChildren r i = true := by
    obtain ⟨_, hf, hvalue, htype, _⟩ := hholds
    rw [Workspace.holdsChildren, hf, Option.any_some, hvalue, htype]
    rfl
  rw [runIn_findChildren_single resolver hname hchildren hpresent] at hfind
  by_cases hthere : (ws₁.entryOf? r i).map FieldEntry.present = some true
  · have hnone : ws₁.AllLive [] := List.forall_mem_nil _
    obtain ⟨b, ws₂, hagain, _, hg₂, _⟩ :=
      (h.walks .query).gather .all (hg₁.isLive hr) i hnone hs₁
    rw [if_pos hthere, Resolve.runIn_map, hagain] at hfind
    obtain rfl : b.1 = found := Except.ok.inj (congrArg Prod.fst hfind)
    obtain rfl : ws₂ = wsb := congrArg Prod.snd hfind
    have hle₁ := hg₁.refusals
    have hle₂ := hg₂.refusals
    obtain ⟨_, ⟨hsame, _⟩, _⟩ := hsteady.walk_again h hs hr hidle (agree_gatherAll resolver (Eq r))
      hholds (fun _ => List.not_mem_nil) rfl hwalk hquiet hlaid hagain (by omega)
    exact hsame
  · rw [if_neg hthere] at hfind
    obtain rfl : [] = found := Except.ok.inj (congrArg Prod.fst hfind)
    obtain rfl : ws₁ = wsb := congrArg Prod.snd hfind
    obtain ⟨e, hknows⟩ := Workspace.KnowsField.of_laidOut ((hg₁.fieldOf? r i).trans hname) hcurrent
      (hreach rfl hquiet' hidle)
    have habsent' : e.present = false := by
      rw [hknows.entry] at hthere
      exact Bool.eq_false_iff.mpr fun he => hthere (congrArg some he)
    rw [hknows.entry, Option.map_some, habsent'] at hpresent
    obtain ⟨ws₂, hcount⟩ := runIn_elementCount_of_absent resolver hlaid hknows.entry habsent'
      (habsent ws₁ e hpresent hknows habsent') hs₁.limit
    rw [resolver.runIn_walk hholds, Resolve.runIn_bind, hcount] at hwalk
    cases hwalk
    rfl

end

end Resolver

namespace Workspace

/-! ## 4. After a history -/

variable {versions : Nat} {edited : Bool} {ws : Workspace}

/-- **There is one live instance at a place.** -/
theorem eq_of_isLive (hw : ws.directory.WellFormed) {r r' : InstanceRef} (hr : ws.IsLive r)
    (hr' : ws.IsLive r') (hlocation : r.location = r'.location) : r = r' := by
  obtain ⟨i, hi, rfl⟩ := hr
  obtain ⟨j, hj, rfl⟩ := hr'
  have hplaced := hw.placed _ i hi
  rw [show i.location = j.location from hlocation, hw.placed _ j hj] at hplaced
  rw [Option.some.inj hplaced, hi] at hj
  cases hj
  rfl

/-- **In a field that is not there no elements are counted.** -/
theorem Reached.count_of_absent (h : ws.Reached versions edited)
    (hversions : versions < Schema.versionLimit) {r : InstanceRef} (hr : ws.IsLive r) {i : Nat}
    {f : String × Field} {e : FieldEntry} (hknows : ws.KnowsField r i f e) (hvalue : f.2.value = none)
    (habsent : e.present = false) {c : Int64} (hc : e.count = some c) : c = 0 := by
  obtain ⟨d, hd, hfield⟩ := structOf?_of_fieldOf? hknows.field
  exact ((h.led.ordered hversions).inOrder.of_current hr hd hknows.current hfield
    hknows.entry).absent hvalue habsent c hc

/-- **The children in a field whose elements have offsets of their own**, after any history. A full
walk shows, for all elements that are counted in turn, just those that are there: the expression of
the field gives the element its offset, the offset lies in the file, and the condition on elements,
if there is one, is not zero. A query for all children finds each of them once, where the walk shows
it first; so does it with their offsets.

Versions tell definitions apart as long as none has been given out twice. -/
theorem Reached.walk_offsets (h : ws.Reached versions edited)
    (hversions : versions < Schema.versionLimit) {r : InstanceRef} (hr : ws.IsLive r) {i : Nat}
    {f : String × Field} (hf : ws.fieldOf? r i = some f) (hvalue : f.2.value = none)
    {struct : String} (htype : f.2.type = .struct struct)
    (hstruct : (ws.schema.get? struct).isSome) (hindividual : f.2.individualOffsets = true)
    {formula : Formula} (hformula : f.2.offsetFormula = some formula) (reason : Reason) :
    ∃ (count : Option Int64) (ws₁ : Workspace) (children : List InstanceRef) (ws' : Workspace)
      (found : List InstanceRef) (ws'' : Workspace),
      (r.elementCount i false).runIn ws = (.ok count, ws₁) ∧
      (r.walk i none reason (.noting none) []).runIn ws = (.ok (children, none), ws') ∧
      ((Scope.whole r).children [r] f.1 .all).runIn ws = (.ok found, ws'') ∧
      (ws'.refusals = ws.refusals →
        (∃ (c : Int64) (e : FieldEntry) (elements : List (Int64 × Bool)),
          count = some c ∧ ws₁.entryOf? r i = some e ∧ elements.length = c.toInt.toNat ∧
          (∀ n offset there, elements[n]? = some (offset, there) →
            ws₁.ElementOf r f.2 formula e.origin ws' n offset there) ∧
          children.map InstanceRef.location =
            (elements.filter Prod.snd).map fun e => ⟨struct, r.file, e.1⟩) ∧
        (∀ child ∈ children, ws'.IsLive child ∧ 0 ≤ child.offset.toInt ∧
          child.offset.toInt < ws.fileSize r.file) ∧
        (ws''.refusals = ws.refusals → found = children.eraseDups ∧
          found.map InstanceRef.offset = (children.map InstanceRef.offset).eraseDups)) := by
  have hs := h.atRest.sound
  generalize hframes : ws.limits.maxDepth - ws.depth = frames
  have hreliable : (Resolver.within frames).Reliable (versions < Schema.versionLimit) :=
    Resolver.reliable_within frames
  obtain ⟨count, ws₁, children, ws', hcount, hwalk, hs', hg', hlive, htold⟩ :=
    Resolver.walk_noting ⟨hs, h.atRest.idle, rfl⟩ hframes hr hf hvalue htype hstruct hindividual
      hformula reason
  have hparents : ws.AllLive [r] := fun _ hmem => List.mem_singleton.mp hmem ▸ hr
  obtain ⟨found, ws'', hfind, _⟩ :=
    hreliable.searches.findChildren f.1 .all [r] [] hparents (List.forall_mem_nil _) hs
  refine ⟨count, ws₁, children, ws', found, ws'', (Resolve.runIn_resolving _ hframes).trans hcount,
    (Resolve.runIn_resolving _ hframes).trans hwalk,
    (Resolve.runIn_resolving _ hframes).trans hfind, fun hquiet => ?_⟩
  obtain ⟨c, e, elements, hc, he, hlength, helements, hchildren⟩ := htold hquiet
  have hplaced (child : InstanceRef) (hchild : child ∈ children) :
      ∃ offset, (offset, true) ∈ elements ∧ child.location = ⟨struct, r.file, offset⟩ := by
    have hmem := List.mem_map_of_mem (f := InstanceRef.location) hchild
    rw [hchildren] at hmem
    obtain ⟨⟨offset, there⟩, hmem, hlocation⟩ := List.mem_map.mp hmem
    obtain ⟨hmem, rfl⟩ := List.mem_filter.mp hmem
    exact ⟨offset, hmem, hlocation.symm⟩
  refine ⟨⟨c, e, elements, hc, he, hlength, helements, hchildren⟩, fun child hchild => ?_,
    fun hquiet' => ?_⟩
  · obtain ⟨offset, hmem, hlocation⟩ := hplaced child hchild
    obtain ⟨n, hn⟩ := List.getElem?_of_mem hmem
    obtain ⟨before, _, _, hafter, hthere⟩ := (helements n offset true hn).inTurn
    have hfile := (hthere.mp rfl).1
    have hoffset : child.offset = offset := congrArg Location.offset hlocation
    have hsize : (before.afterwards (.ofOffset r e.origin n) formula.expr).fileSize r.file =
        ws.fileSize r.file := by
      unfold fileSize file?
      rw [← hafter.files, hg'.files]
    rw [hsize] at hfile
    exact ⟨hlive child hchild, hoffset ▸ hfile⟩
  · have hfound := Resolver.found_of_walk hreliable (Resolver.steady_within_strict frames) hs hr
      (h.atRest.idle r hr) ⟨f.1, hf, hvalue, htype, hstruct⟩ hwalk hquiet hf hfind hquiet' ?_
    · refine ⟨hfound, ?_⟩
      rw [hfound, eraseDups_map]
      intro a ha b hb hsame
      obtain ⟨offset, _, hlocation⟩ := hplaced a ha
      obtain ⟨offset', _, hlocation'⟩ := hplaced b hb
      refine eq_of_isLive hs'.directory (hlive a ha) (hlive b hb) ?_
      have hoffset : a.offset = offset := congrArg Location.offset hlocation
      have hoffset' : b.offset = offset' := congrArg Location.offset hlocation'
      rw [hlocation, hlocation', ← hoffset, ← hoffset', hsame]
    · intro ws₂ e hpresent hknows habsent c hc
      obtain ⟨_, hg₂, _⟩ := (hreliable.isPresent hs hr i false).of_run hpresent
      have hask : (r.isPresent i false).runIn ws = (.ok (some false), ws₂) :=
        (Resolve.runIn_resolving _ hframes).trans hpresent
      have hreached : ((r.isPresent i false).runIn ws).2.Reached versions edited :=
        h.question hr (.isPresent i false)
      rw [hask] at hreached
      exact hreached.count_of_absent hversions (hg₂.isLive hr) hknows hvalue habsent hc

/-- One of the stars on a chart. -/
def chartStar : StructDef :=
  { StructDef.empty with
    size := 4
    fields := ⟨[("glow", .ofType (.scalar .char))], by decide⟩ }

/-- A chart of five of them, with offsets of their own: the first is passed over, the second and the
third are one, and the last does not lie in the file. -/
def chart : StructDef :=
  { StructDef.empty with
    fields := ⟨[("stars", { Field.ofType (.struct "Star") with
      count := 5
      individualOffsets := true
      offsetFormula := some ⟨"i * 4 * (3 - i)",
        .binary .mul (.binary .mul (.member none "i" none false) (.constant 4))
          (.binary .sub (.constant 3) (.member none "i" none false)), by cbv⟩
      elementCondition := some ⟨"i", .member none "i" none false, by cbv⟩ })], by decide⟩ }

def chartSchema : Schema :=
  ⟨((∅ : Std.TreeMap String StructDef).insert "Chart" chart).insert "Star" chartStar, 0⟩

/-- An instance of it. -/
def chartRef : InstanceRef := ⟨0, ⟨"Chart", 0, 0⟩⟩

/-- A workspace with this instance, in a file of twelve bytes. -/
def withChart : Workspace :=
  (((ofSchema chartSchema .default).addSource
    (.ofBytes "sky" #[0, 1, 2, 3, 4, 5, 6, 7, 8, 9, 10, 11])).2.place
      (.single chartRef.location .user)).2

/-- The walk shows three of the five, and the query finds two instances. -/
theorem walk_offsets_withChart : withChart.Reached 0 false ∧ ∃ children found ws' ws'',
    (chartRef.walk 0 none .query (.noting none) []).runIn withChart = (.ok (children, none), ws') ∧
    children.map InstanceRef.offset = [8, 8, 0] ∧
    ((Scope.whole chartRef).children [chartRef] "stars" .all).runIn withChart = (.ok found, ws'') ∧
    found.map InstanceRef.offset = [8, 0] := by
  have hreached : withChart.Reached 0 false :=
    .request (Reached.addSource _ (.start (.of_toList rfl (by decide)) trivial (by decide))) (.place _)
  obtain ⟨count, ws₁, children, ws', found, ws'', _, hwalk, hfind, htold⟩ :=
    hreached.walk_offsets (by decide) (r := chartRef) (i := 0) ⟨_, rfl, rfl⟩ rfl rfl rfl rfl rfl rfl
      .query
  have hoffsets : ((chartRef.walk 0 none .query (.noting none) []).runIn withChart).1.map
      (fun a => a.1.map InstanceRef.offset) = .ok [8, 8, 0] := by
    decide +kernel
  have hquiet : ((chartRef.walk 0 none .query (.noting none) []).runIn withChart).2.refusals =
      withChart.refusals := by
    decide +kernel
  have hquiet' : (((Scope.whole chartRef).children [chartRef] "stars" .all).runIn
      withChart).2.refusals = withChart.refusals := by
    decide +kernel
  have hfind' : ((Scope.whole chartRef).children [chartRef] "stars" .all).runIn withChart =
    (.ok found, ws'') := hfind
  rw [hwalk] at hoffsets hquiet
  rw [hfind'] at hquiet'
  have hoffsets : children.map InstanceRef.offset = [8, 8, 0] := Except.ok.inj hoffsets
  refine ⟨hreached, children, found, ws', ws'', hwalk, hoffsets, hfind', ?_⟩
  rw [((htold hquiet).2.2 hquiet').2, hoffsets]
  rfl

end Workspace

end ByteAtlas
