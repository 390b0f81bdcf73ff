import Mathlib
import ByteAtlas.Proofs.Resolve.Lasting
import ByteAtlas.Proofs.Resolve.Walks

/-!
# The arguments of children

Which of the children that a walk visits have the arguments that their field gives. The value of an
argument is computed when the child has been placed already, and a size is measured before the next
child of a chain is placed. Both may have a query place children of the same field, which gets them
no arguments, and the walk takes a child that it finds as it is. `Workspace.Reached.walk_gives`
tells exactly when every child has its arguments.
-/

namespace ByteAtlas

open Resolve (Ends)

/-! ## 1. Values of arguments -/

/-- Arguments computed for bindings of distinct names: each name has the value that was computed for
it. -/
theorem argValue?_of_forall₂ {P : ArgBinding → Arg → Prop} {bs : List ArgBinding} {args : List Arg}
    (h : List.Forall₂ (fun b a => a.name = b.name ∧ P b a) bs args)
    (hnames : (bs.map ArgBinding.name).Nodup) :
    ∀ b ∈ bs, ∃ a, argValue? b.name args = some a.value ∧ P b a := by
  induction h with
  | nil => exact fun _ hb => absurd hb List.not_mem_nil
  | @cons c a bs args hfirst _ ih =>
    obtain ⟨hname, hvalue⟩ := hfirst
    obtain ⟨hnot, hrest⟩ := List.nodup_cons.mp hnames
    intro b hb
    rcases List.mem_cons.mp hb with rfl | hb
    · exact ⟨a, by simp [argValue?, hname], hvalue⟩
    · have hne : a.name ≠ b.name := fun he =>
        hnot (hname.symm.trans he ▸ List.mem_map_of_mem hb)
      obtain ⟨a', hfound, hvalue⟩ := ih hrest b hb
      exact ⟨a', by simp [argValue?, hne, hfound], hvalue⟩

namespace Workspace

/-- **Whether an answer about an instance is fixed**: it is given, whatever the frames, as long as
what is known of the instance lasts and its own arguments are the same. -/
def Fixes {α : Type} (ws : Workspace) (r : InstanceRef) (question : Resolver → Resolve α) (a : α) :
    Prop :=
  ∀ ws', ws.Lasts r ws' → (∀ name, ws'.argOf? r name = ws.argOf? r name) →
    ∀ resolver, ((question resolver).runIn ws').1 = .ok a

section

variable {α β : Type} {ws ws' : Workspace} {r : InstanceRef} {question : Resolver → Resolve α} {a : α}

theorem Fixes.lasts (h : ws.Fixes r question a) (hlasts : ws.Lasts r ws')
    (hargs : ∀ name, ws'.argOf? r name = ws.argOf? r name) : ws'.Fixes r question a :=
  fun ws'' hlasts' hargs' => h ws'' (hlasts.trans hlasts') fun name => (hargs' name).trans (hargs name)

theorem Fixes.grows (h : ws.Fixes r question a) (hr : ws.IsLive r) (hg : ws.Grows ws') :
    ws'.Fixes r question a :=
  h.lasts (.of_grows hr hg) (hg.argOf? hr)

theorem Fixes.map (h : ws.Fixes r question a) (f : α → β) :
    ws.Fixes r (fun resolver => f <$> question resolver) (f a) := by
  intro ws' hlasts hargs resolver
  rw [Resolve.runIn_map, h ws' hlasts hargs resolver]
  rfl

/-- It is given in the workspace itself. -/
theorem Fixes.runIn (h : ws.Fixes r question a) (hr : ws.IsLive r) :
    ((Resolve.resolving question).runIn ws).1 = .ok a := by
  rw [Resolve.runIn_resolving question rfl]
  exact h ws (.refl hr) (fun _ => rfl) _

/-- An element that has been read, or that is known not to be there, is fixed. -/
theorem KnowsField.fixes_intValue {i n : Nat} {f : String × Field} {e : FieldEntry}
    (h : ws.KnowsField r i f e)
    (hread : n < e.values.size ∨ f.2.value = none ∧ f.2.Exhausted e) :
    ws.Fixes r (fun resolver => resolver.intValue r i n)
      ((e.values[n]?).elim 0 fun e => e.value.toInt) := by
  intro ws' hlasts _ resolver
  obtain ⟨e', hknows, hgrow⟩ := hlasts.knowsField h
  have hsame : (n < e'.values.size ∨ f.2.value = none ∧ f.2.Exhausted e') ∧
      e'.values[n]? = e.values[n]? := by
    rcases hread with hlt | ⟨hvalue, hex⟩
    · obtain ⟨more, hmore⟩ := hgrow.values
      have hn : e'.values[n]? = e.values[n]? := by
        rw [← Array.getElem?_toList, ← hmore, List.getElem?_append_left (by simpa using hlt),
          Array.getElem?_toList]
      refine ⟨.inl ?_, hn⟩
      rw [Array.getElem?_eq_getElem hlt] at hn
      exact (Array.getElem?_eq_some_iff.mp hn).1
    · obtain ⟨hex', hvalues⟩ := hgrow.exhausted f.2 rfl hex
      exact ⟨.inr ⟨hvalue, hex'⟩, by rw [hvalues]⟩
  obtain ⟨_, _, hrun, _⟩ := resolver.runIn_intValue hknows hsame.1
  rw [hrun, hsame.2]

end

end Workspace

namespace Resolver.Reliable

variable {once : Prop} {resolver : Resolver} {ws : Workspace} {r : InstanceRef}

/-- The first element of a field is fixed once it has been asked for, unless a frame was
refused. -/
theorem fixes_intValue (h : resolver.Reliable once) (hs : ws.Sound once) (hr : ws.IsLive r)
    (hidle : (ws.layoutOf r).measuring = none) {i : Nat} {f : String × Field}
    (hf : ws.fieldOf? r i = some f) :
    Ends once ws (resolver.intValue r i 0) ws fun value ws' => ws'.refusals = ws.refusals →
      ws'.Fixes r (fun resolver => resolver.intValue r i 0) value := by
  refine (h.intValue hs hr i 0).mono fun value ws' _ hg ⟨hreached, hread⟩ hquiet => ?_
  obtain ⟨hthere, rfl⟩ := hread hquiet
  have hf' : ws'.fieldOf? r i = some f := (hg.fieldOf? r i).trans hf
  obtain ⟨e, hknows⟩ := Workspace.KnowsField.of_laidOut hf' hreached.1 (hreached.2 rfl hquiet hidle)
  rw [hknows.entry]
  refine hknows.fixes_intValue ?_
  rcases hthere f e hf' hknows.entry with hlt | hex
  · exact .inl hlt
  · cases hvalue : f.2.value with
    | none => exact .inr ⟨rfl, hex⟩
    | some _ =>
      have hne := (Field.Exhausted.iff_of_value (by rw [hvalue]; rfl)).mp hex
      exact .inl (Array.size_pos_iff.mpr hne)

/-- What a name stands for is fixed once it has been asked for, unless a frame was refused. -/
theorem fixes_namedValue (h : resolver.Reliable once) (hs : ws.Sound once) (hr : ws.IsLive r)
    (hidle : (ws.layoutOf r).measuring = none) {d : StructDef}
    (hd : (ws.structOf? r).getD .empty = d) (name : String) :
    Ends once ws (resolver.namedValue r d name) ws fun base ws' => ws'.refusals = ws.refusals →
      ws'.Fixes r (fun resolver => resolver.namedValue r d name) base := by
  unfold Resolver.namedValue
  cases hindex : d.fieldIndex? name with
  | none =>
    refine ⟨_, ws, rfl, hs, .refl ws, fun _ ws' _ hargs _ => ?_⟩
    unfold ByteAtlas.argOrParam
    rw [Resolve.runIn_ask, hargs]
  | some i =>
    have hf : ∃ f, ws.fieldOf? r i = some f := by
      obtain ⟨f, hf⟩ := StructDef.field?_of_fieldIndex? hindex
      rw [Workspace.fieldOf?]
      cases hstruct : ws.structOf? r with
      | none =>
        rw [hstruct] at hd
        cases hd
        cases hindex
      | some d' =>
        rw [hstruct] at hd
        cases hd
        exact ⟨f, hf⟩
    obtain ⟨f, hf⟩ := hf
    exact .map ((h.fixes_intValue hs hr hidle hf).mono fun _ _ _ _ hfixed hquiet =>
      (hfixed hquiet).map some)

/-- **The value of an argument is fixed** once it has been computed, unless a frame was refused. -/
theorem fixes_argValue (h : resolver.Reliable once) (hs : ws.Sound once) (hr : ws.IsLive r)
    (hidle : (ws.layoutOf r).measuring = none) (b : ArgBinding) :
    Ends once ws (resolver.argValue r b) ws fun value ws' => ws'.refusals = ws.refusals →
      ws'.Fixes r (fun resolver => resolver.argValue r b) value := by
  unfold Resolver.argValue
  cases b.source with
  | none => exact .pure hs (.refl ws) fun _ _ _ _ _ => rfl
  | some source =>
    refine .ask (.call (h.fixes_namedValue hs hr hidle rfl source) fun base ws₁ hs₁ hg₁ hfixed => ?_)
    refine .pure hs₁ hg₁ fun hquiet ws' hlasts hargs resolver => ?_
    have hd : ws'.structOf? r = ws.structOf? r := hlasts.structOf?.trans (hg₁.structOf? r)
    have hbase := hfixed hquiet ws' hlasts hargs resolver
    dsimp only at hbase ⊢
    rw [Resolve.runIn_bind, structOf?, Resolve.runIn_ask, hd]
    dsimp only
    rw [Resolve.runIn_bind]
    rcases hrun : (resolver.namedValue r ((ws.structOf? r).getD .empty) source).runIn ws' with
      ⟨result, ws''⟩
    rw [hrun] at hbase
    cases hbase
    rfl

/-- The values of the arguments are fixed once they have been computed. -/
theorem fixes_argValues (h : resolver.Reliable once) (bs : List ArgBinding) : ∀ {ws : Workspace},
    ws.Sound once → ws.IsLive r → (ws.layoutOf r).measuring = none →
    Ends once ws (resolver.argValues r bs) ws fun args ws' =>
      List.Forall₂ (fun b a => a.name = b.name ∧ (ws'.refusals = ws.refusals →
        ws'.Fixes r (fun resolver => resolver.argValue r b) a.value)) bs args := by
  induction bs with
  | nil => exact fun hs _ _ => .pure hs (.refl _) .nil
  | cons b bs ih =>
    intro ws hs hr hidle
    unfold Resolver.argValues
    refine .call (h.fixes_argValue hs hr hidle b) fun value ws₁ hs₁ hg₁ hvalue => ?_
    have hr₁ := hg₁.isLive hr
    have hidle₁ := (hg₁.layouts r hr).measuring.trans hidle
    refine .call (ih hs₁ hr₁ hidle₁) fun args ws₂ hs₂ hg₂ hrest => .pure hs₂ (hg₁.trans hg₂) ?_
    have hquiet (hquiet : ws₂.refusals = ws.refusals) :
        ws₁.refusals = ws.refusals ∧ ws₂.refusals = ws₁.refusals := by
      have hle₁ := hg₁.refusals
      have hle₂ := hg₂.refusals
      omega
    refine .cons ⟨rfl, fun hq => (hvalue (hquiet hq).1).grows hr₁ hg₂⟩ ?_
    exact hrest.imp fun _ _ hfixed => ⟨hfixed.1, fun hq => hfixed.2 (hquiet hq).2⟩

end Resolver.Reliable

/-! ## 2. Placing children -/

namespace Workspace

/-- **Whether a child has the arguments** that it is given, with the values that they have. -/
def Supplies (ws : Workspace) (r child : InstanceRef) (bs : List ArgBinding) : Prop :=
  ∀ b ∈ bs, ∃ value, ws.argOf? child b.name = some value ∧
    ws.Fixes r (fun resolver => resolver.argValue r b) value

variable {once : Prop} {ws : Workspace} {r child : InstanceRef}

theorem Supplies.grows {ws' : Workspace} {bs : List ArgBinding} (h : ws.Supplies r child bs)
    (hr : ws.IsLive r) (hc : ws.IsLive child) (hg : ws.Grows ws') : ws'.Supplies r child bs := by
  intro b hb
  obtain ⟨value, hvalue, hfixed⟩ := h b hb
  exact ⟨value, (hg.argOf? hc _).trans hvalue, hfixed.grows hr hg⟩

/-- **What comes of placing an instance**: one that is live is found, or one is made with the
arguments of the placement. -/
def PlacedAs (ws : Workspace) (p : Placement) (added : Directory.Added) (ws' : Workspace) : Prop :=
  (added.inserted = false ∧ ws.IsLive added.ref) ∨
  (added.inserted = true ∧ ws.find? added.ref.id = none ∧
    ∃ i, ws'.find? added.ref.id = some i ∧ i.args = p.args)

theorem Sound.placedAs (h : ws.Sound once) (p : Placement) :
    ws.PlacedAs p (ws.place p).1 (ws.place p).2 := by
  cases hp : ws.directory.findAt? p.location with
  | some i =>
    refine .inl ?_
    rw [Workspace.place, Directory.add_of_taken hp]
    exact ⟨rfl, i, (h.directory.findAt?_eq_some.mp hp).1, rfl⟩
  | none =>
    have hinserted : (ws.place p).1.inserted = true := by
      rw [Workspace.place, Directory.add, hp]
    refine .inr ⟨hinserted, (h.place p).2.2.2.2 hinserted, _,
      (Directory.find?_add_of_free hp _).trans (if_pos ?_), rfl⟩
    rw [Workspace.place, Directory.add, hp]

end Workspace

/-- **Placing an instance** in the course of a step, where it matters whether it is new. -/
theorem Resolve.Ends.placeAs {once : Prop} {β : Type} {start ws : Workspace} {p : Placement}
    {next : Directory.Added → Resolve β} {last : β → Workspace → Prop} (hs : ws.Sound once)
    (hn : ∀ added ws', ws'.Sound once → ws.Grows ws' → ws'.IsLive added.ref →
      ws.PlacedAs p added ws' → Ends once start (next added) ws' last) :
    Ends once start (Resolve.update (fun ws => ws.place p) >>= next) ws last := by
  obtain ⟨hs', hg, hlive, _⟩ := hs.place p
  exact .update (hn _ _ hs' hg hlive (hs.placedAs p))

namespace Resolver

variable {once : Prop} {resolver : Resolver} {ws : Workspace} {r : InstanceRef}

/-- **A new child has its arguments** once it is placed, unless a frame was refused. -/
theorem Reliable.supplies_placeChild (h : resolver.Reliable once) (hs : ws.Sound once)
    (hr : ws.IsLive r) (hidle : (ws.layoutOf r).measuring = none) {field : Field}
    (hnames : (field.args.map ArgBinding.name).Nodup) (struct : String) (reason : Reason)
    (offset : Int64) (budget : Budget) :
    Ends once ws (resolver.placeChild r field struct reason offset budget) ws fun child ws' =>
      ws'.IsLive child ∧ (¬ ws.IsLive child → ws'.refusals = ws.refusals →
        ws'.Supplies r child field.args) := by
  unfold Resolver.placeChild
  refine .placeAs hs fun added ws₁ hs₁ hg₁ hlive hplaced => ?_
  have hr₁ := hg₁.isLive hr
  split
  · rename_i hbinds
    obtain ⟨hinserted, _⟩ := Bool.and_eq_true_iff.mp hbinds
    rcases hplaced with ⟨hfound, _⟩ | ⟨_, hnew, i, hi, hargs⟩
    · rw [hinserted] at hfound
      cases hfound
    have hidle₁ := (hg₁.layouts r hr).measuring.trans hidle
    refine .call (h.fixes_argValues field.args hs₁ hr₁ hidle₁) fun args ws₂ hs₂ hg₂ hfixed => ?_
    have hplace := Workspace.keepsVersion_bindArgs args
    have hr₂ := hg₂.isLive hr₁
    have hg := (hg₁.trans hg₂).modify_new hplace hnew
    refine .change (.pure (hs₂.modify hplace _) hg
      ⟨(Workspace.isLive_modify hplace.toKeepsPlace _).mpr (hg₂.isLive hlive), fun _ hquiet => ?_⟩)
    have hle₁ := hg₁.refusals
    have hle₂ := hg₂.refusals
    have hquiet : ws₂.refusals = ws.refusals := hquiet
    -- The child had no arguments so far, so it has those that are bound now.
    obtain ⟨j, hj, hsame⟩ := hg₂.instances added.ref.id i hi
    have hjargs : j.args = [] := by
      unfold Workspace.SameInstance at hsame
      rw [← hsame] at hargs
      exact hargs
    intro b hb
    obtain ⟨a, hvalue, hfixed⟩ := argValue?_of_forall₂ hfixed hnames b hb
    refine ⟨a.value, ?_, (hfixed (by omega)).lasts (.of_same (hg.isLive hr) rfl
      (Workspace.versionOf_modify hplace _) rfl) fun name => ?_⟩
    · rw [Workspace.argOf?, Workspace.find?_modify, if_pos rfl, hj]
      show argValue? b.name (j.args ++ args) = _
      rw [hjargs]
      exact hvalue
    · have hother : added.ref.id ≠ r.id := by
        obtain ⟨k, hk, _⟩ := hr
        intro he
        rw [he, hk] at hnew
        cases hnew
      rw [Workspace.argOf?, Workspace.find?_modify, if_neg hother]
      rfl
  · rename_i hplain
    refine .pure hs₁ hg₁ ⟨hlive, fun hnot _ => ?_⟩
    rcases hplaced with ⟨_, hfound⟩ | ⟨hinserted, _⟩
    · exact absurd hfound hnot
    · have hempty : field.args = [] := by
        rw [hinserted] at hplain
        simpa using hplain
      rw [hempty]
      exact fun _ hb => absurd hb List.not_mem_nil

/-- **A new child of a chain has the arguments of the one before it**, where that one has been
measured. -/
theorem argOf?_createNext (hs : ws.Sound once) {size : Int64}
    (hsize : (resolver.size r false).runIn ws = (.ok (some size), ws)) (reason : Reason) :
    Ends once ws (resolver.createNext r reason) ws fun a ws' => ∀ next, a = some next →
      ws'.IsLive next ∧ (¬ ws.IsLive next → ∀ name, ws'.argOf? next name = ws.argOf? r name) := by
  unfold Resolver.createNext
  refine .run hsize ?_
  dsimp only
  split
  · exact .pure hs (.refl ws) fun _ e => nomatch e
  · refine .ask ?_
    cases hi : ws.find? r.id with
    | none => exact .pure hs (.refl ws) fun _ e => nomatch e
    | some i =>
      dsimp only
      split
      · exact .pure hs (.refl ws) fun _ e => nomatch e
      · refine .placeAs hs fun added ws₁ hs₁ hg₁ hlive hplaced => .pure hs₁ hg₁ ?_
        rintro _ ⟨⟩
        refine ⟨hlive, fun hnot name => ?_⟩
        rcases hplaced with ⟨_, hfound⟩ | ⟨_, _, j, hj, hargs⟩
        · exact absurd hfound hnot
        · rw [Workspace.argOf?, hj, Workspace.argOf?, hi]
          exact congrArg (argValue? name) hargs

end Resolver

/-! ## 3. Arrivals -/

/-- **A walk comes to a child and visits it**: the workspace in which it has the child placed, and
the one in which the child is then. -/
structure Arrival extends Visit where
  before : Workspace
  placed : Workspace

namespace Arrival

/-- Whether the child is placed at an offset that its parent gives. -/
def IsPlaced (r : InstanceRef) (field : Field) (struct : String) (reason : Reason) (a : Arrival) :
    Prop :=
  ∃ offset budget, (Resolve.resolving fun resolver =>
    resolver.placeChild r field struct reason offset budget).runIn a.before = (.ok a.child, a.placed)

/-- Whether the child is placed as the next one of a chain, once the one before it has been
measured. -/
def IsNext (reason : Reason) (a b : Arrival) : Prop :=
  (∃ size, (a.child.size false).runIn a.after = (.ok (some size), b.before)) ∧
  (a.child.createNext reason).runIn b.before = (.ok (some b.child), b.placed)

/-- **How a walk comes to children**, one after the other. -/
inductive Sequence (r : InstanceRef) (field : Field) (struct : String) (reason : Reason) :
    Option Arrival → List Arrival → Prop where
  | done {last : Option Arrival} : Sequence r field struct reason last []
  | placed {last : Option Arrival} {a : Arrival} {rest : List Arrival} :
    a.IsPlaced r field struct reason → Sequence r field struct reason (some a) rest →
    Sequence r field struct reason last (a :: rest)
  | next {a b : Arrival} {rest : List Arrival} : a.IsNext reason b →
    Sequence r field struct reason (some b) rest →
    Sequence r field struct reason (some a) (b :: rest)

/-- What has happened to a workspace up to the end of a visit. -/
structure Since (once : Prop) (start : Workspace) (a : Arrival) : Prop where
  before : start.Grows a.before
  sound : a.before.Sound once
  placed : a.before.Grows a.placed
  live : a.placed.IsLive a.child
  after : a.placed.Grows a.after
  visited : a.after.Sound once

end Arrival

/-- Whether arguments of some names are those that an instance gives its children. -/
def Workspace.Gives (ws : Workspace) (r : InstanceRef) (bs : List ArgBinding)
    (arg? : String → Option Int64) : Prop :=
  ∀ b ∈ bs, ∃ value, ((r.argValue b).runIn ws).1 = .ok value ∧ arg? b.name = some value

theorem Workspace.Supplies.gives {ws : Workspace} {r child : InstanceRef} {bs : List ArgBinding}
    (h : ws.Supplies r child bs) (hr : ws.IsLive r) : ws.Gives r bs (ws.argOf? child) := by
  intro b hb
  obtain ⟨value, hvalue, hfixed⟩ := h b hb
  exact ⟨value, hfixed.runIn hr, hvalue⟩

namespace Arrival

variable {once : Prop} {start finish : Workspace} {r : InstanceRef} {field : Field} {struct : String}
  {reason : Reason}

/-- The arguments of a child that the walk finds are the same from then on. -/
theorem Since.argOf? {a : Arrival} (h : a.Since once start) (hend : a.after.Grows finish)
    (hfound : a.before.IsLive a.child) (name : String) :
    finish.argOf? a.child name = a.before.argOf? a.child name :=
  ((h.placed.trans h.after).trans hend).argOf? hfound name

/-- **A child that is made at an offset has its arguments.** -/
theorem IsPlaced.gives {a : Arrival} (ha : a.IsPlaced r field struct reason)
    (h : a.Since once start) (hend : a.after.Grows finish) (hr : start.IsLive r)
    (hidle : (start.layoutOf r).measuring = none)
    (hnames : (field.args.map ArgBinding.name).Nodup) (hquiet : finish.refusals = start.refusals)
    (hnew : ¬ a.before.IsLive a.child) :
    finish.Gives r field.args (finish.argOf? a.child) := by
  obtain ⟨offset, budget, hrun⟩ := ha
  have hr₁ := h.before.isLive hr
  have hidle₁ := (h.before.layouts r hr).measuring.trans hidle
  rw [Resolve.runIn_resolving _ rfl] at hrun
  obtain ⟨_, _, hlive, hsupplies⟩ := ((Resolver.reliable_within _).supplies_placeChild h.sound hr₁
    hidle₁ hnames struct reason offset budget).of_run hrun
  have hle := h.before.refusals
  have hle₁ := h.placed.refusals
  have hle₂ := h.after.refusals
  have hle₃ := hend.refusals
  have hg := h.after.trans hend
  have hr₂ := h.placed.isLive hr₁
  exact ((hsupplies hnew (by omega)).grows hr₂ hlive hg).gives (hg.isLive hr₂)

/-- **A child that is made next in a chain has the arguments of the one before it.** -/
theorem IsNext.argOf? {a b : Arrival} (hab : a.IsNext reason b) (ha : a.Since once start)
    (hb : b.Since once start) (hend : b.after.Grows finish) (hnew : ¬ b.before.IsLive b.child)
    (name : String) : finish.argOf? b.child name = finish.argOf? a.child name := by
  obtain ⟨⟨size, hsize⟩, hrun⟩ := hab
  have hlive := ha.after.isLive ha.live
  rw [InstanceRef.size, Resolve.runIn_resolving _ rfl] at hsize
  have hreliable : Resolver.Reliable once _ :=
    Resolver.reliable_within (a.after.limits.maxDepth - a.after.depth)
  obtain ⟨_, hg, _⟩ := (hreliable.size ha.visited hlive false).of_run hsize
  have hagain := hreliable.runIn_size_again ha.visited hlive hsize (.refl _)
  rw [InstanceRef.createNext, Resolve.runIn_resolving _ (by rw [hg.limits, hg.depth])] at hrun
  obtain ⟨_, _, hargs⟩ :=
    (Resolver.argOf?_createNext hb.sound hagain reason).of_run hrun
  obtain ⟨hlive', hargs⟩ := hargs _ rfl
  have hfinish := hb.after.trans hend
  have hall := (hg.trans hb.placed).trans hfinish
  rw [hfinish.argOf? hlive', hargs hnew, hg.argOf? hlive, hall.argOf? hlive]

/-- How a sequence begins: with a child that is placed, or that comes next to the last one. -/
theorem Sequence.of_cons {last : Option Arrival} {a : Arrival} {rest : List Arrival}
    (h : Sequence r field struct reason last (a :: rest)) :
    (a.IsPlaced r field struct reason ∨ ∃ b, last = some b ∧ b.IsNext reason a) ∧
      Sequence r field struct reason (some a) rest := by
  cases h with
  | placed ha hrest => exact ⟨.inl ha, hrest⟩
  | next ha hrest => exact ⟨.inr ⟨_, rfl, ha⟩, hrest⟩

/-- **Every child has its arguments** if those have them that were there when the walk came to
them, by induction on the children: any other is made with them, or takes them over. -/
theorem Sequence.gives {last : Option Arrival} {arrivals : List Arrival}
    (h : Sequence r field struct reason last arrivals) (hr : start.IsLive r)
    (hidle : (start.layoutOf r).measuring = none)
    (hnames : (field.args.map ArgBinding.name).Nodup) (hquiet : finish.refusals = start.refusals)
    (hlast : ∀ a, last = some a → a.Since once start ∧
      finish.Gives r field.args (finish.argOf? a.child))
    (hall : ∀ a ∈ arrivals, a.Since once start ∧ a.after.Grows finish)
    (hfound : ∀ a ∈ arrivals, a.before.IsLive a.child →
      finish.Gives r field.args (finish.argOf? a.child)) :
    ∀ a ∈ arrivals, finish.Gives r field.args (finish.argOf? a.child) := by
  induction arrivals generalizing last with
  | nil => exact fun _ ha => absurd ha List.not_mem_nil
  | cons a rest ih =>
    obtain ⟨ha, hrest⟩ := h.of_cons
    obtain ⟨hsince, hend⟩ := hall a List.mem_cons_self
    have hgives : finish.Gives r field.args (finish.argOf? a.child) := by
      by_cases hold : a.before.IsLive a.child
      · exact hfound a List.mem_cons_self hold
      rcases ha with ha | ⟨b, hb, hnext⟩
      · exact ha.gives hsince hend hr hidle hnames hquiet hold
      · obtain ⟨hbefore, hgiven⟩ := hlast b hb
        rwa [funext (hnext.argOf? hbefore hsince hend hold)]
    refine List.forall_mem_cons.mpr ⟨hgives, ih hrest ?_ (fun b hb => hall b (.tail a hb))
      fun b hb => hfound b (.tail a hb)⟩
    rintro _ ⟨⟩
    exact ⟨hsince, hgives⟩

end Arrival

/-! ## 4. Walks -/

/-- How a walk may come to a child: it places it at an offset, or next to the last one. -/
def Arrival.Comes (r : InstanceRef) (field : Field) (struct : String) (reason : Reason)
    (last : Option Arrival) (a : Arrival) : Prop :=
  a.IsPlaced r field struct reason ∨ ∃ b, last = some b ∧ b.IsNext reason a

/-- **What a visitor keeps along a walk**, the last arrival being known: it stays when the workspace
grows, and a visit to the next child keeps it. -/
structure Visitor.Follows {σ : Type} (once : Prop) (r : InstanceRef) (field : Field)
    (struct : String) (reason : Reason) (start : Workspace) (visit : Visitor σ)
    (inv : σ → Option Arrival → Workspace → Prop) : Prop where
  grows : ∀ {s last ws ws'}, ws.Grows ws' → inv s last ws → inv s last ws'
  visit : ∀ {s last before placed child}, start.Grows before → before.Sound once →
    before.Grows placed → placed.Sound once → placed.IsLive child →
    Arrival.Comes r field struct reason last ⟨⟨child, placed⟩, before, placed⟩ → inv s last before →
    Ends once placed (visit s child) placed fun a after =>
      inv a.1 (some ⟨⟨child, after⟩, before, placed⟩) after

section

variable {once : Prop} {σ : Type} {visit : Visitor σ} {r : InstanceRef} {field : Field}
  {struct : String} {reason : Reason} {start ws : Workspace}
  {inv : σ → Option Arrival → Workspace → Prop}

namespace Resolver

/-- **The rest of a walk along a chain**, by induction on how many children may follow. -/
theorem follows_walkChain (hv : visit.Follows once r field struct reason start inv)
    (upTo : Option Nat) (frames : Nat) : ∀ (left n : Nat) (s : σ) (last : Arrival),
    start.Grows last.after → last.after.Sound once → last.after.IsLive last.child →
      last.after.limits.maxDepth - last.after.depth = frames → inv s (some last) last.after →
      Ends once last.after ((within frames).walkChain upTo reason visit left n s last.child)
        last.after fun a finish => ∃ last, inv a.1 last finish := by
  intro left
  induction left with
  | zero => exact fun n s last _ hs _ _ hinv => .pure hs (.refl _) ⟨_, hinv⟩
  | succ left ih =>
    intro n s last hg hs hc hframes hinv
    have hreliable : (within frames).Reliable once := reliable_within frames
    unfold Resolver.walkChain
    split
    · exact .pure hs (.refl _) ⟨_, hinv⟩
    obtain ⟨known, ws₁, hrun, hs₁, hg₁, _⟩ := hreliable.size hs hc false
    have hcan : ∃ more, ((within frames).canCreateNext last.child false false).runIn last.after =
        (.ok more, ws₁) ∧ (more = some true → ∃ size, known = some size) := by
      unfold Resolver.canCreateNext
      rw [Resolve.runIn_bind, hrun]
      cases known with
      | none => exact ⟨none, rfl, fun e => by cases e⟩
      | some size => exact ⟨_, rfl, fun _ => ⟨size, rfl⟩⟩
    obtain ⟨more, hcan, hknown⟩ := hcan
    refine .run hcan ?_
    split
    · rename_i hmore
      obtain ⟨size, rfl⟩ := hknown hmore
      have hagain := hreliable.runIn_size_again hs hc hrun (.refl _)
      obtain ⟨next, ws₂, hnext, hs₂, hg₂, hlive⟩ := argOf?_createNext hs₁ hagain reason
      refine .run hnext ?_
      have hg₂' := hg₁.trans hg₂
      cases next with
      | none => exact .pure hs₂ hg₂' ⟨_, hv.grows hg₂' hinv⟩
      | some next =>
        obtain ⟨hlive, _⟩ := hlive next rfl
        have hframes₁ : ws₁.limits.maxDepth - ws₁.depth = frames := by
          rw [hg₁.limits, hg₁.depth, hframes]
        have hnext : last.IsNext reason ⟨⟨next, ws₂⟩, ws₁, ws₂⟩ :=
          ⟨⟨size, (Resolve.runIn_resolving _ hframes).trans hrun⟩,
            (Resolve.runIn_resolving _ hframes₁).trans hnext⟩
        refine .call (hv.visit (hg.trans hg₁) hs₁ hg₂ hs₂ hlive (.inr ⟨last, rfl, hnext⟩)
          (hv.grows hg₁ hinv)) fun a ws₃ hs₃ hg₃ hinv₃ => ?_
        have hg₃' := hg₂'.trans hg₃
        obtain ⟨s₃, goOn⟩ := a
        dsimp only
        split
        · have hframes₃ : ws₃.limits.maxDepth - ws₃.depth = frames := by
            rw [hg₃'.limits, hg₃'.depth, hframes]
          exact .rebase hg₃' (ih (n + 1) _ _ (hg.trans hg₃') hs₃ (hg₃.isLive hlive) hframes₃ hinv₃)
        · exact .pure hs₃ hg₃' ⟨_, hinv₃⟩
    · exact .pure hs₁ hg₁ ⟨_, hv.grows hg₁ hinv⟩

/-- **A walk to children with offsets of their own**, by induction on how many elements there
are. -/
theorem follows_walkOffsets (hv : visit.Follows once r field struct reason start inv)
    (upTo : Option Nat) (formula : Formula) (origin : Int64) (frames : Nat) :
    ∀ (left n : Nat) (s : σ) (last : Option Arrival) {ws : Workspace}, start.Grows ws →
      ws.Sound once → ws.IsLive r → ws.limits.maxDepth - ws.depth = frames → inv s last ws →
      Ends once ws ((within frames).walkOffsets r field struct formula origin upTo reason visit left
        n s) ws fun a finish => ∃ last, inv a.1 last finish := by
  intro left
  induction left with
  | zero => exact fun n s last ws _ hs _ _ hinv => .pure hs (.refl _) ⟨_, hinv⟩
  | succ left ih =>
    intro n s last ws hg hs hr hframes hinv
    have hreliable : (within frames).Reliable once := reliable_within frames
    have hagain {ws' : Workspace} (hg : ws.Grows ws') :
        ws'.limits.maxDepth - ws'.depth = frames := by
      rw [hg.limits, hg.depth, hframes]
    unfold Resolver.walkOffsets
    refine .call (hreliable.evaluate _ _ hs hr) fun offset ws₁ hs₁ hg₁ _ => ?_
    cases offset with
    | none => exact .pure hs₁ hg₁ ⟨_, hv.grows hg₁ hinv⟩
    | some offset =>
      have hr₁ := hg₁.isLive hr
      refine .call (hreliable.hasElement field origin _ offset hs₁ hr₁) fun there ws₂ hs₂ hg₂ _ => ?_
      have hg₂' := hg₁.trans hg₂
      have hr₂ := hg₂.isLive hr₁
      split
      · obtain ⟨child, ws₃, hrun, hs₃, hg₃, hlive, _⟩ :=
          hreliable.placeChild hs₂ hr₂ field struct reason offset .one
        refine .run hrun ?_
        have hplaced : (⟨⟨child, ws₃⟩, ws₂, ws₃⟩ : Arrival).IsPlaced r field struct reason :=
          ⟨offset, .one, (Resolve.runIn_resolving _ (hagain hg₂')).trans hrun⟩
        have hg₃' := hg₂'.trans hg₃
        refine .call (hv.visit (hg.trans hg₂') hs₂ hg₃ hs₃ hlive (.inl hplaced)
          (hv.grows hg₂' hinv)) fun a ws₄ hs₄ hg₄ hinv₄ => ?_
        have hg₄' := hg₃'.trans hg₄
        obtain ⟨s₄, goOn⟩ := a
        dsimp only
        split
        · exact .pure hs₄ hg₄' ⟨_, hinv₄⟩
        · exact .rebase hg₄' (ih (n + 1) _ _ (hg.trans hg₄') hs₄ (hg₄'.isLive hr) (hagain hg₄')
            hinv₄)
      · exact .rebase hg₂' (ih (n + 1) s last (hg.trans hg₂') hs₂ hr₂ (hagain hg₂')
          (hv.grows hg₂' hinv))

/-- **What a visitor keeps holds at the end of a walk.** -/
theorem follows_walk {i : Nat} {f : String × Field}
    (hv : visit.Follows once r f.2 struct reason start inv) (hg : start.Grows ws)
    (hs : ws.Sound once) (hr : ws.IsLive r) {frames : Nat}
    (hframes : ws.limits.maxDepth - ws.depth = frames) (hf : ws.fieldOf? r i = some f)
    (htype : f.2.type = .struct struct) (upTo : Option Nat) (s : σ) (last : Option Arrival)
    (hinv : inv s last ws) :
    Ends once ws ((within frames).walk r i upTo reason visit s) ws fun a finish =>
      ∃ last, inv a.1 last finish := by
  have hreliable : (within frames).Reliable once := reliable_within frames
  have hagain {ws' : Workspace} (hg : ws.Grows ws') : ws'.limits.maxDepth - ws'.depth = frames := by
    rw [hg.limits, hg.depth, hframes]
  have hstop {ws' : Workspace} (hs' : ws'.Sound once) (hg' : ws.Grows ws') :
      Ends once ws (pure (s, none) : Resolve (σ × Option InstanceRef)) ws'
        fun a finish => ∃ last, inv a.1 last finish :=
    .pure hs' hg' ⟨last, hv.grows hg' hinv⟩
  obtain ⟨name, field⟩ := f
  unfold Resolver.walk
  refine .ask ?_
  rw [hf]
  dsimp only at htype hv ⊢
  rw [htype]
  split
  · exact hstop hs (.refl ws)
  · exact hstop hs (.refl ws)
  · rename_i hstruct
    cases hstruct
    refine .ask ?_
    split
    · exact hstop hs (.refl ws)
    refine .call ((hreliable.answers r).elementCount i false hs hr) fun count ws₁ hs₁ hg₁ _ => ?_
    have hr₁ := hg₁.isLive hr
    split
    · exact hstop hs₁ hg₁
    split
    · refine .ask ?_
      cases ws₁.entryOf? r i with
      | none => exact hstop hs₁ hg₁
      | some entry =>
        exact .rebase hg₁ (follows_walkOffsets hv upTo _ _ frames _ _ s _ (hg.trans hg₁) hs₁ hr₁
          (hagain hg₁) (hv.grows hg₁ hinv))
    · refine .call (hreliable.fieldOffset hs₁ hr₁ i false) fun offset ws₂ hs₂ hg₂ _ => ?_
      have hg₂' := hg₁.trans hg₂
      obtain ⟨child, ws₃, hrun, hs₃, hg₃, hlive, _⟩ := hreliable.placeChild hs₂ (hg₂.isLive hr₁)
        field struct reason (offset.getD 0) ⟨count.getD 0, field.countIsBytes⟩
      refine .run hrun ?_
      have hplaced : (⟨⟨child, ws₃⟩, ws₂, ws₃⟩ : Arrival).IsPlaced r field struct reason :=
        ⟨_, _, (Resolve.runIn_resolving _ (hagain hg₂')).trans hrun⟩
      have hg₃' := hg₂'.trans hg₃
      refine .call (hv.visit (hg.trans hg₂') hs₂ hg₃ hs₃ hlive (.inl hplaced)
        (hv.grows hg₂' hinv)) fun a ws₄ hs₄ hg₄ hinv₄ => ?_
      have hg₄' := hg₃'.trans hg₄
      obtain ⟨s₄, goOn⟩ := a
      dsimp only
      split
      · exact .rebase hg₄' (follows_walkChain hv upTo frames _ 0 _ _ (hg.trans hg₄') hs₄
          (hg₄.isLive hlive) (hagain hg₄') hinv₄)
      · exact .pure hs₄ hg₄' ⟨_, hinv₄⟩

end Resolver

end

/-! ## 5. Walks that are noted -/

/-- Whether a walk that began at `start` has come to children and noted its visits to them, the
visits `earlier` having been noted before. -/
def Arrival.Noted (once : Prop) (r : InstanceRef) (field : Field) (struct : String) (reason : Reason)
    (start : Workspace) (last : Option Arrival) (earlier visits : List Visit) (finish : Workspace) :
    Prop :=
  ∃ arrivals : List Arrival, visits = earlier ++ arrivals.map Arrival.toVisit ∧
    Arrival.Sequence r field struct reason last arrivals ∧
    ∀ a ∈ arrivals, a.Since once start ∧ a.after.Grows finish

section

variable {once : Prop} {σ : Type} {visit : Visitor σ} {r : InstanceRef} {field : Field}
  {struct : String} {reason : Reason} {start ws finish : Workspace} {last : Option Arrival}
  {earlier visits : List Visit}

/-- One more child comes after the others. -/
theorem Arrival.Sequence.concat {arrivals : List Arrival} {b : Arrival}
    (h : Sequence r field struct reason last arrivals)
    (hb : Comes r field struct reason (arrivals.getLast?.or last) b) :
    Sequence r field struct reason last (arrivals ++ [b]) := by
  induction h with
  | done =>
    rcases hb with hb | ⟨a, rfl, hb⟩
    · exact .placed hb .done
    · exact .next hb .done
  | @placed _ a rest ha _ ih =>
    rw [List.getLast?_cons, Option.some_or, ← Option.or_some] at hb
    exact .placed ha (ih hb)
  | @next _ a rest ha _ ih =>
    rw [List.getLast?_cons, Option.some_or, ← Option.or_some] at hb
    exact .next ha (ih hb)

/-- **A visitor whose visits are noted** keeps that they are. -/
theorem Visitor.follows_recording (hrequest : ∀ s child, Request (visit s child)) :
    visit.recording.Follows once r field struct reason start fun s last ws =>
      ∃ arrivals : List Arrival, s.2 = arrivals.map Arrival.toVisit ∧
        Arrival.Sequence r field struct reason none arrivals ∧ arrivals.getLast? = last ∧
        ∀ a ∈ arrivals, a.Since once start ∧ a.after.Grows ws where
  grows hg := fun ⟨arrivals, hvisits, hseq, hlast, hall⟩ =>
    ⟨arrivals, hvisits, hseq, hlast, fun a ha => ⟨(hall a ha).1, (hall a ha).2.trans hg⟩⟩
  visit := by
    rintro ⟨s, visits⟩ last before placed child hg hs hg₁ hs₁ hlive hcomes
      ⟨arrivals, hvisits, hseq, rfl, hall⟩
    unfold Visitor.recording
    refine .call ((hrequest s child).ends hs₁) fun a ws₂ hs₂ hg₂ _ => .ask (.pure hs₂ hg₂ ?_)
    let b : Arrival := ⟨⟨child, ws₂⟩, before, placed⟩
    have hcomes : Arrival.Comes r field struct reason arrivals.getLast? b := hcomes
    refine ⟨arrivals ++ [b], ?_, hseq.concat ?_, List.getLast?_concat, ?_⟩
    · rw [List.map_append, ← hvisits]
      rfl
    · rw [Option.or_none]
      exact hcomes
    · refine List.forall_mem_append.mpr ⟨fun a ha => ?_, List.forall_mem_singleton.mpr ?_⟩
      · exact ⟨(hall a ha).1, (hall a ha).2.trans (hg₁.trans hg₂)⟩
      · exact ⟨⟨hg, hs, hg₁, hlive, hg₂, hs₂⟩, .refl ws₂⟩

/-- **A walk notes how it comes to each child.** -/
theorem Resolver.noted_walk (hrequest : ∀ s child, Request (visit s child)) (hs : ws.Sound once)
    (hr : ws.IsLive r) {frames : Nat} (hframes : ws.limits.maxDepth - ws.depth = frames) {i : Nat}
    {f : String × Field} (hf : ws.fieldOf? r i = some f) (htype : f.2.type = .struct struct)
    (upTo : Option Nat) (reason : Reason) (s : σ) :
    Ends once ws ((within frames).walk r i upTo reason visit.recording (s, [])) ws fun a finish =>
      Arrival.Noted once r f.2 struct reason ws none [] a.1.2 finish := by
  refine (follows_walk (Visitor.follows_recording hrequest) (.refl ws) hs hr hframes hf htype upTo
    (s, []) none ⟨[], rfl, .done, rfl, fun _ ha => nomatch ha⟩).mono fun a finish _ _ hnoted => ?_
  obtain ⟨_, arrivals, hvisits, hseq, _, hall⟩ := hnoted
  exact ⟨arrivals, hvisits, hseq, hall⟩

end

/-- **When every child has its arguments**, after any history and with any visitor that makes
requests, if no frame is refused: just if those children had them that were there already when the
walk came to them. All others are made with the arguments of the field, or take over those of the
child before them in the chain. -/
theorem Workspace.Reached.walk_gives {ws : Workspace} {n : Nat} {edited : Bool}
    (h : ws.Reached n edited) {r : InstanceRef} (hr : ws.IsLive r) {i : Nat} {f : String × Field}
    {struct : String} (hf : ws.fieldOf? r i = some f) (htype : f.2.type = .struct struct)
    (hnames : (f.2.args.map ArgBinding.name).Nodup) {σ : Type} {visit : Visitor σ}
    (hrequest : ∀ s child, Request (visit s child)) (upTo : Option Nat) (reason : Reason) (s : σ) :
    ∃ (s' : σ) (arrivals : List Arrival) (last : Option InstanceRef) (ws' : Workspace),
      (r.walk i upTo reason visit.recording (s, [])).runIn ws =
        (.ok ((s', arrivals.map Arrival.toVisit), last), ws') ∧
      Arrival.Sequence r f.2 struct reason none arrivals ∧
      (∀ a ∈ arrivals, a.Since (n < Schema.versionLimit) ws ∧ a.after.Grows ws') ∧
      (ws'.refusals = ws.refusals →
        ((∀ a ∈ arrivals, ws'.Gives r f.2.args (ws'.argOf? a.child)) ↔
          ∀ a ∈ arrivals, a.before.IsLive a.child →
            ws'.Gives r f.2.args (a.before.argOf? a.child))) := by
  have hs := h.atRest.sound
  obtain ⟨⟨⟨s', visits⟩, last⟩, ws', hrun, _, _, arrivals, hvisits, hseq, hall⟩ :=
    Resolver.noted_walk hrequest hs hr rfl hf htype upTo reason s
  have hvisits : visits = arrivals.map Arrival.toVisit := hvisits
  subst hvisits
  refine ⟨s', arrivals, last, ws', (Resolve.runIn_resolving _ rfl).trans hrun, hseq,
    hall, fun hquiet => ?_⟩
  have hsame {a : Arrival} (ha : a ∈ arrivals) (hfound : a.before.IsLive a.child) :
      ws'.argOf? a.child = a.before.argOf? a.child :=
    funext ((hall a ha).1.argOf? (hall a ha).2 hfound)
  constructor
  · intro hgives a ha hfound
    rw [← hsame ha hfound]
    exact hgives a ha
  · intro hfound
    refine hseq.gives hr (h.atRest.idle r hr) hnames hquiet (fun _ e => nomatch e) hall
      fun a ha hlive => ?_
    rw [hsame ha hlive]
    exact hfound a ha hlive

namespace Workspace

/-- A struct of one character. -/
def sheetRow : StructDef :=
  { StructDef.empty with
    size := 1
    fields := ⟨[("mark", .ofType (.scalar .char))], by decide⟩ }

/-- A struct of two of them, which get a number that is computed from the first. -/
def sheet : StructDef :=
  { StructDef.empty with
    size := 8
    fields := ⟨[("rows", { Field.ofType (.struct "Row") with
        count := 2
        args := [⟨"n", some "k", 0⟩] }),
      ("k", { Field.ofType (.scalar .char) with
        value := some ⟨"rows.mark + 5", .binary .add
          (.member (some (.sub none "rows" (.mk [] [] none))) "mark" none false) (.constant 5),
          by cbv⟩ })], by decide⟩ }

def sheetSchema : Schema :=
  ⟨((∅ : Std.TreeMap String StructDef).insert "Sheet" sheet).insert "Row" sheetRow, 0⟩

def sheetRef : InstanceRef := ⟨0, ⟨"Sheet", 0, 0⟩⟩

/-- A workspace with a sheet, before anything has been asked. -/
def withSheet : Workspace :=
  ((ofSchema sheetSchema .default).place (.single sheetRef.location .user)).2

/-- The children that have been visited in a walk. -/
def visited (result : Except Fault ((Unit × List Visit) × Option InstanceRef)) : List InstanceRef :=
  match result with
  | .error _ => []
  | .ok ((_, visits), _) => visits.map Visit.child

/-- The second row has no number: it was there when the walk came to it, because the number of the
first row is computed from both. -/
theorem walk_gives_withSheet : withSheet.Reached 0 false ∧
    ∃ (arrivals : List Arrival) (last : Option InstanceRef) (ws' : Workspace),
      (sheetRef.walk 0 none .query Visitor.idle.recording ((), [])).runIn withSheet =
        (.ok (((), arrivals.map Arrival.toVisit), last), ws') ∧
      ((sheetRef.argValue ⟨"n", some "k", 0⟩).runIn ws').1 = .ok 5 ∧
      ∃ a ∈ arrivals, a.before.IsLive a.child ∧ a.before.argOf? a.child "n" ≠ some 5 := by
  have hreached : withSheet.Reached 0 false :=
    .request (.start (.of_toList rfl (by decide)) trivial (by decide)) (.place _)
  have hlive : withSheet.IsLive sheetRef := ⟨_, rfl, rfl⟩
  have hrequest : ∀ s child, Request (Visitor.idle s child) := fun _ _ => .done _
  obtain ⟨f, hf, hargs, hnames, htype⟩ : ∃ f, withSheet.fieldOf? sheetRef 0 = some f ∧
      f.2.args = [⟨"n", some "k", 0⟩] ∧ (f.2.args.map ArgBinding.name).Nodup ∧
      f.2.type = .struct "Row" := ⟨_, rfl, rfl, by decide, rfl⟩
  obtain ⟨_, arrivals, last, ws', hrun, _, _, hiff⟩ :=
    hreached.walk_gives hlive hf htype hnames hrequest none .query ()
  rw [hargs] at hiff
  have hvisited : visited ((sheetRef.walk 0 none .query Visitor.idle.recording ((), [])).runIn
      withSheet).1 = [⟨1, ⟨"Row", 0, 0⟩⟩, ⟨2, ⟨"Row", 0, 1⟩⟩] := by
    decide +kernel
  have hquiet : ((sheetRef.walk 0 none .query Visitor.idle.recording ((), [])).runIn
      withSheet).2.refusals = withSheet.refusals := by
    decide +kernel
  have hunbound : ((sheetRef.walk 0 none .query Visitor.idle.recording ((), [])).runIn
      withSheet).2.argOf? ⟨2, ⟨"Row", 0, 1⟩⟩ "n" = none := by
    decide +kernel
  have hvalue : ((sheetRef.argValue ⟨"n", some "k", 0⟩).runIn ((sheetRef.walk 0 none .query
      Visitor.idle.recording ((), [])).runIn withSheet).2).1 = .ok 5 := by
    decide +kernel
  rw [hrun] at hvisited hquiet hunbound hvalue
  refine ⟨hreached, arrivals, last, ws', hrun, hvalue, ?_⟩
  by_contra hnone
  have hall := (hiff hquiet).mpr fun a ha hlive b hb => by
    cases List.mem_singleton.mp hb
    refine ⟨5, hvalue, ?_⟩
    by_contra hne
    exact hnone ⟨a, ha, hlive, hne⟩
  have hvisited : (arrivals.map Arrival.toVisit).map Visit.child =
      [⟨1, ⟨"Row", 0, 0⟩⟩, ⟨2, ⟨"Row", 0, 1⟩⟩] := hvisited
  have hmem : (⟨2, ⟨"Row", 0, 1⟩⟩ : InstanceRef) ∈ (arrivals.map Arrival.toVisit).map Visit.child :=
    hvisited ▸ .tail _ (.head _)
  rw [List.map_map] at hmem
  obtain ⟨a, ha, hchild⟩ := List.mem_map.mp hmem
  obtain ⟨_, _, hbound⟩ := hall a ha _ List.mem_cons_self
  rw [show a.child = _ from hchild, hunbound] at hbound
  cases hbound

end Workspace

end ByteAtlas
