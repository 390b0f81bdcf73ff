import Mathlib
import ByteAtlas.Proofs.Flat.Rest
import ByteAtlas.Proofs.Resolve.History
import ByteAtlas.Proofs.Resolve.Known

/-!
# What remains of a definition that is missing

An entry is dropped when its stamp is checked, and without a definition no stamp is checked. So an
instance whose struct is not defined any more answers from the entries that there are: as much as
they hold (`Inquiry.remains`), lazily or not, whatever is asked before
(`Workspace.Reached.answers_of_undefined`). Where there is no entry it answers like an instance of
which nothing is known.
-/

namespace ByteAtlas

open Resolve (ask)

/-! ## 1. What an entry tells by itself -/

namespace FieldEntry

/-- The previews that the joined preview takes of the elements read so far. -/
def takePreviews (e : FieldEntry) : (left n : Nat) → (joined : String) → List String
  | 0, _, _ => []
  | left + 1, n, joined =>
    match (e.values[n]?).map fun element => element.value.preview with
    | none => []
    | some p =>
      let longer := joined ++ previewSeparator true (n == 0) ++ p
      if p.isEmpty || previewLimit ≤ longer.utf8ByteSize then [p]
      else p :: e.takePreviews left (n + 1) longer

/-- The joined preview, kept or joined of the elements read so far. -/
def joinedPreview (e : FieldEntry) : String :=
  if !e.present then notPresentPreview
  else
    match e.preview with
    | some preview => preview
    | none =>
      if e.offset.isNone then notLoadedPreview
      else joinPreviews true (e.takePreviews previewLimit 0 "")

end FieldEntry

namespace Inquiry

/-- **The answer that an entry gives by itself**, to a question about its field. -/
def remains (e : FieldEntry) : (q : Inquiry) → q.Answer
  | isPresent _ => some e.present
  | fieldOffset _ => e.offset
  | valueOffset _ n =>
    (e.offset.bind fun offset =>
      if n = 0 then some offset else (e.values[n]?).map Element.offset : Option Int64)
  | elementCount _ => some (e.count.getD 0)
  | totalSize _ => e.totalSize
  | fieldPreview _ => e.joinedPreview
  | valuePreview _ n => ((e.values[n]?).map fun element => element.value.preview : Option String)
  | intValue _ n => ((e.values[n]?).elim 0 fun element => element.value.toInt : Int64)
  | size => (none : Option Int64)
  | canCreateNext _ => (none : Option Bool)

/-- The answer from an entry, if there is one. -/
def remainsOf (q : Inquiry) (e : Option FieldEntry) : q.Answer := e.elim q.nothing q.remains

variable {e : FieldEntry}

/-- A count of none is what is told anyway. -/
theorem remains_setCount (h : e.count = none) (q : Inquiry) :
    q.remains { e with count := some 0 } = q.remains e := by
  cases q with
  | elementCount i =>
    show some 0 = some (e.count.getD 0)
    rw [h]
    rfl
  | _ => rfl

/-- The preview that has been told is told again. -/
theorem remains_setPreview (hpresent : e.present = true) (q : Inquiry) :
    q.remains { e with preview := some e.joinedPreview } = q.remains e := by
  cases q with
  | fieldPreview i =>
    show ({ e with preview := some e.joinedPreview } : FieldEntry).joinedPreview = e.joinedPreview
    rw [FieldEntry.joinedPreview, if_neg (by simp [hpresent])]
  | _ => rfl

end Inquiry

/-! ## 2. What questions leave as it is -/

/-- **A workspace after questions to an instance of an undefined struct**: its entries give the same
answers by themselves. -/
structure Workspace.Remains (r : InstanceRef) (ws ws' : Workspace) : Prop where
  undefined : ws'.structOf? r = none
  limits : ws'.limits = ws.limits
  answers (q : Inquiry) (i : Nat) :
    q.remainsOf (ws'.entryOf? r i) = q.remainsOf (ws.entryOf? r i)

namespace Workspace.Remains

variable {r : InstanceRef} {ws : Workspace} {i : Nat} {e : FieldEntry}

theorem refl (hnone : ws.structOf? r = none) : ws.Remains r ws := ⟨hnone, rfl, fun _ _ => rfl⟩

theorem trans {a b c : Workspace} (hab : a.Remains r b) (hbc : b.Remains r c) : a.Remains r c :=
  ⟨hbc.undefined, hbc.limits.trans hab.limits,
    fun q i => (hbc.answers q i).trans (hab.answers q i)⟩

/-- Something is noted that would be told anyway. -/
theorem modifyEntry (hnone : ws.structOf? r = none) (he : ws.entryOf? r i = some e)
    {f : FieldEntry → FieldEntry} (hf : ∀ q : Inquiry, q.remains (f e) = q.remains e) :
    ws.Remains r (ws.modifyLayout r (·.modifyEntry i f)) := by
  refine ⟨hnone, rfl, fun q j => ?_⟩
  by_cases hij : i = j
  · subst hij
    rw [entryOf?_modifyEntry_of_some he, he]
    exact hf q
  · rw [Workspace.entryOf?, layoutOf_modifyLayout]
    show q.remainsOf (((ws.layoutOf r).entries.modify i f)[j]?) = _
    rw [Array.getElem?_modify, if_neg hij]
    rfl

end Workspace.Remains

/-! ## 3. Questions -/

theorem Workspace.fieldOf?_of_undefined {ws : Workspace} {r : InstanceRef}
    (hnone : ws.structOf? r = none) (i : Nat) : ws.fieldOf? r i = none := by
  rw [Workspace.fieldOf?, hnone]

namespace Resolver

variable {ws : Workspace} {r : InstanceRef} (resolver : Resolver) (hnone : ws.structOf? r = none)
include hnone

/-- Nothing is laid out, and nothing is dropped. -/
theorem runIn_enumerate_of_undefined (upTo : Nat) (isLazy : Bool) :
    (resolver.enumerate r upTo isLazy).runIn ws = (.ok (), ws) := by
  unfold Resolver.enumerate
  simp only [structOf?, Resolve.runIn_bind, Resolve.runIn_ask, hnone, Resolve.runIn_pure]

theorem runIn_isPresent_of_undefined (i : Nat) (isLazy : Bool) :
    (resolver.isPresent r i isLazy).runIn ws =
      (.ok ((ws.entryOf? r i).map FieldEntry.present), ws) := by
  unfold Resolver.isPresent
  simp only [entryOf?, Resolve.runIn_bind, Resolve.runIn_ask,
    resolver.runIn_enumerate_of_undefined hnone, Resolve.runIn_pure]

theorem runIn_fieldOffset_of_undefined (i : Nat) (isLazy : Bool) :
    (resolver.fieldOffset r i isLazy).runIn ws =
      (.ok ((ws.entryOf? r i).bind FieldEntry.offset), ws) := by
  unfold Resolver.fieldOffset
  simp only [entryOf?, fieldOf?, Resolve.runIn_bind, Resolve.runIn_ask,
    resolver.runIn_enumerate_of_undefined hnone]
  cases ws.entryOf? r i with
  | none => rfl
  | some e =>
    cases hoffset : e.offset <;> cases isLazy <;>
      simp [Resolve.runIn_bind, Workspace.fieldOf?_of_undefined hnone, hoffset]

/-- The elements read so far are all there are. -/
theorem runIn_readValuesWith_of_undefined (countElements : Resolve (Option Int64)) (i : Nat)
    (wanted : Wanted) : (resolver.readValuesWith countElements r i wanted).runIn ws =
      (.ok ((ws.entryOf? r i).any fun e => wanted.metBy e.values.size), ws) := by
  unfold Resolver.readValuesWith
  simp only [entryOf?, fieldOf?, Resolve.runIn_bind, Resolve.runIn_ask,
    resolver.runIn_enumerate_of_undefined hnone]
  cases ws.entryOf? r i with
  | none => rfl
  | some e =>
    cases hmet : wanted.metBy e.values.size <;>
      simp [Resolve.runIn_bind, Workspace.fieldOf?_of_undefined hnone, hmet]

/-- What is asked of an element is told of those that have been read. -/
theorem runIn_readElement_of_undefined {β : Type} (countElements : Resolve (Option Int64))
    (i n : Nat) (f : Option Element → β) (nothing : β) (hnothing : f none = nothing) :
    Resolve.runIn (do
        if ← resolver.readValuesWith countElements r i (.first (n + 1)) then
          let entry ← entryOf? r i
          pure (f (entry.bind fun e => e.values[n]?))
        else pure nothing) ws =
      (.ok (f ((ws.entryOf? r i).bind fun e => e.values[n]?)), ws) := by
  simp only [Resolve.runIn_bind, resolver.runIn_readValuesWith_of_undefined hnone]
  cases he : ws.entryOf? r i with
  | none => simp [hnothing]
  | some e =>
    by_cases hn : n < e.values.size
    · simp only [Option.any_some, Wanted.metBy_first.mpr hn, if_true, entryOf?,
        Resolve.runIn_bind, Resolve.runIn_ask, Resolve.runIn_pure, he]
    · rw [Option.any_some, if_neg (fun h => hn (Wanted.metBy_first.mp h))]
      simp [hnothing, Array.getElem?_eq_none (Nat.le_of_not_lt hn)]

theorem runIn_valuePreview_of_undefined (i n : Nat) :
    (resolver.valuePreview r i n).runIn ws =
      (.ok ((ws.entryOf? r i).bind fun e =>
        (e.values[n]?).map fun element => element.value.preview), ws) := by
  refine (resolver.runIn_readElement_of_undefined hnone _ i n
    (Option.map fun element => element.value.preview) none rfl).trans ?_
  cases ws.entryOf? r i <;> rfl

theorem runIn_intValue_of_undefined (i n : Nat) :
    (resolver.intValue r i n).runIn ws =
      (.ok (((ws.entryOf? r i).bind fun e => e.values[n]?).elim 0
        fun element => element.value.toInt), ws) :=
  resolver.runIn_readElement_of_undefined hnone _ i n
    (fun element => element.elim 0 fun element => element.value.toInt) 0 rfl

theorem runIn_totalSize_of_undefined (i : Nat) (isLazy : Bool) :
    (resolver.totalSize r i isLazy).runIn ws =
      (.ok ((ws.entryOf? r i).bind FieldEntry.totalSize), ws) := by
  unfold Resolver.totalSize
  simp only [entryOf?, fieldOf?, Resolve.runIn_bind, Resolve.runIn_ask,
    resolver.runIn_enumerate_of_undefined hnone]
  cases ws.entryOf? r i with
  | none => rfl
  | some e =>
    cases htotal : e.totalSize <;>
      simp [Resolve.runIn_bind, Workspace.fieldOf?_of_undefined hnone, htotal]

theorem runIn_valueOffset_of_undefined (i n : Nat) (isLazy : Bool) :
    (resolver.valueOffset r i n isLazy).runIn ws =
      (.ok ((Inquiry.valueOffset i n).remainsOf (ws.entryOf? r i)), ws) := by
  have hchildren : ws.holdsChildren r i = false := by
    rw [Workspace.holdsChildren, Workspace.fieldOf?_of_undefined hnone]
    rfl
  unfold Resolver.valueOffset
  simp only [Resolve.runIn_bind, resolver.runIn_fieldOffset_of_undefined hnone]
  cases he : ws.entryOf? r i with
  | none => rfl
  | some e =>
    rw [Option.bind_some]
    show _ = (Except.ok (e.offset.bind fun offset =>
      if n = 0 then some offset else (e.values[n]?).map Element.offset), ws)
    cases e.offset with
    | none => rfl
    | some offset =>
      by_cases hn : n = 0
      · simp [hn]
      · cases isLazy <;>
          simp only [hn, hchildren, Bool.not_false, Bool.not_true, Bool.and_false, Bool.false_and,
            Bool.false_eq_true, if_true, if_false, Resolver.readValues, entryOf?, he,
            Resolve.runIn_bind, Resolve.runIn_ask, Resolve.runIn_pure, Option.bind_some,
            resolver.runIn_readValuesWith_of_undefined hnone]

theorem runIn_takePreviews_of_undefined {e : FieldEntry} {i : Nat} (he : ws.entryOf? r i = some e)
    (left n : Nat) (joined : String) :
    (resolver.takePreviews r i true left n joined).runIn ws =
      (.ok (e.takePreviews left n joined), ws) := by
  induction left generalizing n joined with
  | zero => rfl
  | succ left ih =>
    unfold Resolver.takePreviews FieldEntry.takePreviews
    simp only [Resolve.runIn_bind, resolver.runIn_valuePreview_of_undefined hnone, he,
      Option.bind_some]
    cases (e.values[n]?).map fun element => element.value.preview with
    | none => rfl
    | some p =>
      dsimp only
      split
      · rfl
      · simp only [Resolve.runIn_bind, ih, Resolve.runIn_pure]

/-- The joined preview is noted, and would be told anyway. -/
theorem runIn_fieldPreview_of_undefined (i : Nat) (isLazy : Bool) :
    ∃ ws', (resolver.fieldPreview r i isLazy).runIn ws =
      (.ok ((Inquiry.fieldPreview i).remainsOf (ws.entryOf? r i)), ws') ∧ ws.Remains r ws' := by
  unfold Resolver.fieldPreview
  simp only [Resolve.runIn_bind, resolver.runIn_enumerate_of_undefined hnone, entryOf?,
    Resolve.runIn_ask]
  cases he : ws.entryOf? r i with
  | none => exact ⟨ws, rfl, .refl hnone⟩
  | some e =>
    show ∃ ws', _ = (Except.ok e.joinedPreview, ws') ∧ _
    cases hpresent : e.present with
    | false => exact ⟨ws, by simp [FieldEntry.joinedPreview, hpresent], .refl hnone⟩
    | true =>
      cases hpreview : e.preview with
      | some preview =>
        exact ⟨ws, by simp [FieldEntry.joinedPreview, hpresent, hpreview], .refl hnone⟩
      | none =>
        simp only [hpresent, hpreview, Bool.not_true, Bool.false_eq_true, if_false, he,
          Resolve.runIn_bind, resolver.runIn_fieldOffset_of_undefined hnone, Option.bind_some]
        cases hoffset : e.offset with
        | none =>
          exact ⟨ws, by simp [FieldEntry.joinedPreview, hpresent, hpreview, hoffset], .refl hnone⟩
        | some offset =>
          have htold : e.joinedPreview = joinPreviews true (e.takePreviews previewLimit 0 "") := by
            simp [FieldEntry.joinedPreview, hpresent, hpreview, hoffset]
          simp only [Option.isNone_some, Bool.false_eq_true, if_false, fieldOf?, Resolve.runIn_bind,
            Resolve.runIn_ask, Workspace.fieldOf?_of_undefined hnone, Option.bind_none,
            Option.elim_none, resolver.runIn_takePreviews_of_undefined hnone he, modifyEntry,
            ByteAtlas.modifyLayout, Resolve.runIn_change, Resolve.runIn_pure, ← htold]
          have hnoted : ws.Remains r (ws.modifyLayout r fun l =>
              l.modifyEntry i fun e' => { e' with preview := some e.joinedPreview }) :=
            .modifyEntry hnone he (Inquiry.remains_setPreview hpresent)
          exact ⟨_, rfl, hnoted⟩

/-- Without a definition there are no elements to count. -/
theorem runIn_elementCount_of_undefined (hlimit : 0 ≤ ws.limits.maxElements) (i : Nat)
    (isLazy : Bool) :
    ∃ ws', (resolver.elementCount r i isLazy).runIn ws =
      (.ok ((Inquiry.elementCount i).remainsOf (ws.entryOf? r i)), ws') ∧ ws.Remains r ws' := by
  unfold Resolver.elementCount
  simp only [Resolve.runIn_bind, resolver.runIn_enumerate_of_undefined hnone, entryOf?,
    Resolve.runIn_ask]
  cases he : ws.entryOf? r i with
  | none => exact ⟨ws, rfl, .refl hnone⟩
  | some e =>
    show ∃ ws', _ = (Except.ok (some (e.count.getD 0)), ws') ∧ _
    cases hcount : e.count with
    | some count => exact ⟨ws, by simp [hcount], .refl hnone⟩
    | none =>
      have hlimited : (limitCount 0).runIn ws = (.ok 0, ws) := by
        unfold limitCount
        have hnot : ¬ ws.limits.maxElements < 0 := Int64.not_lt.mpr hlimit
        simp [Resolve.runIn_bind, hnot]
      have hnoted : ws.Remains r (ws.modifyLayout r fun l =>
          l.modifyEntry i fun e => { e with count := some 0 }) :=
        .modifyEntry hnone he (Inquiry.remains_setCount hcount)
      refine ⟨_, ?_, hnoted⟩
      simp only [hcount]
      cases hpresent : e.present with
      | false =>
        simp [Resolve.runIn_bind, hlimited, modifyEntry, ByteAtlas.modifyLayout, Except.map]
      | true =>
        simp only [Option.isSome_none, Bool.false_eq_true, if_false, Bool.not_true, unlessCutShort,
          structOf?, Resolve.runIn_bind, Resolve.runIn_ask, hnone, Option.getD_none]
        rw [show StructDef.empty.field? i = none from rfl]
        simp [Resolve.runIn_bind, hlimited, modifyEntry, ByteAtlas.modifyLayout, Except.map]

end Resolver

/-! ## 4. Any number of questions -/

/-- **A question about a field is answered from its entry**, and the entries remain. -/
theorem Inquiry.request_of_undefined {ws : Workspace} {r : InstanceRef} (resolver : Resolver)
    (hnone : ws.structOf? r = none) (hlimit : 0 ≤ ws.limits.maxElements) {i : Nat} (q : Inquiry)
    (hq : q.field? = some i) (isLazy : Bool) :
    ∃ ws', (q.request r isLazy resolver).runIn ws = (.ok (q.remainsOf (ws.entryOf? r i)), ws') ∧
      ws.Remains r ws' := by
  cases q <;> cases hq
  case isPresent =>
    refine ⟨ws, (resolver.runIn_isPresent_of_undefined hnone i isLazy).trans ?_, .refl hnone⟩
    cases ws.entryOf? r i <;> rfl
  case fieldOffset =>
    refine ⟨ws, (resolver.runIn_fieldOffset_of_undefined hnone i isLazy).trans ?_, .refl hnone⟩
    cases ws.entryOf? r i <;> rfl
  case valueOffset n =>
    exact ⟨ws, resolver.runIn_valueOffset_of_undefined hnone i n isLazy, .refl hnone⟩
  case elementCount => exact resolver.runIn_elementCount_of_undefined hnone hlimit i isLazy
  case totalSize =>
    refine ⟨ws, (resolver.runIn_totalSize_of_undefined hnone i isLazy).trans ?_, .refl hnone⟩
    cases ws.entryOf? r i <;> rfl
  case fieldPreview => exact resolver.runIn_fieldPreview_of_undefined hnone i isLazy
  case valuePreview n =>
    refine ⟨ws, (resolver.runIn_valuePreview_of_undefined hnone i n).trans ?_, .refl hnone⟩
    cases ws.entryOf? r i <;> rfl
  case intValue n =>
    refine ⟨ws, (resolver.runIn_intValue_of_undefined hnone i n).trans ?_, .refl hnone⟩
    cases ws.entryOf? r i <;> rfl

/-- The other questions do not ask for the entries, and change nothing. -/
theorem Inquiry.runIn_request_of_undefined {ws : Workspace} {r : InstanceRef} (resolver : Resolver)
    (hnone : ws.structOf? r = none) {q : Inquiry} (hq : q.field? = none) (isLazy : Bool) :
    ((q.request r isLazy resolver).runIn ws).2 = ws := by
  have hsize := resolver.runIn_size_of_undefined hnone isLazy
  cases q with
  | size => exact congrArg Prod.snd hsize
  | canCreateNext loose =>
    have hkept : ((resolver.canCreateNext r isLazy loose).runIn ws).2 = ws := by
      rw [Resolver.canCreateNext, Resolve.runIn_bind, hsize]
      rfl
    exact hkept
  | _ => cases hq

namespace Workspace

/-- **The workspaces that questions to an instance lead to.** -/
inductive Asked (r : InstanceRef) (start : Workspace) : Workspace → Prop where
  | refl : Asked r start start
  | ask {ws : Workspace} (q : Inquiry) (isLazy : Bool) :
    Asked r start ws → Asked r start ((q.ask r isLazy).runIn ws).2

variable {r : InstanceRef} {start ws : Workspace} {n : Nat} {edited : Bool}

theorem Asked.remains (h : start.Asked r ws) (hnone : start.structOf? r = none)
    (hlimit : 0 ≤ start.limits.maxElements) : start.Remains r ws := by
  induction h with
  | refl => exact .refl hnone
  | @ask ws q isLazy _ ih =>
    refine ih.trans ?_
    rw [q.ask_eq, Resolve.runIn_resolving _ rfl]
    cases hq : q.field? with
    | some i =>
      obtain ⟨ws', hrun, hremains⟩ := q.request_of_undefined (.within _) ih.undefined
        (ih.limits ▸ hlimit) hq isLazy
      rw [hrun]
      exact hremains
    | none =>
      rw [q.runIn_request_of_undefined (.within _) ih.undefined hq isLazy]
      exact .refl ih.undefined

/-- **An instance whose struct is not defined tells what remains of it**: after any history, and
after any questions since, a question about a field is answered from the entry that there is. Where
there is one it does not answer like an instance that has never been asked. -/
theorem Reached.answers_of_undefined (h : start.Reached n edited)
    (hnone : start.structOf? r = none) (i : Nat) :
    (∀ ws, start.Asked r ws → ∀ q : Inquiry, q.field? = some i → ∀ isLazy, ∃ ws',
      (q.ask r isLazy).runIn ws = (.ok (q.remainsOf (start.entryOf? r i)), ws')) ∧
    ((∀ q : Inquiry, q.field? = some i → q.remainsOf (start.entryOf? r i) = q.nothing) ↔
      start.entryOf? r i = none) := by
  have hlimit := h.atRest.sound.limit
  refine ⟨fun ws hasked q hq isLazy => ?_, fun hall => ?_, fun hentry q _ => ?_⟩
  · have hremains := hasked.remains hnone hlimit
    obtain ⟨ws', hrun, _⟩ := q.request_of_undefined (.within _) hremains.undefined
      (hremains.limits ▸ hlimit) hq isLazy
    rw [hremains.answers] at hrun
    exact ⟨ws', by rw [q.ask_eq, Resolve.runIn_resolving _ rfl, hrun]⟩
  · cases he : start.entryOf? r i with
    | none => rfl
    | some e =>
      have hpresent : (some e.present : Option Bool) = none := by
        have hall := hall (.isPresent i) rfl
        rwa [he] at hall
      exact nomatch hpresent
  · rw [hentry]
    rfl

/-- A point in the plane. -/
def point : StructDef :=
  { StructDef.empty with
    isPacked := true
    fields := ⟨[("x", .ofType (.scalar (.int .i32))), ("y", .ofType (.scalar (.int .i32)))],
      by decide⟩ }

def pointSchema : Schema := ⟨(∅ : Std.TreeMap String StructDef).insert "Point" point, 0⟩

def pointRef : InstanceRef := ⟨0, ⟨"Point", 0, 0⟩⟩

/-- A workspace with one, in a file of eight bytes. -/
def withPoint : Workspace :=
  ((ofSchema pointSchema .default).addSource (.ofBytes "point" #[1, 0, 0, 0, 2, 0, 0, 0])).2.place
    (.single pointRef.location .user) |>.2

/-- After it has been asked for `y`. -/
def askedPoint : Workspace := ((pointRef.intValue 1 0).runIn withPoint).2

/-- Then points are not defined any more. -/
def withoutPoint : Workspace :=
  { askedPoint with schema := (askedPoint.schema.remove "Point").2 }

/-- Still it tells what it has told, and nothing of `x`, which has not been read. -/
theorem answers_withoutPoint : withoutPoint.Reached 0 true ∧
    withoutPoint.structOf? pointRef = none ∧
    (∃ ws', (pointRef.intValue 1 0).runIn withoutPoint = (.ok 2, ws')) ∧
    (∃ ws', (pointRef.intValue 0 0).runIn withoutPoint = (.ok 0, ws')) := by
  have hplaced : withPoint.Reached 0 false :=
    .request (Reached.addSource _ (.start (.of_toList rfl (by decide)) trivial (by decide))) (.place _)
  have hlive : withPoint.IsLive pointRef := ⟨_, rfl, rfl⟩
  have hquestion : Question fun r => r.intValue 1 0 := .intValue 1 0
  have hasked : askedPoint.Reached 0 false := hplaced.question hlive hquestion
  have hreached : withoutPoint.Reached 0 true := hasked.schema (.remove "Point")
  have hnone : withoutPoint.structOf? pointRef = none := by decide +kernel
  have htold (i : Nat) (value : Int64)
      (hvalue : (show Int64 from (Inquiry.intValue i 0).remainsOf
        (withoutPoint.entryOf? pointRef i)) = value) :
      ∃ ws', (pointRef.intValue i 0).runIn withoutPoint = (.ok value, ws') := by
    subst hvalue
    exact (hreached.answers_of_undefined hnone i).1 _ .refl (.intValue i 0) rfl false
  exact ⟨hreached, hnone, htold 1 2 (by decide +kernel), htold 0 0 (by decide +kernel)⟩

end Workspace

end ByteAtlas
