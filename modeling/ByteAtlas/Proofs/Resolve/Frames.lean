import ByteAtlas.Proofs.Resolve.Children

/-!
# Laying out ends soundly

While a field is laid out its instance is in between: the entry is there, and the cursor has not
moved yet. `Workspace.LaysOut` is what holds then. It is brought about at the start, it lasts
through every step that ends soundly, because no other field is laid out meanwhile, and from it the
workspace is sound again once the field has been passed or its entry taken back.

From this every resolver is reliable, by induction on the number of its frames
(`Resolver.reliable_within`).
-/

namespace ByteAtlas

open Resolve (Ends)

namespace Workspace

/-- **While a field is laid out**: `size` entries are there, the cursor is where it was at `start`,
and nothing but the layout of the instance has changed other than by growing. -/
structure LaysOut (once : Prop) (start ws : Workspace) (r : InstanceRef) (d : StructDef)
    (i size : Nat) : Prop where
  sound : ws.Sound once
  but : GrowsBut r start ws
  live : start.IsLive r
  struct : start.structOf? r = some d
  idle : (start.layoutOf r).measuring = none
  current : (ws.layoutOf r).stamp = some (ws.stampOf r d)
  measuring : (ws.layoutOf r).measuring = some i
  cursor : (ws.layoutOf r).cursor = (start.layoutOf r).cursor
  started : (start.layoutOf r).entries.size = i
  reached : (ws.layoutOf r).entries.size = size
  kept : EntriesGrow (start.structOf? r) (start.layoutOf r).entries (ws.layoutOf r).entries
  sized : ∀ st n, start.stampNow? r = some st → (start.layoutOf r).sizeFor? st = some n →
    (ws.layoutOf r).sizeFor? st = some n

namespace LaysOut

variable {once : Prop} {start ws ws' : Workspace} {r : InstanceRef} {d : StructDef} {i size : Nat}

theorem isLive (h : LaysOut once start ws r d i size) : ws.IsLive r := h.but.isLive h.live

theorem structOf?_eq (h : LaysOut once start ws r d i size) : ws.structOf? r = some d :=
  (h.but.structOf? r).trans h.struct

theorem upToDate (h : LaysOut once start ws r d i size) : ws.Current r := by
  intro d' hd'
  rw [h.structOf?_eq] at hd'
  cases hd'
  exact h.current

theorem fits (h : LaysOut once start ws r d i size) (ho : once) :
    (ws.layoutOf r).Fits d r.offset :=
  h.sound.fits ho r d _ h.isLive h.structOf?_eq h.current rfl

/-- A field starts to be laid out. -/
theorem begin (hs : start.Sound once) (hr : start.IsLive r) (hd : start.structOf? r = some d)
    (hc : (start.layoutOf r).stamp = some (start.stampOf r d))
    (hm : (start.layoutOf r).measuring = none) (hi : (start.layoutOf r).entries.size = i)
    (hlt : i < d.fieldCount) :
    LaysOut once start (start.modifyLayout r (·.setMeasuring (some i))) r d i i := by
  subst hi
  have hset := sets_modifyLayout start r (·.setMeasuring (some (start.layoutOf r).entries.size))
  have hadmits := hs.admits hr
  have hfits (ho : once) := (hs.fits ho r d _ hr hd hc rfl).startMeasuring hm hlt
  have hsound : (start.modifyLayout r
      (·.setMeasuring (some (start.layoutOf r).entries.size))).Sound once := by
    refine hs.set hr hset ⟨?_, fun _ => ⟨d, hd, hc⟩, hadmits.stamps, hadmits.sizes⟩
    intro ho d' _ hd' _ _
    rw [hd] at hd'
    cases hd'
    exact hfits ho
  have hbut := hset.growsBut hr fun hst d' hd' => by
    rw [hd] at hd'
    cases hd'
    exact (hst r d hr hd).of_open (.inl hlt) hc rfl
  refine ⟨hsound, hbut, hr, hd, hm, ?_, ?_, ?_, rfl, ?_, ?_, ?_⟩ <;> rw [hset.layoutOf]
  · exact hc
  · rfl
  · rfl
  · rfl
  · exact .refl _
  · exact fun _ _ _ hn => hn

/-- **Every step that ends soundly leaves it so.** -/
theorem grows (h : LaysOut once start ws r d i size) (hs : ws'.Sound once) (hg : ws.Grows ws') :
    LaysOut once start ws' r d i size := by
  have hr := h.isLive
  have hl := hg.layouts r hr
  have hm : (ws.layoutOf r).measuring ≠ none := by
    rw [h.measuring]
    exact fun e => nomatch e
  obtain ⟨hcursor, hsize⟩ := hl.frozen hm
  have hnow : ws.stampNow? r = some (ws.stampOf r d) := by
    rw [stampNow?, h.structOf?_eq]
    rfl
  obtain ⟨hstamp, hentries⟩ := hl.kept _ hnow h.current
  rw [h.but.structOf?] at hentries
  refine ⟨hs, h.but.trans (hg.but r), h.live, h.struct, h.idle, ?_, ?_, ?_, h.started, ?_, ?_,
    fun st n hst hn => hl.size st n ((h.but.stampNow? h.live).trans hst) (h.sized st n hst hn)⟩
  · rw [hstamp, hg.stampOf hr]
  · rw [hl.measuring, h.measuring]
  · rw [hcursor, h.cursor]
  · rw [hsize, h.reached]
  · exact h.kept.trans hentries

/-- The entry of the field is there as soon as the field is reached. -/
theorem push (h : LaysOut once start ws r d i i) {e : FieldEntry} {f : String × Field}
    (hf : d.field? i = some f) (he : e.origin = (start.layoutOf r).cursor)
    (hoffset : f.2.isComputed = false →
      e.offset = some (if e.present && !d.isPacked then e.origin + f.2.offset else e.origin)) :
    LaysOut once start (ws.modifyLayout r (·.push e)) r d i (i + 1) := by
  have hr := h.isLive
  have hd := h.structOf?_eq
  have hset := sets_modifyLayout ws r (·.push e)
  have hadmits := h.sound.admits hr
  have hfits (ho : once) : ((ws.layoutOf r).push e).Fits d r.offset := by
    refine (h.fits ho).push ?_ ?_ ?_
    · rw [h.measuring, h.reached]
    · rw [he, h.cursor]
    · intro f' hf' hcomp
      rw [h.reached, hf] at hf'
      cases hf'
      exact hoffset hcomp
  have hsound : (ws.modifyLayout r (·.push e)).Sound once := by
    refine h.sound.set hr hset ⟨?_, hadmits.measuring, hadmits.stamps, hadmits.sizes⟩
    intro ho d' _ hd' _ _
    rw [hd] at hd'
    cases hd'
    exact hfits ho
  have hbut := hset.growsBut hr fun hst d' hd' => by
    rw [hd] at hd'
    cases hd'
    refine (hst r d hr hd).of_open (.inr ?_) h.current rfl
    rw [h.measuring]
    exact fun e => nomatch e
  refine ⟨hsound, h.but.trans hbut, h.live, h.struct, h.idle, ?_, ?_, ?_, h.started, ?_, ?_, ?_⟩ <;>
    rw [hset.layoutOf]
  · exact h.current
  · exact h.measuring
  · exact h.cursor
  · show ((ws.layoutOf r).entries.push e).size = _
    rw [Array.size_push, h.reached]
  · exact h.kept.trans (.push _ e)
  · exact h.sized

theorem entryOf?_push (h : LaysOut once start ws r d i i) (e : FieldEntry) :
    (ws.modifyLayout r (·.push e)).entryOf? r i = some e := by
  rw [Workspace.entryOf?, layoutOf_modifyLayout]
  show ((ws.layoutOf r).entries.push e)[i]? = _
  rw [Array.getElem?_push, if_pos h.reached.symm]

/-- **The field is laid out, or it is not**: the workspace is sound and has grown. -/
theorem finish (h : LaysOut once start ws r d i size) {l : Layout} (hset : ws.Sets r l ws')
    (hfits : once → l.Fits d r.offset) (hm : l.measuring = none)
    (hstamp : l.stamp = (ws.layoutOf r).stamp) (hsize : l.size = (ws.layoutOf r).size)
    (hkept : EntriesGrow (start.structOf? r) (start.layoutOf r).entries l.entries) :
    ws'.Sound once ∧ start.Grows ws' := by
  have hr := h.isLive
  have hd := h.structOf?_eq
  have hadmits := h.sound.admits hr
  have hcurrent := hstamp.trans h.current
  refine ⟨h.sound.set hr hset ⟨?_, fun hne => absurd hm hne, ?_, ?_⟩, ?_⟩
  · intro ho d' _ hd' _ _
    rw [hd] at hd'
    cases hd'
    exact hfits ho
  · intro ho st hst
    exact hadmits.stamps ho st (hstamp.symm.trans hst)
  · intro ho st n hn
    exact hadmits.sizes ho st n (hsize.symm.trans hn)
  · have hbut := hset.growsBut hr fun hst d' hd' => by
      rw [hd] at hd'
      cases hd'
      refine (hst r d hr hd).of_open (.inr ?_) hcurrent hsize
      rw [h.measuring]
      exact fun e => nomatch e
    refine (h.but.trans hbut).grows h.live ?_
    rw [hset.layoutOf]
    refine ⟨hm.trans h.idle.symm, fun hne => absurd h.idle hne, fun st hst _ => ⟨?_, hkept⟩,
      fun st n hst hn => ?_⟩
    rotate_left
    · have hn := h.sized st n hst hn
      unfold Layout.sizeFor? at hn ⊢
      rw [hsize]
      exact hn
    have hnow : start.stampNow? r = some (start.stampOf r d) := by
      rw [stampNow?, h.struct]
      rfl
    rw [hcurrent, h.but.stampOf h.live, ← hst, hnow]

end LaysOut

end Workspace

namespace Resolver

/-- The first entry of a field that is not computed has its offset. -/
theorem firstEntry_offset {d : StructDef} {f : Field} {present : Bool} {cursor : Int64}
    (h : f.isComputed = false) :
    (firstEntry d f present cursor).offset =
      some (if (firstEntry d f present cursor).present && !d.isPacked then
        (firstEntry d f present cursor).origin + f.offset
      else (firstEntry d f present cursor).origin) := by
  have hv : f.value.isSome = false := by
    rw [Field.isComputed, Bool.or_eq_false_iff] at h
    exact h.1
  unfold firstEntry
  simp only [hv, h]
  rfl

theorem firstEntry_present (d : StructDef) (f : Field) (present : Bool) (cursor : Int64) :
    (firstEntry d f present cursor).present = present := by
  unfold firstEntry
  dsimp only
  split
  · rfl
  · split <;> rfl

theorem firstEntry_origin (d : StructDef) (f : Field) (present : Bool) (cursor : Int64) :
    (firstEntry d f present cursor).origin = cursor := by
  unfold firstEntry
  dsimp only
  split
  · rfl
  · split <;> rfl

namespace Reliable

variable {once : Prop} {resolver : Resolver} {ws : Workspace} {r : InstanceRef} {d : StructDef}

/-! ## 1. Laying out -/

theorem conditionValue (h : resolver.Reliable once) (hs : ws.Sound once) (hr : ws.IsLive r) (i : Nat)
    (field : Field) : Ends once ws (resolver.conditionValue r i field) ws fun a ws' =>
      ws'.refusals = ws.refusals → a ≠ none := by
  unfold Resolver.conditionValue
  split
  · exact .pure hs (.refl ws) fun _ e => nomatch e
  · refine (ends_unlessCutShort (h.evaluate (.upToField r i) _ hs hr)).mono
      fun a ws' _ _ hcut hquiet => ?_
    rcases hcut with ⟨_, hvalue⟩ | ⟨hrefused, _⟩
    · exact hvalue hquiet
    · exact absurd hquiet hrefused

/-- The field that has just been reached is passed, or its entry is taken back. The latter happens
only if a frame was refused, unless lazily. -/
theorem passField {start : Workspace} (h : resolver.Reliable once) {i : Nat} {f : String × Field}
    {e : FieldEntry} (hl : Workspace.LaysOut once start ws r d i (i + 1)) (hf : d.field? i = some f)
    (he : ws.entryOf? r i = some e) (hp : e.origin = (start.layoutOf r).cursor) (isLazy : Bool) :
    Ends once start
      (do
        let passed ← resolver.passField r d i f.2 e.present isLazy
        modifyLayout r (·.setMeasuring none)
        pure passed)
      ws fun passed ws' => (passed = true → (ws'.layoutOf r).entries.size = i + 1) ∧
        (isLazy = false → passed = false → ws'.refusals ≠ start.refusals) := by
  unfold Resolver.passField
  by_cases hroom : (e.present && d.isPacked && !f.2.isComputed) = true
  · rw [if_pos hroom, bind_assoc]
    refine .call (h.totalSize hl.sound hl.isLive i isLazy) fun total ws₁ hs₁ hg₁ ht => ?_
    have hl₁ := hl.grows hs₁ hg₁
    obtain ⟨e', he', hgrow⟩ := hg₁.entryOf? hl.isLive hl.upToDate hl.structOf?_eq he
    cases total with
    | some total =>
      simp only [bind_assoc, pure_bind]
      have hset := (Workspace.sets_modifyLayout ws₁ r (·.advance total)).modifyLayout
        (·.setMeasuring none)
      obtain ⟨e₁, he₁, htotal⟩ := ht.2.1 d total hl₁.structOf?_eq rfl
      obtain rfl : e₁ = e' := Option.some.inj (he₁.symm.trans he')
      have hnext : e₁.next? d f.2 = some ((ws₁.layoutOf r).cursor + total) := by
        have hroom' : e₁.takesRoom d f.2 = true := (hgrow.takesRoom d f.2).trans hroom
        rw [FieldEntry.next?, if_pos hroom', htotal, hgrow.origin, hp, hl₁.cursor]
        rfl
      have hpass (ho : once) := (hl₁.fits ho).pass hl₁.reached he₁ hf hnext
      obtain ⟨hs₂, hg₂⟩ := hl₁.finish hset hpass rfl rfl rfl hl₁.kept
      refine .change (.change (.pure hs₂ hg₂ ⟨fun _ => ?_, fun _ e => by cases e⟩))
      rw [hset.layoutOf]
      exact hl₁.reached
    | none =>
      simp only [bind_assoc, pure_bind]
      have hset := (Workspace.sets_modifyLayout ws₁ r Layout.pop).modifyLayout
        (·.setMeasuring none)
      have hpop (ho : once) := (hl₁.fits ho).pop hl₁.measuring hl₁.reached
      have hkept := hl₁.kept.pop (by rw [hl₁.started, hl₁.reached]; exact Nat.lt_succ_self i)
      obtain ⟨hs₂, hg₂⟩ := hl₁.finish hset hpop rfl rfl rfl hkept
      refine .change (.change (.pure hs₂ hg₂ ⟨(fun e => by cases e), fun hlazy _ hquiet => ?_⟩))
      have hle := hl.but.refusals
      have hle₁ := hg₁.refusals
      have hquiet : ws₁.refusals = start.refusals := hquiet
      rcases ht.2.2 rfl hlazy (by omega) with hno | hno
      · rw [he'] at hno
        cases hno
      · rw [Workspace.fieldOf?_eq hl₁.structOf?_eq, hf] at hno
        cases hno
  · rw [if_neg hroom, pure_bind]
    have hset := Workspace.sets_modifyLayout ws r (·.setMeasuring none)
    have hnext : e.next? d f.2 = some (ws.layoutOf r).cursor := by
      rw [FieldEntry.next?, FieldEntry.takesRoom, if_neg hroom, hp, hl.cursor]
    have hpass (ho : once) := (hl.fits ho).pass hl.reached he hf hnext
    obtain ⟨hs₁, hg₁⟩ := hl.finish hset hpass rfl rfl rfl hl.kept
    refine .change (.pure hs₁ hg₁ ⟨fun _ => ?_, fun _ e => by cases e⟩)
    rw [hset.layoutOf]
    exact hl.reached

/-- **Laying out one more field.** Without a refused frame there is one more entry, unless lazily or
if there is no further field. -/
theorem layOutField (h : resolver.Reliable once) (hs : ws.Sound once) (hr : ws.IsLive r)
    (hd : ws.structOf? r = some d) (hc : (ws.layoutOf r).stamp = some (ws.stampOf r d))
    (hm : (ws.layoutOf r).measuring = none) (isLazy : Bool) :
    Ends once ws (resolver.layOutField r d isLazy) ws fun more ws' =>
      (more = true → (ws'.layoutOf r).entries.size = (ws.layoutOf r).entries.size + 1) ∧
      (isLazy = false → more = false → ws'.refusals = ws.refusals →
        d.fieldCount ≤ (ws'.layoutOf r).entries.size) := by
  unfold Resolver.layOutField
  refine .ask ?_
  dsimp only
  generalize hi : (ws.layoutOf r).entries.size = i
  cases hf : d.field? i with
  | none =>
    refine .pure hs (.refl ws) ⟨(fun e => nomatch e), fun _ _ _ => ?_⟩
    rw [hi]
    exact List.getElem?_eq_none_iff.mp hf
  | some f =>
    have h₁ := Workspace.LaysOut.begin hs hr hd hc hm hi (Layout.lt_fieldCount hf)
    refine .change (.call (h.conditionValue h₁.sound h₁.isLive i f.2)
      fun condition ws₂ hs₂ hg₂ hcut => ?_)
    have h₂ := h₁.grows hs₂ hg₂
    cases condition with
    | none =>
      have hset := Workspace.sets_modifyLayout ws₂ r (·.setMeasuring none)
      have hstop (ho : once) := (h₂.fits ho).stop (by rw [h₂.measuring, h₂.reached])
      obtain ⟨hs₃, hg₃⟩ := h₂.finish hset hstop rfl rfl rfl h₂.kept
      exact .change (.pure hs₃ hg₃ ⟨(fun e => nomatch e), fun _ _ hquiet => absurd rfl (hcut hquiet)⟩)
    | some condition =>
      have horigin := firstEntry_origin d f.2 (condition ≠ 0) (ws.layoutOf r).cursor
      have h₃ := h₂.push hf horigin firstEntry_offset
      have hpass := h.passField h₃ hf (h₂.entryOf?_push _) horigin isLazy
      rw [firstEntry_present] at hpass
      exact .change (hpass.mono fun more ws' _ _ ⟨hmore, hrefused⟩ =>
        ⟨hmore, fun hl hno hquiet => absurd hquiet (hrefused hl hno)⟩)

theorem layOutFields (h : resolver.Reliable once) (isLazy : Bool) (left : Nat) :
    ∀ {ws : Workspace}, ws.Sound once → ws.IsLive r → ws.structOf? r = some d →
      (ws.layoutOf r).stamp = some (ws.stampOf r d) → (ws.layoutOf r).measuring = none →
      Ends once ws (resolver.layOutFields r d isLazy left) ws fun _ ws' =>
        isLazy = false → ws'.refusals = ws.refusals →
          min ((ws.layoutOf r).entries.size + left) d.fieldCount ≤
            (ws'.layoutOf r).entries.size := by
  induction left with
  | zero => exact fun hs _ _ _ _ => .pure hs (.refl _) fun _ _ => Nat.min_le_left _ _
  | succ left ih =>
    intro ws hs hr hd hc hm
    unfold Resolver.layOutFields
    refine .call (h.layOutField hs hr hd hc hm isLazy) fun more ws₁ hs₁ hg₁ hmore => ?_
    split
    · rename_i hyes
      have hc₁ : ws₁.Current r := hg₁.current hr fun d' hd' => by
        rw [hd] at hd'
        cases hd'
        exact hc
      have hd₁ := (hg₁.structOf? r).trans hd
      have hm₁ := (hg₁.layouts r hr).measuring.trans hm
      refine .finish hg₁ (ih hs₁ (hg₁.isLive hr) hd₁ (hc₁ d hd₁) hm₁)
        fun _ ws₂ _ hg₂ hlaid hl hquiet => ?_
      have hle₁ := hg₁.refusals
      have hle₂ := hg₂.refusals
      have hreached := hlaid hl (by omega)
      have hsize := hmore.1 hyes
      omega
    · rename_i hno
      refine .pure hs₁ hg₁ fun hl hquiet => ?_
      have hle := hmore.2 hl (by simpa using hno) hquiet
      omega

theorem layOutFirst (h : resolver.Reliable once) (hs : ws.Sound once) (hr : ws.IsLive r)
    (hd : ws.structOf? r = some d) (hc : (ws.layoutOf r).stamp = some (ws.stampOf r d))
    (hm : (ws.layoutOf r).measuring = none) (upTo : Nat) (isLazy : Bool) :
    Ends once ws (resolver.layOutFirst r d upTo isLazy) ws fun _ ws' =>
      isLazy = false → ws'.refusals = ws.refusals → ws'.LaidOut r upTo := by
  refine .ask ((h.layOutFields isLazy _ hs hr hd hc hm).mono
    fun _ ws' _ hg' hlaid hl hquiet d' hd' => ?_)
  rw [hg'.structOf?, hd] at hd'
  cases hd'
  have hle := hlaid hl hquiet
  omega

end Reliable

/-! ## 2. Frames -/

/-- **Every resolver is reliable**, by induction on the number of its frames. -/
theorem reliable_within {once : Prop} : (frames : Nat) → (within frames).Reliable once
  | 0 =>
    { layOut := fun _ _ hs _ _ _ _ => (ends_refuseFrame hs).mono fun _ _ _ _ hlt _ hquiet =>
        absurd hquiet (Nat.ne_of_gt hlt)
      evaluate := fun _ _ hs _ => .call (ends_refuseFrame hs) fun _ _ hs₁ hg₁ hlt =>
        .pure hs₁ hg₁ fun hquiet => absurd hquiet (Nat.ne_of_gt hlt) }
  | frames + 1 =>
    { layOut := fun {ws r d} upTo isLazy hs hr hd hc hm =>
        have hlaid (depth : Nat) : Ends once { ws with depth }
            ((within frames).layOutFirst r d upTo isLazy) { ws with depth } fun _ ws' =>
              isLazy = false → ws'.refusals = ws.refusals → ws'.LaidOut r upTo :=
          (reliable_within frames).layOutFirst (hs.setDepth depth) hr hd hc hm upTo isLazy
        .call (ends_inFrame hs hlaid fun _ _ _ hp => hp)
          fun a _ hs₁ hg₁ ⟨hsome, hnone⟩ => .pure hs₁ hg₁ fun hl hquiet => by
            cases a with
            | none => exact absurd hquiet (Nat.ne_of_gt (hnone rfl))
            | some _ => exact hsome _ rfl hl hquiet
      evaluate := fun scope expr hs hr =>
        (ends_inFrame hs
          (fun depth =>
            (reliable_within frames).evaluateIn (hs.setDepth depth) scope hr expr)
          fun _ _ _ hp => hp).mono fun _ _ _ _ ⟨_, hnone⟩ hquiet he =>
            absurd hquiet (Nat.ne_of_gt (hnone he)) }

end Resolver

/-- **A request ends soundly** if it does with every reliable resolver. -/
theorem Resolve.ends_resolving {once : Prop} {α : Type} {request : Resolver → Resolve α}
    {ws : Workspace}
    {post : α → Workspace → Prop}
    (h : ∀ resolver : Resolver, resolver.Reliable once → Ends once ws (request resolver) ws post) :
    Ends once ws (resolving request) ws post :=
  .ask (h _ (Resolver.reliable_within _))

end ByteAtlas
