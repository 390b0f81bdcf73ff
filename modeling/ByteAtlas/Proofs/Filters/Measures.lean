import ByteAtlas.Proofs.Filters.Fields

/-!
# Elements, previews and sizes

The rest of what is asked about a field: its elements, their previews, and the room that it takes
up. All of it is answered as it is settled.
-/

namespace ByteAtlas

/-- No field of a flat definition holds children. -/
theorem Site.SeenIn.holdsChildren {site : Site} {ws : Workspace} (h : site.SeenIn ws)
    (hflat : site.struct.Flat) (i : Nat) : ws.holdsChildren site.ref i = false := by
  rw [Workspace.holdsChildren, h.fieldOf?]
  cases hfield : site.struct.field? i with
  | none => rfl
  | some field =>
    obtain ⟨t, htype⟩ := hflat.scalar hfield
    rw [Option.any_some, htype]
    exact Bool.and_false _

namespace Resolver.Settled

variable {resolver : Resolver} {site : Site} {v : View} (h : resolver.Settled site v)
  {ws : Workspace} {i : Nat} {field : String × Field} (hs : site.SeenIn ws)
  (hfield : site.struct.field? i = some field)
include h hs hfield

/-! ## 1. Elements -/

theorem readValues (wanted : Wanted) :
    site.Answers v (site.Due v i ws) ws (resolver.readValues site.ref i wanted)
      fun a ws' => site.Laid v i ws' ∧ site.IsRead v i field.2 wanted a ws' :=
  h.readValuesWith hs hfield (h.elementCount hfield) wanted

theorem intValue (n : Nat) :
    site.Answers v (site.Due v i ws) ws (resolver.intValue site.ref i n)
      fun a _ => a = v.fields[i]?.elim 0 fun f => f.intValue n :=
  h.intValueWith hs hfield (h.elementCount hfield) n

theorem valuePreview (n : Nat) :
    site.Answers v (site.Due v i ws) ws (resolver.valuePreview site.ref i n)
      fun a _ => a = (v.fields[i]?.bind fun f => f.element n).map fun e => e.value.preview := by
  refine .bind hs (h.readValues hs hfield (.first (n + 1))) fun enough ws₁ hs₁ => ?_
  cases enough with
  | true =>
    refine .ask (.pure fun _ ⟨_, _, _, hread⟩ => ?_)
    rw [(hread.first rfl).2]
  | false =>
    refine .pure fun _ ⟨_, _, _, hread⟩ => ?_
    rw [Option.isSome_eq_false_iff.mp (hread.first rfl).1.symm |> Option.isNone_iff_eq_none.mp]
    rfl

omit hfield in
/-- The value of a name without an index. -/
theorem namedValue (name : String) :
    site.Answers v (∀ i, site.struct.fieldIndex? name = some i → site.Due v i ws) ws
      (resolver.namedValue site.ref site.struct name)
      fun a _ => a = Findings.namedValue v.fields site name := by
  unfold Resolver.namedValue Findings.namedValue
  cases hi : site.struct.fieldIndex? name with
  | none => exact argOrParam hs name
  | some i =>
    obtain ⟨field, hfield⟩ := StructDef.field?_of_fieldIndex? hi
    exact .map ((h.intValue hs hfield 0).mono (fun _ hdue => hdue i rfl)
      fun _ _ _ _ _ _ ha => congrArg some ha)

/-- **Where an element starts.** -/
theorem valueOffset (n : Nat) :
    site.Answers v (site.Due v i ws) ws (resolver.valueOffset site.ref i n false)
      fun a _ => a = v.fields[i]?.bind fun f => f.valueOffset n := by
  unfold Resolver.valueOffset
  refine .bind hs (h.fieldOffset hs hfield) fun offset ws₁ hs₁ => ?_
  have hfound (ha : offset = v.fields[i]?.bind Finding.offset) :
      (v.fields[i]?.bind fun f => f.valueOffset n) = offset.bind fun offset =>
        if n = 0 then some offset
        else (v.fields[i]?.bind fun f => f.element n).map Element.offset := by
    rw [ha]
    cases v.fields[i]? <;> rfl
  cases offset with
  | none => exact .pure fun _ ⟨_, _, _, ha⟩ => (hfound ha).symm
  | some offset =>
    dsimp only
    refine .ite (fun hn => .pure fun _ ⟨_, _, _, ha⟩ => ?_) fun hn => ?_
    · rw [hfound ha, Option.bind_some, if_pos hn]
    · refine .ask ?_
      rw [hs₁.holdsChildren h.flat, if_neg (by decide)]
      refine .bind hs₁ ((h.readValues hs₁ hfield (.first (n + 1))).mono
        (fun _ ⟨_, _, hlaid, _⟩ => hlaid.due) fun _ _ _ _ _ _ => id) fun _ ws₂ _ =>
          .ask (.pure fun _ ⟨⟨_, _, _, _, ha⟩, _, _, hread⟩ => ?_)
      rw [hfound ha, Option.bind_some, if_neg hn, (hread.first rfl).2]

/-! ## 2. Previews -/

omit hs in
theorem takePreviews (separated : Bool) (left : Nat) : ∀ {ws : Workspace}, site.SeenIn ws →
    ∀ (n : Nat) (joined : String),
      site.Answers v (site.Due v i ws) ws
        (resolver.takePreviews site.ref i separated left n joined)
        fun a _ => a = Finding.takePreviews
          (fun n => (v.fields[i]?.bind fun f => f.element n).map fun e => e.value.preview) separated
          left n joined := by
  induction left with
  | zero => exact fun _ _ _ => .pure fun _ _ => rfl
  | succ left ih =>
    intro ws hs n joined
    unfold Resolver.takePreviews Finding.takePreviews
    refine .bind hs (h.valuePreview hs hfield n) fun p ws₁ hs₁ => ?_
    cases p with
    | none =>
      refine .pure fun _ hg => ?_
      rw [← hg.2.2]
    | some p =>
      dsimp only
      refine .ite (fun hlast => .pure fun _ hg => ?_) fun hmore => ?_
      · rw [← hg.2.2]
        exact (if_pos hlast).symm
      · refine .bind hs₁ ((ih hs₁ (n + 1) _).mono (fun _ hg => hg.1.2.onward hg.2.1)
          fun _ _ _ _ _ _ => id) fun rest ws₂ _ => .pure fun _ hg => ?_
        rw [← hg.1.2.2.2, hg.2.2]
        exact (if_neg hmore).symm

/-- **The joined preview of a field.** -/
theorem fieldPreview :
    site.Answers v (site.Due v i ws) ws (resolver.fieldPreview site.ref i false)
      fun a _ => a = v.fields[i]?.elim notLoadedPreview Finding.preview := by
  unfold Resolver.fieldPreview
  refine .bind hs (h.enumerate hs hfield) fun _ ws₁ hs₁ => .ask ?_
  cases he : ws₁.entryOf? site.ref i with
  | none =>
    refine .pure fun _ ⟨_, _, hlaid⟩ => ?_
    rw [Site.Knows.none_of_laid hlaid he]
    rfl
  | some e =>
    have hfound (hk : site.Knows v ws₁) (hlaid : site.Laid v i ws₁) :
        v.fields[i]? = some ((v.upTo i).ofEntry site i field.2 e) :=
      hk.entry hlaid.stamped he hfield
    refine .ite (fun habsent => .pure fun hk ⟨_, _, hlaid⟩ => ?_) fun hthere => ?_
    · rw [hfound hk hlaid, Option.elim_some,
        Findings.ofEntry_preview_of_absent (by simpa using habsent)]
    · rw [Bool.not_eq_true, Bool.not_eq_false'] at hthere
      have hpreview (hk : site.Knows v ws₁) (hlaid : site.Laid v i ws₁) :
          v.fields[i]?.elim notLoadedPreview Finding.preview =
            e.preview.getD (field.2.joinedPreview (v.fields[i]?.bind Finding.offset)
              fun n => v.fields[i]?.bind fun f => f.element n) := by
        rw [hfound hk hlaid]
        exact Findings.ofEntry_preview hthere
      cases hkept : e.preview with
      | some preview =>
        refine .pure fun hk ⟨_, _, hlaid⟩ => ?_
        rw [hpreview hk hlaid, hkept]
        rfl
      | none =>
        rw [hkept] at hpreview
        refine .bind hs₁ ((h.fieldOffset hs₁ hfield).mono (fun _ ⟨_, _, hlaid⟩ => hlaid.due)
          fun _ _ _ _ _ _ => id) fun offset ws₂ hs₂ => .ite (fun hunplaced => ?_) fun hplaced => ?_
        · refine .pure fun _ ⟨⟨hk, _, _, hlaid⟩, _, _, ha⟩ => ?_
          rw [hpreview hk hlaid, ← ha]
          exact (if_pos hunplaced).symm
        · refine .ask ?_
          rw [hs₂.fieldOf?, hfield, Option.bind_some]
          refine .bind hs₂ ((h.takePreviews hfield _ previewLimit hs₂ 0 "").mono
            (fun _ ⟨_, _, hlaid, _⟩ => hlaid.due) fun _ _ _ _ _ _ => id) fun previews ws₃ hs₃ => ?_
          have hsettled (hk : site.Knows v ws₁) (hlaid : site.Laid v i ws₁)
              (ha : offset = v.fields[i]?.bind Finding.offset)
              (hpreviews : previews = Finding.takePreviews (fun n =>
                (v.fields[i]?.bind fun f => f.element n).map fun e => e.value.preview)
                field.2.isSeparated previewLimit 0 "") :
              v.fields[i]?.elim notLoadedPreview Finding.preview =
                joinPreviews field.2.isSeparated previews := by
            rw [hpreview hk hlaid, ← ha, hpreviews]
            exact if_neg hplaced
          refine .bind hs₃ (.modifyEntry
            (fun ⟨⟨_, _, _, hlaid, _⟩, ho, _⟩ => ho.stamped hlaid.stamped)
            fun hk₃ ⟨⟨_, ⟨hk, _, _, hlaid⟩, _, hlaid₂, ha⟩, ho, hpreviews⟩ {e' f'} he' hfield' => ?_)
            fun _ _ _ => .pure fun _ ⟨⟨_, ⟨_, ⟨hk, _, _, hlaid⟩, _, _, ha⟩, _, hpreviews⟩, _⟩ =>
              (hsettled hk hlaid ha hpreviews).symm
          have hjoined := hsettled hk hlaid ha hpreviews
          rw [hk₃.entry (ho.stamped hlaid₂.stamped) he' hfield', Option.elim_some] at hjoined
          exact Findings.ofEntry_setPreview hjoined

/-! ## 3. Sizes -/

/-- The number of elements that take up room. -/
theorem occupiedCount {t : ScalarType} (hvalue : field.2.value = none)
    (htype : field.2.type = .scalar t) {f : Finding} :
    site.Answers v (site.Due v i ws ∧ v.fields[i]? = some f) ws
      (resolver.occupiedCount site.ref i field.2 (Int64.ofNat t.size))
      fun a _ => Int64.ofNat t.size * a = field.2.roomFor f.count f.length := by
  unfold Resolver.occupiedCount Field.roomFor
  rw [hvalue, htype]
  refine .bind hs ((h.elementCount hfield hs).mono (fun _ hg => hg.1) fun _ _ _ _ _ _ => id)
    fun count ws₁ hs₁ => ?_
  have hcount (hf : v.fields[i]? = some f) (ha : count = v.fields[i]?.map Finding.count) :
      count.getD 0 = f.count := by
    rw [ha, hf]
    rfl
  dsimp only
  refine .ite (fun huntil => ?_) fun huntil => ?_
  · rw [if_pos huntil]
    refine .bind hs₁ ((h.readValues hs₁ hfield .throughZero).mono
      (fun _ ⟨_, _, hlaid, _⟩ => hlaid.due) fun _ _ _ _ _ _ => id) fun _ ws₂ _ =>
        .ask (.pure fun _ ⟨⟨_, ⟨_, _, hf⟩, _⟩, _, _, hread⟩ => ?_)
    obtain ⟨e, he, hlength⟩ := hread.all rfl hvalue huntil hf
    rw [he, hlength]
    rfl
  · rw [if_neg huntil]
    refine .ite (fun hbytes => ?_) fun hbytes => ?_
    · refine .pure fun _ ⟨⟨_, _, hf⟩, _, _, ha⟩ => ?_
      rw [if_pos hbytes, hcount hf ha]
    · refine .pure fun _ ⟨⟨_, _, hf⟩, _, _, ha⟩ => ?_
      rw [if_neg hbytes, hcount hf ha]

theorem measureField {t : ScalarType} (htype : field.2.type = .scalar t) {f : Finding} :
    site.Answers v (site.Due v i ws ∧ v.fields[i]? = some f) ws
      (resolver.measureField site.ref i field.2 (some (Int64.ofNat t.size)))
      fun a _ => a = field.2.roomFor f.count f.length := by
  unfold Resolver.measureField
  refine .ite (fun hvalue => .pure fun _ _ => ?_) fun hvalue => ?_
  · obtain ⟨formula, hformula⟩ := Option.isSome_iff_exists.mp hvalue
    rw [Field.roomFor, hformula]
  · exact .bind hs (h.occupiedCount hs hfield (Option.not_isSome_iff_eq_none.mp hvalue) htype)
      fun _ _ _ => .pure fun _ hg => hg.2.2

/-- **The room that a field takes up.** -/
theorem totalSize :
    site.Answers v (site.Due v i ws) ws (resolver.totalSize site.ref i false)
      fun a ws' => site.Laid v i ws' ∧ a = v.fields[i]?.map Finding.total := by
  obtain ⟨t, htype⟩ := h.flat.scalar hfield
  unfold Resolver.totalSize
  refine .bind hs (h.enumerate hs hfield) fun _ ws₁ hs₁ => .ask ?_
  cases he : ws₁.entryOf? site.ref i with
  | none =>
    refine .pure fun _ ⟨_, _, hlaid⟩ => ⟨hlaid, ?_⟩
    rw [Site.Knows.none_of_laid hlaid he]
    rfl
  | some e =>
    have hfound (hk : site.Knows v ws₁) (hlaid : site.Laid v i ws₁) :
        v.fields[i]? = some ((v.upTo i).ofEntry site i field.2 e) :=
      hk.entry hlaid.stamped he hfield
    refine .ite (fun hknown => .pure fun hk ⟨_, _, hlaid⟩ => ⟨hlaid, ?_⟩) fun hunknown => ?_
    · obtain ⟨total, htotal⟩ := Option.isSome_iff_exists.mp hknown
      rw [hfound hk hlaid, Option.map_some]
      show _ = some (e.totalSize.getD _)
      rw [htotal]
      rfl
    · have hnone : e.totalSize = none := Option.not_isSome_iff_eq_none.mp hunknown
      refine .ask ?_
      rw [hs₁.fieldOf?, hfield]
      refine .ask (.ite (fun hlazy => absurd hlazy (by simp)) fun _ => ?_)
      rw [htype]
      have hmeasure : site.Answers v
          ((site.Knows v ws ∧ site.Due v i ws) ∧ site.Onward ws ws₁ ∧ site.Laid v i ws₁) ws₁
          (unlessCutShort (some <$>
            resolver.measureField site.ref i field.2 (ws₁.schema.fixedSize? (.scalar t))))
          fun a _ => a = v.fields[i]?.map Finding.total := by
        refine .unlessCutShort (.map ((h.measureField hs₁ hfield htype).mono
          (fun hk ⟨_, _, hlaid⟩ => ⟨hlaid.due, hfound hk hlaid⟩)
          fun a _ hk ⟨_, _, hlaid⟩ _ _ ha => ?_))
        rw [hfound hk hlaid, Option.map_some, ha]
        show _ = some (e.totalSize.getD _)
        rw [hnone]
        rfl
      refine .bind hs₁ hmeasure fun total ws₂ hs₂ => ?_
      cases total with
      | none => exact .pure fun _ ⟨⟨_, _, _, hlaid⟩, ho, ha⟩ => ⟨hlaid.onward ho, ha⟩
      | some total =>
        refine .bind hs₂ (.modifyEntry (fun ⟨⟨_, _, _, hlaid⟩, ho, _⟩ => ho.stamped hlaid.stamped)
          fun hk₂ ⟨⟨_, _, _, hlaid⟩, ho, ha⟩ {e' f'} he' hfield' => ?_) fun _ _ _ =>
            .pure fun _ ⟨⟨_, ⟨_, _, _, hlaid⟩, ho, ha⟩, ho', _⟩ =>
              ⟨hlaid.onward (ho.trans ho'), ha⟩
        rw [hk₂.entry (ho.stamped hlaid.stamped) he' hfield', Option.map_some] at ha
        exact Findings.ofEntry_setTotal (Option.some.inj ha).symm

end Resolver.Settled

end ByteAtlas
