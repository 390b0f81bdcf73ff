import ByteAtlas.Proofs.Flat.Fields
import ByteAtlas.Resolve.Children

/-!
# Previews and total sizes of flat definitions

What is read of a field, joined to its preview (`Resolver.Faithful.consults_fieldPreview`), and the
room that it takes up (`Resolver.Faithful.consults_totalSize`). A scalar field has elements of a
fixed size, so its room can be told lazily as well. Its offset cannot, and so a lazy question for
the offset or the preview may have no answer; but it leaves what is known as true as it was.
-/

namespace ByteAtlas

/-- No field of a flat definition holds children. -/
theorem Site.ShownIn.holdsChildren {site : Site} {ws : Workspace} (h : site.ShownIn ws)
    (hflat : site.struct.Flat) (i : Nat) : ws.holdsChildren site.ref i = false := by
  rw [Workspace.holdsChildren, h.fieldOf?]
  cases hfield : site.struct.field? i with
  | none => rfl
  | some field =>
    obtain ⟨t, htype⟩ := hflat.scalar hfield
    rw [Option.any_some, htype]
    exact Bool.and_false _

/-- **A field that ends at a zero**, once it has been read to its end. -/
theorem Site.HasRead.throughZero {site : Site} {f : FieldFacts} {e : FieldEntry}
    (h : site.HasRead f .throughZero e) (hvalue : f.field.value = none) {t : ScalarType}
    (htype : f.field.type = .scalar t) (huntil : f.field.untilZero = true) :
    ∃ start count, f.offset = .ok start ∧ f.count = .ok count ∧
      e.values.size = ((f.reading site t count start).first (site.fileSize + 1)).1.size := by
  unfold Site.HasRead at h
  rw [hvalue, htype] at h
  obtain ⟨start, count, k, hstart, hcount, hle, hvalues⟩ := h
  obtain ⟨n, rfl⟩ := Nat.exists_eq_add_of_le hle
  refine ⟨start, count, hstart, hcount, ?_⟩
  rw [hvalues]
  exact congrArg (fun p => p.1.size)
    (Reading.first_add_of_untilZero (g := f.reading site t count start) huntil n)

namespace Resolver.Faithful

section

variable {site : Site} {s : Stage} {ws : Workspace} {i : Nat} {f : FieldFacts}
  {field : String × Field} {resolver : Resolver}

/-! ## 1. Presence and elements -/

/-- **Whether a field is present.** -/
theorem consults_isPresent (i : Nat) (isLazy : Bool) :
    resolver.Consults site i isLazy i (resolver.isPresent site.ref i isLazy)
      (fun f => .equal (pure (some f.present))) none := by
  unfold Resolver.isPresent
  refine ⟨_, rfl, fun {s f field} hfield => ⟨fun {ws} hready =>
    .entry hready (Nat.lt_succ_self i) fun e he => ?_⟩, fun hnone => ?_⟩
  · refine .pure trivial And.right fun ⟨hf, hstage⟩ _ => ?_
    show Except.ok (Option.map FieldEntry.present (some e)) = pure (some f.present)
    rw [Option.map_some, (hstage.agrees i f e hf he).present]
    rfl
  · rw [Resolve.runIn_bind, ByteAtlas.entryOf?, Resolve.runIn_ask, hnone]
    rfl

theorem consults_readValues (h : resolver.Faithful site) (i : Nat) {wanted : Wanted}
    (hwanted : wanted.metBy 0 = false) :
    resolver.Consults site i false i (resolver.readValues site.ref i wanted)
      (site.reads i wanted) false :=
  h.consults_readValuesWith (h.elementCount false) hwanted

theorem readValues (h : resolver.Faithful site) (hfield : site.struct.field? i = some field)
    {wanted : Wanted} (hwanted : wanted.metBy 0 = false) :
    site.Follows (s.facts[i]? = some f) (i + 1) i s (resolver.readValues site.ref i wanted)
      (site.reads i wanted f) :=
  (h.consults_readValues i hwanted).follows hfield fun _ _ _ _ _ _ => trivial

theorem consults_intValue (h : resolver.Faithful site) (i n : Nat) :
    resolver.Consults site i false i (resolver.intValue site.ref i n)
      (fun f => .equal (f.intValue site n)) 0 :=
  h.consults_intValueWith (h.elementCount false) n

theorem intValue (h : resolver.Faithful site) (hfield : site.struct.field? i = some field) (n : Nat) :
    site.Follows (s.facts[i]? = some f) (i + 1) i s (resolver.intValue site.ref i n)
      (.equal (f.intValue site n)) :=
  (h.consults_intValue i n).follows hfield fun _ _ _ _ _ _ => trivial

/-! ## 2. Previews -/

/-- The preview of an element. -/
theorem consults_valuePreview (h : resolver.Faithful site) (i n : Nat) :
    resolver.Consults site i false i (resolver.valuePreview site.ref i n)
      (fun f => .equal ((Option.map fun e => e.value.preview) <$> f.element site n)) none :=
  h.consults_readElement (h.elementCount false) n (Option.map fun e => e.value.preview)

/-- The preview of an element is followed by the ones after it, unless there is none or enough has
been shown. -/
theorem follows_takePreviews (separated : Bool) (n : Nat) (joined : String) {left : Nat}
    (hrest : ∀ (n : Nat) (joined : String), site.Follows (s.facts[i]? = some f) (i + 1) i s
      (resolver.takePreviews site.ref i separated left n joined)
      (.equal (f.takePreviews site separated left n joined))) (p : Option String) :
    site.Follows (s.facts[i]? = some f) (i + 1) i s
      (match p with
        | none => pure []
        | some p =>
          let longer := joined ++ previewSeparator separated (n == 0) ++ p
          if p.isEmpty || previewLimit ≤ longer.utf8ByteSize then pure [p]
          else do
            let rest ← resolver.takePreviews site.ref i separated left (n + 1) longer
            pure (p :: rest))
      (.equal (match p with
        | none => pure []
        | some p =>
          let longer := joined ++ previewSeparator separated (n == 0) ++ p
          if p.isEmpty || previewLimit ≤ longer.utf8ByteSize then pure [p]
          else do
            let rest ← f.takePreviews site separated left (n + 1) longer
            pure (p :: rest))) := by
  cases p with
  | none => exact .pure _
  | some p =>
    dsimp only
    split
    · exact .pure _
    · exact (hrest _ _).bind fun _ => .pure _

theorem takePreviews (h : resolver.Faithful site) (hfield : site.struct.field? i = some field)
    (separated : Bool) (left : Nat) :
    ∀ (n : Nat) (joined : String), site.Follows (s.facts[i]? = some f) (i + 1) i s
      (resolver.takePreviews site.ref i separated left n joined)
      (.equal (f.takePreviews site separated left n joined)) := by
  induction left with
  | zero => exact fun _ _ => .pure _
  | succ left ih =>
    intro n joined
    unfold Resolver.takePreviews FieldFacts.takePreviews
    have hpreview := (h.consults_valuePreview i n).follows (s := s) (f := f) hfield
      fun _ _ _ _ _ _ => trivial
    refine (hpreview.bind (follows_takePreviews separated n joined ih)).of_eq fun _ => ?_
    exact bind_map_left _ _ _

/-- **The preview is joined and kept**, once the offset is known. Where a frame was refused this
begins what may be wrong. -/
theorem joinPreview (h : resolver.Faithful site) (hready : site.Ready (i + 1) ws)
    (hfield : site.struct.field? i = some field) {e : FieldEntry}
    (he : ws.entryOf? site.ref i = some e) (hnone : e.preview = none) {known good : Prop}
    (hk : known → s.facts[i]? = some f ∧ site.AtStage s ws ∧ f.present = true)
    (hg : good → ∃ n, f.offset = .ok n) {q : Promise String}
    (htold : ∀ a ws', q.told ws a ws')
    (haffirms : ∀ result ws', result = f.preview site → q.affirms result ws') :
    site.Yields (i + 1) (i + 1) s known good ws
      (do
        let field ← ByteAtlas.fieldOf? site.ref i
        let type := field.bind fun f => f.2.type.scalar?
        let separated := type.elim true ScalarType.isSeparated
        let previews ← resolver.takePreviews site.ref i separated previewLimit 0 ""
        let preview := joinPreviews separated previews
        modifyEntry site.ref i fun e => { e with preview := some preview }
        pure preview) q := by
  refine .definition hready hfield ?_
  dsimp only
  rw [Option.bind_some]
  generalize hseparated : field.2.type.scalar?.elim true ScalarType.isSeparated = separated
  have hpreview (hknown : known) (hgood : good) : f.preview site =
      joinPreviews separated <$> f.takePreviews site separated previewLimit 0 "" := by
    obtain ⟨hf, hstage, hpresent⟩ := hk hknown
    obtain ⟨n, hn⟩ := hg hgood
    have hsame : f.isSeparated = separated := by
      rw [FieldFacts.isSeparated, hstage.field_eq hf hfield, hseparated]
    rw [FieldFacts.preview, if_pos hpresent, FieldFacts.joined, hn, hsame, map_eq_pure_bind]
    rfl
  refine .follow ((h.takePreviews hfield separated previewLimit 0 "").keepingPreview
    (Nat.le_succ i)) hready (fun hknown => ⟨(hk hknown).1, (hk hknown).2.1⟩)
    (fun previews ws₁ hready₁ hkept => ?_)
    fun fault ws₁ hknown hgood href => ?_
  · obtain ⟨e₁, he₁, hsame⟩ := hkept e he
    have htrue (hknown : known) (hgood : good)
        (href : .ok previews = f.takePreviews site separated previewLimit 0 "") :
        f.preview site = .ok (joinPreviews separated previews) := by
      rw [hpreview hknown hgood, ← href]
      rfl
    refine .modifyEntry (Nat.lt_succ_self i) (fun e => ⟨⟨id, fun _ => rfl⟩, ?_⟩)
      (fun hknown hgood => ?_) (.pure (htold _ _) And.right fun hknown hgood => ?_)
    · exact fun hle => absurd hle (Nat.not_succ_le_self i)
    · rcases hgood with ⟨hgood, href⟩ | hspares
      · refine hknown.2.modifyEntry fun f' e' hf' _ hagrees => ?_
        rw [(hk hknown.1).1] at hf'
        cases hf'
        exact hagrees.setPreview (htrue hknown.1 hgood href)
      · have hbegun := (hready₁.spares_modifyEntry he₁ hfield hspares
          fun _ => ⟨id, fun _ => rfl⟩).2 rfl
        rw [hsame, hnone] at hbegun
        cases hbegun
    · exact haffirms _ _ (htrue hknown.1.1 hgood.1 hgood.2).symm
  · refine haffirms _ _ ?_
    have href : .error fault = f.takePreviews site separated previewLimit 0 "" := href
    rw [hpreview hknown hgood, ← href]
    rfl

/-- **The joined preview of a field.** -/
theorem consults_fieldPreview (h : resolver.Faithful site) (i : Nat) (isLazy : Bool) :
    resolver.Consults site i isLazy (i + 1) (resolver.fieldPreview site.ref i isLazy)
      (fun f => ⟨fun _ _ _ => True, fun result _ => isLazy = false → result = f.preview site⟩)
      notLoadedPreview := by
  unfold Resolver.fieldPreview
  refine ⟨_, rfl, fun {s f field} hfield => ⟨fun {ws} hready =>
    .entry hready (Nat.lt_succ_self i) fun e he => ?_⟩, fun hnone => ?_⟩
  · dsimp only
    cases hpresent : e.present with
    | false =>
      refine .pure trivial And.right fun ⟨hf, hstage⟩ _ _ => ?_
      rw [FieldFacts.preview, ← (hstage.agrees i f e hf he).present, hpresent]
      rfl
    | true =>
      rw [if_neg (by decide)]
      cases hpreview : e.preview with
      | some p =>
        refine .pure trivial And.right fun ⟨hf, hstage⟩ _ _ => ?_
        rw [(hstage.agrees i f e hf he).preview p hpreview]
      | none =>
        refine .follow ((h.fieldOffset hfield isLazy).widen (Nat.le_refl _) (Nat.le_succ i)) hready
          id (fun offset ws₁ hready₁ htold => ?_) fun fault ws₁ ⟨hf, hstage⟩ _ href heager => ?_
        · cases offset with
          | none =>
            refine .pure trivial And.right fun _ haffirms heager => ?_
            obtain ⟨_, _, hsome⟩ := Site.of_map_some_eq (Eq.symm (haffirms.2.1 heager))
            cases hsome
          | some n =>
            refine h.joinPreview hready₁ hfield (htold e he) hpreview (fun hk => ⟨hk.1.1, hk.2, ?_⟩)
              (fun hgood => ⟨n, hgood.2.2 n rfl⟩) (fun _ _ => trivial) fun _ _ href _ => href
            rw [← (hk.1.2.agrees i f e hk.1.1 he).present, hpresent]
        · rw [FieldFacts.preview, ← (hstage.agrees i f e hf he).present, hpresent,
            FieldFacts.joined, Site.of_map_some_eq_error (Eq.symm (href.1 heager))]
          rfl
  · rw [Resolve.runIn_bind, ByteAtlas.entryOf?, Resolve.runIn_ask, hnone]
    rfl

theorem fieldPreview (h : resolver.Faithful site) (hfield : site.struct.field? i = some field) :
    site.Follows (s.facts[i]? = some f) (i + 1) (i + 1) s (resolver.fieldPreview site.ref i false)
      (.equal (f.preview site)) :=
  ⟨fun hready => (((h.consults_fieldPreview i false).follows hfield
    fun _ _ _ _ _ _ => trivial).yields hready).mono id (fun _ => id) (fun _ _ => id)
    fun _ _ _ _ hp => hp rfl⟩

/-! ## 3. Total sizes -/

/-- The number of elements that take up room. -/
theorem occupiedCount (h : resolver.Faithful site) (hfield : site.struct.field? i = some field)
    (hvalue : field.2.value = none) {t : ScalarType} (htype : field.2.type = .scalar t) :
    site.Follows (s.facts[i]? = some f) (i + 1) i s
      (resolver.occupiedCount site.ref i field.2 (Int64.ofNat t.size))
      (.equal (f.occupied site t)) := by
  refine ⟨fun {ws} hready => ?_⟩
  have hfound {ws : Workspace} (hf : s.facts[i]? = some f) (hstage : site.AtStage s ws) :
      f.field = field.2 ∧ f.field.value = none ∧ f.field.type = .scalar t := by
    rw [hstage.field_eq hf hfield]
    exact ⟨rfl, hvalue, htype⟩
  have hoccupied {count : Option Int64} (hsame : f.field = field.2)
      (hcount : .ok count = some <$> f.count) :
      f.occupied site t =
        if field.2.untilZero then do
          let start ← f.offset
          pure (Int64.ofNat
            ((f.reading site t (count.getD 0) start).first (site.fileSize + 1)).1.size)
        else if field.2.countIsBytes then pure (count.getD 0 / Int64.ofNat t.size)
        else pure (count.getD 0) := by
    obtain ⟨n, hn, rfl⟩ := Site.of_map_some_eq hcount.symm
    rw [FieldFacts.occupied, hn, hsame]
    rfl
  unfold Resolver.occupiedCount
  refine .follow (h.elementCount false hfield) hready id (fun count ws₁ hready₁ _ => ?_)
    fun fault ws₁ _ _ href => ?_
  · dsimp only
    by_cases huntil : field.2.untilZero
    · rw [if_pos huntil]
      refine .follow (h.readValues hfield (show Wanted.metBy .throughZero 0 = false from rfl)) hready₁
        (fun hk => ⟨hk.1.1, hk.2⟩) (fun _ ws₂ _ _ => .ask (.pure trivial And.right ?_)) ?_
      · intro ⟨⟨⟨hf, hstage⟩, _⟩, _⟩ ⟨⟨_, hcount⟩, e, he, _, hread⟩
        obtain ⟨hsame, hvalue', htype'⟩ := hfound hf hstage
        obtain ⟨start, c, hstart, hc, hsize⟩ :=
          hread.throughZero hvalue' htype' (hsame ▸ huntil)
        have hcount : .ok count = some <$> f.count := hcount
        show Except.ok ((ws₂.entryOf? site.ref i).elim 0 fun e => Int64.ofNat e.values.size) =
          f.occupied site t
        rw [hoccupied hsame hcount, if_pos huntil, hstart, he]
        rw [hc] at hcount
        cases hcount
        rw [Option.elim_some, hsize]
        rfl
      · intro fault _ ⟨⟨hf, hstage⟩, _⟩ ⟨_, hcount⟩ hfault
        obtain ⟨hsame, hvalue', htype'⟩ := hfound hf hstage
        have hcount : .ok count = some <$> f.count := hcount
        have hoffset : f.offset = .error fault := by
          obtain ⟨n, hn, _⟩ := Site.of_map_some_eq hcount.symm
          have hfault : f.FaultsWith fault := hfault
          unfold FieldFacts.FaultsWith at hfault
          rw [hvalue', htype'] at hfault
          rcases hfault with hoffset | ⟨_, hcount'⟩
          · exact hoffset
          · rw [hn] at hcount'
            cases hcount'
        show Except.error fault = f.occupied site t
        rw [hoccupied hsame hcount, if_pos huntil, hoffset]
        rfl
    · rw [if_neg huntil, if_pos t.ofNat_size_pos]
      split
      · rename_i hbytes
        refine .pure trivial And.right fun hk haffirms => ?_
        show Except.ok (count.getD 0 / Int64.ofNat t.size) = f.occupied site t
        rw [hoccupied (hfound hk.1.1 hk.1.2).1 haffirms.2, if_neg huntil, if_pos hbytes]
        rfl
      · rename_i hbytes
        refine .pure trivial And.right fun hk haffirms => ?_
        show Except.ok (count.getD 0) = f.occupied site t
        rw [hoccupied (hfound hk.1.1 hk.1.2).1 haffirms.2, if_neg huntil, if_neg hbytes]
        rfl
  · show Except.error fault = f.occupied site t
    rw [FieldFacts.occupied, Site.of_map_some_eq_error (Eq.symm href)]
    rfl

/-- The room that a field takes up. -/
theorem measureField (h : resolver.Faithful site) (hfield : site.struct.field? i = some field)
    {t : ScalarType} (htype : field.2.type = .scalar t) :
    site.Follows (s.facts[i]? = some f ∧ f.field = field.2) (i + 1) i s
      (resolver.measureField site.ref i field.2 (some (Int64.ofNat t.size)))
      (.equal (f.total site)) := by
  unfold Resolver.measureField
  cases hvalue : field.2.value with
  | some _ =>
    refine (Site.Follows.pure 0).of_eq fun ⟨_, hsame⟩ => ?_
    rw [FieldFacts.total, hsame, hvalue]
  | none =>
    refine (((h.occupiedCount hfield hvalue htype).bind fun n =>
      .pure (Int64.ofNat t.size * n)).mono And.left).of_eq fun ⟨_, hsame⟩ => ?_
    rw [FieldFacts.total, hsame, hvalue, htype]

/-- **The room that a field takes up**, lazily or not. An answer is always the one that is kept. -/
theorem consults_totalSize (h : resolver.Faithful site) (i : Nat) (isLazy : Bool) :
    resolver.Consults site i isLazy i (resolver.totalSize site.ref i isLazy)
      (fun f => ⟨fun _ a ws' => ∀ n, a = some n →
          ∃ e', ws'.entryOf? site.ref i = some e' ∧ e'.totalSize = some n,
        fun result _ => result = some <$> f.total site⟩) none := by
  unfold Resolver.totalSize
  refine ⟨_, rfl, fun {s f field} hfield => ⟨fun {ws} hready =>
    .entry hready (Nat.lt_succ_self i) fun e he => ?_⟩, fun hnone => ?_⟩
  · dsimp only
    split
    · rename_i hsome
      refine .pure (fun n hn => ⟨e, he, hn⟩) And.right fun ⟨hf, hstage⟩ _ => ?_
      obtain ⟨n, hn⟩ := Option.isSome_iff_exists.mp hsome
      show Except.ok e.totalSize = some <$> f.total site
      rw [hn, (hstage.agrees i f e hf he).total n hn]
      rfl
    · refine .definition hready hfield (.ask ?_)
      obtain ⟨t, htype⟩ := h.flat.scalar hfield
      have hfixed : ws.schema.fixedSize? field.2.type = some (Int64.ofNat t.size) := by
        rw [htype, Schema.fixedSize?]
      have hknown : ¬ (isLazy && field.2.value.isNone &&
          (ws.schema.fixedSize? field.2.type).isNone) = true := by
        rw [hfixed, Option.isNone_some, Bool.and_false]
        exact Bool.false_ne_true
      rw [if_neg hknown, hfixed]
      refine .guarded ((((h.measureField hfield htype).map some).yields hready).weaken
        (fun hk => ⟨⟨hk.1, hk.2.field_eq hk.1 hfield⟩, hk.2⟩) fun _ => id)
        (fun total ws₁ hsteady _ => ?_) fun fault ws₁ hk _ href => href
      cases total with
      | none =>
        refine .pure (fun n hn => nomatch hn) (fun hk => hk.2.1) fun hk haffirms => ?_
        obtain ⟨_, _, hsome⟩ := Site.of_map_some_eq (Eq.symm haffirms.2)
        cases hsome
      | some total =>
        obtain ⟨e₁, he₁⟩ := (hready.steady hsteady).entryOf? (Nat.lt_succ_self i)
        refine .modifyEntry (Nat.lt_succ_self i) (fun e => ⟨⟨id, id⟩, fun _ => rfl⟩)
          (fun hk _ => ?_) (.pure (fun n hn => ?_) And.right fun hk haffirms => haffirms.2)
        · obtain ⟨⟨hf, _⟩, hstage, hvalue⟩ := hk
          refine hstage.modifyEntry fun f' e' hf' _ hagrees => ?_
          rw [hf] at hf'
          cases hf'
          obtain ⟨_, htotal, hsome⟩ := Site.of_map_some_eq (Eq.symm (hvalue total rfl))
          cases hsome
          exact hagrees.setTotal htotal
        · rw [Workspace.entryOf?_modifyEntry, he₁]
          exact ⟨_, rfl, hn⟩
  · rw [Resolve.runIn_bind, ByteAtlas.entryOf?, Resolve.runIn_ask, hnone]
    rfl

theorem totalSize (h : resolver.Faithful site) (hfield : site.struct.field? i = some field)
    (isLazy : Bool) :
    site.Follows (s.facts[i]? = some f) (i + 1) i s (resolver.totalSize site.ref i isLazy)
      ⟨fun _ a ws' => ∀ n, a = some n →
          ∃ e', ws'.entryOf? site.ref i = some e' ∧ e'.totalSize = some n,
        fun result _ => result = some <$> f.total site⟩ :=
  (h.consults_totalSize i isLazy).follows hfield fun _ _ _ _ _ => id

/-! ## 4. Offsets of elements -/

/-- **The offset of an element.** A lazy answer is about the elements that have been read. -/
theorem consults_valueOffset (h : resolver.Faithful site) (i n : Nat) (isLazy : Bool) :
    resolver.Consults site i isLazy i (resolver.valueOffset site.ref i n isLazy)
      (fun f => ⟨fun _ _ _ => True,
        fun result _ => isLazy = false → result = f.valueOffset site n⟩) none := by
  unfold Resolver.valueOffset
  refine (h.consults_fieldOffset i isLazy).bind
    (fun {s ws f field} hfield offset ws₁ hready _ => ?_) (fun f fault _ href heager => ?_)
    fun ws _ => rfl
  · have hvalueOffset {offset : Option Int64} (hoffset : .ok offset = some <$> f.offset) :
        f.valueOffset site n =
          if n = 0 then pure offset else Option.map Element.offset <$> f.element site n := by
      obtain ⟨m, hm, rfl⟩ := Site.of_map_some_eq hoffset.symm
      rw [FieldFacts.valueOffset, hm, map_eq_pure_bind]
      rfl
    cases offset with
    | none =>
      refine .pure trivial And.right fun _ haffirms heager => ?_
      obtain ⟨_, _, hsome⟩ := Site.of_map_some_eq (Eq.symm (haffirms.2.1 heager))
      cases hsome
    | some offset =>
      dsimp only
      by_cases hn : n = 0
      · rw [if_pos hn]
        refine .pure trivial And.right fun _ haffirms heager => ?_
        rw [hvalueOffset (haffirms.2.1 heager), if_pos hn]
        rfl
      · rw [if_neg hn]
        refine .ask ?_
        rw [hready.shown.holdsChildren h.flat, Bool.and_false, if_neg Bool.false_ne_true]
        cases isLazy with
        | true =>
          rw [Bool.not_true, if_neg Bool.false_ne_true]
          exact .ask (.pure trivial And.right fun _ _ heager => nomatch heager)
        | false =>
          rw [Bool.not_false, if_pos rfl]
          refine .follow (h.readValues hfield (show Wanted.metBy (.first (n + 1)) 0 = false from rfl))
            hready (fun hk => ⟨hk.1.1, hk.2⟩) (fun _ ws₂ _ _ => .ask (.pure trivial And.right ?_)) ?_
          · intro ⟨⟨⟨hf, hstage⟩, _⟩, _⟩ ⟨⟨_, href, _⟩, e, he, _, hread⟩ _
            have helement := hread.element
              (by rw [hstage.field_eq hf hfield]; exact h.flat.scalar hfield)
            rw [hvalueOffset (href rfl), if_neg hn, helement, he]
            rfl
          · intro fault _ _ ⟨_, href, _⟩ hfault _
            have hfault : f.FaultsWith fault := hfault
            rw [hvalueOffset (href rfl), if_neg hn, hfault.element]
            rfl
  · rw [FieldFacts.valueOffset, Site.of_map_some_eq_error (Eq.symm (href.1 heager))]
    rfl

theorem valueOffset (h : resolver.Faithful site) (hfield : site.struct.field? i = some field)
    (n : Nat) :
    site.Follows (s.facts[i]? = some f) (i + 1) i s (resolver.valueOffset site.ref i n false)
      (.equal (f.valueOffset site n)) :=
  ⟨fun hready => (((h.consults_valueOffset i n false).follows hfield
    fun _ _ _ _ _ _ => trivial).yields hready).mono id (fun _ => id) (fun _ _ => id)
    fun _ _ _ _ hp => hp rfl⟩

end

end Resolver.Faithful

end ByteAtlas
