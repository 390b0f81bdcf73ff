import ByteAtlas.Proofs.Lazy.Steps

/-!
# Fields of a self-contained definition

Every question about a field starts with laying out the fields up to it. Asked lazily, or where
these can be laid out without measuring, it keeps to the instance: what it reads and computes on the
way are elements and expressions of fields that are laid out then.
-/

namespace ByteAtlas

namespace Resolver.KeepsTo

variable {resolver : Resolver} {r : InstanceRef} {ws : Workspace}

/-- An expression that places a field or gives its value keeps to the instance, once the field is
laid out. -/
theorem placing {i : Nat} {f : String × Field} {formula : Formula} (hc : ws.Contained r)
    (hf : ws.fieldOf? r i = some f) (ho : ws.Opens r (i + 1))
    (hformula : formula ∈ f.2.placingFormulas) : formula.expr.KeepsTo r ws := by
  obtain ⟨d, hd, hfield⟩ := Workspace.structOf?_of_fieldOf? hf
  obtain ⟨hsimple, hbackward⟩ := (hc d hd).at hfield
  obtain ⟨hquery, hchild⟩ := hsimple formula (List.mem_append_left _ hformula)
  refine ⟨hquery, fun d' hd' => ?_⟩
  cases hd.symm.trans hd'
  refine ⟨hchild, fun name hname j hj => ?_⟩
  cases hpacked : d.isPacked with
  | false =>
    intro d' hd'
    cases hd.symm.trans hd'
    exact .inl hpacked
  | true =>
    have hall := hbackward hpacked formula hformula name hname
    rw [hj] at hall
    have hlt : j < i := of_decide_eq_true hall
    exact ho.mono (by omega)

variable (h : resolver.KeepsTo r)
include h

/-! ## 1. Laying out -/

/-- **Having the first fields laid out**, lazily or without measuring. The layout is up to date
then. -/
theorem enumerate (hc : ws.Contained r) {upTo : Nat} {isLazy : Bool}
    (ho : isLazy = true ∨ ws.Opens r upTo) :
    Resolve.KeepsTo r ws (resolver.enumerate r upTo isLazy) fun _ ws' => ws'.Current r := by
  unfold Resolver.enumerate
  refine .ask ?_
  cases hd : ws.structOf? r with
  | none => exact .pure fun d hd' => nomatch hd.symm.trans hd'
  | some d =>
    dsimp only
    refine (Resolve.KeepsTo.validateLayout hd).bind fun _ ws₁ hs hvalid => .ask ?_
    obtain ⟨hcurrent, hsame⟩ := hvalid
    refine .ite (fun _ => .pure hcurrent) fun hmore => ?_
    rw [Bool.or_eq_true, not_or, decide_eq_true_iff, Bool.not_eq_true] at hmore
    have hidle : (ws₁.layoutOf r).measuring = none := Option.isSome_eq_false_iff.mp hmore.2 |>
      Option.isNone_iff_eq_none.mp
    have hplain : isLazy = true ∨ d.isPacked = false := by
      refine ho.imp_right fun hopens => (hopens d hd).resolve_right fun hlaid => ?_
      rw [← hsame hlaid.1] at hlaid
      rcases hlaid.2 with hle | hm
      · exact hmore.1 (Nat.le_trans (Nat.min_le_left _ _) hle)
      · rw [hidle] at hm
        exact nomatch hm
    have hlaid : ws₁.Laid r none 0 := ⟨hcurrent, hidle, Nat.zero_le _⟩
    exact (h.layOut ((hs.structOf? r).trans hd) (hc d hd) hlaid hplain).mono fun _ _ hs' _ =>
      hs'.current hcurrent

theorem isPresent (hc : ws.Contained r) (i : Nat) {isLazy : Bool}
    (ho : isLazy = true ∨ ws.Opens r (i + 1)) :
    Resolve.KeepsTo r ws (resolver.isPresent r i isLazy) fun _ _ => True :=
  (h.enumerate hc ho).bind fun _ _ _ _ => .ask .done

/-! ## 2. Offsets -/

/-- **Where a field starts.** Once it is laid out, what places it can be evaluated. -/
theorem fieldOffset (hc : ws.Contained r) (i : Nat) {isLazy : Bool}
    (ho : isLazy = true ∨ ws.Opens r (i + 1)) :
    Resolve.KeepsTo r ws (resolver.fieldOffset r i isLazy) fun _ _ => True := by
  unfold Resolver.fieldOffset
  refine (h.enumerate hc ho).bind fun _ ws₁ hs₁ hcurrent => .ask ?_
  cases he : ws₁.entryOf? r i with
  | none => exact .done
  | some entry =>
    refine .ite (fun _ => .done) fun _ => .ask ?_
    cases hf : ws₁.fieldOf? r i with
    | none => exact .done
    | some f =>
      rw [Option.bind_some]
      cases hformula : f.2.offsetFormula with
      | none => exact .done
      | some formula =>
        have hkeeps : formula.expr.KeepsTo r ws₁ :=
          placing (hs₁.contained hc) hf (hcurrent.opens he)
            (by simp [Field.placingFormulas, hformula])
        refine (Resolve.KeepsTo.unlessCutShort (h.evaluate rfl (hs₁.contained hc) hkeeps)).bind
          fun offset _ _ _ => ?_
        cases offset with
        | none => exact .done
        | some offset => exact (Resolve.KeepsTo.modifyEntry i _).bind fun _ _ _ _ => .done

/-! ## 3. Elements -/

/-- The element that an expression gives. -/
theorem readFormula (hc : ws.Contained r) {i : Nat} {f : String × Field}
    (hf : ws.fieldOf? r i = some f) (ho : ws.Opens r (i + 1)) (entry : FieldEntry) {formula : Formula}
    (hformula : f.2.value = some formula) (wanted : Wanted) :
    Resolve.KeepsTo r ws (resolver.readFormula r i entry formula wanted) fun _ _ => True := by
  have hkeeps : formula.expr.KeepsTo r ws :=
    placing hc hf ho (by simp [Field.placingFormulas, hformula])
  unfold Resolver.readFormula
  refine (Resolve.KeepsTo.unlessCutShort (h.evaluate rfl hc hkeeps)).bind fun value _ _ _ => ?_
  cases value with
  | none => exact .done
  | some value => exact (Resolve.KeepsTo.modifyEntry i _).bind fun _ _ _ _ => .done

section

variable {i : Nat} {count : Resolve (Option Int64)}
  (hcount : ∀ {ws : Workspace}, ws.Contained r → ws.Opens r (i + 1) →
    Resolve.KeepsTo r ws count fun _ _ => True)
include hcount

theorem readScalars (hc : ws.Contained r) (ho : ws.Opens r (i + 1)) (field : Field)
    (type : ScalarType) (wanted : Wanted) :
    Resolve.KeepsTo r ws (resolver.readScalars count r i field type wanted) fun _ _ => True := by
  unfold Resolver.readScalars
  refine (h.fieldOffset hc i (.inr ho)).bind fun offset ws₁ hs₁ _ => ?_
  refine (hcount (hs₁.contained hc) (hs₁.opens ho)).bind fun count ws₂ _ _ => ?_
  refine .get ?_
  cases ws₂.entryOf? r i with
  | none => exact .done
  | some entry => exact (Resolve.KeepsTo.modifyEntry i _).bind fun _ _ _ _ => .done

theorem readValuesWith (hc : ws.Contained r) (ho : ws.Opens r (i + 1)) (wanted : Wanted) :
    Resolve.KeepsTo r ws (resolver.readValuesWith count r i wanted) fun _ _ => True := by
  unfold Resolver.readValuesWith
  refine (h.enumerate hc (.inr ho)).bind fun _ ws₁ hs₁ _ => .ask ?_
  cases ws₁.entryOf? r i with
  | none => exact .done
  | some entry =>
    refine .ite (fun _ => .done) fun _ => .ask ?_
    cases hf : ws₁.fieldOf? r i with
    | none => exact .done
    | some f =>
      dsimp only
      have hc₁ := hs₁.contained hc
      have ho₁ := hs₁.opens ho
      cases hvalue : f.2.value with
      | some formula => exact h.readFormula hc₁ hf ho₁ entry hvalue wanted
      | none =>
        cases f.2.type with
        | scalar type => exact h.readScalars hcount hc₁ ho₁ f.2 type wanted
        | struct _ => exact .done

theorem intValueWith (hc : ws.Contained r) (ho : ws.Opens r (i + 1)) (n : Nat) :
    Resolve.KeepsTo r ws (resolver.intValueWith count r i n) fun _ _ => True :=
  (h.readValuesWith hcount hc ho _).bind fun _ _ _ _ =>
    .ite (fun _ => .ask .done) fun _ => .done

end

/-! ## 4. Counts -/

omit h in
/-- A count is bounded and noted. -/
theorem keepCount (i : Nat) (count : Option Int64) :
    Resolve.KeepsTo r ws
      (match count with
        | none => pure none
        | some count => do
          let count ← limitCount count
          modifyEntry r i fun e => { e with count := some count }
          pure (some count)) fun _ _ => True := by
  cases count with
  | none => exact .done
  | some count =>
    have hlast {ws : Workspace} (limit : Int64) : Resolve.KeepsTo r ws
        (if limit < 0 then throw .negativeElementLimit
          else pure (if count < 0 then 0 else if limit < count then limit else count) :
            Resolve Int64) fun _ _ => True :=
      .ite (fun _ => .throw _) fun _ => .done
    have hlimit : Resolve.KeepsTo r ws (limitCount count) fun _ _ => True :=
      .ask (.ite (fun _ => Resolve.KeepsTo.noteLimitHit.bind fun _ _ _ _ => hlast _)
        fun _ => hlast _)
    exact hlimit.bind fun _ _ _ _ => (Resolve.KeepsTo.modifyEntry i _).bind fun _ _ _ _ => .done

/-- **Counting** goes down in the index of the field. -/
theorem elementCount (i : Nat) {isLazy : Bool} {ws : Workspace} (hc : ws.Contained r)
    (ho : isLazy = true ∨ ws.Opens r (i + 1)) :
    Resolve.KeepsTo r ws (resolver.elementCount r i isLazy) fun _ _ => True := by
  induction i using Nat.strongRecOn generalizing isLazy ws with
  | _ i ih =>
    have hkeep {ws : Workspace} (count : Option Int64) : Resolve.KeepsTo r ws _ _ :=
      keepCount i count
    unfold Resolver.elementCount
    refine (h.enumerate hc ho).bind fun _ ws₁ hs₁ hcurrent => .ask ?_
    cases he : ws₁.entryOf? r i with
    | none => exact .done
    | some entry =>
    refine .ite (fun _ => .done) fun _ => .ite (fun _ =>
      (Resolve.KeepsTo.done (a := some 0)).bind fun _ _ _ _ => hkeep _) fun _ => ?_
    refine .bind (.unlessCutShort (.ask ?_)) fun _ _ _ _ => hkeep _
    dsimp only
    cases ((ws₁.structOf? r).getD .empty).field? i with
    | none => exact .done
    | some field =>
      refine .ite (fun _ => .done) fun _ => ?_
      cases field.2.countSource with
      | literal => exact .done
      | fileSize => exact .ask .done
      | named source =>
        dsimp only
        cases ((ws₁.structOf? r).getD .empty).fieldIndex? source with
        | none => exact .ask .done
        | some j =>
          by_cases hj : j < i
          · simp only [hj, dite_true]
            have hopens : ws₁.Opens r (j + 1) := (hcurrent.opens he).mono (by omega)
            have hbase : Resolve.KeepsTo r ws₁ (some <$> resolver.intValueWith
                (resolver.elementCount r j false) r j 0) fun _ _ => True :=
              .map (h.intValueWith (fun hc ho => ih j hj hc (.inr ho)) (hs₁.contained hc) hopens 0)
            exact hbase.bind fun _ _ _ _ => .done
          · simp only [hj, dite_false]
            exact .ask .done

/-! ## 5. Values and previews -/

theorem readValues (hc : ws.Contained r) {i : Nat} (ho : ws.Opens r (i + 1)) (wanted : Wanted) :
    Resolve.KeepsTo r ws (resolver.readValues r i wanted) fun _ _ => True :=
  h.readValuesWith (fun hc ho => h.elementCount i hc (.inr ho)) hc ho wanted

theorem intValue (hc : ws.Contained r) {i : Nat} (ho : ws.Opens r (i + 1)) (n : Nat) :
    Resolve.KeepsTo r ws (resolver.intValue r i n) fun _ _ => True :=
  h.intValueWith (fun hc ho => h.elementCount i hc (.inr ho)) hc ho n

theorem takePreviews (hc : ws.Contained r) {i : Nat} (ho : ws.Opens r (i + 1)) (separated : Bool)
    (left : Nat) : ∀ (n : Nat) (joined : String),
    Resolve.KeepsTo r ws (resolver.takePreviews r i separated left n joined) fun _ _ => True := by
  induction left generalizing ws with
  | zero => exact fun _ _ => .done
  | succ left ih =>
    intro n joined
    unfold Resolver.takePreviews Resolver.valuePreview
    have hvalue : Resolve.KeepsTo r ws (resolver.valuePreview r i n) fun _ _ => True :=
      (h.readValues hc ho _).bind fun _ _ _ _ => .ite (fun _ => .ask .done) fun _ => .done
    refine hvalue.bind fun preview ws₁ hs₁ _ => ?_
    cases preview with
    | none => exact .done
    | some p =>
      exact .ite (fun _ => .done) fun _ => (ih (hs₁.contained hc) (hs₁.opens ho) _ _).bind
        fun _ _ _ _ => .done

/-- **The joined preview of a field.** -/
theorem fieldPreview (hc : ws.Contained r) (i : Nat) {isLazy : Bool}
    (ho : isLazy = true ∨ ws.Opens r (i + 1)) :
    Resolve.KeepsTo r ws (resolver.fieldPreview r i isLazy) fun _ _ => True := by
  unfold Resolver.fieldPreview
  refine (h.enumerate hc ho).bind fun _ ws₁ hs₁ hcurrent => .ask ?_
  cases he : ws₁.entryOf? r i with
  | none => exact .done
  | some entry =>
    refine .ite (fun _ => .done) fun _ => ?_
    cases entry.preview with
    | some preview => exact .done
    | none =>
      have ho₁ := hcurrent.opens he
      refine (h.fieldOffset (hs₁.contained hc) i (.inr ho₁)).bind fun _ ws₂ hs₂ _ => ?_
      refine .ite (fun _ => .done) fun _ => .ask ?_
      exact (h.takePreviews (hs₂.contained (hs₁.contained hc)) (hs₂.opens ho₁) _ _ _ _).bind
        fun _ _ _ _ => (Resolve.KeepsTo.modifyEntry i _).bind fun _ _ _ _ => .done

/-! ## 6. Sizes and elements -/

/-- **The room that a field takes up**, asked for lazily. Where children would have to be measured
it is not told. -/
theorem totalSize (hc : ws.Contained r) (i : Nat) :
    Resolve.KeepsTo r ws (resolver.totalSize r i true) fun _ _ => True := by
  unfold Resolver.totalSize
  refine (h.enumerate hc (.inl rfl)).bind fun _ ws₁ hs₁ hcurrent => .ask ?_
  cases he : ws₁.entryOf? r i with
  | none => exact .done
  | some entry =>
    refine .ite (fun _ => .done) fun _ => .ask ?_
    cases ws₁.fieldOf? r i with
    | none => exact .done
    | some f =>
      dsimp only
      refine .ask (.ite (fun _ => .done) fun hmeasured => ?_)
      have ho₁ := hcurrent.opens he
      have hc₁ := hs₁.contained hc
      have hmeasure : Resolve.KeepsTo r ws₁
          (resolver.measureField r i f.2 (ws₁.schema.fixedSize? f.2.type)) fun _ _ => True := by
        unfold Resolver.measureField
        refine .ite (fun _ => .done) fun hvalue => ?_
        cases hfixed : ws₁.schema.fixedSize? f.2.type with
        | none =>
          refine absurd ?_ hmeasured
          simp_all
        | some size =>
          have hcount : Resolve.KeepsTo r ws₁ (resolver.occupiedCount r i f.2 size)
              fun _ _ => True := by
            unfold Resolver.occupiedCount
            refine (h.elementCount i hc₁ (.inr ho₁)).bind fun _ ws₂ hs₂ _ => ?_
            exact .ite (fun _ => (h.readValues (hs₂.contained hc₁) (hs₂.opens ho₁) _).bind
              fun _ _ _ _ => .ask .done) fun _ => .ite (fun _ => .done) fun _ => .done
          exact hcount.bind fun _ _ _ _ => .done
      refine .bind (.unlessCutShort (.map (hmeasure.weaken))) fun total _ _ _ => ?_
      cases total with
      | none => exact .done
      | some total => exact (Resolve.KeepsTo.modifyEntry i _).bind fun _ _ _ _ => .done

/-- **The offset of an element** that is no numbered child, or of any element asked for lazily. -/
theorem valueOffset (hc : ws.Contained r) (i n : Nat) {isLazy : Bool}
    (ho : isLazy = true ∨ ws.Opens r (i + 1))
    (hplain : isLazy = true ∨ n = 0 ∨ ws.holdsChildren r i = false) :
    Resolve.KeepsTo r ws (resolver.valueOffset r i n isLazy) fun _ _ => True := by
  unfold Resolver.valueOffset
  refine (h.fieldOffset hc i ho).bind fun offset ws₁ hs₁ _ => ?_
  cases offset with
  | none => exact .done
  | some offset =>
    refine .ite (fun _ => .done) fun hn => ?_
    cases isLazy with
    | true => exact .ask .done
    | false =>
      have ho₁ : ws₁.Opens r (i + 1) := hs₁.opens (ho.resolve_left Bool.false_ne_true)
      have hscalar : ws₁.holdsChildren r i = false := by
        rw [Workspace.holdsChildren, hs₁.fieldOf?]
        exact (hplain.resolve_left Bool.false_ne_true).resolve_left hn
      have hread : Resolve.KeepsTo r ws₁ (do
          let _ ← resolver.readValues r i (.first (n + 1))
          let entry ← entryOf? r i
          pure ((entry.bind fun e => e.values[n]?).map Element.offset)) fun _ _ => True :=
        (h.readValues (hs₁.contained hc) ho₁ _).bind fun _ _ _ _ => .ask .done
      refine .ask ?_
      rw [hscalar]
      exact hread

omit h in
/-- **The size of an instance**, asked for lazily: it is only told if the definition does or if all
fields are laid out. -/
theorem size : Resolve.KeepsTo r ws (resolver.size r true) fun _ _ => True := by
  unfold Resolver.size
  refine .ask ?_
  cases ws.structOf? r with
  | none => exact .done
  | some d =>
    dsimp only
    refine .ask (.ask ?_)
    cases (ws.layoutOf r).sizeFor? (ws.stampOf r d) with
    | some size => exact .done
    | none =>
      have hmeasure : Resolve.KeepsTo r ws (resolver.measureSize r d true) fun _ _ => True := by
        unfold Resolver.measureSize
        cases d.sizeSource with
        | some source => exact .done
        | none =>
          exact .ite (fun _ => .ask (.ite (fun _ => .done) fun _ => .done)) fun _ => .done
      refine (Resolve.KeepsTo.unlessCutShort hmeasure).bind fun size ws₁ _ _ => ?_
      cases size with
      | none => exact .done
      | some size =>
        have hnote : Resolve.KeepsTo r ws₁ (modifyLayout r (·.setSize (ws.stampOf r d) size))
            fun _ _ => True :=
          .modifyLayout (fun _ => rfl) (fun _ => rfl) fun _ => Nat.le_refl _
        exact hnote.bind fun _ _ _ _ => .done

omit h in
theorem canCreateNext (loose : Bool) :
    Resolve.KeepsTo r ws (resolver.canCreateNext r true loose) fun _ _ => True := by
  unfold Resolver.canCreateNext
  refine size.bind fun size _ _ _ => ?_
  cases size with
  | none => exact .done
  | some size => exact .ask .done

omit h in
theorem nextInfo : Resolve.KeepsTo r ws (resolver.nextInfo r true) fun _ _ => True := by
  unfold Resolver.nextInfo
  refine .ask (size.bind fun size _ _ _ => ?_)
  cases size with
  | none => exact .done
  | some size => exact .ask (.ask .done)

end Resolver.KeepsTo

end ByteAtlas
