import ByteAtlas.Scalar.Value

/-!
# Joined previews that are cut

A joined preview takes elements until it is `previewLimit` bytes long, and gets its dots only if it
is longer than that. So the dots tell that something may be missing, but they are not always there:
where an element ends exactly at the limit the preview stops as well, and has none
(`joinPreviews_shows`). Two rows of elements that are the same up to there cannot be told apart
(`joinPreviews_cut_at_limit`).
-/

namespace ByteAtlas

/-! ## 1. All elements in a row -/

/-- **The previews of all elements**, with what stands between them. -/
def fullJoin (separated : Bool) (previews : List String) : String :=
  (previewSeparator separated false).intercalate previews

/-- Previews in a row, with what stands in front of each of them. -/
def previewRow (separated : Bool) : (first : Bool) → List String → String
  | _, [] => ""
  | first, p :: ps => previewSeparator separated first ++ p ++ previewRow separated false ps

section

variable {separated first : Bool} {ps shown left : List String}

theorem previewRow_append : previewRow separated first (shown ++ left) =
    previewRow separated first shown ++ previewRow separated (first && shown.isEmpty) left := by
  induction shown generalizing first with
  | nil => simp [previewRow]
  | cons p shown ih => simp [previewRow, ih, String.append_assoc]

theorem previewRow_true (ps : List String) : previewRow separated true ps = fullJoin separated ps := by
  unfold fullJoin
  induction ps with
  | nil => rfl
  | cons p ps ih =>
    cases ps with
    | nil => simp [previewRow, previewSeparator]
    | cons q ps =>
      rw [String.intercalate_cons_cons, ← ih]
      simp [previewRow, previewSeparator, String.append_assoc]

/-- The first elements make up the front of all of them. -/
theorem fullJoin_append (separated : Bool) (shown left : List String) :
    fullJoin separated (shown ++ left) =
      fullJoin separated shown ++ previewRow separated shown.isEmpty left := by
  rw [← previewRow_true, ← previewRow_true, previewRow_append, Bool.true_and]

/-- Elements that are not empty take up room. -/
theorem utf8ByteSize_previewRow_pos (hps : ∀ p ∈ ps, p.isEmpty = false) (hne : ps ≠ []) :
    0 < (previewRow separated first ps).utf8ByteSize := by
  obtain ⟨p, ps, rfl⟩ := List.exists_cons_of_ne_nil hne
  have hp : p.utf8ByteSize ≠ 0 := fun hzero => by
    have hempty := String.isEmpty_iff_utf8ByteSize_eq_zero.mpr hzero
    rw [hps p List.mem_cons_self] at hempty
    cases hempty
  rw [previewRow, String.utf8ByteSize_append, String.utf8ByteSize_append]
  omega

/-! ## 2. Where the row is cut -/

/-- **What is gathered**: first elements, by induction on those that are left. All but the last of
them stay below the limit, and only if they reach it is an element left out. -/
theorem gatherPreviews_shows (separated first : Bool) (hps : ∀ p ∈ ps, p.isEmpty = false)
    {joined : String}
    (hjoined : joined.utf8ByteSize < previewLimit) :
    ∃ shown left, ps = shown ++ left ∧
      gatherPreviews separated first joined ps = joined ++ previewRow separated first shown ∧
      (left ≠ [] → previewLimit ≤ (joined ++ previewRow separated first shown).utf8ByteSize) ∧
      (joined ++ previewRow separated first shown.dropLast).utf8ByteSize < previewLimit := by
  induction ps generalizing first joined with
  | nil => exact ⟨[], [], rfl, by simp [gatherPreviews, previewRow], fun h => absurd rfl h,
      by simpa [previewRow] using hjoined⟩
  | cons p ps ih =>
    obtain ⟨hp, hps⟩ := List.forall_mem_cons.mp hps
    have hlonger : joined ++ (previewSeparator separated first ++ p) =
        joined ++ previewSeparator separated first ++ p := String.append_assoc.symm
    rw [gatherPreviews, if_neg (by simp [hp])]
    dsimp only
    by_cases hfull : (joined ++ previewSeparator separated first ++ p).utf8ByteSize ≥ previewLimit
    · refine ⟨[p], ps, rfl, ?_, fun _ => ?_, by simpa [previewRow] using hjoined⟩
      · rw [if_pos hfull, previewRow, previewRow, String.append_empty, hlonger]
      · rw [previewRow, previewRow, String.append_empty, hlonger]
        exact hfull
    · obtain ⟨shown, left, rfl, hgathered, hleft, hlast⟩ := ih false hps
        (Nat.not_le.mp hfull)
      have hrow (row : List String) : joined ++ previewRow separated first (p :: row) =
          joined ++ previewSeparator separated first ++ p ++ previewRow separated false row := by
        rw [previewRow, ← String.append_assoc, hlonger]
      refine ⟨p :: shown, left, rfl, ?_, ?_, ?_⟩
      · rw [if_neg hfull, hgathered, hrow]
      · rw [hrow]
        exact hleft
      · cases shown with
        | nil => simpa [previewRow] using hjoined
        | cons q shown =>
          rw [List.dropLast_cons_cons, hrow]
          exact hlast

end

/-- **Where a row that is too long is cut**: behind the first element that reaches the limit. -/
structure IsCut (separated : Bool) (ps shown left : List String) : Prop where
  all : ps = shown ++ left
  front : ∃ rest, fullJoin separated ps = fullJoin separated shown ++ rest
  below : (fullJoin separated shown.dropLast).utf8ByteSize < previewLimit
  reached : previewLimit ≤ (fullJoin separated shown).utf8ByteSize

/-- **What a joined preview shows.** All elements, if there is room for them; else those up to the
cut, and then dots, unless the cut is exactly at the limit. -/
theorem joinPreviews_shows {separated : Bool} {ps : List String}
    (hps : ∀ p ∈ ps, p.isEmpty = false) :
    (fullJoin separated ps ≠ "" → (fullJoin separated ps).utf8ByteSize ≤ previewLimit →
      joinPreviews separated ps = fullJoin separated ps) ∧
    (previewLimit < (fullJoin separated ps).utf8ByteSize →
      ∃ shown left, IsCut separated ps shown left ∧
        joinPreviews separated ps =
          if (fullJoin separated shown).utf8ByteSize = previewLimit then fullJoin separated shown
          else fullJoin separated shown ++ "...") := by
  obtain ⟨shown, left, rfl, hgathered, hleft, hlast⟩ :=
    gatherPreviews_shows separated true hps
      (show "".utf8ByteSize < previewLimit by decide)
  simp only [String.empty_append, previewRow_true] at hgathered hleft hlast
  have hwhole := fullJoin_append separated shown left
  have hsize : (fullJoin separated (shown ++ left)).utf8ByteSize =
      (fullJoin separated shown).utf8ByteSize +
        (previewRow separated shown.isEmpty left).utf8ByteSize := by
    rw [hwhole, String.utf8ByteSize_append]
  have hmore (hne : left ≠ []) : 0 < (previewRow separated shown.isEmpty left).utf8ByteSize :=
    utf8ByteSize_previewRow_pos (fun p hp => hps p (List.mem_append_right _ hp)) hne
  have hjoined : joinPreviews separated (shown ++ left) =
      if (fullJoin separated shown).utf8ByteSize > previewLimit ∨ (fullJoin separated shown).isEmpty
      then fullJoin separated shown ++ "..." else fullJoin separated shown := by
    rw [joinPreviews, hgathered]
  have hreached (hlong : previewLimit < (fullJoin separated (shown ++ left)).utf8ByteSize) :
      previewLimit ≤ (fullJoin separated shown).utf8ByteSize := by
    by_cases hne : left = []
    · rw [hne, List.append_nil] at hlong
      exact Nat.le_of_lt hlong
    · exact hleft hne
  refine ⟨fun hne hfits => ?_, fun hlong =>
    ⟨shown, left, ⟨rfl, ⟨_, hwhole⟩, hlast, hreached hlong⟩, ?_⟩⟩
  · have hall : left = [] := Decidable.byContradiction fun hne => by
      have := hleft hne
      have := hmore hne
      omega
    subst hall
    rw [List.append_nil] at hne hfits hjoined ⊢
    rw [hjoined, if_neg]
    rw [not_or, String.isEmpty_iff]
    exact ⟨Nat.not_lt.mpr hfits, hne⟩
  · have hfull := hreached hlong
    have hnonempty : ¬ (fullJoin separated shown).isEmpty = true := by
      have hlimit : 0 < previewLimit := by decide
      rw [String.isEmpty_iff_utf8ByteSize_eq_zero]
      omega
    rw [hjoined]
    by_cases hexact : (fullJoin separated shown).utf8ByteSize = previewLimit
    · rw [if_pos hexact, if_neg]
      exact not_or.mpr ⟨by omega, hnonempty⟩
    · rw [if_neg hexact, if_pos (.inl (by omega))]

/-- Seven numbers of three digits are too many. The first five leave one byte, so the sixth is shown
as well. -/
theorem joinPreviews_shows_sevenNumbers :
    let numbers := ["100", "200", "300", "400", "500", "600", "700"]
    (∀ p ∈ numbers, p.isEmpty = false) ∧
      (∃ shown left, IsCut true numbers shown left ∧ joinPreviews true numbers =
        if (fullJoin true shown).utf8ByteSize = previewLimit then fullJoin true shown
        else fullJoin true shown ++ "...") ∧
      joinPreviews true (numbers.take 5) = "100, 200, 300, 400, 500" :=
  ⟨by decide, (joinPreviews_shows (by decide)).2 (by decide),
    (joinPreviews_shows (by decide)).1 (by decide) (by decide)⟩

/-- **The dots may be missing**: of 25 characters, as the elements of a text have them for previews,
the first 24 are exactly as long as the limit. The preview shows only those and looks complete. -/
theorem joinPreviews_cut_at_limit :
    let ps := List.replicate 25 "a"
    (∀ p ∈ ps, p.isEmpty = false) ∧ previewLimit < (fullJoin false ps).utf8ByteSize ∧
      joinPreviews false ps = fullJoin false (List.replicate 24 "a") ∧
      ¬ ∃ shown left, ps = shown ++ left ∧
        joinPreviews false ps = fullJoin false shown ++ "..." := by
  intro ps
  have hdotless : '.' ∉ (joinPreviews false ps).toList := by decide
  refine ⟨by decide, by decide, by decide, ?_⟩
  rintro ⟨shown, left, _, hdots⟩
  rw [hdots, String.toList_append] at hdotless
  exact hdotless (List.mem_append_right _ (by decide))

end ByteAtlas
