import Mathlib.Data.List.Nodup
import ByteAtlas.Proofs.Expr.Spelling
import ByteAtlas.Proofs.Schema.Versions

/-!
# Schemas written and read back

What has been read from JSON can be written and read again, and is the same then: every part of a
schema, and the schema itself after edits that put in definitions and fields which have been read
(`Schema.round_trips`). Only the versions start anew.

A record takes up its members one by one. `Json.Takes` follows what has been taken up through the
members that are written, so that a member which is left out has to be shown to change nothing, on
the spot where it stands.
-/

namespace ByteAtlas

/-! ## 1. Numbers -/

theorem JsonNumber.digits_append (ds : List Char) (c : Char) :
    digits (ds ++ [c]) = digits ds * 10 + (c.toNat - '0'.toNat) := by
  simp [digits, List.foldl_append]

theorem toNat_digitChar {d : Nat} (hd : d < 10) : d.digitChar.toNat - '0'.toNat = d := by
  have all : ∀ d : Fin 10, (Nat.digitChar d).toNat - '0'.toNat = d := by decide
  exact all ⟨d, hd⟩

theorem JsonNumber.digits_toDigits (k : Nat) : digits (Nat.toDigits 10 k) = k := by
  induction k using Nat.strongRecOn with
  | ind k ih =>
    rw [Nat.toDigits_eq_if (by decide)]
    split
    · rename_i hk
      simpa [digits] using toNat_digitChar hk
    · rename_i hk
      rw [digits_append, ih (k / 10) (by omega), toNat_digitChar (by omega)]
      omega

/-- **An integer's notation denotes it.** -/
theorem JsonNumber.toInt?_ofInt (n : Int) : (ofInt n).toInt? = some n := by
  show (if (decide (n < 0)) = true then
      if digits (Nat.toDigits 10 n.natAbs) = 0 then none
      else some (-(digits (Nat.toDigits 10 n.natAbs) : Int))
    else some (digits (Nat.toDigits 10 n.natAbs) : Int)) = some n
  rw [digits_toDigits]
  by_cases hn : n < 0
  · rw [if_pos (decide_eq_true hn), if_neg (by omega)]
    exact congrArg some (by omega)
  · rw [if_neg (by simpa using hn)]
    exact congrArg some (by omega)

namespace Json

theorem toWord_ofWord (n : Int64) : toWord (ofWord n) = .ok n := by
  have hwithin : Int64.minValue.toInt ≤ n.toInt ∧ n.toInt ≤ Int64.maxValue.toInt :=
    ⟨n.minValue_le_toInt, n.toInt_le⟩
  have hint : (ofWord n).toIntWithin Int64.minValue.toInt Int64.maxValue.toInt = .ok n.toInt := by
    rw [ofWord, Json.ofInt, toIntWithin, JsonNumber.toInt?_ofInt]
    exact if_pos hwithin
  rw [toWord, hint]
  exact congrArg Except.ok n.ofInt_toInt

/-! ## 2. Lists and maps -/

section

variable {α : Type} {encode : α → Json} {decode : Json → Decoded α}

theorem toList_array : ∀ {xs : List α}, (∀ x ∈ xs, decode (encode x) = .ok x) →
    toList decode (.array (xs.map encode)) = .ok xs
  | [], _ => rfl
  | x :: xs, h => by
    have ih : itemsOf decode (xs.map encode) = .ok xs :=
      toList_array fun y hy => h y (List.mem_cons_of_mem x hy)
    show itemsOf decode (encode x :: xs.map encode) = .ok (x :: xs)
    rw [itemsOf, h x List.mem_cons_self, ih]
    rfl

/-- Entries are read back with what their values are read back as. -/
theorem toEntries_record {f : α → α} : ∀ {es : List (String × α)},
    (∀ e ∈ es, decode (encode e.2) = .ok (f e.2)) →
      toEntries decode (record (es.map fun e => (e.1, encode e.2))) =
        .ok (es.map fun e => (e.1, f e.2))
  | [], _ => rfl
  | (name, a) :: es, h => by
    have ih : entriesOf decode ((es.map fun e => (e.1, encode e.2)).map fun m => (some m.1, m.2)) =
        .ok (es.map fun e => (e.1, f e.2)) :=
      toEntries_record fun e he => h e (List.mem_cons_of_mem _ he)
    have hstep : decode (encode a) = .ok (f a) := h (name, a) List.mem_cons_self
    simp only [List.map_map] at ih
    simp only [toEntries, record, List.map_cons, List.map_map, entriesOf, hstep, ih]
    rfl

end

/-! ## 3. Records -/

section

variable {σ α : Type} {keys : List String} {step : σ → String → Json → Decoded σ} {s s' s'' : σ}
variable {key : String} {j : Json} {a b : List (String × Json)}

/-- Some members take what has been taken up from `s` to `s'`. -/
def Takes (step : σ → String → Json → Decoded σ) (s : σ) (members : List (String × Json))
    (s' : σ) : Prop :=
  members.foldlM (fun s m => step s m.1 m.2) s = .ok s'

theorem Takes.append (ha : Takes step s a s') (hb : Takes step s' b s'') :
    Takes step s (a ++ b) s'' := by
  unfold Takes at ha hb ⊢
  rw [List.foldlM_append, ha]
  exact hb

theorem Takes.member (h : step s key j = .ok s') : Takes step s [(key, j)] s' := by
  unfold Takes
  rw [List.foldlM_cons, h]
  rfl

/-- A member that is left out has changed nothing. -/
theorem Takes.unless {c : Prop} [Decidable c] (hout : c → s = s')
    (hin : step s key j = .ok s') : Takes step s (if c then [] else [(key, j)]) s' := by
  split
  · rename_i hc
    exact congrArg Except.ok (hout hc)
  · exact .member hin

theorem Takes.optional {encode : α → Json} {v : Option α} (put : Option α → σ)
    (hout : s = put none) (hin : ∀ a, step s key (encode a) = .ok (put (some a))) :
    Takes step s (ByteAtlas.optional key (v.map encode)) (put v) := by
  cases v with
  | none => exact congrArg Except.ok hout
  | some a => exact .member (hin a)

/-- Members with different keys that are known are taken up one by one. -/
theorem foldMembers_of_takes : ∀ {members : List (String × Json)} {seen : List String} {s : σ},
    (∀ m ∈ members, m.1 ∈ keys ∧ m.1 ∉ seen) → (members.map Prod.fst).Nodup →
      Takes step s members s' →
        foldMembers keys step seen s (members.map fun m => (some m.1, m.2)) = .ok s'
  | [], _, _, _, _, h => h
  | (key, j) :: ms, _, s, hmem, hnodup, h => by
    obtain ⟨hkey, hseen⟩ := hmem _ List.mem_cons_self
    rw [List.map_cons, List.nodup_cons] at hnodup
    unfold Takes at h
    rw [List.foldlM_cons] at h
    rw [List.map_cons, foldMembers, if_pos (by simpa using hkey), if_neg (by simpa using hseen)]
    dsimp only at h ⊢
    cases hs : step s key j with
    | error e =>
      rw [hs] at h
      cases h
    | ok s₁ =>
      rw [hs] at h
      refine foldMembers_of_takes (fun m hm => ⟨(hmem _ (List.mem_cons_of_mem _ hm)).1, ?_⟩)
        hnodup.2 h
      rw [List.mem_cons, not_or]
      refine ⟨fun he => hnodup.1 ?_, (hmem m (List.mem_cons_of_mem _ hm)).2⟩
      exact List.mem_map.mpr ⟨m, hm, he⟩

/-- **A record that is written in the order of its keys is taken up.** -/
theorem toRecord_record {members : List (String × Json)}
    (hkeys : (members.map Prod.fst).Sublist keys) (hnodup : keys.Nodup) (h : Takes step s members s') :
    toRecord keys step s (record members) = .ok s' :=
  foldMembers_of_takes
    (fun _ hm => ⟨hkeys.subset (List.mem_map_of_mem hm), List.not_mem_nil⟩)
    (hnodup.sublist hkeys) h

theorem keys_optional (v : Option Json) : ((optional key v).map Prod.fst).Sublist [key] := by
  cases v <;> simp [optional]

theorem keys_flag (v : Bool) : ((flag key v).map Prod.fst).Sublist [key] := by
  cases v <;> simp [flag]

theorem keys_unless {c : Prop} [Decidable c] :
    ((if c then [] else [(key, j)]).map Prod.fst).Sublist [key] := by
  split <;> simp

end

end Json

open Json

/-! ## 4. Types, counts and bindings -/

theorem IntType.name_of_ofName? {text : String} {t : IntType} (h : IntType.ofName? text = some t) :
    t.name = text := by
  simpa using List.find?_some h

theorem ScalarType.name_of_ofName? {text : String} {t : ScalarType}
    (h : ScalarType.ofName? text = some t) : t.name = text := by
  unfold ScalarType.ofName? at h
  split at h
  · cases h
    simp_all [name]
  · split at h
    · cases h
      simp_all [name]
    · split at h
      · cases h
        simp_all [name]
      · split at h
        · cases h
          simp_all [name]
        · obtain ⟨i, hi, rfl⟩ := Option.map_eq_some_iff.mp h
          exact IntType.name_of_ofName? hi

theorem ElementType.name_ofName (text : String) : (ElementType.ofName text).name = text := by
  unfold ofName
  split
  · rename_i h
    exact ScalarType.name_of_ofName? h
  · rfl

/-- A type that a schema can name: its name is not empty, and a struct has no scalar's name. -/
def ElementType.Named (t : ElementType) : Prop :=
  t.name.isEmpty = false ∧ ElementType.ofName t.name = t

theorem ElementType.named_of_decode {t : ElementType} {j : Json}
    (h : ElementType.decode j = .ok t) : t.Named := by
  unfold ElementType.decode at h
  split at h
  · cases h
  · rename_i text _
    split at h
    · cases h
    · rename_i hempty
      cases h
      unfold Named
      rw [name_ofName]
      exact ⟨by simpa using hempty, rfl⟩

theorem ElementType.decode_encode {t : ElementType} (h : t.Named) :
    ElementType.decode t.encode = .ok t := by
  show (if t.name.isEmpty then _ else Except.ok (ElementType.ofName t.name)) = _
  rw [h.1, h.2]
  rfl

/-- A count source that a schema can name: a colon in front is for the size of the file. -/
def CountSource.Named (c : CountSource) : Prop :=
  ∀ name, c = .named name → name.isEmpty = false ∧ name.toList.head? ≠ some ':'

theorem CountSource.named_of_decode {c : CountSource} {j : Json}
    (h : CountSource.decode j = .ok c) : c.Named := by
  unfold CountSource.decode at h
  split at h
  · cases h
  · split at h
    · cases h
      exact fun _ he => nomatch he
    · rename_i hempty
      split at h
      · cases h
        exact fun _ he => nomatch he
      · split at h
        · cases h
        · rename_i hhead
          cases h
          rintro name ⟨⟩
          exact ⟨by simpa using hempty, hhead⟩

theorem CountSource.decode_encode {c : CountSource} (h : c.Named) :
    CountSource.decode c.encode = .ok c := by
  cases c with
  | literal => rfl
  | fileSize => rfl
  | named name =>
    obtain ⟨hempty, hhead⟩ := h name rfl
    have hne : name ≠ CountSource.fileSizeText := by
      rintro rfl
      exact hhead rfl
    show (if name.isEmpty then _ else if name = _ then _ else
      if name.toList.head? = some ':' then _ else Except.ok (CountSource.named name)) = _
    rw [hempty, if_neg hne, if_neg hhead]
    rfl

theorem Formula.decode_encode (f : Formula) : Formula.decode f.encode = .ok f :=
  congrArg Except.ok f.ofSource_source

theorem Formula.toOption_encode (f : Formula) : toOption Formula.decode f.encode = .ok (some f) :=
  congrArg (Except.map some) f.decode_encode

theorem Draft.finish_ok {α β : Type} {make : α → β → β} {result : Decoded (Draft α β)} (a : α)
    (b : β) (h : result = .ok ⟨some a, b⟩) : finish make result = .ok (make a b) := by
  rw [h]
  rfl

theorem Draft.withRest_ok {α β γ : Type} {result : Decoded γ} {c : γ} (d : Draft α β)
    (set : β → γ → β) (h : result = .ok c) :
    d.withRest result set = .ok { d with rest := set d.rest c } := by
  rw [h]
  rfl

theorem Param.decode_encode (p : Param) : Param.decode p.encode = .ok p := by
  unfold Param.decode
  refine Draft.finish_ok p.name (⟨"", p.value⟩ : Param) (toRecord_record (.refl _) (by decide) ?_)
  refine .append (a := [_]) (b := [_]) (.member rfl) (.member ?_)
  rw [if_neg (by decide)]
  exact Draft.withRest_ok _ _ (toWord_ofWord p.value)

theorem ArgBinding.decode_encode (a : ArgBinding) : ArgBinding.decode a.encode = .ok a := by
  unfold ArgBinding.decode
  refine Draft.finish_ok a.name (⟨"", a.source, a.value⟩ : ArgBinding)
    (toRecord_record ?_ (by decide) ?_)
  · simp only [List.map_append]
    exact .append (.append (.refl _) (keys_optional _)) (.refl _)
  · refine .append (.append (.member rfl)
      (.optional (fun source => ⟨some a.name, ⟨"", source, 0⟩⟩) rfl fun _ => rfl)) (.member ?_)
    rw [if_neg (by decide), if_neg (by decide)]
    exact Draft.withRest_ok _ _ (toWord_ofWord a.value)

/-! ## 5. Fields -/

/-- A field that a schema can name. -/
structure Field.Named (f : Field) : Prop where
  type : f.type.Named
  countSource : f.countSource.Named

/-- The field with its first attributes only, in the order in which they are written. -/
def Field.upTo (f : Field) (n : Nat) : Field where
  type := default
  value := if 1 ≤ n then f.value else none
  offset := if 2 ≤ n then f.offset else 0
  offsetFormula := if 3 ≤ n then f.offsetFormula else none
  count := if 4 ≤ n then f.count else 1
  countSource := if 5 ≤ n then f.countSource else .literal
  countIsBytes := if 6 ≤ n then f.countIsBytes else false
  individualOffsets := if 7 ≤ n then f.individualOffsets else false
  untilZero := if 8 ≤ n then f.untilZero else false
  args := if 9 ≤ n then f.args else []
  condition := if 10 ≤ n then f.condition else none
  elementCondition := if 11 ≤ n then f.elementCondition else none

section

variable {f : Field}

/-- The draft of a field with its first attributes. -/
def Field.draft (f : Field) (n : Nat) : Draft ElementType Field := ⟨some f.type, f.upTo n⟩

theorem Field.takes_formula {key : String} {v : Option Formula} {n : Nat}
    (set : Field → Option Formula → Field)
    (hstep : ∀ j, addMember (f.draft n) key j =
      (f.draft n).withRest (toOption Formula.decode j) set)
    (hout : set (f.upTo n) none = f.upTo n) (hin : set (f.upTo n) v = f.upTo (n + 1)) :
    Takes addMember (f.draft n) (optional key (v.map Formula.encode)) (f.draft (n + 1)) := by
  cases v with
  | none => exact congrArg (fun g => Except.ok (Draft.mk (some f.type) g)) (hout.symm.trans hin)
  | some a =>
    refine .member ((hstep _).trans ((Draft.withRest_ok _ _ a.toOption_encode).trans ?_))
    exact congrArg (fun g => Except.ok (Draft.mk (some f.type) g)) hin

theorem Field.takes_flag {key : String} {v : Bool} {n : Nat} (set : Field → Bool → Field)
    (hstep : ∀ j, addMember (f.draft n) key j = (f.draft n).withRest (toBool j) set)
    (hout : set (f.upTo n) false = f.upTo n) (hin : set (f.upTo n) v = f.upTo (n + 1)) :
    Takes addMember (f.draft n) (flag key v) (f.draft (n + 1)) := by
  cases v with
  | false => exact congrArg (fun g => Except.ok (Draft.mk (some f.type) g)) (hout.symm.trans hin)
  | true =>
    refine .member ((hstep _).trans ?_)
    exact congrArg (fun g => Except.ok (Draft.mk (some f.type) g)) hin

theorem Field.decode_encode {f : Field} (h : f.Named) : Field.decode f.encode = .ok f := by
  have hvalue : Takes addMember (f.draft 0) (optional "value_expr" (f.value.map Formula.encode))
      (f.draft 1) := takes_formula (fun f value => { f with value }) (fun _ => rfl) rfl rfl
  have hoffset : Takes addMember (f.draft 1) [("offset", ofWord f.offset)] (f.draft 2) :=
    .member (Draft.withRest_ok (f.draft 1) (fun f offset => { f with offset })
      (toWord_ofWord f.offset))
  have hoffsetFormula : Takes addMember (f.draft 2)
      (optional "offset_expr" (f.offsetFormula.map Formula.encode)) (f.draft 3) :=
    takes_formula (fun f offsetFormula => { f with offsetFormula }) (fun _ => rfl) rfl rfl
  have hcount : Takes addMember (f.draft 3)
      (if f.count = 1 then [] else [("count", ofWord f.count)]) (f.draft 4) :=
    .unless (fun hc => by simp [draft, upTo, hc])
      (Draft.withRest_ok (f.draft 3) (fun f count => { f with count }) (toWord_ofWord f.count))
  have hcountSource : Takes addMember (f.draft 4)
      (if f.countSource.isLiteral then [] else [("count_src", f.countSource.encode)])
      (f.draft 5) :=
    .unless (fun hc => by
        cases hs : f.countSource <;> simp_all [draft, upTo, CountSource.isLiteral])
      (Draft.withRest_ok (f.draft 4) (fun f countSource => { f with countSource })
        (CountSource.decode_encode h.countSource))
  have hcountIsBytes : Takes addMember (f.draft 5) (flag "count_is_max_size" f.countIsBytes)
      (f.draft 6) :=
    takes_flag (fun f countIsBytes => { f with countIsBytes }) (fun _ => rfl) rfl rfl
  have hindividualOffsets : Takes addMember (f.draft 6)
      (flag "individual_computed_offsets" f.individualOffsets) (f.draft 7) :=
    takes_flag (fun f individualOffsets => { f with individualOffsets }) (fun _ => rfl) rfl rfl
  have huntilZero : Takes addMember (f.draft 7) (flag "read_until_zero" f.untilZero) (f.draft 8) :=
    takes_flag (fun f untilZero => { f with untilZero }) (fun _ => rfl) rfl rfl
  have hargs : Takes addMember (f.draft 8)
      (if f.args.isEmpty then [] else [("struct_args", .array (f.args.map ArgBinding.encode))])
      (f.draft 9) :=
    .unless (fun hc => by simp [draft, upTo, List.isEmpty_iff.mp hc])
      (Draft.withRest_ok (f.draft 8) (fun f args => { f with args })
        (toList_array fun a _ => a.decode_encode))
  have hcondition : Takes addMember (f.draft 9)
      (optional "condition" (f.condition.map Formula.encode)) (f.draft 10) :=
    takes_formula (fun f condition => { f with condition }) (fun _ => rfl) rfl rfl
  have helementCondition : Takes addMember (f.draft 10)
      (optional "element_condition" (f.elementCondition.map Formula.encode)) (f.draft 11) :=
    takes_formula (fun f elementCondition => { f with elementCondition }) (fun _ => rfl) rfl rfl
  have htype : Takes addMember ⟨none, .ofType default⟩ [("type", f.type.encode)] (f.draft 0) :=
    .member (congrArg (Draft.withNeeded _) (ElementType.decode_encode h.type))
  refine Draft.finish_ok f.type (f.upTo 11) (toRecord_record ?_ (by decide) ?_)
  · simp only [List.map_append]
    exact .append (.append (.append (.append (.append (.append (.append (.append (.append (.append
      (.append (.refl _) (keys_optional _)) (.refl _)) (keys_optional _)) keys_unless)
      keys_unless) (keys_flag _)) (keys_flag _)) (keys_flag _)) keys_unless) (keys_optional _))
      (keys_optional _)
  · exact htype.append hvalue |>.append hoffset |>.append hoffsetFormula |>.append hcount
      |>.append hcountSource |>.append hcountIsBytes |>.append hindividualOffsets
      |>.append huntilZero |>.append hargs |>.append hcondition |>.append helementCondition

end

theorem Draft.of_finish {α β : Type} {make : α → β → β} {result : Decoded (Draft α β)} {b : β}
    (h : finish make result = .ok b) :
    ∃ a d, result = .ok d ∧ d.needed = some a ∧ make a d.rest = b := by
  unfold finish at h
  split at h
  · cases h
  · rename_i d
    obtain ⟨a, ha, hb⟩ := exists_of_map_eq_ok h
    refine ⟨a, d, rfl, ?_, hb⟩
    cases hd : d.needed with
    | none =>
      rw [hd] at ha
      cases ha
    | some a' =>
      rw [hd] at ha
      exact congrArg some (Except.ok.inj ha)

theorem Field.named_of_decode {f : Field} {j : Json} (h : Field.decode j = .ok f) : f.Named := by
  obtain ⟨t, d, hd, ht, rfl⟩ := Draft.of_finish h
  have hkept := Schema.toRecord_keeps
    (P := fun d : Draft ElementType Field =>
      (∀ t, d.needed = some t → t.Named) ∧ d.rest.countSource.Named) ?_ ?_ hd
  · exact ⟨hkept.1 t ht, hkept.2⟩
  · rintro d key j d' ⟨htype, hsource⟩ h
    unfold addMember at h
    split at h
    · obtain ⟨t, ht, rfl⟩ := exists_of_map_eq_ok h
      refine ⟨?_, hsource⟩
      rintro _ ⟨⟩
      exact ElementType.named_of_decode ht
    all_goals obtain ⟨c, hc, rfl⟩ := exists_of_map_eq_ok h
    case h_6 => exact ⟨htype, CountSource.named_of_decode hc⟩
    all_goals exact ⟨htype, hsource⟩
  · exact ⟨fun _ ht => (nomatch ht), fun _ hc => (nomatch hc)⟩

/-! ## 6. Definitions -/

section

variable {α : Type} {name : String} {value : α} {es : List (String × α)}

theorem insertEntry_of_not_mem (h : name ∉ es.map Prod.fst) :
    insertEntry name value es = es ++ [(name, value)] := by
  induction es with
  | nil => rfl
  | cons e es ih =>
    obtain ⟨n, v⟩ := e
    rw [List.map_cons, List.mem_cons, not_or] at h
    rw [insertEntry, if_neg (Ne.symm h.1), ih h.2]
    rfl

theorem mem_insertEntry {e : String × α} (h : e ∈ insertEntry name value es) :
    e = (name, value) ∨ e ∈ es := by
  induction es with
  | nil => exact .inl (List.mem_singleton.mp h)
  | cons e' es ih =>
    obtain ⟨n, v⟩ := e'
    rw [insertEntry] at h
    split at h
    · exact (List.mem_cons.mp h).imp_right (List.mem_cons_of_mem _)
    · rcases List.mem_cons.mp h with rfl | h
      · exact .inr List.mem_cons_self
      · exact (ih h).imp_right (List.mem_cons_of_mem _)

theorem NameMap.entries_foldl (es : List (String × α)) : ∀ m : NameMap α,
    ((m.entries ++ es).map Prod.fst).Nodup →
      (es.foldl (fun m e => m.insert e.1 e.2) m).entries = m.entries ++ es := by
  induction es with
  | nil => exact fun m _ => (List.append_nil _).symm
  | cons e es ih =>
    intro m h
    have hnot : e.1 ∉ m.entries.map Prod.fst := by
      rw [List.map_append, List.nodup_append] at h
      exact fun hmem => h.2.2 e.1 hmem e.1 (List.mem_map_of_mem List.mem_cons_self) rfl
    have hinsert : (m.insert e.1 e.2).entries = m.entries ++ [e] := insertEntry_of_not_mem hnot
    rw [List.foldl_cons, ih, hinsert, List.append_assoc, List.singleton_append]
    rw [hinsert, List.append_assoc, List.singleton_append]
    exact h

/-- **The entries of a map make the map again.** -/
theorem NameMap.ofList_entries (m : NameMap α) : NameMap.ofList m.entries = m := by
  have h : (NameMap.ofList m.entries).entries = m.entries :=
    entries_foldl m.entries empty m.distinct
  generalize NameMap.ofList m.entries = m' at h
  cases m
  cases m'
  cases h
  rfl

theorem NameMap.forall_ofList {P : α → Prop} (h : ∀ e ∈ es, P e.2) :
    ∀ e ∈ (NameMap.ofList es).entries, P e.2 := by
  have hfold : ∀ (es : List (String × α)) (m : NameMap α), (∀ e ∈ es, P e.2) →
      (∀ e ∈ m.entries, P e.2) →
        ∀ e ∈ (es.foldl (fun m e => m.insert e.1 e.2) m).entries, P e.2 := by
    intro es
    induction es with
    | nil => exact fun m _ hm => hm
    | cons e es ih =>
      intro m hes hm
      obtain ⟨he, hes⟩ := List.forall_mem_cons.mp hes
      refine ih _ hes fun e' he' => ?_
      rcases mem_insertEntry he' with rfl | he'
      · exact he
      · exact hm e' he'
  exact hfold es empty h fun _ he => nomatch he

end

namespace StructDef

/-- The definition as nobody has edited it. -/
def unedited (d : StructDef) : StructDef := { d with version := initialVersion }

/-- Definitions that are put together out of definitions and fields which have been read. The
attributes that are no fields may be any. -/
inductive Assembled : StructDef → Prop where
  | decoded {d : StructDef} {j : Json} : StructDef.decode j = .ok d → Assembled d
  | insertField {d : StructDef} {f : Field} {j : Json} (name : String) : Assembled d →
    Field.decode j = .ok f → Assembled { d with fields := d.fields.insert name f }
  | eraseField {d : StructDef} (name : String) : Assembled d →
    Assembled { d with fields := d.fields.erase name }
  | attributes {d : StructDef} (isPacked : Bool) (params : List Param) (size : Int64)
    (sizeSource : Option String) (version : Version) : Assembled d →
    Assembled { d with isPacked, params, size, sizeSource, version }

variable {d : StructDef}

theorem fields_named_of_decode {j : Json} (h : StructDef.decode j = .ok d) :
    ∀ e ∈ d.fields.entries, e.2.Named := by
  refine Schema.toRecord_keeps (P := fun d => ∀ e ∈ d.fields.entries, e.2.Named) ?_
    (fun _ he => nomatch he) h
  intro d key j d' hd h
  unfold addMember at h
  split at h <;> obtain ⟨a, ha, rfl⟩ := exists_of_map_eq_ok h
  case h_3 =>
    unfold Json.toEntries at ha
    split at ha
    · exact NameMap.forall_ofList
        (Schema.forall_mem_entriesOf (fun _ _ => Field.named_of_decode) _ ha)
    · cases ha
  all_goals exact hd

/-- All fields of an assembled definition can be named. -/
theorem Assembled.fields_named (h : d.Assembled) : ∀ e ∈ d.fields.entries, e.2.Named := by
  induction h with
  | decoded h => exact fields_named_of_decode h
  | insertField name _ hf ih =>
    intro e he
    rcases mem_insertEntry he with rfl | he
    · exact Field.named_of_decode hf
    · exact ih e he
  | eraseField name _ ih => exact fun e he => ih e (List.mem_filter.mp he).1
  | attributes _ _ _ _ _ _ ih => exact ih

theorem decode_encode (h : ∀ e ∈ d.fields.entries, e.2.Named) :
    StructDef.decode d.encode = .ok d.unedited := by
  have hpacked : Takes addMember .empty [("serialized", .bool d.isPacked)]
      { empty with isPacked := d.isPacked } := .member rfl
  have hparams : Takes addMember { empty with isPacked := d.isPacked }
      (if d.params.isEmpty then [] else [("params", .array (d.params.map Param.encode))])
      { empty with isPacked := d.isPacked, params := d.params } := by
    refine .unless (fun hc => ?_) ?_
    · rw [List.isEmpty_iff.mp hc]
      rfl
    · exact congrArg (Except.map _) (toList_array fun p _ => p.decode_encode)
  have hfields : Takes addMember { empty with isPacked := d.isPacked, params := d.params }
      [("fields", .record (d.fields.entries.map fun e => (e.1, e.2.encode)))]
      { empty with isPacked := d.isPacked, params := d.params, fields := d.fields } := by
    refine .member ?_
    rw [addMember, toEntries_record (f := id) fun e he => Field.decode_encode (h e he)]
    show Except.ok { empty with
      isPacked := d.isPacked, params := d.params, fields := .ofList (d.fields.entries.map id) } = _
    rw [List.map_id, NameMap.ofList_entries]
  have hsize : Takes addMember
      { empty with isPacked := d.isPacked, params := d.params, fields := d.fields }
      [("size", ofWord d.size)] { d.unedited with sizeSource := none } :=
    .member (congrArg (Except.map _) (toWord_ofWord d.size))
  have hsizeSource : Takes addMember { d.unedited with sizeSource := none }
      (optional "size_src" (d.sizeSource.map .string)) d.unedited :=
    .optional (fun sizeSource => { d.unedited with sizeSource }) rfl fun _ => rfl
  refine toRecord_record ?_ (by decide) ?_
  · simp only [List.map_append]
    exact .append (.append (.append (.refl _) keys_unless) (.refl _)) (keys_optional _)
  · exact hpacked.append hparams |>.append (hfields.append hsize) |>.append hsizeSource

end StructDef

/-! ## 7. Schemas -/

namespace Schema

/-- Schemas that are put together out of schemas, definitions and fields which have been read. -/
inductive Assembled : Schema → Prop where
  | decoded {s : Schema} {j : Json} : Schema.decode j = .ok s → Assembled s
  | insert {s : Schema} {d : StructDef} (name : String) : Assembled s → d.Assembled →
    Assembled (s.insert name d)
  | edit {s : Schema} {ρ : Type} (name : String) (f : StructDef → ρ × StructDef) : Assembled s →
    (∀ d, d.Assembled → (f d).2.Assembled) → Assembled (s.edit name f).2
  | remove {s : Schema} (name : String) : Assembled s → Assembled (s.remove name).2

variable {s : Schema}

theorem assembled_of_decode {j : Json} (h : decode j = .ok s) {name : String} {d : StructDef}
    (hd : s.get? name = some d) : d.Assembled := by
  refine toRecord_keeps (P := fun s => ∀ name d, s.get? name = some d → d.Assembled) ?_
    (fun _ _ hd => nomatch hd) h name d hd
  intro s key j s' _ hs'
  obtain ⟨es, hes, rfl⟩ := exists_of_map_eq_ok hs'
  unfold Json.toEntries at hes
  split at hes
  · exact forall_foldl_insert es
      (forall_mem_entriesOf (P := StructDef.Assembled) (fun _ _ => .decoded) _ hes) ∅
      fun _ _ hd => nomatch hd
  · cases hes

theorem Assembled.of_insert {d d' : StructDef} {name other : String}
    (h : ∀ name d, s.get? name = some d → d.Assembled) (hd : d.Assembled)
    (hd' : (s.insert name d).get? other = some d') : d'.Assembled := by
  rw [get?_insert] at hd'
  split at hd'
  · cases hd'
    exact hd.attributes d.isPacked d.params d.size d.sizeSource s.nextVersion
  · exact h other d' hd'

/-- All definitions of an assembled schema are. -/
theorem Assembled.structs (h : s.Assembled) :
    ∀ name d, s.get? name = some d → d.Assembled := by
  induction h with
  | decoded h => exact fun _ _ => assembled_of_decode h
  | insert name _ hd ih => exact fun _ _ => of_insert ih hd
  | @edit s ρ name f _ hf ih =>
    cases hn : s.get? name with
    | none =>
      have hs' : (s.edit name f).2 = { s with lastVersion := s.nextVersion } := by
        rw [Schema.edit, hn]
      rw [hs']
      exact ih
    | some d =>
      have hs' : (s.edit name f).2 = s.insert name (f d).2 := by
        rw [Schema.edit, hn]
        rfl
      rw [hs']
      exact fun _ _ => of_insert ih (hf d (ih name d hn))
  | remove name _ ih =>
    intro other d hd
    rw [get?_remove] at hd
    split at hd
    · cases hd
    · exact ih other d hd

/-- A map made of a map's entries with other values. -/
theorem getElem?_foldl_insert {α : Type} (m : Std.TreeMap String α) (f : α → α) (name : String) :
    ((m.toList.map fun e => (e.1, f e.2)).foldl (fun m e => m.insert e.1 e.2)
      (∅ : Std.TreeMap String α))[name]? = m[name]?.map f := by
  rw [← Std.TreeMap.ofList_equiv_foldl.getElem?_eq]
  cases h : m[name]? with
  | none =>
    refine Std.TreeMap.getElem?_ofList_of_contains_eq_false ?_
    rw [List.map_map, List.contains_eq_mem, decide_eq_false_iff_not]
    intro hmem
    obtain ⟨e, he, rfl⟩ := List.mem_map.mp hmem
    rw [Function.comp_apply, Std.TreeMap.mem_toList_iff_getElem?_eq_some.mp he] at h
    cases h
  | some a =>
    refine Std.TreeMap.getElem?_ofList_of_mem Std.ReflCmp.compare_self ?_ ?_
    · exact List.pairwise_map.mpr Std.TreeMap.distinct_keys_toList
    · exact List.mem_map.mpr ⟨(name, a), Std.TreeMap.mem_toList_iff_getElem?_eq_some.mpr h, rfl⟩

theorem decode_encode (h : ∀ name d, s.get? name = some d → ∀ e ∈ d.fields.entries, e.2.Named) :
    ∃ s', decode s.encode = .ok s' ∧ s'.lastVersion = 0 ∧
      ∀ name, s'.get? name = (s.get? name).map StructDef.unedited := by
  have hentries : toEntries StructDef.decode
      (.record (s.structs.toList.map fun e => (e.1, e.2.encode))) =
        .ok (s.structs.toList.map fun e => (e.1, e.2.unedited)) :=
    toEntries_record fun e he => StructDef.decode_encode
      (h e.1 e.2 (Std.TreeMap.mem_toList_iff_getElem?_eq_some.mp he))
  refine ⟨_, toRecord_record (.refl _) (by decide) (.member (congrArg (Except.map _) hentries)),
    rfl, fun name => ?_⟩
  exact getElem?_foldl_insert s.structs StructDef.unedited name

/-- **What has been read is the same after it has been written and read again**: types, count
sources, formulas with their trees, parameters, bindings and fields; definitions and schemas as well
when they have been edited with definitions and fields that have been read, except for the versions,
which start anew. -/
theorem round_trips :
    (∀ j (t : ElementType), ElementType.decode j = .ok t → ElementType.decode t.encode = .ok t) ∧
    (∀ j (c : CountSource), CountSource.decode j = .ok c → CountSource.decode c.encode = .ok c) ∧
    (∀ f : Formula, Formula.decode f.encode = .ok f) ∧
    (∀ p : Param, Param.decode p.encode = .ok p) ∧
    (∀ a : ArgBinding, ArgBinding.decode a.encode = .ok a) ∧
    (∀ j (f : Field), Field.decode j = .ok f → Field.decode f.encode = .ok f) ∧
    (∀ d : StructDef, d.Assembled → StructDef.decode d.encode = .ok d.unedited) ∧
    (∀ s : Schema, s.Assembled → ∃ s', decode s.encode = .ok s' ∧ s'.lastVersion = 0 ∧
      ∀ name, s'.get? name = (s.get? name).map StructDef.unedited) :=
  ⟨fun _ _ h => ElementType.decode_encode (ElementType.named_of_decode h),
    fun _ _ h => CountSource.decode_encode (CountSource.named_of_decode h),
    Formula.decode_encode, Param.decode_encode, ArgBinding.decode_encode,
    fun _ _ h => Field.decode_encode (Field.named_of_decode h),
    fun _ h => StructDef.decode_encode h.fields_named,
    fun _ h => decode_encode fun name d hd => (h.structs name d hd).fields_named⟩

/-- A field of three characters that has been read, put into a definition that has been read. -/
theorem round_trips_inserted :
    ∃ s', decode (((Schema.insert .empty "A" .empty).edit "A" fun d =>
        ((), { d with
          fields := d.fields.insert "x" { Field.ofType (.scalar .char) with count := 3 } })).2
        ).encode = .ok s' ∧
      s'.get? "A" = some { StructDef.empty with
        fields := ⟨[("x", { Field.ofType (.scalar .char) with count := 3 })], by decide⟩ } := by
  have hread : Field.decode (.object [(some "type", .string "char"), (some "count", .ofInt 3)]) =
      .ok { Field.ofType (.scalar .char) with count := 3 } := rfl
  obtain ⟨s', hs', -, hget⟩ := round_trips.2.2.2.2.2.2.2 _
    (.edit "A" (fun d => ((), { d with fields := d.fields.insert "x" _ }))
      (.insert "A" (.decoded (j := .object []) rfl) (.decoded (j := .object []) rfl))
      fun _ hd => hd.insertField "x" hread)
  refine ⟨s', hs', ?_⟩
  rw [hget]
  decide

end Schema

end ByteAtlas
