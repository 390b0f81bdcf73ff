import Mathlib.Data.String.Basic
import ByteAtlas.Expr.Token

/-!
# Tokens start where characters start

Positions in a text count bytes, and a character may take up several. `IsBoundary` holds of the
positions between two characters, and of both ends. Every token stands at one, and so does whatever
the tokenizer objects to (`tokenize_isBoundary`, `tokenize_error_isBoundary`).
-/

namespace ByteAtlas

/-! ## 1. Boundaries -/

/-- **Whether a position lies between characters**: some characters from the start on end there. -/
def IsBoundary (text : List Char) (pos : Nat) : Prop :=
  ∃ before after, text = before ++ after ∧ byteLength before = pos

theorem byteLength_append (xs ys : List Char) :
    byteLength (xs ++ ys) = byteLength xs + byteLength ys := by
  induction xs with
  | nil => exact (Nat.zero_add _).symm
  | cons c xs ih =>
    simp only [byteLength, List.cons_append, List.foldr_cons] at ih ⊢
    omega

theorem byteLength_toList (s : String) : byteLength s.toList = s.utf8ByteSize := by
  rw [← String.utf8Len_toList]
  induction s.toList with
  | nil => rfl
  | cons c cs ih =>
    rw [String.utf8Len_cons, ← ih, Nat.add_comm]
    rfl

theorem isBoundary_zero (text : List Char) : IsBoundary text 0 :=
  ⟨[], text, rfl, rfl⟩

theorem isBoundary_byteLength (before after : List Char) :
    IsBoundary (before ++ after) (byteLength before) :=
  ⟨before, after, rfl, rfl⟩

/-- A boundary of the rest of a text. -/
theorem IsBoundary.shift {after : List Char} {pos : Nat} (h : IsBoundary after pos)
    (before : List Char) : IsBoundary (before ++ after) (byteLength before + pos) := by
  obtain ⟨front, rest, rfl, rfl⟩ := h
  exact ⟨before ++ front, rest, by rw [List.append_assoc], byteLength_append before front⟩

/-- **A boundary of the characters of a string is a valid position of the string.** -/
theorem IsBoundary.isValid {source : String} {pos : Nat} (h : IsBoundary source.toList pos) :
    String.Pos.Raw.IsValid source ⟨pos⟩ := by
  obtain ⟨before, after, htext, hpos⟩ := h
  refine String.Pos.Raw.isValid_iff_exists_append.mpr
    ⟨String.ofList before, String.ofList after, ?_, ?_⟩
  · rw [← String.ofList_append, ← htext, String.ofList_toList]
  · refine String.Pos.Raw.ext ?_
    have hsize := byteLength_toList (String.ofList before)
    rw [String.toList_ofList] at hsize
    exact hpos.symm.trans hsize

theorem isBoundary_utf8ByteSize (source : String) : IsBoundary source.toList source.utf8ByteSize :=
  ⟨source.toList, [], (List.append_nil _).symm, byteLength_toList source⟩

/-! ## 2. What the tokenizer objects to -/

section

variable {d : Diagnostic}

theorem scanName_error_pos {cs : List Char} (h : scanName cs = .error d) : d.pos = 0 := by
  unfold scanName at h
  split at h
  · split at h
    · cases h
      rfl
    · cases h
  · cases h

/-- The word behind an integer starts where the digits end. -/
theorem scanInt_error_isBoundary {base : Nat} {lead cs : List Char} {p : Char → Bool}
    (h : scanInt base lead p cs = .error d) : IsBoundary (lead ++ cs) d.pos := by
  unfold scanInt at h
  simp only at h
  split at h
  · cases h
  · split at h
    · cases h
      refine ⟨lead ++ cs.takeWhile p, cs.dropWhile p, ?_, rfl⟩
      rw [List.append_assoc, List.takeWhile_append_dropWhile]
    · cases h

theorem scanHex_error_isBoundary {lead cs : List Char} (h : scanHex lead cs = .error d) :
    IsBoundary (lead ++ cs) d.pos := by
  unfold scanHex at h
  split at h
  · cases h
    exact isBoundary_byteLength lead []
  · split at h
    · exact scanInt_error_isBoundary h
    · cases h
      exact isBoundary_byteLength lead _

theorem scanStructName_error_isBoundary {marks cs : List Char} {isGlobal : Bool}
    (h : scanStructName marks isGlobal cs = .error d) : IsBoundary (marks ++ cs) d.pos := by
  unfold scanStructName at h
  split at h
  · split at h
    · rename_i d' hname
      cases h
      have hpos : (d'.shift (byteLength marks)).pos = byteLength marks := by
        simp [Diagnostic.shift, scanName_error_pos hname]
      rw [hpos]
      exact isBoundary_byteLength marks cs
    · split at h
      · cases h
        exact isBoundary_zero _
      · cases h
  · split at h
    · cases h
      exact isBoundary_zero _
    · cases h

theorem scanSymbol_error_pos {c : Char} {cs : List Char} (h : scanSymbol c cs = .error d) :
    d.pos = 0 := by
  unfold scanSymbol at h
  split at h
  · cases h
  · cases h
    rfl

/-- **What is no token is so from a boundary on.** -/
theorem scanToken_error_isBoundary {c : Char} {cs : List Char} (h : scanToken c cs = .error d) :
    IsBoundary (c :: cs) d.pos := by
  unfold scanToken at h
  split at h
  · split at h
    · exact scanHex_error_isBoundary h
    · exact scanHex_error_isBoundary h
    · exact scanInt_error_isBoundary h
  · split at h
    · split at h
      · rename_i hname
        cases h
        rw [scanName_error_pos hname]
        exact isBoundary_zero _
      · cases h
    · split at h
      · rename_i hc
        rw [eq_of_beq hc]
        split at h
        · exact scanStructName_error_isBoundary h
        · exact scanStructName_error_isBoundary h
      · rw [scanSymbol_error_pos h]
        exact isBoundary_zero _

/-! ## 3. All tokens -/

/-- **The tokens of the rest of a text, of which some characters have been read**, by induction on
what is left. -/
theorem tokenizeFrom_isBoundary (front cs : List Char) (done : List Lexeme)
    (hdone : ∀ l ∈ done, IsBoundary (front ++ cs) l.pos) :
    (∀ ls, tokenizeFrom (byteLength front) cs done = .ok ls →
      ∀ l ∈ ls, IsBoundary (front ++ cs) l.pos) ∧
    ∀ d, tokenizeFrom (byteLength front) cs done = .error d → IsBoundary (front ++ cs) d.pos := by
  match cs with
  | [] =>
    rw [tokenizeFrom]
    refine ⟨fun ls h l hl => ?_, fun d h => ?_⟩
    · cases h
      exact hdone l (List.mem_reverse.mp hl)
    · cases h
  | c :: cs =>
    rw [tokenizeFrom]
    split
    · have hfront : byteLength front + c.utf8Size = byteLength (front ++ [c]) := by
        rw [byteLength_append]
        rfl
      have htext : front ++ c :: cs = (front ++ [c]) ++ cs := by simp
      rw [htext] at hdone ⊢
      rw [hfront]
      exact tokenizeFrom_isBoundary (front ++ [c]) cs done hdone
    · split
      · rename_i d' hscan
        refine ⟨fun ls h => ?_, fun d h => ?_⟩
        · cases h
        · cases h
          exact (scanToken_error_isBoundary hscan).shift front
      · rename_i s hscan
        have hlt := scanToken_rest_lt hscan
        have htext : front ++ c :: cs = (front ++ s.taken) ++ s.rest := by
          rw [List.append_assoc, scanToken_append hscan]
        rw [← byteLength_append]
        have hdone' : ∀ l ∈ (⟨s.token, byteLength front⟩ :: done : List Lexeme),
            IsBoundary (front ++ c :: cs) l.pos :=
          List.forall_mem_cons.mpr ⟨isBoundary_byteLength front (c :: cs), hdone⟩
        rw [htext] at hdone' ⊢
        exact tokenizeFrom_isBoundary (front ++ s.taken) s.rest _ hdone'
termination_by cs.length

end

section

variable {source : String}

/-- **Every token of a text stands at a boundary.** -/
theorem tokenize_isBoundary {ls : List Lexeme} (h : tokenize source = .ok ls) {l : Lexeme}
    (hl : l ∈ ls) : IsBoundary source.toList l.pos :=
  (tokenizeFrom_isBoundary [] source.toList [] (fun _ h => nomatch h)).1 ls h l hl

/-- **A text that cannot be cut into tokens is at fault at a boundary.** -/
theorem tokenize_error_isBoundary {d : Diagnostic} (h : tokenize source = .error d) :
    IsBoundary source.toList d.pos :=
  (tokenizeFrom_isBoundary [] source.toList [] (fun _ h => nomatch h)).2 d h

end

end ByteAtlas
