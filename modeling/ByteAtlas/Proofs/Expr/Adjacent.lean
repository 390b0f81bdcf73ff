import ByteAtlas.Proofs.Expr.Literals
import ByteAtlas.Proofs.Expr.Boundaries

/-!
# Texts behind each other

A blank ends every token, except within quotes. So a text that is cut into tokens without an error
is cut into the same ones if a blank and any other text follow it, and the other text is cut as if
it stood alone: its tokens, or its error, come so many bytes later (`tokenizeFrom_append`,
`tokenizeFrom_eq_later`).
-/

namespace ByteAtlas

/-! ## 1. Blanks -/

/-- Whether every token ends before a text: at the end, or at a blank. -/
def endsToken : List Char → Bool
  | [] => true
  | c :: _ => isBlank c

def blanks : List Char := [' ', '\t', '\n', '\x0c', '\r']

theorem mem_blanks {c : Char} (hc : isBlank c = true) : c ∈ blanks := by
  simpa [isBlank, blanks, or_assoc] using hc

/-- What no blank is. -/
theorem eq_false_of_isBlank {p : Char → Bool} (hp : (blanks.all fun c => !p c) = true) {c : Char}
    (hc : isBlank c = true) : p c = false := by
  simpa using List.all_eq_true.mp hp c (mem_blanks hc)

theorem ne_of_isBlank {c x : Char} (hc : isBlank c = true) (hx : (blanks.all (· != x)) = true) :
    c ≠ x := by
  simpa using List.all_eq_true.mp hx c (mem_blanks hc)

/-! ## 2. Single tokens -/

section

variable {rest : List Char} (hrest : endsToken rest = true)
include hrest

/-- Characters that are no blanks are taken off a text up to its end. -/
theorem takeWhile_append_endsToken {p : Char → Bool} (hp : (blanks.all fun c => !p c) = true)
    (cs : List Char) : (cs ++ rest).takeWhile p = cs.takeWhile p ∧
      (cs ++ rest).dropWhile p = cs.dropWhile p ++ rest := by
  induction cs with
  | nil =>
    cases rest with
    | nil => exact ⟨rfl, rfl⟩
    | cons c rest => simp [eq_false_of_isBlank hp hrest]
  | cons d cs ih => cases hd : p d <;> simp [hd, ih.1, ih.2]

theorem scanName_append_endsToken {cs : List Char} {n : ScanName} (h : scanName cs = .ok n) :
    scanName (cs ++ rest) = .ok { n with rest := n.rest ++ rest } := by
  unfold scanName at h
  split at h
  · rename_i cs
    split at h
    · cases h
    · rename_i q after hq
      cases h
      have hsplit := congrArg List.length
        (List.takeWhile_append_dropWhile (p := (· != '"')) (l := cs))
      rw [List.length_append, hq, List.length_cons] at hsplit
      have htake : (cs ++ rest).takeWhile (· != '"') = cs.takeWhile (· != '"') := by
        rw [List.takeWhile_append, if_neg (by omega)]
      have hdrop : (cs ++ rest).dropWhile (· != '"') = q :: (after ++ rest) := by
        rw [List.dropWhile_append, hq]
        rfl
      rw [List.cons_append, scanName]
      simp only [htake, hdrop]
  · rename_i hquote
    cases h
    obtain ⟨htake, hdrop⟩ := takeWhile_append_endsToken hrest (p := isWordChar) rfl cs
    have hunquoted (more : List Char) : cs ++ rest ≠ '"' :: more := by
      intro heq
      cases cs with
      | nil =>
        cases rest with
        | nil => cases heq
        | cons c rest => exact ne_of_isBlank hrest rfl (List.cons.inj heq).1
      | cons c cs => exact hquote cs (by rw [(List.cons.inj heq).1])
    unfold scanName
    split
    · rename_i more heq
      exact absurd heq (hunquoted more)
    · rw [htake, hdrop]

theorem scanInt_append_endsToken {base : Nat} {lead cs : List Char} {p : Char → Bool}
    (hp : (blanks.all fun c => !p c) = true) {s : Scan} (h : scanInt base lead p cs = .ok s) :
    scanInt base lead p (cs ++ rest) = .ok { s with rest := s.rest ++ rest } := by
  obtain ⟨htake, hdrop⟩ := takeWhile_append_endsToken hrest hp cs
  unfold scanInt at h ⊢
  simp only [htake, hdrop] at h ⊢
  cases hend : cs.dropWhile p with
  | nil =>
    simp only [hend] at h
    cases h
    cases rest with
    | nil => rfl
    | cons c rest => simp [eq_false_of_isBlank (p := isWordStart) rfl hrest]
  | cons c after =>
    simp only [hend] at h
    split at h
    · cases h
    · rename_i hc
      cases h
      simp [hc]

theorem scanHex_append_endsToken {lead cs : List Char} {s : Scan} (h : scanHex lead cs = .ok s) :
    scanHex lead (cs ++ rest) = .ok { s with rest := s.rest ++ rest } := by
  cases cs with
  | nil => cases h
  | cons c cs =>
    rw [scanHex] at h
    rw [List.cons_append, scanHex]
    by_cases hc : isHexDigit c = true
    · rw [if_pos hc] at h ⊢
      exact scanInt_append_endsToken hrest rfl h
    · rw [if_neg hc] at h
      cases h

theorem scanStructName_append_endsToken {marks cs : List Char} {isGlobal : Bool} {s : Scan}
    (h : scanStructName marks isGlobal cs = .ok s) :
    scanStructName marks isGlobal (cs ++ rest) = .ok { s with rest := s.rest ++ rest } := by
  have hstarts : startsName (cs ++ rest) = startsName cs := by
    cases cs with
    | nil =>
      cases rest with
      | nil => rfl
      | cons c rest => exact eq_false_of_isBlank (p := fun c => isWordStart c || c == '"') rfl hrest
    | cons c cs => rfl
  unfold scanStructName at h ⊢
  rw [hstarts]
  split at h
  · rename_i hname
    rw [if_pos hname]
    split at h
    · cases h
    · rename_i n hn
      split at h
      · cases h
      · rename_i hne
        cases h
        rw [scanName_append_endsToken hrest hn]
        exact if_neg hne
  · rename_i hname
    rw [if_neg hname]
    split at h
    · cases h
    · rename_i hlocal
      cases h
      exact if_neg hlocal

theorem stripFront_append_endsToken {text : List Char}
    (htext : (text.all fun c => !isBlank c) = true) (cs : List Char) :
    stripFront text (cs ++ rest) = (stripFront text cs).map (· ++ rest) := by
  induction text generalizing cs with
  | nil => simp [stripFront]
  | cons t text ih =>
    rw [List.all_cons, Bool.and_eq_true, Bool.not_eq_true'] at htext
    cases cs with
    | nil =>
      cases rest with
      | nil => rfl
      | cons c rest =>
        have hne : t ≠ c := by
          rintro rfl
          rw [show isBlank t = true from hrest] at htext
          cases htext.1
        simp [stripFront, hne]
    | cons c cs =>
      rw [List.cons_append, stripFront, stripFront]
      split
      · exact ih htext.2 cs
      · rfl

theorem firstSymbol_append_endsToken {table : List (List Char × Token)}
    (htable : (table.all fun e => e.1.all fun c => !isBlank c) = true) (cs : List Char) :
    firstSymbol (cs ++ rest) table =
      (firstSymbol cs table).map fun s => { s with rest := s.rest ++ rest } := by
  induction table with
  | nil => rfl
  | cons e table ih =>
    rw [List.all_cons, Bool.and_eq_true] at htable
    rw [firstSymbol, firstSymbol, stripFront_append_endsToken hrest htable.1]
    cases stripFront e.1 cs with
    | none => exact ih htable.2
    | some after => rfl

theorem scanSymbol_append_endsToken {c : Char} {cs : List Char} {s : Scan}
    (h : scanSymbol c cs = .ok s) :
    scanSymbol c (cs ++ rest) = .ok { s with rest := s.rest ++ rest } := by
  have hsymbols : firstSymbol (c :: cs ++ rest) symbols = _ :=
    firstSymbol_append_endsToken hrest rfl (c :: cs)
  unfold scanSymbol at h ⊢
  rw [← List.cons_append, hsymbols]
  cases hfirst : firstSymbol (c :: cs) symbols with
  | none =>
    rw [hfirst] at h
    cases h
  | some s' =>
    rw [hfirst] at h
    cases h
    rfl

/-- **A token stays as it is** if a blank is put behind its text. -/
theorem scanToken_append_endsToken {c : Char} {cs : List Char} {s : Scan}
    (h : scanToken c cs = .ok s) :
    scanToken c (cs ++ rest) = .ok { s with rest := s.rest ++ rest } := by
  have hnot {x : Char} (hx : (blanks.all (· != x)) = true) {more : List Char}
      (hcs : ∀ ds, cs ≠ x :: ds) : cs ++ rest ≠ x :: more := by
    intro heq
    cases cs with
    | nil =>
      cases rest with
      | nil => cases heq
      | cons d rest => exact ne_of_isBlank hrest hx (List.cons.inj heq).1
    | cons d cs => exact hcs cs (by rw [(List.cons.inj heq).1])
  unfold scanToken at h ⊢
  split at h
  · rename_i hd
    rw [if_pos hd]
    split at h
    · exact scanHex_append_endsToken hrest h
    · exact scanHex_append_endsToken hrest h
    · rename_i hx hX
      split
      · rename_i heq
        exact absurd heq (hnot rfl fun ds => hx ds rfl)
      · rename_i heq
        exact absurd heq (hnot rfl fun ds => hX ds rfl)
      · exact scanInt_append_endsToken hrest rfl h
  · rename_i hd
    rw [if_neg hd]
    split at h
    · rename_i hw
      rw [if_pos hw]
      split at h
      · cases h
      · rename_i n hn
        cases h
        have hname := scanName_append_endsToken hrest hn
        rw [List.cons_append] at hname
        rw [hname]
    · rename_i hw
      rw [if_neg hw]
      split at h
      · rename_i hhash
        rw [if_pos hhash]
        split at h
        · exact scanStructName_append_endsToken hrest h
        · rename_i hmark
          split
          · rename_i heq
            exact absurd heq (hnot rfl hmark)
          · exact scanStructName_append_endsToken hrest h
      · rename_i hhash
        rw [if_neg hhash]
        exact scanSymbol_append_endsToken hrest h

end

/-! ## 3. Whole texts -/

theorem tokenizeFrom_of_error {c : Char} {cs : List Char} {d : Diagnostic} (hc : ¬isBlank c = true)
    (hs : scanToken c cs = .error d) (pos : Nat) (done : List Lexeme) :
    tokenizeFrom pos (c :: cs) done = .error (d.shift pos) := by
  rw [tokenizeFrom, if_neg hc]
  split
  · rename_i hd
    cases hs.symm.trans hd
    rfl
  · rename_i hok
    cases hs.symm.trans hok

theorem tokenizeFrom_of_ok {c : Char} {cs : List Char} {s : Scan} (hc : ¬isBlank c = true)
    (hs : scanToken c cs = .ok s) (pos : Nat) (done : List Lexeme) :
    tokenizeFrom pos (c :: cs) done =
      tokenizeFrom (pos + byteLength s.taken) s.rest (⟨s.token, pos⟩ :: done) := by
  rw [tokenizeFrom, if_neg hc]
  split
  · rename_i hd
    cases hs.symm.trans hd
  · rename_i hok
    cases hs.symm.trans hok
    rfl

/-- Blanks in front of a text. -/
theorem tokenizeFrom_blanks {gap : List Char} (hgap : ∀ c ∈ gap, isBlank c = true) (pos : Nat)
    (cs : List Char) (done : List Lexeme) :
    tokenizeFrom pos (gap ++ cs) done = tokenizeFrom (pos + byteLength gap) cs done := by
  induction gap generalizing pos with
  | nil => rfl
  | cons c gap ih =>
    obtain ⟨hc, hgap⟩ := List.forall_mem_cons.mp hgap
    rw [List.cons_append, tokenizeFrom, if_pos hc, ih hgap, Nat.add_assoc]
    rfl

/-- A token that stands so many bytes later. -/
def Lexeme.shift (l : Lexeme) (bytes : Nat) : Lexeme := { l with pos := bytes + l.pos }

/-- What a text is cut into that stands so many bytes later, behind some tokens. -/
def later (before : List Lexeme) (bytes : Nat) :
    Except Diagnostic (List Lexeme) → Except Diagnostic (List Lexeme)
  | .error d => .error (d.shift bytes)
  | .ok ls => .ok (before ++ ls.map (·.shift bytes))

/-- Where a text stands and what comes before makes no difference to how it is cut. -/
theorem tokenizeFrom_shift (done : List Lexeme) (bytes pos : Nat) (cs : List Char)
    (found : List Lexeme) : tokenizeFrom (bytes + pos) cs (found.map (·.shift bytes) ++ done) =
      later done.reverse bytes (tokenizeFrom pos cs found) := by
  induction pos, cs, found using tokenizeFrom.induct with
  | case1 pos found => simp [tokenizeFrom, later]
  | case2 pos found c cs hc ih =>
    rw [tokenizeFrom, tokenizeFrom, if_pos hc, if_pos hc, Nat.add_assoc, ih]
  | case3 pos found c cs hc d hd =>
    rw [tokenizeFrom_of_error hc hd, tokenizeFrom_of_error hc hd]
    simp [later, Diagnostic.shift, Nat.add_assoc]
  | case4 pos found c cs hc s hs ih =>
    rw [tokenizeFrom_of_ok hc hs, tokenizeFrom_of_ok hc hs, Nat.add_assoc, ← ih]
    rfl

theorem tokenizeFrom_eq_later (pos : Nat) (cs : List Char) (done : List Lexeme) :
    tokenizeFrom pos cs done = later done.reverse pos (tokenizeFrom 0 cs []) :=
  tokenizeFrom_shift done pos 0 cs []

/-- **A text behind a blank is cut as if nothing stood before it**, by induction on what stands
before. -/
theorem tokenizeFrom_append {rest : List Char} (hrest : endsToken rest = true) (pos : Nat)
    (cs : List Char) (done : List Lexeme) {ls : List Lexeme}
    (h : tokenizeFrom pos cs done = .ok ls) :
    tokenizeFrom pos (cs ++ rest) done = tokenizeFrom (pos + byteLength cs) rest ls.reverse := by
  induction pos, cs, done using tokenizeFrom.induct with
  | case1 pos done =>
    rw [tokenizeFrom] at h
    cases h
    rw [List.reverse_reverse]
    rfl
  | case2 pos done c cs hc ih =>
    rw [tokenizeFrom, if_pos hc] at h
    rw [List.cons_append, tokenizeFrom, if_pos hc, ih h, Nat.add_assoc]
    rfl
  | case3 pos done c cs hc d hd =>
    rw [tokenizeFrom_of_error hc hd] at h
    cases h
  | case4 pos done c cs hc s hs ih =>
    rw [tokenizeFrom_of_ok hc hs] at h
    have htext := congrArg byteLength (scanToken_append hs)
    rw [byteLength_append] at htext
    rw [List.cons_append, tokenizeFrom_of_ok hc (scanToken_append_endsToken hrest hs), ih h,
      Nat.add_assoc, htext]

/-- What has been found in front stays in front. -/
theorem tokenizeFrom_eq_ok {pos : Nat} {cs : List Char} {done ls : List Lexeme}
    (h : tokenizeFrom pos cs done = .ok ls) : ∃ more, ls = done.reverse ++ more := by
  rw [tokenizeFrom_eq_later] at h
  cases hcs : tokenizeFrom 0 cs [] with
  | error d =>
    rw [hcs] at h
    cases h
  | ok more =>
    rw [hcs] at h
    cases h
    exact ⟨_, rfl⟩

end ByteAtlas
