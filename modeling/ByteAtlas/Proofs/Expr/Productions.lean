import ByteAtlas.Proofs.Expr.Compilation
import ByteAtlas.Proofs.Expr.Scans

/-!
# Productions in place

Each production works on a range that stands for a span. If the means that it is handed compile
shorter ranges as their spans are compiled (`Calls.Agree`), it finds the shape of the span and
compiles the parts, and it does not slip: members (`Covers.fieldRef`), intrinsics
(`Covers.namedIntrinsic`), and expressions (`Covers.tryExpr`).
-/

namespace ByteAtlas

namespace InPlace

/-! ## 1. Steps that compile -/

section

variable {α β : Type}

/-- **Whether a step compiles something to a tree**, noting what is wrong with it. -/
def Compiles (step : Compiling α) (c : Compiled α) : Prop :=
  Does step (.ok c.tree) c.diagnostics

/-- **The same for a step that may break off**, once that has been noted. -/
def Reports (step : Compiling α) (fallback : α) (c : Compiled α) : Prop :=
  Compiles (report step fallback) c

variable {step : Compiling α} {rest : β → Compiling α} {before : Compiling β} {fallback a : α} {b : β}
  {d : Diagnostic} {noted : List Diagnostic} {c : Compiled α}

namespace Reports

theorem of_ok (h : Does step (.ok a) noted) : Reports step fallback ⟨a, noted⟩ :=
  h.catch_ok _

theorem of_error (h : Does step (.error d) noted) : Reports step fallback ⟨fallback, noted ++ [d]⟩ :=
  h.catch_error ((Does.note d).bind (.pure fallback))

theorem throw (fallback : α) (d : Diagnostic) :
    Reports (MonadExcept.throw d) fallback ⟨fallback, [d]⟩ :=
  of_error (.throw d)

theorem bind (hb : Does before (.ok b) noted) (h : Reports (rest b) fallback c) :
    Reports (before >>= rest) fallback ⟨c.tree, noted ++ c.diagnostics⟩ := by
  intro ds
  have hrun := h (ds ++ noted)
  rw [report, run_tryCatch] at hrun ⊢
  rw [run_bind, hb ds, ← List.append_assoc]
  exact hrun

/-- After a step that notes nothing. -/
theorem next (hb : Does before (.ok b) []) (h : Reports (rest b) fallback c) :
    Reports (before >>= rest) fallback c :=
  bind hb h

end Reports

/-- A tree of which a part has been compiled. -/
theorem Compiles.map {step : Compiling β} {c : Compiled β} (h : Compiles step c) (f : β → α) :
    Does (step >>= fun b => pure (f b)) (.ok (f c.tree)) c.diagnostics :=
  h.last (.pure (f c.tree))

end

variable {whole s : Span} {r : Range}

/-! ## 2. Arguments -/

/-- **The arguments of an intrinsic.** -/
theorem Covers.callArgs (h : Covers whole r s) :
    (s.callArgs? = none ∧ ∃ d, Does (callArgs whole r) (.error d) []) ∨
    ∃ ranges parts, s.callArgs? = some parts ∧ Does (InPlace.callArgs whole r) (.ok ranges) [] ∧
      AreParts whole ranges parts := by
  rw [InPlace.callArgs, Span.callArgs?, h.isEmpty]
  by_cases hs : s.lexemes = []
  · refine .inl ⟨?_, _, by rw [hs]; exact .throw _⟩
    simp [Span.enclosed?, hs, closesLast]
  have hempty : s.lexemes.isEmpty = false := by simpa using hs
  rw [hempty, if_neg (by decide)]
  have henclosed := h.isEnclosed hs .round
  cases hinner : s.enclosed? .round with
  | none =>
    rw [hinner] at henclosed
    exact .inl ⟨rfl, _, .next henclosed (.throw _)⟩
  | some inner =>
    rw [hinner] at henclosed
    obtain ⟨part, hpart, hcovers⟩ := h.inside hinner
    dsimp only
    rcases hcovers.commaParts with ⟨d, hparts, hsplit⟩ | ⟨ranges, parts, hparts, hsplit, hall⟩
    · exact .inl ⟨by rw [hparts]; rfl, d, .next henclosed (.next hpart hsplit)⟩
    · exact .inr ⟨ranges, parts, by rw [hparts]; rfl, .next henclosed (.next hpart hsplit), hall⟩

/-- A text has one token, or two. -/
theorem textArg?_of_length (hlength : 2 < s.length) : s.textArg? = none := by
  have short {ts : List Token} (h : s.lexemes.map Lexeme.token = ts) : s.length = ts.length := by
    rw [← h, List.length_map, Span.length]
  unfold Span.textArg?
  split
  · rename_i h
    exact absurd (short h) (by simp; omega)
  · rename_i h
    exact absurd (short h) (by simp; omega)
  · rename_i h
    exact absurd (short h) (by simp; omega)
  · rfl

/-- **A text as argument.** -/
theorem Covers.textArg (h : Covers whole r s) : Does (textArg whole r) (.ok s.textArg?) [] := by
  rw [InPlace.textArg, h.isEmpty, h.length]
  match hs : s.lexemes with
  | [] =>
    rw [Span.textArg?, hs]
    exact .pure _
  | [⟨t, _⟩] =>
    have hlength : s.length = 1 := by rw [Span.length, hs]; rfl
    refine .next (h.kind [] hs rfl) ?_
    rw [if_pos hlength, Span.textArg?, hs]
    cases t with
    | operator op => cases op <;> exact .pure _
    | _ => exact .pure _
  | [⟨t, _⟩, ⟨u, _⟩] =>
    have hlength : s.length = 2 := by rw [Span.length, hs]; rfl
    refine .next (h.kind [] hs rfl) ?_
    rw [if_neg (by omega)]
    by_cases hminus : t = .operator .sub
    · rw [if_pos ⟨hlength, hminus⟩, Span.textArg?, hs, hminus]
      refine .next (h.kind [_] hs rfl) ?_
      cases u <;> exact .pure _
    · have hnone : s.textArg? = none := by
        rw [Span.textArg?, hs]
        split <;> simp_all
      rw [if_neg fun hand => hminus hand.2, hnone]
      exact .pure _
  | l :: m :: n :: ls =>
    have hlong : 2 < s.length := by
      rw [Span.length, hs]
      simp
    refine .next (h.kind [] hs rfl) ?_
    rw [if_neg (by omega), if_neg (by omega), textArg?_of_length hlong]
    exact .pure _

/-! ## 3. Parts that are handed on -/

/-- **Whether the means at hand compile shorter ranges as their spans are compiled.** -/
structure Calls.Agree {n : Nat} (whole : Span) (calls : Calls n) : Prop where
  expr : ∀ {r : Range} {s : Span} (hr : r.length < n) (depth : Nat), Covers whole r s →
    Compiles (calls.expr r hr depth) (compileExpr s depth)
  query : ∀ {r : Range} {s : Span} (hr : r.length < n) (depth : Nat), Covers whole r s →
    Compiles (calls.query r hr depth) (compileQuery s depth)

section

variable {n depth : Nat} {calls : Calls n}

namespace Calls.Agree

theorem onExpr (ha : calls.Agree whole) (h : Covers whole r s) (hs : s.length < n) (depth : Nat) :
    Compiles (calls.onExpr r depth) (compileExpr s depth) := by
  have hr : r.length < n := by rw [h.length]; exact hs
  rw [Calls.onExpr, dif_pos hr]
  exact ha.expr hr depth h

theorem onQuery (ha : calls.Agree whole) (h : Covers whole r s) (hs : s.length < n) (depth : Nat) :
    Compiles (calls.onQuery r depth) (compileQuery s depth) := by
  have hr : r.length < n := by rw [h.length]; exact hs
  rw [Calls.onQuery, dif_pos hr]
  exact ha.query hr depth h

end Calls.Agree

/-! ## 4. Members -/

/-- Behind the tokens in front of the last one comes the last one. -/
theorem Covers.stop_concat (h : Covers whole r s) {front : List Lexeme} {l : Lexeme}
    (hs : s.lexemes = front ++ [l]) : r.stop = r.start + front.length + 1 := by
  rw [h.stop, Span.length, hs, List.length_append]
  rfl

/-- The index of the last token. -/
theorem Covers.last (h : Covers whole r s) {front : List Lexeme} {l : Lexeme}
    (hs : s.lexemes = front ++ [l]) : Does (minus r.stop 1) (.ok (r.start + front.length)) [] := by
  rw [h.stop_concat hs]
  exact does_minus (Nat.le_add_left 1 _)

/-- What stands before the last token, without a mark at the front. -/
theorem Covers.beforeLast (h : Covers whole r s) {front : List Lexeme} {l : Lexeme}
    (hs : s.lexemes = front ++ [l]) {marked : Prop} [Decidable marked]
    (hmarked : marked → front ≠ []) :
    ∃ hle : (if marked then r.start + 1 else r.start) ≤ r.start + front.length,
      Covers whole ⟨_, r.start + front.length, hle⟩ (if marked then s.tail else s).dropLast := by
  have hstop := h.stop_concat hs
  by_cases hm : marked
  · obtain ⟨f, front, rfl⟩ := List.exists_cons_of_ne_nil (hmarked hm)
    have hle : r.start + 1 ≤ r.start + (f :: front).length := by
      rw [List.length_cons]
      omega
    have htail : Covers whole ⟨r.start + 1, r.stop, by omega⟩ s.tail := h.tail hs rfl rfl
    simp only [hm, if_true]
    exact ⟨hle, htail.dropLast (by rw [Span.tail, hs]; rfl) rfl hstop.symm⟩
  · simp only [hm, if_false]
    exact ⟨Nat.le_add_right _ _, h.dropLast hs rfl hstop.symm⟩

/-- **The query before the name of a member.** -/
theorem Covers.fieldQuery (h : Covers whole r s) (ha : calls.Agree whole) (hn : s.length ≤ n) :
    (s.last? = none ∧ Does (fieldQuery whole calls r depth) (.ok none) []) ∨
    (∃ l, s.last? = some l ∧ l.token = .dot ∧
      Compiles (InPlace.fieldQuery whole calls r depth)
        (compileQuery? (some s.dropLast) (depth + 1))) ∨
    ∃ l, s.last? = some l ∧ l.token ≠ .dot ∧
      Does (InPlace.fieldQuery whole calls r depth)
        (.error ⟨l.pos, .badQuery .noDotBeforeField⟩) [] := by
  unfold InPlace.fieldQuery
  rw [h.isEmpty]
  rcases List.eq_nil_or_concat s.lexemes with hs | ⟨front, l, hs⟩
  · rw [Span.last?, hs]
    exact .inl ⟨rfl, .pure _⟩
  rw [List.concat_eq_append] at hs
  have hempty : s.lexemes.isEmpty = false := by simp [hs]
  have hlast : s.last? = some l := by rw [Span.last?, hs, List.getLast?_concat]
  have hkind := h.kind front hs rfl
  rw [hempty, if_neg (by decide)]
  refine .inr ?_
  by_cases hdot : l.token = .dot
  · have hle : r.start ≤ r.start + front.length := Nat.le_add_right _ _
    have hquery : Covers whole ⟨r.start, r.start + front.length, hle⟩ s.dropLast :=
      h.dropLast hs rfl (h.stop_concat hs).symm
    have hshorter : s.dropLast.length < n := by
      rw [Span.length, hs, List.length_append] at hn
      rw [Span.length, Span.dropLast, hs, List.dropLast_concat]
      exact hn
    refine .inl ⟨l, hlast, hdot, .next (h.last hs) (.next hkind ?_)⟩
    rw [if_pos hdot]
    exact .next (does_range hle) ((ha.onQuery hquery hshorter (depth + 1)).map some)
  · refine .inr ⟨l, hlast, hdot, .next (h.last hs) (.next hkind ?_)⟩
    rw [if_neg hdot, h.posAt_eq front hs rfl]
    exact .throw _

/-- **A member and the query before it.** -/
theorem Covers.fieldRef (h : Covers whole r s) (ha : calls.Agree whole) (hn : s.length ≤ n) :
    (∃ d, s.fieldRef = .error d ∧ Does (fieldRef whole calls r depth) (.error d) []) ∨
    ∃ ref, s.fieldRef = .ok ref ∧
      Does (InPlace.fieldRef whole calls r depth)
        (.ok ((compileQuery? ref.query (depth + 1)).tree, ref.name, ref.isOffset))
        (compileQuery? ref.query (depth + 1)).diagnostics := by
  unfold InPlace.fieldRef
  rw [h.isEmpty]
  rcases List.eq_nil_or_concat s.lexemes with hs | ⟨front, l, hs⟩
  · refine .inl ⟨⟨s.pos, .cannotParse⟩, by simp [Span.fieldRef, Span.last?, hs], ?_⟩
    rw [hs, h.posAt_start]
    exact .throw _
  rw [List.concat_eq_append] at hs
  have hempty : s.lexemes.isEmpty = false := by simp [hs]
  have hlast : s.last?.map Lexeme.token = some l.token := by
    rw [Span.last?, hs, List.getLast?_concat]
    rfl
  have hkind := h.kind front hs rfl
  obtain ⟨f, ls, hcons⟩ := List.exists_cons_of_ne_nil (show s.lexemes ≠ [] by simp [hs])
  have hfirst : s.first? = some f.token := by rw [Span.first?, hcons]; rfl
  rw [hempty, if_neg (by decide)]
  unfold Span.fieldRef
  cases ht : l.token with
  | name name =>
    have hmarked : f.token = .at → front ≠ [] := by
      rintro hf rfl
      rw [hs] at hcons
      cases hcons
      cases hf.symm.trans ht
    obtain ⟨hle, hbefore⟩ := h.beforeLast hs hmarked
    have hlength : (if f.token = .at then s.tail else s).dropLast.length ≤ n := by
      refine (Span.length_dropLast_le _).trans (le_trans ?_ hn)
      split
      · exact Span.length_tail_le s
      · exact Nat.le_refl _
    rw [ht] at hkind
    simp only [hlast, ht, hfirst, Option.some.injEq]
    rcases hbefore.fieldQuery ha hlength with ⟨hnone, hdoes⟩ | ⟨m, hm, hdot, hdoes⟩ |
      ⟨m, hm, hdot, hdoes⟩
    · rw [hnone]
      exact .inr ⟨_, rfl, .next (h.last hs) (.next hkind (.next (h.kind [] hcons rfl)
        (.next (h.last hs) (.next (does_range hle) (.next hdoes (.pure _))))))⟩
    · rw [hm]
      simp only [hdot, if_true]
      refine .inr ⟨_, rfl, .next (h.last hs) (.next hkind (.next (h.kind [] hcons rfl)
        (.next (h.last hs) (.next (does_range hle) ?_))))⟩
      exact hdoes.map fun q => (q, name, _)
    · rw [hm]
      simp only [hdot, if_false]
      exact .inl ⟨_, rfl, .next (h.last hs) (.next hkind (.next (h.kind [] hcons rfl)
        (.next (h.last hs) (.next (does_range hle) (.stop hdoes)))))⟩
  | _ =>
    rw [hlast, ht]
    refine .inl ⟨_, rfl, .next (h.last hs) (.next hkind ?_)⟩
    rw [ht, h.posAt_start]
    exact .throw _

/-! ## 5. Intrinsics -/

/-- The tree of a shape, or what is wrong. -/
def compiledShape (depth : Nat) : Except Diagnostic ExprShape → Compiled Expr
  | .error d => ⟨.error, [d]⟩
  | .ok sh => sh.compiled depth

/-- The arguments, with another diagnostic in the place of any that scanning them gives. -/
theorem Covers.blame_callArgs (h : Covers whole r s) (d : Diagnostic) :
    (s.callArgs? = none ∧ Does (blame (InPlace.callArgs whole r) d) (.error d) []) ∨
    ∃ ranges parts, s.callArgs? = some parts ∧
      Does (blame (InPlace.callArgs whole r) d) (.ok ranges) [] ∧ AreParts whole ranges parts := by
  rcases h.callArgs with ⟨hnone, d', herror⟩ | ⟨ranges, parts, hsome, hok, hparts⟩
  · exact .inl ⟨hnone, herror.catch_error (.throw d)⟩
  · exact .inr ⟨ranges, parts, hsome, hok.catch_ok _, hparts⟩

/-- The shape of a comparison of a member's preview with a text. -/
def previewTestShape (badArgs : Diagnostic) (field text : Span) (invert : Bool) :
    Except Diagnostic ExprShape :=
  if field.first? = some .at then .error badArgs
  else
    match field.fieldRef with
    | .error d => .error d
    | .ok ref =>
      .ok (.previewTest ref
        (match text.textArg? with
          | some t => .ok t
          | none => .error badArgs)
        invert)

theorem Covers.previewTest {field text : Span} {fieldRange textRange : Range}
    (hfield : Covers whole fieldRange field) (htext : Covers whole textRange text)
    (ha : calls.Agree whole) (hn : field.length ≤ n) {t : Token}
    (hkind : Does (InPlace.kind whole fieldRange.start) (.ok t) [])
    (hat : t = .at ↔ field.first? = some .at) (badArgs : Diagnostic) (invert : Bool) :
    Reports (previewTest whole calls badArgs fieldRange textRange invert (depth + 1)) .error
      (compiledShape depth (previewTestShape badArgs field text invert)) := by
  refine .next hkind ?_
  unfold previewTestShape
  by_cases hmark : t = .at
  · rw [if_pos hmark, if_pos (hat.mp hmark)]
    exact .throw _ _
  rw [if_neg hmark, if_neg fun h => hmark (hat.mpr h)]
  rcases hfield.fieldRef ha hn with ⟨d, herror, hdoes⟩ | ⟨ref, hok, hdoes⟩
  · rw [herror]
    exact .of_error (.stop hdoes)
  · rw [hok]
    have htext := htext.textArg
    cases hspec : text.textArg? with
    | some t =>
      rw [hspec] at htext
      exact .of_ok (hdoes.last (.next htext (.pure _)))
    | none =>
      rw [hspec] at htext
      exact .of_error (hdoes.last (.next htext (.throw _)))

theorem Covers.element {field index : Span} {fieldRange indexRange : Range}
    (hfield : Covers whole fieldRange field) (hindex : Covers whole indexRange index)
    (ha : calls.Agree whole) (hf : field.length ≤ n) (hi : index.length < n) :
    Reports (element whole calls fieldRange indexRange (depth + 1)) .error
      (compiledShape depth
        (match field.fieldRef with
        | .error d => .error d
        | .ok ref => .ok (.element ref index))) := by
  rcases hfield.fieldRef ha hf with ⟨d, herror, hdoes⟩ | ⟨ref, hok, hdoes⟩
  · rw [herror]
    exact .of_error (.stop hdoes)
  · rw [hok]
    refine .of_ok (hdoes.bind ?_)
    exact (ha.onExpr hindex hi (depth + 1)).map fun e => Expr.member _ _ (some e) _

/-- **An intrinsic of a name.** -/
theorem Covers.namedIntrinsic (h : Covers whole r s) (ha : calls.Agree whole) (hn : s.length < n)
    (pos : Nat) (name : String) :
    Reports (namedIntrinsic whole calls pos name r depth) .error
      (compiledShape depth (intrinsicShape pos name s)) := by
  unfold InPlace.namedIntrinsic intrinsicShape
  have hshorter {parts : List Span} {part : Span} (hparts : s.callArgs? = some parts)
      (hpart : part ∈ parts) : part.length < n :=
    (Span.callArgs?_length_lt hparts hpart).trans hn
  dsimp only
  cases hname : IntType.ofName? name with
  | some type => exact .of_ok ((ha.onExpr h hn (depth + 1)).map (Expr.rawRead type))
  | none =>
    dsimp only
    split
    · rcases h.blame_callArgs ⟨pos, .badIntrinsicArgs name⟩ with ⟨hnone, hargs⟩ |
        ⟨_, _, hsome, hargs, hcovers, hfirst⟩
      · rw [hnone]
        exact .of_error (.stop hargs)
      · rw [hsome]
        refine .next hargs ?_
        cases hcovers with
        | nil => exact .throw _ _
        | @cons fieldRange field _ _ hfield hrest =>
          cases hrest with
          | nil => exact .throw _ _
          | cons htext hrest =>
            cases hrest with
            | cons _ _ => exact .throw _ _
            | nil =>
              obtain ⟨t, hkind, hat⟩ := hfirst _ rfl
              have hlength := hshorter hsome List.mem_cons_self
              exact hfield.previewTest htext ha (Nat.le_of_lt hlength) hkind (hat _ rfl) _ _
    split
    · rcases h.blame_callArgs ⟨pos, .badIntrinsicArgs name⟩ with ⟨hnone, hargs⟩ |
        ⟨_, _, hsome, hargs, hcovers, -⟩
      · rw [hnone]
        exact .of_error (.stop hargs)
      · rw [hsome]
        refine .next hargs ?_
        cases hcovers with
        | nil => exact .throw _ _
        | cons hfield hrest =>
          cases hrest with
          | nil => exact .throw _ _
          | cons hindex hrest =>
            cases hrest with
            | cons _ _ => exact .throw _ _
            | nil =>
              have hf := hshorter hsome List.mem_cons_self
              have hi := hshorter hsome (List.mem_cons_of_mem _ List.mem_cons_self)
              exact hfield.element hindex ha (Nat.le_of_lt hf) hi
    split
    · rcases h.blame_callArgs ⟨pos, .badIntrinsicArgs name⟩ with ⟨hnone, hargs⟩ |
        ⟨_, _, hsome, hargs, hcovers, -⟩
      · rw [hnone]
        exact .of_error (.stop hargs)
      · rw [hsome]
        refine .next hargs ?_
        cases hcovers with
        | nil => exact .of_ok (.pure _)
        | cons hquery hrest =>
          cases hrest with
          | cons _ _ => exact .throw _ _
          | nil =>
            have hlength := hshorter hsome List.mem_cons_self
            exact .of_ok ((ha.onQuery hquery hlength (depth + 1)).map fun q =>
              Expr.instanceId (some q))
    · exact .throw _ _

/-- **An intrinsic**, of which the first token has been seen. -/
theorem Covers.intrinsic (h : Covers whole r s) (ha : calls.Agree whole) (hn : s.length ≤ n)
    (hfirst : s.first? = some .dollar) :
    Reports (intrinsic whole calls r depth) .error (compiledShape depth (operandShape s)) := by
  unfold InPlace.intrinsic operandShape
  rw [h.length, h.posAt_start]
  match hs : s.lexemes with
  | [] => simp [Span.first?, hs] at hfirst
  | [⟨t, p⟩] =>
    obtain rfl : t = .dollar := by simpa [Span.first?, hs] using hfirst
    rw [if_pos (by rw [Span.length, hs]; exact Nat.one_lt_two)]
    exact .throw _ _
  | ⟨t, p⟩ :: ⟨u, p'⟩ :: ls =>
    obtain rfl : t = .dollar := by simpa [Span.first?, hs] using hfirst
    have hlength : s.length = ls.length + 2 := by rw [Span.length, hs]; rfl
    rw [if_neg (by omega)]
    refine .next (h.kind [_] hs rfl) ?_
    cases u with
    | name name =>
      have hle : r.start + 2 ≤ r.stop := by rw [h.stop]; omega
      have htail : Covers whole ⟨r.start + 1, r.stop, by omega⟩ s.tail := h.tail hs rfl rfl
      have hrest : Covers whole ⟨r.start + 2, r.stop, hle⟩ s.tail.tail :=
        htail.tail (by rw [Span.tail, hs]; rfl) rfl rfl
      have hshorter : s.tail.tail.length < n := by
        have hlt := Span.length_tail_lt (s := s) (by simp [hs])
        have hle := Span.length_tail_le s.tail
        omega
      exact .next (does_range hle) (hrest.namedIntrinsic ha hshorter s.pos name)
    | _ => exact .throw _ _

/-! ## 6. Expressions -/

/-- The shape of a member, or of the offset of a struct. -/
def memberOrOffsetShape (s : Span) : Except Diagnostic ExprShape :=
  match (s.lexemes.map Lexeme.token).getLast? with
  | some (.name _) => s.fieldRef.map ExprShape.member
  | _ =>
    if s.first? = some .at then .ok (.structOffset s.tail) else .error ⟨s.pos, .cannotParse⟩

theorem Covers.memberOrOffset (h : Covers whole r s) (ha : calls.Agree whole) (hn : s.length ≤ n)
    {t : Token} (hfirst : s.first? = some t) :
    Reports (memberOrOffset whole calls t r depth) .error
      (compiledShape depth (memberOrOffsetShape s)) := by
  obtain ⟨f, hhead, hf⟩ := Option.map_eq_some_iff.mp hfirst
  obtain ⟨ls, hcons⟩ := List.head?_eq_some_iff.mp hhead
  rcases List.eq_nil_or_concat s.lexemes with hs | ⟨front, l, hs⟩
  · rw [hs] at hcons
    cases hcons
  rw [List.concat_eq_append] at hs
  have hlast : (s.lexemes.map Lexeme.token).getLast? = some l.token := by simp [hs]
  unfold InPlace.memberOrOffset memberOrOffsetShape
  refine .next (h.last hs) (.next (h.kind front hs rfl) ?_)
  rw [hlast]
  have other : Reports
      (if t = .at then do
        let query ← calls.onQuery (← range (r.start + 1) r.stop) (depth + 1)
        pure (Expr.structOffset query)
      else throw ⟨posAt whole r.start, .cannotParse⟩) .error
      (compiledShape depth
        (if s.first? = some .at then .ok (.structOffset s.tail)
          else .error ⟨s.pos, .cannotParse⟩)) := by
    rw [hfirst]
    by_cases hat : t = .at
    · have hle : r.start + 1 ≤ r.stop := by
        rw [h.stop, Span.length, hcons, List.length_cons]
        omega
      have htail : Covers whole ⟨r.start + 1, r.stop, hle⟩ s.tail := h.tail hcons rfl rfl
      have hshorter : s.tail.length < n :=
        Nat.lt_of_lt_of_le (Span.length_tail_lt (by simp [hcons])) hn
      rw [if_pos hat, if_pos (congrArg some hat)]
      exact .next (does_range hle)
        (.of_ok ((ha.onQuery htail hshorter (depth + 1)).map Expr.structOffset))
    · rw [if_neg hat, if_neg fun heq => hat (Option.some.inj heq), h.posAt_start]
      exact .throw _ _
  cases l.token with
  | name name =>
    rcases h.fieldRef ha hn with ⟨d, herror, hdoes⟩ | ⟨ref, hok, hdoes⟩
    · simp only [herror]
      exact .of_error (.stop hdoes)
    · simp only [hok]
      exact .of_ok (hdoes.last (.pure _))
  | _ => exact other

/-- **What no operator cuts.** -/
theorem Covers.operand (h : Covers whole r s) (ha : calls.Agree whole) (hn : s.length ≤ n)
    (hne : s.lexemes ≠ []) :
    Reports (operand whole calls r depth) .error (compiledShape depth (operandShape s)) := by
  obtain ⟨ls, stop⟩ := s
  obtain ⟨⟨t, p⟩, ls, rfl⟩ := List.exists_cons_of_ne_nil hne
  have hle : r.start + 1 ≤ r.stop := by
    rw [h.stop]
    simp [Span.length]
  have htail : Covers whole ⟨r.start + 1, r.stop, hle⟩ ⟨ls, stop⟩ := h.tail rfl rfl rfl
  have hshorter : (⟨ls, stop⟩ : Span).length < n := hn
  refine .next (h.kind [] rfl rfl) ?_
  cases t with
  | operator op =>
    cases op with
    | sub =>
      exact .next (does_range hle)
        (.of_ok ((ha.onExpr htail hshorter (depth + 1)).map (Expr.unary .negate)))
    | _ => exact h.memberOrOffset ha hn rfl
  | tilde =>
    exact .next (does_range hle)
      (.of_ok ((ha.onExpr htail hshorter (depth + 1)).map (Expr.unary .invert)))
  | dollar => exact h.intrinsic ha hn rfl
  | _ => exact h.memberOrOffset ha hn rfl

/-- What is left of the shape of an expression that is not a mere integer. -/
theorem exprShape_of_not_int (hne : s.lexemes ≠ [])
    (hint : ∀ v, s.lexemes.map Lexeme.token ≠ [.int v]) :
    exprShape s =
      match s.enclosed? .round with
      | some inner => .ok (.enclosed inner)
      | none =>
        match s.atWeakest with
        | .error d => .error d
        | .ok (some b) => .ok (.binary b.op b.left b.right)
        | .ok none => operandShape s := by
  unfold exprShape
  split
  · rename_i h
    exact absurd (List.map_eq_nil_iff.mp h) hne
  · rename_i v h
    exact absurd h (hint v)
  · rfl

/-- **An expression.** -/
theorem Covers.tryExpr (h : Covers whole r s) (ha : calls.Agree whole) (hn : s.length ≤ n) :
    Reports (tryExpr whole calls r depth) .error (compileExpr s depth) := by
  unfold InPlace.tryExpr
  rw [compileExpr_eq, h.posAt_start, h.isEmpty, h.length]
  split
  · exact .throw _ _
  show Reports _ .error (compiledShape depth (exprShape s))
  by_cases hs : s.lexemes = []
  · have hshape : exprShape s = .error ⟨s.pos, .emptyExpr⟩ := by
      rw [exprShape, hs]
      rfl
    rw [hs, hshape]
    exact .throw _ _
  obtain ⟨l, ls, hcons⟩ := List.exists_cons_of_ne_nil hs
  have hempty : s.lexemes.isEmpty = false := by simp [hcons]
  have hlength : s.length = ls.length + 1 := by rw [Span.length, hcons]; rfl
  rw [hempty, if_neg (by decide)]
  refine .next (h.kind [] hcons rfl) ?_
  by_cases hint : ∃ v, s.lexemes.map Lexeme.token = [.int v]
  · obtain ⟨v, hv⟩ := hint
    have hshape : exprShape s = .ok (.constant v) := by
      rw [exprShape, hv]
    rw [hcons, List.map_cons, List.cons.injEq, List.map_eq_nil_iff] at hv
    obtain ⟨hl, rfl⟩ := hv
    rw [hshape, if_pos (show s.length = 1 from hlength), hl]
    exact .of_ok (.pure _)
  have hvalue : (if s.length = 1 then intValue? l.token else none) = none := by
    split
    · rename_i hone
      have hls : ls = [] := List.length_eq_zero_iff.mp (by omega)
      cases ht : l.token with
      | int v => exact absurd ⟨v, by rw [hcons, hls, List.map_cons, ht]; rfl⟩ hint
      | _ => rfl
    · rfl
  rw [hvalue, exprShape_of_not_int hs fun v hv => hint ⟨v, hv⟩]
  have henclosed := h.isEnclosed hs .round
  cases hinner : s.enclosed? .round with
  | some inner =>
    rw [hinner] at henclosed
    obtain ⟨part, hpart, hcovers⟩ := h.inside hinner
    have hshorter := Nat.lt_of_lt_of_le (Span.enclosed?_length_lt hinner) hn
    exact .next henclosed (.next hpart (.of_ok (ha.onExpr hcovers hshorter (depth + 1))))
  | none =>
    rw [hinner] at henclosed
    refine .next henclosed ?_
    rcases h.atWeakest with ⟨d, hcut, hdoes⟩ | ⟨hcut, hdoes⟩ |
      ⟨before, m, op, after, hsplit, hcut, hdoes⟩
    · rw [hcut]
      exact .of_error (.stop hdoes)
    · rw [hcut]
      exact .next hdoes (h.operand ha hn hs)
    · rw [hcut]
      have hbehind : r.start + before.length + 1 ≤ r.stop := by
        rw [h.stop, Span.length, hsplit, List.length_append, List.length_cons]
        omega
      have hbefore : r.start ≤ r.start + before.length := Nat.le_add_right _ _
      obtain ⟨hleft, hright⟩ : Covers whole ⟨r.start, r.start + before.length, hbefore⟩ _ ∧
          Covers whole ⟨r.start + before.length + 1, r.stop, hbehind⟩ _ :=
        h.around before hsplit rfl rfl rfl rfl
      obtain ⟨hl, hr⟩ := Span.atWeakest_length_lt hcut
      exact .next hdoes (.next (does_range hbefore) (.of_ok
        ((ha.onExpr hleft (hl.trans_le hn) depth).bind (.next (does_range hbehind)
          ((ha.onExpr hright (hr.trans_le hn) depth).map fun e => Expr.binary op _ e)))))

end

end InPlace

end ByteAtlas
