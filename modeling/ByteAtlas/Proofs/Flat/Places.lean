import ByteAtlas.Proofs.Flat.Fresh
import ByteAtlas.Proofs.Resolve.Known

/-!
# Values are read where the fields are

In flat definitions an element of a field is read where the field starts, and as many elements
further as come before it (`Workspace.Consulted.value_at_offset`). Where the expression for an
offset depends on later fields this may fail: a field whose value it asks for may ask for the field
in turn, while its offset is not known yet.
-/

namespace ByteAtlas

namespace Reading

variable {g : Reading}

/-- **Elements lie in a row.** -/
theorem getElem?_readOn (m k : Nat) (p : Array Element × Int64) {e : Element}
    (he : (g.readOn m p).1[p.1.size + k]? = some e) :
    e = g.next (p.1, p.2 + Int64.ofNat k * Int64.ofNat g.type.size) := by
  induction m generalizing p k with
  | zero =>
    rw [readOn_zero, Array.getElem?_eq_none (Nat.le_add_right _ _)] at he
    cases he
  | succ m ih =>
    cases hnext : g.hasNext p with
    | false =>
      rw [readOn_of_end hnext, Array.getElem?_eq_none (Nat.le_add_right _ _)] at he
      cases he
    | true =>
      rw [readOn_succ hnext] at he
      cases k with
      | zero =>
        obtain ⟨rest, hrest⟩ := prefix_readOn (g := g) m (g.advance p)
        have hlt : p.1.size < (g.advance p).1.toList.length := by
          rw [Array.length_toList, advance, Array.size_push]
          exact Nat.lt_succ_self _
        rw [Nat.add_zero, ← Array.getElem?_toList, ← hrest, List.getElem?_append_left hlt, advance,
          Array.getElem?_toList, Array.getElem?_push_size] at he
        cases he
        simp [next]
      | succ k =>
        have hsize : (g.advance p).1.size = p.1.size + 1 := Array.size_push _
        have hlater := ih k (g.advance p) (by rw [hsize, Nat.add_right_comm]; exact he)
        rw [hlater, next, next, advance]
        have hplace : p.2 + Int64.ofNat g.type.size + Int64.ofNat k * Int64.ofNat g.type.size =
            p.2 + Int64.ofNat (k + 1) * Int64.ofNat g.type.size := by
          rw [Int64.ofNat_add, Int64.add_mul, Int64.add_assoc, Int64.add_comm (Int64.ofNat k * _)]
          simp
        simp only [hplace]

/-- An element is read so many elements behind the first. -/
theorem getElem?_first_eq {n k : Nat} {e : Element} (he : (g.first n).1[k]? = some e) :
    e.value = Scalar.decode g.type (g.ws.read g.file
      (g.start + Int64.ofNat k * Int64.ofNat g.type.size) g.type.size) := by
  have hnext := getElem?_readOn (g := g) n k (#[], g.start) (by
    rw [Array.size_empty, Nat.zero_add]
    exact he)
  rw [hnext]
  rfl

end Reading

namespace Site

variable {site : Site} {i : Nat} {f : FieldFacts}

/-- Facts are about a field of the definition. -/
theorem field?_of_fieldFacts (h : site.fieldFacts i = .ok (some f)) :
    ∃ name, site.struct.field? i = some (name, f.field) := by
  cases hlast : site.layOut (i + 1) with
  | error fault =>
    rw [fieldFacts, hlast] at h
    cases h
  | ok p =>
    obtain ⟨facts, cursor⟩ := p
    rw [fieldFacts, hlast] at h
    have hf : facts[i]? = some f := Except.ok.inj h
    obtain ⟨facts', cursor', hk, ⟨hle, rfl⟩ | ⟨hlt, f', rfl⟩⟩ := layOut_succ_eq_ok hlast
    · have hlength := length_layOut hk
      rw [List.getElem?_eq_none (by omega)] at hf
      cases hf
    · have hlength := length_layOut hk
      rw [List.getElem?_append_right (by omega), show i - facts'.length = 0 by omega] at hf
      cases hf
      obtain ⟨field, hfield⟩ : ∃ field, site.struct.field? i = some field :=
        ⟨_, List.getElem?_eq_getElem hlt⟩
      refine ⟨field.1, hfield.trans (congrArg (fun g => some (field.1, g)) ?_)⟩
      rw [layOut_succ hk hfield] at hlast
      have hlast_eq {facts'' : List FieldFacts} {present : Bool} {origin : Int64}
          (heq : facts' ++ [site.factsOf facts'' i field.2 present origin] = facts' ++ [f]) :
          field.2 = f.field :=
        congrArg FieldFacts.field (List.singleton_inj.mp (List.append_cancel_left heq))
      cases hcondition : site.conditionValue facts' i field.2 with
      | error fault =>
        rw [hcondition] at hlast
        cases hlast
      | ok condition =>
        rw [hcondition] at hlast
        dsimp only [bind, Except.bind] at hlast
        split at hlast
        · split at hlast
          · cases hlast
          · exact hlast_eq (congrArg Prod.fst (Except.ok.inj hlast))
        · exact hlast_eq (congrArg Prod.fst (Except.ok.inj hlast))

end Site

/-- **An element lies where the field does**, and so many elements further. -/
theorem FieldFacts.value_eq_of_element {site : Site} {f : FieldFacts} {t : ScalarType}
    (hvalue : f.field.value = none) (htype : f.field.type = .scalar t) {start : Int64}
    (hstart : f.offset = .ok start) {k : Nat} {e : Element}
    (he : f.element site k = .ok (some e)) :
    e.value = Scalar.decode t (site.workspace.read site.ref.file
      (start + Int64.ofNat k * Int64.ofNat t.size) t.size) := by
  unfold element at he
  rw [hvalue, htype, hstart] at he
  cases hcount : f.count with
  | error fault =>
    rw [hcount] at he
    cases he
  | ok count =>
    rw [hcount] at he
    exact Reading.getElem?_first_eq (g := f.reading site t count start) (Except.ok.inj he)

namespace Inquiry

variable {site : Site} {q : Inquiry} {j : Nat} {g : FieldFacts}

/-- The answer about a field of which the facts are known. -/
theorem answer_of_facts (hq : q.field? = some j) (hg : site.fieldFacts j = .ok (some g)) :
    q.answer site = q.about site g := by
  rw [answer_eq q site hq, hg]
  rfl

/-- An answer that tells something is about facts. -/
theorem exists_facts_of_answer (hq : q.field? = some j) {a : q.Answer}
    (ha : q.answer site = .ok a) (hne : q.nothing ≠ a) : ∃ g, site.fieldFacts j = .ok (some g) := by
  rw [answer_eq q site hq] at ha
  cases hfacts : site.fieldFacts j with
  | error fault =>
    rw [hfacts] at ha
    cases ha
  | ok facts =>
    cases facts with
    | none =>
      rw [hfacts] at ha
      exact absurd (Except.ok.inj ha) hne
    | some g => exact ⟨g, rfl⟩

end Inquiry

namespace Workspace

variable {ws : Workspace} {n : Nat} {i : Instance} {cutShort : Bool}

/-- **Values are read where the fields are.** After any history of flat definitions, an element of a
field of integers that is there has the value of the bytes at the offset of the field, so many
elements further; that is what `$` tells at that offset. No frame is refused for the answers. -/
theorem Consulted.value_at_offset (h : ws.Consulted cutShort n) (hn : n < Schema.versionLimit)
    (hi : ws.find? i.id = some i) {j : Nat} {f : String × Field} {t : IntType}
    (hf : ws.fieldOf? i.ref j = some f) (hvalue : f.2.value = none)
    (htype : f.2.type = .scalar (.int t)) (k : Nat) {offset value : Int64} {text : String}
    {ws₁ ws₂ ws₃ : Workspace}
    (hoffset : (i.ref.fieldOffset j false).runIn ws = (.ok (some offset), ws₁))
    (hquiet₁ : ws₁.refusals = ws.refusals)
    (htext : (i.ref.valuePreview j k).runIn ws = (.ok (some text), ws₂))
    (hquiet₂ : ws₂.refusals = ws.refusals)
    (hint : (i.ref.intValue j k).runIn ws = (.ok value, ws₃))
    (hquiet₃ : ws₃.refusals = ws.refusals) :
    let place := offset + Int64.ofNat k * Int64.ofNat t.size
    value = t.decode (ws.read i.file place t.size) ∧ text = (Scalar.int value).preview ∧
      ((Scope.whole i.ref).evaluate (.rawRead t (.constant place))).runIn ws = (.ok value, ws) := by
  have htruthful := h.truthful hn
  obtain ⟨d, hd, hfield⟩ := structOf?_of_fieldOf? hf
  have hshown := shownIn_siteOf hi hd
  have hanswer (q : Inquiry) {a : q.Answer} {ws' : Workspace}
      (hrun : (q.ask i.ref false).runIn ws = (.ok a, ws')) (hquiet : ws'.refusals = ws.refusals) :
      q.answer (ws.siteOf i) = .ok a := by
    have hresult := htruthful.result_eq hi q (by rw [hrun]; exact hquiet)
    rw [hrun] at hresult
    exact hresult.symm
  have hoffset := hanswer (.fieldOffset j) hoffset hquiet₁
  have htext := hanswer (.valuePreview j k) htext hquiet₂
  have hint := hanswer (.intValue j k) hint hquiet₃
  obtain ⟨g, hfacts⟩ := Inquiry.exists_facts_of_answer rfl htext (fun hno => nomatch hno)
  rw [Inquiry.answer_of_facts rfl hfacts] at hoffset htext hint
  -- All three answers are about the same facts.
  have hg : g.field = f.2 := by
    obtain ⟨name, hname⟩ := Site.field?_of_fieldFacts hfacts
    rw [siteOf_of_structOf? hd, hfield] at hname
    exact congrArg Prod.snd (Option.some.inj hname).symm
  obtain ⟨start, hstart, hsame⟩ := exists_of_map_eq_ok hoffset
  obtain ⟨found, hfound, hpreview⟩ := exists_of_map_eq_ok htext
  obtain ⟨e, rfl, rfl⟩ := Option.map_eq_some_iff.mp hpreview
  cases hsame
  have hread := FieldFacts.value_eq_of_element (hg ▸ hvalue) (hg ▸ htype) hstart hfound
  rw [← hshown.read] at hread
  have hint : g.intValue (ws.siteOf i) k = .ok value := hint
  rw [FieldFacts.intValue, hfound] at hint
  have hvalue : e.value.toInt = value := Except.ok.inj hint
  rw [hread] at hvalue
  refine ⟨hvalue.symm, ?_, ?_⟩
  · rw [hread, ← hvalue]
    rfl
  · refine (Resolve.runIn_resolving _ rfl).trans ?_
    rw [Resolver.evaluateIn, Expr.evaluate, Expr.evaluate, ← hvalue]
    rfl

/-- A byte that says where another one is. -/
def signpost : StructDef :=
  { StructDef.empty with
    size := 1
    fields := ⟨[("place", .ofType (.scalar (.int .u8))),
      ("there", { Field.ofType (.scalar (.int .u8)) with
        offsetFormula := some ⟨"place", .member none "place" none false, by cbv⟩ })], by decide⟩ }

def signpostSchema : Schema := ⟨(∅ : Std.TreeMap String StructDef).insert "Signpost" signpost, 0⟩

def signpostInstance : Instance := .ofPlacement 0 (.single ⟨"Signpost", 0, 0⟩ .user)

/-- A workspace with one, in a file of three bytes. -/
def withSignpost : Workspace :=
  ((ofSchema signpostSchema .default).addSource (.ofBytes "signpost" #[2, 7, 9])).2.place
    signpostInstance.toPlacement |>.2

/-- The byte that it points to is read where it points to. -/
theorem value_at_offset_withSignpost : withSignpost.Consulted false 0 ∧
    ((signpostInstance.ref.fieldOffset 1 false).runIn withSignpost).1.toOption = some (some 2) ∧
    ((signpostInstance.ref.intValue 1 0).runIn withSignpost).1.toOption = some 9 ∧
    IntType.u8.decode (withSignpost.read 0 2 1) = 9 := by
  have hconsulted : withSignpost.Consulted false 0 :=
    .start (.of_toList rfl (by decide)) (by decide) fun _ => rfl
  have hanswers : ((signpostInstance.ref.fieldOffset 1 false).runIn withSignpost).1.toOption =
        some (some 2) ∧
      ((signpostInstance.ref.valuePreview 1 0).runIn withSignpost).1.toOption = some (some "9") ∧
      ((signpostInstance.ref.intValue 1 0).runIn withSignpost).1.toOption = some 9 ∧
      ((signpostInstance.ref.fieldOffset 1 false).runIn withSignpost).2.refusals = 0 ∧
      ((signpostInstance.ref.valuePreview 1 0).runIn withSignpost).2.refusals = 0 ∧
      ((signpostInstance.ref.intValue 1 0).runIn withSignpost).2.refusals = 0 := by
    decide +kernel
  obtain ⟨hoffset, htext, hint, hquiet₁, hquiet₂, hquiet₃⟩ := hanswers
  obtain ⟨hread, _⟩ := hconsulted.value_at_offset (by decide) (i := signpostInstance) rfl (j := 1)
    rfl rfl rfl 0 (runIn_of_toOption hoffset) hquiet₁ (runIn_of_toOption htext) hquiet₂
    (runIn_of_toOption hint) hquiet₃
  exact ⟨hconsulted, hoffset, hint, hread.symm⟩

end Workspace

end ByteAtlas
