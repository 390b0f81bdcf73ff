import ByteAtlas.Proofs.Flat.Agreement
import ByteAtlas.Proofs.Elements.Notes

/-!
# What is settled about a flat instance

A layout keeps answers, in whatever order and under whatever limits they have been found. Where the
definition is flat, what is not kept follows from what is. So it is settled what will be answered
about each field, as long as no frame is refused: its `Finding`.

`Findings.ofEntry` completes an entry. What the expressions of a field see is what is settled about
the fields before it. Keeping an answer that is settled does not change what is settled
(`Findings.ofEntry_setOffset` and the like).
-/

namespace ByteAtlas

/-! ## 1. Reading on -/

namespace Reading

variable {g : Reading}

theorem size_le_size_readOn (n : Nat) (p : Array Element × Int64) :
    p.1.size ≤ (g.readOn n p).1.size :=
  (prefix_readOn n p).length_le

/-- What is there is there after reading on. -/
theorem getElem?_readOn_of_lt {n : Nat} (m : Nat) {p : Array Element × Int64} (h : n < p.1.size) :
    (g.readOn m p).1[n]? = p.1[n]? := by
  obtain ⟨rest, hrest⟩ := prefix_readOn (g := g) m p
  rw [← Array.getElem?_toList, ← hrest, List.getElem?_append_left h, Array.getElem?_toList]

/-- **An element is the same** however far has been read. -/
theorem getElem?_readOn_readOn (m n : Nat) (p : Array Element × Int64) :
    (g.readOn (n + 1 - (g.readOn m p).1.size) (g.readOn m p)).1[n]? =
      (g.readOn (n + 1 - p.1.size) p).1[n]? := by
  have hle := size_le_size_readOn (g := g) m p
  have hsize := readOn_size (g := g) m p
  generalize g.readOn m p = q at hle hsize ⊢
  generalize hk : n + 1 - p.1.size = k
  by_cases hlt : n < q.1.size
  · rw [Nat.sub_eq_zero_of_le hlt, readOn_zero]
    rcases Nat.le_total (q.1.size - p.1.size) k with hfar | hnear
    · obtain ⟨more, rfl⟩ := Nat.exists_eq_add_of_le hfar
      rw [readOn_add, hsize, getElem?_readOn_of_lt more hlt]
    · obtain ⟨more, hmore⟩ := Nat.exists_eq_add_of_le hnear
      rw [hmore, readOn_add] at hsize
      by_cases hthere : n < (g.readOn k p).1.size
      · rw [← hsize, getElem?_readOn_of_lt more hthere]
      · have hgrown := size_le_size_readOn (g := g) k p
        rw [readOn_of_end (hasNext_of_size_lt p (by omega))] at hsize
        rw [hsize]
  · rw [← hsize, ← readOn_add, ← hk, hsize]
    congr 3
    omega

/-- A field that ends at a zero has the same elements however far it has been read. -/
theorem readOn_readOn_of_untilZero (huntil : g.field.untilZero = true) (m : Nat)
    (p : Array Element × Int64) :
    g.readOn (g.ws.fileSize g.file + 1) (g.readOn m p) =
      g.readOn (g.ws.fileSize g.file + 1) p := by
  rw [← readOn_add, Nat.add_comm, readOn_add]
  exact readOn_of_end (hasNext_readOn_of_untilZero huntil p) m

end Reading

/-! ## 1. Findings -/

/-- **What is settled about a field.** -/
structure Finding where
  present : Bool
  origin : Int64
  offset : Option Int64
  count : Int64
  element : Nat → Option Element
  /-- The number of elements of a field that ends at a zero. -/
  length : Nat
  total : Int64
  preview : String

/-- What is settled about the first fields. -/
abbrev Findings := List Finding

namespace Finding

variable (f : Finding)

def intValue (n : Nat) : Int64 := (f.element n).elim 0 fun e => e.value.toInt

def valueOffset (n : Nat) : Option Int64 :=
  f.offset.bind fun offset => if n = 0 then some offset else (f.element n).map Element.offset

/-- The previews that a joined preview takes of these. -/
def takePreviews (texts : Nat → Option String) (separated : Bool) :
    (left n : Nat) → (joined : String) → List String
  | 0, _, _ => []
  | left + 1, n, joined =>
    match texts n with
    | none => []
    | some p =>
      let longer := joined ++ previewSeparator separated (n == 0) ++ p
      if p.isEmpty || previewLimit ≤ longer.utf8ByteSize then [p]
      else p :: takePreviews texts separated left (n + 1) longer

end Finding

/-- Whether the previews of the elements stand apart from each other. -/
def Field.isSeparated (field : Field) : Bool := field.type.scalar?.elim true ScalarType.isSeparated

/-- The joined preview of a field that is present. -/
def Field.joinedPreview (field : Field) (offset : Option Int64) (element : Nat → Option Element) :
    String :=
  if offset.isNone then notLoadedPreview
  else joinPreviews field.isSeparated (Finding.takePreviews
    (fun n => (element n).map fun e => e.value.preview) field.isSeparated previewLimit 0 "")

/-- The room that a field takes up, given the number of its elements. -/
def Field.roomFor (field : Field) (count : Int64) (length : Nat) : Int64 :=
  match field.value, field.type with
  | some _, _ | none, .struct _ => 0
  | none, .scalar t =>
    let size := Int64.ofNat t.size
    size * if field.untilZero then Int64.ofNat length
      else if field.countIsBytes then (if 0 < size then count / size else 0) else count

/-- How the elements of a field are read. -/
def Site.reading (site : Site) (field : Field) (t : ScalarType) (count start : Int64) : Reading :=
  ⟨site.workspace, site.ref.file, field, t, count, start⟩

/-- Elements of a field read on from those in an entry. -/
def Site.readOn (site : Site) (field : Field) (t : ScalarType) (count start : Int64)
    (e : FieldEntry) (n : Nat) : Array Element × Int64 :=
  (site.reading field t count start).readOn n
    (e.values, e.nextElement.getD start)

/-- The number of elements of a field that ends at a zero, of which an entry holds the first. -/
def Site.lengthOf (site : Site) (field : Field) (e : FieldEntry) (offset : Option Int64)
    (count : Int64) : Nat :=
  match field.value, field.type with
  | some _, _ | none, .struct _ => 0
  | none, .scalar t =>
    if field.untilZero then
      (site.readOn field t count (offset.getD 0) e (site.fileSize + 1)).1.size
    else 0

namespace Findings

variable (found : Findings) (site : Site)

/-! ## 2. Expressions -/

section

variable (scope : Scope)

/-- What a name stands for. -/
def lookup (name : String) (index : Int64) (isOffset : Bool) : Option Int64 :=
  let value (n : Int64) : Int64 := if isOffset then 0 else n
  match (scope.constant? site.ref name).or (argValue? name site.args) with
  | some n => some (value n)
  | none =>
    match site.struct.fieldIndex? name with
    | none => (site.struct.param? name).map value
    | some i =>
      if scope.hides site.ref i || index < 0 then none
      else if isOffset then found[i]?.bind fun f => f.valueOffset index.toInt.toNat
      else some (found[i]?.elim 0 fun f => f.intValue index.toInt.toNat)

def namedPreview (name : String) : Option String :=
  (site.struct.fieldIndex? name).bind fun i =>
    if scope.hides site.ref i then none else some (found[i]?.elim notLoadedPreview Finding.preview)

/-- What expressions without queries see. -/
def environment : Environment Id InstanceRef where
  lookup _ := found.lookup site scope
  roots := [site.ref]
  children _ _ _ := pure []
  instancesOf _ _ _ := pure []
  read offset length := pure (site.workspace.read site.ref.file offset length)
  offsetOf := InstanceRef.offset
  idOf r := Int64.ofNat r.id
  preview _ := found.namedPreview site scope

def evaluate (expr : Expr) : Int64 := Id.run (expr.evaluate (found.environment site scope))

end

/-- The value of a name without an index. -/
def namedValue (name : String) : Option Int64 :=
  match site.struct.fieldIndex? name with
  | some i => some (found[i]?.elim 0 fun f => f.intValue 0)
  | none => site.argOrParam name

/-! ## 3. Completing entries -/

section

variable (i : Nat) (field : Field)

/-- The value of the condition; a field without one is present. -/
def conditionOf : Int64 :=
  field.condition.elim 1 fun condition =>
    found.evaluate site (.upToField site.ref i) condition.expr

def offsetOf (origin : Int64) : Option Int64 :=
  field.offsetFormula.map fun formula => found.evaluate site
    (.withConstants site.ref [indexConstant 0, originConstant origin]) formula.expr

/-- A count before it is cut to the limit. -/
def uncutCount : Int64 :=
  if field.value.isSome then 1
  else
    match field.countSource with
    | .literal => field.count
    | .fileSize => Int64.ofNat site.fileSize + field.count
    | .named source =>
      let isEarlier := (site.struct.fieldIndex? source).any (· < i)
      (if isEarlier then found.namedValue site source else site.argOrParam source).elim 0
        (· + field.count)

def countOf (present : Bool) : Int64 :=
  cutCount site.maxElements (if present then found.uncutCount site i field else 0)

/-- The element that an expression gives. -/
def valueOf (origin : Int64) (formula : Formula) : Element :=
  ⟨0, .int (found.evaluate site (.withConstants site.ref [originConstant origin]) formula.expr)⟩

/-- The elements of a field of which an entry holds the first. -/
def elementOf (e : FieldEntry) (offset : Option Int64) (count : Int64) (n : Nat) : Option Element :=
  match field.value, field.type with
  | some formula, _ =>
    (if e.values.isEmpty then #[found.valueOf site e.origin formula] else e.values)[n]?
  | none, .scalar t =>
    (site.readOn field t count (offset.getD 0) e (n + 1 - e.values.size)).1[n]?
  | none, .struct _ => none

/-- **What is settled about a field** of which an entry is kept. -/
def ofEntry (e : FieldEntry) : Finding :=
  let offset := e.offset.or (found.offsetOf site field e.origin)
  let count := e.count.getD (found.countOf site i field e.present)
  let element := found.elementOf site field e offset count
  let length := site.lengthOf field e offset count
  { present := e.present
    origin := e.origin
    offset
    count
    element
    length
    total := e.totalSize.getD (field.roomFor count length)
    preview :=
      if e.present then e.preview.getD (field.joinedPreview offset element)
      else notPresentPreview }

end

/-! ## 4. Keeping what is settled -/

section

variable {found : Findings} {site : Site} {i : Nat} {field : Field} {e : FieldEntry}

theorem ofEntry_element (n : Nat) :
    (found.ofEntry site i field e).element n = found.elementOf site field e
      (found.ofEntry site i field e).offset (found.ofEntry site i field e).count n := rfl

theorem ofEntry_length :
    (found.ofEntry site i field e).length = site.lengthOf field e
      (found.ofEntry site i field e).offset (found.ofEntry site i field e).count := rfl

theorem ofEntry_preview (h : e.present = true) :
    (found.ofEntry site i field e).preview = e.preview.getD (field.joinedPreview
      (found.ofEntry site i field e).offset (found.ofEntry site i field e).element) := if_pos h

theorem ofEntry_preview_of_absent (h : e.present = false) :
    (found.ofEntry site i field e).preview = notPresentPreview := by
  refine if_neg ?_
  rw [h]
  exact Bool.false_ne_true

theorem element_of_value {formula : Formula} (hvalue : field.value = some formula) (n : Nat) :
    (found.ofEntry site i field e).element n =
      (if e.values.isEmpty then #[found.valueOf site e.origin formula] else e.values)[n]? := by
  rw [ofEntry_element, elementOf, hvalue]

theorem element_of_scalar (hvalue : field.value = none) {t : ScalarType}
    (htype : field.type = .scalar t) (n : Nat) :
    (found.ofEntry site i field e).element n =
      (site.readOn field t (found.ofEntry site i field e).count
        ((found.ofEntry site i field e).offset.getD 0) e (n + 1 - e.values.size)).1[n]? := by
  rw [ofEntry_element, elementOf, hvalue, htype]

/-- An element that is kept. -/
theorem element_of_lt {t : ScalarType} (htype : field.type = .scalar t) {n : Nat}
    (h : n < e.values.size) : (found.ofEntry site i field e).element n = e.values[n]? := by
  cases hvalue : field.value with
  | some formula =>
    rw [element_of_value hvalue, if_neg]
    rw [Array.isEmpty_iff, ← Array.size_eq_zero_iff]
    omega
  | none =>
    rw [element_of_scalar hvalue htype, Nat.sub_eq_zero_of_le h]
    rfl

theorem length_of_scalar (hvalue : field.value = none) {t : ScalarType}
    (htype : field.type = .scalar t) (huntil : field.untilZero = true) :
    (found.ofEntry site i field e).length =
      (site.readOn field t (found.ofEntry site i field e).count
        ((found.ofEntry site i field e).offset.getD 0) e (site.fileSize + 1)).1.size := by
  rw [ofEntry_length, Site.lengthOf, hvalue, htype]
  exact if_pos huntil

theorem ofEntry_setOffset {offset : Int64} (h : (found.ofEntry site i field e).offset = some offset) :
    found.ofEntry site i field { e with offset := some offset } = found.ofEntry site i field e := by
  have h : e.offset.or (found.offsetOf site field e.origin) = some offset := h
  unfold ofEntry
  rw [h]
  rfl

theorem ofEntry_setCount {count : Int64} (h : (found.ofEntry site i field e).count = count) :
    found.ofEntry site i field { e with count := some count } = found.ofEntry site i field e := by
  have h : e.count.getD (found.countOf site i field e.present) = count := h
  unfold ofEntry
  rw [h]
  rfl

theorem ofEntry_setTotal {total : Int64} (h : (found.ofEntry site i field e).total = total) :
    found.ofEntry site i field { e with totalSize := some total } =
      found.ofEntry site i field e := by
  subst h
  rfl

theorem ofEntry_setPreview {preview : String}
    (h : (found.ofEntry site i field e).preview = preview) :
    found.ofEntry site i field { e with preview := some preview } =
      found.ofEntry site i field e := by
  subst h
  obtain ⟨present, _⟩ := e
  cases present <;> rfl

/-- Other elements, of which the same are the first. -/
theorem ofEntry_setElements {values : Array Element} {next : Option Int64} {f : Finding}
    (h : found.ofEntry site i field e = f)
    (helement : ∀ n, found.elementOf site field { e with values, nextElement := next } f.offset
      f.count n = f.element n)
    (hlength : site.lengthOf field { e with values, nextElement := next } f.offset f.count =
      f.length) :
    found.ofEntry site i field { e with values, nextElement := next } = f := by
  subst h
  have helement := funext helement
  unfold ofEntry at helement hlength ⊢
  dsimp only at helement hlength ⊢
  rw [helement, hlength]

/-- The element that an expression gives. -/
theorem ofEntry_setValue {formula : Formula} (hvalue : field.value = some formula)
    (hempty : e.values.isEmpty = true) :
    found.ofEntry site i field { e with values := #[found.valueOf site e.origin formula] } =
      found.ofEntry site i field e := by
  refine ofEntry_setElements rfl (fun n => ?_) ?_
  · rw [element_of_value hvalue, hempty, elementOf, hvalue]
    rfl
  · unfold ofEntry Site.lengthOf
    rw [hvalue]

/-- **Elements read on.** -/
theorem ofEntry_readOn (hvalue : field.value = none) {t : ScalarType}
    (htype : field.type = .scalar t) {count start : Int64}
    (hcount : (found.ofEntry site i field e).count = count)
    (hstart : (found.ofEntry site i field e).offset.getD 0 = start) (n : Nat) :
    found.ofEntry site i field
      { e with
        values := (site.readOn field t count start e n).1
        nextElement := some (site.readOn field t count start e n).2 } =
      found.ofEntry site i field e := by
  refine ofEntry_setElements rfl (fun n => ?_) ?_
  · rw [element_of_scalar hvalue htype, elementOf, hvalue, htype, hcount, hstart]
    exact Reading.getElem?_readOn_readOn (g := site.reading field t count start) _ _ _
  · rw [ofEntry_length]
    unfold Site.lengthOf
    rw [hvalue, htype]
    dsimp only
    rw [hcount, hstart]
    split
    · rename_i huntil
      exact congrArg (fun p => p.1.size)
        (Reading.readOn_readOn_of_untilZero (g := site.reading field t count start) huntil _ _)
    · rfl

end

end Findings

end ByteAtlas
