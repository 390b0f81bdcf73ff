import ByteAtlas.Proofs.Expr.Laws
import ByteAtlas.Proofs.Resolve.FieldLaw

/-!
# What walking along children keeps

A walk asks questions about the instance that holds the children and about the children, places
them one after another, and shows each of them to its visitor. So a law holds of a walk if it holds
of the questions, of placing, and of the visits (`Law.Walks.walk`).

What is known of a child that has just been placed may be more than a law demands of the instances
that a result tells of: its struct is that of the field. Nothing more is demanded of the instances
that a visitor has gathered (`Law.Visits`).
-/

namespace ByteAtlas

variable {World : Type} {law : Law Resolve InstanceRef World} {a b : Resolver} {reason : Reason}

/-- **Whether a law holds of visits**, as long as what a visitor has gathered tells of some
instances. -/
def Law.Visits {σ : Type} (law : Law Resolve InstanceRef World)
    (Child : World → InstanceRef → Prop) (told : σ → List InstanceRef)
    (visit visit' : Visitor σ) : Prop :=
  ∀ (w : World) (s : σ) (child : InstanceRef), Child w child → (∀ r ∈ told s, law.Found w r) →
    law.Holds w (visit s child) (visit' s child) fun x => told x.1

/-- **Whether a law holds of what walks do** besides visiting, for a reason. -/
structure Law.Walks (law : Law Resolve InstanceRef World) (a b : Resolver) (reason : Reason) where
  /-- What is known of a field of an instance. -/
  Has : World → InstanceRef → String × Field → Prop
  /-- What is known of a child that has been placed. -/
  Child : World → InstanceRef → Prop
  found : ∀ {w : World} {child : InstanceRef}, Child w child → law.Found w child
  childStays : ∀ {w w' : World} {child : InstanceRef}, law.Later w w' → Child w child →
    Child w' child
  hasStays : ∀ {w w' : World} {r : InstanceRef} {field : String × Field}, law.Later w w' →
    Has w r field → Has w' r field
  /-- What holds of the questions about one instance. -/
  fields : ∀ {w : World} {r : InstanceRef}, law.Found w r → a.FieldLaw b r
  answers : ∀ {w : World} {r : InstanceRef} (hr : law.Found w r), (fields hr).Answers
  asks : ∀ {w : World} {r : InstanceRef} (hr : law.Found w r) {α : Type} {step step' : Resolve α},
    (fields hr).Holds step step' → law.Holds w step step' tellsNone
  has : ∀ {w : World} {r : InstanceRef} (hr : law.Found w r) {field : String × Field},
    Has w r field → (fields hr).Has field
  field : ∀ {w : World} {r : InstanceRef} {α : Type}
    {next next' : Option (String × Field) → Resolve α} {tells : α → List InstanceRef} (i : Nat),
    law.Found w r →
    (∀ f, (∀ field, f = some field → Has w r field) → law.Holds w (next f) (next' f) tells) →
    law.Holds w (fieldOf? r i >>= next) (fieldOf? r i >>= next') tells
  createNext : ∀ {w : World} {child : InstanceRef} {α : Type}
    {next next' : Option InstanceRef → Resolve α} {tells : α → List InstanceRef}, Child w child →
    (∀ c w', law.Later w w' → (∀ child, c = some child → Child w' child) →
      law.Holds w' (next c) (next' c) tells) →
    law.Holds w (a.createNext child reason >>= next) (b.createNext child reason >>= next') tells
  placeChild : ∀ {w : World} {r : InstanceRef} {field : String × Field} {struct : String} {α : Type}
    {next next' : InstanceRef → Resolve α} {tells : α → List InstanceRef} (offset : Int64)
    (budget : Budget), law.Found w r → Has w r field → field.2.type = .struct struct →
    (∀ child w', law.Later w w' → Child w' child → law.Holds w' (next child) (next' child) tells) →
    law.Holds w (a.placeChild r field.2 struct reason offset budget >>= next)
      (b.placeChild r field.2 struct reason offset budget >>= next') tells

namespace Law.Walks

open Law (stayAll)

variable {r : InstanceRef} {w : World} (h : law.Walks a b reason)

section

variable {σ : Type} {told : σ → List InstanceRef} {visit visit' : Visitor σ}
  (hv : law.Visits h.Child told visit visit')
include hv

/-! ## 1. Walks -/

/-- **The rest of a chain**, by induction on what is left of it. -/
theorem walkChain (upTo : Option Nat) (left : Nat) : ∀ (n : Nat) (s : σ) {child : InstanceRef}
    {w : World}, h.Child w child → (∀ r ∈ told s, law.Found w r) →
      law.Holds w (a.walkChain upTo reason visit left n s child)
        (b.walkChain upTo reason visit' left n s child) fun x => told x.1 := by
  induction left with
  | zero => exact fun _ _ _ _ _ htold => law.pure htold
  | succ left ih =>
    intro n s child w hchild htold
    have hgoesOn := (h.answers (h.found hchild)).canCreateNext false false
    refine law.ite (fun _ => law.pure htold) fun _ =>
      law.bind (h.asks _ hgoesOn) fun _ w₁ hlater₁ _ => ?_
    have htold₁ := stayAll hlater₁ htold
    refine law.ite (fun _ => ?_) fun _ => law.pure htold₁
    refine h.createNext (h.childStays hlater₁ hchild) fun next w₂ hlater₂ hnext => ?_
    have htold₂ := stayAll hlater₂ htold₁
    cases next with
    | none => exact law.pure htold₂
    | some next =>
      have hnext := hnext next rfl
      exact law.bind (hv _ _ _ hnext htold₂) fun _ w₃ hlater₃ htold₃ =>
        law.ite (fun _ => ih _ _ (h.childStays hlater₃ hnext) htold₃) fun _ => law.pure htold₃

/-- **Children with offsets of their own**, by induction on how many elements there are. -/
theorem walkOffsets {field : String × Field} {struct : String} {formula : Formula}
    (htype : field.2.type = .struct struct) (hformula : field.2.offsetFormula = some formula)
    (origin : Int64) (upTo : Option Nat) (left : Nat) : ∀ (n : Nat) (s : σ) {w : World},
    law.Found w r → h.Has w r field → (∀ r ∈ told s, law.Found w r) →
      law.Holds w (a.walkOffsets r field.2 struct formula origin upTo reason visit left n s)
        (b.walkOffsets r field.2 struct formula origin upTo reason visit' left n s)
        fun x => told x.1 := by
  have hin : formula ∈ field.2.formulas := by
    simp [Field.formulas, Field.placingFormulas, hformula]
  induction left with
  | zero => exact fun _ _ _ _ _ htold => law.pure htold
  | succ left ih =>
    intro n s w hr hfield htold
    have hoffset := (h.fields hr).evaluateField (h.has hr hfield) hin
      [indexConstant (Int64.ofNat n), originConstant origin] none
    refine law.bind (h.asks hr hoffset) fun offset w₁ hlater₁ _ => ?_
    have htold₁ := stayAll hlater₁ htold
    cases offset with
    | none => exact law.pure htold₁
    | some offset =>
      have hr₁ := law.stays hlater₁ hr
      have hfield₁ := h.hasStays hlater₁ hfield
      have hthere := (h.fields hr₁).hasElement (h.has hr₁ hfield₁) origin (Int64.ofNat n) offset
      refine law.bind (h.asks hr₁ hthere) fun there w₂ hlater₂ _ => ?_
      have hr₂ := law.stays hlater₂ hr₁
      have hfield₂ := h.hasStays hlater₂ hfield₁
      have htold₂ := stayAll hlater₂ htold₁
      refine law.ite (fun _ => ?_) fun _ => ih _ _ hr₂ hfield₂ htold₂
      refine h.placeChild offset .one hr₂ hfield₂ htype fun child w₃ hlater₃ hchild => ?_
      refine law.bind (hv _ _ _ hchild (stayAll hlater₃ htold₂)) fun _ w₄ hlater₄ htold₄ => ?_
      exact law.ite (fun _ => law.pure htold₄) fun _ =>
        ih _ _ (law.stays hlater₄ (law.stays hlater₃ hr₂))
          (h.hasStays hlater₄ (h.hasStays hlater₃ hfield₂)) htold₄

/-- **A law holds of walks** if it holds of visits. -/
theorem walk (hr : law.Found w r) (i : Nat) (upTo : Option Nat) {s : σ}
    (htold : ∀ r ∈ told s, law.Found w r) :
    law.Holds w (a.walk r i upTo reason visit s) (b.walk r i upTo reason visit' s)
      fun x => told x.1 := by
  unfold Resolver.walk
  refine h.field i hr fun
    | none, _ => law.pure htold
    | some field, hfield => ?_
  have hfield := hfield field rfl
  dsimp only
  split
  · exact law.pure htold
  · exact law.pure htold
  · rename_i struct _ htype
    have hdefined := (h.fields hr).schema fun s => (s.get? struct).isNone
    refine law.bind (h.asks hr hdefined) fun _ w₁ hlater₁ _ => ?_
    have hr₁ := law.stays hlater₁ hr
    have htold₁ := stayAll hlater₁ htold
    refine law.ite (fun _ => law.pure htold₁) fun _ =>
      law.bind (h.asks hr₁ ((h.answers hr₁).elementCount i false)) fun count w₂ hlater₂ _ => ?_
    have hr₂ := law.stays hlater₂ hr₁
    have hfield₂ := h.hasStays hlater₂ (h.hasStays hlater₁ hfield)
    have htold₂ := stayAll hlater₂ htold₁
    refine law.ite (fun _ => law.pure htold₂) fun _ => ?_
    split
    · rename_i formula _ hformula
      refine law.bind (h.asks hr₂ ((h.fields hr₂).entry i)) fun entry w₃ hlater₃ _ => ?_
      have htold₃ := stayAll hlater₃ htold₂
      cases entry with
      | none => exact law.pure htold₃
      | some entry =>
        exact h.walkOffsets hv htype hformula _ upTo _ 0 s (law.stays hlater₃ hr₂)
          (h.hasStays hlater₃ hfield₂) htold₃
    · refine law.bind (h.asks hr₂ ((h.answers hr₂).fieldOffset i false))
        fun offset w₃ hlater₃ _ => ?_
      have htold₃ := stayAll hlater₃ htold₂
      refine h.placeChild _ _ (law.stays hlater₃ hr₂) (h.hasStays hlater₃ hfield₂) htype
        fun child w₄ hlater₄ hchild => ?_
      refine law.bind (hv _ _ _ hchild (stayAll hlater₄ htold₃)) fun _ w₅ hlater₅ htold₅ => ?_
      exact law.ite (fun _ => h.walkChain hv upTo _ 0 _ (h.childStays hlater₅ hchild) htold₅)
        fun _ => law.pure htold₅

end

/-! ## 2. Visitors that gather no instances -/

include h

theorem walk_tellsNone {σ : Type} (visit visit' : Visitor σ)
    (hv : ∀ {w : World} {child : InstanceRef} (s : σ), h.Child w child →
      law.Holds w (visit s child) (visit' s child) tellsNone)
    (hr : law.Found w r) (i : Nat) (upTo : Option Nat) (s : σ) :
    law.Holds w (a.walk r i upTo reason visit s) (b.walk r i upTo reason visit' s) tellsNone :=
  have hvisits : law.Visits h.Child tellsNone visit visit' := fun _ s _ hchild _ => hv s hchild
  h.walk hvisits hr i upTo fun _ hr => absurd hr List.not_mem_nil

/-- Measuring a field takes such a walk. -/
theorem walk_addSize (hr : law.Found w r) (i : Nat) :
    law.Holds w (a.walk r i none reason a.addSize 0) (b.walk r i none reason b.addSize 0)
      tellsNone :=
  h.walk_tellsNone _ _ (fun _ hchild =>
    law.bind (h.asks _ ((h.answers (h.found hchild)).size false)) fun _ _ _ _ => law.done)
    hr i none 0

theorem walk_idle (hr : law.Found w r) (i n : Nat) :
    law.Holds w (a.walk r i (some n) reason .idle ()) (b.walk r i (some n) reason .idle ())
      tellsNone :=
  h.walk_tellsNone _ _ (fun _ _ => law.done) hr i (some n) ()

end Law.Walks

end ByteAtlas
