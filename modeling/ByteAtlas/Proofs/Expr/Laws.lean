import ByteAtlas.Proofs.Expr.Evaluation

/-!
# What evaluating keeps

Evaluating an expression looks things up in an environment, one after another, and does nothing
else. So a property of steps holds of it as soon as it holds of a step that looks nothing up, of one
step after another, and of what the environment looks up. Such a property is a `Law`, and
`Law.Governs.evaluate` goes along the tree once for all of them.

A law may be about one run, or about two runs side by side in environments that look things up in
different ways. It may depend on how far the run has come, and it may demand something of the
instances that a query finds, which are looked into later on.
-/

namespace ByteAtlas

/-! ## 1. Structs that are asked for -/

mutual

/-- The structs whose live instances an expression asks for. -/
def Expr.queried : Expr → List String
  | .constant _ => []
  | .unary _ a => a.queried
  | .binary _ a b => a.queried ++ b.queried
  | .rawRead _ a => a.queried
  | .member q _ i _ =>
    (match q with
      | some q => q.queried
      | none => []) ++
    match i with
    | some e => e.queried
    | none => []
  | .structOffset q => q.queried
  | .previewTest q _ _ _ =>
    match q with
    | some q => q.queried
    | none => []
  | .instanceId q =>
    match q with
    | some q => q.queried
    | none => []
  | .error => []

/-- The structs whose live instances a query asks for. -/
def Query.queried : Query → List String
  | .root struct _ fs => struct :: fs.queried
  | .sub p _ fs =>
    (match p with
      | some p => p.queried
      | none => []) ++ fs.queried
  | .error => []

/-- The structs whose live instances the expressions in filters ask for. -/
def Filters.queried : Filters → List String
  | .mk _ values selector =>
    valuesQueried values ++
    match selector with
    | some e => e.queried
    | none => []

/-- The structs whose live instances the expressions that values are compared with ask for. -/
def valuesQueried : List (String × Expr) → List String
  | [] => []
  | (_, e) :: vs => e.queried ++ valuesQueried vs

end

/-- Selecting picks some of the instances found. -/
theorem mem_selectRank {ι : Type} {offsetOf : ι → Int64} {rank : Int64} {found : List ι} {i : ι}
    (h : i ∈ selectRank offsetOf rank found) : i ∈ found := by
  unfold selectRank at h
  split at h
  · cases h
  · exact List.mem_mergeSort.mp (List.mem_of_getElem? (Option.mem_toList.mp h))

/-! ## 2. Laws -/

section

variable {m : Type → Type} [Monad m] {ι World : Type}

/-- **A property of steps that goes from step to step.** It holds of a step as it is taken at some
moment, and of another step beside it. -/
structure Law (m : Type → Type) [Monad m] (ι World : Type) where
  /-- Whether it holds of two steps, with instances that the result tells of. -/
  Holds : {α : Type} → World → m α → m α → (tells : α → List ι) → Prop
  /-- Which moments come after one another. -/
  Later : World → World → Prop
  /-- What is known of an instance that a result tells of. -/
  Found : World → ι → Prop
  /-- Which structs may be asked for. -/
  Asked : String → Prop
  stays : ∀ {w w' : World} {i : ι}, Later w w' → Found w i → Found w' i
  pure : ∀ {α : Type} {w : World} {a : α} {tells : α → List ι}, (∀ i ∈ tells a, Found w i) →
    Holds w (Pure.pure a) (Pure.pure a) tells
  bind : ∀ {α β : Type} {w : World} {step step' : m α} {next next' : α → m β} {tells : α → List ι}
    {last : β → List ι}, Holds w step step' tells →
    (∀ a w', Later w w' → (∀ i ∈ tells a, Found w' i) → Holds w' (next a) (next' a) last) →
    Holds w (step >>= next) (step' >>= next') last

/-- A result that tells of no instances. -/
def tellsNone {α : Type} (_ : α) : List ι := []

/-- **Whether a law holds of whatever two environments look up**, the one beside the other. -/
structure Law.Governs (law : Law m ι World) (env env' : Environment m ι) : Prop where
  roots : env'.roots = env.roots
  offsetOf : env'.offsetOf = env.offsetOf
  idOf : env'.idOf = env.idOf
  lookup : ∀ {w : World} {i : ι} (name : String) (index : Int64) (isOffset : Bool), law.Found w i →
    law.Holds w (env.lookup i name index isOffset) (env'.lookup i name index isOffset) tellsNone
  children : ∀ {w : World} {parents : List ι} (field : String) (filter : QueryFilter),
    (∀ i ∈ parents, law.Found w i) →
    law.Holds w (env.children parents field filter) (env'.children parents field filter) id
  instancesOf : ∀ {w : World} {struct : String} (isGlobal : Bool) (filter : QueryFilter),
    law.Asked struct →
    law.Holds w (env.instancesOf struct isGlobal filter) (env'.instancesOf struct isGlobal filter) id
  read : ∀ {w : World} (offset : Int64) (length : Nat),
    law.Holds w (env.read offset length) (env'.read offset length) tellsNone
  preview : ∀ {w : World} {i : ι} (field : String), law.Found w i →
    law.Holds w (env.preview i field) (env'.preview i field) tellsNone

namespace Law

variable {law : Law m ι World} {env env' : Environment m ι}

/-- A step that tells of no instances is over. -/
theorem done {α : Type} {w : World} {a : α} : law.Holds w (Pure.pure a) (Pure.pure a) tellsNone :=
  law.pure fun _ hi => absurd hi List.not_mem_nil

theorem ite {α : Type} {w : World} {c : Prop} [Decidable c] {step step' other other' : m α}
    {tells : α → List ι} (h : c → law.Holds w step step' tells)
    (h' : ¬ c → law.Holds w other other' tells) :
    law.Holds w (if c then step else other) (if c then step' else other') tells := by
  split
  · exact h ‹c›
  · exact h' ‹¬ c›

theorem stayAll {w w' : World} {is : List ι} (hlater : law.Later w w')
    (h : ∀ i ∈ is, law.Found w i) : ∀ i ∈ is, law.Found w' i :=
  fun i hi => law.stays hlater (h i hi)

/-- Asking some instances until one says yes. -/
theorem anyM {test test' : ι → m Bool}
    (ht : ∀ {w : World} {i : ι}, law.Found w i → law.Holds w (test i) (test' i) tellsNone)
    (is : List ι) : ∀ {w : World}, (∀ i ∈ is, law.Found w i) →
      law.Holds w (is.anyM test) (is.anyM test') tellsNone := by
  induction is with
  | nil => exact fun _ => law.done
  | cons i is ih =>
    intro w hfound
    obtain ⟨hi, his⟩ := List.forall_mem_cons.mp hfound
    rw [List.anyM, List.anyM]
    refine law.bind (ht hi) fun hit w₁ hlater _ => ?_
    cases hit with
    | true => exact law.done
    | false => exact ih (stayAll hlater his)

namespace Governs

mutual

/-- **A law holds of evaluating** if it holds of looking things up, by induction on the tree. -/
theorem evaluate (h : law.Governs env env') : (e : Expr) → {w : World} →
    (∀ i ∈ env.roots, law.Found w i) → (∀ struct ∈ e.queried, law.Asked struct) →
    law.Holds w (e.evaluate env) (e.evaluate env') tellsNone
  | .constant _, _, _, _ => law.done
  | .unary _ a, _, hroots, hq => by
    rw [Expr.queried] at hq
    rw [Expr.evaluate, Expr.evaluate]
    exact law.bind (h.evaluate a hroots hq) fun _ _ _ _ => law.done
  | .binary _ a b, _, hroots, hq => by
    rw [Expr.queried] at hq
    obtain ⟨ha, hb⟩ := List.forall_mem_append.mp hq
    rw [Expr.evaluate, Expr.evaluate]
    exact law.bind (h.evaluate a hroots ha) fun _ _ hlater _ =>
      law.bind (h.evaluate b (stayAll hlater hroots) hb) fun _ _ _ _ => law.done
  | .rawRead _ a, _, hroots, hq => by
    rw [Expr.queried] at hq
    rw [Expr.evaluate, Expr.evaluate]
    exact law.bind (h.evaluate a hroots hq) fun offset _ _ _ =>
      law.bind (h.read offset _) fun _ _ _ _ => law.done
  | .member q name i isOffset, _, hroots, hq => by
    rw [Expr.queried.eq_def] at hq
    obtain ⟨hquery, hindex⟩ := List.forall_mem_append.mp hq
    rw [Expr.evaluate_member, Expr.evaluate_member]
    refine law.bind (h.runOrRoots q hroots hquery) fun found w₁ hlater hfound => ?_
    cases found with
    | nil => exact law.done
    | cons inst rest =>
      refine law.bind (h.evaluateIndex i (stayAll hlater hroots) hindex) fun index w₂ hlater₂ _ => ?_
      have hinst := law.stays hlater₂ (hfound inst List.mem_cons_self)
      exact law.bind (h.lookup name index isOffset hinst) fun _ _ _ _ => law.done
  | .structOffset q, _, hroots, hq => by
    rw [Expr.queried] at hq
    rw [Expr.evaluate, Expr.evaluate, h.offsetOf]
    exact law.bind (h.run q hroots hq) fun _ _ _ _ => law.done
  | .previewTest q name text invert, _, hroots, hq => by
    rw [Expr.queried.eq_def] at hq
    rw [Expr.evaluate_previewTest, Expr.evaluate_previewTest]
    refine law.bind (h.runOrRoots q hroots hq) fun found w₁ _ hfound =>
      law.bind (anyM (fun hi => ?_) found hfound) fun _ _ _ _ => law.done
    exact law.bind (h.preview name hi) fun _ _ _ _ => law.done
  | .instanceId q, _, hroots, hq => by
    rw [Expr.queried.eq_def] at hq
    rw [Expr.evaluate_instanceId, Expr.evaluate_instanceId, h.idOf]
    exact law.bind (h.runOrRoots q hroots hq) fun _ _ _ _ => law.done
  | .error, _, _, _ => law.done

/-- An index that is left out is 0. -/
theorem evaluateIndex (h : law.Governs env env') : (i : Option Expr) → {w : World} →
    (∀ i ∈ env.roots, law.Found w i) →
    (∀ struct ∈ (match i with
      | some e => e.queried
      | none => []), law.Asked struct) →
    law.Holds w (Expr.evaluateIndex env i) (Expr.evaluateIndex env' i) tellsNone
  | none, _, _, _ => law.done
  | some e, _, hroots, hq => h.evaluate e hroots hq

/-- Without a query the roots are meant. -/
theorem runOrRoots (h : law.Governs env env') : (q : Option Query) → {w : World} →
    (∀ i ∈ env.roots, law.Found w i) →
    (∀ struct ∈ (match q with
      | some q => q.queried
      | none => []), law.Asked struct) →
    law.Holds w (Query.runOrRoots env q) (Query.runOrRoots env' q) id
  | none, _, hroots, _ => by
    rw [Query.runOrRoots, Query.runOrRoots, h.roots]
    exact law.pure hroots
  | some q, _, hroots, hq => h.run q hroots hq

/-- **A law holds of queries**, and they tell of the instances found. -/
theorem run (h : law.Governs env env') : (q : Query) → {w : World} →
    (∀ i ∈ env.roots, law.Found w i) → (∀ struct ∈ q.queried, law.Asked struct) →
    law.Holds w (q.run env) (q.run env') id
  | .root struct isGlobal filters, _, hroots, hq => by
    rw [Query.queried] at hq
    obtain ⟨hstruct, hfilters⟩ := List.forall_mem_cons.mp hq
    rw [Query.run, Query.run]
    refine law.bind (h.conditions filters hroots hfilters) fun values w₁ hlater₁ _ => ?_
    have hroots₁ := stayAll hlater₁ hroots
    refine law.bind (h.instancesOf isGlobal _ hstruct) fun found w₂ hlater₂ hfound => ?_
    exact h.select filters (stayAll hlater₂ hroots₁) hfilters found hfound
  | .sub parent field filters, _, hroots, hq => by
    rw [Query.queried.eq_def] at hq
    obtain ⟨hparent, hfilters⟩ := List.forall_mem_append.mp hq
    rw [Query.run_sub, Query.run_sub]
    refine law.bind (h.runOrRoots parent hroots hparent) fun parents w₁ hlater₁ hparents => ?_
    have hroots₁ := stayAll hlater₁ hroots
    refine law.bind (h.conditions filters hroots₁ hfilters) fun values w₂ hlater₂ _ => ?_
    refine law.bind (h.children field _ (stayAll hlater₂ hparents)) fun found w₃ hlater₃ hfound => ?_
    exact h.select filters (stayAll hlater₃ (stayAll hlater₂ hroots₁)) hfilters found hfound
  | .error, _, _, _ => law.pure fun _ hi => absurd hi List.not_mem_nil

theorem conditions (h : law.Governs env env') : (f : Filters) → {w : World} →
    (∀ i ∈ env.roots, law.Found w i) → (∀ struct ∈ f.queried, law.Asked struct) →
    law.Holds w (f.conditions env) (f.conditions env') tellsNone
  | .mk _ values _, _, hroots, hq => by
    rw [Filters.queried.eq_def] at hq
    rw [Filters.conditions, Filters.conditions]
    exact h.evaluateValues values hroots (List.forall_mem_append.mp hq).1

theorem select (h : law.Governs env env') : (f : Filters) → {w : World} →
    (∀ i ∈ env.roots, law.Found w i) → (∀ struct ∈ f.queried, law.Asked struct) →
    (found : List ι) → (∀ i ∈ found, law.Found w i) →
    law.Holds w (f.select env found) (f.select env' found) id
  | .mk _ _ none, _, _, _, found, hfound => by
    rw [Filters.select, Filters.select]
    exact law.pure hfound
  | .mk _ _ (some e), _, hroots, hq, found, hfound => by
    rw [Filters.queried.eq_def] at hq
    rw [Filters.select, Filters.select, h.offsetOf]
    exact law.bind (h.evaluate e hroots (List.forall_mem_append.mp hq).2) fun _ _ hlater _ =>
      law.pure fun i hi => law.stays hlater (hfound i (mem_selectRank hi))

theorem evaluateValues (h : law.Governs env env') : (vs : List (String × Expr)) → {w : World} →
    (∀ i ∈ env.roots, law.Found w i) → (∀ struct ∈ valuesQueried vs, law.Asked struct) →
    law.Holds w (ByteAtlas.evaluateValues env vs) (ByteAtlas.evaluateValues env' vs) tellsNone
  | [], _, _, _ => law.done
  | (_, e) :: vs, _, hroots, hq => by
    rw [valuesQueried] at hq
    obtain ⟨he, hvs⟩ := List.forall_mem_append.mp hq
    rw [ByteAtlas.evaluateValues, ByteAtlas.evaluateValues]
    exact law.bind (h.evaluate e hroots he) fun _ _ hlater _ =>
      law.bind (h.evaluateValues vs (stayAll hlater hroots) hvs) fun _ _ _ _ => law.done

end

end Governs

end Law

end

end ByteAtlas
