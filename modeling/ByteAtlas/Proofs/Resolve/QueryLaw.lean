import ByteAtlas.Proofs.Resolve.WalkLaw

/-!
# What queries keep

The environment of an expression looks at the instances that there are, gathers the children of one
parent after another, and asks single instances for names and conditions. So a law holds of it if
it holds of these (`Law.Searches.environment`), and that is so if it holds of walks
(`Law.Walks.searches`).
-/

namespace ByteAtlas

/-! ## 1. One parent -/

/-- The children in a field of one instance that meet all conditions, after the ones that are
gathered already. -/
def Resolver.gatherFrom (resolver : Resolver) (field : String) (filter : QueryFilter)
    (r : InstanceRef) (found : List InstanceRef) : Resolve (List InstanceRef) := do
  match (← structOf? r).bind fun d => d.fieldIndex? field with
  | none => pure found
  | some i =>
    if (← Resolve.ask fun ws => ws.holdsChildren r i) then
      if (← resolver.isPresent r i false) = some true then
        let (found, _) ← resolver.walk r i none .query (resolver.gatherMeeting filter) found
        pure found
      else pure found
    else pure found

/-- The parents are asked one after another. -/
theorem Resolver.findChildren_cons (resolver : Resolver) (field : String) (filter : QueryFilter)
    (r : InstanceRef) (rs found : List InstanceRef) :
    resolver.findChildren field filter (r :: rs) found =
      resolver.gatherFrom field filter r found >>= resolver.findChildren field filter rs := by
  unfold Resolver.findChildren Resolver.gatherFrom
  rw [bind_assoc]
  refine bind_congr fun d => ?_
  cases d.bind fun d => d.fieldIndex? field with
  | none => rfl
  | some i =>
    dsimp only
    rw [bind_assoc]
    refine bind_congr fun holds => ?_
    split
    · rw [bind_assoc]
      refine bind_congr fun present => ?_
      split
      · rw [bind_assoc]
        rfl
      · rfl
    · rfl

variable {World : Type} {law : Law Resolve InstanceRef World} {a b : Resolver}

/-! ## 2. Queries -/

/-- **Whether a law holds of what an environment asks for.** -/
structure Law.Searches (law : Law Resolve InstanceRef World) (a b : Resolver) : Prop where
  read : ∀ {w : World} (file : FileId) (offset : Int64) (length : Nat),
    law.Holds w (Resolve.ask fun ws => ws.read file offset length)
      (Resolve.ask fun ws => ws.read file offset length) tellsNone
  instances : ∀ {w : World} {struct : String} (file : Option FileId), law.Asked struct →
    law.Holds w (Resolve.ask fun ws => (ws.directory.instancesOf struct file).map Instance.ref)
      (Resolve.ask fun ws => (ws.directory.instancesOf struct file).map Instance.ref) id
  lookup : ∀ {w : World} {r : InstanceRef} (scope : Scope) (name : String) (index : Int64)
    (isOffset : Bool), law.Found w r →
    law.Holds w (a.lookup scope r name index isOffset) (b.lookup scope r name index isOffset)
      tellsNone
  preview : ∀ {w : World} {r : InstanceRef} (scope : Scope) (name : String), law.Found w r →
    law.Holds w (a.namedPreview scope r name) (b.namedPreview scope r name) tellsNone
  meets : ∀ {w : World} {r : InstanceRef} (filter : QueryFilter), law.Found w r →
    law.Holds w (a.meets r filter) (b.meets r filter) tellsNone
  gather : ∀ {w : World} {r : InstanceRef} {found : List InstanceRef} (field : String)
    (filter : QueryFilter), law.Found w r → (∀ child ∈ found, law.Found w child) →
    law.Holds w (a.gatherFrom field filter r found) (b.gatherFrom field filter r found) id

namespace Law.Searches

open Law (stayAll)

variable (h : law.Searches a b)
include h

/-- What is kept of some instances. -/
theorem keepMeeting (filter : QueryFilter) (rs : List InstanceRef) : ∀ {w : World},
    (∀ r ∈ rs, law.Found w r) →
      law.Holds w (a.keepMeeting filter rs) (b.keepMeeting filter rs) id := by
  induction rs with
  | nil => exact fun hrs => law.pure hrs
  | cons r rs ih =>
    intro w hrs
    obtain ⟨hr, hrs⟩ := List.forall_mem_cons.mp hrs
    refine law.bind (h.meets filter hr) fun keep w₁ hlater₁ _ =>
      law.bind (ih (stayAll hlater₁ hrs)) fun rest w₂ hlater₂ hrest => law.pure ?_
    show ∀ i ∈ (if keep then r :: rest else rest), law.Found w₂ i
    split
    · exact List.forall_mem_cons.mpr ⟨law.stays hlater₂ (law.stays hlater₁ hr), hrest⟩
    · exact hrest

/-- **The children of some parents**, by induction on these. -/
theorem findChildren (field : String) (filter : QueryFilter) (parents : List InstanceRef) :
    ∀ {w : World} (found : List InstanceRef), (∀ r ∈ parents, law.Found w r) →
      (∀ r ∈ found, law.Found w r) →
      law.Holds w (a.findChildren field filter parents found)
        (b.findChildren field filter parents found) id := by
  induction parents with
  | nil => exact fun _ _ hfound => law.pure hfound
  | cons r rs ih =>
    intro w found hparents hfound
    obtain ⟨hr, hrs⟩ := List.forall_mem_cons.mp hparents
    rw [Resolver.findChildren_cons, Resolver.findChildren_cons]
    exact law.bind (h.gather field filter hr hfound) fun found' w₁ hlater₁ hfound' =>
      ih found' (stayAll hlater₁ hrs) hfound'

/-- **A law governs the environment of an expression.** -/
theorem environment (scope : Scope) : law.Governs (a.environment scope) (b.environment scope) where
  roots := rfl
  offsetOf := rfl
  idOf := rfl
  lookup name index isOffset hr := h.lookup scope name index isOffset hr
  children {_ parents} field filter hparents := law.ite (fun _ => law.pure fun _ hr => nomatch hr)
    fun _ => h.findChildren field filter parents [] hparents fun _ hr => nomatch hr
  instancesOf _ filter hasked := law.ite (fun _ => law.pure fun _ hr => nomatch hr)
    fun _ => law.bind (h.instances _ hasked) fun found _ _ hfound =>
      h.keepMeeting filter found hfound
  read offset length := h.read scope.root.file offset length
  preview name hr := h.preview scope name hr

end Law.Searches

/-! ## 3. Walks along children -/

namespace Law.Walks

open Law (stayAll)

variable (h : law.Walks a b .query)
include h

theorem meets {w : World} {r : InstanceRef} (filter : QueryFilter) (hr : law.Found w r) :
    law.Holds w (a.meets r filter) (b.meets r filter) tellsNone :=
  h.asks hr ((h.answers hr).meets filter)

/-- The visitor that gathers children. -/
theorem gatherMeeting (filter : QueryFilter) :
    law.Visits h.Child id (a.gatherMeeting filter) (b.gatherMeeting filter) := by
  intro w found child hchild hfound
  have hc := h.found hchild
  refine law.ite (fun _ => law.pure hfound) fun _ =>
    law.bind (h.meets filter hc) fun _ w₁ hlater₁ _ => ?_
  have hfound₁ := stayAll hlater₁ hfound
  refine law.ite (fun _ => law.pure fun r hr => ?_) fun _ => law.pure hfound₁
  rcases List.mem_append.mp hr with hr | hr
  · exact hfound₁ r hr
  · rw [List.mem_singleton.mp hr]
    exact law.stays hlater₁ hc

/-- **A walk gathers children.** -/
theorem gather {w : World} {r : InstanceRef} {found : List InstanceRef} (filter : QueryFilter)
    (hr : law.Found w r) (i : Nat) (hfound : ∀ child ∈ found, law.Found w child) :
    law.Holds w (a.walk r i none .query (a.gatherMeeting filter) found)
      (b.walk r i none .query (b.gatherMeeting filter) found) fun x => x.1 :=
  have hv : law.Visits h.Child id (a.gatherMeeting filter) (b.gatherMeeting filter) :=
    h.gatherMeeting filter
  h.walk hv hr i none hfound

theorem gatherFrom {w : World} {r : InstanceRef} {found : List InstanceRef} (field : String)
    (filter : QueryFilter) (hr : law.Found w r) (hfound : ∀ child ∈ found, law.Found w child) :
    law.Holds w (a.gatherFrom field filter r found) (b.gatherFrom field filter r found) id := by
  unfold Resolver.gatherFrom
  refine law.bind (h.asks hr (h.fields hr).structOf) fun d w₁ hlater₁ _ => ?_
  have hfound₁ := stayAll hlater₁ hfound
  cases d.bind fun d => d.fieldIndex? field with
  | none => exact law.pure hfound₁
  | some i =>
    have hr₁ := law.stays hlater₁ hr
    refine law.bind (h.asks hr₁ ((h.fields hr₁).holdsChildren i)) fun _ w₂ hlater₂ _ => ?_
    have hr₂ := law.stays hlater₂ hr₁
    have hfound₂ := stayAll hlater₂ hfound₁
    refine law.ite (fun _ => ?_) fun _ => law.pure hfound₂
    refine law.bind (h.asks hr₂ ((h.answers hr₂).isPresent i false)) fun _ w₃ hlater₃ _ => ?_
    have hfound₃ := stayAll hlater₃ hfound₂
    exact law.ite
      (fun _ => law.bind (h.gather filter (law.stays hlater₃ hr₂) i hfound₃)
        fun _ _ _ hfound₄ => law.pure hfound₄)
      fun _ => law.pure hfound₃

/-- **A law of walks is one of queries**, if it holds of looking at files and at the instances that
there are. -/
theorem searches
    (hread : ∀ {w : World} (file : FileId) (offset : Int64) (length : Nat),
      law.Holds w (Resolve.ask fun ws => ws.read file offset length)
        (Resolve.ask fun ws => ws.read file offset length) tellsNone)
    (hinstances : ∀ {w : World} {struct : String} (file : Option FileId), law.Asked struct →
      law.Holds w (Resolve.ask fun ws => (ws.directory.instancesOf struct file).map Instance.ref)
        (Resolve.ask fun ws => (ws.directory.instancesOf struct file).map Instance.ref) id)
    (hidle : ∀ {w : World} {r : InstanceRef} (hr : law.Found w r) (i n : Nat),
      (h.fields hr).Holds (a.walk r i (some n) .query .idle ())
        (b.walk r i (some n) .query .idle ())) : law.Searches a b where
  read := hread
  instances := hinstances
  lookup scope name index isOffset hr :=
    h.asks hr ((h.answers hr).lookup (hidle hr) scope name index isOffset)
  preview scope name hr := h.asks hr ((h.answers hr).namedPreview scope name)
  meets := h.meets
  gather := h.gatherFrom

end Law.Walks

end ByteAtlas
