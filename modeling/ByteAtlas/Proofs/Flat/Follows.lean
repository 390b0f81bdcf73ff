import ByteAtlas.Proofs.Flat.Agreement
import ByteAtlas.Resolve.Frames

/-!
# Steps that tell the truth

A step about the fields that are laid out keeps the layout at its stage. `Site.Yields` says so in
layers, because frames may be refused at any time. Whatever has happened, nothing but what is known
about fields has changed (`Workspace.Steady`), and the promise is `told`. If the layout was at a
stage and nothing has been begun that may be wrong, it still is at this stage. If moreover no frame
was refused, the promise is kept (`affirms`), and the layout is at its stage in any case.

What is known about the course of a step is gathered in two conditions: `known` holds whether or not
frames were refused, `good` unless one was. Most steps follow a reference (`Site.Follows`).
-/

namespace ByteAtlas

/-- **What a step promises**: about its start, result and end whatever has happened, and about its
result and end unless a frame was refused. -/
structure Promise (α : Type) where
  told : Workspace → α → Workspace → Prop
  affirms : Except Fault α → Workspace → Prop

namespace Promise

variable {α : Type}

/-- The result is that of a reference. -/
def equal (ref : Except Fault α) : Promise α := ⟨fun _ _ _ => True, fun result _ => result = ref⟩

/-- The result is that of a reference, and the entry of a field is left as it is. -/
def aside (r : InstanceRef) (i : Nat) (ref : Except Fault α) : Promise α :=
  ⟨fun ws _ ws' => ws'.entryOf? r i = ws.entryOf? r i, fun result _ => result = ref⟩

/-- What the rest of a step has to promise that has begun in a workspace. -/
def since (p : Promise α) (ws : Workspace) : Promise α := ⟨fun _ => p.told ws, p.affirms⟩

end Promise

/-- **What a course of steps may do** to a workspace: what has been begun on an instance stays
begun, and no refusal is taken back. -/
class Workspace.Course (r : InstanceRef) (changes : Workspace → Workspace → Prop) : Prop where
  refl : ∀ ws : Workspace, changes ws ws
  trans : ∀ {ws₁ ws₂ ws₃ : Workspace}, changes ws₁ ws₂ → changes ws₂ ws₃ → changes ws₁ ws₃
  refusals : ∀ {ws ws' : Workspace}, changes ws ws' → ws.refusals ≤ ws'.refusals
  onward : ∀ {ws ws' : Workspace}, changes ws ws' → ws.Onward r ws'

instance {r : InstanceRef} {b c : Nat} : Workspace.Course r (Workspace.Steady r b c) where
  refl := .refl r b c
  trans := .trans
  refusals := Workspace.Steady.refusals
  onward := Workspace.Steady.onward

namespace Site

variable {α β : Type}

/-- **A step that keeps its promise.** In the end `kept` holds, unless something has been begun that
may be wrong. -/
structure Leads (site : Site) (changes : Workspace → Workspace → Prop) (kept : Workspace → Prop)
    (known good : Prop) (ws : Workspace) (step : Resolve α) (p : Promise α) : Prop where
  changes : changes ws (step.runIn ws).2
  told : ∀ a, (step.runIn ws).1 = .ok a → p.told ws a (step.runIn ws).2
  spared : known → ws.Spares site.ref (step.runIn ws).2 → ∀ a, (step.runIn ws).1 = .ok a →
    kept (step.runIn ws).2
  result : known → good → (step.runIn ws).2.refusals = ws.refusals →
    p.affirms (step.runIn ws).1 (step.runIn ws).2 ∧
      ∀ a, (step.runIn ws).1 = .ok a → kept (step.runIn ws).2

/-- **A step about the fields that are laid out**, which keeps the layout at its stage. -/
abbrev Yields (site : Site) (b c : Nat) (s : Stage) (known good : Prop) (ws : Workspace)
    (step : Resolve α) (p : Promise α) : Prop :=
  site.Leads (Workspace.Steady site.ref b c) (site.AtStage s) known good ws step p

/-- **A step that does so wherever the fields are laid out**, if `given` holds. -/
structure Follows (site : Site) (given : Prop) (b c : Nat) (s : Stage) (step : Resolve α)
    (p : Promise α) : Prop where
  yields : ∀ {ws : Workspace}, site.Ready b ws →
    site.Yields b c s (given ∧ site.AtStage s ws) True ws step p

/-- What a result that is known came of. -/
theorem of_map_some_eq {x : Except Fault α} {a : Option α} (h : some <$> x = .ok a) :
    ∃ b, x = .ok b ∧ a = some b := by
  cases x with
  | error _ => cases h
  | ok b =>
    cases h
    exact ⟨b, rfl, rfl⟩

theorem of_map_some_eq_error {x : Except Fault α} {fault : Fault}
    (h : some <$> x = .error fault) : x = .error fault := by
  cases x with
  | error _ =>
    cases h
    rfl
  | ok _ => cases h

/-! ## 1. Rules -/

namespace Leads

section

variable {site : Site} {changes changes' : Workspace → Workspace → Prop}
  {kept kept' : Workspace → Prop} {known known' good good' : Prop} {ws : Workspace}
  {step : Resolve α} {next : α → Resolve β} {p p' : Promise α} {q : Promise β}

/-- A step of which the course is known. -/
theorem of_run {result : Except Fault α} {ws' : Workspace} (hrun : step.runIn ws = (result, ws'))
    (hchanges : changes ws ws') (htold : ∀ a, result = .ok a → p.told ws a ws')
    (hkept : known → kept ws') (haffirms : known → good → p.affirms result ws') :
    site.Leads changes kept known good ws step p := by
  refine ⟨?_, ?_, ?_, ?_⟩ <;> rw [hrun]
  · exact hchanges
  · exact htold
  · exact fun hk _ _ _ => hkept hk
  · exact fun hk hg _ => ⟨haffirms hk hg, fun _ _ => hkept hk⟩

theorem mono (h : site.Leads changes kept known good ws step p) (hk : known' → known)
    (hg : known' → good' → good) (ht : ∀ a ws', p.told ws a ws' → p'.told ws a ws')
    (hp : ∀ result ws', known' → good' → p.affirms result ws' → p'.affirms result ws') :
    site.Leads changes kept known' good' ws step p' where
  changes := h.changes
  told a ha := ht a _ (h.told a ha)
  spared hk' := h.spared (hk hk')
  result hk' hg' hr :=
    ⟨hp _ _ hk' hg' (h.result (hk hk') (hg hk' hg') hr).1, (h.result (hk hk') (hg hk' hg') hr).2⟩

/-- Other conditions. -/
theorem weaken (h : site.Leads changes kept known good ws step p) (hk : known' → known)
    (hg : known' → good' → good) : site.Leads changes kept known' good' ws step p :=
  h.mono hk hg (fun _ _ => id) fun _ _ _ _ => id

/-- Other changes, and something else that is kept. What has been changed is noted. -/
theorem widen (h : site.Leads changes kept known good ws step p)
    (hchanges : ∀ ws', changes ws ws' → changes' ws ws')
    (hkept : ∀ ws', changes ws ws' → known → kept ws' → kept' ws') :
    site.Leads changes' kept' known good ws step
      ⟨fun ws a ws' => changes ws ws' ∧ p.told ws a ws', p.affirms⟩ where
  changes := hchanges _ h.changes
  told a ha := ⟨h.changes, h.told a ha⟩
  spared hk hs a ha := hkept _ h.changes hk (h.spared hk hs a ha)
  result hk hg hr :=
    ⟨(h.result hk hg hr).1, fun a ha => hkept _ h.changes hk ((h.result hk hg hr).2 a ha)⟩

/-- Looking at the workspace. -/
theorem ask {f : Workspace → α} (h : site.Leads changes kept known good ws (next (f ws)) q) :
    site.Leads changes kept known good ws (Resolve.ask f >>= next) q := by
  have hrun : (Resolve.ask f >>= next).runIn ws = (next (f ws)).runIn ws := by
    rw [Resolve.runIn_bind, Resolve.runIn_ask]
  exact ⟨hrun ▸ h.changes, hrun ▸ h.told, hrun ▸ h.spared, hrun ▸ h.result⟩

/-- Looking at all of the workspace. -/
theorem get {next : Workspace → Resolve β}
    (h : site.Leads changes kept known good ws (next ws) q) :
    site.Leads changes kept known good ws (MonadState.get >>= next) q :=
  ⟨h.changes, h.told, h.spared, h.result⟩

theorem map {f : α → β}
    (h : site.Leads changes kept known good ws step
      ⟨fun ws a => q.told ws (f a), fun result => q.affirms (result.map f)⟩) :
    site.Leads changes kept known good ws (f <$> step) q := by
  have hrun := Resolve.runIn_map f step ws
  obtain ⟨hchanges, htold, hspared, hresult⟩ := h
  cases hstep : step.runIn ws with
  | mk result ws' =>
    rw [hstep] at hrun hchanges htold hspared hresult
    refine ⟨?_, ?_, ?_, ?_⟩ <;> rw [hrun]
    · exact hchanges
    · intro b hb
      cases result with
      | error _ => cases hb
      | ok a =>
        cases hb
        exact htold a rfl
    · intro hk hspares b hb
      cases result with
      | error _ => cases hb
      | ok a => exact hspared hk hspares a rfl
    · intro hk hg hr
      refine ⟨(hresult hk hg hr).1, fun b hb => ?_⟩
      cases result with
      | error _ => cases hb
      | ok a => exact (hresult hk hg hr).2 a rfl

/-- **A result that is not known where a frame was refused.** If there is one, no frame was
refused. -/
theorem unlessCutShort {step : Resolve (Option α)} {p : Promise (Option α)}
    (h : site.Leads changes kept known True ws step p) :
    site.Leads changes kept known True ws (ByteAtlas.unlessCutShort step)
      ⟨fun ws a ws' => (∃ a', p.told ws a' ws') ∧
        (known → ∀ x, a = some x → p.affirms (.ok (some x)) ws'), p.affirms⟩ := by
  obtain ⟨hchanges, htold, hspared, hresult⟩ := h
  cases hrun : step.runIn ws with
  | mk result ws₁ =>
    rw [hrun] at hchanges htold hspared hresult
    dsimp only at hchanges htold hspared hresult
    cases result with
    | error fault =>
      have hrun' : (ByteAtlas.unlessCutShort step).runIn ws = (.error fault, ws₁) := by
        simp only [ByteAtlas.unlessCutShort, Resolve.runIn_bind, Resolve.runIn_ask, hrun]
      refine ⟨?_, ?_, ?_, ?_⟩ <;> rw [hrun']
      · exact hchanges
      · exact fun _ h => nomatch h
      · exact fun _ _ _ h => nomatch h
      · exact fun hk hg hr => ⟨(hresult hk hg hr).1, fun _ h => nomatch h⟩
    | ok a =>
      have hrun' : (ByteAtlas.unlessCutShort step).runIn ws =
          (.ok (if ws₁.refusals = ws.refusals then a else none), ws₁) := by
        simp only [ByteAtlas.unlessCutShort, Resolve.runIn_bind, Resolve.runIn_ask, hrun,
          Resolve.runIn_pure]
      refine ⟨?_, ?_, ?_, ?_⟩ <;> rw [hrun']
      · exact hchanges
      · intro x hx
        cases hx
        refine ⟨⟨a, htold a rfl⟩, fun hk x hx => ?_⟩
        split at hx
        · rename_i hr
          exact hx ▸ (hresult hk trivial hr).1
        · cases hx
      · exact fun hk hspares _ _ => hspared hk hspares a rfl
      · intro hk hg hr
        have hr : ws₁.refusals = ws.refusals := hr
        rw [if_pos hr]
        exact ⟨(hresult hk hg hr).1, fun _ _ => (hresult hk hg hr).2 a rfl⟩

/-- A step that is refused a frame. -/
theorem refused {result : Except Fault α}
    (hrun : step.runIn ws = (result, (refuseFrame.runIn ws).2))
    (hchanges : changes ws (refuseFrame.runIn ws).2) (htold : ∀ a ws', p.told ws a ws')
    (hkept : known → kept (refuseFrame.runIn ws).2) :
    site.Leads changes kept known good ws step p := by
  refine ⟨?_, ?_, ?_, ?_⟩ <;> rw [hrun]
  · exact hchanges
  · exact fun _ _ => htold _ _
  · exact fun hk _ _ _ => hkept hk
  · exact fun _ _ hr => absurd hr (Nat.succ_ne_self _)

/-- **A step within one more frame.** -/
theorem inFrame {q : Promise (Option α)}
    (h : site.Leads changes kept known True { ws with depth := ws.depth + 1 } step p)
    (hchanges : ∀ ws' depth, changes { ws with depth := ws.depth + 1 } ws' →
      changes ws { ws' with depth })
    (hrefused : changes ws (refuseFrame.runIn ws).2)
    (hkept : ∀ ws' depth, kept ws' → kept { ws' with depth })
    (hkept' : known → kept (refuseFrame.runIn ws).2) (htold : ∀ a ws', q.told ws a ws')
    (haffirms : ∀ result ws' depth, p.affirms result ws' →
      q.affirms (result.map some) { ws' with depth }) :
    site.Leads changes kept known True ws (ByteAtlas.inFrame step) q := by
  by_cases hd : ws.depth < ws.limits.maxDepth
  · have hrun := runIn_inFrame_of_lt step hd
    obtain ⟨hchanged, _, hspared, hresult⟩ := h
    cases hstep : step.runIn { ws with depth := ws.depth + 1 } with
    | mk result ws₁ =>
      rw [hstep] at hrun hchanged hspared hresult
      cases result with
      | error fault =>
        refine ⟨?_, ?_, ?_, ?_⟩ <;> rw [hrun]
        · exact hchanges ws₁ ws₁.depth hchanged
        · exact fun _ hok => nomatch hok
        · exact fun _ _ _ hok => nomatch hok
        · exact fun hk _ hr =>
            ⟨haffirms _ ws₁ ws₁.depth (hresult hk trivial hr).1, fun _ hok => nomatch hok⟩
      | ok a =>
        refine ⟨?_, ?_, ?_, ?_⟩ <;> rw [hrun]
        · exact hchanges ws₁ _ hchanged
        · exact fun _ _ => htold _ _
        · exact fun hk hspares _ _ => hkept ws₁ _ (hspared hk hspares a rfl)
        · intro hk _ hr
          obtain ⟨haffirms', hkept₁⟩ := hresult hk trivial hr
          exact ⟨haffirms _ ws₁ _ haffirms', fun _ _ => hkept ws₁ _ (hkept₁ a rfl)⟩
  · exact .refused (runIn_inFrame_of_le step (Nat.not_lt.mp hd)) hrefused htold hkept'

variable [Workspace.Course site.ref changes]

/-- A result that is there already. -/
theorem pure {a : α} (htold : p.told ws a ws) (hkept : known → kept ws)
    (haffirms : known → good → p.affirms (.ok a) ws) :
    site.Leads changes kept known good ws (Pure.pure a) p :=
  .of_run rfl (Workspace.Course.refl site.ref ws) (fun _ h => Except.ok.inj h ▸ htold) hkept haffirms

/-- **One step after another.** -/
theorem call (h : site.Leads changes kept known good ws step p)
    (hn : ∀ a ws₁, changes ws ws₁ → p.told ws a ws₁ →
      site.Leads changes kept' (known ∧ kept ws₁) (good ∧ p.affirms (.ok a) ws₁) ws₁ (next a)
        (q.since ws))
    (he : ∀ fault ws₁, known → good → p.affirms (.error fault) ws₁ → q.affirms (.error fault) ws₁) :
    site.Leads changes kept' known good ws (step >>= next) q := by
  obtain ⟨hchanges, htold, hspared, hresult⟩ := h
  cases hrun : step.runIn ws with
  | mk result ws₁ =>
    rw [hrun] at hchanges htold hspared hresult
    dsimp only at hchanges htold hspared hresult
    cases result with
    | error fault =>
      have hrun' : (step >>= next).runIn ws = (.error fault, ws₁) := by
        rw [Resolve.runIn_bind, hrun]
      refine ⟨?_, ?_, ?_, ?_⟩ <;> rw [hrun']
      · exact hchanges
      · exact fun _ h => nomatch h
      · exact fun _ _ _ h => nomatch h
      · exact fun hk hg hr => ⟨he fault ws₁ hk hg (hresult hk hg hr).1, fun _ h => nomatch h⟩
    | ok a =>
      have hrun' : (step >>= next).runIn ws = (next a).runIn ws₁ := by
        rw [Resolve.runIn_bind, hrun]
      obtain ⟨hchanges', htold', hspared', hresult'⟩ := hn a ws₁ hchanges (htold a rfl)
      refine ⟨?_, ?_, ?_, ?_⟩ <;> rw [hrun']
      · exact Workspace.Course.trans site.ref hchanges hchanges'
      · exact htold'
      · intro hk hspares
        have hkept := hspared hk (hspares.first (Workspace.Course.onward hchanges')) a rfl
        exact hspared' ⟨hk, hkept⟩ (hspares.rest (Workspace.Course.onward hchanges))
      · intro hk hg hr
        have hle := Workspace.Course.refusals site.ref hchanges
        have hle' := Workspace.Course.refusals site.ref hchanges'
        obtain ⟨haffirms, hkept⟩ := hresult hk hg (by omega)
        exact hresult' ⟨hk, hkept a rfl⟩ ⟨hg, haffirms⟩ (by omega)

/-- Changing the workspace. -/
theorem change {f : Workspace → Workspace} {next : Unit → Resolve β} (hf : changes ws (f ws))
    (hr : (f ws).refusals = ws.refusals)
    (hkept : known → good ∨ ws.Spares site.ref (f ws) → kept (f ws))
    (h : site.Leads changes kept' (known ∧ kept (f ws)) good (f ws) (next ()) (q.since ws)) :
    site.Leads changes kept' known good ws (Resolve.change f >>= next) q := by
  have hrun : (Resolve.change f >>= next).runIn ws = (next ()).runIn (f ws) := by
    rw [Resolve.runIn_bind, Resolve.runIn_change]
  refine ⟨?_, ?_, ?_, ?_⟩ <;> rw [hrun]
  · exact Workspace.Course.trans site.ref hf h.changes
  · exact h.told
  · intro hk hspares
    have hfirst := hspares.first (Workspace.Course.onward (r := site.ref) h.changes)
    exact h.spared ⟨hk, hkept hk (.inr hfirst)⟩
      (hspares.rest (Workspace.Course.onward hf))
  · intro hk hg hr'
    exact h.result ⟨hk, hkept hk (.inl hg)⟩ hg (hr'.trans hr.symm)

/-- Such a result, in the course of another step. -/
theorem guarded {step : Resolve (Option α)} {next : Option α → Resolve β} {p : Promise (Option α)}
    (h : site.Leads changes kept known True ws step p)
    (hn : ∀ a ws₁, changes ws ws₁ → (∃ a', p.told ws a' ws₁) →
      site.Leads changes kept'
        (known ∧ kept ws₁ ∧ ∀ x, a = some x → p.affirms (.ok (some x)) ws₁)
        (good ∧ p.affirms (.ok a) ws₁) ws₁ (next a) (q.since ws))
    (he : ∀ fault ws₁, known → good → p.affirms (.error fault) ws₁ → q.affirms (.error fault) ws₁) :
    site.Leads changes kept' known good ws (ByteAtlas.unlessCutShort step >>= next) q := by
  refine call (h.unlessCutShort.weaken id fun _ _ => trivial) (fun a ws₁ hchanges htold => ?_) he
  exact (hn a ws₁ hchanges htold.1).weaken (fun hk => ⟨hk.1, hk.2, htold.2 hk.1⟩) fun _ => id

end

section

variable {site : Site} {b c : Nat} {s : Stage} {known good : Prop} {ws : Workspace}
  {step : Resolve α} {next : α → Resolve β} {p : Promise α} {q : Promise β}

/-- **Changing an entry.** -/
theorem modifyEntry {i : Nat} {g : FieldEntry → FieldEntry} {next : Unit → Resolve β} (hi : i < b)
    (hg : ∀ e, e.Onward (g e) ∧ (c ≤ i → (g e).preview = e.preview))
    (hstage : known →
      good ∨ ws.Spares site.ref (ws.modifyLayout site.ref (·.modifyEntry i g)) →
        site.AtStage s (ws.modifyLayout site.ref (·.modifyEntry i g)))
    (h : site.Yields b c s
      (known ∧ site.AtStage s (ws.modifyLayout site.ref (·.modifyEntry i g))) good
      (ws.modifyLayout site.ref (·.modifyEntry i g)) (next ()) (q.since ws)) :
    site.Yields b c s known good ws (ByteAtlas.modifyEntry site.ref i g >>= next) q :=
  .change (.modifyEntry hi hg) rfl hstage h

/-- **A step that follows a reference**, in the course of another one. -/
theorem follow {given : Prop} (h : site.Follows given b c s step p) (hready : site.Ready b ws)
    (hk : known → given ∧ site.AtStage s ws)
    (hn : ∀ a ws₁, site.Ready b ws₁ → p.told ws a ws₁ →
      site.Yields b c s (known ∧ site.AtStage s ws₁) (good ∧ p.affirms (.ok a) ws₁) ws₁ (next a)
        (q.since ws))
    (he : ∀ fault ws₁, known → good → p.affirms (.error fault) ws₁ → q.affirms (.error fault) ws₁) :
    site.Yields b c s known good ws (step >>= next) q :=
  .call ((h.yields hready).weaken hk fun _ _ => trivial)
    (fun a ws₁ hsteady htold => hn a ws₁ (hready.steady hsteady) htold) he

end

end Leads

namespace Follows

variable {site : Site} {given given' : Prop} {b b' c c' : Nat} {s : Stage} {step : Resolve α}
  {next : α → Resolve β} {ref : Except Fault α} {refNext : α → Except Fault β} {p : Promise α}

theorem pure (a : α) : site.Follows given b c s (Pure.pure a) (.equal (Pure.pure a)) :=
  ⟨fun _ => .pure trivial And.right fun _ _ => rfl⟩

theorem mono (h : site.Follows given b c s step p) (hgiven : given' → given) :
    site.Follows given' b c s step p :=
  ⟨fun hready => (h.yields hready).weaken (fun hk => ⟨hgiven hk.1, hk.2⟩) fun _ => id⟩

/-- More may change. -/
theorem widen (h : site.Follows given b c s step p) (hb : b ≤ b') (hc : c ≤ c') :
    site.Follows given b' c' s step p := by
  refine ⟨fun hready => ?_⟩
  obtain ⟨hsteady, htold, hspared, hresult⟩ := h.yields (hready.mono hb)
  exact ⟨hsteady.mono hb hc, htold, hspared, hresult⟩

/-- **A step about the fields before one** leaves the entry of that one as it is. -/
theorem aside {i : Nat} (h : site.Follows given i c s step (.equal ref)) (hc : c ≤ c') :
    site.Follows given (i + 1) c' s step (.aside site.ref i ref) := by
  refine ⟨fun hready => ?_⟩
  obtain ⟨hsteady, _, hspared, hresult⟩ := h.yields (hready.mono (Nat.le_succ i))
  exact ⟨hsteady.mono (Nat.le_succ i) hc, fun _ _ => hsteady.later i (Nat.le_refl i), hspared,
    hresult⟩

/-- A step about a field that leaves its preview as it is. -/
theorem keepingPreview {i : Nat} (h : site.Follows given b i s step (.equal ref)) (hc : i ≤ c') :
    site.Follows given b c' s step
      ⟨fun ws _ ws' => ∀ e, ws.entryOf? site.ref i = some e →
        ∃ e', ws'.entryOf? site.ref i = some e' ∧ e'.preview = e.preview,
        fun result _ => result = ref⟩ := by
  refine ⟨fun hready => ?_⟩
  obtain ⟨hsteady, _, hspared, hresult⟩ := h.yields hready
  refine ⟨hsteady.mono (Nat.le_refl b) hc, fun _ _ e he => ?_, hspared, hresult⟩
  obtain ⟨e', he', _, hpreview⟩ := hsteady.entry i e he
  exact ⟨e', he', hpreview (Nat.le_refl i)⟩

/-- Another reference that is the same. -/
theorem of_eq {ref' : Except Fault α} (h : site.Follows given b c s step (.equal ref))
    (heq : given → ref = ref') : site.Follows given b c s step (.equal ref') :=
  ⟨fun hready => (h.yields hready).mono id (fun _ => id) (fun _ _ => id)
    fun _ _ hk _ hp => Eq.trans hp (heq hk.1)⟩

/-- **One step after another.** -/
theorem bind (h : site.Follows given b c s step (.equal ref))
    (hn : ∀ a, site.Follows given b c s (next a) (.equal (refNext a))) :
    site.Follows given b c s (step >>= next) (.equal (ref >>= refNext)) := by
  refine ⟨fun {ws} hready => .follow h hready id (fun a ws₁ hready₁ _ => ?_) ?_⟩
  · refine ((hn a).yields hready₁).mono (fun hk => ⟨hk.1.1, hk.2⟩) (fun _ _ => trivial)
      (fun _ _ _ => trivial) fun result _ _ hg hp => ?_
    have href : ref = .ok a := Eq.symm hg.2
    rw [href]
    exact hp
  · intro fault ws₁ _ _ href
    have href : ref = .error fault := Eq.symm href
    rw [href]
    rfl

theorem map (f : α → β) (h : site.Follows given b c s step (.equal ref)) :
    site.Follows given b c s (f <$> step) (.equal (f <$> ref)) := by
  rw [map_eq_pure_bind, map_eq_pure_bind]
  exact bind h fun a => pure (f a)

/-- Looking at what the site tells. -/
theorem ask {f : Workspace → α} {q : Promise β}
    (h : ∀ ws, site.ShownIn ws → site.Follows given b c s (next (f ws)) q) :
    site.Follows given b c s (Resolve.ask f >>= next) q :=
  ⟨fun hready => .ask ((h _ hready.shown).yields hready)⟩

/-- A step within one more frame. -/
theorem inFrame (h : site.Follows given b c s step (.equal ref)) :
    site.Follows given b c s (ByteAtlas.inFrame step) (.equal (some <$> ref)) := by
  refine ⟨fun {ws} hready => ?_⟩
  have hdeeper : site.Ready b { ws with depth := ws.depth + 1 } :=
    ⟨⟨hready.shown.struct, hready.shown.placed, hready.shown.files, hready.shown.limit⟩,
      hready.current, hready.count⟩
  refine ((h.yields hdeeper).weaken (fun hk => ⟨hk.1, hk.2.of_layoutOf rfl rfl⟩)
    fun _ => id).inFrame (fun ws' depth hsteady => ?_) ?_ (fun _ _ hstage => ?_) (fun hk => ?_)
    (fun _ _ => trivial) fun result _ _ href => ?_
  · exact ⟨⟨hsteady.schema, hsteady.files, hsteady.limits, hsteady.directory, hsteady.others⟩,
      hsteady.refusals, hsteady.stamp, hsteady.cursor, hsteady.measuring, hsteady.size,
      hsteady.count, hsteady.later, hsteady.entry⟩
  · exact .of_layoutOf ⟨rfl, rfl, rfl, rfl, fun _ _ => rfl⟩ (Nat.le_succ _) rfl
  · exact hstage.of_layoutOf rfl rfl
  · exact hk.2.of_layoutOf rfl rfl
  · have href : result = ref := href
    rw [href]
    rfl

end Follows

end Site

end ByteAtlas
