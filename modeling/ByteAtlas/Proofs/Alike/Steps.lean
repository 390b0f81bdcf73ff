import ByteAtlas.Resolve.Frames
import ByteAtlas.Proofs.Alike.Basic

/-!
# Steps that agree

`Resolve.Agree rel live step step' related new`: two steps, taken in related workspaces, end with
related results in related workspaces, as long as no frame is refused in either of them. The
instances of `live` have to be live for that; those that are live stay so, and `new` tells which
others the result tells of. A proof about a step goes along its definition. What relates the
workspaces may be another thing after the steps (`Resolve.AgreeTo`).

If the workspaces are alike and the steps are the same, so are the results (`Likeness.Steady`).
-/

namespace ByteAtlas

namespace Resolve

variable {α β γ δ : Type}

/-- Whether a step takes no refusal back. -/
def KeepsRefusals (step : Resolve α) : Prop := ∀ ws, ws.refusals ≤ (step.runIn ws).2.refusals

/-- A result tells of no instances. -/
def noRefs (_ : α) (_ : InstanceRef) : Prop := False

/-- **Whether two steps taken in related workspaces lead to what `post` tells of**, as long as no
frame is refused. -/
structure AgreeTo (rel : Workspace → Workspace → Prop) (live : InstanceRef → Prop)
    (step : Resolve α) (step' : Resolve β) (post : α → β → Workspace → Workspace → Prop)
    (new : α → InstanceRef → Prop) : Prop where
  refusals : step.KeepsRefusals
  refusals' : step'.KeepsRefusals
  quiet : ∀ {ws ws' ws₁ ws₁' : Workspace} {a : α} {b : β}, rel ws ws' →
    (∀ r, live r → ws.IsLive r) → step.runIn ws = (.ok a, ws₁) → step'.runIn ws' = (.ok b, ws₁') →
    ws₁.refusals = ws.refusals → ws₁'.refusals = ws'.refusals →
    post a b ws₁ ws₁' ∧ (∀ r, ws.IsLive r → ws₁.IsLive r) ∧ ∀ r, new a r → ws₁.IsLive r

/-- **Whether two steps agree** in related workspaces, as long as no frame is refused. -/
structure Agree (rel : Workspace → Workspace → Prop) (live : InstanceRef → Prop) (step : Resolve α)
    (step' : Resolve β) (related : α → β → Prop) (new : α → InstanceRef → Prop) : Prop where
  refusals : step.KeepsRefusals
  refusals' : step'.KeepsRefusals
  quiet : ∀ {ws ws' ws₁ ws₁' : Workspace} {a : α} {b : β}, rel ws ws' →
    (∀ r, live r → ws.IsLive r) → step.runIn ws = (.ok a, ws₁) → step'.runIn ws' = (.ok b, ws₁') →
    ws₁.refusals = ws.refusals → ws₁'.refusals = ws'.refusals →
    related a b ∧ rel ws₁ ws₁' ∧ (∀ r, ws.IsLive r → ws₁.IsLive r) ∧ ∀ r, new a r → ws₁.IsLive r

/-! ## 1. Refusals -/

namespace KeepsRefusals

variable {step : Resolve α} {next : α → Resolve β}

theorem pure (a : α) : KeepsRefusals (Pure.pure a) := fun _ => Nat.le_refl _

theorem ask (f : Workspace → α) : KeepsRefusals (Resolve.ask f) := fun _ => Nat.le_refl _

theorem update {f : Workspace → α × Workspace} (hf : ∀ ws, (f ws).2.refusals = ws.refusals) :
    KeepsRefusals (Resolve.update f) := fun ws => Nat.le_of_eq (hf ws).symm

theorem change {f : Workspace → Workspace} (hf : ∀ ws, ws.refusals ≤ (f ws).refusals) :
    KeepsRefusals (Resolve.change f) := hf

theorem bind (h : step.KeepsRefusals) (hn : ∀ a, (next a).KeepsRefusals) :
    (step >>= next).KeepsRefusals := by
  intro ws
  have hstep := h ws
  rw [runIn_bind]
  cases hrun : step.runIn ws with
  | mk result ws₁ =>
    rw [hrun] at hstep
    cases result with
    | ok a => exact Nat.le_trans hstep (hn a ws₁)
    | error fault => exact hstep

theorem ite {c : Prop} [Decidable c] {other : Resolve α} (h : step.KeepsRefusals)
    (h' : other.KeepsRefusals) : KeepsRefusals (if c then step else other) := by
  split
  · exact h
  · exact h'

theorem inFrame (h : step.KeepsRefusals) : (ByteAtlas.inFrame step).KeepsRefusals :=
  .bind (.ask _) fun _ => .ite
    (.bind (.change fun _ => Nat.le_refl _) fun _ => .bind h fun _ =>
      .bind (.change fun _ => Nat.le_refl _) fun _ => .pure _)
    (.bind (.change fun _ => Nat.le_succ _) fun _ => .pure _)

end KeepsRefusals

/-! ## 2. Rules -/

namespace AgreeTo

variable {rel : Workspace → Workspace → Prop} {live live' : InstanceRef → Prop} {step : Resolve α}
  {step' : Resolve β} {mid post : α → β → Workspace → Workspace → Prop}
  {new : α → InstanceRef → Prop} {next : α → Resolve γ} {next' : β → Resolve δ}
  {last : γ → δ → Workspace → Workspace → Prop} {last' : γ → InstanceRef → Prop}

theorem pure {a : α} {b : β} (h : ∀ {ws ws' : Workspace}, rel ws ws' → post a b ws ws')
    (hn : ∀ r, new a r → live r) :
    AgreeTo rel live (Pure.pure a) (Pure.pure b) post new := by
  refine ⟨.pure a, .pure b, fun hrel hlive hrun hrun' _ _ => ?_⟩
  cases hrun
  cases hrun'
  exact ⟨h hrel, fun _ hr => hr, fun r hr => hlive r (hn r hr)⟩

/-- **One step after another.** -/
theorem bind (h : AgreeTo rel live step step' mid new) (hm : ∀ a, (next a).KeepsRefusals)
    (hm' : ∀ b, (next' b).KeepsRefusals)
    (hn : ∀ a b, AgreeTo (mid a b) (fun r => new a r ∨ live r) (next a) (next' b) last last') :
    AgreeTo rel live (step >>= next) (step' >>= next') last last' := by
  refine ⟨h.refusals.bind hm, h.refusals'.bind hm', fun {ws ws' ws₂ ws₂' c d} hrel hlive hrun hrun'
    hquiet hquiet' => ?_⟩
  rw [runIn_bind] at hrun hrun'
  have hle := h.refusals ws
  have hle' := h.refusals' ws'
  cases hstep : step.runIn ws with
  | mk result ws₁ =>
    cases hstep' : step'.runIn ws' with
    | mk result' ws₁' =>
      rw [hstep] at hrun hle
      rw [hstep'] at hrun' hle'
      cases result with
      | error fault => cases hrun
      | ok a =>
        cases result' with
        | error fault => cases hrun'
        | ok b =>
          have hrun : (next a).runIn ws₁ = (.ok c, ws₂) := hrun
          have hrun' : (next' b).runIn ws₁' = (.ok d, ws₂') := hrun'
          have hle₁ := hm a ws₁
          have hle₁' := hm' b ws₁'
          rw [hrun] at hle₁
          rw [hrun'] at hle₁'
          have hle : ws.refusals ≤ ws₁.refusals := hle
          have hle' : ws'.refusals ≤ ws₁'.refusals := hle'
          have hle₁ : ws₁.refusals ≤ ws₂.refusals := hle₁
          have hle₁' : ws₁'.refusals ≤ ws₂'.refusals := hle₁'
          obtain ⟨hmid, hkept, hnew⟩ := h.quiet hrel hlive hstep hstep' (by omega) (by omega)
          obtain ⟨hlast, hkept₂, hnew₂⟩ := (hn a b).quiet hmid
            (fun r hr => hr.elim (hnew r) fun hr => hkept r (hlive r hr)) hrun hrun' (by omega)
            (by omega)
          exact ⟨hlast, fun r hr => hkept₂ r (hkept r hr), hnew₂⟩

/-- What runs the same in related workspaces is as good. -/
theorem congr {first : Resolve α} {first' : Resolve β} (hm : first.KeepsRefusals)
    (hm' : first'.KeepsRefusals)
    (hrun : ∀ {ws ws' : Workspace}, rel ws ws' → first.runIn ws = step.runIn ws ∧
      first'.runIn ws' = step'.runIn ws')
    (h : AgreeTo rel live step step' post new) : AgreeTo rel live first first' post new :=
  ⟨hm, hm', fun hrel hlive hstep hstep' =>
    h.quiet hrel hlive ((hrun hrel).1 ▸ hstep) ((hrun hrel).2 ▸ hstep')⟩

/-- Something more is given that does not depend on the workspaces. -/
theorem given {p : Prop} (hm : step.KeepsRefusals) (hm' : step'.KeepsRefusals)
    (h : p → AgreeTo rel live step step' post new) :
    AgreeTo (fun ws ws' => p ∧ rel ws ws') live step step' post new :=
  ⟨hm, hm', fun ⟨hp, hrel⟩ => (h hp).quiet hrel⟩

/-- More may be given, and less told of what comes of it. -/
theorem mono {rel' : Workspace → Workspace → Prop} {post' : α → β → Workspace → Workspace → Prop}
    (h : AgreeTo rel live step step' post new) (hrel : ∀ ws ws', rel' ws ws' → rel ws ws')
    (hpost : ∀ a b ws ws', post a b ws ws' → post' a b ws ws') :
    AgreeTo rel' live step step' post' new :=
  ⟨h.refusals, h.refusals', fun hrel' hlive hrun hrun' hquiet hquiet' =>
    (h.quiet (hrel _ _ hrel') hlive hrun hrun' hquiet hquiet').imp_left (hpost _ _ _ _)⟩

/-- More instances may be live. -/
theorem more (h : AgreeTo rel live step step' post new) (hl : ∀ r, live r → live' r) :
    AgreeTo rel live' step step' post new :=
  ⟨h.refusals, h.refusals', fun hrel hlive => h.quiet hrel fun r hr => hlive r (hl r hr)⟩

theorem ite {c : Prop} [Decidable c] {other : Resolve α} {other' : Resolve β}
    (h : c → AgreeTo rel live step step' post new)
    (h' : ¬ c → AgreeTo rel live other other' post new) :
    AgreeTo rel live (if c then step else other) (if c then step' else other') post new := by
  split
  · exact h ‹c›
  · exact h' ‹¬ c›

end AgreeTo

namespace Agree

variable {rel : Workspace → Workspace → Prop} {live live' : InstanceRef → Prop}
  {step : Resolve α} {step' : Resolve β} {related : α → β → Prop} {new : α → InstanceRef → Prop}
  {next : α → Resolve γ} {next' : β → Resolve δ} {last : γ → δ → Prop}
  {last' : γ → InstanceRef → Prop}

theorem pure {a : α} {b : β} (h : related a b) (hn : ∀ r, new a r → live r) :
    Agree rel live (Pure.pure a) (Pure.pure b) related new := by
  refine ⟨.pure a, .pure b, fun hrel hlive hrun hrun' _ _ => ?_⟩
  cases hrun
  cases hrun'
  exact ⟨h, hrel, fun _ hr => hr, fun r hr => hlive r (hn r hr)⟩

theorem ask {f : Workspace → α} {f' : Workspace → β}
    (h : ∀ {ws ws' : Workspace}, rel ws ws' → (∀ r, live r → ws.IsLive r) →
      related (f ws) (f' ws') ∧ ∀ r, new (f ws) r → ws.IsLive r) :
    Agree rel live (Resolve.ask f) (Resolve.ask f') related new := by
  refine ⟨.ask f, .ask f', fun hrel hlive hrun hrun' _ _ => ?_⟩
  cases hrun
  cases hrun'
  obtain ⟨hrelated, hnew⟩ := h hrel hlive
  exact ⟨hrelated, hrel, fun _ hr => hr, hnew⟩

theorem update {f : Workspace → α × Workspace} {f' : Workspace → β × Workspace}
    (hf : ∀ ws, (f ws).2.refusals = ws.refusals) (hf' : ∀ ws, (f' ws).2.refusals = ws.refusals)
    (h : ∀ {ws ws' : Workspace}, rel ws ws' → (∀ r, live r → ws.IsLive r) →
      related (f ws).1 (f' ws').1 ∧ rel (f ws).2 (f' ws').2 ∧
        (∀ r, ws.IsLive r → (f ws).2.IsLive r) ∧ ∀ r, new (f ws).1 r → (f ws).2.IsLive r) :
    Agree rel live (Resolve.update f) (Resolve.update f') related new := by
  refine ⟨.update hf, .update hf', fun hrel hlive hrun hrun' _ _ => ?_⟩
  cases hrun
  cases hrun'
  exact h hrel hlive

theorem change {f f' : Workspace → Workspace} (hf : ∀ ws, (f ws).refusals = ws.refusals)
    (hf' : ∀ ws, (f' ws).refusals = ws.refusals)
    (h : ∀ {ws ws' : Workspace}, rel ws ws' → (∀ r, live r → ws.IsLive r) →
      rel (f ws) (f' ws') ∧ ∀ r, ws.IsLive r → (f ws).IsLive r) :
    Agree rel live (Resolve.change f) (Resolve.change f') Eq noRefs := by
  refine ⟨.change fun ws => Nat.le_of_eq (hf ws).symm, .change fun ws => Nat.le_of_eq (hf' ws).symm,
    fun hrel hlive hrun hrun' _ _ => ?_⟩
  cases hrun
  cases hrun'
  obtain ⟨hrel', hlive'⟩ := h hrel hlive
  exact ⟨rfl, hrel', hlive', fun _ hr => nomatch hr⟩

/-- A step with a fault has no result. -/
theorem throw (fault : Fault) :
    Agree rel live (MonadExcept.throw fault) (MonadExcept.throw fault) related new :=
  ⟨fun _ => Nat.le_refl _, fun _ => Nat.le_refl _, fun _ _ hrun => nomatch hrun⟩

/-- Steps that agree lead to related results in related workspaces. -/
theorem agreeTo (h : Agree rel live step step' related new) :
    AgreeTo rel live step step' (fun a b ws ws' => related a b ∧ rel ws ws') new :=
  ⟨h.refusals, h.refusals', fun hrel hlive hrun hrun' hquiet hquiet' =>
    let ⟨hrelated, hrel₁, hrest⟩ := h.quiet hrel hlive hrun hrun' hquiet hquiet'
    ⟨⟨hrelated, hrel₁⟩, hrest⟩⟩

theorem of_agreeTo (h : AgreeTo rel live step step' (fun a b ws ws' => related a b ∧ rel ws ws') new) :
    Agree rel live step step' related new :=
  ⟨h.refusals, h.refusals', fun hrel hlive hrun hrun' hquiet hquiet' =>
    let ⟨⟨hrelated, hrel₁⟩, hrest⟩ := h.quiet hrel hlive hrun hrun' hquiet hquiet'
    ⟨hrelated, hrel₁, hrest⟩⟩

/-- **One step after another**, the first of which agrees. -/
theorem bindTo {post : γ → δ → Workspace → Workspace → Prop}
    (h : Agree rel live step step' related new) (hm : ∀ a, (next a).KeepsRefusals)
    (hm' : ∀ b, (next' b).KeepsRefusals)
    (hn : ∀ a b, related a b →
      AgreeTo rel (fun r => new a r ∨ live r) (next a) (next' b) post last') :
    AgreeTo rel live (step >>= next) (step' >>= next') post last' :=
  h.agreeTo.bind hm hm' fun a b => .given (hm a) (hm' b) (hn a b)

/-- **One step after another**, the first with the same result, which tells of no instances. -/
theorem bindSame {step' : Resolve α} {next' : α → Resolve δ}
    {post : γ → δ → Workspace → Workspace → Prop} (h : Agree rel live step step' Eq noRefs)
    (hn : ∀ a, AgreeTo rel live (next a) (next' a) post last') :
    AgreeTo rel live (step >>= next) (step' >>= next') post last' :=
  h.bindTo (fun a => (hn a).refusals) (fun a => (hn a).refusals') fun a _ he =>
    he ▸ (hn a).more fun _ => .inr

/-- **One step after another**, whatever is taken over. -/
theorem bindAny (h : Agree rel live step step' related new) (hm : ∀ a, (next a).KeepsRefusals)
    (hm' : ∀ b, (next' b).KeepsRefusals)
    (hn : ∀ a b, related a b →
      Agree rel (fun r => new a r ∨ live r) (next a) (next' b) last last') :
    Agree rel live (step >>= next) (step' >>= next') last last' :=
  .of_agreeTo (h.bindTo hm hm' fun a b hab => (hn a b hab).agreeTo)

/-- More instances may be live. -/
theorem more (h : Agree rel live step step' related new) (hl : ∀ r, live r → live' r) :
    Agree rel live' step step' related new :=
  ⟨h.refusals, h.refusals', fun hrel hlive => h.quiet hrel fun r hr => hlive r (hl r hr)⟩

/-- Less may be told of the result. -/
theorem mono {related' : α → β → Prop} {new' : α → InstanceRef → Prop}
    (h : Agree rel live step step' related new) (hr : ∀ a b, related a b → related' a b)
    (hn : ∀ a r, new' a r → new a r) : Agree rel live step step' related' new' := by
  refine ⟨h.refusals, h.refusals', fun hrel hlive hrun hrun' hquiet hquiet' => ?_⟩
  obtain ⟨hrelated, hrest, hkept, hnew⟩ := h.quiet hrel hlive hrun hrun' hquiet hquiet'
  exact ⟨hr _ _ hrelated, hrest, hkept, fun r hr => hnew r (hn _ r hr)⟩

/-- **One step after another**, the first one with the same result. -/
theorem bindNew {step' : Resolve α} {next' : α → Resolve δ}
    (h : Agree rel live step step' Eq new)
    (hn : ∀ a, Agree rel (fun r => new a r ∨ live r) (next a) (next' a) last last') :
    Agree rel live (step >>= next) (step' >>= next') last last' :=
  h.bindAny (fun a => (hn a).refusals) (fun a => (hn a).refusals') fun a _ he => he ▸ hn a

/-- **One step after another**, the first one with the same result, which tells of no instances. -/
theorem bind {step' : Resolve α} {next' : α → Resolve δ} (h : Agree rel live step step' Eq noRefs)
    (hn : ∀ a, Agree rel live (next a) (next' a) last last') :
    Agree rel live (step >>= next) (step' >>= next') last last' :=
  h.bindNew fun a => (hn a).more fun _ hr => .inr hr

theorem ite {c : Prop} [Decidable c] {other : Resolve α} {other' : Resolve β}
    (h : c → Agree rel live step step' related new)
    (h' : ¬ c → Agree rel live other other' related new) :
    Agree rel live (if c then step else other) (if c then step' else other') related new := by
  split
  · exact h ‹c›
  · exact h' ‹¬ c›

/-- **What is cut short in neither has the same result.** -/
theorem unlessCutShort {step step' : Resolve (Option α)} (h : Agree rel live step step' Eq noRefs) :
    Agree rel live (ByteAtlas.unlessCutShort step) (ByteAtlas.unlessCutShort step') Eq noRefs := by
  have hkeeps {step : Resolve (Option α)} (hs : step.KeepsRefusals) :
      (ByteAtlas.unlessCutShort step).KeepsRefusals :=
    .bind (.ask _) fun _ => .bind hs fun _ => .bind (.ask _) fun _ => .pure _
  have hrun {step : Resolve (Option α)} {ws ws₁ : Workspace} {a : Option α}
      (hrun : (ByteAtlas.unlessCutShort step).runIn ws = (.ok a, ws₁))
      (hquiet : ws₁.refusals = ws.refusals) : step.runIn ws = (.ok a, ws₁) := by
    unfold ByteAtlas.unlessCutShort at hrun
    rw [runIn_bind, runIn_ask] at hrun
    dsimp only at hrun
    rw [runIn_bind] at hrun
    cases hstep : step.runIn ws with
    | mk result ws₂ =>
      rw [hstep] at hrun
      cases result with
      | error fault => cases hrun
      | ok b =>
        dsimp only at hrun
        rw [runIn_bind, runIn_ask] at hrun
        cases hrun
        rw [if_pos hquiet]
  exact ⟨hkeeps h.refusals, hkeeps h.refusals', fun hrel hlive hstep hstep' hquiet hquiet' =>
    h.quiet hrel hlive (hrun hstep hquiet) (hrun hstep' hquiet') hquiet hquiet'⟩

/-- A frame that is refused is not quiet. -/
theorem refuse {a : α} {b : β} :
    Agree rel live
      (do
        refuseFrame
        Pure.pure a)
      (do
        refuseFrame
        Pure.pure b)
      related new := by
  refine ⟨.bind (.change fun _ => Nat.le_succ _) fun _ => .pure _,
    .bind (.change fun _ => Nat.le_succ _) fun _ => .pure _, fun _ _ hrun _ hquiet => ?_⟩
  cases hrun
  exact absurd hquiet (Nat.succ_ne_self _)

end Agree

end Resolve

open Resolve (Agree noRefs)

/-! ## 3. Steps in alike workspaces -/

namespace Likeness

variable (k : Likeness) (live : InstanceRef → Prop) {α : Type} (step : Resolve α)

/-- **Whether a step does the same** in workspaces that are alike, and tells of live instances. -/
def Tells (new : α → InstanceRef → Prop) : Prop := Agree k.Alike live step step Eq new

/-- Whether a step does the same in workspaces that are alike. -/
def Steady : Prop := k.Tells live step noRefs

end Likeness

namespace Likeness.Tells

variable {k : Likeness} {live live' : InstanceRef → Prop} {α β : Type} {step : Resolve α}
  {next : α → Resolve β} {new new' : α → InstanceRef → Prop} {last : β → InstanceRef → Prop}

theorem pure {a : α} (h : ∀ r, new a r → live r) : k.Tells live (Pure.pure a) new :=
  Agree.pure rfl h

/-- **One step after another**, in which the instances that the first one tells of are live. -/
theorem bindNew (h : k.Tells live step new)
    (hn : ∀ a, k.Tells (fun r => new a r ∨ live r) (next a) last) :
    k.Tells live (step >>= next) last :=
  Agree.bindNew h hn

theorem bind (h : k.Steady live step) (hn : ∀ a, k.Tells live (next a) last) :
    k.Tells live (step >>= next) last :=
  Agree.bind h hn

theorem ite {c : Prop} [Decidable c] {other : Resolve α} (h : c → k.Tells live step new)
    (h' : ¬ c → k.Tells live other new) : k.Tells live (if c then step else other) new :=
  Agree.ite h h'

end Likeness.Tells

namespace Likeness.Steady

variable {k : Likeness} {live : InstanceRef → Prop} {α β : Type} {step : Resolve α}
  {next : α → Resolve β} {r : InstanceRef}

theorem pure (a : α) : k.Steady live (Pure.pure a) := Tells.pure fun _ hr => nomatch hr

theorem bind (h : k.Steady live step) (hn : ∀ a, k.Steady live (next a)) :
    k.Steady live (step >>= next) :=
  Tells.bind h hn

theorem ite {c : Prop} [Decidable c] {other : Resolve α} (h : c → k.Steady live step)
    (h' : ¬ c → k.Steady live other) : k.Steady live (if c then step else other) :=
  Agree.ite h h'

/-- What runs the same is as good. -/
theorem congr {step' : Resolve α} (he : ∀ ws, step'.runIn ws = step.runIn ws)
    (h : k.Steady live step) : k.Steady live step' := by
  have hsame : step' = step := funext he
  rw [hsame]
  exact h

theorem unlessCutShort {step : Resolve (Option α)} (h : k.Steady live step) :
    k.Steady live (ByteAtlas.unlessCutShort step) :=
  Agree.unlessCutShort h

theorem throw (fault : Fault) : k.Steady live (MonadExcept.throw fault : Resolve α) :=
  Agree.throw fault

/-- Looking at something that is the same in both. -/
theorem ask {f : Workspace → α}
    (h : ∀ {ws ws' : Workspace}, k.Alike ws ws' → (∀ r, live r → ws.IsLive r) → f ws' = f ws) :
    k.Steady live (Resolve.ask f) :=
  Agree.ask fun hrel hlive => ⟨(h hrel hlive).symm, fun _ hr => nomatch hr⟩

theorem structOf? (r : InstanceRef) : k.Steady live (ByteAtlas.structOf? r) :=
  ask fun h _ => h.structOf? r

theorem fieldOf? (r : InstanceRef) (i : Nat) : k.Steady live (ByteAtlas.fieldOf? r i) :=
  ask fun h _ => h.fieldOf? r i

theorem layoutOf (hr : live r) (hn : ¬ k.loose r) : k.Steady live (ByteAtlas.layoutOf r) :=
  ask fun h hlive => h.layoutOf (hlive r hr) hn

theorem entryOf? (hr : live r) (hn : ¬ k.loose r) (i : Nat) :
    k.Steady live (ByteAtlas.entryOf? r i) :=
  ask fun h hlive => h.entryOf? (hlive r hr) hn i

theorem modifyLayout (hr : live r) (hn : ¬ k.loose r) (f : Layout → Layout) :
    k.Steady live (ByteAtlas.modifyLayout r f) :=
  Agree.change (fun _ => rfl) (fun _ => rfl) fun h hlive =>
    ⟨h.modifyLayout (hlive r hr) hn f, fun _ hr => hr⟩

theorem modifyEntry (hr : live r) (hn : ¬ k.loose r) (i : Nat) (f : FieldEntry → FieldEntry) :
    k.Steady live (ByteAtlas.modifyEntry r i f) :=
  modifyLayout hr hn _

theorem validateLayout (hr : live r) (hn : ¬ k.loose r) (d : StructDef) :
    k.Steady live (ByteAtlas.validateLayout r d) :=
  Agree.change (fun _ => rfl) (fun _ => rfl) fun {ws ws'} h hlive => by
    rw [h.stampOf]
    exact ⟨h.modifyLayout (hlive r hr) hn _, fun _ hr => hr⟩

theorem noteLimitHit : k.Steady live ByteAtlas.noteLimitHit :=
  Agree.change (fun _ => rfl) (fun _ => rfl) fun {ws ws'} h _ =>
    ⟨h.count h.depth ws.refusals ws'.refusals (ws.limitHits + 1) (ws'.limitHits + 1), fun _ hr => hr⟩

theorem limitCount (count : Int64) : k.Steady live (ByteAtlas.limitCount count) := by
  have hlast (limit : Int64) : k.Steady live
      (if limit < 0 then MonadExcept.throw .negativeElementLimit
        else Pure.pure (if count < 0 then 0 else if limit < count then limit else count)) :=
    .ite (fun _ => throw _) fun _ => pure _
  exact bind (ask fun h _ => by rw [h.limits]) fun limit =>
    .ite (fun _ => bind noteLimitHit fun _ => hlast limit) fun _ => hlast limit

/-- **One frame further in.** -/
theorem inFrame (h : k.Steady live step) : k.Steady live (ByteAtlas.inFrame step) := by
  refine ⟨h.refusals.inFrame, h.refusals.inFrame, fun {ws ws' ws₁ ws₁' a b} hrel hlive hrun hrun'
    hquiet hquiet' => ?_⟩
  by_cases hlt : ws.depth < ws.limits.maxDepth
  · have hlt' : ws'.depth < ws'.limits.maxDepth := by
      rw [hrel.depth, hrel.limits]
      exact hlt
    rw [runIn_inFrame_of_lt step hlt] at hrun
    rw [runIn_inFrame_of_lt step hlt'] at hrun'
    have hin := hrel.count (congrArg (· + 1) hrel.depth) ws.refusals ws'.refusals ws.limitHits
      ws'.limitHits
    cases hstep : step.runIn { ws with depth := ws.depth + 1 } with
    | mk result ws₂ =>
      cases hstep' : step.runIn { ws' with depth := ws'.depth + 1 } with
      | mk result' ws₂' =>
        rw [hstep] at hrun
        rw [hstep'] at hrun'
        cases result with
        | error fault => cases hrun
        | ok x =>
          cases result' with
          | error fault => cases hrun'
          | ok y =>
            cases hrun
            cases hrun'
            obtain ⟨he, hrel₂, hkept, _⟩ := h.quiet hin hlive hstep hstep' hquiet hquiet'
            exact ⟨congrArg some he, hrel₂.count (congrArg (· - 1) hrel₂.depth) _ _ _ _, hkept,
              fun _ hr => nomatch hr⟩
  · rw [runIn_inFrame_of_le step (Nat.not_lt.mp hlt)] at hrun
    cases hrun
    exact absurd hquiet (Nat.succ_ne_self _)

end Likeness.Steady

end ByteAtlas
