import Mathlib.Logic.Function.Basic
import ByteAtlas.Proofs.Filters.Completion
import ByteAtlas.Proofs.Alike.Frames

/-!
# Workspaces in which the same is settled

Two workspaces are alike if they show the same views of some flat instances, though they keep more
of them or less (`Likeness.viewing`). What is asked of such an instance has the answer that is
settled in both of them. So all frames do the same in them (`Resolver.steady_viewing`).

An instance that is not among them yet has the same layout in both workspaces. It may be added, with
any view that they show (`Likeness.Alike.view`).
-/

namespace ByteAtlas

open Resolve (anyRef)

/-! ## 1. Changes of one layout -/

theorem Workspace.Beside.untouched {ws ws' : Workspace} {r other : InstanceRef}
    (h : ws.Beside r ws') (hne : r.id ≠ other.id) : ws.Untouched other ws' where
  schema := h.schema
  files := h.files
  limits := h.limits
  layout := by rw [layoutOf, h.others other.id hne, layoutOf]
  args name := by rw [argOf?, h.find?, argOf?]
  version := by rw [versionOf, h.find?, versionOf]

theorem Workspace.Beside.isLive {ws ws' : Workspace} {r other : InstanceRef} (h : ws.Beside r ws')
    (hlive : ws.IsLive other) : ws'.IsLive other := by
  obtain ⟨i, hi, hr⟩ := hlive
  exact ⟨i, (h.find? other.id).trans hi, hr⟩

namespace Likeness.Alike

variable {k : Likeness} {ws ws' ws₁ ws₁' : Workspace} {r : InstanceRef}

/-- **More is known of a loose instance**, in either of two workspaces that are alike. -/
theorem beside (h : k.Alike ws ws') (hl : k.loose r) (hb : ws.Beside r ws₁)
    (hb' : ws'.Beside r ws₁') (hdepth : ws₁'.depth = ws₁.depth) (hsame : k.same r ws₁ ws₁') :
    k.Alike ws₁ ws₁' where
  schema := hb'.schema.trans (h.schema.trans hb.schema.symm)
  files := hb'.files.trans (h.files.trans hb.files.symm)
  limits := hb'.limits.trans (h.limits.trans hb.limits.symm)
  depth := hdepth
  nextId := by rw [hb'.directory, hb.directory, h.nextId]
  directory := hb.directory ▸ h.directory
  directory' := hb'.directory ▸ h.directory'
  instances id := by rw [hb'.find?, hb.find?, h.instances]
  layouts id hid := by rw [hb'.others id (hid r hl), hb.others id (hid r hl), h.layouts id hid]
  live other hother := hb.isLive (h.live other hother)
  same other hother := by
    by_cases hid : r.id = other.id
    · rw [← (h.live r hl).eq_of_id (h.live other hother) hid]
      exact hsame
    · exact k.congr (h.same other hother) (hb.untouched hid) (hb'.untouched hid)

/-- What is not loose is the same. -/
theorem untouched (h : k.Alike ws ws') (hr : ws.IsLive r) (hn : ¬ k.loose r) :
    ws.Untouched r ws' :=
  ⟨h.schema, h.files, h.limits, h.layoutOf hr hn, h.argOf? r, h.versionOf r⟩

end Likeness.Alike

/-! ## 2. Views that are shown -/

/-- **Whether a workspace shows a view** of a flat instance. -/
structure Site.Shows (site : Site) (v : View) (r : InstanceRef) (ws : Workspace) : Prop where
  ref : site.ref = r
  flat : site.struct.Flat
  knows : site.Knows v ws
  complete : site.Complete v ws

namespace Site.Shows

variable {site : Site} {v : View} {r : InstanceRef} {ws ws' : Workspace}

theorem untouched (h : site.Shows v r ws) (hu : ws.Untouched r ws') : site.Shows v r ws' := by
  obtain ⟨rfl, hflat, hk, hc⟩ := h
  have hstamp : ws'.stampOf site.ref site.struct = ws.stampOf site.ref site.struct := by
    rw [Workspace.stampOf, hu.version, Workspace.stampOf]
  have hnow : site.now ws' = site.now ws := by
    rw [Site.now, hu.layout, hstamp, Site.now]
  have hseen : site.SeenIn ws' :=
    ⟨by rw [Workspace.structOf?, hu.schema]; exact hk.seen.struct,
      fun name => (hu.args name).trans (hk.seen.args name), hu.files.trans hk.seen.files,
      by rw [hu.limits]; exact hk.seen.limit⟩
  refine ⟨rfl, hflat, hk.of_now hseen hnow hstamp, ?_⟩
  unfold Site.Complete at hc ⊢
  rwa [hnow]

/-- **What is answered as it is settled** leaves the view shown. -/
theorem answer (h : site.Shows v r ws) {α : Type} {step : Resolve α} {a b : α}
    (hstep : site.Answers v (site.Complete v ws) ws step fun a _ => a = b)
    (hrun : step.runIn ws = (.ok a, ws')) (hquiet : ws'.refusals = ws.refusals) :
    a = b ∧ site.Shows v r ws' ∧ ws.Beside r ws' ∧ ws'.depth = ws.depth := by
  obtain ⟨hk, ho, ha⟩ := hstep.quiet ⟨h.knows, h.complete⟩ hrun hquiet
  exact ⟨ha, ⟨h.ref, h.flat, hk, h.complete.onward ho⟩, h.ref ▸ (hstep.beside hrun).1, ho.depth⟩

end Site.Shows

/-- **A view of every live instance** of a flat definition is shown. -/
theorem Workspace.IsLive.exists_shows {ws : Workspace} {r : InstanceRef} (h : ws.IsLive r)
    {d : StructDef} (hd : ws.structOf? r = some d) (hflat : d.Flat) :
    ∃ site v, Site.Shows site v r ws := by
  obtain ⟨i, hi, rfl⟩ := h
  have hstruct := Workspace.siteOf_of_structOf? hd
  obtain ⟨hk, hc⟩ := Site.knows_viewIn (Workspace.shownIn_siteOf hi hd).seenIn
  exact ⟨ws.siteOf i, _, rfl, hstruct.symm ▸ hflat, hk, hc⟩

/-! ## 3. The likeness -/

/-- **Views of the same instances** are shown. -/
def Likeness.viewing (seen : List InstanceRef) (views : InstanceRef → Site × View) : Likeness where
  loose r := r ∈ seen
  same r ws ws' := (views r).1.Shows (views r).2 r ws ∧ (views r).1.Shows (views r).2 r ws'
  congr h hu hu' := ⟨h.1.untouched hu, h.2.untouched hu'⟩

section

variable {seen : List InstanceRef} {views : InstanceRef → Site × View} {ws ws' ws₁ : Workspace}
  {r : InstanceRef}

/-- **What is answered as it is settled** is the same in both workspaces. -/
theorem Likeness.steady_viewing {live : InstanceRef → Prop} {α : Type} {step : Resolve α}
    (answer : Site → View → α) (hr : r ∈ seen) (hkeeps : step.KeepsRefusals)
    (h : ∀ {site v ws}, Site.Shows site v r ws →
      site.Answers v (site.Complete v ws) ws step fun a _ => a = answer site v) :
    (Likeness.viewing seen views).Steady live step := by
  refine ⟨hkeeps, hkeeps, fun halike _ hrun hrun' hquiet hquiet' => ?_⟩
  obtain ⟨hs, hs'⟩ := halike.same r hr
  obtain ⟨rfl, hshown, hb, hdepth⟩ := hs.answer (h hs) hrun hquiet
  obtain ⟨rfl, hshown', hb', hdepth'⟩ := hs'.answer (h hs') hrun' hquiet'
  exact ⟨rfl, halike.beside hr hb hb' (hdepth'.trans (halike.depth.trans hdepth.symm))
    ⟨hshown, hshown'⟩, fun _ => hb.isLive, fun _ hr => nomatch hr⟩

/-- **All frames do the same** in workspaces that show the same views. -/
theorem Resolver.steady_viewing (frames : Nat) :
    (Resolver.within frames).Steady (Likeness.viewing seen views) := by
  refine Resolver.steady_within (fun frames => ?_) frames
  have hplain := Resolver.steady_within_strict frames
  have hlive (r : InstanceRef) : anyRef r := trivial
  have hsettled {site : Site} {v : View} {r : InstanceRef} {ws : Workspace}
      (h : site.Shows v r ws) : (Resolver.within frames).Settled site v :=
    Resolver.settled_within h.flat v frames
  constructor
  case size =>
    intro live r _ hl
    exact Likeness.steady_viewing (fun _ v => v.size) hl (hplain.size (hlive r)).refusals
      fun h => h.ref ▸ (hsettled h).size h.knows.seen
  case meets =>
    intro live r filter _ hl
    exact Likeness.steady_viewing (fun site v => site.meets v filter) hl
      (hplain.meets (hlive r) filter).refusals fun h => h.ref ▸ (hsettled h).meets h.knows.seen filter
  case lookup =>
    intro live r scope name index isOffset _ hl
    exact Likeness.steady_viewing (fun site v => v.fields.lookup site scope name index isOffset) hl
      (hplain.lookup (hlive r) scope name index isOffset).refusals fun h => h.ref ▸
        ((hsettled h).lookup h.knows.seen name index isOffset).mono
          (fun _ hc => hc.covers scope [name]) fun _ _ _ _ _ _ => id
  case namedPreview =>
    intro live r scope name _ hl
    exact Likeness.steady_viewing (fun site v => v.fields.namedPreview site scope name) hl
      (hplain.namedPreview (hlive r) scope name).refusals fun h => h.ref ▸
        ((hsettled h).namedPreview h.knows.seen name).mono
          (fun _ hc => hc.covers scope [name]) fun _ _ _ _ _ _ => id
  case leaf =>
    intro ws ws' r i halike hl
    obtain ⟨hs, _⟩ := halike.same r hl
    exact hs.ref ▸ hs.knows.seen.holdsChildren hs.flat i

/-- **One more view**, of an instance that is not loose. -/
theorem Likeness.Alike.view (h : (Likeness.viewing seen views).Alike ws ws') (hr : ws.IsLive r)
    (hn : r ∉ seen) {site : Site} {v : View} (hs : site.Shows v r ws) :
    (Likeness.viewing (seen ++ [r]) (Function.update views r (site, v))).Alike ws ws' where
  schema := h.schema
  files := h.files
  limits := h.limits
  depth := h.depth
  nextId := h.nextId
  directory := h.directory
  directory' := h.directory'
  instances := h.instances
  layouts id hid := h.layouts id fun other hother => hid other (List.mem_append_left _ hother)
  live other hother := by
    rcases List.mem_append.mp hother with hother | hother
    · exact h.live other hother
    · exact List.mem_singleton.mp hother ▸ hr
  same other hother := by
    show (Function.update views r (site, v) other).1.Shows _ other ws ∧ _
    rcases List.mem_append.mp hother with hother | hother
    · rw [Function.update_of_ne fun he : other = r => hn (he ▸ hother)]
      exact h.same other hother
    · rw [List.mem_singleton.mp hother, Function.update_self]
      exact ⟨hs, hs.untouched (h.untouched hr hn)⟩

end

end ByteAtlas
