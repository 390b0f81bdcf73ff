import ByteAtlas.Proofs.Filters.Viewing
import ByteAtlas.Proofs.Resolve.History

/-!
# Conditions only select

A query for children with conditions finds, of the children that it finds without conditions, just
those that meet them, in the same order (`Workspace.Reached.children_filtered`). Whether the
conditions are met is asked in the middle of the walk that places the children, and what is resolved
for that is kept. That does not change what is placed next, because the children are flat: whatever
is kept about them shows the same view.

The two queries are run side by side. Their workspaces stay alike, in that both show the same views
of the children found so far (`Likeness.Selects`), and sound (`Workspace.GrownAlike`).
-/

namespace ByteAtlas

open Resolve (Agree AgreeTo Ends noRefs)

/-! ## 1. Sound workspaces that are alike -/

/-- **Whether two workspaces are alike and sound**, and have grown from the same one. -/
structure Workspace.GrownAlike (once : Prop) (start : Workspace) (among : Likeness → Prop)
    (ws ws' : Workspace) : Prop where
  alike : Likeness.Among among ws ws'
  sound : ws.Sound once
  sound' : ws'.Sound once
  grown : start.Grows ws
  grown' : start.Grows ws'

namespace Workspace.GrownAlike

variable {once : Prop} {start ws ws' : Workspace} {among among' : Likeness → Prop}
  {r : InstanceRef}

theorem isLive (h : GrownAlike once start among ws ws') (hr : ws.IsLive r) : ws'.IsLive r := by
  obtain ⟨k, _, halike⟩ := h.alike
  exact (halike.isLive_iff r).mpr hr

theorem mono (h : GrownAlike once start among ws ws')
    (hamong : ∀ k, k.Alike ws ws' → among k → among' k) :
    GrownAlike once start among' ws ws' := by
  obtain ⟨k, hk, halike⟩ := h.alike
  exact { h with alike := ⟨k, hamong k halike hk, halike⟩ }

end Workspace.GrownAlike

open Workspace (GrownAlike)

/-- **Steps that end soundly** leave the workspaces sound. -/
theorem Resolve.Agree.grown {once : Prop} {start : Workspace} {among : Likeness → Prop}
    {live : InstanceRef → Prop} {α β : Type} {step : Resolve α} {step' : Resolve β}
    {related : α → β → Prop} {new : α → InstanceRef → Prop}
    (h : Agree (Likeness.Among among) live step step' related new)
    {post : Workspace → α → Workspace → Prop} {post' : Workspace → β → Workspace → Prop}
    (hends : ∀ {ws : Workspace}, ws.Sound once → (∀ r, live r → ws.IsLive r) →
      Ends once ws step ws (post ws))
    (hends' : ∀ {ws : Workspace}, ws.Sound once → (∀ r, live r → ws.IsLive r) →
      Ends once ws step' ws (post' ws)) :
    Agree (GrownAlike once start among) live step step' related new := by
  refine ⟨h.refusals, h.refusals', fun hrel hlive hrun hrun' hquiet hquiet' => ?_⟩
  obtain ⟨hrelated, halike, hrest⟩ := h.quiet hrel.alike hlive hrun hrun' hquiet hquiet'
  obtain ⟨hs, hg, _⟩ := (hends hrel.sound hlive).of_run hrun
  obtain ⟨hs', hg', _⟩ := (hends' hrel.sound' fun r hr => hrel.isLive (hlive r hr)).of_run hrun'
  exact ⟨hrelated, ⟨halike, hs, hs', hrel.grown.trans hg, hrel.grown'.trans hg'⟩, hrest⟩

namespace Resolver

variable {once : Prop} {start : Workspace} {resolver : Resolver} {r : InstanceRef}
  {reason reason' : Reason}

/-- What a walk does between its visits leaves the workspaces sound. -/
theorem AgreesBetween.grown {among : Likeness → Prop} (hreliable : resolver.Reliable once)
    (h : resolver.AgreesBetween (Likeness.Among among) r reason reason') :
    resolver.AgreesBetween (GrownAlike once start among) r reason reason' where
  evaluate constants expr hr := (h.evaluate constants expr hr).grown
    (fun hs hl => hreliable.evaluate _ expr hs (hl r hr))
    fun hs hl => hreliable.evaluate _ expr hs (hl r hr)
  hasElement field origin index offset hr := (h.hasElement field origin index offset hr).grown
    (fun hs hl => hreliable.hasElement field origin index offset hs (hl r hr))
    fun hs hl => hreliable.hasElement field origin index offset hs (hl r hr)
  elementCount i hr := (h.elementCount i hr).grown
    (fun hs hl => (hreliable.answers r).elementCount i false hs (hl r hr))
    fun hs hl => (hreliable.answers r).elementCount i false hs (hl r hr)
  fieldOffset i hr := (h.fieldOffset i hr).grown
    (fun hs hl => hreliable.fieldOffset hs (hl r hr) i false)
    fun hs hl => hreliable.fieldOffset hs (hl r hr) i false
  entryOf? i hr := by
    have hends {live : InstanceRef → Prop} {ws : Workspace} (hs : ws.Sound once)
        (_ : ∀ r, live r → ws.IsLive r) : Ends once ws (ByteAtlas.entryOf? r i) ws fun _ _ => True :=
      .pure hs (.refl ws) trivial
    exact (h.entryOf? i hr).grown hends hends
  placeChild field struct offset budget hr := (h.placeChild field struct offset budget hr).grown
    (fun hs hl => hreliable.placeChild hs (hl r hr) field struct reason offset budget)
    fun hs hl => hreliable.placeChild hs (hl r hr) field struct reason' offset budget
  canCreateNext hc := (h.canCreateNext hc).grown
    (fun hs hl => (hreliable.answers _).canCreateNext false false hs (hl _ hc))
    fun hs hl => (hreliable.answers _).canCreateNext false false hs (hl _ hc)
  createNext hc := (h.createNext hc).grown
    (fun hs hl => hreliable.createNext hs (hl _ hc) reason)
    fun hs hl => hreliable.createNext hs (hl _ hc) reason'

end Resolver

/-! ## 2. Children that are selected -/

/-- Whether the conditions are met, as the view of an instance tells. -/
def InstanceRef.meetsIn (r : InstanceRef) (views : InstanceRef → Site × View)
    (filter : QueryFilter) : Bool :=
  (views r).1.meets (views r).2 filter

/-- **Whether, of the instances found, those are selected that meet the conditions**, and views are
shown of all that have been found. -/
def Likeness.Selects (filter : QueryFilter) (found selected : List InstanceRef) (k : Likeness) :
    Prop :=
  ∃ views, k = .viewing found views ∧ found.Nodup ∧
    selected = found.filter fun r => r.meetsIn views filter

/-- A step with its result changed. -/
theorem Resolve.exists_of_runIn_map {α β : Type} {f : α → β} {step : Resolve α} {b : β}
    {ws ws₁ : Workspace} (h : (f <$> step).runIn ws = (.ok b, ws₁)) :
    ∃ a, step.runIn ws = (.ok a, ws₁) ∧ b = f a := by
  rw [runIn_map] at h
  cases hrun : step.runIn ws with
  | mk result ws₂ =>
    rw [hrun] at h
    cases result with
    | error fault => cases h
    | ok a =>
      cases h
      exact ⟨a, rfl, rfl⟩

namespace Resolver

variable {once : Prop} {start ws ws' ws₁ : Workspace} {filter : QueryFilter}
  {found selected : List InstanceRef} {child : InstanceRef}

/-- A child that has been gathered is passed over. -/
theorem runIn_gatherMeeting_of_mem (resolver : Resolver) (h : child ∈ found) (ws : Workspace) :
    (resolver.gatherMeeting filter found child).runIn ws = (.ok (found, true), ws) := by
  unfold gatherMeeting
  rw [if_pos (List.any_eq_true.mpr ⟨child, h, decide_eq_true rfl⟩)]
  rfl

/-- Any other child is asked for the conditions. -/
theorem runIn_gatherMeeting_of_ne (resolver : Resolver) (h : ∀ r ∈ found, r.id ≠ child.id)
    (ws : Workspace) : (resolver.gatherMeeting filter found child).runIn ws =
      ((fun keep => (if keep then found ++ [child] else found, true)) <$>
        resolver.meets child filter).runIn ws := by
  unfold gatherMeeting
  rw [if_neg (by simpa using h), Resolve.runIn_bind, Resolve.runIn_map]
  rcases (resolver.meets child filter).runIn ws with ⟨_ | keep, ws₁⟩
  · rfl
  · cases keep <;> rfl

/-- **A child that has been found is asked for the conditions**: the answer is the one that its view
tells, and the workspaces stay alike. -/
theorem meets_of_viewing {frames : Nat} {views : InstanceRef → Site × View}
    (halike : (Likeness.viewing found views).Alike ws ws') (hc : child ∈ found) {keep : Bool}
    (hrun : ((within frames).meets child filter).runIn ws' = (.ok keep, ws₁))
    (hquiet : ws₁.refusals = ws'.refusals) :
    keep = child.meetsIn views filter ∧ (Likeness.viewing found views).Alike ws ws₁ := by
  obtain ⟨hs, hs'⟩ := halike.same child hc
  have hmeets := (settled_within hs'.flat (views child).2 frames).meets hs'.knows.seen filter
  rw [hs'.ref] at hmeets
  obtain ⟨hkeep, hshown, hb, hdepth⟩ := hs'.answer hmeets hrun hquiet
  exact ⟨hkeep, halike.beside hc (.refl child ws) hb (hdepth.trans halike.depth) ⟨hs, hshown⟩⟩

/-- **Two visits of a child**, without conditions and with them. -/
theorem gatherMeeting_selects {frames : Nat} {d : StructDef} {k : Likeness}
    (hk : k.Selects filter found selected) (halike : k.Alike ws ws') (hc : ws.IsLive child)
    (hd : ws.structOf? child = some d) (hflat : d.Flat) {a b : List InstanceRef × Bool}
    {ws₁' : Workspace}
    (hrun : ((within frames).gatherMeeting .all found child).runIn ws = (.ok a, ws₁))
    (hrun' : ((within frames).gatherMeeting filter selected child).runIn ws' = (.ok b, ws₁'))
    (hquiet' : ws₁'.refusals = ws'.refusals) :
    a = (if child ∈ found then found else found ++ [child], true) ∧ ws₁ = ws ∧ b.2 = true ∧
      ∃ k, Likeness.Selects filter a.1 b.1 k ∧ k.Alike ws ws₁' := by
  obtain ⟨views, rfl, hnodup, rfl⟩ := hk
  have hne {rs : List InstanceRef} (hrs : ∀ r ∈ rs, r ∈ found) (h : child ∉ rs) :
      ∀ r ∈ rs, r.id ≠ child.id := fun r hr hid =>
    h ((halike.live r (hrs r hr)).eq_of_id hc hid ▸ hr)
  have hsub : ∀ r ∈ found.filter fun r => r.meetsIn views filter, r ∈ found :=
    fun r hr => List.mem_of_mem_filter hr
  by_cases hmem : child ∈ found
  · rw [runIn_gatherMeeting_of_mem _ hmem] at hrun
    cases hrun
    refine ⟨by rw [if_pos hmem], rfl, ?_⟩
    by_cases hselected : child ∈ found.filter fun r => r.meetsIn views filter
    · rw [runIn_gatherMeeting_of_mem _ hselected] at hrun'
      cases hrun'
      exact ⟨rfl, _, ⟨views, rfl, hnodup, rfl⟩, halike⟩
    · -- It has been found and does not meet the conditions, so it does not meet them now.
      rw [runIn_gatherMeeting_of_ne _ (hne hsub hselected)] at hrun'
      obtain ⟨keep, hmeets, rfl⟩ := Resolve.exists_of_runIn_map hrun'
      obtain ⟨rfl, halike₁⟩ := meets_of_viewing halike hmem hmeets hquiet'
      have hfalse : child.meetsIn views filter = false :=
        Bool.eq_false_iff.mpr fun htrue => hselected (List.mem_filter.mpr ⟨hmem, htrue⟩)
      rw [hfalse]
      exact ⟨rfl, _, ⟨views, rfl, hnodup, rfl⟩, halike₁⟩
  · rw [runIn_gatherMeeting_of_ne _ (hne (fun _ => id) hmem)] at hrun
    cases hrun
    obtain ⟨site, v, hs⟩ := hc.exists_shows hd hflat
    have halike₁ := halike.view hc hmem hs
    rw [runIn_gatherMeeting_of_ne _ (hne hsub fun h => hmem (hsub _ h))] at hrun'
    obtain ⟨keep, hmeets, rfl⟩ := Resolve.exists_of_runIn_map hrun'
    obtain ⟨rfl, halike₂⟩ := meets_of_viewing halike₁
      (List.mem_append_right _ (List.mem_singleton_self child)) hmeets hquiet'
    refine ⟨by rw [if_neg hmem]; rfl, rfl, rfl, _, ⟨_, rfl, ?_, ?_⟩, halike₂⟩
    · exact List.nodup_append.mpr ⟨hnodup, List.nodup_singleton child, fun a ha b hb hab =>
        hmem (List.mem_singleton.mp hb ▸ hab ▸ ha)⟩
    · have hold : ∀ r ∈ found,
          r.meetsIn (Function.update views child (site, v)) filter = r.meetsIn views filter := by
        intro r hr
        unfold InstanceRef.meetsIn
        rw [Function.update_of_ne fun he : r = child => hmem (he ▸ hr)]
      show _ = (found ++ [child]).filter _
      rw [List.filter_append, List.filter_congr hold, List.filter_singleton]
      cases child.meetsIn (Function.update views child (site, v)) filter with
      | true => rfl
      | false => exact (List.append_nil _).symm

/-- **The visitors agree**, without conditions and with them: what the one selects is what the other
finds and meets the conditions. -/
theorem agreeTo_gatherMeeting (frames : Nat) {live : InstanceRef → Prop} {r : InstanceRef}
    {struct : String} {d : StructDef} (hd : start.schema.get? struct = some d) (hflat : d.Flat)
    (hne : r.struct ≠ struct) (filter : QueryFilter) :
    Visitor.AgreeTo (fun found selected => GrownAlike once start fun k =>
        k.Selects filter found selected ∧ r ∉ found) live foundRefs struct
      ((within frames).gatherMeeting .all) ((within frames).gatherMeeting filter) := by
  have hkeeps := Steady.keepsRefusals_gatherMeeting (steady_within_strict frames)
  refine ⟨hkeeps _, hkeeps _, fun {found selected} child hchild => ⟨hkeeps _ _ _, hkeeps _ _ _,
    fun {ws ws' ws₁ ws₁' a b} hrel hlive hrun hrun' hquiet hquiet' => ?_⟩⟩
  obtain ⟨⟨k, ⟨hk, hr⟩, halike⟩, hs, hs', hg, hg'⟩ := hrel
  have hc := hlive child (.inl rfl)
  have hfound : ws.AllLive found := fun r hr => hlive r (.inr (.inl hr))
  have hstruct : ws.structOf? child = some d := by
    rw [Workspace.structOf?, hchild, hg.schema]
    exact hd
  obtain ⟨rfl, rfl, hgoOn, k₁, hk₁, halike₁⟩ :=
    gatherMeeting_selects hk halike hc hstruct hflat hrun hrun' hquiet'
  have hselected : ws'.AllLive selected := by
    obtain ⟨_, _, _, rfl⟩ := hk
    exact fun r hr => (halike.isLive_iff r).mpr (hfound r (List.mem_of_mem_filter hr))
  obtain ⟨hs₁', hg₁', _⟩ := (((reliable_within frames).walks .query).gatherMeeting filter _ _ _
    ((halike.isLive_iff child).mpr hc) hselected hs').of_run hrun'
  have hmem {r' : InstanceRef} (h : r' ∈ if child ∈ found then found else found ++ [child]) :
      r' ∈ found ∨ r' = child := by
    split at h
    · exact .inl h
    · exact (List.mem_append.mp h).imp_right List.mem_singleton.mp
  refine ⟨⟨hgoOn, ⟨k₁, ⟨hk₁, fun h => ?_⟩, halike₁⟩, hs, hs₁', hg, hg'.trans hg₁'⟩, fun _ => id,
    fun r' h => ?_⟩
  · exact (hmem h).elim hr fun he => hne (he ▸ hchild)
  · exact (hmem h).elim (hfound r') fun he => he ▸ hc

end Resolver

/-! ## 3. Parents -/

/-- The index of the field of a name, if it holds child instances. -/
def Workspace.childField? (ws : Workspace) (r : InstanceRef) (field : String) : Option Nat :=
  ((ws.structOf? r).bind (·.fieldIndex? field)).filter (ws.holdsChildren r)

theorem Workspace.Grows.childField? {ws ws' : Workspace} (h : ws.Grows ws') (r : InstanceRef)
    (field : String) : ws'.childField? r field = ws.childField? r field := by
  unfold Workspace.childField? Workspace.holdsChildren
  simp only [h.structOf?, h.fieldOf?]

/-- **Whether all children in the fields of a name are flat.** -/
def Workspace.FlatChildren (ws : Workspace) (parents : List InstanceRef) (field : String) : Prop :=
  ∀ r ∈ parents, ∀ (i : Nat) (f : String × Field) (struct : String) (d : StructDef),
    ws.childField? r field = some i → ws.fieldOf? r i = some f → f.2.type = .struct struct →
    ws.schema.get? struct = some d → d.Flat

namespace Resolver

section

variable (resolver : Resolver) {filter : QueryFilter} {ws : Workspace} {r : InstanceRef}
  {field : String}

/-- A parent without such a field has no children. -/
theorem runIn_findChildren_of_none (h : ws.childField? r field = none) (rs found : List InstanceRef) :
    (resolver.findChildren field filter (r :: rs) found).runIn ws =
      (resolver.findChildren field filter rs found).runIn ws := by
  conv_lhs => unfold findChildren
  rw [Resolve.runIn_bind, structOf?, Resolve.runIn_ask]
  dsimp only
  unfold Workspace.childField? at h
  cases hi : (ws.structOf? r).bind (·.fieldIndex? field) with
  | none => rfl
  | some i =>
    rw [hi, Option.filter_eq_none_iff] at h
    dsimp only
    rw [Resolve.runIn_bind, Resolve.runIn_ask]
    dsimp only
    rw [if_neg (h i rfl)]

/-- The children of any other parent are gathered on a walk, if its field is present. -/
theorem runIn_findChildren_of_some {i : Nat} (h : ws.childField? r field = some i)
    (rs found : List InstanceRef) :
    (resolver.findChildren field filter (r :: rs) found).runIn ws =
      (resolver.isPresent r i false >>= fun present =>
        if present = some true then
          resolver.walk r i none .query (resolver.gatherMeeting filter) found >>= fun a =>
            resolver.findChildren field filter rs a.1
        else resolver.findChildren field filter rs found).runIn ws := by
  conv_lhs => unfold findChildren
  rw [Resolve.runIn_bind, structOf?, Resolve.runIn_ask]
  dsimp only
  obtain ⟨hi, hholds⟩ := Option.filter_eq_some_iff.mp h
  rw [hi]
  dsimp only
  rw [Resolve.runIn_bind, Resolve.runIn_ask]
  dsimp only
  rw [if_pos hholds]

end

variable {once : Prop} {start : Workspace} {filter : QueryFilter} {live : InstanceRef → Prop}
  {r : InstanceRef} {found selected : List InstanceRef}

/-- What relates two queries, without conditions and with them. -/
abbrev Selecting (once : Prop) (start : Workspace) (filter : QueryFilter)
    (found selected : List InstanceRef) : Workspace → Workspace → Prop :=
  GrownAlike once start (Likeness.Selects filter found selected)

/-- **The walks of one parent**, which holds children and so is not one of them. -/
theorem agreeTo_walk_selecting (frames : Nat) {i : Nat} (hr : live r) (hn : r ∉ found)
    (hflat : ∀ (f : String × Field) (struct : String) (d : StructDef), start.fieldOf? r i = some f →
      f.2.type = .struct struct → start.schema.get? struct = some d → d.Flat) :
    AgreeTo (Selecting once start filter found selected) (fun r => foundRefs found r ∨ live r)
      ((within frames).walk r i none .query ((within frames).gatherMeeting .all) found)
      ((within frames).walk r i none .query ((within frames).gatherMeeting filter) selected)
      (fun a b => Selecting once start filter a.1 b.1) (endRefs foundRefs) := by
  have hplain := steady_within_strict frames
  have hkeeps (filter : QueryFilter) (found : List InstanceRef) := keepsRefusals_walk (r := r)
    hplain (Steady.keepsRefusals_gatherMeeting hplain filter) id i none .query found
  by_cases hholds : ∃ f struct, HoldsDefined start r i f struct
  · obtain ⟨f, struct, hholds⟩ := hholds
    obtain ⟨name, hfield, hvalue, htype, hdefined⟩ := hholds
    obtain ⟨d, hd⟩ := Option.isSome_iff_exists.mp hdefined
    have hne : r.struct ≠ struct := by
      rintro rfl
      obtain ⟨d', hd', hf⟩ := Workspace.structOf?_of_fieldOf? hfield
      cases hd'.symm.trans hd
      obtain ⟨t, ht⟩ := (hflat _ _ _ hfield htype hd).scalar hf
      cases htype.symm.trans ht
    have hbetween (found selected : List InstanceRef) : (within frames).AgreesBetween
        (GrownAlike once start fun k => k.Selects filter found selected ∧ r ∉ found) r
        .query .query :=
      .grown (reliable_within frames) (.among (.of_steady hplain id .query .query)
        fun _ ⟨⟨_, he, _⟩, hn⟩ => by
          subst he
          exact .of_steady (steady_viewing frames) hn .query .query)
    have hwalk := ((hbetween found selected).elementCount i (.inr hr)).bindSame fun count =>
      agreeTo_walkCounted hbetween
        (agreeTo_gatherMeeting frames hd (hflat _ _ _ hfield htype hd) hne filter) hplain hr id i f
        none found selected count
    refine .congr (hkeeps _ _) (hkeeps _ _) (fun hrel => ?_)
      (hwalk.mono (fun _ _ hrel => hrel.mono fun _ _ hk => ⟨hk, hn⟩)
        fun _ _ _ _ ⟨_, hrel⟩ => hrel.mono fun _ _ hk => hk.1)
    have hdefines {ws : Workspace} (hg : start.Grows ws) : HoldsDefined ws r i f struct :=
      ⟨name, (hg.fieldOf? r i).trans hfield, hvalue, htype, hg.schema ▸ hdefined⟩
    exact ⟨runIn_walk _ (hdefines hrel.grown) none .query _ found,
      runIn_walk _ (hdefines hrel.grown') none .query _ selected⟩
  · -- The struct of the children is not defined.
    refine .congr (hkeeps _ _) (hkeeps _ _) (fun hrel => ?_) (.pure (a := (found, none))
      (b := (selected, none)) id fun r' hr' => .inl (hr'.resolve_right fun he => nomatch he))
    have hnot {ws : Workspace} (hg : start.Grows ws) (f : Field) (struct : String) :
        ¬ HoldsDefined ws r i f struct := fun ⟨name, hfield, hvalue, htype, hdefined⟩ =>
      hholds ⟨f, struct, name, (hg.fieldOf? r i).symm.trans hfield, hvalue, htype,
        hg.schema ▸ hdefined⟩
    exact ⟨runIn_walk_of_not_holds _ (hnot hrel.grown) none .query _ found,
      runIn_walk_of_not_holds _ (hnot hrel.grown') none .query _ selected⟩

/-- **Two queries for children**, without conditions and with them, one parent after the other. -/
theorem agreeTo_findChildren (frames : Nat) (field : String) (parents : List InstanceRef)
    (hflat : start.FlatChildren parents field) (hparents : ∀ r ∈ parents, live r) :
    ∀ found selected : List InstanceRef,
      AgreeTo (Selecting once start filter found selected) (fun r => foundRefs found r ∨ live r)
        ((within frames).findChildren field .all parents found)
        ((within frames).findChildren field filter parents selected)
        (Selecting once start filter) foundRefs := by
  have hplain := steady_within_strict frames
  have hkeeps (filter : QueryFilter) := Steady.keepsRefusals_findChildren hplain field filter
  induction parents with
  | nil => exact fun _ _ => .pure id fun _ => .inl
  | cons r rs ih =>
    intro found selected
    have hr := hparents r (.head _)
    have hrest := ih (fun r' hr' => hflat r' (.tail _ hr')) fun r' hr' => hparents r' (.tail _ hr')
    cases hi : start.childField? r field with
    | none =>
      refine .congr (hkeeps _ _ _) (hkeeps _ _ _) (fun hrel => ?_) (hrest found selected)
      exact ⟨runIn_findChildren_of_none _ ((hrel.grown.childField? r field).trans hi) rs found,
        runIn_findChildren_of_none _ ((hrel.grown'.childField? r field).trans hi) rs selected⟩
    | some i =>
      have hfree {ws ws' : Workspace} (hrel : Selecting once start filter found selected ws ws') :
          r ∉ found := by
        intro hmem
        obtain ⟨k, ⟨views, rfl, _⟩, halike⟩ := hrel.alike
        obtain ⟨_, hholds⟩ :=
          Option.filter_eq_some_iff.mp ((hrel.grown.childField? r field).trans hi)
        rw [(steady_viewing 0).onLoose.leaf i halike hmem] at hholds
        cases hholds
      refine (AgreeTo.given (hkeeps _ _ _) (hkeeps _ _ _) fun hn => ?_).mono
        (fun _ _ hrel => ⟨hfree hrel, hrel⟩) fun _ _ _ _ => id
      refine .congr (hkeeps _ _ _) (hkeeps _ _ _) (fun hrel =>
        ⟨runIn_findChildren_of_some _ ((hrel.grown.childField? r field).trans hi) rs found,
          runIn_findChildren_of_some _ ((hrel.grown'.childField? r field).trans hi) rs selected⟩) ?_
      have hpresent : Agree (Selecting once start filter found selected)
          (fun r => foundRefs found r ∨ live r) ((within frames).isPresent r i false)
          ((within frames).isPresent r i false) Eq noRefs := by
        have hstrict : Likeness.strict.Steady Resolve.anyRef _ :=
          (hplain.answers (show Resolve.anyRef r from trivial) id).isPresent i false
        refine .grown (.among hstrict.refusals hstrict.refusals' fun _ ⟨_, he, _⟩ => ?_)
          (fun hs hl => (reliable_within frames).isPresent hs (hl r (.inr hr)) i false)
          fun hs hl => (reliable_within frames).isPresent hs (hl r (.inr hr)) i false
        subst he
        exact ((steady_viewing frames).answers (.inr hr) hn).isPresent i false
      refine hpresent.bindSame fun present => .ite (fun _ => ?_) fun _ => hrest found selected
      refine .bind (agreeTo_walk_selecting frames hr hn fun f struct d hf htype hd =>
        hflat r (.head _) i f struct d hi hf htype hd) (fun a => hkeeps _ rs a.1)
        (fun b => hkeeps _ rs b.1) fun a b => (hrest a.1 b.1).more fun r' hr' => ?_
      rcases hr' with hr' | hr'
      · exact .inl (.inl hr')
      · exact .inr (.inr hr')

end Resolver

/-! ## 4. Queries -/

/-- Whether the instance meets all conditions. -/
def InstanceRef.meets (r : InstanceRef) (filter : QueryFilter) : Resolve Bool :=
  Resolve.resolving fun resolver => resolver.meets r filter

namespace Workspace

variable {once : Prop} {ws : Workspace}

/-- **Whether a workspace tells of an instance that it meets all conditions**, or that it does not,
unless a frame is refused. -/
def TellsMeets (ws : Workspace) (r : InstanceRef) (filter : QueryFilter) (answer : Bool) : Prop :=
  ∃ (a : Bool) (ws' : Workspace), (r.meets filter).runIn ws = (.ok a, ws') ∧
    (ws'.refusals = ws.refusals → a = answer)

/-- To begin with nothing has been found. -/
theorem Sound.selecting (hs : ws.Sound once) (filter : QueryFilter) :
    Resolver.Selecting once ws filter [] [] ws ws := by
  let site (r : InstanceRef) : Site := ⟨.empty, r, [], .one, none, #[], 0⟩
  refine ⟨⟨_, ⟨fun r => (site r, ⟨[], none, none⟩), rfl, List.nodup_nil, rfl⟩, ?_⟩, hs, hs,
    .refl ws, .refl ws⟩
  exact { Likeness.Alike.refl hs.directory with
    layouts := fun _ _ => rfl
    live := fun _ hl => nomatch hl
    same := fun _ hl => nomatch hl }

/-- **A view that is shown** tells whether the conditions are met. -/
theorem Sound.tellsMeets (hs : ws.Sound once) {site : Site} {v : View} {r : InstanceRef}
    (hr : ws.IsLive r) (h : site.Shows v r ws) (filter : QueryFilter) :
    ws.TellsMeets r filter (site.meets v filter) := by
  generalize hframes : ws.limits.maxDepth - ws.depth = frames
  obtain ⟨a, ws', hrun, _⟩ := ((Resolver.reliable_within frames).answers r).meets filter hs hr
  refine ⟨a, ws', (Resolve.runIn_resolving _ hframes).trans hrun, fun hquiet => ?_⟩
  have hmeets := (Resolver.settled_within h.flat v frames).meets h.knows.seen filter
  rw [h.ref] at hmeets
  exact (h.answer hmeets hrun hquiet).1

/-- **Conditions only select.** A query for the children in a field, which are flat, and the same
query with conditions both come to an end. If no frame is refused in either of them, then the one
with conditions finds just those of the children that meet them, in the order in which the other one
finds them, and each once. After either of the queries the workspace tells of each child whether it
meets the conditions. -/
theorem Reached.children_filtered {versions : Nat} {edited : Bool} (h : ws.Reached versions edited)
    (scope : Scope) {parents : List InstanceRef} (hparents : ws.AllLive parents) {field : String}
    (hflat : ws.FlatChildren parents field) (filter : QueryFilter) :
    ∃ (all found : List InstanceRef) (ws₁ ws₂ : Workspace),
      (scope.children parents field .all).runIn ws = (.ok all, ws₁) ∧
      (scope.children parents field filter).runIn ws = (.ok found, ws₂) ∧
      (ws₁.refusals = ws.refusals → ws₂.refusals = ws.refusals →
        all.Nodup ∧ ∃ meets : InstanceRef → Bool, found = all.filter meets ∧
          ∀ r ∈ all, ws₁.TellsMeets r filter (meets r) ∧ ws₂.TellsMeets r filter (meets r)) := by
  have hs := h.atRest.sound
  generalize hframes : ws.limits.maxDepth - ws.depth = frames
  have hchildren (filter : QueryFilter) : (scope.children parents field filter).runIn ws =
      (if scope.before.isSome then pure []
        else (Resolver.within frames).findChildren field filter parents []).runIn ws :=
    Resolve.runIn_resolving _ hframes
  rw [hchildren, hchildren]
  by_cases hlaying : scope.before.isSome
  · rw [if_pos hlaying, if_pos hlaying]
    exact ⟨[], [], ws, ws, rfl, rfl, fun _ _ => ⟨List.nodup_nil, fun _ => true, rfl,
      fun _ hr => absurd hr List.not_mem_nil⟩⟩
  · rw [if_neg hlaying, if_neg hlaying]
    have hends (filter : QueryFilter) := (Resolver.reliable_within frames).searches.findChildren
      field filter parents [] hparents (List.forall_mem_nil _) hs
    obtain ⟨all, ws₁, hall, _⟩ := hends .all
    obtain ⟨found, ws₂, hfound, _⟩ := hends filter
    refine ⟨all, found, ws₁, ws₂, hall, hfound, fun hquiet hquiet' => ?_⟩
    obtain ⟨⟨⟨_, ⟨views, rfl, hnodup, rfl⟩, halike⟩, hs₁, hs₂, _⟩, _⟩ :=
      (Resolver.agreeTo_findChildren frames field parents hflat hparents [] []).quiet
        (hs.selecting filter) (fun _ hr => hr.resolve_left List.not_mem_nil) hall hfound hquiet
        hquiet'
    refine ⟨hnodup, fun r => r.meetsIn views filter, rfl, fun r hr => ?_⟩
    obtain ⟨hshown, hshown'⟩ := halike.same r hr
    have hlive := halike.live r hr
    exact ⟨hs₁.tellsMeets hlive hshown filter,
      hs₂.tellsMeets ((halike.isLive_iff r).mpr hlive) hshown' filter⟩

/-- A car of a train, as long as its load. -/
def railCar : StructDef :=
  { StructDef.empty with
    isPacked := true
    fields := ⟨[("load", .ofType (.scalar (.int .u8))), ("goods",
      { Field.ofType (.scalar .char) with count := 0, countSource := .named "load" })], by decide⟩ }

/-- Three cars. -/
def train : StructDef :=
  { StructDef.empty with
    fields := ⟨[("cars", { Field.ofType (.struct "Car") with count := 3 })], by decide⟩ }

def railSchema : Schema :=
  ⟨((∅ : Std.TreeMap String StructDef).insert "Train" train).insert "Car" railCar, 0⟩

def trainRefs : List InstanceRef := [⟨0, ⟨"Train", 0, 0⟩⟩, ⟨1, ⟨"Train", 0, 3⟩⟩]

/-- Two trains with two cars in common. -/
def withTrains : Workspace :=
  ((((ofSchema railSchema .default).addSource
    (.ofBytes "rails" #[2, 97, 98, 1, 99, 2, 100, 101, 1, 102])).2.place
      (.single ⟨"Train", 0, 0⟩ .user)).2.place (.single ⟨"Train", 0, 3⟩ .user)).2

/-- Of the four cars two have a load of one byte. -/
theorem children_filtered_withTrains : withTrains.Reached 0 false ∧ ∃ all found ws₁ ws₂,
    ((Scope.whole ⟨0, ⟨"Train", 0, 0⟩⟩).children trainRefs "cars" .all).runIn withTrains =
      (.ok all, ws₁) ∧ all.map InstanceRef.offset = [0, 3, 5, 8] ∧
    ((Scope.whole ⟨0, ⟨"Train", 0, 0⟩⟩).children trainRefs "cars" ⟨[], [⟨"load", 1⟩]⟩).runIn
      withTrains = (.ok found, ws₂) ∧ found.map InstanceRef.offset = [3, 8] ∧
    all.Nodup ∧ found.Sublist all := by
  have hmade : railSchema.Made 0 := .of_toList rfl (by decide)
  have hlimit : 0 ≤ Limits.default.maxElements := by decide
  have hreached : withTrains.Reached 0 false :=
    .request (.request (Reached.addSource _ (.start hmade trivial hlimit))
        (.place (.single ⟨"Train", 0, 0⟩ .user)))
      (.place (.single ⟨"Train", 0, 3⟩ .user))
  have hparents : withTrains.AllLive trainRefs := by
    intro r hr
    rcases List.mem_pair.mp hr with rfl | rfl
    · exact ⟨_, rfl, rfl⟩
    · exact ⟨_, rfl, rfl⟩
  have hflat : withTrains.FlatChildren trainRefs "cars" := by
    intro r hr i f struct d hi hf htype hd
    have hcars : withTrains.childField? r "cars" = some 0 ∧
        withTrains.fieldOf? r 0 = some ("cars", { Field.ofType (.struct "Car") with count := 3 }) := by
      rcases List.mem_pair.mp hr with rfl | rfl <;> decide +kernel
    cases hcars.1.symm.trans hi
    cases hcars.2.symm.trans hf
    cases htype
    have hcar : withTrains.schema.get? "Car" = some railCar := by decide +kernel
    cases hcar.symm.trans hd
    decide
  obtain ⟨all, found, ws₁, ws₂, hall, hfound, htold⟩ :=
    hreached.children_filtered (.whole ⟨0, ⟨"Train", 0, 0⟩⟩) hparents hflat ⟨[], [⟨"load", 1⟩]⟩
  have hoffsets : (((Scope.whole ⟨0, ⟨"Train", 0, 0⟩⟩).children trainRefs "cars" .all).runIn
      withTrains).1.map (·.map InstanceRef.offset) = .ok [0, 3, 5, 8] := by
    decide +kernel
  have hquiet : (((Scope.whole ⟨0, ⟨"Train", 0, 0⟩⟩).children trainRefs "cars" .all).runIn
      withTrains).2.refusals = withTrains.refusals := by
    decide +kernel
  have hoffsets' : (((Scope.whole ⟨0, ⟨"Train", 0, 0⟩⟩).children trainRefs "cars"
      ⟨[], [⟨"load", 1⟩]⟩).runIn withTrains).1.map (·.map InstanceRef.offset) = .ok [3, 8] := by
    decide +kernel
  have hquiet' : (((Scope.whole ⟨0, ⟨"Train", 0, 0⟩⟩).children trainRefs "cars"
      ⟨[], [⟨"load", 1⟩]⟩).runIn withTrains).2.refusals = withTrains.refusals := by
    decide +kernel
  rw [hall] at hoffsets hquiet
  rw [hfound] at hoffsets' hquiet'
  obtain ⟨hnodup, meets, rfl, _⟩ := htold hquiet hquiet'
  exact ⟨hreached, all, _, ws₁, ws₂, hall, Except.ok.inj hoffsets, hfound,
    Except.ok.inj hoffsets', hnodup, List.filter_sublist⟩

end Workspace

end ByteAtlas
