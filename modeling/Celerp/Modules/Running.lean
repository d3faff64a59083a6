/-
  What runs can run: the modules loaded, with what they need.

  * `InOrder`: modules named once, each after all it depends on.  What one pass takes out with
    some modules is all that depends on them, directly or not, and what is left is in order
    (`mem_out`, `InOrder.rest`);
  * `claims_apart`: of the modules that clash with no claim, no two have overlapping prefixes;
  * `admitted_spec`, `without_spec`, `loadAll_spec`, `mem_deactivate`: what each part leaves,
    put together in `running_sound`, and what a stop takes out in `stopped_exactly`.
-/
import Celerp.Modules.Admission

namespace Celerp

open Dependencies Relation Outcome

/-! ## Modules in order -/

/-- What a name depends on, among some modules. -/
def moduleDeps (modules : List AdmittedModule) (name : String) : List String :=
  ((modules.find? (·.name = name)).map (·.dependsOn)).getD []

/-- Modules named once, each after all it depends on. -/
structure InOrder (modules : List AdmittedModule) : Prop where
  distinct : (moduleNames modules).Nodup
  ordered : DepsFirst (moduleDeps modules) (moduleNames modules)

section
variable {modules : List AdmittedModule} {m m' : AdmittedModule} {name : String}

theorem eq_of_name (hd : (moduleNames modules).Nodup) (hm : m ∈ modules) (hm' : m' ∈ modules) (h : m.name = m'.name) :
    m = m' :=
  List.inj_on_of_nodup_map hd hm hm' h

theorem find?_of_mem (hd : (moduleNames modules).Nodup) (hm : m ∈ modules) :
    modules.find? (·.name = m.name) = some m := by
  cases hf : modules.find? (·.name = m.name) with
  | none => exact absurd (List.find?_eq_none.1 hf m hm) (by simp)
  | some m' =>
    have hname : m'.name = m.name := by simpa using List.find?_some hf
    rw [eq_of_name hd (List.mem_of_find?_eq_some hf) hm hname]

theorem moduleDeps_of_mem (hd : (moduleNames modules).Nodup) (hm : m ∈ modules) :
    moduleDeps modules m.name = m.dependsOn := by
  rw [moduleDeps, find?_of_mem hd hm]
  rfl

theorem mem_moduleNames : name ∈ moduleNames modules ↔ ∃ m ∈ modules, m.name = name := List.mem_map

/-- All that a module in order depends on is there. -/
theorem InOrder.mem (h : InOrder modules) (hm : m ∈ modules) (hname : name ∈ m.dependsOn) :
    name ∈ moduleNames modules :=
  h.ordered.mem (List.mem_map_of_mem hm) (by rwa [moduleDeps_of_mem h.distinct hm])

theorem inOrder_nil : InOrder [] := ⟨.nil, depsFirst_nil⟩

/-- One module more, after all it depends on. -/
theorem InOrder.append (h : InOrder modules) (hnew : m.name ∉ moduleNames modules)
    (hdeps : ∀ name ∈ m.dependsOn, name ∈ moduleNames modules) : InOrder (modules ++ [m]) := by
  have hd : (moduleNames (modules ++ [m])).Nodup := by
    rw [moduleNames, List.map_append, List.nodup_append]
    refine ⟨h.distinct, List.nodup_singleton _, fun a ha b hb => ?_⟩
    rw [List.map_singleton, List.mem_singleton] at hb
    rintro rfl
    exact hnew (hb ▸ ha)
  refine ⟨hd, ?_⟩
  have hsame : ∀ name ∈ moduleNames modules, moduleDeps (modules ++ [m]) name = moduleDeps modules name := by
    intro name hname
    obtain ⟨m', hm', rfl⟩ := mem_moduleNames.1 hname
    rw [moduleDeps_of_mem hd (List.mem_append_left _ hm'), moduleDeps_of_mem h.distinct hm']
  have hown : moduleDeps (modules ++ [m]) m.name = m.dependsOn :=
    moduleDeps_of_mem hd (List.mem_append_right _ (List.mem_singleton_self m))
  rw [moduleNames, List.map_append]
  refine depsFirst_append.2 ⟨h.ordered.congr hsame, fun b hb => ?_⟩
  rw [hown] at hb
  exact hdeps b hb

/-- What one pass leaves is in order. -/
theorem InOrder.rest (h : InOrder modules) (taken : List String) :
    InOrder (modules.filter fun m => m.name ∉ spread (moduleDeps modules) taken (moduleNames modules)) := by
  have hnames : moduleNames (modules.filter fun m => m.name ∉ spread (moduleDeps modules) taken (moduleNames modules)) =
      (moduleNames modules).filter fun a => decide (a ∉ spread (moduleDeps modules) taken (moduleNames modules)) := by
    rw [moduleNames, moduleNames, List.filter_map]
    rfl
  have hd := h.distinct.sublist (hnames ▸ List.filter_sublist)
  refine ⟨hd, ?_⟩
  have hrest := depsFirst_rest taken h.ordered
  rw [← hnames] at hrest
  refine hrest.congr fun name hname => ?_
  obtain ⟨m, hm, rfl⟩ := mem_moduleNames.1 hname
  rw [moduleDeps_of_mem hd hm, moduleDeps_of_mem h.distinct (List.mem_of_mem_filter hm)]

end

/-! ## Taken out in one pass -/

section
variable {modules ms : List AdmittedModule} {name : String} {m : AdmittedModule}

theorem exists_of_find? {l names : List String} {dep : String} (h : l.find? (· ∈ names) = some dep) :
    ∃ b ∈ l, b ∈ names :=
  ⟨dep, List.mem_of_find?_eq_some h, by simpa using List.find?_some h⟩

theorem not_exists_of_find? {l names : List String} (h : l.find? (· ∈ names) = none) : ¬∃ b ∈ l, b ∈ names := by
  rintro ⟨b, hb, hmem⟩
  exact absurd hmem (by simpa using List.find?_eq_none.1 h b hb)

/-- A module taken out where it is not, and what it depends on is. -/
theorem keys_takeOut {out : List (String × LoadRefusal)} : Dicts.keys (takeOut out m) =
    if m.name ∉ Dicts.keys out ∧ ∃ b ∈ m.dependsOn, b ∈ Dicts.keys out then Dicts.keys out ++ [m.name] else Dicts.keys out := by
  rw [takeOut]
  cases hf : m.dependsOn.find? (· ∈ Dicts.keys out) with
  | none => rw [if_neg fun h => not_exists_of_find? hf h.2]
  | some dep =>
    by_cases hname : m.name ∈ Dicts.keys out
    · rw [if_neg fun h => h.1 hname]
      simp only [if_neg (not_not.2 hname)]
    · rw [if_pos ⟨hname, exists_of_find? hf⟩]
      simp only [if_pos hname]
      exact Dicts.keys_set_of_notMem hname

/-- **One pass takes out what depends on what it has taken out.** -/
theorem keys_out (hdeps : ∀ m ∈ ms, moduleDeps modules m.name = m.dependsOn) {out : List (String × LoadRefusal)} :
    Dicts.keys (ms.foldl takeOut out) = spread (moduleDeps modules) (Dicts.keys out) (moduleNames ms) := by
  induction ms generalizing out with
  | nil => rfl
  | cons m ms ih =>
    rw [List.foldl_cons, ih fun m' hm' => hdeps m' (List.mem_cons_of_mem _ hm'), keys_takeOut,
      ← hdeps m List.mem_cons_self]
    rfl

/-- A module kept, or refused for what it depends on. -/
theorem keep_spec {a : Admission} (m : AdmittedModule) :
    Dicts.keys (a.keep m).refused = (if m.name ∉ Dicts.keys a.refused ∧ ∃ b ∈ m.dependsOn, b ∈ Dicts.keys a.refused
      then Dicts.keys a.refused ++ [m.name] else Dicts.keys a.refused) ∧
      (a.keep m).admitted = if m.name ∉ Dicts.keys (a.keep m).refused then a.admitted ++ [m] else a.admitted := by
  rw [Admission.keep]
  by_cases hname : m.name ∈ Dicts.keys a.refused
  · rw [if_pos hname, if_neg fun h => h.1 hname, if_neg (not_not.2 hname)]
    exact ⟨rfl, rfl⟩
  · rw [if_neg hname]
    cases hf : m.dependsOn.find? (· ∈ Dicts.keys a.refused) with
    | none =>
      rw [if_neg fun h => not_exists_of_find? hf h.2]
      exact ⟨rfl, (if_pos hname).symm⟩
    | some dep =>
      have hkeys : Dicts.keys (Dicts.set a.refused m.name (.failedToLoad dep)) = Dicts.keys a.refused ++ [m.name] :=
        Dicts.keys_set_of_notMem hname
      rw [if_pos ⟨hname, exists_of_find? hf⟩]
      refine ⟨hkeys, (if_neg (not_not.2 ?_)).symm⟩
      rw [hkeys]
      exact List.mem_append_right _ (List.mem_singleton_self _)

/-- **One pass refuses what depends on what is refused, and keeps the rest.** -/
theorem keep_fold (refused : List (String × LoadRefusal)) (hd : (moduleNames ms).Nodup)
    (hdeps : ∀ m ∈ ms, moduleDeps modules m.name = m.dependsOn) :
    Dicts.keys (ms.foldl Admission.keep ⟨[], refused⟩).refused =
        spread (moduleDeps modules) (Dicts.keys refused) (moduleNames ms) ∧
      (ms.foldl Admission.keep ⟨[], refused⟩).admitted =
        ms.filter fun m => m.name ∉ spread (moduleDeps modules) (Dicts.keys refused) (moduleNames ms) := by
  induction ms using List.reverseRecOn with
  | nil => exact ⟨rfl, rfl⟩
  | append_singleton ms m ih =>
    rw [moduleNames, List.map_append, List.nodup_append] at hd
    obtain ⟨hd, -, hnew⟩ := hd
    obtain ⟨hkeys, hadmitted⟩ := ih hd fun m' hm' => hdeps m' (List.mem_append_left _ hm')
    have hnot : ∀ m' ∈ ms, m'.name ≠ m.name := fun m' hm' =>
      hnew m'.name (List.mem_map_of_mem hm') m.name (List.mem_singleton_self _)
    have hown : moduleDeps modules m.name = m.dependsOn := hdeps m (List.mem_append_right _ (List.mem_singleton_self m))
    rw [List.foldl_append, moduleNames, List.map_append]
    obtain ⟨hstep, hkept⟩ := keep_spec (a := ms.foldl Admission.keep ⟨[], refused⟩) m
    have hspread : spread (moduleDeps modules) (Dicts.keys refused) (ms.map (·.name) ++ [m.name]) =
        Dicts.keys ((ms.foldl Admission.keep ⟨[], refused⟩).keep m).refused := by
      rw [spread_append, hown, hstep, hkeys]
      rfl
    refine ⟨hspread.symm, ?_⟩
    change ((ms.foldl Admission.keep ⟨[], refused⟩).keep m).admitted = _
    rw [hkept, hadmitted, List.map_singleton, hspread, List.filter_append, List.filter_singleton]
    -- of those before, the pass has taken out what it had
    have hbefore : ms.filter (fun m' => decide (m'.name ∉ spread (moduleDeps modules) (Dicts.keys refused) (moduleNames ms))) =
        ms.filter fun m' => decide (m'.name ∉ Dicts.keys ((ms.foldl Admission.keep ⟨[], refused⟩).keep m).refused) := by
      refine List.filter_congr fun m' hm' => decide_eq_decide.2 (not_congr ?_)
      rw [hstep, hkeys]
      split_ifs
      · rw [List.mem_append, List.mem_singleton, or_iff_left (hnot m' hm')]
      · exact Iff.rfl
    rw [hbefore]
    split_ifs with hin <;> simp [hin]

/-- **A stop takes out a module with all that depends on it**, directly or not. -/
theorem mem_deactivate {s : Running} (h : InOrder s.loaded) {why : LoadRefusal} :
    m ∈ (s.deactivate name why).loaded ↔
      m ∈ s.loaded ∧ m.name ≠ name ∧ ¬TransGen (Needs (moduleDeps s.loaded)) m.name name := by
  have hout : Dicts.keys (s.out name why) = spread (moduleDeps s.loaded) [name] (moduleNames s.loaded) :=
    keys_out fun m hm => moduleDeps_of_mem h.distinct hm
  rw [Running.deactivate, List.mem_filter, hout, decide_eq_true_iff]
  refine and_congr_right fun hm => ?_
  rw [mem_spread h.ordered, not_or, List.mem_singleton]
  refine and_congr_right fun _ => not_congr ?_
  simp [mem_moduleNames.2 ⟨m, hm, rfl⟩]

theorem InOrder.deactivate {s : Running} (h : InOrder s.loaded) (name : String) (why : LoadRefusal) :
    InOrder (s.deactivate name why).loaded := by
  have hout : Dicts.keys (s.out name why) = spread (moduleDeps s.loaded) [name] (moduleNames s.loaded) :=
    keys_out fun m hm => moduleDeps_of_mem h.distinct hm
  rw [Running.deactivate, hout]
  exact h.rest [name]

/-- **What is left of an admission**: the modules that are not refused and depend on nothing
    that is, in order; the others are refused. -/
theorem without_spec {a : Admission} (h : InOrder a.admitted) (failed : List (String × LoadRefusal)) :
    InOrder (a.without failed).admitted ∧
      (∀ m, m ∈ (a.without failed).admitted ↔ m ∈ a.admitted ∧ m.name ∉ Dicts.keys (a.without failed).refused) ∧
      ∀ name, name ∈ Dicts.keys (a.without failed).refused ↔
        (name ∈ Dicts.keys a.refused ∨ name ∈ Dicts.keys failed) ∨ name ∈ moduleNames a.admitted ∧
          ∃ c, (c ∈ Dicts.keys a.refused ∨ c ∈ Dicts.keys failed) ∧ TransGen (Needs (moduleDeps a.admitted)) name c := by
  obtain ⟨hkeys, hadmitted⟩ := keep_fold (Dicts.update a.refused failed) h.distinct fun m hm =>
    moduleDeps_of_mem h.distinct hm
  refine ⟨?_, fun m => ?_, fun name => ?_⟩
  · rw [Admission.without, hadmitted]
    exact h.rest _
  · rw [Admission.without, hadmitted, hkeys, List.mem_filter, decide_eq_true_iff]
  · rw [Admission.without, hkeys, mem_spread h.ordered]
    simp only [Dicts.mem_keys_update]

end

/-! ## Prefixes apart -/

/-- No prefix of a module overlaps the kernel's, or another module's. -/
structure PrefixesApart (modules : List AdmittedModule) : Prop where
  kernel : ∀ m ∈ modules, ∀ p ∈ m.prefixes, ∀ k ∈ KERNEL_PROJECTION_PREFIXES, projectionPrefixesOverlap p k = false
  others : ∀ m ∈ modules, ∀ m' ∈ modules, m.name ≠ m'.name →
    ∀ p ∈ m.prefixes, ∀ p' ∈ m'.prefixes, projectionPrefixesOverlap p p' = false

/-- What the claims made so far leave. -/
structure PrefixClaims.Inv (c : PrefixClaims) (seen : List AdmittedModule) : Prop where
  kernel : ∀ k ∈ KERNEL_PROJECTION_PREFIXES, k ∈ Dicts.keys c.claimed
  claimed : ∀ m ∈ seen, m.name ∉ Dicts.keys c.clashes → ∀ p ∈ m.prefixes, p ∈ Dicts.keys c.claimed
  apart : PrefixesApart (seen.filter fun m => m.name ∉ Dicts.keys c.clashes)

section
variable {modules seen : List AdmittedModule} {m : AdmittedModule} {c : PrefixClaims} {p q : String}

theorem overlap_comm : projectionPrefixesOverlap p q = projectionPrefixesOverlap q p := Bool.or_comm _ _

theorem PrefixesApart.subset (h : PrefixesApart modules) (hsub : ∀ m ∈ seen, m ∈ modules) : PrefixesApart seen :=
  ⟨fun m hm => h.kernel m (hsub m hm), fun m hm m' hm' => h.others m (hsub m hm) m' (hsub m' hm')⟩

theorem mem_keys_claimNames {claimed : List (String × String)} {names : List String} {owner k : String} :
    k ∈ Dicts.keys (claimNames claimed names owner) ↔ k ∈ Dicts.keys claimed ∨ k ∈ names := by
  unfold claimNames
  induction names generalizing claimed with
  | nil => simp
  | cons name names ih =>
    rw [List.foldl_cons, ih, Dicts.mem_keys_set, or_comm (a := k = name), or_assoc, List.mem_cons]

/-- What does not clash overlaps nothing claimed. -/
theorem PrefixClaims.apart_of_clash {prefixes : List String} (h : c.clash prefixes = none) (hp : p ∈ prefixes)
    (hq : q ∈ Dicts.keys c.claimed) : projectionPrefixesOverlap p q = false := by
  obtain ⟨taken, htaken, rfl⟩ := List.mem_map.1 hq
  have hnone := List.findSome?_eq_none_iff.1 h p hp
  rw [Option.map_eq_none_iff] at hnone
  simpa using List.find?_eq_none.1 hnone taken htaken

/-- **One module's claims.** -/
theorem PrefixClaims.Inv.claim (h : c.Inv seen) : (c.claim m).Inv (seen ++ [m]) := by
  unfold PrefixClaims.claim
  cases hclash : c.clash m.prefixes with
  | some clash =>
    -- it clashes: it claims nothing, and counts for nothing
    have hseen : ∀ m' ∈ seen ++ [m], m'.name ∉ Dicts.keys (Dicts.set c.clashes m.name clash) →
        m' ∈ seen ∧ m'.name ∉ Dicts.keys c.clashes := by
      intro m' hm' hout
      rw [Dicts.mem_keys_set, not_or] at hout
      refine ⟨(List.mem_append.1 hm').resolve_right fun hlast => hout.1 ?_, hout.2⟩
      rw [List.mem_singleton.1 hlast]
    refine ⟨h.kernel, fun m' hm' hout => ?_, h.apart.subset fun m' hm' => ?_⟩
    · obtain ⟨hm', hout⟩ := hseen m' hm' hout
      exact h.claimed m' hm' hout
    · obtain ⟨hm', hout⟩ := List.mem_filter.1 hm'
      obtain ⟨hm', hout⟩ := hseen m' hm' (by simpa using hout)
      exact List.mem_filter.2 ⟨hm', by simpa using hout⟩
  | none =>
    have hapart (p : String) (hp : p ∈ m.prefixes) (q : String) (hq : q ∈ Dicts.keys c.claimed) :
        projectionPrefixesOverlap p q = false := PrefixClaims.apart_of_clash hclash hp hq
    refine ⟨fun k hk => mem_keys_claimNames.2 (.inl (h.kernel k hk)), fun m' hm' hout p hp => ?_, ?_⟩
    · refine mem_keys_claimNames.2 ((List.mem_append.1 hm').imp (fun hm' => h.claimed m' hm' hout p hp) fun hm' => ?_)
      rwa [← List.mem_singleton.1 hm']
    have hcases : ∀ m' ∈ (seen ++ [m]).filter fun m => m.name ∉ Dicts.keys c.clashes,
        (m' ∈ seen.filter fun m => m.name ∉ Dicts.keys c.clashes) ∨ m' = m := by
      intro m' hm'
      obtain ⟨hm', hout⟩ := List.mem_filter.1 hm'
      exact (List.mem_append.1 hm').imp (fun hm' => List.mem_filter.2 ⟨hm', hout⟩) List.mem_singleton.1
    have hclaimed : ∀ m' ∈ seen.filter (fun m => m.name ∉ Dicts.keys c.clashes), ∀ p ∈ m'.prefixes,
        p ∈ Dicts.keys c.claimed := by
      intro m' hm'
      obtain ⟨hm', hout⟩ := List.mem_filter.1 hm'
      exact h.claimed m' hm' (by simpa using hout)
    refine ⟨fun m' hm' p hp k hk => ?_, fun m₁ hm₁ m₂ hm₂ hne p hp p' hp' => ?_⟩
    · rcases hcases m' hm' with hm' | rfl
      · exact h.apart.kernel m' hm' p hp k hk
      · exact hapart p hp k (h.kernel k hk)
    · rcases hcases m₁ hm₁ with hin₁ | rfl
      · rcases hcases m₂ hm₂ with hin₂ | rfl
        · exact h.apart.others m₁ hin₁ m₂ hin₂ hne p hp p' hp'
        · rw [overlap_comm]
          exact hapart p' hp' p (hclaimed m₁ hin₁ p hp)
      · rcases hcases m₂ hm₂ with hin₂ | rfl
        · exact hapart p hp p' (hclaimed m₂ hin₂ p' hp')
        · exact absurd rfl hne

/-- **The modules that clash with no claim have their prefixes apart.** -/
theorem claims_apart (modules : List AdmittedModule) :
    PrefixesApart (modules.filter fun m => m.name ∉ Dicts.keys (claimProjectionPrefixes modules).clashes) := by
  have hloop : ∀ {ms seen : List AdmittedModule} {c : PrefixClaims}, c.Inv seen →
      (ms.foldl PrefixClaims.claim c).Inv (seen ++ ms) := by
    intro ms
    induction ms with
    | nil =>
      intro seen c h
      rwa [List.append_nil]
    | cons m ms ih =>
      intro seen c h
      rw [List.foldl_cons, List.append_cons]
      exact ih h.claim
  have hinv : (claimProjectionPrefixes modules).Inv ([] ++ modules.insertionSort ClaimsBefore) :=
    hloop ⟨fun k hk => by simpa [Dicts.keys] using hk, nofun, nofun, nofun⟩
  refine hinv.apart.subset fun m hm => ?_
  obtain ⟨hm, hout⟩ := List.mem_filter.1 hm
  exact List.mem_filter.2 ⟨by simpa using hm, hout⟩

end

/-! ## Admission -/

/-- What refusing candidates leaves of them. -/
structure Candidates.Narrows (s s' : Candidates) : Prop where
  sublist : s'.candidates.Sublist s.candidates
  installed : s'.installed = s.installed
  refused : ∀ name ∈ Dicts.keys s.refused, name ∈ Dicts.keys s'.refused
  accounted : ∀ m ∈ s.candidates, m ∈ s'.candidates ∨ m.name ∈ Dicts.keys s'.refused

section
variable {s s' s'' : Candidates} {m : AdmittedModule} {found : String → Inspected} {enabled : List String}

theorem Candidates.Narrows.refl (s : Candidates) : s.Narrows s := ⟨.refl _, rfl, fun _ => id, fun _ => .inl⟩

theorem Candidates.Narrows.trans (h : s.Narrows s') (h' : s'.Narrows s'') : s.Narrows s'' where
  sublist := h'.sublist.trans h.sublist
  installed := h'.installed.trans h.installed
  refused := fun name hname => h'.refused name (h.refused name hname)
  accounted := fun m hm => (h.accounted m hm).elim (h'.accounted m) fun hr => .inr (h'.refused _ hr)

theorem Candidates.narrows_refuse (s : Candidates) (name : String) (why : LoadRefusal) : s.Narrows (s.refuse name why) where
  sublist := List.filter_sublist
  installed := rfl
  refused := fun _ hn => Dicts.mem_keys_set.2 (.inr hn)
  accounted := fun m hm => by
    by_cases hname : m.name = name
    · exact .inr (Dicts.mem_keys_set.2 (.inl hname))
    · exact .inl (List.mem_filter.2 ⟨hm, by simpa using hname⟩)

theorem narrows_takeImportNames {acc : Candidates × List (String × String)} (h : s.Narrows acc.1) (m : AdmittedModule) :
    s.Narrows (takeImportNames acc m).1 := by
  unfold takeImportNames
  split
  · exact h.trans (Candidates.narrows_refuse _ _ _)
  · exact h

theorem Candidates.narrows_shared (s : Candidates) : s.Narrows s.refuseSharedImportNames := by
  have hloop : ∀ {ms : List AdmittedModule} {acc : Candidates × List (String × String)}, s.Narrows acc.1 →
      s.Narrows (ms.foldl takeImportNames acc).1 := by
    intro ms
    induction ms with
    | nil => exact id
    | cons m ms ih => exact fun h => ih (narrows_takeImportNames h m)
  exact hloop (.refl s)

/-- A refused candidate is none. -/
theorem Candidates.narrows_overlapping (s : Candidates) : s.Narrows s.refuseOverlappingProjectionPrefixes ∧
    PrefixesApart s.refuseOverlappingProjectionPrefixes.candidates := by
  unfold Candidates.refuseOverlappingProjectionPrefixes
  simp only
  have hloop : ∀ (fs : List (String × (String × String))) (s₁ : Candidates) (why : String × (String × String) → LoadRefusal),
      let s₂ := fs.foldl (fun s f => s.refuse f.1 (why f)) s₁
      s₁.Narrows s₂ ∧ ∀ m ∈ s₂.candidates, m.name ∉ fs.map Prod.fst := by
    intro fs
    induction fs with
    | nil => exact fun _ _ => ⟨.refl _, fun _ _ => List.not_mem_nil⟩
    | cons f fs ih =>
      intro s₁ why
      rw [List.foldl_cons]
      obtain ⟨hn, hout⟩ := ih (s₁.refuse f.1 (why f)) why
      refine ⟨(Candidates.narrows_refuse _ _ _).trans hn, fun m hm hname => ?_⟩
      rcases List.mem_cons.1 hname with hname | hname
      · have := (List.mem_filter.1 (hn.sublist.subset hm)).2
        exact absurd hname (by simpa using this)
      · exact hout m hm hname
  obtain ⟨hn, hout⟩ := hloop
    ((claimProjectionPrefixes s.candidates).clashes.insertionSort (·.1 ≤ ·.1)) s fun f => .overlaps f.2.1 f.2.2 ((Dicts.get? (claimProjectionPrefixes s.candidates).claimed f.2.2).getD "")
  refine ⟨hn, (claims_apart s.candidates).subset fun m hm => List.mem_filter.2 ⟨hn.sublist.subset hm, ?_⟩⟩
  have hm := hout m hm
  rw [((List.perm_insertionSort _ _).map Prod.fst).mem_iff] at hm
  exact decide_eq_true hm

/-- What the checks of the enabled modules find. -/
theorem inspect_spec : ∀ {names : List String} {s s' : Candidates},
    names.foldlM (Candidates.inspect found) s = .ok s' →
      ∃ added : List AdmittedModule, s'.candidates = s.candidates ++ added ∧ (moduleNames added).Sublist names ∧
        (∀ name ∈ Dicts.keys s.refused, name ∈ Dicts.keys s'.refused) ∧
        (∀ name ∈ s'.installed, name ∈ s.installed ∨ name ∈ names ∧ found name ≠ .missing) ∧
        ∀ name ∈ names, found name ≠ .missing → name ∈ moduleNames added ∨ name ∈ Dicts.keys s'.refused
  | [], s, s', h => by
    cases h
    exact ⟨[], (List.append_nil _).symm, .slnil, fun _ => id, fun _ => .inl, nofun⟩
  | name :: names, s, s', h => by
    rw [List.foldlM_cons] at h
    obtain ⟨s₁, hs₁, hrest⟩ := bind_eq_ok.1 h
    obtain ⟨added, hadded, hsub, hrefused, hinstalled, hall⟩ := inspect_spec hrest
    unfold Candidates.inspect at hs₁
    cases hf : found name with
    | missing =>
      rw [hf] at hs₁
      cases hs₁
      refine ⟨added, hadded, hsub.cons _, hrefused, fun n hn => ?_, fun n hn hfound => ?_⟩
      · exact (hinstalled n hn).imp_right fun h => ⟨List.mem_cons_of_mem _ h.1, h.2⟩
      · rcases List.mem_cons.1 hn with rfl | hn
        · exact absurd hf hfound
        · exact hall n hn hfound
    | stops text =>
      rw [hf] at hs₁
      cases hs₁
    | refused text =>
      rw [hf] at hs₁
      cases hs₁
      refine ⟨added, hadded, hsub.cons _, fun n hn => hrefused n (Dicts.mem_keys_set.2 (.inr hn)), fun n hn => ?_,
        fun n hn hfound => ?_⟩
      · rcases hinstalled n hn with hn | ⟨hn, hfound⟩
        · rcases List.mem_append.1 hn with hn | hn
          · exact .inl hn
          · rw [List.mem_singleton.1 hn]
            exact .inr ⟨List.mem_cons_self, by rw [hf]; nofun⟩
        · exact .inr ⟨List.mem_cons_of_mem _ hn, hfound⟩
      · rcases List.mem_cons.1 hn with rfl | hn
        · exact .inr (hrefused _ (Dicts.mem_keys_set.2 (.inl rfl)))
        · exact hall n hn hfound
    | found copy =>
      rw [hf] at hs₁
      cases hs₁
      refine ⟨⟨copy, name⟩ :: added, hadded.trans (List.append_cons _ _ _).symm, hsub.cons_cons _, hrefused, fun n hn => ?_,
        fun n hn hfound => ?_⟩
      · rcases hinstalled n hn with hn | ⟨hn, hfound⟩
        · rcases List.mem_append.1 hn with hn | hn
          · exact .inl hn
          · rw [List.mem_singleton.1 hn]
            exact .inr ⟨List.mem_cons_self, by rw [hf]; nofun⟩
        · exact .inr ⟨List.mem_cons_of_mem _ hn, hfound⟩
      · rcases List.mem_cons.1 hn with rfl | hn
        · exact .inl List.mem_cons_self
        · exact (hall n hn hfound).imp_left (List.mem_cons_of_mem _)

/-- The modules of names. -/
theorem moduleNames_filterMap {modules : List AdmittedModule} {names : List String}
    (h : ∀ name ∈ names, name ∈ moduleNames modules) :
    moduleNames (names.filterMap fun name => modules.find? (·.name = name)) = names := by
  induction names with
  | nil => rfl
  | cons name names ih =>
    obtain ⟨m, hm, rfl⟩ := mem_moduleNames.1 (h name List.mem_cons_self)
    cases hf : modules.find? (·.name = m.name) with
    | none => exact absurd (List.find?_eq_none.1 hf m hm) (by simp)
    | some m' =>
      have hname : m'.name = m.name := by simpa using List.find?_some hf
      rw [List.filterMap_cons]
      simp only [hf]
      rw [moduleNames, List.map_cons, hname]
      exact congrArg (m.name :: ·) (ih fun n hn => h n (List.mem_cons_of_mem _ hn))

/-- **What is admitted**: modules in order, their prefixes apart; every other that is enabled and
    installed is refused. -/
theorem admitted_spec {a : Admission} (h : admitModules found enabled = .ok a) :
    InOrder a.admitted ∧ PrefixesApart a.admitted ∧ (∀ m ∈ a.admitted, m.name ∉ CORE_FOLDED) ∧
      ∀ name ∈ enabled, name ∉ CORE_FOLDED → found name ≠ .missing →
        name ∈ moduleNames a.admitted ∨ name ∈ Dicts.keys a.refused := by
  unfold admitModules at h
  obtain ⟨s, hs, h⟩ := bind_eq_ok.1 h
  obtain ⟨added, hadded, hsub, -, hinstalled, hall⟩ := inspect_spec hs
  rw [List.nil_append] at hadded
  subst hadded
  obtain ⟨hn, hapart⟩ := Candidates.narrows_overlapping s.refuseSharedImportNames
  have hnarrow := s.narrows_shared.trans hn
  simp only at h
  generalize s.refuseSharedImportNames.refuseOverlappingProjectionPrefixes = c at h hnarrow hapart
  obtain ⟨o, ho, hmem, hnodup, horder, hreasons, hkept⟩ :=
    dependencyOrder_spec (c.candidates.map fun m => (m.name, m.dependsOn)) enabled c.installed c.refused
  rw [ho] at h
  cases h
  have hkeys : Dicts.keys (c.candidates.map fun m => (m.name, m.dependsOn)) = moduleNames c.candidates := by
    rw [Dicts.keys, List.map_map]
    rfl
  have hnames (name : String) (hname : name ∈ o.result) : name ∈ moduleNames c.candidates := by
    rw [← hkeys]
    exact ((hmem name).1 hname).1
  have hadmitted := moduleNames_filterMap hnames
  have hsorted : ((enabled.dedup.filter (· ∉ CORE_FOLDED)).insertionSort (· ≤ ·)).Nodup :=
    (List.perm_insertionSort _ _).nodup_iff.2 ((List.nodup_dedup _).filter _)
  have hdistinct : (moduleNames c.candidates).Nodup := hsorted.sublist ((hnarrow.sublist.map _).trans hsub)
  have hsubset : ∀ m ∈ o.result.filterMap fun name => c.candidates.find? (·.name = name), m ∈ c.candidates := by
    intro m hm
    obtain ⟨name, -, hf⟩ := List.mem_filterMap.1 hm
    exact List.mem_of_find?_eq_some hf
  have hdeps (m : AdmittedModule) (hm : m ∈ c.candidates) :
      depsOf (c.candidates.map fun m => (m.name, m.dependsOn)) m.name = m.dependsOn := by
    rw [depsOf, Dicts.get?_of_mem (hkeys ▸ hdistinct) (List.mem_map_of_mem (f := fun m => (m.name, m.dependsOn)) hm)]
    rfl
  have haccounted : ∀ name ∈ enabled, name ∉ CORE_FOLDED → found name ≠ .missing →
      name ∈ moduleNames c.candidates ∨ name ∈ Dicts.keys c.refused := by
    intro name hen hcore hfound
    have hin : name ∈ (enabled.dedup.filter (· ∉ CORE_FOLDED)).insertionSort (· ≤ ·) := by
      rw [List.mem_insertionSort]
      exact List.mem_filter.2 ⟨List.mem_dedup.2 hen, by simpa using hcore⟩
    rcases hall name hin hfound with hmod | href
    · obtain ⟨m, hm, rfl⟩ := mem_moduleNames.1 hmod
      exact (hnarrow.accounted m hm).imp_left fun hm => List.mem_map_of_mem hm
    · exact .inr (hnarrow.refused name href)
  have hcore : ∀ name ∈ moduleNames c.candidates, name ∉ CORE_FOLDED := by
    intro name hname
    have hin := hsub.subset ((hnarrow.sublist.map _).subset hname)
    rw [List.mem_insertionSort] at hin
    simpa using (List.mem_filter.1 hin).2
  refine ⟨⟨?_, ?_⟩, hapart.subset hsubset, fun m hm => hcore m.name (List.mem_map_of_mem (hsubset m hm)),
    fun name hen hname hfound => ?_⟩
  · rw [hadmitted]
    exact hnodup
  · rw [hadmitted]
    have hd : (moduleNames (o.result.filterMap fun name => c.candidates.find? (·.name = name))).Nodup := by
      rw [hadmitted]
      exact hnodup
    intro before name after heq dep hdep
    have hres : name ∈ o.result := heq ▸ List.mem_append_right _ List.mem_cons_self
    rw [← hadmitted] at hres
    obtain ⟨m, hm, rfl⟩ := mem_moduleNames.1 hres
    rw [moduleDeps_of_mem hd hm] at hdep
    have hdep' : dep ∈ depsOf (c.candidates.map fun m => (m.name, m.dependsOn)) m.name := by
      rw [hdeps m (hsubset m hm)]
      exact hdep
    rw [hadmitted] at hres
    -- what a module that can be loaded depends on is enabled, installed and not refused: a candidate
    obtain ⟨hen, hin, hok⟩ := ((hmem m.name).1 hres).2.good.2 dep hdep'
    rw [hnarrow.installed] at hin
    obtain ⟨hsort, hfound⟩ := (hinstalled dep hin).resolve_left List.not_mem_nil
    rw [List.mem_insertionSort] at hsort
    have hcand := (haccounted dep hen (by simpa using (List.mem_filter.1 hsort).2) hfound).resolve_right hok
    exact horder before m.name after heq dep hdep' (hkeys ▸ hcand)
  · rw [hadmitted]
    rcases haccounted name hen hname hfound with hcand | href
    · by_cases hres : name ∈ o.result
      · exact .inl hres
      · exact .inr (hreasons name (hkeys ▸ hcand) hres)
    · refine .inr ?_
      by_contra hnone
      cases hget : Dicts.get? c.refused name with
      | none => exact Dicts.get?_eq_none.1 hget href
      | some why =>
        rw [← Dicts.get?_eq_none, hkept name why hget] at hnone
        cases hnone

end

/-! ## Running -/

/-- Each module of some is loaded, or has a reason. -/
def Accounted (P : String → Prop) (s : Running) : Prop :=
  ∀ name, P name → name ∈ moduleNames s.loaded ∨ name ∈ Dicts.keys s.errors

section
variable {importModule : AdmittedModule → Except String Unit} {s s' : Running} {m : AdmittedModule} {P : String → Prop}

/-- **One module loaded, or not.** -/
theorem load_spec (hs : InOrder s.loaded) (hnew : m.name ∉ moduleNames s.loaded)
    (hcore : ∀ name ∈ m.dependsOn, name ∉ CORE_FOLDED) (h : s.load importModule m = .ok s') :
    InOrder s'.loaded ∧ (s'.loaded = s.loaded ∨ s'.loaded = s.loaded ++ [m]) ∧
      (∀ name, name ∈ Dicts.keys s.errors → name ∈ Dicts.keys s'.errors) ∧
      (m.name ∈ moduleNames s'.loaded ∨ m.name ∈ Dicts.keys s'.errors) := by
  unfold Running.load at h
  cases hf : m.dependsOn.find? (!isRunning s.loaded ·) with
  | some dep =>
    rw [hf] at h
    cases h
    exact ⟨hs, .inl rfl, fun _ hn => Dicts.mem_keys_set.2 (.inr hn), .inr (Dicts.mem_keys_set.2 (.inl rfl))⟩
  | none =>
    rw [hf] at h
    cases hi : importModule m with
    | error text =>
      rw [hi] at h
      simp only at h
      split_ifs at h
      cases h
      exact ⟨hs, .inl rfl, fun _ hn => Dicts.mem_keys_set.2 (.inr hn), .inr (Dicts.mem_keys_set.2 (.inl rfl))⟩
    | ok done =>
      rw [hi] at h
      cases h
      have hdeps : ∀ name ∈ m.dependsOn, name ∈ moduleNames s.loaded := by
        intro name hname
        have hrun := List.find?_eq_none.1 hf name hname
        have hrun : name ∉ moduleNames s.loaded → name ∈ CORE_FOLDED := by simpa [isRunning] using hrun
        by_contra hnot
        exact hcore name hname (hrun hnot)
      refine ⟨hs.append hnew hdeps, .inr rfl, fun _ => id, .inl ?_⟩
      rw [moduleNames, List.map_append]
      exact List.mem_append_right _ (List.mem_singleton_self _)

/-- **What is loaded of an admission**: modules in order, among those admitted; each other has a
    reason. -/
theorem loadAll_spec {a : Admission} (ha : InOrder a.admitted) (hcore : ∀ m ∈ a.admitted, m.name ∉ CORE_FOLDED)
    (h : loadAll importModule a = .ok s) :
    InOrder s.loaded ∧ (∀ m ∈ s.loaded, m ∈ a.admitted) ∧ (∀ name ∈ Dicts.keys a.refused, name ∈ Dicts.keys s.errors) ∧
      Accounted (· ∈ moduleNames a.admitted) s := by
  have hdeps : ∀ m ∈ a.admitted, ∀ name ∈ m.dependsOn, name ∉ CORE_FOLDED := by
    intro m hm name hname
    obtain ⟨m', hm', rfl⟩ := mem_moduleNames.1 (ha.mem hm hname)
    exact hcore m' hm'
  have hloop : ∀ {ms : List AdmittedModule} {s₀ s : Running}, InOrder s₀.loaded → (moduleNames ms).Nodup →
      (∀ m ∈ ms, m ∈ a.admitted ∧ m.name ∉ moduleNames s₀.loaded) → ms.foldlM (Running.load importModule) s₀ = .ok s →
        InOrder s.loaded ∧ (∀ m ∈ s.loaded, m ∈ s₀.loaded ∨ m ∈ ms) ∧
          (∀ name ∈ Dicts.keys s₀.errors, name ∈ Dicts.keys s.errors) ∧
          ∀ name, name ∈ moduleNames s₀.loaded ∨ name ∈ moduleNames ms →
            name ∈ moduleNames s.loaded ∨ name ∈ Dicts.keys s.errors := by
    intro ms
    induction ms with
    | nil =>
      intro s₀ s hs₀ _ _ h
      cases h
      exact ⟨hs₀, fun m => .inl, fun _ => id, fun name hn => .inl (hn.resolve_right List.not_mem_nil)⟩
    | cons m ms ih =>
      intro s₀ s hs₀ hd hms h
      rw [List.foldlM_cons] at h
      obtain ⟨s₁, hs₁, hrest⟩ := bind_eq_ok.1 h
      rw [moduleNames, List.map_cons, List.nodup_cons] at hd
      obtain ⟨hm, hnew⟩ := hms m List.mem_cons_self
      obtain ⟨hin₁, hloaded, herrors, hown⟩ := load_spec hs₀ hnew (hdeps m hm) hs₁
      have hnew₁ : ∀ m' ∈ ms, m' ∈ a.admitted ∧ m'.name ∉ moduleNames s₁.loaded := by
        intro m' hm'
        obtain ⟨hadm, hnot⟩ := hms m' (List.mem_cons_of_mem _ hm')
        refine ⟨hadm, ?_⟩
        rcases hloaded with heq | heq <;> rw [heq]
        · exact hnot
        · rw [moduleNames, List.map_append, List.mem_append, not_or]
          refine ⟨hnot, fun hsame => hd.1 ?_⟩
          rw [List.map_singleton, List.mem_singleton] at hsame
          exact hsame ▸ List.mem_map_of_mem hm'
      obtain ⟨hin, hsub, herrs, hacc⟩ := ih hin₁ hd.2 hnew₁ hrest
      refine ⟨hin, fun m' hm' => ?_, fun n hn => herrs n (herrors n hn), fun n hn => ?_⟩
      · rcases hsub m' hm' with hm' | hm'
        · rcases hloaded with heq | heq <;> rw [heq] at hm'
          · exact .inl hm'
          · rcases List.mem_append.1 hm' with hm' | hm'
            · exact .inl hm'
            · exact .inr (List.mem_singleton.1 hm' ▸ List.mem_cons_self)
        · exact .inr (List.mem_cons_of_mem _ hm')
      · have hstay : ∀ n ∈ moduleNames s₀.loaded, n ∈ moduleNames s₁.loaded := by
          intro n hn
          rcases hloaded with heq | heq <;> rw [heq]
          · exact hn
          · rw [moduleNames, List.map_append]
            exact List.mem_append_left _ hn
        rcases hn with hn | hn
        · exact hacc n (.inl (hstay n hn))
        · rcases List.mem_cons.1 hn with rfl | hn
          · exact hown.elim (fun h => hacc _ (.inl h)) fun h => .inr (herrs _ h)
          · exact hacc n (.inr hn)
  obtain ⟨hin, hsub, herrors, hacc⟩ := hloop inOrder_nil ha.distinct (fun m hm => ⟨hm, List.not_mem_nil⟩) h
  exact ⟨hin, fun m hm => (hsub m hm).resolve_left List.not_mem_nil, herrors, fun n hn => hacc n (.inr hn)⟩

/-- A stop leaves what it takes out with a reason. -/
theorem Accounted.deactivate (h : Accounted P s) (name : String) (why : LoadRefusal) :
    Accounted P (s.deactivate name why) := by
  intro n hn
  rcases h n hn with hn | hn
  · obtain ⟨m, hm, rfl⟩ := mem_moduleNames.1 hn
    by_cases hout : m.name ∈ Dicts.keys (s.out name why)
    · exact .inr (Dicts.mem_keys_update.2 (.inr hout))
    · exact .inl (List.mem_map_of_mem (List.mem_filter.2 ⟨hm, decide_eq_true hout⟩))
  · exact .inr (Dicts.mem_keys_update.2 (.inl hn))

end

/-! ## Runs -/

/-- Modules stopped one after another, each for its reason. -/
def Running.stopAll (s : Running) (stops : List (String × LoadRefusal)) : Running :=
  stops.foldl (fun s stop => s.deactivate stop.1 stop.2) s

section
variable {found : String → Inspected} {enabled : List String} {a : Admission} {failures : List (List (String × LoadRefusal))}
  {importModule : AdmittedModule → Except String Unit} {s : Running}

/-- What is left of an admission after the failures of migrations. -/
theorem withouts_spec (failures : List (List (String × LoadRefusal))) (h : InOrder a.admitted) :
    InOrder (failures.foldl Admission.without a).admitted ∧
      (∀ m ∈ (failures.foldl Admission.without a).admitted, m ∈ a.admitted) ∧
      ∀ name, name ∈ moduleNames a.admitted ∨ name ∈ Dicts.keys a.refused →
        name ∈ moduleNames (failures.foldl Admission.without a).admitted ∨
          name ∈ Dicts.keys (failures.foldl Admission.without a).refused := by
  induction failures generalizing a with
  | nil => exact ⟨h, fun _ => id, fun _ => id⟩
  | cons failed failures ih =>
    obtain ⟨hin, hmem, hkeys⟩ := without_spec h failed
    obtain ⟨hin', hsub, hacc⟩ := ih hin
    refine ⟨hin', fun m hm => ((hmem m).1 (hsub m hm)).1, fun name hname => hacc name ?_⟩
    rcases hname with hname | hname
    · obtain ⟨m, hm, rfl⟩ := mem_moduleNames.1 hname
      by_cases hout : m.name ∈ Dicts.keys (a.without failed).refused
      · exact .inr hout
      · exact .inl (List.mem_map_of_mem ((hmem m).2 ⟨hm, hout⟩))
    · exact .inr ((hkeys name).2 (.inl (.inl hname)))

theorem stopAll_spec {P : String → Prop} (stops : List (String × LoadRefusal)) (hs : InOrder s.loaded)
    (hacc : Accounted P s) :
    InOrder (s.stopAll stops).loaded ∧ (∀ m ∈ (s.stopAll stops).loaded, m ∈ s.loaded) ∧ Accounted P (s.stopAll stops) := by
  induction stops generalizing s with
  | nil => exact ⟨hs, fun _ => id, hacc⟩
  | cons stop stops ih =>
    obtain ⟨hin, hsub, hacc'⟩ := ih (hs.deactivate stop.1 stop.2) (hacc.deactivate stop.1 stop.2)
    exact ⟨hin, fun m hm => List.mem_of_mem_filter (hsub m hm), hacc'⟩

/-- What the process runs, after any stops. -/
theorem running_spec (ha : admitModules found enabled = .ok a)
    (hs : loadAll importModule (failures.foldl Admission.without a) = .ok s) (stops : List (String × LoadRefusal)) :
    InOrder (s.stopAll stops).loaded ∧ PrefixesApart (s.stopAll stops).loaded ∧
      Accounted (fun name => name ∈ enabled ∧ name ∉ CORE_FOLDED ∧ found name ≠ .missing) (s.stopAll stops) := by
  obtain ⟨hin, hapart, hcore, hacc⟩ := admitted_spec ha
  obtain ⟨hin', hsub, hacc'⟩ := withouts_spec failures hin
  obtain ⟨hloaded, hadmitted, herrors, hall⟩ := loadAll_spec hin' (fun m hm => hcore m (hsub m hm)) hs
  have hstart : Accounted (fun name => name ∈ enabled ∧ name ∉ CORE_FOLDED ∧ found name ≠ .missing) s := by
    rintro name ⟨hen, hname, hf⟩
    exact (hacc' name (hacc name hen hname hf)).elim (hall name) fun h => .inr (herrors name h)
  obtain ⟨hstopped, hstayed, haccounted⟩ := stopAll_spec stops hloaded hstart
  exact ⟨hstopped, hapart.subset fun m hm => hsub m (hadmitted m (hstayed m hm)), haccounted⟩

/-- **No two handlers of a process take one event type.** -/
theorem build_apart {modules : List AdmittedModule} (hd : (moduleNames modules).Nodup) (hapart : PrefixesApart modules)
    {kernel : List (String × Handler)} (hk : ∀ f ∈ kernel, f.1 ∈ KERNEL_PROJECTION_PREFIXES)
    (hone : ∀ f ∈ kernel, ∀ g ∈ kernel, projectionPrefixesOverlap f.1 g.1 = true → f = g) :
    ∀ f ∈ kernel ++ modules.flatMap (·.handlers), ∀ g ∈ kernel ++ modules.flatMap (·.handlers),
      projectionPrefixesOverlap f.1 g.1 = true → f = g := by
  -- a kernel prefix and a module's, two of one module's, and those of two modules
  have hkernel : ∀ f ∈ kernel, ∀ g ∈ modules.flatMap (·.handlers), projectionPrefixesOverlap f.1 g.1 = false := by
    intro f hf g hg
    obtain ⟨m, hm, hg⟩ := List.mem_flatMap.1 hg
    rw [overlap_comm]
    exact hapart.kernel m hm g.1 (List.mem_map_of_mem hg) f.1 (hk f hf)
  have hown : ∀ m ∈ modules, ∀ f ∈ m.handlers, ∀ g ∈ m.handlers, projectionPrefixesOverlap f.1 g.1 = true → f = g := by
    intro m _
    have hpairs : m.handlers.Pairwise fun f g => projectionPrefixesOverlap f.1 g.1 = true → f = g :=
      m.apart.imp fun h hoverlap => by
        rw [h] at hoverlap
        cases hoverlap
    have hsymm : Std.Symm fun f g : String × Handler => projectionPrefixesOverlap f.1 g.1 = true → f = g :=
      ⟨fun f g h hoverlap => (h (overlap_comm.trans hoverlap)).symm⟩
    exact fun f hf g hg => hpairs.forall_of_forall (fun _ _ _ => rfl) hf hg
  intro f hf g hg hoverlap
  rcases List.mem_append.1 hf with hf | hf
  · rcases List.mem_append.1 hg with hg | hg
    · exact hone f hf g hg hoverlap
    · rw [hkernel f hf g hg] at hoverlap
      cases hoverlap
  · rcases List.mem_append.1 hg with hg | hg
    · rw [overlap_comm, hkernel g hg f hf] at hoverlap
      cases hoverlap
    · obtain ⟨m, hm, hf⟩ := List.mem_flatMap.1 hf
      obtain ⟨m', hm', hg⟩ := List.mem_flatMap.1 hg
      by_cases hname : m.name = m'.name
      · obtain rfl := eq_of_name hd hm hm' hname
        exact hown m hm f hf g hg hoverlap
      · rw [hapart.others m hm m' hm' hname f.1 (List.mem_map_of_mem hf) g.1 (List.mem_map_of_mem hg)] at hoverlap
        cases hoverlap

/-- **What runs can run**: whatever is found of the modules, whichever migrations and imports
    fail and whatever is stopped, each module that runs comes after all it depends on, no two
    handlers take one event type, and each other that is enabled and installed has a reason. -/
theorem running_sound (ha : admitModules found enabled = .ok a)
    (hs : loadAll importModule (failures.foldl Admission.without a) = .ok s) (stops : List (String × LoadRefusal))
    {kernel : List (String × Handler)} (hk : ∀ f ∈ kernel, f.1 ∈ KERNEL_PROJECTION_PREFIXES)
    (hone : ∀ f ∈ kernel, ∀ g ∈ kernel, projectionPrefixesOverlap f.1 g.1 = true → f = g) :
    let running := s.stopAll stops
    (moduleNames running.loaded).Nodup ∧
      (∀ before m after, running.loaded = before ++ m :: after → ∀ dep ∈ m.dependsOn, dep ∈ moduleNames before) ∧
      (∀ f ∈ (running.build kernel).handlers, ∀ g ∈ (running.build kernel).handlers,
        projectionPrefixesOverlap f.1 g.1 = true → f = g) ∧
      ∀ name ∈ enabled, name ∉ CORE_FOLDED → found name ≠ .missing →
        name ∈ moduleNames running.loaded ∨ name ∈ Dicts.keys running.errors := by
  obtain ⟨hin, hapart, hacc⟩ := running_spec ha hs stops
  refine ⟨hin.distinct, fun before m after heq dep hdep => ?_, build_apart hin.distinct hapart hk hone,
    fun name hen hcore hf => hacc name ⟨hen, hcore, hf⟩⟩
  have hm : m ∈ (s.stopAll stops).loaded := heq ▸ List.mem_append_right _ List.mem_cons_self
  refine hin.ordered (moduleNames before) m.name (moduleNames after) ?_ dep (by rwa [moduleDeps_of_mem hin.distinct hm])
  rw [heq, moduleNames, List.map_append]
  rfl

/-- A module with one handler, of its own import name. -/
def oneHandler (firstParty : Bool) (dependsOn : List String) (root taken : String) : ModuleCopy :=
  ⟨firstParty, dependsOn, [root], [(taken, mergeEvent)], List.pairwise_singleton _ _⟩

/-- The books, a shop that needs them, and a till whose events the shop handles. -/
def shopFound : String → Inspected
  | "books" => .found (oneHandler true [] "books" "je.")
  | "shop" => .found (oneHandler false ["books"] "shop" "cart.")
  | "till" => .found (oneHandler false ["shop"] "till" "cart.line.")
  | _ => .missing

/-- The books and the shop; the till is refused. -/
def shopAdmission : Admission :=
  ⟨[⟨oneHandler true [] "books" "je.", "books"⟩, ⟨oneHandler false ["books"] "shop" "cart.", "shop"⟩],
    [("till", .overlaps "cart.line." "cart." "shop")]⟩

theorem running_sound_shop :
    let running := Running.stopAll ⟨shopAdmission.admitted, shopAdmission.refused⟩ [("shop", .reason "stopped")]
    (moduleNames running.loaded).Nodup ∧
      (∀ before m after, running.loaded = before ++ m :: after → ∀ dep ∈ m.dependsOn, dep ∈ moduleNames before) ∧
      (∀ f ∈ (running.build []).handlers, ∀ g ∈ (running.build []).handlers,
        projectionPrefixesOverlap f.1 g.1 = true → f = g) ∧
      ∀ name ∈ ["till", "shop", "gone", "books"], name ∉ CORE_FOLDED → shopFound name ≠ .missing →
        name ∈ moduleNames running.loaded ∨ name ∈ Dicts.keys running.errors := by
  have ha : admitModules shopFound ["till", "shop", "gone", "books"] = .ok shopAdmission := rfl
  have hs : loadAll (fun _ => .ok ()) ([].foldl Admission.without shopAdmission) =
      .ok ⟨shopAdmission.admitted, shopAdmission.refused⟩ := rfl
  exact running_sound ha hs [("shop", .reason "stopped")] nofun nofun

/-- **A stop takes out what needs it, and nothing else**: of the modules that run, whatever was
    stopped before, exactly those that depend on the one stopped, directly or not, and itself. -/
theorem stopped_exactly (ha : admitModules found enabled = .ok a)
    (hs : loadAll importModule (failures.foldl Admission.without a) = .ok s) (stops : List (String × LoadRefusal))
    (name : String) (why : LoadRefusal) (m : AdmittedModule) :
    m ∈ ((s.stopAll stops).deactivate name why).loaded ↔
      m ∈ (s.stopAll stops).loaded ∧ m.name ≠ name ∧
        ¬TransGen (fun a b => ∃ m ∈ (s.stopAll stops).loaded, m.name = a ∧ b ∈ m.dependsOn) m.name name := by
  obtain ⟨hin, -, -⟩ := running_spec ha hs stops
  have hrel : (fun a b => ∃ m ∈ (s.stopAll stops).loaded, m.name = a ∧ b ∈ m.dependsOn) =
      Needs (moduleDeps (s.stopAll stops).loaded) := by
    ext a b
    constructor
    · rintro ⟨m, hm, rfl, hb⟩
      rwa [Needs, moduleDeps_of_mem hin.distinct hm]
    · intro h
      by_cases ha : a ∈ moduleNames (s.stopAll stops).loaded
      · obtain ⟨m, hm, rfl⟩ := mem_moduleNames.1 ha
        rw [Needs, moduleDeps_of_mem hin.distinct hm] at h
        exact ⟨m, hm, rfl, h⟩
      · have hnone : (s.stopAll stops).loaded.find? (·.name = a) = none := by
          refine List.find?_eq_none.2 fun m hm hname => ha ?_
          exact mem_moduleNames.2 ⟨m, hm, by simpa using hname⟩
        rw [Needs, moduleDeps, hnone] at h
        cases h
  rw [hrel]
  exact mem_deactivate hin

theorem stopped_exactly_shop :
    let running := Running.stopAll ⟨shopAdmission.admitted, shopAdmission.refused⟩ []
    ∀ m, m ∈ (running.deactivate "books" (.reason "stopped")).loaded ↔
      m ∈ running.loaded ∧ m.name ≠ "books" ∧
        ¬TransGen (fun a b => ∃ m ∈ running.loaded, m.name = a ∧ b ∈ m.dependsOn) m.name "books" := by
  have ha : admitModules shopFound ["till", "shop", "gone", "books"] = .ok shopAdmission := rfl
  have hs : loadAll (fun _ => .ok ()) ([].foldl Admission.without shopAdmission) =
      .ok ⟨shopAdmission.admitted, shopAdmission.refused⟩ := rfl
  exact fun m => stopped_exactly ha hs [] "books" (.reason "stopped") m

end

end Celerp
