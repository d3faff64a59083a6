/-
  The order modules are loaded in (`_dependency_order` of `celerp/modules/loader.py`).

  The names are visited in turn, each after what it depends on; the state of the visits is
  explicit, the recursion by fuel.

  `dependencyOrder_spec`: the fuel is enough, and the order holds each name that can be loaded
  (`Loadable`: not refused, its dependencies enabled, installed, not refused and themselves
  loadable) once, after its dependencies; every other name has a reason.
-/
import Celerp.Lib.Dependencies
import Celerp.Lib.Dicts
import Mathlib.Data.Finset.Card
import Mathlib.Data.List.Sort
import Mathlib.Data.String.Basic

namespace Celerp

open Dependencies Relation

/-- Why a module is refused, or taken out. -/
inductive LoadRefusal where
  /-- a check of its own, its licence, its import or its stop -/
  | reason (text : String)
  /-- another module ships the import names -/
  | sharedNames (owner : String) (names : List String)
  /-- a projection prefix overlaps one another module handles -/
  | overlaps (own claimed owner : String)
  /-- "Requires …, which is not enabled." -/
  | notEnabled (dep : String)
  /-- "Requires …, which is not installed." -/
  | notInstalled (dep : String)
  /-- "Requires …, which failed to load." -/
  | failedToLoad (dep : String)
  /-- "Part of a dependency cycle." -/
  | cycle
  deriving DecidableEq, Repr

/-- What the visits have come to; a name is done once it is in the result. -/
structure Visits where
  result : List String := []
  skipped : List String
  onStack : List String := []
  errors : List (String × LoadRefusal)

/-- `_skip` -/
def Visits.skip (o : Visits) (name : String) (reason : LoadRefusal) : Visits :=
  { o with
    errors := Dicts.setDefault o.errors name reason
    skipped := name :: o.skipped
    onStack := o.onStack.filter (· ≠ name) }

section
variable (depsByName : List (String × List String)) (enabled installed : List String)

/-- The loop of `_visit` over the dependencies of a name, and what follows it. -/
def visitDeps (visit : String → Visits → Option Visits) (name : String) : List String → Visits → Option Visits
  | [], o => some { o with onStack := o.onStack.filter (· ≠ name), result := o.result ++ [name] }
  | dep :: deps, o =>
    if dep ∉ enabled then some (o.skip name (.notEnabled dep))
    else if dep ∉ installed then some (o.skip name (.notInstalled dep))
    else do
      let o ← (if dep ∈ Dicts.keys depsByName then visit dep o else some o)
      if dep ∈ o.skipped then some (o.skip name (.failedToLoad dep)) else visitDeps visit name deps o

/-- The declared dependencies of a name. -/
def depsOf (name : String) : List String := (Dicts.get? depsByName name).getD []

/-- `_visit` -/
def visit : ℕ → String → Visits → Option Visits
  | 0, _, _ => none
  | fuel + 1, name, o =>
    if name ∈ o.result ∨ name ∈ o.skipped then some o
    else if name ∈ o.onStack then some (o.skip name .cycle)
    else visitDeps depsByName enabled installed (visit fuel) name (depsOf depsByName name)
      { o with onStack := name :: o.onStack }

/-- `_dependency_order`, with the reasons it leaves. -/
def dependencyOrder (errors : List (String × LoadRefusal)) : Option Visits :=
  ((Dicts.keys depsByName).insertionSort (· ≤ ·)).foldlM
    (fun o name => visit depsByName enabled installed (depsByName.length + 1) name o)
    { errors, skipped := Dicts.keys errors }

/-! ## What can be loaded -/

/-- The dependencies of a name that are modules to be ordered. -/
def orderedDeps (name : String) : List String := (depsOf depsByName name).filter (· ∈ Dicts.keys depsByName)

/-- A name is not refused, and its dependencies are enabled, installed and not refused. -/
def Acceptable (errors : List (String × LoadRefusal)) (name : String) : Prop :=
  name ∉ Dicts.keys errors ∧
    ∀ dep ∈ depsOf depsByName name, dep ∈ enabled ∧ dep ∈ installed ∧ dep ∉ Dicts.keys errors

/-- A name can be loaded: it is acceptable, as all it depends on is. -/
def Loadable (errors : List (String × LoadRefusal)) (name : String) : Prop :=
  Grounded (orderedDeps depsByName) (Acceptable depsByName enabled installed errors) name

end

section
variable {depsByName : List (String × List String)} {enabled installed : List String}
  {errors : List (String × LoadRefusal)} {name dep : String}

theorem mem_orderedDeps : dep ∈ orderedDeps depsByName name ↔ dep ∈ depsOf depsByName name ∧ dep ∈ Dicts.keys depsByName := by
  simp [orderedDeps]

/-! ## The invariant -/

variable (depsByName enabled installed errors) in
/-- What holds between visits. -/
structure Visits.Inv (o : Visits) : Prop where
  loadable : ∀ a ∈ o.result, a ∈ Dicts.keys depsByName ∧ Loadable depsByName enabled installed errors a
  notLoadable : ∀ a ∈ o.skipped, ¬Loadable depsByName enabled installed errors a
  named : ∀ a ∈ o.skipped, a ∈ Dicts.keys errors ∨ a ∈ Dicts.keys depsByName
  ordered : DepsFirst (orderedDeps depsByName) o.result
  nodup : o.result.Nodup
  pending : ∀ a ∈ o.onStack, a ∉ o.result
  refused : ∀ a ∈ Dicts.keys errors, a ∈ o.skipped
  reasons : ∀ a ∈ o.skipped, a ∈ Dicts.keys o.errors
  kept : ∀ a r, Dicts.get? errors a = some r → Dicts.get? o.errors a = some r

/-- What a visit leaves of what it found. -/
structure Visits.Extends (o o' : Visits) : Prop where
  result : o.result <+: o'.result
  skipped : ∀ a ∈ o.skipped, a ∈ o'.skipped
  stack : ∀ a ∈ o'.onStack, a ∈ o.onStack
  touched : ∀ a ∈ o.onStack, a ∈ o'.onStack ∨ a ∈ o'.skipped

theorem Visits.Extends.refl (o : Visits) : o.Extends o := ⟨List.prefix_refl _, fun _ => id, fun _ => id, fun _ => .inl⟩

theorem Visits.Extends.trans {o₁ o₂ o₃ : Visits} (h : o₁.Extends o₂) (h' : o₂.Extends o₃) : o₁.Extends o₃ where
  result := h.result.trans h'.result
  skipped := fun a ha => h'.skipped a (h.skipped a ha)
  stack := fun a ha => h.stack a (h'.stack a ha)
  touched := fun a ha => (h.touched a ha).elim (h'.touched a) fun hs => .inr (h'.skipped a hs)

/-- The names no visit has come to. -/
def Visits.untouched (depsByName : List (String × List String)) (o : Visits) : Finset String :=
  (Dicts.keys depsByName).toFinset.filter fun a => a ∉ o.onStack ∧ a ∉ o.skipped ∧ a ∉ o.result

theorem Visits.mem_untouched {o : Visits} {a : String} :
    a ∈ o.untouched depsByName ↔ a ∈ Dicts.keys depsByName ∧ a ∉ o.onStack ∧ a ∉ o.skipped ∧ a ∉ o.result := by
  simp [Visits.untouched]

theorem Visits.Extends.untouched {o o' : Visits} (h : o.Extends o') :
    (o'.untouched depsByName).card ≤ (o.untouched depsByName).card := by
  refine Finset.card_le_card fun a ha => ?_
  rw [Visits.mem_untouched] at ha ⊢
  obtain ⟨hkey, hstack, hskipped, hresult⟩ := ha
  refine ⟨hkey, fun hs => ?_, fun hs => hskipped (h.skipped a hs), fun hs => hresult (h.result.subset hs)⟩
  exact (h.touched a hs).elim hstack hskipped

/-- **A name that cannot be loaded is skipped.** -/
theorem Visits.Inv.skip {o : Visits} (h : o.Inv depsByName enabled installed errors) (hname : name ∈ Dicts.keys depsByName)
    (hnot : ¬Loadable depsByName enabled installed errors name) (reason : LoadRefusal) :
    (o.skip name reason).Inv depsByName enabled installed errors where
  loadable := h.loadable
  notLoadable := fun a ha => by
    rcases List.mem_cons.1 ha with rfl | ha
    · exact hnot
    · exact h.notLoadable a ha
  named := fun a ha => by
    rcases List.mem_cons.1 ha with rfl | ha
    · exact .inr hname
    · exact h.named a ha
  ordered := h.ordered
  nodup := h.nodup
  pending := fun a ha => h.pending a (List.mem_of_mem_filter ha)
  refused := fun a ha => List.mem_cons_of_mem _ (h.refused a ha)
  reasons := fun a ha => by
    change a ∈ Dicts.keys (Dicts.setDefault o.errors name reason)
    by_contra hnone
    rw [← Dicts.get?_eq_none, Dicts.get?_setDefault] at hnone
    split_ifs at hnone with hname
    · cases hget : Dicts.get? o.errors name <;> rw [hget] at hnone <;> cases hnone
    · rcases List.mem_cons.1 ha with rfl | ha
      · exact hname rfl
      · exact Dicts.get?_eq_none.1 hnone (h.reasons a ha)
  kept := fun a r hr => by
    change Dicts.get? (Dicts.setDefault o.errors name reason) a = some r
    rw [Dicts.get?_setDefault]
    split_ifs with ha
    · subst ha
      rw [h.kept a r hr]
      rfl
    · exact h.kept a r hr

/-- What the visit of a name leaves of what it found, while it lasts. -/
structure Visits.Within (name : String) (o base : Visits) : Prop where
  result : base.result <+: o.result
  skipped : ∀ a ∈ base.skipped, a ∈ o.skipped
  stack : ∀ a ∈ o.onStack, a = name ∨ a ∈ base.onStack
  touched : ∀ a ∈ base.onStack, a ∈ o.onStack ∨ a ∈ o.skipped
  own : name ∈ o.onStack ∨ name ∈ o.skipped

theorem Visits.Within.extend {base o o' : Visits} (h : o.Within name base) (h' : o.Extends o') :
    o'.Within name base where
  result := h.result.trans h'.result
  skipped := fun a ha => h'.skipped a (h.skipped a ha)
  stack := fun a ha => h.stack a (h'.stack a ha)
  touched := fun a ha => (h.touched a ha).elim (h'.touched a) fun hs => .inr (h'.skipped a hs)
  own := h.own.elim (h'.touched name) fun hs => .inr (h'.skipped name hs)

theorem Visits.Within.skip {base o : Visits} (h : o.Within name base) (reason : LoadRefusal) :
    base.Extends (o.skip name reason) where
  result := h.result
  skipped := fun a ha => List.mem_cons_of_mem _ (h.skipped a ha)
  stack := fun a ha => by
    obtain ⟨ha, hne⟩ := List.mem_filter.1 ha
    exact (h.stack a ha).resolve_left (by simpa using hne)
  touched := fun a ha => by
    by_cases hne : a = name
    · exact .inr (hne ▸ List.mem_cons_self)
    · exact (h.touched a ha).imp (fun hs => List.mem_filter.2 ⟨hs, by simpa using hne⟩) (List.mem_cons_of_mem _)

theorem Visits.Within.finish {base o : Visits} (h : o.Within name base) (hfresh : name ∉ base.onStack) :
    base.Extends { o with onStack := o.onStack.filter (· ≠ name), result := o.result ++ [name] } where
  result := h.result.trans (List.prefix_append _ _)
  skipped := h.skipped
  stack := fun a ha => by
    obtain ⟨ha, hne⟩ := List.mem_filter.1 ha
    exact (h.stack a ha).resolve_left (by simpa using hne)
  touched := fun a ha =>
    (h.touched a ha).imp (fun hs => List.mem_filter.2 ⟨hs, decide_eq_true (ne_of_mem_of_not_mem ha hfresh)⟩) id

/-- **A name whose dependencies are done is done after them.** -/
theorem Visits.Inv.finish {base o : Visits} (h : o.Inv depsByName enabled installed errors) (hw : o.Within name base)
    (hname : name ∈ Dicts.keys depsByName) (hload : Loadable depsByName enabled installed errors name)
    (hdeps : ∀ dep ∈ orderedDeps depsByName name, dep ∈ o.result) :
    Visits.Inv depsByName enabled installed errors
      { o with onStack := o.onStack.filter (· ≠ name), result := o.result ++ [name] } where
  loadable := fun a ha => by
    rcases List.mem_append.1 ha with ha | ha
    · exact h.loadable a ha
    · rw [List.mem_singleton.1 ha]
      exact ⟨hname, hload⟩
  notLoadable := h.notLoadable
  named := h.named
  ordered := depsFirst_append.2 ⟨h.ordered, hdeps⟩
  nodup := by
    have hstack : name ∈ o.onStack := hw.own.resolve_right fun hs => h.notLoadable name hs hload
    refine List.nodup_append.2 ⟨h.nodup, List.nodup_singleton _, fun a ha b hb => ?_⟩
    rw [List.mem_singleton.1 hb]
    rintro rfl
    exact h.pending a hstack ha
  pending := fun a ha hres => by
    obtain ⟨hs, hne⟩ := List.mem_filter.1 ha
    rcases List.mem_append.1 hres with hres | hres
    · exact h.pending a hs hres
    · exact absurd (List.mem_singleton.1 hres) (by simpa using hne)
  refused := h.refused
  reasons := h.reasons
  kept := h.kept

/-! ## The visits -/

/-- What a visit of a name comes to. -/
def Visited (depsByName : List (String × List String)) (enabled installed : List String)
    (errors : List (String × LoadRefusal)) (name : String) (o : Visits) (out : Option Visits) : Prop :=
  ∃ o', out = some o' ∧ o'.Inv depsByName enabled installed errors ∧ o.Extends o' ∧ (name ∈ o'.result ∨ name ∈ o'.skipped)

/-- **The loop over the dependencies of a name.** -/
theorem visited_visitDeps {visit : String → Visits → Option Visits} {base : Visits} {fuel : ℕ}
    (hvisit : ∀ dep o, o.Inv depsByName enabled installed errors → dep ∈ Dicts.keys depsByName →
      (∀ a ∈ o.onStack, TransGen (Needs (orderedDeps depsByName)) a dep) →
      (o.untouched depsByName).card < fuel → Visited depsByName enabled installed errors dep o (visit dep o))
    (hname : name ∈ Dicts.keys depsByName) (hfresh : name ∉ base.onStack)
    (hpath : ∀ a ∈ base.onStack, TransGen (Needs (orderedDeps depsByName)) a name) :
    ∀ {deps : List String} {o : Visits}, o.Inv depsByName enabled installed errors → o.Within name base →
      (o.untouched depsByName).card < fuel → (∀ dep ∈ deps, dep ∈ depsOf depsByName name) →
      (∀ dep ∈ depsOf depsByName name, dep ∈ deps ∨ dep ∈ enabled ∧ dep ∈ installed ∧ dep ∉ Dicts.keys errors ∧
        (dep ∈ Dicts.keys depsByName → dep ∈ o.result)) → name ∉ Dicts.keys errors →
      Visited depsByName enabled installed errors name base (visitDeps depsByName enabled installed visit name deps o)
  | [], o, hinv, hw, hfuel, hsub, hdone, herr => by
    -- every dependency is done: so is the name
    have hdone (dep : String) (hdep : dep ∈ depsOf depsByName name) := (hdone dep hdep).resolve_left List.not_mem_nil
    have hload : Loadable depsByName enabled installed errors name := by
      refine .intro ⟨herr, fun dep hdep => ?_⟩ fun dep hdep => ?_
      · obtain ⟨hen, hin, hok, -⟩ := hdone dep hdep
        exact ⟨hen, hin, hok⟩
      · obtain ⟨hdep, hkey⟩ := mem_orderedDeps.1 hdep
        exact (hinv.loadable dep ((hdone dep hdep).2.2.2 hkey)).2
    refine ⟨_, rfl, hinv.finish hw hname hload fun dep hdep => ?_, hw.finish hfresh, .inl (List.mem_append_right _ (by simp))⟩
    obtain ⟨hdep, hkey⟩ := mem_orderedDeps.1 hdep
    exact (hdone dep hdep).2.2.2 hkey
  | dep :: deps, o, hinv, hw, hfuel, hsub, hdone, herr => by
    have hdep : dep ∈ depsOf depsByName name := hsub dep List.mem_cons_self
    have hskip {o : Visits} (hinv : o.Inv depsByName enabled installed errors) (hw : o.Within name base)
        (hnot : ¬Loadable depsByName enabled installed errors name) (reason : LoadRefusal) :
        Visited depsByName enabled installed errors name base (some (o.skip name reason)) :=
      ⟨_, rfl, hinv.skip hname hnot reason, hw.skip reason, .inr List.mem_cons_self⟩
    rw [visitDeps]
    by_cases hen : dep ∉ enabled
    · rw [if_pos hen]
      exact hskip hinv hw (fun h => hen (h.good.2 dep hdep).1) _
    rw [if_neg hen]
    by_cases hin : dep ∉ installed
    · rw [if_pos hin]
      exact hskip hinv hw (fun h => hin (h.good.2 dep hdep).2.1) _
    rw [if_neg hin]
    -- visited, where it is a module to be ordered
    have hafter : ∃ o', (if dep ∈ Dicts.keys depsByName then visit dep o else some o) = some o' ∧
        o'.Inv depsByName enabled installed errors ∧ o.Extends o' ∧
          (dep ∈ Dicts.keys depsByName → dep ∈ o'.result ∨ dep ∈ o'.skipped) := by
      split_ifs with hkey
      · have hstep : Needs (orderedDeps depsByName) name dep := mem_orderedDeps.2 ⟨hdep, hkey⟩
        obtain ⟨o', hvisit, hinv', hext, hres⟩ := hvisit dep o hinv hkey (fun a ha => by
          rcases hw.stack a ha with rfl | ha
          · exact .single hstep
          · exact (hpath a ha).tail hstep) hfuel
        exact ⟨o', hvisit, hinv', hext, fun _ => hres⟩
      · exact ⟨o, rfl, hinv, .refl o, fun hk => absurd hk hkey⟩
    obtain ⟨o', hvisited, hinv', hext, hres⟩ := hafter
    rw [hvisited]
    change Visited _ _ _ _ _ _ (if dep ∈ o'.skipped then some (o'.skip name (.failedToLoad dep)) else
      visitDeps depsByName enabled installed visit name deps o')
    split_ifs with hskipped
    · refine hskip hinv' (hw.extend hext) (fun h => ?_) _
      rcases hinv'.named dep hskipped with herr' | hkey
      · exact (h.good.2 dep hdep).2.2 herr'
      · exact hinv'.notLoadable dep hskipped (h.of_mem (mem_orderedDeps.2 ⟨hdep, hkey⟩))
    · refine visited_visitDeps hvisit hname hfresh hpath hinv' (hw.extend hext)
        (lt_of_le_of_lt hext.untouched hfuel) (fun d hd => hsub d (List.mem_cons_of_mem _ hd)) (fun d hd => ?_) herr
      rcases hdone d hd with hmem | ⟨hen, hin, hok, hres⟩
      · rcases List.mem_cons.1 hmem with rfl | hmem
        · refine .inr ⟨not_not.1 hen, not_not.1 hin, fun he => hskipped (hinv'.refused d he), fun hkey => ?_⟩
          exact (hres hkey).resolve_right hskipped
        · exact .inl hmem
      · exact .inr ⟨hen, hin, hok, fun hkey => hext.result.subset (hres hkey)⟩

/-- **A visit, with fuel for the names no visit has come to.** -/
theorem visited_visit : ∀ {fuel : ℕ} {name : String} {o : Visits}, o.Inv depsByName enabled installed errors →
    name ∈ Dicts.keys depsByName → (∀ a ∈ o.onStack, TransGen (Needs (orderedDeps depsByName)) a name) →
    (o.untouched depsByName).card < fuel →
    Visited depsByName enabled installed errors name o (visit depsByName enabled installed fuel name o)
  | 0, _, _, _, _, _, hfuel => absurd hfuel (Nat.not_lt_zero _)
  | fuel + 1, name, o, hinv, hname, hpath, hfuel => by
    rw [visit]
    split_ifs with hdone hstack
    · exact ⟨o, rfl, hinv, .refl o, hdone⟩
    · -- back at a name being visited: it depends on itself
      refine ⟨_, rfl, hinv.skip hname (fun h => h.not_cyclic (hpath name hstack)) _, ?_, .inr List.mem_cons_self⟩
      exact Visits.Within.skip ⟨List.prefix_refl _, fun _ => id, fun _ => .inr, fun _ => .inl, .inl hstack⟩ _
    · rw [not_or] at hdone
      have hpushed : Visits.Inv depsByName enabled installed errors { o with onStack := name :: o.onStack } := by
        refine ⟨hinv.loadable, hinv.notLoadable, hinv.named, hinv.ordered, hinv.nodup, fun a ha => ?_, hinv.refused,
          hinv.reasons, hinv.kept⟩
        rcases List.mem_cons.1 ha with rfl | ha
        · exact hdone.1
        · exact hinv.pending a ha
      have hless : (Visits.untouched depsByName { o with onStack := name :: o.onStack }).card < (o.untouched depsByName).card := by
        refine Finset.card_lt_card ⟨fun a ha => ?_, fun hsub => ?_⟩
        · obtain ⟨hkey, hs, hrest⟩ := Visits.mem_untouched.1 ha
          exact Visits.mem_untouched.2 ⟨hkey, fun h => hs (List.mem_cons_of_mem _ h), hrest⟩
        · have hmem := hsub (Visits.mem_untouched.2 ⟨hname, hstack, hdone.2, hdone.1⟩)
          exact (Visits.mem_untouched.1 hmem).2.1 List.mem_cons_self
      refine visited_visitDeps (fun dep o hinv hkey hpath hfuel => visited_visit hinv hkey hpath hfuel) hname hstack hpath
        hpushed ⟨List.prefix_refl _, fun _ => id, fun a ha => List.mem_cons.1 ha,
          fun a ha => .inl (List.mem_cons_of_mem _ ha), .inl List.mem_cons_self⟩ (by omega) (fun _ => id)
        (fun _ => .inl) fun he => hdone.2 (hinv.refused name he)

/-- **The order of the modules**: it holds each name that can be loaded, once, after all it
    depends on; every other name has a reason, and the reasons given before stand. -/
theorem dependencyOrder_spec (depsByName : List (String × List String)) (enabled installed : List String)
    (errors : List (String × LoadRefusal)) :
    ∃ o, dependencyOrder depsByName enabled installed errors = some o ∧
      (∀ name, name ∈ o.result ↔ name ∈ Dicts.keys depsByName ∧ Loadable depsByName enabled installed errors name) ∧
      o.result.Nodup ∧
      (∀ before name after, o.result = before ++ name :: after →
        ∀ dep ∈ depsOf depsByName name, dep ∈ Dicts.keys depsByName → dep ∈ before) ∧
      (∀ name ∈ Dicts.keys depsByName, name ∉ o.result → name ∈ Dicts.keys o.errors) ∧
      ∀ name reason, Dicts.get? errors name = some reason → Dicts.get? o.errors name = some reason := by
  have hstart : Visits.Inv depsByName enabled installed errors { errors, skipped := Dicts.keys errors } :=
    ⟨nofun, fun a ha h => h.good.1 ha, fun a ha => .inl ha, depsFirst_nil, .nil, nofun, fun _ => id, fun _ => id,
      fun _ _ => id⟩
  -- one visit after another, the stack empty between them
  have hloop : ∀ (names : List String) {o : Visits}, o.Inv depsByName enabled installed errors → o.onStack = [] →
      (∀ a ∈ names, a ∈ Dicts.keys depsByName) → ∃ o', names.foldlM
        (fun o name => visit depsByName enabled installed (depsByName.length + 1) name o) o = some o' ∧
          o'.Inv depsByName enabled installed errors ∧ o.Extends o' ∧ ∀ a ∈ names, a ∈ o'.result ∨ a ∈ o'.skipped := by
    intro names
    induction names with
    | nil => exact fun hinv _ _ => ⟨_, rfl, hinv, .refl _, nofun⟩
    | cons name names ih =>
      intro o hinv hempty hnames
      have hcard : (o.untouched depsByName).card < depsByName.length + 1 := by
        have h₁ : (o.untouched depsByName).card ≤ (Dicts.keys depsByName).toFinset.card :=
          Finset.card_le_card (Finset.filter_subset _ _)
        have h₂ : (Dicts.keys depsByName).toFinset.card ≤ depsByName.length := by
          simpa [Dicts.keys] using List.toFinset_card_le (Dicts.keys depsByName)
        omega
      obtain ⟨o₁, hvisit, hinv₁, hext₁, hres⟩ := visited_visit hinv (hnames name List.mem_cons_self)
        (by rw [hempty]; nofun) hcard
      have hempty₁ : o₁.onStack = [] := by
        refine List.eq_nil_iff_forall_not_mem.2 fun a ha => ?_
        have hmem := hext₁.stack a ha
        rw [hempty] at hmem
        cases hmem
      obtain ⟨o₂, hrest, hinv₂, hext₂, hall⟩ := ih hinv₁ hempty₁ fun a ha => hnames a (List.mem_cons_of_mem _ ha)
      refine ⟨o₂, by rw [List.foldlM_cons, hvisit]; exact hrest, hinv₂, hext₁.trans hext₂, fun a ha => ?_⟩
      rcases List.mem_cons.1 ha with rfl | ha
      · exact hres.imp (fun h => hext₂.result.subset h) (hext₂.skipped a)
      · exact hall a ha
  obtain ⟨o, hrun, hinv, -, hall⟩ := hloop ((Dicts.keys depsByName).insertionSort (· ≤ ·)) hstart rfl fun a ha =>
    (List.mem_insertionSort _).1 ha
  have hall (a : String) (ha : a ∈ Dicts.keys depsByName) : a ∈ o.result ∨ a ∈ o.skipped :=
    hall a ((List.mem_insertionSort _).2 ha)
  refine ⟨o, hrun, fun name => ⟨hinv.loadable name, fun h => ?_⟩, hinv.nodup, fun before name after heq dep hdep hkey => ?_,
    fun name hname hnot => hinv.reasons name ((hall name hname).resolve_left hnot), hinv.kept⟩
  · exact (hall name h.1).resolve_right fun hs => hinv.notLoadable name hs h.2
  · exact hinv.ordered before name after heq dep (mem_orderedDeps.2 ⟨hdep, hkey⟩)

end

end Celerp
