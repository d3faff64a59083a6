/-
  The chart of accounts over any run of changes: it stays a tree whose accounts fit under
  their parents.

  What a change gives an account is said once (`changedType_ok`, `changedActive_ok`,
  `changedParent_ok`), and what an account needs to stand in a well-formed chart is
  `Chart.Fits`.
-/
import Celerp.Accounts.Chart
import Celerp.Lib.Runs

namespace Celerp

open Outcome Pointers

namespace Chart
variable {chart : Chart} {acc a : Account} {code c p q : String}

/-! ## Looking accounts up -/

theorem get?_some (h : chart.get? c = some a) : a ∈ chart.accounts ∧ a.code = c :=
  ⟨List.mem_of_find?_eq_some h, by simpa using List.find?_some h⟩

theorem get?_code (h : chart.get? c = some a) : a.code = c := (get?_some h).2

/-- An account stands under its own code. -/
theorem get?_of_mem (ha : a ∈ chart.accounts) : chart.get? a.code = some a := by
  cases h : chart.get? a.code with
  | none => exact absurd (List.find?_eq_none.1 h a ha) (by simp)
  | some b =>
    obtain ⟨hb, hcode⟩ := get?_some h
    rw [List.inj_on_of_nodup_map chart.nodup hb ha hcode]

theorem parentOf_eq (h : chart.get? c = some a) : chart.parentOf c = a.parentCode := by simp [parentOf, h]

/-- An account names a parent only where it stands in the chart. -/
theorem parentOf_some (h : chart.parentOf c = some p) : ∃ a, chart.get? c = some a ∧ a.parentCode = some p :=
  Option.bind_eq_some_iff.1 h

theorem mem_children : a ∈ chart.children p ↔ chart.get? a.code = some a ∧ a.parentCode = some p := by
  simp only [children, List.mem_filter, decide_eq_true_eq]
  exact and_congr_left fun _ => ⟨get?_of_mem, fun h => (get?_some h).1⟩

theorem get?_add {hnew : chart.get? acc.code = none} :
    (chart.add acc hnew).get? c = if c = acc.code then some acc else chart.get? c := by
  have hadd : (chart.add acc hnew).get? c = (chart.get? c).or ([acc].find? (·.code = c)) := List.find?_append
  rw [hadd]
  split_ifs with h
  · subst h
    simp [hnew]
  · have hne : acc.code ≠ c := fun heq => h heq.symm
    simp [hne]

theorem get?_replace {t : AccountType} {pc : Option String} {b : Bool} :
    (chart.replace code t pc b).get? c =
      (chart.get? c).map fun a => if a.code = code then ⟨a.code, t, pc, b⟩ else a := by
  simp only [replace, get?, List.find?_map]
  congr 2
  ext a
  simp only [Function.comp_apply]
  split_ifs <;> rfl

section
variable {t : AccountType} {pc : Option String} {b : Bool}

theorem get?_replace_self (h : chart.get? code = some acc) :
    (chart.replace code t pc b).get? code = some ⟨code, t, pc, b⟩ := by
  rw [get?_replace, h, Option.map_some, if_pos (get?_code h), get?_code h]

theorem get?_replace_of_ne (hne : c ≠ code) : (chart.replace code t pc b).get? c = chart.get? c := by
  rw [get?_replace]
  cases h : chart.get? c with
  | none => rfl
  | some a => rw [Option.map_some, if_neg (by rw [get?_code h]; exact hne)]

end

/-! ## A well-formed chart -/

/-- An account of a type, active or not, may sit under `p`. -/
def Holds (chart : Chart) (p : String) (accountType : AccountType) (isActive : Bool) : Prop :=
  ∃ parent, chart.get? p = some parent ∧ parent.accountType ∈ PARENT_TYPES accountType ∧
    (isActive → parent.isActive)

/-- The chart is a tree: no account comes back to itself over its parents, an account's
    type is one its parent's type allows, and an active account's parent is active. -/
structure WellFormed (chart : Chart) : Prop where
  acyclic : Acyclic chart.parentOf
  typed : ∀ {code acc p}, chart.get? code = some acc → acc.parentCode = some p →
    ∃ parent, chart.get? p = some parent ∧ parent.accountType ∈ PARENT_TYPES acc.accountType
  active : ∀ {code acc p}, chart.get? code = some acc → acc.parentCode = some p → acc.isActive →
    ∃ parent, chart.get? p = some parent ∧ parent.isActive

theorem wellFormed_iff : chart.WellFormed ↔ Acyclic chart.parentOf ∧
    ∀ c a p, chart.get? c = some a → a.parentCode = some p → chart.Holds p a.accountType a.isActive := by
  constructor
  · intro h
    refine ⟨h.acyclic, fun c a p ha hp => ?_⟩
    obtain ⟨parent, hparent, htype⟩ := h.typed ha hp
    refine ⟨parent, hparent, htype, fun hactive => ?_⟩
    obtain ⟨parent', hparent', hactive'⟩ := h.active ha hp hactive
    rw [hparent] at hparent'
    exact Option.some.inj hparent' ▸ hactive'
  · rintro ⟨hacyclic, hholds⟩
    refine ⟨hacyclic, fun ha hp => ?_, fun ha hp hactive => ?_⟩
    · obtain ⟨parent, hparent, htype, -⟩ := hholds _ _ _ ha hp
      exact ⟨parent, hparent, htype⟩
    · obtain ⟨parent, hparent, -, hparentActive⟩ := hholds _ _ _ ha hp
      exact ⟨parent, hparent, hparentActive hactive⟩

namespace WellFormed
variable (h : chart.WellFormed)
include h

theorem holds (ha : chart.get? c = some a) (hp : a.parentCode = some p) :
    chart.Holds p a.accountType a.isActive := (wellFormed_iff.1 h).2 c a p ha hp

/-- No account is its own parent, at any remove. -/
theorem not_reaches (ha : chart.get? c = some a) (hp : a.parentCode = some p) : ¬Reaches chart.parentOf p c :=
  fun hreach => h.acyclic c (.head' (by rw [Goes, parentOf_eq ha, hp]) hreach)

theorem parent_ne (ha : chart.get? c = some a) (hp : a.parentCode = some p) : p ≠ c := by
  rintro rfl
  exact h.not_reaches ha hp .refl

end WellFormed

/-! ## An account and its neighbours -/

/-- An account so made may stand at `code`: under its parent, apart from the accounts under
    it, and over them. -/
structure Fits (chart : Chart) (code : String) (accountType : AccountType) (parentCode : Option String)
    (isActive : Bool) : Prop where
  under : ∀ q, parentCode = some q → chart.Holds q accountType isActive
  apart : ∀ q, parentCode = some q → ¬Reaches chart.parentOf q code
  above : ∀ child ∈ chart.children code, accountType ∈ PARENT_TYPES child.accountType ∧ (child.isActive → isActive)

section
variable {t : AccountType} {pc : Option String} {b : Bool}

theorem parentOf_replace (h : chart.get? code = some acc) :
    (chart.replace code t pc b).parentOf c = if c = code then pc else chart.parentOf c := by
  split_ifs with hc
  · subst hc
    exact parentOf_eq (get?_replace_self h)
  · rw [parentOf, get?_replace_of_ne hc, parentOf]

theorem acyclic_replace (h : chart.WellFormed) (hacc : chart.get? code = some acc)
    (hfits : chart.Fits code t pc b) : Acyclic (chart.replace code t pc b).parentOf := by
  have hgoes : ∀ x y, Goes (chart.replace code t pc b).parentOf x y →
      (x = code ∧ pc = some y) ∨ Goes chart.parentOf x y := by
    intro x y hxy
    rw [Goes, parentOf_replace hacc] at hxy
    split_ifs at hxy with hx
    · exact Or.inl ⟨hx, hxy⟩
    · exact Or.inr hxy
  cases pc with
  | none =>
    refine acyclic_mono h.acyclic fun x y hxy => ?_
    rcases hgoes x y hxy with ⟨-, hnone⟩ | hold
    · exact absurd hnone (by simp)
    · exact hold
  | some q =>
    refine acyclic_repoint h.acyclic (fun x y hxy => ?_) (hfits.apart q rfl)
    rcases hgoes x y hxy with ⟨hx, hq⟩ | hold
    · exact Or.inl ⟨hx, (Option.some.inj hq).symm⟩
    · exact Or.inr hold

/-- **An account changed to one that fits leaves the chart well formed.** -/
theorem WellFormed.replace (h : chart.WellFormed) (hacc : chart.get? code = some acc)
    (hfits : chart.Fits code t pc b) : (chart.replace code t pc b).WellFormed := by
  refine wellFormed_iff.2 ⟨acyclic_replace h hacc hfits, fun c a p ha hp => ?_⟩
  by_cases hc : c = code
  · subst hc
    obtain rfl := Option.some.inj ((get?_replace_self hacc).symm.trans ha)
    have hne : p ≠ c := by
      rintro rfl
      exact hfits.apart p hp .refl
    obtain ⟨parent, hparent, hfit⟩ := hfits.under p hp
    exact ⟨parent, by rwa [get?_replace_of_ne hne], hfit⟩
  · rw [get?_replace_of_ne hc] at ha
    by_cases hpc : p = code
    · subst hpc
      have hchild : a ∈ chart.children p := mem_children.2 ⟨by rw [get?_code ha]; exact ha, hp⟩
      exact ⟨_, get?_replace_self hacc, hfits.above a hchild⟩
    · obtain ⟨parent, hparent, hfit⟩ := h.holds ha hp
      exact ⟨parent, by rwa [get?_replace_of_ne hpc], hfit⟩

/-- A changed account of a well-formed chart sits under a parent its type allows. -/
theorem typed_of_replace (h : (chart.replace code t (some q) b).WellFormed) (hacc : chart.get? code = some acc) :
    ∃ parent, chart.get? q = some parent ∧ parent.accountType ∈ PARENT_TYPES t := by
  have hself : (chart.replace code t (some q) b).get? code = some ⟨code, t, some q, b⟩ := get?_replace_self hacc
  obtain ⟨parent, hparent, htype⟩ := h.typed hself rfl
  rw [get?_replace_of_ne (h.parent_ne hself rfl)] at hparent
  exact ⟨parent, hparent, htype⟩

end

end Chart

/-! ## What a change gives an account -/

section
variable {books : ChartBooks} {chart chart' : Chart} {acc parent : Account} {code p : String} {t : AccountType}
  {given : Option AccountType} {change : AccountChange} {b : Bool} {pc : Option String}

open Chart

theorem parentProblem_ok {found : Option Account} (h : parentProblem books t found p = .ok ()) :
    ∃ parent, found = some parent ∧ parent.isActive ∧ parent.accountType ∈ PARENT_TYPES t := by
  cases found with
  | none =>
    simp only [parentProblem] at h
    split_ifs at h
  | some parent =>
    simp only [parentProblem] at h
    split_ifs at h with hposts hactive htype
    exact ⟨parent, rfl, hactive, htype⟩

/-- An account keeps its type, or takes one that all accounts under it allow. -/
theorem changedType_ok (h : changedType books chart acc given = .ok t) :
    given.getD acc.accountType = t ∧
      (t = acc.accountType ∨ ∀ child ∈ chart.children acc.code, t ∈ PARENT_TYPES child.accountType) := by
  cases given with
  | none => exact ⟨Except.ok.inj h, Or.inl (Except.ok.inj h).symm⟩
  | some t' =>
    simp only [changedType] at h
    split_ifs at h with hsame
    · obtain rfl := Except.ok.inj h
      exact ⟨rfl, Or.inl hsame⟩
    · split at h
      · cases h
      · rename_i hnone
        obtain rfl := Except.ok.inj h
        refine ⟨rfl, Or.inr fun child hchild => ?_⟩
        simpa using List.find?_eq_none.1 hnone child hchild

theorem deactivated_ok (h : deactivated books chart acc = .ok b) :
    ∀ child ∈ chart.children acc.code, ¬child.isActive := by
  have hnone : ((chart.children acc.code).filter Account.isActive).map Account.code = [] := by
    by_contra hne
    rw [deactivated] at h
    split_ifs at h <;> split at h <;> cases h
  intro child hchild hactive
  rw [List.map_eq_nil_iff, List.filter_eq_nil_iff] at hnone
  exact hnone child hchild hactive

theorem reactivated_ok {moved : Option (Option String)} (h : reactivated chart acc moved = .ok b)
    (hp : acc.parentCode = some p) (hkept : moved = none ∨ moved = some (some p)) (hparent : chart.get? p = some parent) :
    parent.isActive := by
  rw [reactivated, hp] at h
  simp only [if_pos hkept, hparent] at h
  split_ifs at h with hactive
  exact hactive

/-- An account ends inactive only over inactive accounts, and active only under the active
    parent it keeps. -/
theorem changedActive_ok (hchart : chart.WellFormed) (hacc : chart.get? code = some acc)
    (h : changedActive books chart acc change = .ok b) :
    (∀ child ∈ chart.children code, child.isActive → b) ∧
      (b → ∀ p, acc.parentCode = some p → (change.parentCode = none ∨ change.parentCode = some (some p)) →
        ∀ parent, chart.get? p = some parent → parent.isActive) := by
  have hcode := get?_code hacc
  -- an account under an active one may stand as it does
  have hover : acc.isActive = b → ∀ child ∈ chart.children code, child.isActive → b := by
    rintro rfl child hchild hactive
    obtain ⟨hmem, hp⟩ := mem_children.1 hchild
    obtain ⟨parent, hparent, hparentActive⟩ := hchart.active hmem hp hactive
    rw [hacc] at hparent
    exact Option.some.inj hparent ▸ hparentActive
  have hunder : acc.isActive = true → ∀ p, acc.parentCode = some p → ∀ parent, chart.get? p = some parent →
      parent.isActive := by
    intro hactive p hp parent hparent
    obtain ⟨parent', hparent', hparentActive⟩ := hchart.active hacc hp hactive
    rw [hparent] at hparent'
    exact Option.some.inj hparent' ▸ hparentActive
  rw [changedActive] at h
  split at h
  · obtain rfl := Except.ok.inj h
    exact ⟨hover rfl, fun hb p hp _ => hunder hb p hp⟩
  · split_ifs at h with hactive
    · refine ⟨fun child hchild hchildActive => ?_, ?_⟩
      · exact absurd hchildActive (deactivated_ok h child (by rwa [hcode]))
      · intro hb p hp _
        exact hunder hactive p hp
    · obtain rfl := Except.ok.inj h
      refine ⟨hover (by simpa using hactive), nofun⟩
  · split_ifs at h with hactive
    · obtain rfl := Except.ok.inj h
      exact ⟨fun _ _ _ => rfl, fun _ p hp _ => hunder hactive p hp⟩
    · have hb : b = true := by
        rw [reactivated] at h
        split at h
        · exact (Except.ok.inj h).symm
        · split_ifs at h
          · split at h
            · split_ifs at h
              exact (Except.ok.inj h).symm
            · exact (Except.ok.inj h).symm
          · exact (Except.ok.inj h).symm
      refine ⟨fun _ _ _ => hb, fun _ p hp hkept parent hparent => ?_⟩
      exact reactivated_ok h hp hkept hparent

/-- An account keeps its parent, has none, or moves under one that is active, that its
    type allows and that does not lead back to it. -/
theorem changedParent_ok {moved : Option (Option String)} (h : changedParent books chart acc t moved = .ok pc) :
    (pc = acc.parentCode ∧ (moved = none ∨ moved = some pc)) ∨ (pc = none ∧ moved = some none) ∨
      ∃ p, pc = some p ∧ some p ≠ acc.parentCode ∧ moved = some (some p) ∧ chart.Holds p t true ∧
        ¬Reaches chart.parentOf p acc.code := by
  rw [changedParent.eq_def] at h
  split at h
  · exact Or.inl ⟨(Except.ok.inj h).symm, Or.inl rfl⟩
  · exact Or.inr (Or.inl ⟨(Except.ok.inj h).symm, rfl⟩)
  · rename_i p
    split_ifs at h with hsame hself
    · obtain rfl := Except.ok.inj h
      exact Or.inl ⟨hsame, Or.inr rfl⟩
    · obtain ⟨⟨⟩, hproblem, h⟩ := bind_eq_ok.1 h
      obtain ⟨parent, hparent, hactive, htype⟩ := parentProblem_ok hproblem
      split at h
      · cases h
      · rename_i hclimb
        obtain rfl := Except.ok.inj h
        refine Or.inr (Or.inr ⟨p, rfl, hsame, rfl, ⟨parent, hparent, htype, fun _ => hactive⟩, fun hreach => ?_⟩)
        exact not_reaches_of_climb hclimb hreach (List.mem_singleton_self _)

end

/-- Looking up a new parent's parents never ends for want of fuel. -/
theorem climb_chart (chart : Chart) (code : String) (node : Option String) {fuel : ℕ}
    (hfuel : chart.accounts.length < fuel) :
    climb chart.parentOf fuel [code] node = climb chart.parentOf (chart.accounts.length + 1) [code] node := by
  have hnodes : ∀ c, chart.parentOf c ≠ none → c ∈ chart.accounts.map Account.code := by
    intro c hc
    obtain ⟨p, hp⟩ := Option.ne_none_iff_exists'.1 hc
    obtain ⟨a, ha, -⟩ := Chart.parentOf_some hp
    exact Chart.get?_code ha ▸ List.mem_map_of_mem (Chart.get?_some ha).1
  have hunseen : unseen (chart.accounts.map Account.code) [code] ≤ chart.accounts.length + 1 := by
    have hlength := List.length_filter_le (fun n => n ∉ [code]) (chart.accounts.map Account.code)
    rw [List.length_map] at hlength
    exact Nat.add_le_add_right hlength 1
  induction fuel, hfuel using Nat.le_induction with
  | base => rfl
  | succ fuel hfuel ih => rw [climb_succ hnodes (hunseen.trans hfuel), ih]

/-! ## Each operation -/

section
variable {books : ChartBooks} {chart chart' : Chart} {acc parent : Account} {code p : String}

open Chart

/-- **A new account keeps the chart well formed**: nothing is under it yet. -/
theorem createChartAccount_wellFormed (h : chart.WellFormed) (hrun : createChartAccount books chart acc = .ok chart') :
    chart'.WellFormed := by
  rw [createChartAccount] at hrun
  split_ifs at hrun with hnew
  obtain ⟨⟨⟩, hcheck, rfl⟩ : ∃ u, checkNewAccount books chart acc.accountType acc.parentCode = .ok u ∧
      chart.add acc hnew = chart' := by
    cases hcheck : checkNewAccount books chart acc.accountType acc.parentCode with
    | error e => rw [hcheck] at hrun; cases hrun
    | ok u => rw [hcheck] at hrun; exact ⟨u, rfl, Except.ok.inj hrun⟩
  -- the new account's parent stands in the chart, and so is another
  have hparent : ∀ q, acc.parentCode = some q → chart.Holds q acc.accountType acc.isActive := by
    intro q hq
    rw [hq] at hcheck
    obtain ⟨parent, hfound, hactive, htype⟩ := parentProblem_ok hcheck
    exact ⟨parent, hfound, htype, fun _ => hactive⟩
  have hstays : ∀ {q : String} {t : AccountType} {b : Bool}, chart.Holds q t b → (chart.add acc hnew).Holds q t b := by
    rintro q t b ⟨parent, hfound, hfits⟩
    have hne : q ≠ acc.code := by
      rintro rfl
      simp [hnew] at hfound
    exact ⟨parent, by rwa [get?_add, if_neg hne], hfits⟩
  refine wellFormed_iff.2 ⟨?_, fun c a q ha hq => ?_⟩
  · have hgoes : ∀ x y, Goes (chart.add acc hnew).parentOf x y →
        (x = acc.code ∧ acc.parentCode = some y) ∨ Goes chart.parentOf x y := by
      intro x y hxy
      simp only [Goes, parentOf, get?_add] at hxy ⊢
      split_ifs at hxy with hx
      · exact Or.inl ⟨hx, by simpa using hxy⟩
      · exact Or.inr hxy
    cases hpc : acc.parentCode with
    | none =>
      refine acyclic_mono h.acyclic fun x y hxy => ?_
      rcases hgoes x y hxy with ⟨-, hsome⟩ | hold
      · exact absurd (hpc.symm.trans hsome) (by simp)
      · exact hold
    | some q =>
      refine acyclic_repoint h.acyclic (fun x y hxy => ?_) (c := acc.code) (p := q) ?_
      · rcases hgoes x y hxy with ⟨hx, hsome⟩ | hold
        · exact Or.inl ⟨hx, (Option.some.inj (hpc.symm.trans hsome)).symm⟩
        · exact Or.inr hold
      · intro hreach
        -- only an account of the chart is reached, and the new one is none
        rcases Relation.ReflTransGen.cases_tail hreach with heq | ⟨x, -, hx⟩
        · obtain ⟨parent, hfound, -⟩ := hparent q hpc
          rw [← heq, hnew] at hfound
          cases hfound
        · obtain ⟨a, ha, hpa⟩ := parentOf_some hx
          obtain ⟨parent, hfound, -⟩ := h.typed ha hpa
          rw [hnew] at hfound
          cases hfound
  · rw [get?_add] at ha
    split_ifs at ha with hc
    · obtain rfl := Option.some.inj ha
      exact hstays (hparent q hq)
    · exact hstays (h.holds ha hq)

/-- **Removing an account keeps the chart well formed**: nothing is under it. -/
theorem removeAccount_wellFormed (h : chart.WellFormed) (hrun : removeAccount books chart code = .ok chart') :
    chart'.WellFormed := by
  rw [removeAccount] at hrun
  split at hrun
  · cases hrun
  · rename_i hproblem
    obtain rfl := Except.ok.inj hrun
    have hchildren : chart.children code = [] := by
      rw [removalProblem] at hproblem
      split_ifs at hproblem with hgone hhistory hchildren
      exact not_not.1 hchildren
    have hget : ∀ {nodup}, ∀ c, (⟨chart.accounts.filter (·.code ≠ code), nodup⟩ : Chart).get? c =
        if c = code then none else chart.get? c := by
      intro nodup c
      simp only [get?, List.find?_filter]
      split_ifs with hc
      · subst hc
        simp
      · congr 1
        ext a
        by_cases ha : a.code = c
        · simp [ha, hc]
        · simp [ha]
    refine wellFormed_iff.2 ⟨acyclic_mono h.acyclic fun x y hxy => ?_, fun c a q ha hq => ?_⟩
    · simp only [Goes, parentOf, hget] at hxy ⊢
      split_ifs at hxy with hx
      · simp at hxy
      · exact hxy
    · rw [hget] at ha
      split_ifs at ha
      have hne : q ≠ code := by
        rintro rfl
        have hchild : a ∈ chart.children q := mem_children.2 ⟨by rw [get?_code ha]; exact ha, hq⟩
        simp [hchildren] at hchild
      obtain ⟨parent, hparent, hfits⟩ := h.holds ha hq
      exact ⟨parent, by rwa [hget, if_neg hne], hfits⟩

/-- Whether a change that gives an account a type and leaves it under its parent gives one
    the parent's type allows. -/
def KeepsParentType (chart : Chart) (op : ChartBooks × ChartOp) : Prop :=
  match op.2 with
  | .change code c => ∀ acc ∈ chart.get? code, ∀ t ∈ c.accountType, ∀ p ∈ acc.parentCode,
      (c.parentCode = none ∨ c.parentCode = some (some p)) →
        ∀ parent ∈ chart.get? p, parent.accountType ∈ PARENT_TYPES t
  | _ => True

instance decidableKeepsParentType : ∀ (chart : Chart) (op : ChartBooks × ChartOp), Decidable (KeepsParentType chart op)
  | chart, (_, .change code c) => inferInstanceAs (Decidable (∀ acc ∈ chart.get? code, ∀ t ∈ c.accountType,
      ∀ p ∈ acc.parentCode, (c.parentCode = none ∨ c.parentCode = some (some p)) →
        ∀ parent ∈ chart.get? p, parent.accountType ∈ PARENT_TYPES t))
  | _, (_, .create _) => isTrue trivial
  | _, (_, .remove _) => isTrue trivial

/-- **An accepted change keeps the chart well formed exactly when it keeps to a type the
    parent allows**, where the account stays under its parent. -/
theorem changeAccount_wellFormed_iff {change : AccountChange} (h : chart.WellFormed)
    (hrun : changeAccount books chart code change = .ok chart') :
    chart'.WellFormed ↔ KeepsParentType chart (books, .change code change) := by
  rw [changeAccount] at hrun
  split at hrun
  · cases hrun
  · rename_i acc hacc
    obtain ⟨⟨⟩, -, hrun⟩ := bind_eq_ok.1 hrun
    obtain ⟨t, htype, hrun⟩ := bind_eq_ok.1 hrun
    obtain ⟨b, hactive, hrun⟩ := bind_eq_ok.1 hrun
    obtain ⟨pc, hparent, hrun⟩ := bind_eq_ok.1 hrun
    obtain rfl := Except.ok.inj hrun
    have hcode := get?_code hacc
    obtain ⟨hover, hunder⟩ := changedActive_ok h hacc hactive
    obtain ⟨rfl, hchildren⟩ := changedType_ok htype
    have hparent := changedParent_ok hparent
    rw [hcode] at hchildren hparent
    constructor
    · intro hafter acc' hacc' t ht q hq hstay parent hfound
      obtain rfl := Option.some.inj (hacc.symm.trans hacc')
      rw [Option.mem_def] at ht hq
      have hpc : pc = some q := by
        rcases hparent with ⟨hsame, -⟩ | ⟨rfl, hnone⟩ | ⟨r, rfl, hr, hmoved, -⟩
        · exact hsame.trans hq
        · simp [hnone] at hstay
        · simp only [hmoved, reduceCtorEq, Option.some.injEq, false_or] at hstay
          rw [hstay]
      subst hpc
      obtain ⟨parent', hfound', hallowed⟩ := typed_of_replace hafter hacc
      obtain rfl := Option.some.inj (hfound.symm.trans hfound')
      simpa [ht] using hallowed
    · intro hkeeps
      refine h.replace hacc ⟨fun q hq => ?_, fun q hq => ?_, fun child hchild => ⟨?_, hover child hchild⟩⟩
      · rcases hparent with ⟨rfl, hstay⟩ | ⟨rfl, -⟩ | ⟨r, rfl, -, -, hholds, -⟩
        · -- the account stays: its parent is the one it had
          obtain ⟨parent, hfound, htyped, hparentActive⟩ := h.holds hacc hq
          refine ⟨parent, hfound, ?_, fun hb => hunder hb q hq (by rwa [hq] at hstay) parent hfound⟩
          cases ht : change.accountType with
          | none => exact htyped
          | some t => exact hkeeps acc hacc t ht q hq (by rwa [hq] at hstay) parent hfound
        · cases hq
        · obtain rfl := Option.some.inj hq
          obtain ⟨parent, hfound, htyped, hparentActive⟩ := hholds
          exact ⟨parent, hfound, htyped, fun _ => hparentActive rfl⟩
      · rcases hparent with ⟨rfl, -⟩ | ⟨rfl, -⟩ | ⟨r, rfl, -, -, -, hapart⟩
        · exact h.not_reaches hacc hq
        · cases hq
        · exact Option.some.inj hq ▸ hapart
      · rcases hchildren with hsame | hallowed
        · obtain ⟨hmem, hp⟩ := mem_children.1 hchild
          obtain ⟨parent, hfound, htyped⟩ := h.typed hmem hp
          obtain rfl := Option.some.inj (hacc.symm.trans hfound)
          rw [hsame]
          exact htyped
        · exact hallowed child hchild

end

/-! ## Any run of operations -/

/-- The operation is accepted. -/
def ChartAccepted (chart : Chart) (op : ChartBooks × ChartOp) : Prop := Succeeds (op.2.run op.1 chart)

instance decidableChartAccepted (chart : Chart) (op : ChartBooks × ChartOp) : Decidable (ChartAccepted chart op) :=
  inferInstanceAs (Decidable (Succeeds _))

/-- **An accepted operation keeps the chart well formed exactly when it keeps to a type
    the parent allows.** -/
theorem step_wellFormed_iff {chart : Chart} {op : ChartBooks × ChartOp} (h : chart.WellFormed)
    (haccepted : ChartAccepted chart op) : (ChartOp.step chart op).WellFormed ↔ KeepsParentType chart op := by
  obtain ⟨books, op⟩ := op
  obtain ⟨chart', hrun⟩ := haccepted
  have hstep : ChartOp.step chart (books, op) = chart' := by simp only [ChartOp.step, hrun]
  rw [hstep]
  cases op with
  | create acc => exact iff_of_true (createChartAccount_wellFormed h hrun) trivial
  | change code change => exact changeAccount_wellFormed_iff h hrun
  | remove code => exact iff_of_true (removeAccount_wellFormed h hrun) trivial

/-- **A run of accepted operations keeps the chart well formed exactly when none gives an
    account that stays under its parent a type the parent does not allow.** -/
theorem chart_wellFormed_iff {chart : Chart} {ops : List (ChartBooks × ChartOp)} (h : chart.WellFormed)
    (haccepted : Runs.EveryStep ChartOp.step ChartAccepted chart ops) :
    Runs.EveryAfter ChartOp.step Chart.WellFormed chart ops ↔ Runs.EveryStep ChartOp.step KeepsParentType chart ops :=
  have hstep : ∀ (chart : Chart) (op : ChartBooks × ChartOp), chart.WellFormed → ChartAccepted chart op →
      ((ChartOp.step chart op).WellFormed ↔ KeepsParentType chart op) := fun _ _ => step_wellFormed_iff
  Runs.everyAfter_iff hstep (fun chart op hchart hop hkeeps => (hstep chart op hchart hop).2 hkeeps) h haccepted

/-- A company with an empty chart and no books. -/
def noAccounts : Chart := ⟨[], List.nodup_nil⟩

def noBooks : ChartBooks := ⟨[], fun _ => [], fun _ => false, fun _ => 0, fun _ => [], fun _ => false⟩

theorem noAccounts_wellFormed : noAccounts.WellFormed := by
  refine Chart.wellFormed_iff.2 ⟨fun a ha => ?_, fun c a p ha => by cases ha⟩
  obtain ⟨b, hb, -⟩ := Relation.TransGen.head'_iff.1 ha
  cases hb

/-- An account under a header of operating expenses, made a cost of sales. -/
def costOps : List (ChartBooks × ChartOp) :=
  [(noBooks, .create ⟨"5000", .expense, none, true⟩), (noBooks, .create ⟨"5100", .expense, some "5000", true⟩),
    (noBooks, .change "5100" ⟨some .cogs, none, none⟩)]

theorem chart_wellFormed_cost : Runs.EveryAfter ChartOp.step Chart.WellFormed noAccounts costOps :=
  (chart_wellFormed_iff noAccounts_wellFormed (by decide +kernel)).2 (by decide +kernel)

/-- An account under a header of assets, made a liability. -/
def retypedOps : List (ChartBooks × ChartOp) :=
  [(noBooks, .create ⟨"1000", .asset, none, true⟩), (noBooks, .create ⟨"1110", .asset, some "1000", true⟩),
    (noBooks, .change "1110" ⟨some .liability, none, none⟩)]

/-- An accepted change of type leaves a liability under an asset. -/
theorem chart_not_wellFormed : noAccounts.WellFormed ∧
    Runs.EveryStep ChartOp.step ChartAccepted noAccounts retypedOps ∧
      ¬Runs.EveryAfter ChartOp.step Chart.WellFormed noAccounts retypedOps := by
  refine ⟨noAccounts_wellFormed, by decide +kernel, fun ⟨_, _, h, _⟩ => ?_⟩
  have hretyped : (ChartOp.step (ChartOp.step (ChartOp.step noAccounts retypedOps[0]) retypedOps[1])
      retypedOps[2]).get? "1110" = some ⟨"1110", .liability, some "1000", true⟩ := by decide +kernel
  obtain ⟨parent, hparent, htype⟩ := h.typed hretyped rfl
  obtain rfl : parent = ⟨"1000", .asset, none, true⟩ := by
    refine Option.some.inj (hparent.symm.trans ?_)
    decide +kernel
  exact absurd htype (by decide)

end Celerp
