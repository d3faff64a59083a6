/-
  The chart of accounts as a tree of balances (`celerp_accounting/account_tree.py`).

  A section of a report is the accounts of its types, nested as the chart nests them.  The
  parents are as they stand in the chart: of an account missing from the section, of the
  account itself, or in a circle.

  * an account that was reached is not reached again (`walkEach`), so the walk ends, and what
    it lists is an outline (`walk_spec`);
  * the lines of accounts reached one after the other are of different accounts, so their
    totals add up (`Counted.append`), and a header takes its own balance once
    (`Counted.withBelow`);
  * the balance of each account of the section is on one line that is no header
    (`tree_counts_once`).
-/
import Celerp.Accounts.Chart
import Celerp.Lib.Outline
import Mathlib.Algebra.BigOperators.Group.List.Basic
import Mathlib.Algebra.BigOperators.Group.Finset.Basic
import Mathlib.Algebra.Order.Ring.Rat
import Mathlib.Data.List.Sort

namespace Celerp

open Outlines

/-- An account with its name. -/
structure NamedAccount extends Account where
  name : String
  deriving DecidableEq, Repr

/-- A line of a report section. -/
structure TreeLine where
  code : String
  name : String
  accountType : AccountType
  amount : ℚ
  depth : ℕ
  isParent : Bool
  deriving DecidableEq, Repr

/-- What a section of a report is made of (`account_tree_lines`). -/
structure ReportSection where
  accounts : List NamedAccount
  nodup : (accounts.map (·.code)).Nodup
  /-- each account's debit minus credit -/
  balances : String → Option ℚ
  types : List AccountType
  creditNormal : Bool

namespace ReportSection
variable (s : ReportSection)

/-- The accounts of the section. -/
def nodes : List NamedAccount := s.accounts.filter (·.accountType ∈ s.types)

/-- The accounts of the section, by code. -/
def byCode : List NamedAccount := s.nodes.insertionSort fun a b => a.code ≤ b.code

/-- The parent of an account, if it is of the section. -/
def parentOf (a : NamedAccount) : Option String := a.parentCode.filter (· ∈ s.nodes.map (·.code))

/-- The accounts under a parent, or those under none. -/
def children (parent : Option String) : List NamedAccount := s.byCode.filter (s.parentOf · = parent)

/-- The own balance of an account of the section, if it has one. -/
def own (code : String) : Option ℚ := (s.balances code).map ((if s.creditNormal then -1 else 1) * ·)

/-- The line of an account. -/
def line (a : NamedAccount) (amount : ℚ) (depth : ℕ) (isParent : Bool) : TreeLine where
  code := a.code
  name := a.name
  accountType := a.accountType
  amount := amount
  depth := depth
  isParent := isParent

/-- The lines of an account and what they come to, given those below it: its own line where
    nothing is below, else a header, with the own balance as the first line under it. -/
def withBelow (a : NamedAccount) (depth : ℕ) (below : List TreeLine × ℚ) : Option (List TreeLine × ℚ) :=
  if below.1 = [] then (s.own a.code).map fun amount => ([line a amount depth false], amount)
  else match s.own a.code with
    | some amount => some (line a (below.2 + amount) depth true :: line a amount (depth + 1) false :: below.1,
        below.2 + amount)
    | none => some (line a below.2 depth true :: below.1, below.2)

/-- Walk the accounts that were not seen, in turn, adding what each comes to. -/
def walkEach (walk : NamedAccount → List String → Option (List String × Option (List TreeLine × ℚ))) :
    List NamedAccount → List String → List TreeLine × ℚ → Option (List String × List TreeLine × ℚ)
  | [], seen, sofar => some (seen, sofar)
  | a :: accounts, seen, sofar =>
    if a.code ∈ seen then walkEach walk accounts seen sofar
    else (walk a seen).bind fun r =>
      walkEach walk accounts r.1 (r.2.elim sofar fun sub => (sofar.1 ++ sub.1, sofar.2 + sub.2))

/-- `walk`: the lines of an account and all under it, with the accounts seen by then. -/
def walk : ℕ → ℕ → NamedAccount → List String → Option (List String × Option (List TreeLine × ℚ))
  | 0, _, _, _ => none
  | fuel + 1, depth, a, seen =>
    (walkEach (walk fuel (depth + 1)) (s.children (some a.code)) (a.code :: seen) ([], 0)).map fun r =>
      (r.1, s.withBelow a depth r.2)

/-- `account_tree_lines`: the section's lines and its total.  Each step down sees another
    account, so no account is deeper than there are accounts. -/
def accountTreeLines : Option (List TreeLine × ℚ) :=
  (walkEach (s.walk s.nodes.length 0) (s.children none ++ s.byCode) [] ([], 0)).map Prod.snd

/-! ## What the lines come to -/

/-- The accounts that lines are of. -/
def codesOf (lines : List TreeLine) : Finset String := (lines.map (·.code)).toFinset

/-- The balance of an account, nothing where it has none. -/
def balanceOf (code : String) : ℚ := (s.own code).getD 0

/-- What the accounts of lines have on their own. -/
def ownOf (lines : List TreeLine) : ℚ := ∑ code ∈ codesOf lines, s.balanceOf code

/-- The lines that are no headers, with their accounts. -/
def counted (lines : List TreeLine) : List (String × ℚ) :=
  (lines.filter (!·.isParent)).map fun l => (l.code, l.amount)

/-- The balances of accounts. -/
def ownBalances (accounts : List NamedAccount) : List (String × ℚ) :=
  accounts.filterMap fun a => (s.own a.code).map (a.code, ·)

/-- A header's amount is what the accounts listed under it have on their own. -/
def HeaderAdds (h : TreeLine) (below : List TreeLine) : Prop := h.isParent = true → h.amount = s.ownOf below

/-- The lines count the balances of accounts, each once. -/
structure Counted (accounts : List NamedAccount) (depth : ℕ) (sub : List TreeLine × ℚ) : Prop where
  outline : Outline TreeLine.depth s.HeaderAdds depth sub.1
  once : (counted sub.1).Perm (s.ownBalances accounts)
  among : codesOf sub.1 ⊆ (accounts.map (·.code)).toFinset
  total : sub.2 = s.ownOf sub.1

variable {s} {accounts more : List NamedAccount} {a : NamedAccount} {depth : ℕ} {sub sub' below : List TreeLine × ℚ}

theorem codesOf_cons (l : TreeLine) (lines : List TreeLine) : codesOf (l :: lines) = insert l.code (codesOf lines) := by
  simp [codesOf]

theorem codesOf_append (lines lines' : List TreeLine) :
    codesOf (lines ++ lines') = codesOf lines ∪ codesOf lines' := by
  simp [codesOf]

theorem Counted.nil : s.Counted [] depth ([], 0) :=
  ⟨.nil, .nil, by simp [codesOf], by simp [ownOf, codesOf]⟩

/-- Lines of different accounts count the accounts of both. -/
theorem Counted.append (h : s.Counted accounts depth sub) (h' : s.Counted more depth sub')
    (hdisjoint : (accounts.map (·.code)).Disjoint (more.map (·.code))) :
    s.Counted (more ++ accounts) depth (sub.1 ++ sub'.1, sub.2 + sub'.2) where
  outline := h.outline.append h'.outline
  once := by
    have hcounted : counted (sub.1 ++ sub'.1) = counted sub.1 ++ counted sub'.1 := by simp [counted]
    have hown : s.ownBalances (more ++ accounts) = s.ownBalances more ++ s.ownBalances accounts := by
      simp [ownBalances]
    rw [hcounted, hown]
    exact List.perm_append_comm.trans (h'.once.append h.once)
  among := by
    rw [codesOf_append, List.map_append, List.toFinset_append, Finset.union_comm]
    exact Finset.union_subset_union h'.among h.among
  total := by
    have hcodes : Disjoint (codesOf sub.1) (codesOf sub'.1) := by
      refine Finset.disjoint_of_subset_left h.among (Finset.disjoint_of_subset_right h'.among ?_)
      exact List.disjoint_toFinset_iff_disjoint.2 hdisjoint
    rw [ownOf, codesOf_append, Finset.sum_union hcodes, h.total, h'.total, ownOf, ownOf]

/-- Nothing listed, the accounts have no balance. -/
theorem Counted.nothing (h : s.Counted accounts depth sub) (hnil : sub.1 = []) (depth' : ℕ) :
    s.Counted accounts depth' ([], 0) where
  outline := .nil
  once := by simpa [hnil] using h.once
  among := by simp [codesOf]
  total := by simp [ownOf, codesOf]

theorem Counted.leaf {amount : ℚ} (hown : s.own a.code = some amount) :
    s.Counted [a] depth ([line a amount depth false], amount) where
  outline := .single rfl (by simp [HeaderAdds, line]) .nil
  once := by simp [counted, ownBalances, hown, line]
  among := by simp [codesOf, line]
  total := by simp [ownOf, codesOf, line, balanceOf, hown]

/-- An account without a balance adds none. -/
theorem Counted.silent (h : s.Counted accounts depth sub) (hown : s.own a.code = none) :
    s.Counted (accounts ++ [a]) depth sub where
  outline := h.outline
  once := by simpa [ownBalances, hown] using h.once
  among := by
    rw [List.map_append, List.toFinset_append]
    exact h.among.trans Finset.subset_union_left
  total := h.total

/-- A header carries the total under it, its account's balance included. -/
theorem Counted.header (h : s.Counted accounts (depth + 1) sub) (ha : a.code ∈ accounts.map (·.code))
    (hnew : a.code ∉ codesOf sub.1 → s.balanceOf a.code = 0) :
    s.Counted accounts depth (line a sub.2 depth true :: sub.1, sub.2) where
  outline := .single rfl (fun _ => h.total) h.outline
  once := by simpa [counted, line] using h.once
  among := by
    rw [codesOf_cons]
    exact Finset.insert_subset (List.mem_toFinset.2 ha) h.among
  total := by
    rw [ownOf, codesOf_cons]
    exact h.total.trans (Finset.sum_insert_of_eq_zero_if_notMem hnew).symm

/-- The lines of an account and all below it count its balance with theirs. -/
theorem Counted.withBelow (h : s.Counted accounts (depth + 1) below) (ha : a.code ∉ accounts.map (·.code)) :
    s.Counted (accounts ++ [a]) depth ((s.withBelow a depth below).getD ([], 0)) := by
  have hself : a.code ∈ (accounts ++ [a]).map (·.code) := by simp
  have hdisjoint : ([a].map (·.code)).Disjoint (accounts.map (·.code)) := by simpa using ha
  unfold ReportSection.withBelow
  split_ifs with hnil
  · cases hown : s.own a.code with
    | none => exact (h.nothing hnil depth).silent hown
    | some amount =>
      have happend := (Counted.leaf hown).append (h.nothing hnil depth) hdisjoint
      rwa [List.append_nil, add_zero] at happend
  · cases hown : s.own a.code with
    | none => exact (h.silent hown).header hself fun _ => by simp [balanceOf, hown]
    | some amount =>
      have happend := (Counted.leaf hown).append h hdisjoint
      have hlisted : a.code ∈ codesOf (line a amount (depth + 1) false :: below.1) := by simp [codesOf, line]
      dsimp only
      rw [add_comm below.2 amount]
      exact happend.header hself fun hnew => absurd hlisted hnew

/-! ## The walk -/

/-- A walk sees accounts of the section for the first time. -/
structure Walked (s : ReportSection) (seen seen' : List String) (accounts : List NamedAccount) : Prop where
  seen_eq : seen' = accounts.map (·.code) ++ seen
  nodes : ∀ a ∈ accounts, a ∈ s.nodes
  nodup : (accounts.map (·.code)).Nodup
  fresh : (accounts.map (·.code)).Disjoint seen

variable {seen seen' seen'' : List String} {n fuel : ℕ}

theorem Walked.refl : s.Walked seen seen [] := ⟨rfl, by simp, List.nodup_nil, by simp⟩

theorem Walked.cons (h : s.Walked (a.code :: seen) seen' accounts) (ha : a ∈ s.nodes) (hseen : a.code ∉ seen) :
    s.Walked seen seen' (accounts ++ [a]) where
  seen_eq := by simp [h.seen_eq]
  nodes := by simpa [or_imp, forall_and, ha] using h.nodes
  nodup := by
    rw [List.map_append, List.nodup_append']
    refine ⟨h.nodup, List.nodup_singleton _, fun code hcode hone => ?_⟩
    obtain rfl := List.mem_singleton.1 hone
    exact h.fresh hcode List.mem_cons_self
  fresh := by
    intro code hcode hold
    rw [List.map_append, List.mem_append] at hcode
    rcases hcode with hcode | hcode
    · exact h.fresh hcode (List.mem_cons_of_mem _ hold)
    · obtain rfl := List.mem_singleton.1 hcode
      exact hseen hold

theorem Walked.append (h : s.Walked seen seen' accounts) (h' : s.Walked seen' seen'' more) :
    s.Walked seen seen'' (more ++ accounts) where
  seen_eq := by rw [h'.seen_eq, h.seen_eq, List.map_append, List.append_assoc]
  nodes := by
    intro b hb
    rcases List.mem_append.1 hb with hb | hb
    · exact h'.nodes b hb
    · exact h.nodes b hb
  nodup := by
    rw [List.map_append, List.nodup_append']
    refine ⟨h'.nodup, h.nodup, fun code hmore hcode => h'.fresh hmore ?_⟩
    rw [h.seen_eq]
    exact List.mem_append_left seen hcode
  fresh := by
    intro code hcode hold
    rw [List.map_append, List.mem_append] at hcode
    rcases hcode with hcode | hcode
    · refine h'.fresh hcode ?_
      rw [h.seen_eq]
      exact List.mem_append_right _ hold
    · exact h.fresh hcode hold

theorem Walked.subset (h : s.Walked seen seen' accounts) : seen ⊆ seen' :=
  h.seen_eq ▸ List.subset_append_right _ seen

/-- The accounts still to be seen, and one. -/
def toSee (s : ReportSection) (seen : List String) : ℕ := Pointers.unseen (s.nodes.map (·.code)) seen

theorem Walked.toSee_le (h : s.Walked seen seen' accounts) : s.toSee seen' ≤ s.toSee seen := by
  refine Nat.add_le_add_right (List.Sublist.length_le (List.monotone_filter_right _ fun code hcode => ?_)) 1
  simp only [decide_eq_true_eq] at hcode ⊢
  exact fun hmem => hcode (h.subset hmem)

/-- What a walk from an account gives: it sees the account, and its lines count what it sees. -/
def Counts (s : ReportSection) (walk : NamedAccount → List String → Option (List String × Option (List TreeLine × ℚ)))
    (depth : ℕ) (a : NamedAccount) (seen : List String) : Prop :=
  ∃ seen' sub accounts, walk a seen = some (seen', sub) ∧ s.Walked seen seen' accounts ∧
    s.Counted accounts depth (sub.getD ([], 0)) ∧ a.code ∈ seen'

/-- Walking each of some accounts sees them all and counts what it sees. -/
theorem walkEach_spec {walk : NamedAccount → List String → Option (List String × Option (List TreeLine × ℚ))} :
    ∀ {todo : List NamedAccount} {seen : List String} (sofar : List TreeLine × ℚ),
      (∀ a ∈ todo, ∀ seen, s.toSee seen ≤ n → a.code ∉ seen → s.Counts walk depth a seen) → s.toSee seen ≤ n →
        ∃ seen' sub accounts, walkEach walk todo seen sofar = some (seen', sofar.1 ++ sub.1, sofar.2 + sub.2) ∧
          s.Walked seen seen' accounts ∧ s.Counted accounts depth sub ∧ ∀ a ∈ todo, a.code ∈ seen'
  | [], seen, sofar, _, _ => ⟨seen, ([], 0), [], by simp [walkEach], .refl, .nil, by simp⟩
  | a :: todo, seen, sofar, hwalk, hn => by
    have hrest : ∀ b ∈ todo, ∀ seen, s.toSee seen ≤ n → b.code ∉ seen → s.Counts walk depth b seen :=
      fun b hb => hwalk b (List.mem_cons_of_mem a hb)
    by_cases hseen : a.code ∈ seen
    · obtain ⟨seen', sub, accounts, heq, hwalked, hcounted, hall⟩ := walkEach_spec sofar hrest hn
      refine ⟨seen', sub, accounts, by rw [walkEach, if_pos hseen, heq], hwalked, hcounted, ?_⟩
      exact List.forall_mem_cons.2 ⟨hwalked.subset hseen, hall⟩
    · obtain ⟨seen₁, sub₁, accounts₁, heq₁, hwalked₁, hcounted₁, ha⟩ := hwalk a List.mem_cons_self seen hn hseen
      -- an account without lines adds as no lines do
      have hsofar : (sub₁.elim sofar fun sub => (sofar.1 ++ sub.1, sofar.2 + sub.2)) =
          (sofar.1 ++ (sub₁.getD ([], 0)).1, sofar.2 + (sub₁.getD ([], 0)).2) := by
        cases sub₁ <;> simp
      obtain ⟨seen₂, sub₂, accounts₂, heq₂, hwalked₂, hcounted₂, hall⟩ := walkEach_spec
        (sofar.1 ++ (sub₁.getD ([], 0)).1, sofar.2 + (sub₁.getD ([], 0)).2) hrest (hwalked₁.toSee_le.trans hn)
      refine ⟨seen₂, _, _, ?_, hwalked₁.append hwalked₂, hcounted₁.append hcounted₂ ?_, ?_⟩
      · rw [walkEach, if_neg hseen, heq₁, Option.bind_some, hsofar, heq₂, List.append_assoc, add_assoc]
      · intro code hcode hmore
        refine hwalked₂.fresh hmore ?_
        rw [hwalked₁.seen_eq]
        exact List.mem_append_left seen hcode
      · exact List.forall_mem_cons.2 ⟨hwalked₂.subset ha, hall⟩

theorem mem_byCode : a ∈ s.byCode ↔ a ∈ s.nodes := List.mem_insertionSort _

/-- **The walk from an account ends**, and its lines count what it sees. -/
theorem walk_spec (fuel : ℕ) : ∀ (depth : ℕ) {a : NamedAccount} {seen : List String}, a ∈ s.nodes → a.code ∉ seen →
    s.toSee seen ≤ fuel + 1 → s.Counts (s.walk fuel depth) depth a seen := by
  induction fuel with
  | zero =>
    intro depth a seen ha hseen hfuel
    have hless : s.toSee (a.code :: seen) < s.toSee seen :=
      Pointers.unseen_cons_lt (List.mem_map_of_mem ha) hseen
    have hone : 0 < s.toSee (a.code :: seen) := Nat.succ_pos _
    omega
  | succ fuel ih =>
    intro depth a seen ha hseen hfuel
    have hless : s.toSee (a.code :: seen) < s.toSee seen :=
      Pointers.unseen_cons_lt (List.mem_map_of_mem ha) hseen
    have hchildren : ∀ b ∈ s.children (some a.code), ∀ seen, s.toSee seen ≤ fuel + 1 → b.code ∉ seen →
        s.Counts (s.walk fuel (depth + 1)) (depth + 1) b seen :=
      fun b hb seen hroom hnew => ih (depth + 1) (mem_byCode.1 (List.mem_of_mem_filter hb)) hnew hroom
    obtain ⟨seen', below, accounts, heq, hwalked, hcounted, -⟩ :=
      walkEach_spec ([], 0) hchildren (by omega : s.toSee (a.code :: seen) ≤ fuel + 1)
    have hself : a.code ∉ accounts.map (·.code) := fun hmem => hwalked.fresh hmem List.mem_cons_self
    refine ⟨seen', _, _, ?_, hwalked.cons ha hseen, hcounted.withBelow hself, hwalked.subset List.mem_cons_self⟩
    rw [walk, heq, List.nil_append, zero_add, Option.map_some]

/-! ## The section -/

theorem nodup_nodes (s : ReportSection) : (s.nodes.map (·.code)).Nodup :=
  s.nodup.sublist (List.filter_sublist.map _)

/-- What all accounts of a section are seen by is the section. -/
theorem Walked.perm_nodes (h : s.Walked [] seen accounts) (hall : ∀ a ∈ s.nodes, a.code ∈ seen) :
    accounts.Perm s.nodes := by
  refine (List.perm_ext_iff_of_nodup (.of_map _ h.nodup) (.of_map _ s.nodup_nodes)).2 fun a => ⟨h.nodes a, fun ha => ?_⟩
  have hcode := hall a ha
  rw [h.seen_eq, List.append_nil] at hcode
  obtain ⟨b, hb, heq⟩ := List.mem_map.1 hcode
  rwa [← List.inj_on_of_nodup_map s.nodup_nodes (h.nodes b hb) ha heq]

/-- Accounts that have a balance are listed, so the others add nothing to what is listed. -/
theorem Counted.total_eq (h : s.Counted accounts depth sub) (hnodup : (accounts.map (·.code)).Nodup) :
    sub.2 = (accounts.map fun a => s.balanceOf a.code).sum := by
  have hlisted : ∀ code ∈ (accounts.map (·.code)).toFinset, code ∉ codesOf sub.1 → s.balanceOf code = 0 := by
    intro code hcode hnot
    obtain ⟨a, ha, rfl⟩ := List.mem_map.1 (List.mem_toFinset.1 hcode)
    cases hown : s.own a.code with
    | none => simp [balanceOf, hown]
    | some amount =>
      have hmem : (a.code, amount) ∈ counted sub.1 :=
        h.once.mem_iff.2 (List.mem_filterMap.2 ⟨a, ha, by rw [hown, Option.map_some]⟩)
      obtain ⟨l, hl, heq⟩ := List.mem_map.1 hmem
      refine absurd ?_ hnot
      rw [← (Prod.mk.inj heq).1]
      exact List.mem_toFinset.2 (List.mem_map_of_mem (List.mem_of_mem_filter hl))
  rw [h.total, ownOf, Finset.sum_subset h.among hlisted, List.sum_toFinset _ hnodup, List.map_map]
  rfl

/-- **A report tree counts each balance exactly once.**  Whatever the parents, the lines of a
    section are made; those that are no headers are the balances of its accounts, one each; a
    header's amount is what the accounts listed under it have on their own; and the total is
    what the accounts have. -/
theorem tree_counts_once (s : ReportSection) : ∃ lines total, s.accountTreeLines = some (lines, total) ∧
    (counted lines).Perm (s.ownBalances s.nodes) ∧
    (∀ before h after, lines = before ++ h :: after → h.isParent = true →
      h.amount = s.ownOf (under TreeLine.depth h after)) ∧
    total = (s.nodes.map fun a => s.balanceOf a.code).sum := by
  have htop : ∀ a ∈ s.children none ++ s.byCode, ∀ seen, s.toSee seen ≤ s.nodes.length + 1 → a.code ∉ seen →
      s.Counts (s.walk s.nodes.length 0) 0 a seen := by
    intro a ha seen hroom hseen
    refine walk_spec s.nodes.length 0 ?_ hseen hroom
    rcases List.mem_append.1 ha with ha | ha
    · exact mem_byCode.1 (List.mem_of_mem_filter ha)
    · exact mem_byCode.1 ha
  have hroom : s.toSee [] ≤ s.nodes.length + 1 := by simp [toSee, Pointers.unseen]
  obtain ⟨seen, sub, accounts, heq, hwalked, hcounted, hall⟩ := walkEach_spec ([], 0) htop hroom
  have hperm : accounts.Perm s.nodes :=
    hwalked.perm_nodes fun a ha => hall a (List.mem_append_right _ (mem_byCode.2 ha))
  refine ⟨sub.1, sub.2, ?_, hcounted.once.trans (hperm.filterMap _), ?_, ?_⟩
  · rw [accountTreeLines, heq, List.nil_append, zero_add, Option.map_some]
  · intro before h after hlines hparent
    exact hcounted.outline.tells_under hlines hparent
  · rw [hcounted.total_eq hwalked.nodup]
    exact (hperm.map _).sum_eq

/-- Two expense accounts, each under the other. -/
def officeCosts : ReportSection where
  accounts := [⟨⟨"6200", .expense, some "6100", true⟩, "Rent"⟩, ⟨⟨"6100", .expense, some "6200", true⟩, "Office"⟩]
  nodup := by decide
  balances code := if code = "6100" then some 30 else some 12
  types := [.expense]
  creditNormal := false

-- the circle is cut at the first account, whose own balance is a line under it
example : officeCosts.accountTreeLines.map (fun r => (r.1.map fun l => (l.code, l.amount, l.depth, l.isParent), r.2)) =
    some ([("6100", 42, 0, true), ("6100", 30, 1, false), ("6200", 12, 1, false)], 42) := by decide +kernel

end ReportSection

end Celerp
