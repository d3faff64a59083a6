/-
  The chart of accounts (`celerp_accounting/chart_rules.py`,
  `celerp_accounting/ledger_accounts.py`, `celerp_accounting/import_service.py`): adding,
  changing and removing an account, and what each is refused for.

  `ChartBooks` is what the rest of the company's books say at the time: the posting roles,
  the journal, the balances and the bank accounts.
-/
import Celerp.Accounts.Roles
import Celerp.Lib.Outcome
import Celerp.Lib.Pointers
import Mathlib.Data.Rat.Defs
import Mathlib.Data.List.Nodup

namespace Celerp

/-- `Account`, less the fields no rule reads. -/
structure Account where
  code : String
  accountType : AccountType
  parentCode : Option String
  isActive : Bool
  deriving DecidableEq, Repr

/-- The accounts of a company, one for each code. -/
structure Chart where
  accounts : List Account
  nodup : (accounts.map Account.code).Nodup

/-- `PARENT_TYPES`: the types an account may sit under. -/
def PARENT_TYPES : AccountType → List AccountType
  | .asset => [.asset]
  | .liability => [.liability]
  | .equity => [.equity]
  | .revenue => [.revenue]
  | .cogs => [.cogs, .expense]
  | .expense => [.expense, .cogs]
  | .other => [.other]

/-- Why an account cannot be removed. -/
inductive RemovalProblem where
  | gone
  | hasEntries
  | hasChildren
  | isTarget (roles : List AccountRole)
  | hasBank
  deriving DecidableEq, Repr

/-- What a change of the chart is refused for. -/
inductive ChartRefusal where
  | codeExists (code : String)
  | accountNotFound
  | parentIsPostingAccount (parentCode : String) (roles : List AccountRole)
  | parentMissing (parentCode : String)
  | parentInactive (parentCode : String)
  | parentTypeMismatch (accountType : AccountType) (parentCode : String) (parentType : AccountType)
  | bankActive (code : String) (banks : List String)
  | typeChangeBlockedByRole (code : String) (roles : List AccountRole) (accountType : AccountType)
  | typeChangeBlockedByHistory (code : String)
  | typeChangeBreaksChild (childCode : String) (childType : AccountType) (code : String)
      (accountType : AccountType)
  | deactivateBlockedByRole (code : String) (roles : List AccountRole)
  | accountKeepsBalance (code : String) (role : AccountRole) (balance : ℚ)
  | activeChildrenBlockDeactivate (code : String) (children : List String)
  | selfParent
  | parentCycle (parentCode code : String)
  | notRemovable (problem : RemovalProblem)
  deriving DecidableEq, Repr

/-- What the company's books say of accounts. -/
structure ChartBooks where
  /-- `role_map`, by role -/
  roleMap : List (AccountRole × String)
  /-- `scope_codes` -/
  scopes : AccountRole → List String
  /-- `has_journal_history` -/
  hasHistory : String → Bool
  /-- `account_balances` -/
  balance : String → ℚ
  /-- the names of the active bank accounts kept on an account -/
  activeBanks : String → List String
  /-- whether any bank account is kept on an account -/
  hasBank : String → Bool

namespace ChartBooks
variable (books : ChartBooks)

/-- `posting_targets`: the roles that post to an account directly. -/
def postingTargets (code : String) : List AccountRole :=
  (books.roleMap.filter fun r => r.1.postable ∧ r.2 = code).map Prod.fst

/-- `_roles_targeting` -/
def rolesTargeting (code : String) : List AccountRole :=
  (books.roleMap.filter fun r => r.2 = code).map Prod.fst

end ChartBooks

namespace Chart
variable (chart : Chart)

/-- `_account` -/
def get? (code : String) : Option Account := chart.accounts.find? (·.code = code)

/-- The parent an account names. -/
def parentOf (code : String) : Option String := (chart.get? code).bind Account.parentCode

/-- The accounts directly under an account. -/
def children (code : String) : List Account := chart.accounts.filter (·.parentCode = some code)

end Chart

/-- `parent_problem`: why an account of a type cannot sit under a parent. -/
def parentProblem (books : ChartBooks) (accountType : AccountType) (parent : Option Account) (parentCode : String) :
    Except ChartRefusal Unit :=
  if books.postingTargets parentCode ≠ [] then
    .error (.parentIsPostingAccount parentCode (books.postingTargets parentCode))
  else match parent with
    | none => .error (.parentMissing parentCode)
    | some parent =>
      if ¬parent.isActive then .error (.parentInactive parentCode)
      else if parent.accountType ∉ PARENT_TYPES accountType then
        .error (.parentTypeMismatch accountType parentCode parent.accountType)
      else .ok ()

/-! ## Adding an account -/

/-- `check_new_account` -/
def checkNewAccount (books : ChartBooks) (chart : Chart) (accountType : AccountType) (parentCode : Option String) :
    Except ChartRefusal Unit :=
  match parentCode with
  | none => .ok ()
  | some parentCode => parentProblem books accountType (chart.get? parentCode) parentCode

/-- The chart with an account of a new code. -/
def Chart.add (chart : Chart) (acc : Account) (hnew : chart.get? acc.code = none) : Chart where
  accounts := chart.accounts ++ [acc]
  nodup := by
    rw [List.map_append, List.nodup_append]
    refine ⟨chart.nodup, List.nodup_singleton _, ?_⟩
    intro code hcode code' hcode' heq
    obtain rfl := List.mem_singleton.1 hcode'
    obtain ⟨a, ha, rfl⟩ := List.mem_map.1 hcode
    exact List.find?_eq_none.1 hnew a ha (by simpa using heq)

/-- `create_chart_account` -/
def createChartAccount (books : ChartBooks) (chart : Chart) (acc : Account) : Except ChartRefusal Chart :=
  if hnew : chart.get? acc.code = none then
    (checkNewAccount books chart acc.accountType acc.parentCode).map fun _ => chart.add acc hnew
  else .error (.codeExists acc.code)

/-! ## Changing an account -/

/-- A change of an account; a field not given is left alone. -/
structure AccountChange where
  accountType : Option AccountType := none
  parentCode : Option (Option String) := none
  isActive : Option Bool := none
  deriving DecidableEq, Repr

/-- `check_account_change`: an active bank account posts to the account. -/
def checkAccountChange (books : ChartBooks) (acc : Account) (change : AccountChange) : Except ChartRefusal Unit :=
  let archives := change.isActive = some false ∧ acc.isActive
  let retypes := (∃ t ∈ change.accountType, t ≠ acc.accountType) ∧ acc.accountType = .asset
  if (archives ∨ retypes) ∧ books.activeBanks acc.code ≠ [] then
    .error (.bankActive acc.code (books.activeBanks acc.code))
  else .ok ()

/-- The account's type after a change. -/
def changedType (books : ChartBooks) (chart : Chart) (acc : Account) (accountType : Option AccountType) :
    Except ChartRefusal AccountType :=
  match accountType with
  | none => .ok acc.accountType
  | some t =>
    let bad := (books.rolesTargeting acc.code).filter fun r => t ∉ r.allowedTypes books.roleMap
    if t = acc.accountType then .ok t
    else if bad ≠ [] then .error (.typeChangeBlockedByRole acc.code bad t)
    else if books.hasHistory acc.code then .error (.typeChangeBlockedByHistory acc.code)
    else match (chart.children acc.code).find? fun child => t ∉ PARENT_TYPES child.accountType with
      | some child => .error (.typeChangeBreaksChild child.code child.accountType acc.code t)
      | none => .ok t

/-- Switching an active account off. -/
def deactivated (books : ChartBooks) (chart : Chart) (acc : Account) : Except ChartRefusal Bool :=
  let active := ((chart.children acc.code).filter Account.isActive).map Account.code
  if books.rolesTargeting acc.code ≠ [] then
    .error (.deactivateBlockedByRole acc.code (books.rolesTargeting acc.code))
  else match CONTINUED_ROLES.filter fun r => acc.code ∈ books.scopes r with
    | kept :: _ =>
      if books.balance acc.code ≠ 0 then .error (.accountKeepsBalance acc.code kept (books.balance acc.code))
      else if active ≠ [] then .error (.activeChildrenBlockDeactivate acc.code active)
      else .ok false
    | [] => if active ≠ [] then .error (.activeChildrenBlockDeactivate acc.code active) else .ok false

/-- Switching an inactive account on, under the parent it keeps. -/
def reactivated (chart : Chart) (acc : Account) (parentCode : Option (Option String)) : Except ChartRefusal Bool :=
  match acc.parentCode with
  | none => .ok true
  | some kept =>
    if parentCode = none ∨ parentCode = some (some kept) then
      match chart.get? kept with
      | some parent => if parent.isActive then .ok true else .error (.parentInactive kept)
      | none => .ok true
    else .ok true

/-- Whether the account is active after a change. -/
def changedActive (books : ChartBooks) (chart : Chart) (acc : Account) (change : AccountChange) :
    Except ChartRefusal Bool :=
  match change.isActive with
  | none => .ok acc.isActive
  | some false => if acc.isActive then deactivated books chart acc else .ok false
  | some true => if acc.isActive then .ok true else reactivated chart acc change.parentCode

/-- The account's parent after a change, at the type it then has. -/
def changedParent (books : ChartBooks) (chart : Chart) (acc : Account) (accountType : AccountType)
    (parentCode : Option (Option String)) : Except ChartRefusal (Option String) :=
  match parentCode with
  | none => .ok acc.parentCode
  | some none => .ok none
  | some (some p) =>
    if some p = acc.parentCode then .ok (some p)
    else if p = acc.code then .error .selfParent
    else do
      parentProblem books accountType (chart.get? p) p
      -- the parents of the new parent must end without coming to the account
      match Pointers.climb chart.parentOf (chart.accounts.length + 1) [acc.code] (some p) with
      | some _ => .error (.parentCycle p acc.code)
      | none => .ok (some p)

/-- The chart with one account's fields replaced. -/
def Chart.replace (chart : Chart) (code : String) (accountType : AccountType) (parentCode : Option String)
    (isActive : Bool) : Chart where
  accounts := chart.accounts.map fun a => if a.code = code then ⟨a.code, accountType, parentCode, isActive⟩ else a
  nodup := by
    have hcodes : (chart.accounts.map fun a =>
        if a.code = code then (⟨a.code, accountType, parentCode, isActive⟩ : Account) else a).map Account.code =
        chart.accounts.map Account.code := by
      rw [List.map_map]
      refine List.map_congr_left fun a _ => ?_
      simp only [Function.comp_apply]
      split_ifs <;> rfl
    rw [hcodes]
    exact chart.nodup

/-- `change_account` -/
def changeAccount (books : ChartBooks) (chart : Chart) (code : String) (change : AccountChange) :
    Except ChartRefusal Chart :=
  match chart.get? code with
  | none => .error .accountNotFound
  | some acc => do
    checkAccountChange books acc change
    let accountType ← changedType books chart acc change.accountType
    let isActive ← changedActive books chart acc change
    let parentCode ← changedParent books chart acc accountType change.parentCode
    return chart.replace code accountType parentCode isActive

/-! ## Removing an account -/

/-- `removal_problem` -/
def removalProblem (books : ChartBooks) (chart : Chart) (code : String) : Option RemovalProblem :=
  if chart.get? code = none then some .gone
  else if books.hasHistory code then some .hasEntries
  else if chart.children code ≠ [] then some .hasChildren
  else if books.rolesTargeting code ≠ [] then some (.isTarget (books.rolesTargeting code))
  else if books.hasBank code then some .hasBank
  else none

/-- `remove_account` -/
def removeAccount (books : ChartBooks) (chart : Chart) (code : String) : Except ChartRefusal Chart :=
  match removalProblem books chart code with
  | some problem => .error (.notRemovable problem)
  | none => .ok ⟨chart.accounts.filter (·.code ≠ code), by
      have hsub : ((chart.accounts.filter (·.code ≠ code)).map Account.code).Sublist
          (chart.accounts.map Account.code) := List.filter_sublist.map _
      exact chart.nodup.sublist hsub⟩

/-! ## Any change of the chart -/

/-- A change of the chart. -/
inductive ChartOp where
  | create (acc : Account)
  | change (code : String) (change : AccountChange)
  | remove (code : String)
  deriving DecidableEq, Repr

/-- What an operation makes of the chart, unless it is refused. -/
def ChartOp.run (books : ChartBooks) (chart : Chart) : ChartOp → Except ChartRefusal Chart
  | .create acc => createChartAccount books chart acc
  | .change code c => changeAccount books chart code c
  | .remove code => removeAccount books chart code

/-- The chart after an operation: as it was where the operation is refused. -/
def ChartOp.step (chart : Chart) (op : ChartBooks × ChartOp) : Chart :=
  match op.2.run op.1 chart with
  | .ok chart' => chart'
  | .error _ => chart

end Celerp
