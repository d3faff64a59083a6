/-
  Posting accounts (`celerp/services/account_roles.py`): the account each role posts to
  now, the accounts that have served it, and what a journal line's roles say of it.

  `stockLine` is a line that moved stock value, `uncertainStockLine` one from before
  lines recorded their roles that may have.
-/
import Celerp.Accounts.Chart
import Celerp.Journal.Netting

namespace Celerp

open AccountRole

/-- The posting accounts of a company's settings. -/
structure PostingRoles where
  /-- `role_map` -/
  roleMap : List (AccountRole × String)
  /-- `scope_list` -/
  scopeList : AccountRole → List String

namespace PostingRoles
variable (roles : PostingRoles)

/-- `roles_for_account`: the roles whose current target or scope includes an account. -/
def rolesForAccount (code : String) : List String :=
  ((all.filter fun role => roles.roleMap.lookup role = some code ∨ code ∈ roles.scopeList role).map
    value).insertionSort (· ≤ ·)

/-- `target_problems`: whether a role's account cannot take its entries. -/
def targetProblem (chart : Chart) (role : AccountRole) : Bool :=
  match roles.roleMap.lookup role with
  | none => true
  | some code => code = "" ∨ (chart.get? code).all fun acc =>
      !acc.isActive ∨ acc.accountType ∉ role.allowedTypes roles.roleMap ∨
        role.postable ∧ chart.children code ≠ []

end PostingRoles

/-! ## Stock lines -/

/-- Whether a role a line names is an inventory role. -/
def isStockRole (role : String) : Bool := ∃ r ∈ ofValue? role, r ∈ INVENTORY_VALUE_ROLES

/-- `stock_line`: whether a line moved stock value. -/
def stockLine (roles : PostingRoles) (l : RoleLine) : Bool :=
  lineRoles roles.rolesForAccount l ≠ [] ∧ ∀ role ∈ lineRoles roles.rolesForAccount l, isStockRole role

/-- `uncertain_stock_line`: whether a line may have moved stock value but cannot be shown
    to. -/
def uncertainStockLine (roles : PostingRoles) (l : RoleLine) : Bool :=
  l.accountRoles = none ∧ (∃ role ∈ lineRoles roles.rolesForAccount l, isStockRole role) ∧
    ¬∀ role ∈ lineRoles roles.rolesForAccount l, isStockRole role

section
variable {roles : PostingRoles} {l : RoleLine} {role : AccountRole}

@[simp] theorem ofValue?_value (role : AccountRole) : ofValue? role.value = some role := by
  cases role <;> decide

theorem isStockRole_value : isStockRole role.value ↔ role ∈ INVENTORY_VALUE_ROLES := by
  simp [isStockRole]

/-- A line that recorded one role is stock where the role is an inventory role. -/
theorem stockLine_of_role (h : l.accountRoles = some [role.value]) :
    stockLine roles l ↔ role ∈ INVENTORY_VALUE_ROLES := by
  simp [stockLine, lineRoles, h, isStockRole_value]

theorem not_uncertain_of_roles {names : List String} (h : l.accountRoles = some names) :
    uncertainStockLine roles l = false := by
  simp [uncertainStockLine, h]

end

end Celerp
