/-
  Posting roles (`celerp/accounting_roles.py`, `celerp/services/account_roles.py`): what
  an account is used for, and the account types each role takes.
-/
import Mathlib.Data.List.Basic

namespace Celerp

/-- `ACCOUNT_TYPES` -/
inductive AccountType where
  | asset
  | liability
  | equity
  | revenue
  | cogs
  | expense
  | other
  deriving DecidableEq, Repr

/-- `AccountRole` -/
inductive AccountRole where
  | cashAndEquivalents
  | defaultDeposit
  | receivable
  | payable
  | inventory
  | inventoryPurchased
  | inventoryOpening
  | landedFreight
  | landedInsurance
  | landedDuty
  | landedImportVat
  | taxInput
  | taxOutput
  | fixedAssets
  | intangibleAssets
  | retainedEarnings
  | salesRevenue
  | stockGain
  | cogs
  | generalExpense
  | fxGain
  | fxLoss
  | stockShrinkage
  | workInProgress
  | consignorPayable
  | onlinePaymentFees
  | accumulatedDepreciation
  | depreciationExpense
  | assetsUnderConstruction
  | assetDisposalClearing
  | disposalGain
  | disposalLoss
  | impairmentLoss
  | revaluationSurplus
  deriving DecidableEq, Repr

namespace AccountRole

/-- The roles, in the order they are declared. -/
def all : List AccountRole :=
  [cashAndEquivalents, defaultDeposit, receivable, payable, inventory, inventoryPurchased, inventoryOpening,
    landedFreight, landedInsurance, landedDuty, landedImportVat, taxInput, taxOutput, fixedAssets,
    intangibleAssets, retainedEarnings, salesRevenue, stockGain, cogs, generalExpense, fxGain, fxLoss,
    stockShrinkage, workInProgress, consignorPayable, onlinePaymentFees, accumulatedDepreciation,
    depreciationExpense, assetsUnderConstruction, assetDisposalClearing, disposalGain, disposalLoss,
    impairmentLoss, revaluationSurplus]

/-- The name a role is stored under. -/
def value : AccountRole → String
  | cashAndEquivalents => "cash_and_equivalents"
  | defaultDeposit => "default_deposit"
  | receivable => "receivable"
  | payable => "payable"
  | inventory => "inventory"
  | inventoryPurchased => "inventory_purchased"
  | inventoryOpening => "inventory_opening"
  | landedFreight => "landed_freight"
  | landedInsurance => "landed_insurance"
  | landedDuty => "landed_duty"
  | landedImportVat => "landed_import_vat"
  | taxInput => "tax_input"
  | taxOutput => "tax_output"
  | fixedAssets => "fixed_assets"
  | intangibleAssets => "intangible_assets"
  | retainedEarnings => "retained_earnings"
  | salesRevenue => "sales_revenue"
  | stockGain => "stock_gain"
  | cogs => "cogs"
  | generalExpense => "general_expense"
  | fxGain => "fx_gain"
  | fxLoss => "fx_loss"
  | stockShrinkage => "stock_shrinkage"
  | workInProgress => "work_in_progress"
  | consignorPayable => "consignor_payable"
  | onlinePaymentFees => "online_payment_fees"
  | accumulatedDepreciation => "accumulated_depreciation"
  | depreciationExpense => "depreciation_expense"
  | assetsUnderConstruction => "assets_under_construction"
  | assetDisposalClearing => "asset_disposal_clearing"
  | disposalGain => "disposal_gain"
  | disposalLoss => "disposal_loss"
  | impairmentLoss => "impairment_loss"
  | revaluationSurplus => "revaluation_surplus"

/-- `_value2member_map_`: the role stored under a name. -/
def ofValue? (s : String) : Option AccountRole := all.find? (·.value = s)

/-- `ROLE_TYPES` -/
def types : AccountRole → List AccountType
  | payable | taxOutput | consignorPayable => [.liability]
  | retainedEarnings | revaluationSurplus => [.equity]
  | salesRevenue | stockGain | fxGain | disposalGain => [.revenue]
  | cogs => [.cogs]
  | generalExpense | fxLoss | stockShrinkage | onlinePaymentFees | depreciationExpense | disposalLoss
  | impairmentLoss => [.expense]
  | cashAndEquivalents | defaultDeposit | receivable | inventory | inventoryPurchased | inventoryOpening
  | landedFreight | landedInsurance | landedDuty | landedImportVat | taxInput | fixedAssets
  | intangibleAssets | workInProgress | accumulatedDepreciation | assetsUnderConstruction
  | assetDisposalClearing => [.asset]

/-- `POSTABLE_ROLES`: every role but those that only group the accounts under them. -/
def postable (role : AccountRole) : Bool := role ≠ cashAndEquivalents ∧ role ≠ inventory

/-- `pair_of`: the gain and loss pair a role belongs to. -/
def pairOf : AccountRole → Option (AccountRole × AccountRole)
  | fxGain | fxLoss => some (fxGain, fxLoss)
  | disposalGain | disposalLoss => some (disposalGain, disposalLoss)
  | _ => none

/-- `allowed_types`: the types a target of a role may have; a pair may share one net
    account, which is then revenue or expense. -/
def allowedTypes (roleMap : List (AccountRole × String)) (role : AccountRole) : List AccountType :=
  match role.pairOf with
  | some (gain, loss) =>
    if (roleMap.lookup gain).isSome ∧ roleMap.lookup gain = roleMap.lookup loss then [.revenue, .expense]
    else role.types
  | none => role.types

end AccountRole

/-- `INVENTORY_VALUE_ROLES`: the roles whose accounts hold the value of goods on hand. -/
def INVENTORY_VALUE_ROLES : List AccountRole :=
  [.inventory, .inventoryPurchased, .inventoryOpening, .landedFreight, .landedInsurance, .landedDuty,
    .landedImportVat]

/-- `CONTINUED_ROLES`: the roles whose balance stays on the account it was recognized on. -/
def CONTINUED_ROLES : List AccountRole := [.workInProgress, .inventoryOpening]

end Celerp
