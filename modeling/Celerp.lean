import Celerp.Lib.Rounding
import Celerp.Lib.Runs
import Celerp.Money
import Celerp.Docs.Document
import Celerp.Docs.Unissued
import Celerp.Docs.AmountPaid
import Celerp.Lib.Apportion
import Celerp.Inventory.Carve
import Celerp.Lib.Descent
import Celerp.Lib.Outcome
import Celerp.Manufacturing.Recipe
import Celerp.Manufacturing.RecipeAgreement
import Celerp.Journal.Entry
import Celerp.Journal.Payment
import Celerp.Journal.PaymentReturn
import Celerp.Inventory.Lot
import Celerp.Lib.Tally
import Celerp.Sales.Pick
import Celerp.Sales.LineCost
import Celerp.Sales.DrawnOnce
import Celerp.Inventory.Lineage
import Celerp.Lib.Grouping
import Celerp.Sales.Claims
import Celerp.Sales.ClaimsHeld
import Celerp.FixedAssets.Calendar
import Celerp.FixedAssets.Method
import Celerp.FixedAssets.Engine
import Celerp.FixedAssets.Past
import Celerp.FixedAssets.Charged
import Celerp.FixedAssets.Bounds
import Celerp.Accounts.Chart
import Celerp.Accounts.ChartRun
import Celerp.Docs.Numbering
import Celerp.Docs.NumberedOnce
import Celerp.Journal.Reversals
import Celerp.Journal.CancelledOnce
import Celerp.Manufacturing.ExplodedCost
import Celerp.Inventory.Item
import Celerp.Inventory.ItemCost
import Celerp.Inventory.UnitCost
import Celerp.Lib.Amounts
import Celerp.Journal.Netting
import Celerp.Journal.BilledOnce
import Celerp.Journal.Voiding
import Celerp.Journal.VoidNames
import Celerp.Journal.Unvoided
import Celerp.Journal.VoidCycles
import Celerp.Accounts.PostingRoles
import Celerp.Lib.Spread
import Celerp.Inventory.Placement
import Celerp.Inventory.PlacedStock
import Celerp.Inventory.Restatement
import Celerp.Inventory.RestatedOnce
import Celerp.Lib.Serving
import Celerp.Sales.SharedLots
import Celerp.Sales.LeastShort
import Celerp.Docs.LineMoney
import Celerp.Docs.ListTotals
import Celerp.Docs.MemoDraws
import Celerp.Docs.MemoBilled
import Celerp.FixedAssets.LifeSpent
import Celerp.Company.CompanyLock
import Celerp.Inventory.NegativeCost
import Celerp.Sales.ClaimedCost
import Celerp.Lib.Drain
import Celerp.Sales.MovedCosts
import Celerp.Money.Allocation
import Celerp.Lib.Telescope
import Celerp.Money.Pieces
import Celerp.Money.UnitPrice
import Celerp.Docs.BillCharges
import Celerp.Docs.BillDebits
import Celerp.Journal.RevenueShares
import Celerp.Manufacturing.RolledOnce
import Celerp.Sales.Snapshots
import Celerp.Accounts.PartyKeys
import Celerp.Journal.CostSettled
import Celerp.Manufacturing.Run
import Celerp.Manufacturing.Movements
import Celerp.Manufacturing.PlantSteps
import Celerp.Manufacturing.MovementEntries
import Celerp.Manufacturing.Reopened
import Celerp.Docs.DocumentMoney
import Celerp.Inventory.LandedCost
import Celerp.Inventory.StatusPairing
import Celerp.Inventory.ItemFiles
import Celerp.Docs.LineIdentity
import Celerp.Inventory.PriceLists
import Celerp.Accounts.BankMatching
import Celerp.Docs.DocumentEvents
import Celerp.Docs.VoidMemory
import Celerp.FixedAssets.KeptEnd
import Celerp.Manufacturing.IssuedValue
import Celerp.Manufacturing.MadeLots
import Celerp.Inventory.LineageLevels
import Celerp.Inventory.HeldOnce
import Celerp.Lib.Outline
import Celerp.Accounts.AccountTree
import Celerp.Inventory.ItemCodes
import Celerp.Lib.Dicts
import Celerp.Lib.Ensured
import Celerp.Lib.Json
import Celerp.Inventory.StoredItem
import Celerp.Inventory.StoredEvents
import Celerp.Inventory.CanonicalItem
import Celerp.Manufacturing.ConservedCost
import Celerp.Lib.EventLog
import Celerp.Inventory.KeptFields
import Celerp.Events.Ledger
import Celerp.Events.Emit
import Celerp.Events.Rebuilt
import Celerp.Events.Custody
import Celerp.Lib.Dependencies
import Celerp.Modules.LoadOrder
import Celerp.Modules.Admission
import Celerp.Modules.Running
import Celerp.Lib.Holdings
import Celerp.Inventory.LotLedger
import Celerp.Inventory.CarriedLots
import Celerp.Connectors.Execution
import Celerp.Connectors.Fenced
import Celerp.Connectors.Reruns
import Celerp.Connectors.XeroPush
import Celerp.Connectors.CreatedOnce
import Celerp.Connectors.StockQueue
import Celerp.Connectors.Delivered
