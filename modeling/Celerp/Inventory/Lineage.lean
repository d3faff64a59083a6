/-
  Where the goods of lots went (`lineage` in `celerp/services/account_roles.py`,
  `_held_where` in `celerp/services/auto_je.py`).

  Goods follow their lot into the parts split off it and the lot it was merged into.

  * `lineage` reads every lot that came from the roots, level by level, each with the
    lot it came from and how;
  * `heldWhere` lists, for a root, the lots that hold its goods; each of them is
    reached from it by splits and merges (`follows_of_mem_heldWhere`).
-/
import Celerp.Inventory.Lot
import Mathlib.Data.List.Sort
import Mathlib.Logic.Relation

namespace Celerp

/-- How a lot came from another (`_LOT_PARENT_KEYS` and `merged_into`). -/
inductive LotLink where
  | transformedFrom
  | splitFrom
  | returnedFrom
  | mergedInto
  deriving DecidableEq, Repr

/-- A lot of a lineage, with the lot it came from, unless it is a root. -/
structure LineageRow where
  row : ItemRow
  parent : Option (String × LotLink)
  deriving DecidableEq, Repr

namespace Items
variable (items : Items)

/-- The rows of some entities, by entity id. -/
def rowsOf (ids : List String) : List ItemRow :=
  (items.rows.filter (·.entityId ∈ ids)).insertionSort fun a b => a.entityId ≤ b.entityId

/-- The lot a row came from: of the keys that name a lot seen, the first. -/
def parentIn (seen : List String) (s : LotState) : Option (String × LotLink) :=
  let named (key : Option String) (link : LotLink) : Option (String × LotLink) :=
    (key.filter (· ∈ seen)).map (·, link)
  ((named s.transformedFrom .transformedFrom).or (named s.splitFrom .splitFrom)).or
    (named s.returnedFrom .returnedFrom)

/-- The lots that came from those of a frontier and were not seen before: their parts,
    what was made of them and their returns, then the lots they were merged into. -/
def nextFrontier (seen ids : List String) : List (String × Option (String × LotLink)) :=
  let cameFrom (s : LotState) : Bool :=
    [s.splitFrom, s.transformedFrom, s.returnedFrom].any fun key => key.any (· ∈ ids)
  let children := ((items.rows.filter fun row => cameFrom row.state ∧ row.entityId ∉ seen).insertionSort
    fun a b => a.entityId ≤ b.entityId).map fun row => (row.entityId, parentIn seen row.state)
  (items.rowsOf ids).foldl (fun next row =>
    match row.state.mergedInto with
    | some into =>
      if into ∉ seen ∧ into ∉ next.map Prod.fst then
        next ++ [(into, some (row.entityId, LotLink.mergedInto))]
      else next
    | none => next) children

/-- The levels of a lineage from a frontier on.  Each frontier but the first names a lot
    not seen before, so there are no more of them than lots and lots merged into. -/
def lineageFrom : ℕ → List String → List (String × Option (String × LotLink)) → List LineageRow
  | 0, _, _ => []
  | _ + 1, _, [] => []
  | n + 1, seen, frontier =>
    let ids := frontier.map Prod.fst
    let seen := seen ++ ids
    (items.rowsOf ids).map (fun row => ⟨row, (frontier.lookup row.entityId).join⟩) ++
      lineageFrom n seen (items.nextFrontier seen ids)

/-- `lineage`: every lot that came from the roots, roots first. -/
def lineage (roots : List String) : List LineageRow :=
  items.lineageFrom (2 * items.rows.length + 2) [] (roots.map (·, none))

/-! ## Where goods are held -/

/-- The parts of a lot that a lineage lists (`parts`). -/
def partsIn (rows : List LineageRow) (lot : String) : List String :=
  (rows.filter fun l => l.parent = some (lot, .splitFrom)).map (·.row.entityId)

/-- The lots the goods of a lot went to, of those a lineage lists. -/
def wentTo (rows : List LineageRow) (lot : String) : List String :=
  (partsIn rows lot ++ ((items.get? lot).bind (·.state.mergedInto)).toList).filter
    (· ∈ rows.map (·.row.entityId))

/-- The members found from a list of them on: each in turn adds where its goods went. -/
def membersFrom (rows : List LineageRow) : ℕ → List String → List String → List String
  | 0, done, todo => done ++ todo
  | _ + 1, done, [] => done
  | n + 1, done, lot :: todo =>
    let more := (items.wentTo rows lot).filter (· ∉ done ++ lot :: todo)
    membersFrom rows n (done ++ [lot]) (todo ++ more)

/-- `_held_where`: the lots that hold the goods of a root, the root first.  Each member
    is added at most twice, so there are no more steps than that. -/
def heldWhere (roots : List String) (root : String) : List ItemRow :=
  let rows := items.lineage roots
  if root ∈ rows.map (·.row.entityId) then
    (items.membersFrom rows (2 * rows.length + 2) [] [root]).filterMap items.get?
  else []

/-- Goods go from a lot to a part split off it, or to the lot it was merged into. -/
def Goes (a b : String) : Prop :=
  (∃ row ∈ items.rows, row.entityId = b ∧ row.state.splitFrom = some a) ∨
    ∃ row ∈ items.rows, row.entityId = a ∧ row.state.mergedInto = some b

/-- Goods go from a lot to another by splits and merges. -/
def Follows : String → String → Prop := Relation.ReflTransGen items.Goes

end Items

/-! ## What is listed is reached -/

namespace Items
variable {items : Items} {rows : List LineageRow}

theorem splitFrom_of_parentIn {seen : List String} {s : LotState} {lot : String}
    (h : parentIn seen s = some (lot, .splitFrom)) : s.splitFrom = some lot := by
  unfold parentIn at h
  rcases Option.or_eq_some_iff.1 h with h | ⟨-, h⟩
  · rcases Option.or_eq_some_iff.1 h with h | ⟨-, h⟩
    · obtain ⟨_, -, h⟩ := Option.map_eq_some_iff.1 h
      simp at h
    · obtain ⟨_, hkey, h⟩ := Option.map_eq_some_iff.1 h
      obtain ⟨rfl, -⟩ := Prod.mk.inj h
      exact (Option.filter_eq_some_iff.1 hkey).1
  · obtain ⟨_, -, h⟩ := Option.map_eq_some_iff.1 h
    simp at h

/-- A frontier names a lot as split off another only where its row says so. -/
def SplitsRecorded (items : Items) (frontier : List (String × Option (String × LotLink))) : Prop :=
  ∀ id lot, (id, some (lot, LotLink.splitFrom)) ∈ frontier →
    ∃ row ∈ items.rows, row.entityId = id ∧ row.state.splitFrom = some lot

theorem splitsRecorded_nextFrontier (seen ids : List String) :
    items.SplitsRecorded (items.nextFrontier seen ids) := by
  unfold nextFrontier
  dsimp only
  generalize items.rowsOf ids = merged
  refine List.foldlRecOn merged _ ?_ ?_
  · intro id lot hmem
    obtain ⟨row, hrow, heq⟩ := List.mem_map.1 hmem
    obtain ⟨rfl, hparent⟩ := Prod.mk.inj heq
    rw [List.mem_insertionSort] at hrow
    exact ⟨row, List.mem_of_mem_filter hrow, rfl, splitFrom_of_parentIn hparent⟩
  · intro next hnext row hrow
    cases row.state.mergedInto with
    | none => exact hnext
    | some into =>
      dsimp only
      split_ifs
      · intro id lot hmem
        rcases List.mem_append.1 hmem with hmem | hmem
        · exact hnext id lot hmem
        · simp at hmem
      · exact hnext

theorem splitsRecorded_lineageFrom : ∀ {n : ℕ} {seen : List String}
    {frontier : List (String × Option (String × LotLink))}, items.SplitsRecorded frontier →
      ∀ l ∈ items.lineageFrom n seen frontier, ∀ lot, l.parent = some (lot, .splitFrom) →
        ∃ row ∈ items.rows, row.entityId = l.row.entityId ∧ row.state.splitFrom = some lot
  | 0, _, _, _, _, hl => absurd hl List.not_mem_nil
  | _ + 1, _, [], _, _, hl => absurd hl List.not_mem_nil
  | n + 1, seen, entry :: frontier, hfrontier, l, hl => by
    intro lot hparent
    rcases List.mem_append.1 hl with hl | hl
    · obtain ⟨row, -, rfl⟩ := List.mem_map.1 hl
      have hlookup : ((entry :: frontier).lookup row.entityId) = some (some (lot, .splitFrom)) :=
        Option.join_eq_some_iff.1 hparent
      obtain ⟨before, after, heq, -⟩ := List.lookup_eq_some_iff.1 hlookup
      exact hfrontier row.entityId lot (heq ▸ by simp)
    · exact splitsRecorded_lineageFrom (splitsRecorded_nextFrontier _ _) l hl lot hparent

/-- The rows of a lineage that name a lot as split off another record it. -/
theorem splitsRecorded_lineage (roots : List String) : ∀ l ∈ items.lineage roots, ∀ lot,
    l.parent = some (lot, .splitFrom) →
      ∃ row ∈ items.rows, row.entityId = l.row.entityId ∧ row.state.splitFrom = some lot := by
  refine splitsRecorded_lineageFrom fun id lot hmem => ?_
  obtain ⟨root, -, heq⟩ := List.mem_map.1 hmem
  simp at heq

theorem goes_of_mem_wentTo {roots : List String} {lot m : String}
    (h : m ∈ items.wentTo (items.lineage roots) lot) : items.Goes lot m := by
  rcases List.mem_append.1 (List.mem_of_mem_filter h) with hpart | hinto
  · obtain ⟨l, hl, rfl⟩ := List.mem_map.1 hpart
    have hparent : l.parent = some (lot, .splitFrom) := by simpa using List.of_mem_filter hl
    exact Or.inl (splitsRecorded_lineage roots l (List.mem_of_mem_filter hl) lot hparent)
  · obtain ⟨row, hget, hmerged⟩ := Option.bind_eq_some_iff.1 (Option.mem_toList.1 hinto)
    obtain ⟨hmem, hid⟩ := mem_of_get? hget
    exact Or.inr ⟨row, hmem, hid, hmerged⟩

theorem follows_membersFrom {roots : List String} {root : String} : ∀ {n : ℕ} {done todo : List String},
    (∀ m ∈ done ++ todo, items.Follows root m) →
      ∀ m ∈ items.membersFrom (items.lineage roots) n done todo, items.Follows root m
  | 0, _, _, h => h
  | _ + 1, done, [], h => by simpa [membersFrom] using h
  | n + 1, done, lot :: todo, h => by
    rw [membersFrom]
    refine follows_membersFrom fun m hm => ?_
    have hlot : items.Follows root lot := h lot (by simp)
    rcases List.mem_append.1 hm with hm | hm
    · exact h m (by simp at hm ⊢; tauto)
    · rcases List.mem_append.1 hm with hm | hm
      · exact h m (by simp [hm])
      · exact hlot.tail (goes_of_mem_wentTo (List.mem_of_mem_filter hm))

/-- **A lot that holds a root's goods is reached from it by splits and merges.** -/
theorem follows_of_mem_heldWhere {roots : List String} {root : String} {row : ItemRow}
    (h : row ∈ items.heldWhere roots root) :
    items.get? row.entityId = some row ∧ items.Follows root row.entityId := by
  unfold heldWhere at h
  dsimp only at h
  split_ifs at h
  · obtain ⟨m, hm, hget⟩ := List.mem_filterMap.1 h
    obtain ⟨hmem, rfl⟩ := mem_of_get? hget
    refine ⟨hget, follows_membersFrom ?_ _ hm⟩
    intro m hm
    obtain rfl : m = root := by simpa using hm
    exact .refl
  · exact absurd h List.not_mem_nil

end Items

end Celerp
