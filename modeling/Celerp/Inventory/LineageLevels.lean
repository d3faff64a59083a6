/-
  What a lineage comes to, level by level (`lineage` in
  `celerp/services/account_roles.py`).

  * each level names lots not seen before, so a lineage ends (`lineageFrom_of_le`) and reads
    no lot twice (`nodup_lotsRead`);
  * `ComeTo roots k m`: at most `k` steps from a lot to one that came from it, or that it was
    merged into, lead from a root to `m`.  The levels of a lineage are these (`Level`), so it
    reads the lots there are that are come to (`mem_lotsRead_iff`);
  * a lot is listed as split off another just where the lineage comes to that one before it,
    and before what it was transformed from (`mem_partsIn_iff`), the parts of a lot by their
    ids (`partsIn_eq`).
-/
import Celerp.Inventory.Lineage
import Mathlib.Data.Finset.SDiff

namespace Celerp

namespace Items
variable {items : Items}

/-! ## A lineage ends -/

/-- The lots and the lots they were merged into. -/
def namedLots (items : Items) : List String :=
  items.rows.map (·.entityId) ++ items.rows.filterMap (·.state.mergedInto)

theorem length_namedLots : items.namedLots.length ≤ 2 * items.rows.length := by
  have hmerged := List.length_filterMap_le (fun row : ItemRow => row.state.mergedInto) items.rows
  rw [namedLots, List.length_append, List.length_map]
  omega

theorem mem_rowsOf {ids : List String} {row : ItemRow} :
    row ∈ items.rowsOf ids ↔ row ∈ items.rows ∧ row.entityId ∈ ids := by
  simp [rowsOf]

theorem nodup_rowsOf (ids : List String) : ((items.rowsOf ids).map (·.entityId)).Nodup := by
  have hperm : (items.rowsOf ids).Perm (items.rows.filter (·.entityId ∈ ids)) := List.perm_insertionSort _ _
  exact (hperm.map _).nodup_iff.2 (items.nodup.sublist (List.filter_sublist.map _))

/-- A frontier names lots that were not seen before. -/
theorem of_mem_nextFrontier {seen ids : List String} :
    ∀ f ∈ items.nextFrontier seen ids, f.1 ∉ seen ∧ f.1 ∈ items.namedLots := by
  unfold nextFrontier
  dsimp only
  have hmerged : ∀ row ∈ items.rowsOf ids, row ∈ items.rows := fun row hrow => (mem_rowsOf.1 hrow).1
  generalize items.rowsOf ids = merged at hmerged
  refine List.foldlRecOn (motive := fun next : List (String × Option (String × LotLink)) =>
    ∀ f ∈ next, f.1 ∉ seen ∧ f.1 ∈ items.namedLots) merged _ ?_ ?_
  · intro f hf
    obtain ⟨row, hrow, rfl⟩ := List.mem_map.1 hf
    rw [List.mem_insertionSort, List.mem_filter, decide_eq_true_eq] at hrow
    exact ⟨hrow.2.2, List.mem_append_left _ (List.mem_map_of_mem hrow.1)⟩
  · intro next hnext row hrow
    cases hinto : row.state.mergedInto with
    | none => exact hnext
    | some into =>
      dsimp only
      split_ifs with hnew
      · intro f hf
        rcases List.mem_append.1 hf with hf | hf
        · exact hnext f hf
        · obtain rfl := List.mem_singleton.1 hf
          exact ⟨hnew.1, List.mem_append_right _ (List.mem_filterMap.2 ⟨row, hmerged row hrow, hinto⟩)⟩
      · exact hnext

/-- The named lots a lineage has not seen. -/
def unseenLots (items : Items) (seen : List String) : Finset String :=
  items.namedLots.toFinset \ seen.toFinset

theorem card_unseenLots (seen : List String) : (items.unseenLots seen).card ≤ 2 * items.rows.length :=
  (Finset.card_le_card Finset.sdiff_subset).trans ((List.toFinset_card_le _).trans length_namedLots)

theorem card_unseenLots_lt {seen ids : List String} {a : String} (ha : a ∈ ids) (hseen : a ∉ seen)
    (hnamed : a ∈ items.namedLots) : (items.unseenLots (seen ++ ids)).card < (items.unseenLots seen).card := by
  refine Finset.card_lt_card (Finset.ssubset_iff_of_subset ?_ |>.2 ⟨a, ?_, ?_⟩)
  · intro m hm
    simp only [unseenLots, Finset.mem_sdiff, List.mem_toFinset, List.mem_append, not_or] at hm ⊢
    exact ⟨hm.1, hm.2.1⟩
  · simp [unseenLots, hnamed, hseen]
  · simp [unseenLots, ha]

theorem lineageFrom_nil (n : ℕ) (seen : List String) : items.lineageFrom n seen [] = [] := by
  cases n <;> rfl

theorem lineageFrom_cons (n : ℕ) (seen : List String) (f : String × Option (String × LotLink))
    (frontier : List (String × Option (String × LotLink))) :
    items.lineageFrom (n + 1) seen (f :: frontier) =
      (items.rowsOf ((f :: frontier).map Prod.fst)).map
          (fun row => ⟨row, ((f :: frontier).lookup row.entityId).join⟩) ++
        items.lineageFrom n (seen ++ (f :: frontier).map Prod.fst)
          (items.nextFrontier (seen ++ (f :: frontier).map Prod.fst) ((f :: frontier).map Prod.fst)) := rfl

/-- With fuel for each lot not seen, a lineage goes on until a level is empty. -/
theorem lineageFrom_add {n : ℕ} : ∀ {seen : List String} {frontier : List (String × Option (String × LotLink))},
    (∀ f ∈ frontier, f.1 ∉ seen ∧ f.1 ∈ items.namedLots) → (items.unseenLots seen).card < n →
      ∀ extra, items.lineageFrom (n + extra) seen frontier = items.lineageFrom n seen frontier := by
  induction n with
  | zero => exact fun _ hfuel => absurd hfuel (Nat.not_lt_zero _)
  | succ n ih =>
    intro seen frontier hfrontier hfuel extra
    cases frontier with
    | nil => rw [lineageFrom_nil, lineageFrom_nil]
    | cons f frontier =>
      rw [Nat.succ_add, lineageFrom_cons, lineageFrom_cons]
      obtain ⟨hseen, hnamed⟩ := hfrontier f List.mem_cons_self
      have hless : (items.unseenLots (seen ++ (f :: frontier).map Prod.fst)).card < (items.unseenLots seen).card :=
        card_unseenLots_lt List.mem_cons_self hseen hnamed
      exact congrArg _ (ih of_mem_nextFrontier (by omega) extra)

/-- **A lineage ends.** More fuel reads nothing more. -/
theorem lineageFrom_of_le (roots : List String) {n : ℕ} (hn : 2 * items.rows.length + 2 ≤ n) :
    items.lineageFrom n [] (roots.map (·, none)) = items.lineage roots := by
  obtain ⟨extra, rfl⟩ := Nat.exists_eq_add_of_le hn
  unfold lineage
  cases roots with
  | nil => rw [List.map_nil, lineageFrom_nil, lineageFrom_nil]
  | cons root roots =>
    rw [Nat.add_right_comm, List.map_cons, lineageFrom_cons, lineageFrom_cons, Nat.add_right_comm]
    refine congrArg _ (lineageFrom_add of_mem_nextFrontier ?_ extra)
    exact Nat.lt_succ_of_le (card_unseenLots _)

/-! ## The lots read -/

/-- The lots read from some roots. -/
def lotsRead (items : Items) (roots : List String) : List String :=
  (items.lineage roots).map (·.row.entityId)

theorem nodup_lineageFrom : ∀ {n : ℕ} {seen : List String} {frontier : List (String × Option (String × LotLink))},
    (∀ f ∈ frontier, f.1 ∉ seen) →
      ((items.lineageFrom n seen frontier).map (·.row.entityId)).Nodup ∧
        ∀ l ∈ items.lineageFrom n seen frontier, l.row ∈ items.rows ∧ l.row.entityId ∉ seen
  | 0, _, _, _ => ⟨List.nodup_nil, fun _ hl => absurd hl List.not_mem_nil⟩
  | _ + 1, _, [], _ => ⟨List.nodup_nil, fun _ hl => absurd hl List.not_mem_nil⟩
  | n + 1, seen, f :: frontier, hfrontier => by
    rw [lineageFrom_cons]
    generalize hids : (f :: frontier).map Prod.fst = ids
    obtain ⟨hnodup, hrest⟩ := @nodup_lineageFrom n (seen ++ ids) (items.nextFrontier (seen ++ ids) ids)
      fun g hg => (of_mem_nextFrontier g hg).1
    have hnew : ∀ row ∈ items.rowsOf ids, row.entityId ∉ seen := by
      intro row hrow
      obtain ⟨g, hg, heq⟩ := List.mem_map.1 (hids ▸ (mem_rowsOf.1 hrow).2)
      exact heq ▸ hfrontier g hg
    refine ⟨?_, fun l hl => ?_⟩
    · rw [List.map_append, List.map_map, List.nodup_append']
      refine ⟨nodup_rowsOf ids, hnodup, fun id hid hlater => ?_⟩
      obtain ⟨row, hrow, rfl⟩ := List.mem_map.1 hid
      obtain ⟨l, hl, hlrow⟩ := List.mem_map.1 hlater
      refine (hrest l hl).2 (List.mem_append_right seen ?_)
      exact hlrow ▸ (mem_rowsOf.1 hrow).2
    · rcases List.mem_append.1 hl with hl | hl
      · obtain ⟨row, hrow, rfl⟩ := List.mem_map.1 hl
        exact ⟨(mem_rowsOf.1 hrow).1, hnew row hrow⟩
      · exact ⟨(hrest l hl).1, fun hmem => (hrest l hl).2 (List.mem_append_left ids hmem)⟩

theorem nodup_lotsRead (roots : List String) : (items.lotsRead roots).Nodup :=
  (nodup_lineageFrom fun _ _ => List.not_mem_nil).1

theorem isSome_get?_of_mem_lotsRead {roots : List String} {m : String} (h : m ∈ items.lotsRead roots) :
    (items.get? m).isSome := by
  obtain ⟨l, hl, rfl⟩ := List.mem_map.1 h
  rw [get?_of_mem ((nodup_lineageFrom fun _ _ => List.not_mem_nil).2 l hl).1]
  rfl

/-! ## Levels -/

/-- A lot came from another: split off it, transformed from it or returned from it; or the
    other was merged into it. -/
def CameFrom (items : Items) (a b : String) : Prop :=
  (∃ row ∈ items.rows, row.entityId = b ∧
      (row.state.splitFrom = some a ∨ row.state.transformedFrom = some a ∨ row.state.returnedFrom = some a)) ∨
    ∃ row ∈ items.rows, row.entityId = a ∧ row.state.mergedInto = some b

/-- At most `k` steps lead from a root to the lot. -/
def ComeTo (items : Items) (roots : List String) : ℕ → String → Prop
  | 0, m => m ∈ roots
  | k + 1, m => ComeTo items roots k m ∨ ∃ a, ComeTo items roots k a ∧ items.CameFrom a m

section
variable {roots seen ids : List String} {m lot : String} {row : ItemRow} {j k n : ℕ}
  {frontier : List (String × Option (String × LotLink))}

theorem ComeTo.mono (h : items.ComeTo roots j m) (hjk : j ≤ k) : items.ComeTo roots k m := by
  induction k with
  | zero => rwa [Nat.le_zero.1 hjk] at h
  | succ k ih =>
    rcases Nat.le_succ_iff.1 hjk with hjk | rfl
    · exact .inl (ih hjk)
    · exact h

/-- A lot is split off another that was come to before it and before what it was transformed
    from. -/
def SplitBy (come : String → Prop) (lot : String) (row : ItemRow) : Prop :=
  row.state.splitFrom = some lot ∧ come lot ∧ ∀ t, row.state.transformedFrom = some t → ¬come t

theorem parentIn_eq_splitFrom_iff :
    parentIn seen row.state = some (lot, .splitFrom) ↔ SplitBy (· ∈ seen) lot row := by
  have hsome : ∀ (key : Option String) (link link' : LotLink),
      (key.filter (· ∈ seen)).map (·, link) = some (lot, link') ↔ key = some lot ∧ lot ∈ seen ∧ link = link' := by
    intro key link link'
    rw [Option.map_eq_some_iff]
    constructor
    · rintro ⟨_, hkey, heq⟩
      obtain ⟨rfl, rfl⟩ := Prod.mk.inj heq
      obtain ⟨hkey, hseen⟩ := Option.filter_eq_some_iff.1 hkey
      exact ⟨hkey, by simpa using hseen, rfl⟩
    · rintro ⟨rfl, hseen, rfl⟩
      exact ⟨lot, Option.filter_eq_some_iff.2 ⟨rfl, by simpa using hseen⟩, rfl⟩
  have hnone : ((row.state.transformedFrom.filter (· ∈ seen)).map (·, LotLink.transformedFrom)) = none ↔
      ∀ t, row.state.transformedFrom = some t → t ∉ seen := by
    rw [Option.map_eq_none_iff, Option.filter_eq_none_iff]
    simp
  unfold parentIn SplitBy
  dsimp only
  rw [Option.or_eq_some_iff, Option.or_eq_some_iff, hsome, hsome, hsome, hnone]
  simp
  tauto

/-! ### The next frontier -/

/-- The rows that came from those of a frontier and were not seen before. -/
def childRows (items : Items) (seen ids : List String) : List ItemRow :=
  (items.rows.filter fun row => [row.state.splitFrom, row.state.transformedFrom, row.state.returnedFrom].any
    (fun key => key.any (· ∈ ids)) ∧ row.entityId ∉ seen).insertionSort fun a b => a.entityId ≤ b.entityId

/-- A frontier with the lot a row was merged into. -/
def addInto (seen : List String) (next : List (String × Option (String × LotLink))) (row : ItemRow) :
    List (String × Option (String × LotLink)) :=
  match row.state.mergedInto with
  | some into =>
    if into ∉ seen ∧ into ∉ next.map Prod.fst then next ++ [(into, some (row.entityId, .mergedInto))] else next
  | none => next

theorem nextFrontier_eq (seen ids : List String) : items.nextFrontier seen ids = (items.rowsOf ids).foldl (addInto seen)
    ((items.childRows seen ids).map fun row => (row.entityId, parentIn seen row.state)) := rfl

theorem mem_childRows : row ∈ items.childRows seen ids ↔ row ∈ items.rows ∧
    (∃ a ∈ ids, row.state.splitFrom = some a ∨ row.state.transformedFrom = some a ∨ row.state.returnedFrom = some a) ∧
      row.entityId ∉ seen := by
  have hkey : ∀ key : Option String, (key.any (· ∈ ids)) = true ↔ ∃ a ∈ ids, key = some a := by
    intro key
    cases key <;> simp
  rw [childRows, List.mem_insertionSort, List.mem_filter, decide_eq_true_eq, List.any_cons, List.any_cons,
    List.any_cons, List.any_nil, Bool.or_false, Bool.or_eq_true, Bool.or_eq_true, hkey, hkey, hkey]
  refine and_congr_right fun _ => and_congr_left fun _ => ?_
  constructor
  · rintro (⟨a, ha, h⟩ | ⟨a, ha, h⟩ | ⟨a, ha, h⟩)
    · exact ⟨a, ha, .inl h⟩
    · exact ⟨a, ha, .inr (.inl h)⟩
    · exact ⟨a, ha, .inr (.inr h)⟩
  · rintro ⟨a, ha, h | h | h⟩
    · exact .inl ⟨a, ha, h⟩
    · exact .inr (.inl ⟨a, ha, h⟩)
    · exact .inr (.inr ⟨a, ha, h⟩)

section
variable {next : List (String × Option (String × LotLink))} {merged : List ItemRow}

theorem mem_addInto : m ∈ (addInto seen next row).map Prod.fst ↔
    m ∈ next.map Prod.fst ∨ row.state.mergedInto = some m ∧ m ∉ seen := by
  unfold addInto
  cases row.state.mergedInto with
  | none => simp
  | some into =>
    dsimp only
    split_ifs with hnew
    · rw [List.map_append, List.mem_append, List.map_singleton, List.mem_singleton, Option.some_inj]
      exact or_congr_right ⟨fun h => ⟨h.symm, h ▸ hnew.1⟩, fun h => h.1.symm⟩
    · rw [not_and_not_right] at hnew
      refine ⟨.inl, fun h => h.elim id ?_⟩
      rintro ⟨heq, hm⟩
      obtain rfl := Option.some.inj heq
      exact hnew hm

theorem mem_foldl_addInto : m ∈ (merged.foldl (addInto seen) next).map Prod.fst ↔
    m ∈ next.map Prod.fst ∨ (∃ row ∈ merged, row.state.mergedInto = some m) ∧ m ∉ seen := by
  induction merged generalizing next with
  | nil => simp
  | cons row merged ih =>
    rw [List.foldl_cons, ih, mem_addInto, or_assoc, ← or_and_right]
    simp

theorem join_lookup_addInto :
    ((addInto seen next row).lookup m).join = some (lot, .splitFrom) ↔
      (next.lookup m).join = some (lot, .splitFrom) := by
  unfold addInto
  cases row.state.mergedInto with
  | none => exact Iff.rfl
  | some into =>
    dsimp only
    split_ifs with hnew
    · rw [List.lookup_append]
      cases hnext : next.lookup m with
      | some link => simp
      | none =>
        rw [Option.none_or, List.lookup_cons]
        cases m == into <;> simp
    · exact Iff.rfl

theorem join_lookup_foldl_addInto : ((merged.foldl (addInto seen) next).lookup m).join = some (lot, .splitFrom) ↔
    (next.lookup m).join = some (lot, .splitFrom) := by
  induction merged generalizing next with
  | nil => exact Iff.rfl
  | cons row merged ih => rw [List.foldl_cons, ih, join_lookup_addInto]

end

/-- What a frontier that is read leads to. -/
theorem mem_nextFrontier : m ∈ (items.nextFrontier seen ids).map Prod.fst ↔
    m ∉ seen ∧ ∃ a ∈ ids, items.CameFrom a m := by
  rw [nextFrontier_eq, mem_foldl_addInto, List.map_map, List.mem_map]
  constructor
  · rintro (⟨row, hrow, rfl⟩ | ⟨⟨row, hrow, hinto⟩, hm⟩)
    · obtain ⟨hmem, ⟨a, ha, hkey⟩, hm⟩ := mem_childRows.1 hrow
      exact ⟨hm, a, ha, .inl ⟨row, hmem, rfl, hkey⟩⟩
    · obtain ⟨hmem, hid⟩ := mem_rowsOf.1 hrow
      exact ⟨hm, row.entityId, hid, .inr ⟨row, hmem, rfl, hinto⟩⟩
  · rintro ⟨hm, a, ha, ⟨row, hrow, rfl, hkey⟩ | ⟨row, hrow, rfl, hinto⟩⟩
    · exact .inl ⟨row, mem_childRows.2 ⟨hrow, ⟨a, ha, hkey⟩, hm⟩, rfl⟩
    · exact .inr ⟨⟨row, mem_rowsOf.2 ⟨hrow, ha⟩, hinto⟩, hm⟩

theorem lookup_map_entityId (items : Items) {β : Type} (g : ItemRow → β) :
    ∀ {rows : List ItemRow}, (∀ row ∈ rows, row ∈ items.rows) → row ∈ rows →
      (rows.map fun row => (row.entityId, g row)).lookup row.entityId = some (g row)
  | [], _, hrow => absurd hrow List.not_mem_nil
  | r :: rows, hrows, hrow => by
    rw [List.forall_mem_cons] at hrows
    rw [List.map_cons, List.lookup_cons]
    by_cases hid : row.entityId = r.entityId
    · have hmem : row ∈ items.rows := (List.mem_cons.1 hrow).elim (fun h => h ▸ hrows.1) (hrows.2 row)
      obtain rfl : row = r := List.inj_on_of_nodup_map items.nodup hmem hrows.1 hid
      simp
    · rw [beq_false_of_ne hid]
      exact lookup_map_entityId items g hrows.2 ((List.mem_cons.1 hrow).resolve_left fun h => hid (h ▸ rfl))

/-- A frontier that is read next names the rows split off others as `parentIn` does. -/
theorem join_lookup_nextFrontier (hrow : row ∈ items.childRows seen ids) :
    ((items.nextFrontier seen ids).lookup row.entityId).join = some (lot, .splitFrom) ↔
      SplitBy (· ∈ seen) lot row := by
  rw [nextFrontier_eq, join_lookup_foldl_addInto,
    lookup_map_entityId items _ (fun r hr => (mem_childRows.1 hr).1) hrow]
  exact parentIn_eq_splitFrom_iff

theorem join_lookup_nextFrontier_of_not_mem (hrow : row ∈ items.rows) (hchild : row ∉ items.childRows seen ids) :
    ((items.nextFrontier seen ids).lookup row.entityId).join ≠ some (lot, .splitFrom) := by
  rw [nextFrontier_eq, Ne, join_lookup_foldl_addInto, List.lookup_eq_none_iff.2]
  · simp
  · intro p hp
    obtain ⟨r, hr, rfl⟩ := List.mem_map.1 hp
    rw [bne_iff_ne]
    intro hid
    exact hchild (List.inj_on_of_nodup_map items.nodup hrow (mem_childRows.1 hr).1 hid ▸ hr)

/-! ### The levels of a lineage -/

/-- A lineage at its level `k`: it has seen what is come to in fewer steps, and names what is
    come to in `k`. -/
structure Level (items : Items) (roots : List String) (k : ℕ) (seen : List String)
    (frontier : List (String × Option (String × LotLink))) : Prop where
  seen_iff : ∀ m, m ∈ seen ↔ ∃ j < k, items.ComeTo roots j m
  ids_iff : ∀ m, m ∈ frontier.map Prod.fst ↔ items.ComeTo roots k m ∧ m ∉ seen
  parent_iff : ∀ row ∈ items.rows, row.entityId ∈ frontier.map Prod.fst → ∀ lot,
    (frontier.lookup row.entityId).join = some (lot, .splitFrom) ↔ SplitBy (· ∈ seen) lot row

theorem join_lookup_roots (roots : List String) (id : String) :
    ((roots.map fun root => (root, (none : Option (String × LotLink)))).lookup id).join = none := by
  induction roots with
  | nil => rfl
  | cons root roots ih =>
    rw [List.map_cons, List.lookup_cons]
    cases id == root
    · exact ih
    · rfl

theorem level_zero (roots : List String) : items.Level roots 0 [] (roots.map (·, none)) where
  seen_iff := by simp
  ids_iff := by simp [ComeTo]
  parent_iff row _ _ lot := by simp [join_lookup_roots, SplitBy]

theorem Level.mem_seen (h : items.Level roots k seen frontier) (m : String) :
    m ∈ seen ++ frontier.map Prod.fst ↔ items.ComeTo roots k m := by
  rw [List.mem_append, h.ids_iff]
  constructor
  · rintro (hm | hm)
    · obtain ⟨j, hj, hm⟩ := (h.seen_iff m).1 hm
      exact hm.mono hj.le
    · exact hm.1
  · exact fun hm => (em (m ∈ seen)).imp_right fun hseen => ⟨hm, hseen⟩

/-- What is not come to yet can only come from what is come to last. -/
theorem Level.mem_ids (h : items.Level roots k seen frontier) {a : String} (ha : items.ComeTo roots k a)
    (hfrom : items.CameFrom a m) (hm : m ∉ seen ++ frontier.map Prod.fst) : a ∈ frontier.map Prod.fst := by
  refine (List.mem_append.1 ((h.mem_seen a).2 ha)).resolve_left fun hseen => hm ?_
  obtain ⟨j, hj, ha⟩ := (h.seen_iff a).1 hseen
  have hnext : items.ComeTo roots (j + 1) m := .inr ⟨a, ha, hfrom⟩
  exact (h.mem_seen m).2 (hnext.mono hj)

theorem cameFrom_of_splitFrom (hrow : row ∈ items.rows) (h : row.state.splitFrom = some lot) :
    items.CameFrom lot row.entityId := .inl ⟨row, hrow, rfl, .inl h⟩

theorem Level.next (h : items.Level roots k seen frontier) :
    items.Level roots (k + 1) (seen ++ frontier.map Prod.fst)
      (items.nextFrontier (seen ++ frontier.map Prod.fst) (frontier.map Prod.fst)) where
  seen_iff m := by
    rw [h.mem_seen]
    exact ⟨fun hm => ⟨k, Nat.lt_succ_self k, hm⟩, fun ⟨j, hj, hm⟩ => hm.mono (Nat.le_of_lt_succ hj)⟩
  ids_iff m := by
    rw [mem_nextFrontier, and_comm]
    refine and_congr_left fun hm => ?_
    constructor
    · rintro ⟨a, ha, hfrom⟩
      exact .inr ⟨a, ((h.ids_iff a).1 ha).1, hfrom⟩
    · rintro (hcome | ⟨a, ha, hfrom⟩)
      · exact absurd ((h.mem_seen m).2 hcome) hm
      · exact ⟨a, h.mem_ids ha hfrom hm, hfrom⟩
  parent_iff row hrow hid lot := by
    by_cases hchild : row ∈ items.childRows (seen ++ frontier.map Prod.fst) (frontier.map Prod.fst)
    · exact join_lookup_nextFrontier hchild
    · refine iff_of_false (join_lookup_nextFrontier_of_not_mem hrow hchild) ?_
      rintro ⟨hsplit, hlot, -⟩
      have hnew := (mem_nextFrontier.1 hid).1
      have hids := h.mem_ids ((h.mem_seen lot).1 hlot) (cameFrom_of_splitFrom hrow hsplit) hnew
      exact hchild (mem_childRows.2 ⟨hrow, ⟨lot, hids, .inl hsplit⟩, hnew⟩)

/-! ## What is read, and as what -/

/-- A lot a lineage has at its level `k`: it is come to in `k` steps and no fewer, and listed
    as split off another just where the record says so and that one is come to before, and
    what it was transformed from is not. -/
structure ReadAt (items : Items) (roots : List String) (k : ℕ) (l : LineageRow) : Prop where
  mem : l.row ∈ items.rows
  come : items.ComeTo roots k l.row.entityId
  least : ∀ j < k, ¬items.ComeTo roots j l.row.entityId
  parent_iff : ∀ lot, l.parent = some (lot, .splitFrom) ↔
    SplitBy (fun m => ∃ j < k, items.ComeTo roots j m) lot l.row

theorem Level.readAt (h : items.Level roots k seen frontier) (hrow : row ∈ items.rowsOf (frontier.map Prod.fst)) :
    items.ReadAt roots k ⟨row, (frontier.lookup row.entityId).join⟩ := by
  obtain ⟨hmem, hid⟩ := mem_rowsOf.1 hrow
  obtain ⟨hcome, hseen⟩ := (h.ids_iff _).1 hid
  have hcomes : (· ∈ seen) = fun m => ∃ j < k, items.ComeTo roots j m := funext fun m => propext (h.seen_iff m)
  refine ⟨hmem, hcome, fun j hj hearly => hseen ((h.seen_iff _).2 ⟨j, hj, hearly⟩), fun lot => ?_⟩
  rw [← hcomes]
  exact h.parent_iff row hmem hid lot

theorem Level.readAt_lineageFrom (h : items.Level roots k seen frontier) :
    ∀ l ∈ items.lineageFrom n seen frontier, ∃ d, items.ReadAt roots (k + d) l := by
  induction n generalizing k seen frontier with
  | zero => exact fun _ hl => absurd hl List.not_mem_nil
  | succ n ih =>
    intro l hl
    cases frontier with
    | nil => exact absurd hl List.not_mem_nil
    | cons f frontier =>
      rw [lineageFrom_cons] at hl
      rcases List.mem_append.1 hl with hl | hl
      · obtain ⟨row, hrow, rfl⟩ := List.mem_map.1 hl
        exact ⟨0, h.readAt hrow⟩
      · obtain ⟨d, hd⟩ := ih h.next l hl
        exact ⟨d + 1, by rwa [Nat.add_right_comm, Nat.add_assoc] at hd⟩

theorem nextFrontier_nil (seen : List String) : items.nextFrontier seen [] = [] := by
  refine List.eq_nil_iff_forall_not_mem.2 fun f hf => ?_
  obtain ⟨-, a, ha, -⟩ := mem_nextFrontier.1 (List.mem_map_of_mem hf)
  exact absurd ha List.not_mem_nil

/-- A lot that is come to is read, with fuel for the steps to it. -/
theorem Level.exists_mem_lineageFrom {d : ℕ} (extra : ℕ) (h : items.Level roots k seen frontier)
    (hrow : row ∈ items.rows) (hcome : items.ComeTo roots (k + d) row.entityId) (hleast : ∀ j < k + d, ¬items.ComeTo roots j row.entityId) :
    ∃ l ∈ items.lineageFrom (extra + d + 1) seen frontier, l.row = row := by
  induction d generalizing k seen frontier with
  | zero =>
    have hid : row.entityId ∈ frontier.map Prod.fst :=
      (h.ids_iff _).2 ⟨hcome, fun hseen => (h.seen_iff _).1 hseen |>.elim fun j hj => hleast j hj.1 hj.2⟩
    cases frontier with
    | nil => exact absurd hid List.not_mem_nil
    | cons f frontier =>
      refine ⟨⟨row, ((f :: frontier).lookup row.entityId).join⟩, ?_, rfl⟩
      rw [lineageFrom_cons]
      exact List.mem_append_left _ (List.mem_map_of_mem (mem_rowsOf.2 ⟨hrow, hid⟩))
  | succ d ih =>
    have hsteps : k + 1 + d = k + (d + 1) := by omega
    obtain ⟨l, hl, rfl⟩ := ih h.next (hsteps ▸ hcome) (hsteps ▸ hleast)
    cases frontier with
    | nil =>
      rw [List.map_nil, nextFrontier_nil, lineageFrom_nil] at hl
      exact absurd hl List.not_mem_nil
    | cons f frontier =>
      refine ⟨l, ?_, rfl⟩
      rw [← Nat.add_assoc, lineageFrom_cons]
      exact List.mem_append_right _ hl

theorem readAt_lineage {l : LineageRow} (hl : l ∈ items.lineage roots) : ∃ k, items.ReadAt roots k l := by
  obtain ⟨d, hd⟩ := (level_zero roots).readAt_lineageFrom l hl
  exact ⟨0 + d, hd⟩

theorem exists_mem_lineage (hrow : row ∈ items.rows) (hcome : items.ComeTo roots k row.entityId) :
    ∃ l ∈ items.lineage roots, l.row = row := by
  classical
  have hex : ∃ k, items.ComeTo roots k row.entityId := ⟨k, hcome⟩
  have hleast : ∀ j < 0 + Nat.find hex, ¬items.ComeTo roots j row.entityId :=
    fun j hj => Nat.find_min hex (by omega)
  have hspec : items.ComeTo roots (0 + Nat.find hex) row.entityId := by
    rw [Nat.zero_add]
    exact Nat.find_spec hex
  obtain ⟨l, hl, hrow⟩ :=
    (level_zero roots).exists_mem_lineageFrom (2 * items.rows.length + 2) hrow hspec hleast
  rw [lineageFrom_of_le roots (by omega)] at hl
  exact ⟨l, hl, hrow⟩

/-- The lots there are that some steps from a root lead to. -/
def IsRead (items : Items) (roots : List String) (m : String) : Prop :=
  (items.get? m).isSome ∧ ∃ k, items.ComeTo roots k m

/-- **A lineage reads the lots there are that some steps from the roots lead to.** -/
theorem mem_lotsRead_iff : m ∈ items.lotsRead roots ↔ items.IsRead roots m := by
  constructor
  · intro hm
    obtain ⟨l, hl, rfl⟩ := List.mem_map.1 hm
    obtain ⟨k, hk⟩ := readAt_lineage hl
    exact ⟨isSome_get?_of_mem_lotsRead hm, k, hk.come⟩
  · rintro ⟨hsome, k, hcome⟩
    obtain ⟨row, hget⟩ := Option.isSome_iff_exists.1 hsome
    obtain ⟨hrow, rfl⟩ := mem_of_get? hget
    obtain ⟨l, hl, rfl⟩ := exists_mem_lineage hrow hcome
    exact List.mem_map_of_mem hl

/-- The lineage comes to a lot before a part split off it, and before what the part was
    transformed from: no root is such a part, nor what is come to as soon in another way. -/
def PartOf (items : Items) (roots : List String) (lot : String) (row : ItemRow) : Prop :=
  ∃ k, SplitBy (items.ComeTo roots k) lot row ∧ ¬items.ComeTo roots k row.entityId

/-- **A lineage lists a lot as split off another just where it comes to that one before it**, and
    before what it was transformed from. -/
theorem mem_partsIn_iff : m ∈ partsIn (items.lineage roots) lot ↔
    ∃ row ∈ items.rows, row.entityId = m ∧ items.PartOf roots lot row := by
  have hpart : m ∈ partsIn (items.lineage roots) lot ↔
      ∃ l ∈ items.lineage roots, l.parent = some (lot, .splitFrom) ∧ l.row.entityId = m := by
    simp [partsIn, and_assoc]
  rw [hpart]
  constructor
  · rintro ⟨l, hl, hparent, rfl⟩
    obtain ⟨k, hk⟩ := readAt_lineage hl
    obtain ⟨hsplit, ⟨j, hj, hlot⟩, hother⟩ := (hk.parent_iff lot).1 hparent
    exact ⟨l.row, hk.mem, rfl, j, ⟨hsplit, hlot, fun t ht hcome => hother t ht ⟨j, hj, hcome⟩⟩, hk.least j hj⟩
  · rintro ⟨row, hrow, rfl, j, ⟨hsplit, hlot, hother⟩, hearly⟩
    have hcome : items.ComeTo roots (j + 1) row.entityId := .inr ⟨lot, hlot, cameFrom_of_splitFrom hrow hsplit⟩
    obtain ⟨l, hl, rfl⟩ := exists_mem_lineage hrow hcome
    obtain ⟨k, hk⟩ := readAt_lineage hl
    -- the part is come to one step after its lot
    have hjk : j < k := by
      by_contra hle
      exact hearly (hk.come.mono (not_lt.1 hle))
    have hkj : k ≤ j + 1 := by
      by_contra hlt
      exact hk.least (j + 1) (not_le.1 hlt) hcome
    refine ⟨l, hl, (hk.parent_iff lot).2 ⟨hsplit, ⟨j, hjk, hlot⟩, ?_⟩, rfl⟩
    rintro t ht ⟨i, hi, hcome⟩
    exact hother t ht (hcome.mono (by omega))

theorem nodup_partsIn (roots : List String) (lot : String) : (partsIn (items.lineage roots) lot).Nodup :=
  (nodup_lotsRead roots).sublist (List.filter_sublist.map _)

/-- The parts of a lot come in one level, by their ids. -/
theorem Level.pairwise_parts (h : items.Level roots k seen frontier) (lot : String) :
    ((items.lineageFrom n seen frontier).filter fun l => l.parent = some (lot, .splitFrom)).Pairwise
      fun a b => a.row.entityId ≤ b.row.entityId := by
  induction n generalizing k seen frontier with
  | zero => exact List.Pairwise.nil
  | succ n ih =>
    cases frontier with
    | nil => exact List.Pairwise.nil
    | cons f frontier =>
      rw [lineageFrom_cons, List.filter_append, List.pairwise_append]
      refine ⟨?_, ih h.next, ?_⟩
      · refine List.Pairwise.filter _ (List.pairwise_map.2 ?_)
        exact List.pairwise_insertionSort (fun a b : ItemRow => a.entityId ≤ b.entityId) _
      · intro a ha b hb
        obtain ⟨ha, haparent⟩ := List.mem_filter.1 ha
        obtain ⟨hb, hbparent⟩ := List.mem_filter.1 hb
        obtain ⟨row, hrow, rfl⟩ := List.mem_map.1 ha
        obtain ⟨d, hd⟩ := h.next.readAt_lineageFrom b hb
        obtain ⟨-, ⟨j, hj, hlot⟩, -⟩ := ((h.readAt hrow).parent_iff lot).1 (by simpa using haparent)
        obtain ⟨hsplit, -, -⟩ := (hd.parent_iff lot).1 (by simpa using hbparent)
        have hcome : items.ComeTo roots (j + 1) b.row.entityId := .inr ⟨lot, hlot, cameFrom_of_splitFrom hd.mem hsplit⟩
        exact absurd hcome (hd.least (j + 1) (by omega))

open Classical in
/-- The lots that are parts of another, as the links and the roots have them, by their ids. -/
noncomputable def partsOf (items : Items) (roots : List String) (lot : String) : List String :=
  ((items.rows.filter fun row => items.PartOf roots lot row).map (·.entityId)).insertionSort (· ≤ ·)

/-- **The parts a lineage lists are those the links and the roots make out.** -/
theorem partsIn_eq (roots : List String) (lot : String) :
    partsIn (items.lineage roots) lot = items.partsOf roots lot := by
  classical
  have hperm : (items.partsOf roots lot).Perm
      ((items.rows.filter fun row => items.PartOf roots lot row).map (·.entityId)) := List.perm_insertionSort _ _
  have hnodup : (items.partsOf roots lot).Nodup :=
    hperm.nodup_iff.2 (items.nodup.sublist (List.filter_sublist.map _))
  have hsorted : (partsIn (items.lineage roots) lot).Pairwise (· ≤ ·) :=
    List.pairwise_map.2 ((level_zero roots).pairwise_parts lot)
  refine List.Perm.eq_of_pairwise' hsorted (List.pairwise_insertionSort _ _)
    ((List.perm_ext_iff_of_nodup (nodup_partsIn roots lot) hnodup).2 fun m => ?_)
  rw [mem_partsIn_iff, hperm.mem_iff]
  simp [and_comm, and_left_comm]

end

end Items

end Celerp
