/-
  What following a lot's goods finds (`_held_where` in `celerp/services/auto_je.py`).

  The lots read are those of the roots' lineage.  Where goods go among them by splits and
  merges may be circles or lead to lots that were not read.

  * the members of a root are a breadth-first crawl of where goods went, as the links and the
    roots make that out (`membersFrom_eq_crawl`), whose fuel suffices (`membersFrom_of_le`);
  * a lot is followed to the parts its lineage lists as split off it.  A part the lineage came
    to another way first (it is a root itself, say) is left out, and a part that its lot was
    also merged into is listed for both (`foundOnce_iff`).
-/
import Celerp.Inventory.LineageLevels
import Celerp.Lib.Breadth

namespace Celerp

open Relation

namespace Items
variable {items : Items}

/-! ## The members of a root -/

section
variable {roots : List String} {root lot m : String}

open Classical in
/-- The lots that the goods of a lot go to, of those read: its parts by their ids, and the lot it
    was merged into. -/
noncomputable def goesTo (items : Items) (roots : List String) (lot : String) : List String :=
  (items.partsOf roots lot ++ ((items.get? lot).bind (·.state.mergedInto)).toList).filter (items.IsRead roots ·)

theorem wentTo_eq (roots : List String) : items.wentTo (items.lineage roots) = items.goesTo roots := by
  funext lot
  rw [wentTo, partsIn_eq, goesTo]
  exact List.filter_congr fun m _ => decide_eq_decide.2 mem_lotsRead_iff

theorem membersFrom_eq_crawl (roots : List String) : ∀ (n : ℕ) (done todo : List String),
    items.membersFrom (items.lineage roots) n done todo = Breadth.crawl (items.goesTo roots) n done todo
  | 0, _, _ => rfl
  | _ + 1, _, [] => rfl
  | n + 1, done, lot :: todo => by
    rw [membersFrom, Breadth.crawl, wentTo_eq]
    exact membersFrom_eq_crawl roots n (done ++ [lot]) _

theorem mem_goesTo : m ∈ items.goesTo roots lot ↔ items.IsRead roots m ∧
    (m ∈ items.partsOf roots lot ∨ (items.get? lot).bind (·.state.mergedInto) = some m) := by
  classical
  rw [goesTo, List.mem_filter, List.mem_append, Option.mem_toList, and_comm]
  exact and_congr_left fun _ => decide_eq_true_iff

theorem mem_partsOf : m ∈ items.partsOf roots lot ↔
    ∃ row ∈ items.rows, row.entityId = m ∧ items.PartOf roots lot row := by
  rw [← partsIn_eq]
  exact mem_partsIn_iff

theorem count_partsOf_le (roots : List String) (lot m : String) : (items.partsOf roots lot).count m ≤ 1 := by
  rw [← partsIn_eq]
  exact List.nodup_iff_count_le_one.1 (nodup_partsIn roots lot) m

theorem count_goesTo_le (roots : List String) (lot m : String) : (items.goesTo roots lot).count m ≤ 2 := by
  have hparts := @count_partsOf_le items roots lot m
  have hmerged : ((items.get? lot).bind (·.state.mergedInto)).toList.count m ≤ 1 := by
    refine List.count_le_length.trans ?_
    cases (items.get? lot).bind (·.state.mergedInto) <;> simp
  refine (List.filter_sublist.count_le m).trans ?_
  rw [List.count_append]
  omega

theorem isRead_of_mem_partsOf (h : m ∈ items.partsOf roots lot) : items.IsRead roots m := by
  obtain ⟨row, hrow, rfl, k, ⟨hsplit, hlot, -⟩, -⟩ := mem_partsOf.1 h
  refine ⟨by rw [get?_of_mem hrow]; rfl, k + 1, .inr ⟨lot, hlot, cameFrom_of_splitFrom hrow hsplit⟩⟩

/-- A lot is named twice where it is a part of the lot that the lot was merged into. -/
theorem count_goesTo_le_one : (items.goesTo roots lot).count m ≤ 1 ↔
    ¬(m ∈ items.partsOf roots lot ∧ (items.get? lot).bind (·.state.mergedInto) = some m) := by
  have hparts := @count_partsOf_le items roots lot m
  by_cases hread : items.IsRead roots m
  · rw [goesTo, List.count_filter (by simpa using hread), List.count_append]
    cases hinto : (items.get? lot).bind (·.state.mergedInto) with
    | none => simpa using hparts
    | some into =>
      rcases eq_or_ne into m with rfl | hne
      · rw [Option.toList_some, List.count_singleton_self]
        constructor
        · rintro hcount ⟨hpart, -⟩
          have := List.count_pos_iff.2 hpart
          omega
        · intro hnot
          have : ¬0 < (items.partsOf roots lot).count into :=
            fun hpos => hnot ⟨List.count_pos_iff.1 hpos, rfl⟩
          omega
      · simp [hne, hparts]
  · have hnone : (items.goesTo roots lot).count m = 0 :=
      List.count_eq_zero.2 fun hm => hread (mem_goesTo.1 hm).1
    rw [hnone]
    exact iff_of_true (Nat.zero_le 1) fun h => hread (isRead_of_mem_partsOf h.1)

/-- Goods are followed from a lot to another: to a part that the lineage comes to after the lot,
    or to the lot it was merged into. -/
def Followed (items : Items) (roots : List String) : String → String → Prop :=
  Breadth.Leads (items.goesTo roots)

theorem isRead_of_followed (hroot : items.IsRead roots root) (h : items.Followed roots root m) :
    items.IsRead roots m := by
  cases h with
  | refl => exact hroot
  | tail _ hstep => exact (mem_goesTo.1 hstep).1

/-- What a lot read leads to is read. -/
theorem goesTo_subset (roots : List String) (lot : String) : items.goesTo roots lot ⊆ items.lotsRead roots :=
  fun _ hm => mem_lotsRead_iff.2 (mem_goesTo.1 hm).1

/-- The fuel of a crawl through the lots read. -/
theorem two_mul_length_lotsRead (roots : List String) :
    2 * (items.lotsRead roots).length ≤ 2 * (items.lineage roots).length + 2 := by
  rw [lotsRead, List.length_map]
  omega

/-- With fuel for each lot read and both ways it can be named, the members are all found. -/
theorem membersFrom_of_le (hroot : root ∈ items.lotsRead roots) {n : ℕ}
    (hn : 2 * (items.lineage roots).length + 2 ≤ n) :
    items.membersFrom (items.lineage roots) n [] [root] =
      items.membersFrom (items.lineage roots) (2 * (items.lineage roots).length + 2) [] [root] := by
  obtain ⟨extra, rfl⟩ := Nat.exists_eq_add_of_le hn
  rw [membersFrom_eq_crawl, membersFrom_eq_crawl]
  exact Breadth.crawl_add hroot (fun lot _ => goesTo_subset roots lot) one_le_two (count_goesTo_le roots)
    (two_mul_length_lotsRead roots) extra

theorem map_entityId_filterMap : ∀ {ms : List String}, (∀ m ∈ ms, (items.get? m).isSome) →
    (ms.filterMap items.get?).map (·.entityId) = ms
  | [], _ => rfl
  | m :: ms, h => by
    obtain ⟨row, hrow⟩ := Option.isSome_iff_exists.1 (h m List.mem_cons_self)
    rw [List.filterMap_cons_some hrow, List.map_cons, (mem_of_get? hrow).2,
      map_entityId_filterMap fun m hm => h m (List.mem_cons_of_mem _ hm)]

/-- The lots that hold a root's goods are the members found from it. -/
theorem map_heldWhere (hroot : root ∈ items.lotsRead roots) :
    (items.heldWhere roots root).map (·.entityId) =
      Breadth.crawl (items.goesTo roots) (2 * (items.lineage roots).length + 2) [] [root] := by
  have hheld : items.heldWhere roots root = (Breadth.crawl (items.goesTo roots)
      (2 * (items.lineage roots).length + 2) [] [root]).filterMap items.get? := by
    rw [← membersFrom_eq_crawl]
    exact if_pos hroot
  rw [hheld, map_entityId_filterMap]
  intro m hm
  have hfollowed : items.Followed roots root m := (Breadth.mem_crawl hroot (fun lot _ => goesTo_subset roots lot)
    one_le_two (count_goesTo_le roots) (two_mul_length_lotsRead roots)).1 hm
  exact (isRead_of_followed (mem_lotsRead_iff.1 hroot) hfollowed).1

end

/-! ## Each holder once -/

section
variable {roots : List String} {root : String}

/-- Goods go from a lot read to another: to a part split off it, or to the lot it was merged
    into. -/
def GoesAmong (items : Items) (roots : List String) (a b : String) : Prop :=
  items.IsRead roots a ∧ items.IsRead roots b ∧ items.Goes a b

/-- What is found from a root: the root first, no lot twice, and the lots its goods go to among
    those read, all of them. -/
structure FoundOnce (items : Items) (roots : List String) (root : String) : Prop where
  rootFirst : ((items.heldWhere roots root).map (·.entityId)).head? = some root
  nodup : ((items.heldWhere roots root).map (·.entityId)).Nodup
  reached : ∀ m, m ∈ (items.heldWhere roots root).map (·.entityId) ↔ ReflTransGen (items.GoesAmong roots) root m

/-- No part of a lot is also the lot that this one was merged into, where it is the first that
    goods are followed from to the part. -/
def NamedOnce (items : Items) (roots : List String) (root : String) : Prop :=
  ∀ lot m, Breadth.FirstTo (items.goesTo roots) root lot m →
    ¬(m ∈ items.partsOf roots lot ∧ (items.get? lot).bind (·.state.mergedInto) = some m)

/-- A lot split off one that goods are followed to, which the lineage comes to otherwise (it is a
    root, or come to as soon as the one it was split off, or with what it was transformed from),
    is followed another way. -/
def StraysFollowed (items : Items) (roots : List String) (root : String) : Prop :=
  ∀ row ∈ items.rows, ∀ lot, row.state.splitFrom = some lot → ¬items.PartOf roots lot row →
    items.Followed roots root lot → items.Followed roots root row.entityId

theorem goesAmong_of_mem_goesTo {a b : String} (ha : items.IsRead roots a) (h : b ∈ items.goesTo roots a) :
    items.GoesAmong roots a b := by
  have hwent : b ∈ items.wentTo (items.lineage roots) a := by rwa [wentTo_eq]
  exact ⟨ha, (mem_goesTo.1 h).1, goes_of_mem_wentTo hwent⟩

theorem reflTransGen_of_followed {m : String} (hroot : items.IsRead roots root)
    (h : items.Followed roots root m) : ReflTransGen (items.GoesAmong roots) root m := by
  induction h with
  | refl => exact .refl
  | tail hbefore hstep ih => exact ih.tail (goesAmong_of_mem_goesTo (isRead_of_followed hroot hbefore) hstep)

/-- What was split off a lot read is read. -/
theorem isRead_of_splitFrom {row : ItemRow} {lot : String} (hrow : row ∈ items.rows)
    (hsplit : row.state.splitFrom = some lot) (hlot : items.IsRead roots lot) : items.IsRead roots row.entityId := by
  obtain ⟨-, k, hcome⟩ := hlot
  exact ⟨by rw [get?_of_mem hrow]; rfl, k + 1, .inr ⟨lot, hcome, cameFrom_of_splitFrom hrow hsplit⟩⟩

/-- Every lot that goods go to is followed just where those that the lineage comes to otherwise
    are. -/
theorem followed_iff_straysFollowed (hroot : items.IsRead roots root) :
    (∀ m, items.Followed roots root m ↔ ReflTransGen (items.GoesAmong roots) root m) ↔
      items.StraysFollowed roots root := by
  constructor
  · intro h row hrow lot hsplit _ hlot
    have hread := isRead_of_followed hroot hlot
    have hgoes : items.GoesAmong roots lot row.entityId :=
      ⟨hread, isRead_of_splitFrom hrow hsplit hread, .inl ⟨row, hrow, rfl, hsplit⟩⟩
    exact (h _).2 (((h lot).1 hlot).tail hgoes)
  · intro h m
    refine ⟨reflTransGen_of_followed hroot, fun hm => ?_⟩
    induction hm with
    | refl => exact .refl
    | @tail a b _ hgoes ih =>
      obtain ⟨-, hb, ⟨row, hrow, rfl, hsplit⟩ | ⟨row, hrow, rfl, hmerged⟩⟩ := hgoes
      · by_cases hpart : items.PartOf roots a row
        · exact ih.tail (mem_goesTo.2 ⟨hb, .inl (mem_partsOf.2 ⟨row, hrow, rfl, hpart⟩)⟩)
        · exact h row hrow a hsplit hpart ih
      · refine ih.tail (mem_goesTo.2 ⟨hb, .inr ?_⟩)
        rw [get?_of_mem hrow]
        exact hmerged

/-- **What a root's goods are found in.**  The lineage and the search from the root end, and
    each lot the goods go to among those read is found once, the root first, just where no part
    is first come to from a lot that was also merged into it, and each part that the lineage
    comes to otherwise is followed another way. -/
theorem foundOnce_iff (hroot : root ∈ items.lotsRead roots) :
    (∀ n, 2 * items.rows.length + 2 ≤ n → items.lineageFrom n [] (roots.map (·, none)) = items.lineage roots) ∧
      (∀ n, 2 * (items.lineage roots).length + 2 ≤ n →
        (items.membersFrom (items.lineage roots) n [] [root]).filterMap items.get? = items.heldWhere roots root) ∧
      (items.FoundOnce roots root ↔ items.NamedOnce roots root ∧ items.StraysFollowed roots root) := by
  have hsub : ∀ a ∈ items.lotsRead roots, items.goesTo roots a ⊆ items.lotsRead roots :=
    fun a _ => goesTo_subset roots a
  have hcount := @count_goesTo_le items roots
  have hfuel := @two_mul_length_lotsRead items roots
  refine ⟨fun n hn => lineageFrom_of_le roots hn, fun n hn => ?_, ?_⟩
  · rw [membersFrom_of_le hroot hn]
    exact (if_pos hroot).symm
  have hnodup : ((items.heldWhere roots root).map (·.entityId)).Nodup ↔ items.NamedOnce roots root := by
    rw [map_heldWhere hroot, Breadth.nodup_crawl hroot hsub one_le_two hcount hfuel]
    exact forall₂_congr fun _ _ => imp_congr_right fun _ => count_goesTo_le_one
  have hreached : (∀ m, m ∈ (items.heldWhere roots root).map (·.entityId) ↔
      ReflTransGen (items.GoesAmong roots) root m) ↔ items.StraysFollowed roots root := by
    rw [map_heldWhere hroot, ← followed_iff_straysFollowed (mem_lotsRead_iff.1 hroot)]
    exact forall_congr' fun m => iff_congr (Breadth.mem_crawl hroot hsub one_le_two hcount hfuel) Iff.rfl
  rw [← hnodup, ← hreached]
  refine ⟨fun h => ⟨h.nodup, h.reached⟩, fun h => ⟨?_, h.1, h.2⟩⟩
  rw [map_heldWhere hroot, Breadth.head?_crawl hroot hsub one_le_two hcount hfuel]

/-- A lot of one gold ring, split off a lot or merged into one. -/
def ringLot (entityId : String) (splitFrom mergedInto : Option String) : ItemRow where
  entityId := entityId
  createdAt := "2026-01-05"
  consignedIn := false
  state := {
    quantity := 1, costBase := some 40, costTotal := some 40, costPrice := none, landedCosts := [],
    goodsCostUnknown := false, sku := "RING-7", splitFrom := splitFrom, mergedInto := mergedInto }

/-- A lot of rings and the part split off it. -/
def splitRings : Items where
  rows := [ringLot "item:a" none none, ringLot "item:b" (some "item:a") none]
  nodup := by decide

/-- Of a lot that is the only root, the part split off it is followed. -/
theorem foundOnce_splitRings : splitRings.FoundOnce ["item:a"] "item:a" := by
  have hread : "item:a" ∈ splitRings.lotsRead ["item:a"] := by decide
  have hwent : "item:b" ∈ splitRings.wentTo (splitRings.lineage ["item:a"]) "item:a" := by decide
  have hpart : splitRings.Followed ["item:a"] "item:a" "item:b" := .tail .refl (wentTo_eq _ ▸ hwent)
  refine (foundOnce_iff hread).2.2.2 ⟨?_, ?_⟩
  · rintro lot m - ⟨-, hmerged⟩
    obtain ⟨row, hget, hinto⟩ := Option.bind_eq_some_iff.1 hmerged
    have hnone : ∀ row ∈ splitRings.rows, row.state.mergedInto = none := by decide
    rw [hnone row (mem_of_get? hget).1] at hinto
    exact absurd hinto (by simp)
  · intro row hrow lot hsplit _ _
    rcases List.mem_cons.1 hrow with rfl | hrow
    · exact absurd hsplit (by simp [ringLot])
    · obtain rfl := List.mem_singleton.1 hrow
      exact hpart

/-- Of two lots asked for, one split off the other, the part is a root, so the goods of the lot
    it came from are not found in it. -/
theorem not_foundOnce_splitRings : ¬∀ (items : Items) (roots : List String) (root : String),
    root ∈ items.lotsRead roots → items.FoundOnce roots root := by
  intro h
  have hfound := h splitRings ["item:a", "item:b"] "item:a" (by decide)
  have hgoes : splitRings.GoesAmong ["item:a", "item:b"] "item:a" "item:b" :=
    ⟨mem_lotsRead_iff.1 (by decide), mem_lotsRead_iff.1 (by decide),
      .inl ⟨ringLot "item:b" (some "item:a") none, by decide, rfl, rfl⟩⟩
  have hmissing : "item:b" ∉ (splitRings.heldWhere ["item:a", "item:b"] "item:a").map (·.entityId) := by decide
  exact hmissing ((hfound.reached "item:b").2 (.single hgoes))

/-- A part that its lot was merged into is listed twice. -/
example : let items : Items :=
      ⟨[ringLot "item:a" none (some "item:b"), ringLot "item:b" (some "item:a") none], by decide⟩
    (items.heldWhere ["item:a"] "item:a").map (·.entityId) = ["item:a", "item:b", "item:b"] := by decide

end

end Items

end Celerp
