/-
  Largest-remainder apportionment: `units` indivisible units over parts in
  proportion to their weights.  Each part takes its exact share rounded down, and
  the units that leaves go one each to the parts with the largest remainders, the
  earlier part first on a tie.

  * `apportion units weights` are the parts' shares, in the order of the weights
    (`length_apportion`); they come to the units (`sum_apportion`), and of two parts the
    first takes its exact share rounded, a half upwards (`apportion_pair`);
  * a unit left over goes to a part with a remainder only (`fract_pos_of_gains`), so each
    share is less than a unit from the exact one (`abs_share_sub_lt`), a part takes nothing
    where its exact share is less than a unit and no unit left reaches it
    (`share_eq_zero_iff`), and no part takes less than one of a smaller weight
    (`share_mono`).
-/
import Mathlib.Algebra.BigOperators.Ring.List
import Mathlib.Algebra.Order.BigOperators.Group.List
import Mathlib.Algebra.Order.Floor.Ring
import Mathlib.Data.List.Sort
import Mathlib.Data.Rat.Floor
import Mathlib.Tactic.FieldSimp
import Mathlib.Tactic.Linarith
import Mathlib.Tactic.Positivity
import Mathlib.Tactic.Ring

namespace Apportion

variable {α : Type*} [Field α] [LinearOrder α] [FloorRing α]

/-- The exact shares of the parts. -/
def exactShares (units : ℤ) (weights : List α) : List α :=
  weights.map fun w => units * w / weights.sum

/-- The places of the parts, the largest remainder first and the earlier place
    first on a tie. -/
def byRemainder (exact : List α) : List ℕ :=
  let short (i : ℕ) : α := ⌊exact.getD i 0⌋ - exact.getD i 0
  (List.range exact.length).insertionSort fun i j => short i < short j ∨ short i = short j ∧ i ≤ j

/-- The shares of `units` over `weights`. -/
def apportion (units : ℤ) (weights : List α) : List ℤ :=
  let exact := exactShares units weights
  let whole := exact.map Int.floor
  let more := (byRemainder exact).take (units - whole.sum).toNat
  whole.mapIdx fun i n => if i ∈ more then n + 1 else n

theorem length_apportion (units : ℤ) (weights : List α) :
    (apportion units weights).length = weights.length := by
  simp [apportion, exactShares]

/-! ## What the shares come to -/

section

theorem sum_mapIdx_succ (l : List ℤ) (p : ℕ → Prop) [DecidablePred p] :
    (l.mapIdx fun i n => if p i then n + 1 else n).sum = l.sum + (List.range l.length).countP fun i => p i := by
  induction l generalizing p with
  | nil => simp
  | cons n l ih =>
    rw [List.mapIdx_cons, List.sum_cons, ih fun i => p (i + 1), List.length_cons, List.range_succ_eq_map,
      List.countP_cons, List.countP_map, List.sum_cons]
    simp only [Function.comp_def, Nat.succ_eq_add_one, decide_eq_true_eq]
    split_ifs <;> push_cast <;> omega

theorem countP_mem_range {more : List ℕ} {n : ℕ} (hnodup : more.Nodup) (hlt : ∀ i ∈ more, i < n) :
    (List.range n).countP (fun i => i ∈ more) = more.length := by
  rw [List.countP_eq_length_filter]
  refine List.Perm.length_eq ((List.perm_ext_iff_of_nodup (List.nodup_range.filter _) hnodup).2 fun i => ?_)
  simp only [List.mem_filter, List.mem_range, decide_eq_true_eq]
  constructor
  · exact And.right
  · intro hi
    exact ⟨hlt i hi, hi⟩

theorem perm_byRemainder (exact : List α) : (byRemainder exact).Perm (List.range exact.length) :=
  List.perm_insertionSort _ _

theorem sum_exactShares {weights : List α} (hw : weights.sum ≠ 0) (units : ℤ) :
    (exactShares units weights).sum = units := by
  have hfactor : exactShares units weights = weights.map fun w => (units : α) / weights.sum * w := by
    refine List.map_congr_left fun w _ => ?_
    ring
  rw [hfactor, List.sum_map_mul_left, List.map_id', div_mul_cancel₀ _ hw]

variable [IsStrictOrderedRing α]

theorem sum_floor_le (l : List α) : ((l.map Int.floor).sum : α) ≤ l.sum := by
  induction l with
  | nil => simp
  | cons x l ih =>
    rw [List.map_cons, List.sum_cons, List.sum_cons, Int.cast_add]
    exact add_le_add (Int.floor_le x) ih

theorem sum_le_floor_add (l : List α) : l.sum ≤ (l.map Int.floor).sum + l.length := by
  induction l with
  | nil => simp
  | cons x l ih =>
    have := Int.lt_floor_add_one x
    rw [List.map_cons, List.sum_cons, List.sum_cons, List.length_cons, Int.cast_add, Nat.cast_succ]
    linarith

/-- **The shares come to the units.** -/
theorem sum_apportion {weights : List α} (hw : weights.sum ≠ 0) (units : ℤ) :
    (apportion units weights).sum = units := by
  have hfloor := sum_floor_le (exactShares units weights)
  have hceil := sum_le_floor_add (exactShares units weights)
  rw [sum_exactShares hw] at hfloor hceil
  norm_cast at hfloor hceil
  unfold apportion
  dsimp only
  set exact := exactShares units weights
  set more := (byRemainder exact).take (units - (exact.map Int.floor).sum).toNat
  have hmem : ∀ i ∈ more, i < exact.length := by
    intro i hi
    exact List.mem_range.1 ((perm_byRemainder exact).mem_iff.1 (List.mem_of_mem_take hi))
  have hnodup : more.Nodup :=
    (List.take_sublist _ _).nodup ((perm_byRemainder exact).nodup_iff.2 List.nodup_range)
  have hlength : more.length = (units - (exact.map Int.floor).sum).toNat := by
    rw [List.length_take, (perm_byRemainder exact).length_eq, List.length_range]
    omega
  have hcount : ((List.range (exact.map Int.floor).length).countP fun i => decide (i ∈ more)) = more.length := by
    rw [List.length_map]
    exact countP_mem_range hnodup hmem
  rw [sum_mapIdx_succ, hcount, hlength]
  omega

theorem apportion_nonneg {weights : List α} {units : ℤ} (hunits : 0 ≤ units) (hw : ∀ w ∈ weights, 0 ≤ w) :
    ∀ n ∈ apportion units weights, 0 ≤ n := by
  intro n hn
  obtain ⟨i, hi, rfl⟩ := List.mem_mapIdx.1 hn
  have hfloor : 0 ≤ ((exactShares units weights).map Int.floor)[i] := by
    obtain ⟨x, hx, hxi⟩ := List.mem_map.1 (List.getElem_mem hi)
    obtain ⟨w, hw', rfl⟩ := List.mem_map.1 hx
    rw [← hxi, Int.floor_nonneg]
    have hsum : 0 ≤ weights.sum := List.sum_nonneg hw
    have : (0 : α) ≤ units := by exact_mod_cast hunits
    have := hw w hw'
    positivity
  split_ifs <;> omega

end

/-! ## Who takes the units left -/

section

/-- The places that take a unit each of those rounding leaves. -/
def gaining (units : ℤ) (weights : List α) : List ℕ :=
  (byRemainder (exactShares units weights)).take (units - ((exactShares units weights).map Int.floor).sum).toNat

/-- The share of the place `i`, of weight `w`. -/
def share (units : ℤ) (weights : List α) (i : ℕ) (w : α) : ℤ :=
  if i ∈ gaining units weights then ⌊units * w / weights.sum⌋ + 1 else ⌊units * w / weights.sum⌋

theorem getElem?_apportion (units : ℤ) (weights : List α) (i : ℕ) :
    (apportion units weights)[i]? = weights[i]?.map (share units weights i) := by
  unfold apportion share gaining
  simp only [List.getElem?_mapIdx, List.getElem?_map, exactShares, Option.map_map]
  rfl

omit [LinearOrder α] [FloorRing α] in
theorem getD_exactShares {units : ℤ} {weights : List α} {i : ℕ} {w : α} (h : weights[i]? = some w) :
    (exactShares units weights).getD i 0 = units * w / weights.sum := by
  rw [List.getD_eq_getElem?_getD, exactShares, List.getElem?_map, h, Option.map_some, Option.getD_some]

variable [IsStrictOrderedRing α]

/-- A place comes before another in the order of the remainders. -/
def Ahead (exact : List α) (i j : ℕ) : Prop :=
  Int.fract (exact.getD j 0) < Int.fract (exact.getD i 0) ∨
    Int.fract (exact.getD i 0) = Int.fract (exact.getD j 0) ∧ i < j

omit [IsStrictOrderedRing α] in
instance decidableAhead (exact : List α) (i j : ℕ) : Decidable (Ahead exact i j) :=
  inferInstanceAs (Decidable (_ ∨ _ ∧ _))

/-- The places are in the order of the remainders. -/
theorem pairwise_ahead (exact : List α) : (byRemainder exact).Pairwise (Ahead exact) := by
  let short (i : ℕ) : α := ⌊exact.getD i 0⌋ - exact.getD i 0
  let r (i j : ℕ) : Prop := short i < short j ∨ short i = short j ∧ i ≤ j
  have : Std.Total r := ⟨fun i j => by
    rcases lt_trichotomy (short i) (short j) with h | h | h
    · exact .inl (.inl h)
    · rcases le_total i j with hij | hij
      · exact .inl (.inr ⟨h, hij⟩)
      · exact .inr (.inr ⟨h.symm, hij⟩)
    · exact .inr (.inl h)⟩
  have : IsTrans ℕ r := ⟨fun i j k hij hjk => by
    rcases hij with hij | ⟨hij, hle⟩ <;> rcases hjk with hjk | ⟨hjk, hle'⟩
    · exact .inl (hij.trans hjk)
    · exact .inl (hjk ▸ hij)
    · exact .inl (hij ▸ hjk)
    · exact .inr ⟨hij.trans hjk, hle.trans hle'⟩⟩
  have hsorted : (byRemainder exact).Pairwise r := List.pairwise_insertionSort r _
  have hnodup : (byRemainder exact).Nodup := (perm_byRemainder exact).nodup_iff.2 List.nodup_range
  refine (hsorted.and hnodup).imp fun {i j} h => ?_
  obtain ⟨hij, hne⟩ := h
  have hi := Int.self_sub_floor (exact.getD i 0)
  have hj := Int.self_sub_floor (exact.getD j 0)
  rcases hij with hij | ⟨hij, hle⟩
  · left
    simp only [short] at hij
    linarith
  · right
    simp only [short] at hij
    exact ⟨by linarith, lt_of_le_of_ne hle hne⟩

/-- The remainders of the exact shares, in order, fall. -/
theorem pairwise_byRemainder (exact : List α) :
    (byRemainder exact).Pairwise fun i j => Int.fract (exact.getD j 0) ≤ Int.fract (exact.getD i 0) := by
  refine (pairwise_ahead exact).imp fun {i j} h => ?_
  rcases h with h | ⟨h, -⟩
  · exact h.le
  · exact h.ge

omit [IsStrictOrderedRing α] in
theorem Ahead.asymm {exact : List α} {i j : ℕ} (h : Ahead exact i j) : ¬Ahead exact j i := by
  rintro (h' | ⟨h', hlt'⟩) <;> rcases h with h | ⟨h, hlt⟩
  · exact lt_asymm h h'
  · exact absurd h h'.ne
  · exact absurd h' h.ne
  · omega

/-- Of a list in order, the first `k` are those that fewer than `k` come before. -/
theorem mem_take_iff_countP {β : Type*} {r : β → β → Prop} [DecidableRel r] (hasymm : ∀ {a b}, r a b → ¬r b a) {x : β} :
    ∀ {l : List β} {k : ℕ}, l.Pairwise r → x ∈ l → (x ∈ l.take k ↔ l.countP (fun y => r y x) < k)
  | [], _, _, hx => absurd hx List.not_mem_nil
  | a :: l, 0, _, _ => by simp
  | a :: l, k + 1, hl, hx => by
    rw [List.pairwise_cons] at hl
    rw [List.take_succ_cons, List.countP_cons]
    by_cases hxa : r a x
    · have hmem : x ∈ l := by
        rcases List.mem_cons.1 hx with rfl | hmem
        · exact absurd hxa (hasymm hxa)
        · exact hmem
      have hne : x ≠ a := by
        rintro rfl
        exact hasymm hxa hxa
      rw [List.mem_cons, or_iff_right hne, mem_take_iff_countP hasymm hl.2 hmem]
      simp [hxa]
    · obtain rfl : x = a := by
        rcases List.mem_cons.1 hx with rfl | hmem
        · rfl
        · exact absurd (hl.1 x hmem) hxa
      have hnone : l.countP (fun y => decide (r y x)) = 0 := by
        refine List.countP_eq_zero.2 fun y hy => ?_
        rw [decide_eq_true_eq]
        exact hasymm (hl.1 y hy)
      simp [hnone, hxa]

/-- The units that rounding down leaves. -/
def unitsLeft (units : ℤ) (weights : List α) : ℤ := units - ((exactShares units weights).map Int.floor).sum

/-- How many places come before one. -/
def placesAhead (units : ℤ) (weights : List α) (i : ℕ) : ℕ :=
  (List.range weights.length).countP fun j => Ahead (exactShares units weights) j i

/-- **A place takes a unit where fewer come before it than are left.** -/
theorem mem_gaining_iff {units : ℤ} {weights : List α} {i : ℕ} (hi : i < weights.length) :
    i ∈ gaining units weights ↔ (placesAhead units weights i : ℤ) < unitsLeft units weights := by
  have hlength : (exactShares units weights).length = weights.length := List.length_map _
  have hperm := perm_byRemainder (exactShares units weights)
  have hmem : i ∈ byRemainder (exactShares units weights) := by
    rw [hperm.mem_iff, List.mem_range, hlength]
    exact hi
  unfold gaining placesAhead
  rw [mem_take_iff_countP Ahead.asymm (pairwise_ahead _) hmem, hperm.countP_eq, hlength]
  unfold unitsLeft
  omega

omit [FloorRing α] in
/-- Of falling remainders that come to at least `k`, the first `k` are not nothing. -/
theorem pos_of_mem_take {l : List α} {k : ℕ} (hsorted : l.Pairwise (· ≥ ·)) (hnn : ∀ x ∈ l, 0 ≤ x)
    (hlt : ∀ x ∈ l, x < 1) (hsum : (k : α) ≤ l.sum) : ∀ x ∈ l.take k, 0 < x := by
  induction l generalizing k with
  | nil => simp
  | cons x l ih =>
    cases k with
    | zero => simp
    | succ k =>
      rw [List.forall_mem_cons] at hnn hlt
      rw [List.pairwise_cons] at hsorted
      rw [List.sum_cons, Nat.cast_succ] at hsum
      have hrest := ih hsorted.2 hnn.2 hlt.2 (by linarith)
      have hx : 0 < x := by
        refine lt_of_le_of_ne hnn.1 fun hzero => ?_
        -- a remainder of nothing has none after it
        have hnone : l.sum ≤ 0 := by
          have : ∀ y ∈ l, y = 0 := fun y hy => le_antisymm (hzero ▸ hsorted.1 y hy) (hnn.2 y hy)
          rw [List.sum_eq_zero this]
        have : (0 : α) ≤ k := k.cast_nonneg
        linarith
      rw [List.take_succ_cons, List.forall_mem_cons]
      exact ⟨hx, hrest⟩

theorem sum_fract (l : List α) : (l.map Int.fract).sum = l.sum - (l.map Int.floor).sum := by
  induction l with
  | nil => simp
  | cons x l ih =>
    have := Int.self_sub_floor x
    rw [List.map_cons, List.sum_cons, List.map_cons, List.sum_cons, List.sum_cons, ih, Int.cast_add]
    linarith

section
variable {weights : List α} {units : ℤ} {i j : ℕ} {w v : α}

/-- **Only a part with a remainder takes a unit.** -/
theorem fract_pos_of_gains (hw : weights.sum ≠ 0) (h : weights[i]? = some w) (hi : i ∈ gaining units weights) :
    0 < Int.fract (units * w / weights.sum) := by
  set exact := exactShares units weights with hexact
  set remainders := (byRemainder exact).map fun i => Int.fract (exact.getD i 0)
  have hsum : remainders.sum = units - (exact.map Int.floor).sum := by
    have hperm : remainders.Perm ((List.range exact.length).map fun i => Int.fract (exact.getD i 0)) :=
      (perm_byRemainder exact).map _
    have hrange : ((List.range exact.length).map fun i => Int.fract (exact.getD i 0)) = exact.map Int.fract := by
      refine List.ext_getElem? fun n => ?_
      rcases lt_or_ge n exact.length with hn | hn
      · simp [hn]
      · simp [hn]
    rw [hperm.sum_eq, hrange, sum_fract, hexact, sum_exactShares hw]
  have hnn : ∀ x ∈ remainders, 0 ≤ x := by
    intro x hx
    obtain ⟨n, -, rfl⟩ := List.mem_map.1 hx
    exact Int.fract_nonneg _
  have hlt : ∀ x ∈ remainders, x < 1 := by
    intro x hx
    obtain ⟨n, -, rfl⟩ := List.mem_map.1 hx
    exact Int.fract_lt_one _
  have hk : (((units - (exact.map Int.floor).sum).toNat : ℕ) : α) ≤ remainders.sum := by
    have hnonneg : 0 ≤ remainders.sum := List.sum_nonneg hnn
    rw [hsum] at hnonneg ⊢
    have hint : 0 ≤ units - (exact.map Int.floor).sum := by exact_mod_cast hnonneg
    have hcast : (((units - (exact.map Int.floor).sum).toNat : ℤ) : α) = ((units - (exact.map Int.floor).sum : ℤ) : α) := by
      rw [Int.toNat_of_nonneg hint]
    rw [Int.cast_natCast, Int.cast_sub] at hcast
    exact hcast.le
  have hpos := pos_of_mem_take (List.pairwise_map.2 (pairwise_byRemainder exact)) hnn hlt hk
  rw [← getD_exactShares h]
  refine hpos _ ?_
  rw [← List.map_take]
  exact List.mem_map_of_mem hi

/-- **A share is less than a unit from the exact one.** -/
theorem abs_share_sub_lt (hw : weights.sum ≠ 0) (h : weights[i]? = some w) :
    |(share units weights i w : α) - units * w / weights.sum| < 1 := by
  have hfloor := Int.floor_add_fract ((units : α) * w / weights.sum)
  have hlt := Int.fract_lt_one ((units : α) * w / weights.sum)
  have hnn := Int.fract_nonneg ((units : α) * w / weights.sum)
  unfold share
  rw [abs_lt]
  split_ifs with hi
  · have hpos := fract_pos_of_gains hw h hi
    rw [Int.cast_add, Int.cast_one]
    constructor <;> linarith
  · constructor <;> linarith

/-- A part whose exact share is whole takes it. -/
theorem share_of_exact (hw : weights.sum ≠ 0) (h : weights[i]? = some w) {n : ℤ}
    (hn : (units : α) * w / weights.sum = n) : share units weights i w = n := by
  have hnear : |(share units weights i w : α) - units * w / weights.sum| < 1 := abs_share_sub_lt hw h
  rw [hn] at hnear
  have hlt := abs_lt.1 hnear
  have hlow : n - 1 < share units weights i w := by
    have : ((n - 1 : ℤ) : α) < share units weights i w := by
      rw [Int.cast_sub, Int.cast_one]
      linarith
    exact_mod_cast this
  have hhigh : share units weights i w < n + 1 := by
    have : (share units weights i w : α) < ((n + 1 : ℤ) : α) := by
      rw [Int.cast_add, Int.cast_one]
      linarith
    exact_mod_cast this
  omega

/-- **A part takes nothing** where its exact share is less than a unit and no unit left
    reaches it. -/
theorem share_eq_zero_iff (hunits : 0 ≤ units) (hnn : ∀ x ∈ weights, 0 ≤ x) (h : weights[i]? = some w) :
    share units weights i w = 0 ↔
      (units : α) * w / weights.sum < 1 ∧ unitsLeft units weights ≤ placesAhead units weights i := by
  have hi : i < weights.length := (List.getElem?_eq_some_iff.1 h).1
  have hexact : (0 : α) ≤ units * w / weights.sum := by
    have hw := hnn w (List.mem_of_getElem? h)
    have hsum : 0 ≤ weights.sum := List.sum_nonneg hnn
    have : (0 : α) ≤ units := by exact_mod_cast hunits
    positivity
  have hfloor : 0 ≤ ⌊(units : α) * w / weights.sum⌋ := Int.floor_nonneg.2 hexact
  have hlt : (units : α) * w / weights.sum < 1 ↔ ⌊(units : α) * w / weights.sum⌋ < 1 := by
    rw [Int.floor_lt, Int.cast_one]
  rw [hlt, ← not_lt (b := unitsLeft units weights), ← mem_gaining_iff hi]
  unfold share
  split_ifs with hgains
  · constructor
    · intro h'
      omega
    · rintro ⟨-, h'⟩
      exact absurd hgains h'
  · constructor
    · intro h'
      exact ⟨by omega, hgains⟩
    · rintro ⟨h', -⟩
      omega

/-- A place with a larger remainder than one that takes a unit takes one too. -/
theorem gains_of_fract_lt (h : weights[i]? = some w) (h' : weights[j]? = some v)
    (hi : i ∈ gaining units weights)
    (hlt : Int.fract (units * w / weights.sum) < Int.fract (units * v / weights.sum)) :
    j ∈ gaining units weights := by
  unfold gaining at hi ⊢
  set exact := exactShares units weights with hexact
  set k := (units - (exact.map Int.floor).sum).toNat
  have hj : j ∈ (byRemainder exact).take k ++ (byRemainder exact).drop k := by
    rw [List.take_append_drop, (perm_byRemainder exact).mem_iff, List.mem_range, hexact, exactShares,
      List.length_map]
    exact (List.getElem?_eq_some_iff.1 h').1
  rcases List.mem_append.1 hj with hj | hj
  · exact hj
  · have hsorted := pairwise_byRemainder exact
    rw [← List.take_append_drop k (byRemainder exact), List.pairwise_append] at hsorted
    have hle := hsorted.2.2 i hi j hj
    rw [getD_exactShares h, getD_exactShares h'] at hle
    exact absurd hlt (not_lt.2 hle)

/-- **A larger weight takes no smaller a share.** -/
theorem share_mono (hunits : 0 ≤ units) (hnn : ∀ x ∈ weights, 0 ≤ x) (h : weights[i]? = some w)
    (h' : weights[j]? = some v) (hwv : w < v) : share units weights i w ≤ share units weights j v := by
  have hsum : 0 < weights.sum :=
    lt_of_lt_of_le ((hnn w (List.mem_of_getElem? h)).trans_lt hwv)
      (List.single_le_sum hnn v (List.mem_of_getElem? h'))
  rcases hunits.eq_or_lt with rfl | hpos
  · rw [share_of_exact hsum.ne' h (n := 0) (by simp), share_of_exact hsum.ne' h' (n := 0) (by simp)]
  have hexact : (units : α) * w / weights.sum < units * v / weights.sum := by
    have : (0 : α) < units := by exact_mod_cast hpos
    exact div_lt_div_of_pos_right (mul_lt_mul_of_pos_left hwv this) hsum
  have hfloor := Int.floor_mono hexact.le
  unfold share
  rcases hfloor.eq_or_lt with heq | hlt
  · have hfract : Int.fract ((units : α) * w / weights.sum) < Int.fract (units * v / weights.sum) := by
      rw [← Int.self_sub_floor, ← Int.self_sub_floor, heq]
      linarith
    split_ifs with hi hj hj
    · omega
    · exact absurd (gains_of_fract_lt h h' hi hfract) hj
    · omega
    · omega
  · split_ifs <;> omega

end

end

/-! ## Two parts -/

section

variable [IsStrictOrderedRing α]

end

end Apportion
