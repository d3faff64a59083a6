/-
  Pro-rata allocation (`allocate_pro_rata` in `celerp/services/money.py`).

  * `allocateProRata_fair`: the shares are whole, sum to the rounded amount, stay less
    than a minor unit from the exact shares of it, and follow the weights;
  * `share_of_whole`: a part whose exact share is whole takes exactly that.
-/
import Celerp.Money

namespace Celerp

open Apportion Rounding

/-! ## The shares of a rounded total -/

section
variable {weights : List ℚ} {amount total : ℚ} {c : String} {p q : ℚ × ℚ} {n : ℤ}

theorem floor_units (n : ℤ) (c : String) : ⌊(n : ℚ) * quant c / quant c⌋ = n := by
  rw [mul_div_cancel_right₀ _ (quant_pos c).ne', Int.floor_intCast]

/-- A part of a whole total, with its place. -/
theorem exists_share (hp : p ∈ weights.zip (allocateUnits (n * quant c) weights c)) :
    ∃ i, weights[i]? = some p.1 ∧ p.2 = share n weights i p.1 * quant c := by
  obtain ⟨i, hi⟩ := List.mem_iff_getElem?.1 hp
  obtain ⟨hweight, hshare⟩ := List.getElem?_zip_eq_some.1 hi
  rw [allocateUnits, floor_units, List.getElem?_map, getElem?_apportion, hweight] at hshare
  exact ⟨i, hweight, (Option.some.inj hshare).symm⟩

theorem abs_allocateUnits_sub_lt (hw : weights.sum ≠ 0) (htotal : IsWhole c total)
    (hp : p ∈ weights.zip (allocateUnits total weights c)) : |p.2 - total * p.1 / weights.sum| < quant c := by
  obtain ⟨n, rfl⟩ := htotal
  obtain ⟨i, hweight, hshare⟩ := exists_share hp
  have hnear : |(share n weights i p.1 : ℚ) - n * p.1 / weights.sum| < 1 := abs_share_sub_lt hw hweight
  have hfactor : p.2 - n * quant c * p.1 / weights.sum =
      (share n weights i p.1 - n * p.1 / weights.sum) * quant c := by
    rw [hshare]
    ring
  rw [hfactor, abs_mul, abs_of_pos (quant_pos c)]
  exact mul_lt_of_lt_one_left (quant_pos c) hnear

/-- A part whose exact share is whole takes exactly that. -/
theorem share_of_whole (hw : weights.sum ≠ 0) (htotal : IsWhole c total)
    (hp : p ∈ weights.zip (allocateUnits total weights c)) {v : ℚ} (hv : IsWhole c v)
    (hexact : total * p.1 / weights.sum = v) : p.2 = v := by
  obtain ⟨n, rfl⟩ := htotal
  obtain ⟨i, hweight, hshare⟩ := exists_share hp
  obtain ⟨m, rfl⟩ := hv
  have hunits : (n : ℚ) * p.1 / weights.sum = m := by
    refine mul_right_cancel₀ (quant_pos c).ne' ?_
    rw [← hexact]
    ring
  rw [hshare, share_of_exact hw hweight hunits]

theorem allocateUnits_mono (htotal : IsWhole c total) (hnn : 0 ≤ total) (hw : ∀ w ∈ weights, 0 ≤ w)
    (hp : p ∈ weights.zip (allocateUnits total weights c)) (hq : q ∈ weights.zip (allocateUnits total weights c))
    (hlt : p.1 < q.1) : p.2 ≤ q.2 := by
  obtain ⟨n, rfl⟩ := htotal
  obtain ⟨i, hweight, hshare⟩ := exists_share hp
  obtain ⟨j, hweight', hshare'⟩ := exists_share hq
  have hunits : 0 ≤ n := by
    have : (0 : ℚ) ≤ n := nonneg_of_mul_nonneg_left hnn (quant_pos c)
    exact_mod_cast this
  have hle := share_mono hunits hw hweight hweight' hlt
  rw [hshare, hshare']
  exact mul_le_mul_of_nonneg_right (by exact_mod_cast hle) (quant_pos c).le

theorem length_allocateUnits (total : ℚ) (weights : List ℚ) (c : String) :
    (allocateUnits total weights c).length = weights.length := by
  rw [allocateUnits, List.length_map, length_apportion]

/-- Nothing shares out as nothing. -/
theorem allocateUnits_zero (hw : weights.sum ≠ 0) : ∀ v ∈ allocateUnits 0 weights c, v = 0 := by
  intro v hv
  obtain ⟨i, hi, rfl⟩ := List.getElem_of_mem hv
  have hlt : i < weights.length := length_allocateUnits 0 weights c ▸ hi
  have hmem : (weights[i], (allocateUnits 0 weights c)[i]) ∈ weights.zip (allocateUnits 0 weights c) := by
    rw [← List.getElem_zip]
    exact List.getElem_mem _
    simpa using ⟨hlt, hi⟩
  exact share_of_whole hw (isWhole_zero c) hmem (isWhole_zero c) (by simp)

end

/-! ## Pro rata -/

/-- The shares of an amount over weights, in proportion and in whole minor units. -/
structure ProRata (amount : ℚ) (weights : List ℚ) (currency : String) (shares : List ℚ) : Prop where
  length_eq : shares.length = weights.length
  whole : ∀ v ∈ shares, IsWhole currency v
  sum_eq : shares.sum = roundMoney amount currency
  near : ∀ p ∈ weights.zip shares, |p.2 - roundMoney amount currency * p.1 / weights.sum| < quant currency
  nonneg : 0 ≤ amount → ∀ v ∈ shares, 0 ≤ v
  nonpos : amount ≤ 0 → ∀ v ∈ shares, v ≤ 0
  zero : ∀ p ∈ weights.zip shares, p.1 = 0 → p.2 = 0
  larger : 0 ≤ amount → ∀ p ∈ weights.zip shares, ∀ q ∈ weights.zip shares, p.1 < q.1 → p.2 ≤ q.2

section
variable {weights : List ℚ} {amount : ℚ} {c : String}

/-- Allocating the negated amount gives the negated shares. -/
theorem allocateProRata_neg (hw : weights.sum ≠ 0) (amount : ℚ) (c : String) :
    allocateProRata (-amount) weights c = (allocateProRata amount weights c).map (-·) := by
  unfold allocateProRata
  dsimp only
  rw [roundMoney_neg]
  rcases lt_trichotomy (roundMoney amount c) 0 with hneg | hzero | hpos
  · rw [if_neg (by linarith), if_pos hneg, List.map_map]
    simp
  · rw [hzero, neg_zero, if_neg (lt_irrefl 0)]
    refine (List.map_congr_left (f := id) fun v hv => ?_).symm.trans ?_ |>.symm
    · rw [allocateUnits_zero hw v hv, neg_zero, id]
    · exact List.map_id _
  · rw [if_pos (by linarith), if_neg (not_lt.2 hpos.le), neg_neg]

theorem allocateProRata_of_nonneg (h : 0 ≤ roundMoney amount c) :
    allocateProRata amount weights c = allocateUnits (roundMoney amount c) weights c := if_neg (not_lt.2 h)

theorem proRata_of_nonneg (hw : ∀ w ∈ weights, 0 ≤ w) (hsum : weights.sum ≠ 0) (hround : 0 ≤ roundMoney amount c) :
    ProRata amount weights c (allocateProRata amount weights c) where
  length_eq := length_allocateProRata amount weights c
  whole _ := isWhole_of_mem_allocateProRata
  sum_eq := sum_allocateProRata hsum amount c
  near p hp := by
    rw [allocateProRata_of_nonneg hround] at hp
    exact abs_allocateUnits_sub_lt hsum (isWhole_roundMoney amount c) hp
  nonneg _ := by
    rw [allocateProRata_of_nonneg hround]
    exact allocateUnits_nonneg hround hw
  nonpos h := by
    have hzero : roundMoney amount c = 0 := le_antisymm (by simpa using roundMoney_mono c h) hround
    rw [allocateProRata_of_nonneg hround, hzero]
    exact fun v hv => (allocateUnits_zero hsum v hv).le
  zero p hp hzero := by
    rw [allocateProRata_of_nonneg hround] at hp
    exact share_of_whole hsum (isWhole_roundMoney amount c) hp (isWhole_zero c) (by simp [hzero])
  larger _ p hp q hq hlt := by
    rw [allocateProRata_of_nonneg hround] at hp hq
    exact allocateUnits_mono (isWhole_roundMoney amount c) hround hw hp hq hlt

theorem mem_zip_neg {shares : List ℚ} {p : ℚ × ℚ} (hp : p ∈ weights.zip (shares.map (-·))) :
    (p.1, -p.2) ∈ weights.zip shares := by
  rw [List.zip_map_right, List.mem_map] at hp
  obtain ⟨q, hq, rfl⟩ := hp
  simpa using hq

theorem ProRata.neg {shares : List ℚ} (h : ProRata (-amount) weights c shares) (hamount : amount < 0) :
    ProRata amount weights c (shares.map (-·)) where
  length_eq := by rw [List.length_map, h.length_eq]
  whole v hv := by
    obtain ⟨w, hw, rfl⟩ := List.mem_map.1 hv
    exact (h.whole w hw).neg
  sum_eq := by
    rw [sum_map_neg, h.sum_eq, roundMoney_neg, neg_neg]
  near p hp := by
    have hnear := h.near _ (mem_zip_neg hp)
    rw [← abs_neg, roundMoney_neg] at hnear
    convert hnear using 2
    ring
  nonneg hnn := absurd hamount (not_lt.2 hnn)
  nonpos _ v hv := by
    obtain ⟨w, hw, rfl⟩ := List.mem_map.1 hv
    exact neg_nonpos.2 (h.nonneg (by linarith) w hw)
  zero p hp hzero := neg_eq_zero.1 (h.zero _ (mem_zip_neg hp) hzero)
  larger hnn := absurd hamount (not_lt.2 hnn)

/-- A share of no more than the weights come to stays within its part's weight. -/
theorem ProRata.le_weight {shares : List ℚ} (h : ProRata amount weights c shares) (hamount : IsWhole c amount)
    (hle : amount ≤ weights.sum) (hpos : 0 < weights.sum) (hw : ∀ w ∈ weights, 0 ≤ w ∧ IsWhole c w) :
    ∀ p ∈ weights.zip shares, p.2 ≤ p.1 := by
  intro p hp
  obtain ⟨hweight, hshare⟩ := List.of_mem_zip hp
  have hnear := (abs_lt.1 (h.near p hp)).2
  rw [roundMoney_of_isWhole hamount] at hnear
  have hexact : amount * p.1 / weights.sum ≤ p.1 := by
    rw [div_le_iff₀ hpos, mul_comm p.1]
    exact mul_le_mul_of_nonneg_right hle (hw _ hweight).1
  -- both are whole, so less than a minor unit over is not over
  have hsub := (h.whole _ hshare).sub (hw _ hweight).2
  by_contra hgt
  exact absurd (hsub.quant_le (by linarith)) (by linarith)

theorem eq_of_zip_eq {α : Type*} {l m : List α} (hlength : l.length = m.length) (h : ∀ p ∈ l.zip m, p.2 = p.1) :
    m = l := by
  refine List.ext_getElem hlength.symm fun i hm hl => ?_
  have hmem : (l[i], m[i]) ∈ l.zip m := by
    rw [← List.getElem_zip]
    exact List.getElem_mem _
    simpa using ⟨hl, hm⟩
  exact h _ hmem

/-- What the weights come to shares out as the weights. -/
theorem allocateProRata_sum_weights (hpos : 0 < weights.sum) (hw : ∀ w ∈ weights, IsWhole c w) :
    allocateProRata weights.sum weights c = weights := by
  have hsum : IsWhole c weights.sum := IsWhole.sum hw
  have hround : roundMoney weights.sum c = weights.sum := roundMoney_of_isWhole hsum
  rw [allocateProRata_of_nonneg (by rw [hround]; exact hpos.le), hround]
  refine eq_of_zip_eq (length_allocateUnits _ _ _).symm fun p hp => ?_
  exact share_of_whole hpos.ne' hsum hp (hw _ (List.of_mem_zip hp).1) (by field_simp)

end

/-- **Pro-rata allocation is exact and fair**: over weights that are not negative and not
    all 0, the shares come to the rounded amount, each less than a minor unit from its
    exact share of it, and a negated amount shares out as the amount does. -/
theorem allocateProRata_fair (amount : ℚ) (weights : List ℚ) (c : String) (hw : ∀ w ∈ weights, 0 ≤ w)
    (hsome : ∃ w ∈ weights, w ≠ 0) :
    ProRata amount weights c (allocateProRata amount weights c) ∧
      allocateProRata (-amount) weights c = (allocateProRata amount weights c).map (-·) := by
  have hsum : weights.sum ≠ 0 := by
    obtain ⟨w, hmem, hne⟩ := hsome
    have hle := List.single_le_sum hw w hmem
    exact (lt_of_lt_of_le (lt_of_le_of_ne (hw w hmem) (Ne.symm hne)) hle).ne'
  refine ⟨?_, allocateProRata_neg hsum amount c⟩
  rcases lt_or_ge amount 0 with hneg | hnn
  · have hopposite := proRata_of_nonneg hw hsum (roundMoney_nonneg c (neg_nonneg.2 hneg.le))
    have hshares := allocateProRata_neg hsum (-amount) c
    rw [neg_neg] at hshares
    rw [hshares]
    exact hopposite.neg hneg
  · exact proRata_of_nonneg hw hsum (roundMoney_nonneg c hnn)

/-- One over three equal parts: 0.34 / 0.33 / 0.33. -/
theorem oneOverThree_fair :
    ProRata 1 [1, 1, 1] "USD" (allocateProRata 1 [1, 1, 1] "USD") ∧
      allocateProRata (-1) [1, 1, 1] "USD" = (allocateProRata 1 [1, 1, 1] "USD").map (-·) :=
  allocateProRata_fair 1 [1, 1, 1] "USD" (by decide +kernel) ⟨1, List.mem_cons_self, one_ne_zero⟩

example : allocateProRata 1 [1, 1, 1] "USD" = [34 / 100, 33 / 100, 33 / 100] := by decide +kernel

/-- An amount finer than the currency is rounded before it is shared: of 10.005, a part
    whose share of that is below 9.9984 takes the whole 10.01. -/
theorem fineAmount_share_far :
    ¬ ∀ (amount : ℚ) (weights : List ℚ) (c : String), (∀ w ∈ weights, 0 ≤ w) → (∃ w ∈ weights, w ≠ 0) →
      ∀ p ∈ weights.zip (allocateProRata amount weights c), |p.2 - amount * p.1 / weights.sum| ≤ quant c := by
  intro h
  have hfar := h (10005 / 1000) [3002, 1, 1] "USD" (by decide +kernel) ⟨1, by decide +kernel, one_ne_zero⟩
    (3002, 1001 / 100) (by decide +kernel)
  revert hfar
  decide +kernel

end Celerp
