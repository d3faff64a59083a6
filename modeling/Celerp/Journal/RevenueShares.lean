/-
  What a credit note takes off each revenue account (`_revenue_shares` in
  `celerp/services/auto_je.py`): the revenue it credits spread over the accounts the sale
  moved revenue on.

  * `revenueShares_return`: the shares come to the rounded revenue, a full credit gives
    each account back its own net, and no account moves the wrong way.
-/
import Celerp.Money.Allocation

namespace Celerp

/-! ## The shares -/

/-- The accounts a sale was credited to. -/
def creditedAccounts (soldOn : List (String × ℚ)) : List (String × ℚ) := soldOn.filter fun p => 0 < p.2

/-- The accounts a sale was debited to, with what they were debited. -/
def debitedAccounts (soldOn : List (String × ℚ)) : List (String × ℚ) :=
  (soldOn.filter fun p => p.2 < 0).map fun p => (p.1, -p.2)

/-- What a sale's accounts come to. -/
def netOf (accounts : List (String × ℚ)) : ℚ := (accounts.map Prod.snd).sum

/-- Amounts over accounts in proportion to theirs. -/
def spreadOver (amount : ℚ) (accounts : List (String × ℚ)) (currency : String) : List (String × ℚ) :=
  (accounts.map Prod.fst).zip (allocateProRata amount (accounts.map Prod.snd) currency)

/-- `_revenue_shares`: a revenue over the accounts a sale moved revenue on, each in the
    proportion of its net; a sale that nets to nothing or less is spread over its credited
    accounts alone. -/
def revenueShares (revenue : ℚ) (soldOn : List (String × ℚ)) (currency : String) : List (String × ℚ) :=
  let credited := creditedAccounts soldOn
  let debited := debitedAccounts soldOn
  let net := netOf soldOn
  if debited = [] ∨ net ≤ 0 then spreadOver revenue credited currency
  else
    let gross := roundMoney (revenue * netOf credited / net) currency
    let back := gross - roundMoney revenue currency
    spreadOver gross credited currency ++ (spreadOver back debited currency).map fun p => (p.1, -p.2)

/-- The accounts that take a share, with their nets. -/
def sharingAccounts (soldOn : List (String × ℚ)) : List (String × ℚ) :=
  creditedAccounts soldOn ++ if 0 < netOf soldOn then soldOn.filter fun p => p.2 < 0 else []

/-- Shares of a credited revenue over the accounts of a sale. -/
structure RevenueShared (revenue : ℚ) (soldOn : List (String × ℚ)) (currency : String) (shares : List (String × ℚ)) :
    Prop where
  codes : shares.map Prod.fst = (sharingAccounts soldOn).map Prod.fst
  sum_eq : netOf shares = roundMoney revenue currency
  full : 0 < netOf soldOn → revenue = netOf soldOn → shares = sharingAccounts soldOn
  signs : 0 ≤ revenue → ∀ p ∈ (sharingAccounts soldOn).zip shares,
    (0 < p.1.2 → 0 ≤ p.2.2) ∧ (p.1.2 < 0 → p.2.2 ≤ 0)

/-! ## The two sides of a sale -/

section
variable {soldOn accounts : List (String × ℚ)} {c : String} {amount : ℚ}

theorem netOf_append (l m : List (String × ℚ)) : netOf (l ++ m) = netOf l + netOf m := by
  rw [netOf, List.map_append, List.sum_append, netOf, netOf]

theorem netOf_neg (l : List (String × ℚ)) : netOf (l.map fun p => (p.1, -p.2)) = -netOf l := by
  have hmap : (l.map fun p => (p.1, -p.2)).map Prod.snd = (l.map Prod.snd).map (-·) := by
    rw [List.map_map, List.map_map]
    rfl
  rw [netOf, hmap, sum_map_neg, netOf]

/-- A sale nets to what it credited less what it debited. -/
theorem netOf_sides (soldOn : List (String × ℚ)) :
    netOf soldOn = netOf (creditedAccounts soldOn) - netOf (debitedAccounts soldOn) := by
  rw [debitedAccounts, netOf_neg, sub_neg_eq_add]
  induction soldOn with
  | nil => simp [netOf, creditedAccounts]
  | cons p soldOn ih =>
    have hcons : ∀ l, netOf (p :: l) = p.2 + netOf l := fun l => List.sum_cons
    rw [creditedAccounts] at ih ⊢
    rcases lt_trichotomy p.2 0 with hneg | hzero | hpos
    · rw [List.filter_cons_of_neg (by simpa using hneg.le), List.filter_cons_of_pos (by simpa using hneg),
        hcons, hcons, ih]
      ring
    · rw [List.filter_cons_of_neg (by simp [hzero]), List.filter_cons_of_neg (by simp [hzero]), hcons, hzero,
        zero_add, ih]
    · rw [List.filter_cons_of_pos (by simpa using hpos), List.filter_cons_of_neg (by simpa using hpos.le),
        hcons, hcons, ih]
      ring

theorem creditedAccounts_pos : ∀ p ∈ creditedAccounts soldOn, 0 < p.2 := by
  intro p hp
  simpa using (List.mem_filter.1 hp).2

theorem debitedAccounts_pos : ∀ p ∈ debitedAccounts soldOn, 0 < p.2 := by
  intro p hp
  obtain ⟨q, hq, rfl⟩ := List.mem_map.1 hp
  simpa using (List.mem_filter.1 hq).2

theorem isWhole_creditedAccounts (hwhole : ∀ p ∈ soldOn, IsWhole c p.2) :
    ∀ p ∈ creditedAccounts soldOn, IsWhole c p.2 := fun p hp => hwhole p (List.mem_filter.1 hp).1

theorem isWhole_debitedAccounts (hwhole : ∀ p ∈ soldOn, IsWhole c p.2) :
    ∀ p ∈ debitedAccounts soldOn, IsWhole c p.2 := by
  intro p hp
  obtain ⟨q, hq, rfl⟩ := List.mem_map.1 hp
  exact (hwhole q (List.mem_filter.1 hq).1).neg

/-- The debited accounts with their nets again. -/
theorem neg_debitedAccounts (soldOn : List (String × ℚ)) :
    ((debitedAccounts soldOn).map fun p => (p.1, -p.2)) = soldOn.filter fun p => p.2 < 0 := by
  rw [debitedAccounts, List.map_map]
  refine (List.map_congr_left fun p _ => ?_).trans (List.map_id _)
  simp

theorem netOf_pos (hne : accounts ≠ []) (hpos : ∀ p ∈ accounts, 0 < p.2) : 0 < netOf accounts := by
  cases accounts with
  | nil => exact absurd rfl hne
  | cons p accounts =>
    have hrest : 0 ≤ netOf accounts := by
      refine List.sum_nonneg fun v hv => ?_
      obtain ⟨q, hq, rfl⟩ := List.mem_map.1 hv
      exact (hpos q (List.mem_cons_of_mem _ hq)).le
    have hhead := hpos p List.mem_cons_self
    rw [netOf, List.map_cons, List.sum_cons]
    exact add_pos_of_pos_of_nonneg hhead hrest

/-! ## One side spread -/

theorem length_spreadOver : (allocateProRata amount (accounts.map Prod.snd) c).length = accounts.length := by
  rw [length_allocateProRata, List.length_map]

theorem map_fst_spreadOver (amount : ℚ) (accounts : List (String × ℚ)) (c : String) :
    (spreadOver amount accounts c).map Prod.fst = accounts.map Prod.fst := by
  rw [spreadOver, List.map_fst_zip]
  rw [length_spreadOver, List.length_map]

theorem map_snd_spreadOver (amount : ℚ) (accounts : List (String × ℚ)) (c : String) :
    (spreadOver amount accounts c).map Prod.snd = allocateProRata amount (accounts.map Prod.snd) c := by
  rw [spreadOver, List.map_snd_zip]
  rw [length_spreadOver, List.length_map]

theorem netOf_spreadOver (hpos : 0 < netOf accounts) (amount : ℚ) (c : String) :
    netOf (spreadOver amount accounts c) = roundMoney amount c := by
  rw [netOf, map_snd_spreadOver, sum_allocateProRata hpos.ne']

/-- What the accounts come to spreads as it lies on them. -/
theorem spreadOver_netOf (hpos : 0 < netOf accounts) (hwhole : ∀ p ∈ accounts, IsWhole c p.2) :
    spreadOver (netOf accounts) accounts c = accounts := by
  have hweights : ∀ w ∈ accounts.map Prod.snd, IsWhole c w := by
    intro w hw
    obtain ⟨p, hp, rfl⟩ := List.mem_map.1 hw
    exact hwhole p hp
  rw [spreadOver, netOf, allocateProRata_sum_weights hpos hweights]
  exact (List.zip_of_prod rfl rfl).symm

theorem spreadOver_nonneg (hamount : 0 ≤ amount) (hpos : ∀ p ∈ accounts, 0 < p.2) :
    ∀ p ∈ spreadOver amount accounts c, 0 ≤ p.2 := by
  intro p hp
  have hround := roundMoney_nonneg c hamount
  have hmem := (List.of_mem_zip hp).2
  rw [allocateProRata_of_nonneg hround] at hmem
  refine allocateUnits_nonneg hround (fun w hw => ?_) _ hmem
  obtain ⟨q, hq, rfl⟩ := List.mem_map.1 hw
  exact (hpos q hq).le

end

/-! ## A credit note -/

section
variable {soldOn : List (String × ℚ)} {c : String} {revenue : ℚ}

/-- A sale without debits, or that nets to nothing or less, spreads over its credited
    accounts alone. -/
theorem revenueShared_credited (hcredited : creditedAccounts soldOn ≠ []) (hwhole : ∀ p ∈ soldOn, IsWhole c p.2)
    (hone : debitedAccounts soldOn = [] ∨ netOf soldOn ≤ 0) :
    RevenueShared revenue soldOn c (spreadOver revenue (creditedAccounts soldOn) c) := by
  have hpos := netOf_pos hcredited creditedAccounts_pos
  have haccounts : sharingAccounts soldOn = creditedAccounts soldOn := by
    unfold sharingAccounts
    rcases hone with hnone | hnet
    · rw [List.map_eq_nil_iff.1 hnone, ite_self, List.append_nil]
    · rw [if_neg (not_lt.2 hnet), List.append_nil]
  refine ⟨?_, netOf_spreadOver hpos revenue c, ?_, ?_⟩
  · rw [map_fst_spreadOver, haccounts]
  · intro hnet hfull
    obtain hnone : debitedAccounts soldOn = [] := hone.resolve_right (not_le.2 hnet)
    have hsides := netOf_sides soldOn
    rw [hnone, show netOf [] = 0 from rfl, sub_zero] at hsides
    rw [hfull, hsides, haccounts]
    exact spreadOver_netOf hpos (isWhole_creditedAccounts hwhole)
  · intro hrevenue p hp
    rw [haccounts] at hp
    obtain ⟨haccount, hshare⟩ := List.of_mem_zip hp
    refine ⟨fun _ => spreadOver_nonneg hrevenue creditedAccounts_pos _ hshare, fun hneg => ?_⟩
    exact absurd (creditedAccounts_pos _ haccount) (not_lt.2 hneg.le)

/-- A sale with both sides spreads the grossed-up revenue over its credited accounts, and
    what that is too much back over its debited ones. -/
theorem revenueShared_both (hdebited : debitedAccounts soldOn ≠ []) (hnet : 0 < netOf soldOn)
    (hwhole : ∀ p ∈ soldOn, IsWhole c p.2) {gross back : ℚ}
    (hgross : gross = roundMoney (revenue * netOf (creditedAccounts soldOn) / netOf soldOn) c)
    (hback : back = gross - roundMoney revenue c) :
    RevenueShared revenue soldOn c (spreadOver gross (creditedAccounts soldOn) c ++
      (spreadOver back (debitedAccounts soldOn) c).map fun p => (p.1, -p.2)) := by
  have hsides := netOf_sides soldOn
  have hdebit := netOf_pos hdebited debitedAccounts_pos
  have hcredit : 0 < netOf (creditedAccounts soldOn) := by linarith
  have haccounts : sharingAccounts soldOn =
      creditedAccounts soldOn ++ (debitedAccounts soldOn).map fun p => (p.1, -p.2) := by
    rw [sharingAccounts, if_pos hnet, neg_debitedAccounts]
  have hwhole_gross : IsWhole c gross := hgross ▸ isWhole_roundMoney _ c
  have hwhole_back : IsWhole c back := hback ▸ hwhole_gross.sub (isWhole_roundMoney revenue c)
  refine ⟨?_, ?_, ?_, ?_⟩
  · rw [haccounts, List.map_append, List.map_append, map_fst_spreadOver, List.map_map, List.map_map]
    exact congrArg _ (map_fst_spreadOver back (debitedAccounts soldOn) c)
  · rw [netOf_append, netOf_neg, netOf_spreadOver hcredit, netOf_spreadOver hdebit,
      roundMoney_of_isWhole hwhole_gross, roundMoney_of_isWhole hwhole_back, hback]
    ring
  · intro _ hfull
    -- the grossed-up revenue is what was credited, and what comes back what was debited
    have hgross' : gross = netOf (creditedAccounts soldOn) := by
      have hcredits : IsWhole c (netOf (creditedAccounts soldOn)) := by
        refine IsWhole.sum fun v hv => ?_
        obtain ⟨p, hp, rfl⟩ := List.mem_map.1 hv
        exact isWhole_creditedAccounts hwhole p hp
      rw [hgross, hfull, mul_div_cancel_left₀ _ hnet.ne', roundMoney_of_isWhole hcredits]
    have hnets : IsWhole c (netOf soldOn) := by
      refine IsWhole.sum fun v hv => ?_
      obtain ⟨p, hp, rfl⟩ := List.mem_map.1 hv
      exact hwhole p hp
    have hback' : back = netOf (debitedAccounts soldOn) := by
      rw [hback, hgross', hfull, roundMoney_of_isWhole hnets, hsides]
      ring
    rw [haccounts, hgross', hback', spreadOver_netOf hcredit (isWhole_creditedAccounts hwhole),
      spreadOver_netOf hdebit (isWhole_debitedAccounts hwhole)]
  · intro hrevenue p hp
    have hle : revenue ≤ revenue * netOf (creditedAccounts soldOn) / netOf soldOn := by
      rw [le_div_iff₀ hnet]
      exact mul_le_mul_of_nonneg_left (by linarith) hrevenue
    have hback_nn : 0 ≤ back := by
      rw [hback, hgross]
      exact sub_nonneg.2 (roundMoney_mono c hle)
    have hgross_nn : 0 ≤ gross := by linarith [roundMoney_nonneg c hrevenue]
    have hlength : (creditedAccounts soldOn).length = (spreadOver gross (creditedAccounts soldOn) c).length := by
      simpa using (congrArg List.length (map_fst_spreadOver gross (creditedAccounts soldOn) c)).symm
    rw [haccounts, List.zip_append hlength, List.mem_append] at hp
    rcases hp with hp | hp
    · obtain ⟨haccount, hshare⟩ := List.of_mem_zip hp
      refine ⟨fun _ => spreadOver_nonneg hgross_nn creditedAccounts_pos _ hshare, fun hneg => ?_⟩
      exact absurd (creditedAccounts_pos _ haccount) (not_lt.2 hneg.le)
    · obtain ⟨haccount, hshare⟩ := List.of_mem_zip hp
      obtain ⟨q, hq, hq'⟩ := List.mem_map.1 hshare
      obtain ⟨a, ha, ha'⟩ := List.mem_map.1 haccount
      have hshare_nn := spreadOver_nonneg hback_nn debitedAccounts_pos q hq
      have haccount_pos := debitedAccounts_pos a ha
      rw [← hq', ← ha']
      refine ⟨fun hpos => absurd hpos (not_lt.2 ?_), fun _ => neg_nonpos.2 hshare_nn⟩
      exact (neg_neg_of_pos haccount_pos).le

end

/-- **A full credit returns every revenue account to where it was**: the shares of any
    revenue over the accounts of a sale come to it rounded; a revenue of the sale's net
    shares out as the accounts' own nets; and of a revenue that is not negative no credited
    account takes less than nothing and no debited one more. -/
theorem revenueShares_return (soldOn : List (String × ℚ)) (revenue : ℚ) (c : String)
    (hcredited : ∃ p ∈ soldOn, 0 < p.2) (hwhole : ∀ p ∈ soldOn, IsWhole c p.2) :
    RevenueShared revenue soldOn c (revenueShares revenue soldOn c) := by
  have hne : creditedAccounts soldOn ≠ [] := by
    obtain ⟨p, hp, hpos⟩ := hcredited
    exact List.ne_nil_of_mem (List.mem_filter.2 ⟨hp, by simpa using hpos⟩)
  unfold revenueShares
  dsimp only
  split_ifs with hone
  · exact revenueShared_credited hne hwhole hone
  · rw [not_or, not_le] at hone
    exact revenueShared_both hone.1 hone.2 hwhole rfl rfl

/-- A sale of 70 and 40 with a discount of 10, half of it credited. -/
theorem discountedSale_returns :
    RevenueShared 50 [("4000", 70), ("4100", 40), ("4900", -10)] "USD"
      (revenueShares 50 [("4000", 70), ("4100", 40), ("4900", -10)] "USD") :=
  revenueShares_return _ 50 "USD" ⟨("4000", 70), List.mem_cons_self, by norm_num⟩ (by
    intro p hp
    have hmoney : p.2 = roundMoney p.2 "USD" := by
      revert p
      decide +kernel
    rw [hmoney]
    exact isWhole_roundMoney _ _)

example : revenueShares 100 [("4000", 70), ("4100", 40), ("4900", -10)] "USD" =
    [("4000", 70), ("4100", 40), ("4900", -10)] := by decide +kernel

end Celerp
