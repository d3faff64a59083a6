/-
  A bill's entry books what its receipts did not.

  Each line of a bill fills what the receipts booked in its group, and the rest lands
  on its own account (`fillLine`); what was booked is then taken off.

  * A slot takes of a line no more than either has (`Takes`), and a run over slots
    leaves the line's rest only where they are full on its side (`Fills`);
  * so group by group the entry and the receipts come to what the bill books, and
    where the bill's lines of a group are on one side and come to at least what the
    receipts booked on that side, the entry posts on that side alone
    (`billed_once`).
-/
import Mathlib.Algebra.Order.Group.MinMax
import Celerp.Journal.Netting

namespace Celerp

open Amounts

/-! ## One slot -/

/-- What a slot takes of `left`, on the side `σ`. -/
structure Takes (σ left open_ t : ℚ) : Prop where
  nonneg : 0 ≤ σ * t
  le_left : σ * t ≤ σ * left
  le_open : 0 < σ * open_ → σ * t ≤ σ * open_
  side : σ * open_ ≤ 0 → t = 0
  full : σ * t < σ * left → σ * (open_ - t) ≤ 0

/-- What a slot takes. -/
def taken (left open_ : ℚ) : ℚ :=
  if left ≠ 0 ∧ open_ ≠ 0 ∧ (0 < open_ ↔ 0 < left) then
    min |left| |open_| * (if 0 < left then 1 else -1)
  else 0

theorem taken_of_pos {left open_ : ℚ} (hleft : 0 < left) (hopen : 0 < open_) :
    taken left open_ = min left open_ := by
  rw [taken, if_pos ⟨hleft.ne', hopen.ne', iff_of_true hopen hleft⟩, if_pos hleft, mul_one,
    abs_of_pos hleft, abs_of_pos hopen]

theorem taken_of_neg {left open_ : ℚ} (hleft : left < 0) (hopen : open_ < 0) :
    taken left open_ = max left open_ := by
  rw [taken, if_pos ⟨hleft.ne, hopen.ne, iff_of_false hopen.not_gt hleft.not_gt⟩,
    if_neg hleft.not_gt, abs_of_neg hleft, abs_of_neg hopen, min_neg_neg]
  ring

/-- A slot on the other side, or full, takes nothing. -/
theorem taken_eq_zero {left open_ : ℚ} (h : left * open_ ≤ 0) : taken left open_ = 0 := by
  rw [taken, if_neg]
  rintro ⟨hleft, hopen, hiff⟩
  rcases lt_or_gt_of_ne hleft with hneg | hpos
  · have hopen' : open_ < 0 := lt_of_le_of_ne (not_lt.1 fun h => hneg.not_gt (hiff.1 h)) hopen
    exact h.not_gt (mul_pos_of_neg_of_neg hneg hopen')
  · exact h.not_gt (mul_pos hpos (hiff.2 hpos))

theorem takes_taken {σ left open_ : ℚ} (hσ : σ = 1 ∨ σ = -1) (hleft : 0 ≤ σ * left) :
    Takes σ left open_ (taken left open_) := by
  by_cases hboth : 0 < σ * left ∧ 0 < σ * open_
  · obtain ⟨hl, ho⟩ := hboth
    have hmin : σ * taken left open_ = min (σ * left) (σ * open_) := by
      rcases hσ with rfl | rfl
      · rw [one_mul] at hl ho ⊢
        rw [taken_of_pos hl ho, one_mul, one_mul]
      · have hl' : left < 0 := by linarith
        have ho' : open_ < 0 := by linarith
        rw [taken_of_neg hl' ho', neg_one_mul, neg_one_mul, neg_one_mul, min_neg_neg]
    refine ⟨?_, ?_, fun _ => ?_, fun h => absurd ho h.not_gt, fun hlt => ?_⟩
    · rw [hmin]
      exact (lt_min hl ho).le
    · rw [hmin]
      exact min_le_left _ _
    · rw [hmin]
      exact min_le_right _ _
    · rw [mul_sub, hmin]
      rw [hmin] at hlt
      have hle : σ * open_ ≤ σ * left := by
        by_contra h
        rw [min_eq_left (not_le.1 h).le] at hlt
        exact lt_irrefl _ hlt
      rw [min_eq_right hle, sub_self]
  · have hprod : left * open_ ≤ 0 := by
      have hsq : σ * left * (σ * open_) = left * open_ := by
        rcases hσ with rfl | rfl <;> ring
      rw [← hsq]
      rcases hleft.eq_or_lt with hzero | hpos
      · rw [← hzero, zero_mul]
      · exact mul_nonpos_of_nonneg_of_nonpos hleft (not_lt.1 fun h => hboth ⟨hpos, h⟩)
    have hzero := taken_eq_zero hprod
    refine ⟨?_, ?_, fun h => ?_, fun _ => hzero, fun hlt => ?_⟩
    · rw [hzero, mul_zero]
    · rw [hzero, mul_zero]
      exact hleft
    · rw [hzero, mul_zero]
      exact h.le
    · rw [hzero, mul_zero] at hlt
      rw [hzero, sub_zero]
      exact not_lt.1 fun h => hboth ⟨hlt, h⟩

section
variable {σ : ℚ} {st st' : Filling} {slot k : NetKey} {slots : List NetKey}
  {p : NetKey → Prop} [DecidablePred p]

/-- What a step of the loop over slots does. -/
structure Filling.Moved (st st' : Filling) (slot : NetKey) (t : ℚ) : Prop where
  left : st'.left = st.left - t
  net : ∀ k, get k st'.net = get k st.net + if slot = k then t else 0
  unfilled : ∀ k, get k st'.unfilled = get k st.unfilled - if slot = k then t else 0
  totalNet : ∀ (p : NetKey → Prop) [DecidablePred p],
    totalOf p st'.net = totalOf p st.net + if p slot then t else 0
  totalUnfilled : ∀ (p : NetKey → Prop) [DecidablePred p],
    totalOf p st'.unfilled = totalOf p st.unfilled - if p slot then t else 0

theorem moved_fillSlot (st : Filling) (slot : NetKey) :
    Filling.Moved st (st.fillSlot slot) slot (taken st.left (get slot st.unfilled)) := by
  unfold Filling.fillSlot taken
  dsimp only
  by_cases h : st.left ≠ 0 ∧ get slot st.unfilled ≠ 0 ∧ (0 < get slot st.unfilled ↔ 0 < st.left)
  · rw [if_pos h, if_pos h]
    generalize min |st.left| |get slot st.unfilled| * (if 0 < st.left then (1 : ℚ) else -1) = t
    refine ⟨rfl, fun k => get_add, fun k => ?_, fun p _ => totalOf_add, fun p _ => ?_⟩
    · rw [get_add]
      split_ifs <;> ring
    · rw [totalOf_add]
      split_ifs <;> ring
  · rw [if_neg h, if_neg h]
    exact ⟨by simp, by simp, by simp, by simp, by simp⟩

/-! ## The slots of a line -/

/-- What a loop over slots does: it takes from the line and fills the slots by as much. -/
structure Filling.Filled (st st' : Filling) (slots : List NetKey) : Prop where
  kept : ∀ k, get k st'.net + get k st'.unfilled = get k st.net + get k st.unfilled
  other : ∀ k ∉ slots, get k st'.net = get k st.net ∧ get k st'.unfilled = get k st.unfilled
  total : ∀ (p : NetKey → Prop) [DecidablePred p], (∀ slot ∈ slots, p slot) →
    totalOf p st'.net + st'.left = totalOf p st.net + st.left
  totalOther : ∀ (p : NetKey → Prop) [DecidablePred p], (∀ slot ∈ slots, ¬p slot) →
    totalOf p st'.net = totalOf p st.net ∧ totalOf p st'.unfilled = totalOf p st.unfilled

/-- What it does to a line on the side `σ`. -/
structure Filling.FilledOn (σ : ℚ) (st st' : Filling) (slots : List NetKey) : Prop where
  left : 0 ≤ σ * st'.left
  left_le : σ * st'.left ≤ σ * st.left
  unfilled : ∀ k, 0 < σ * get k st.unfilled →
    0 ≤ σ * get k st'.unfilled ∧ σ * get k st'.unfilled ≤ σ * get k st.unfilled
  side : ∀ k, σ * get k st.unfilled ≤ 0 → get k st'.unfilled = get k st.unfilled
  full : 0 < σ * st'.left → ∀ slot ∈ slots, σ * get slot st'.unfilled ≤ 0
  spent : ∀ (p : NetKey → Prop) [DecidablePred p],
    (∀ slot ∈ slots, 0 < σ * get slot st.unfilled → p slot) →
    totalOf p st'.unfilled = totalOf p st.unfilled - (st.left - st'.left)

theorem filled_fillSlots (st : Filling) (slots : List NetKey) :
    Filling.Filled st (st.fillSlots slots) slots := by
  induction slots generalizing st with
  | nil => exact ⟨fun _ => rfl, fun _ _ => ⟨rfl, rfl⟩, fun _ _ _ => rfl,
      fun _ _ _ => ⟨rfl, rfl⟩⟩
  | cons slot slots ih =>
    have hstep := moved_fillSlot st slot
    have hrest := ih (st.fillSlot slot)
    have hcons : st.fillSlots (slot :: slots) = (st.fillSlot slot).fillSlots slots := rfl
    rw [hcons]
    refine ⟨fun k => ?_, fun k hk => ?_, fun p _ hp => ?_, fun p _ hp => ?_⟩
    · rw [hrest.kept, hstep.net, hstep.unfilled]
      ring
    · rw [List.mem_cons, not_or] at hk
      obtain ⟨hnet, hunfilled⟩ := hrest.other k hk.2
      rw [hnet, hunfilled, hstep.net, hstep.unfilled, if_neg (Ne.symm hk.1), add_zero, sub_zero]
      exact ⟨rfl, rfl⟩
    · rw [List.forall_mem_cons] at hp
      rw [hrest.total p hp.2, hstep.totalNet, hstep.left, if_pos hp.1]
      ring
    · rw [List.forall_mem_cons] at hp
      obtain ⟨hnet, hunfilled⟩ := hrest.totalOther p hp.2
      rw [hnet, hunfilled, hstep.totalNet, hstep.totalUnfilled, if_neg hp.1, add_zero, sub_zero]
      exact ⟨rfl, rfl⟩

theorem filledOn_fillSlots (hσ : σ = 1 ∨ σ = -1) {st : Filling} (hleft : 0 ≤ σ * st.left)
    (slots : List NetKey) : Filling.FilledOn σ st (st.fillSlots slots) slots := by
  induction slots generalizing st with
  | nil =>
    refine ⟨hleft, le_rfl, fun k hk => ⟨hk.le, le_rfl⟩, fun k _ => rfl, fun _ slot h => ?_, fun p _ _ => ?_⟩
    · cases h
    · show totalOf p st.unfilled = totalOf p st.unfilled - (st.left - st.left)
      ring
  | cons slot slots ih =>
    have hcons : st.fillSlots (slot :: slots) = (st.fillSlot slot).fillSlots slots := rfl
    rw [hcons]
    have hstep := moved_fillSlot st slot
    have htakes : Takes σ st.left (get slot st.unfilled) _ := takes_taken hσ hleft
    generalize taken st.left (get slot st.unfilled) = t at hstep htakes
    have hleft' : 0 ≤ σ * (st.fillSlot slot).left := by
      rw [hstep.left, mul_sub]
      exact sub_nonneg.2 htakes.le_left
    have hless : σ * (st.fillSlot slot).left ≤ σ * st.left := by
      rw [hstep.left, mul_sub]
      exact sub_le_self _ htakes.nonneg
    have hrest := ih hleft'
    -- what the first slot does to each key
    have hkey : ∀ k, 0 < σ * get k st.unfilled →
        0 ≤ σ * get k (st.fillSlot slot).unfilled ∧
          σ * get k (st.fillSlot slot).unfilled ≤ σ * get k st.unfilled := by
      intro k hk
      rw [hstep.unfilled]
      split_ifs with heq
      · subst heq
        rw [mul_sub]
        exact ⟨sub_nonneg.2 (htakes.le_open hk), sub_le_self _ htakes.nonneg⟩
      · rw [sub_zero]
        exact ⟨hk.le, le_rfl⟩
    have hside : ∀ k, σ * get k st.unfilled ≤ 0 →
        get k (st.fillSlot slot).unfilled = get k st.unfilled := by
      intro k hk
      rw [hstep.unfilled]
      split_ifs with heq
      · subst heq
        rw [htakes.side hk, sub_zero]
      · rw [sub_zero]
    refine ⟨hrest.left, hrest.left_le.trans hless, fun k hk => ?_, fun k hk => ?_, fun hpos slot' hslot' => ?_, fun p _ hp => ?_⟩
    · obtain ⟨hnonneg, hle⟩ := hkey k hk
      rcases hnonneg.eq_or_lt with hzero | hpos
      · rw [hrest.side k hzero.symm.le]
        exact ⟨hnonneg, hle⟩
      · obtain ⟨hnonneg', hle'⟩ := hrest.unfilled k hpos
        exact ⟨hnonneg', hle'.trans hle⟩
    · have heq := hside k hk
      rw [hrest.side k (heq ▸ hk), heq]
    · rcases List.mem_cons.1 hslot' with rfl | hmem
      · -- the rest goes on past a slot only where it is full
        have hfull : σ * get slot' (st.fillSlot slot').unfilled ≤ 0 := by
          rw [hstep.unfilled, if_pos rfl]
          have hrest' := hpos.trans_le hrest.left_le
          rw [hstep.left, mul_sub] at hrest'
          exact htakes.full (sub_pos.1 hrest')
        rw [hrest.side slot' hfull]
        exact hfull
      · exact hrest.full hpos slot' hmem
    · rw [List.forall_mem_cons] at hp
      have hrestp : ∀ s ∈ slots, 0 < σ * get s (st.fillSlot slot).unfilled → p s := by
        intro s hs hpos
        refine hp.2 s hs (not_le.1 fun hle => ?_)
        rw [hside s hle] at hpos
        exact hpos.not_ge hle
      rw [hrest.spent p hrestp, hstep.totalUnfilled, hstep.left]
      by_cases hopen : 0 < σ * get slot st.unfilled
      · rw [if_pos (hp.1 hopen)]
        ring
      · rw [htakes.side (not_lt.1 hopen), ite_self, sub_zero, sub_zero]

end

/-! ## The lines of a bill -/

/-- The keys of a net group. -/
def InGroup (g : List String) (k : NetKey) : Prop := netGroup k.2 = g

instance instDecidableInGroup (g : List String) : DecidablePred (InGroup g) := fun k =>
  inferInstanceAs (Decidable (netGroup k.2 = g))

theorem mem_slotsOf {key k : NetKey} {unfilled : List (NetKey × ℚ)} :
    k ∈ slotsOf key unfilled ↔
      k ∈ unfilled.map Prod.fst ∧ k.2 ≠ [] ∧ netGroup k.2 = netGroup key.2 := by
  rw [slotsOf, List.mem_insertionSort, List.mem_filter, decide_eq_true_eq]

theorem netGroup_ne_nil {roles : List String} (h : netGroup roles ≠ []) : roles ≠ [] := by
  rintro rfl
  exact h rfl

section
variable {rolesForAccount : String → List String} {σ : ℚ} {st : Filling} {l : RoleLine} {k : NetKey}
  {g : List String}

/-- What a line adds on the account it fills from, beyond the slots. -/
def ownPart (rolesForAccount : String → List String) (st : Filling) (l : RoleLine) : ℚ :=
  (Filling.fillSlots { st with left := l.amount }
    (slotsOf (netKey rolesForAccount l) st.unfilled)).left

theorem fillLine_net (k : NetKey) : get k (fillLine rolesForAccount st l).net =
    get k (Filling.fillSlots { st with left := l.amount }
      (slotsOf (netKey rolesForAccount l) st.unfilled)).net +
      if netKey rolesForAccount l = k then ownPart rolesForAccount st l else 0 := by
  unfold fillLine ownPart
  dsimp only
  split_ifs with hleft hk hk
  · rw [get_add, if_pos hk]
  · rw [get_add, if_neg hk]
  · rw [not_not.1 hleft, add_zero]
  · rw [add_zero]

theorem fillLine_totalNet (p : NetKey → Prop) [DecidablePred p] :
    totalOf p (fillLine rolesForAccount st l).net =
      totalOf p (Filling.fillSlots { st with left := l.amount }
        (slotsOf (netKey rolesForAccount l) st.unfilled)).net +
        if p (netKey rolesForAccount l) then ownPart rolesForAccount st l else 0 := by
  unfold fillLine ownPart
  dsimp only
  split_ifs with hleft hk hk
  · rw [totalOf_add, if_pos hk]
  · rw [totalOf_add, if_neg hk]
  · rw [not_not.1 hleft, add_zero]
  · rw [add_zero]

theorem fillLine_unfilled : (fillLine rolesForAccount st l).unfilled =
    (Filling.fillSlots { st with left := l.amount }
      (slotsOf (netKey rolesForAccount l) st.unfilled)).unfilled := by
  unfold fillLine
  dsimp only
  split_ifs <;> rfl

/-- A line moves its amount within its group. -/
theorem fillLine_total {p : NetKey → Prop} [DecidablePred p]
    (hp : ∀ k k' : NetKey, netGroup k.2 = netGroup k'.2 → (p k ↔ p k')) :
    totalOf p (fillLine rolesForAccount st l).net =
      totalOf p st.net + if p (netKey rolesForAccount l) then l.amount else 0 := by
  have hfilled := filled_fillSlots { st with left := l.amount }
    (slotsOf (netKey rolesForAccount l) st.unfilled)
  have hgroup : ∀ slot ∈ slotsOf (netKey rolesForAccount l) st.unfilled,
      (p slot ↔ p (netKey rolesForAccount l)) := fun slot hslot => hp _ _ (mem_slotsOf.1 hslot).2.2
  rw [fillLine_totalNet]
  split_ifs with hkey
  · exact hfilled.total p fun slot hslot => (hgroup slot hslot).2 hkey
  · rw [(hfilled.totalOther p fun slot hslot h => hkey ((hgroup slot hslot).1 h)).1]

/-- A line leaves what is unfilled in other groups. -/
theorem fillLine_totalUnfilled {p : NetKey → Prop} [DecidablePred p]
    (hp : ∀ k, p k → netGroup k.2 ≠ netGroup (netKey rolesForAccount l).2) :
    totalOf p (fillLine rolesForAccount st l).unfilled = totalOf p st.unfilled := by
  rw [fillLine_unfilled]
  exact ((filled_fillSlots { st with left := l.amount } _).totalOther p
    fun slot hslot h => hp slot h (mem_slotsOf.1 hslot).2.2).2

/-- A line leaves the keys of other groups alone. -/
theorem fillLine_other (hk : netGroup k.2 ≠ netGroup (netKey rolesForAccount l).2) :
    get k (fillLine rolesForAccount st l).net = get k st.net ∧
      get k (fillLine rolesForAccount st l).unfilled = get k st.unfilled := by
  have hslots : k ∉ slotsOf (netKey rolesForAccount l) st.unfilled :=
    fun h => hk (mem_slotsOf.1 h).2.2
  have hne : netKey rolesForAccount l ≠ k := by
    rintro rfl
    exact hk rfl
  obtain ⟨hnet, hunfilled⟩ := (filled_fillSlots { st with left := l.amount } _).other k hslots
  rw [fillLine_net, if_neg hne, add_zero, fillLine_unfilled]
  exact ⟨hnet, hunfilled⟩

/-- What a line on the side `σ` does to the keys of its group. -/
structure LineOn (σ : ℚ) (g : List String) (amount : ℚ) (st st' : Filling) : Prop where
  within : ∀ k, σ * (get k st.net + get k st.unfilled) ≤ σ * (get k st'.net + get k st'.unfilled)
  unfilled : ∀ k, 0 < σ * get k st.unfilled →
    0 ≤ σ * get k st'.unfilled ∧ σ * get k st'.unfilled ≤ σ * get k st.unfilled
  side : ∀ k, σ * get k st.unfilled ≤ 0 → get k st'.unfilled = get k st.unfilled
  spent : (∀ k, InGroup g k → σ * get k st'.unfilled ≤ 0) ∨
    ∀ (p : NetKey → Prop) [DecidablePred p],
      (∀ k, InGroup g k → 0 < σ * get k st.unfilled → p k) →
      totalOf p st'.unfilled = totalOf p st.unfilled - amount

theorem lineOn_fillLine (hσ : σ = 1 ∨ σ = -1) (hg : InGroup g (netKey rolesForAccount l))
    (hrole : g ≠ []) (hside : 0 ≤ σ * l.amount) :
    LineOn σ g l.amount st (fillLine rolesForAccount st l) := by
  have hfilled := filled_fillSlots { st with left := l.amount }
    (slotsOf (netKey rolesForAccount l) st.unfilled)
  have hon : Filling.FilledOn σ { st with left := l.amount } _ _ :=
    filledOn_fillSlots hσ hside (slotsOf (netKey rolesForAccount l) st.unfilled)
  refine ⟨fun k => ?_, ?_, ?_, ?_⟩
  · have hown : 0 ≤ σ * ownPart rolesForAccount st l := hon.left
    rw [fillLine_net, fillLine_unfilled, add_right_comm, hfilled.kept]
    show σ * (get k st.net + get k st.unfilled) ≤ σ * (get k st.net + get k st.unfilled + _)
    rw [mul_add σ (get k st.net + get k st.unfilled)]
    split_ifs
    · exact le_add_of_nonneg_right hown
    · rw [mul_zero, add_zero]
  · rw [fillLine_unfilled]
    exact hon.unfilled
  · rw [fillLine_unfilled]
    exact hon.side
  · rw [fillLine_unfilled]
    rcases hon.left.eq_or_lt with hzero | hpos
    · right
      intro p _ hp
      have hleft : (Filling.fillSlots { st with left := l.amount }
          (slotsOf (netKey rolesForAccount l) st.unfilled)).left = 0 := by
        rcases hσ with rfl | rfl <;> linarith
      rw [hon.spent p fun slot hslot hopen => hp slot ((mem_slotsOf.1 hslot).2.2.trans hg) hopen,
        hleft, sub_zero]
    · left
      intro k hk
      by_cases hmem : k ∈ st.unfilled.map Prod.fst
      · refine hon.full hpos k (mem_slotsOf.2 ⟨hmem, netGroup_ne_nil ?_, hk.trans hg.symm⟩)
        rw [show netGroup k.2 = g from hk]
        exact hrole
      · have hget : σ * get k st.unfilled ≤ 0 := by
          rw [get_eq_zero_of_not_mem hmem, mul_zero]
        rw [hon.side k hget]
        exact hget

/-! ## All lines -/

/-- What lines move on the keys that meet `p`. -/
def movedOn (rolesForAccount : String → List String) (p : NetKey → Prop) [DecidablePred p]
    (lines : List RoleLine) : ℚ :=
  totalOf p (lines.map fun l => (netKey rolesForAccount l, l.amount))

/-- After some lines of a bill, on the side `σ` of a group: what the keys hold beyond
    what was booked, and what of it is unfilled. -/
structure FilledSoFar (σ : ℚ) (g : List String) (booked : List (NetKey × ℚ)) (done : ℚ)
    (st : Filling) : Prop where
  within : ∀ k, InGroup g k → σ * get k booked ≤ σ * (get k st.net + get k st.unfilled)
  unfilled : ∀ k, InGroup g k → 0 < σ * get k booked → 0 ≤ σ * get k st.unfilled
  side : ∀ k, InGroup g k → σ * get k booked ≤ 0 → get k st.unfilled = get k booked
  spent : (∀ k, InGroup g k → 0 < σ * get k booked → σ * get k st.unfilled ≤ 0) ∨
    totalOf (fun k => InGroup g k ∧ 0 < σ * get k booked) st.unfilled =
      totalOf (fun k => InGroup g k ∧ 0 < σ * get k booked) booked - done

variable {booked : List (NetKey × ℚ)} {done : ℚ}

theorem FilledSoFar.step (h : FilledSoFar σ g booked done st) (hσ : σ = 1 ∨ σ = -1) (hrole : g ≠ [])
    (hside : InGroup g (netKey rolesForAccount l) → 0 ≤ σ * l.amount) :
    FilledSoFar σ g booked
      (done + if InGroup g (netKey rolesForAccount l) then l.amount else 0)
      (fillLine rolesForAccount st l) := by
  split_ifs with hg
  · have hon : LineOn σ g l.amount st _ := lineOn_fillLine hσ hg hrole (hside hg)
    have hnever : ∀ k, InGroup g k → σ * get k booked ≤ 0 →
        get k (fillLine rolesForAccount st l).unfilled = get k booked := by
      intro k hk hle
      have heq := h.side k hk hle
      rw [hon.side k (heq ▸ hle), heq]
    refine ⟨fun k hk => (h.within k hk).trans (hon.within k), fun k hk hpos => ?_, hnever, ?_⟩
    · rcases (h.unfilled k hk hpos).eq_or_lt with hzero | hlt
      · rw [hon.side k hzero.symm.le]
        exact hzero.le
      · exact (hon.unfilled k hlt).1
    · rcases h.spent with hfull | htotal
      · left
        intro k hk hpos
        rw [hon.side k (hfull k hk hpos)]
        exact hfull k hk hpos
      · rcases hon.spent with hfull | hless
        · exact Or.inl fun k hk _ => hfull k hk
        · right
          -- an unfilled key was booked on that side
          have hopen : ∀ k, InGroup g k → 0 < σ * get k st.unfilled →
              InGroup g k ∧ 0 < σ * get k booked := by
            intro k hk hpos
            refine ⟨hk, not_le.1 fun hle => ?_⟩
            rw [h.side k hk hle] at hpos
            exact hpos.not_ge hle
          rw [hless _ hopen, htotal, sub_sub]
  · have hother : ∀ k, InGroup g k → get k (fillLine rolesForAccount st l).net = get k st.net ∧
        get k (fillLine rolesForAccount st l).unfilled = get k st.unfilled :=
      fun k hk => fillLine_other fun heq => hg (heq.symm.trans hk)
    refine ⟨fun k hk => ?_, fun k hk => ?_, fun k hk => ?_, ?_⟩
    · rw [(hother k hk).1, (hother k hk).2]
      exact h.within k hk
    · rw [(hother k hk).2]
      exact h.unfilled k hk
    · rw [(hother k hk).2]
      exact h.side k hk
    · rw [add_zero, fillLine_totalUnfilled fun k hk heq => hg (heq.symm.trans hk.1)]
      exact h.spent.imp_left fun hfull k hk => by rw [(hother k hk).2]; exact hfull k hk

theorem FilledSoFar.foldl (hσ : σ = 1 ∨ σ = -1) (hrole : g ≠ []) {bill : List RoleLine}
    (hside : ∀ l ∈ bill, InGroup g (netKey rolesForAccount l) → 0 ≤ σ * l.amount)
    (h : FilledSoFar σ g booked done st) :
    FilledSoFar σ g booked (done + movedOn rolesForAccount (InGroup g) bill)
      (bill.foldl (fillLine rolesForAccount) st) := by
  induction bill generalizing st done with
  | nil =>
    rw [movedOn, List.map_nil, totalOf_nil, add_zero]
    exact h
  | cons l bill ih =>
    rw [List.forall_mem_cons] at hside
    have hrest := ih hside.2 (h.step hσ hrole hside.1)
    rw [movedOn, List.map_cons, totalOf_cons, ← add_assoc]
    exact hrest

theorem filledSoFar_start : FilledSoFar σ g booked 0 ⟨0, [], booked⟩ where
  within k _ := by rw [get_nil, zero_add]
  unfilled _ _ h := h.le
  side _ _ _ := rfl
  spent := Or.inr (sub_zero _).symm

/-- What the receipts left on the side `σ` of a group. -/
def bookedOnSide (σ : ℚ) (g : List String) (booked : List (NetKey × ℚ)) : ℚ :=
  σ * totalOf (fun k => InGroup g k ∧ 0 < σ * get k booked) booked

/-- Where the lines come to what was booked on their side, each key is filled. -/
theorem FilledSoFar.filled (h : FilledSoFar σ g booked done st)
    (hnodup : (st.unfilled.map Prod.fst).Nodup) (hdone : bookedOnSide σ g booked ≤ σ * done)
    (hk : InGroup g k) : σ * get k booked ≤ σ * get k st.net := by
  have hempty : 0 < σ * get k booked → σ * get k st.unfilled ≤ 0 := by
    intro hpos
    rcases h.spent with hfull | htotal
    · exact hfull k hk hpos
    · -- scaled by the side, no amount is less than 0 and they come to no more
      set scale := AddMonoidHom.mulLeft σ with hscale
      have hmapped : totalOf (fun k => InGroup g k ∧ 0 < σ * get k booked)
          (st.unfilled.map fun e => (e.1, scale e.2)) ≤ 0 := by
        rw [totalOf_map, htotal]
        show σ * (_ - done) ≤ 0
        rw [mul_sub]
        exact sub_nonpos.2 hdone
      have hzero := get_eq_zero_of_totalOf (by rwa [keys_map]) (fun k hk => by
        rw [get_map]
        exact h.unfilled k hk.1 hk.2) hmapped ⟨hk, hpos⟩
      rw [get_map] at hzero
      exact le_of_eq hzero
  have hover := h.within k hk
  rw [mul_add] at hover
  rcases le_or_gt (σ * get k booked) 0 with hle | hpos
  · rw [h.side k hk hle] at hover
    linarith
  · linarith [hempty hpos]

theorem foldl_fillLine_total {p : NetKey → Prop} [DecidablePred p]
    (hp : ∀ k k' : NetKey, netGroup k.2 = netGroup k'.2 → (p k ↔ p k')) (bill : List RoleLine) :
    totalOf p (bill.foldl (fillLine rolesForAccount) st).net =
      totalOf p st.net + movedOn rolesForAccount p bill := by
  induction bill generalizing st with
  | nil => simp [movedOn]
  | cons l bill ih =>
    rw [List.foldl_cons, ih, fillLine_total hp, movedOn, movedOn, List.map_cons, totalOf_cons, add_assoc]

/-! ## Taking off what was booked -/

/-- What was booked, the other way. -/
def negated (booked : List (NetKey × ℚ)) : List (NetKey × ℚ) :=
  booked.map fun e => (e.1, (-AddMonoidHom.id ℚ) e.2)

theorem netAgainst_eq (bill : List RoleLine) : netAgainst rolesForAccount bill booked =
    (negated booked).foldl (fun net e => add e.1 e.2 net)
      (bill.foldl (fillLine rolesForAccount) ⟨0, [], booked⟩).net := by
  rw [negated, List.foldl_map]
  rfl

theorem netAgainst_total {p : NetKey → Prop} [DecidablePred p]
    (hp : ∀ k k' : NetKey, netGroup k.2 = netGroup k'.2 → (p k ↔ p k')) (bill : List RoleLine) :
    totalOf p (netAgainst rolesForAccount bill booked) =
      movedOn rolesForAccount p bill - totalOf p booked := by
  rw [netAgainst_eq, foldl_add_totalOf, foldl_fillLine_total hp, negated, totalOf_map, totalOf_nil,
    zero_add]
  exact (sub_eq_add_neg _ _).symm

theorem netAgainst_get (hnodup : (booked.map Prod.fst).Nodup) (bill : List RoleLine) (k : NetKey) :
    get k (netAgainst rolesForAccount bill booked) =
      get k (bill.foldl (fillLine rolesForAccount) ⟨0, [], booked⟩).net - get k booked := by
  rw [netAgainst_eq, foldl_add_get, negated, totalOf_map, totalOf_eq_get hnodup]
  exact (sub_eq_add_neg _ _).symm

end

/-! ## Whole amounts on ordered keys -/

/-- The roles of a key are in order. -/
def Ordered (k : NetKey) : Prop := k.2.insertionSort (· ≤ ·) = k.2

theorem ordered_netKey (rolesForAccount : String → List String) (l : RoleLine) :
    Ordered (netKey rolesForAccount l) :=
  (List.pairwise_insertionSort (· ≤ ·) _).insertionSort_eq

/-- Amounts in whole minor units on ordered keys, one for each. -/
structure WholeAmounts (c : String) (d : List (NetKey × ℚ)) : Prop where
  nodup : (d.map Prod.fst).Nodup
  entries : ∀ e ∈ d, Ordered e.1 ∧ IsWhole c e.2

section
variable {c : String} {d : List (NetKey × ℚ)} {k : NetKey} {v : ℚ} {st : Filling} {slot : NetKey}
  {rolesForAccount : String → List String} {l : RoleLine}

theorem WholeAmounts.add (h : WholeAmounts c d) (hk : Ordered k) (hv : IsWhole c v) :
    WholeAmounts c (Amounts.add k v d) where
  nodup := nodup_add h.nodup
  entries := forall_add h.entries (fun _ hw => ⟨hk, hw.2.add hv⟩) ⟨hk, hv⟩

theorem WholeAmounts.get (h : WholeAmounts c d) (k : NetKey) : IsWhole c (get k d) :=
  forall_get (P := IsWhole c) (fun e he => (h.entries e he).2) (isWhole_zero c)

theorem WholeAmounts.foldl {more : List (NetKey × ℚ)} (h : WholeAmounts c d)
    (hmore : ∀ e ∈ more, Ordered e.1 ∧ IsWhole c e.2) :
    WholeAmounts c (more.foldl (fun d e => Amounts.add e.1 e.2 d) d) := by
  induction more generalizing d with
  | nil => exact h
  | cons e more ih =>
    rw [List.forall_mem_cons] at hmore
    exact ih (h.add hmore.1.1 hmore.1.2) hmore.2

theorem isWhole_taken {left open_ : ℚ} (hleft : IsWhole c left) (hopen : IsWhole c open_) :
    IsWhole c (taken left open_) := by
  unfold taken
  split_ifs
  · rw [mul_one]
    rcases min_choice |left| |open_| with h | h <;> rw [h]
    · exact hleft.abs
    · exact hopen.abs
  · rw [mul_neg_one]
    rcases min_choice |left| |open_| with h | h <;> rw [h]
    · exact hleft.abs.neg
    · exact hopen.abs.neg
  · exact isWhole_zero c

/-- Whole amounts throughout the filling. -/
structure WholeFilling (c : String) (st : Filling) : Prop where
  left : IsWhole c st.left
  net : WholeAmounts c st.net
  unfilled : WholeAmounts c st.unfilled

theorem WholeFilling.fillSlot (h : WholeFilling c st) (hslot : Ordered slot) :
    WholeFilling c (st.fillSlot slot) := by
  have hwhole : IsWhole c (taken st.left (Amounts.get slot st.unfilled)) :=
    isWhole_taken h.left (h.unfilled.get slot)
  unfold taken at hwhole
  unfold Filling.fillSlot
  dsimp only
  split_ifs at hwhole ⊢ with hopen hpos
  · exact ⟨h.left.sub hwhole, h.net.add hslot hwhole, h.unfilled.add hslot hwhole.neg⟩
  · exact ⟨h.left.sub hwhole, h.net.add hslot hwhole, h.unfilled.add hslot hwhole.neg⟩
  · exact h

theorem WholeFilling.fillSlots {slots : List NetKey} (h : WholeFilling c st)
    (hslots : ∀ slot ∈ slots, Ordered slot) : WholeFilling c (st.fillSlots slots) := by
  induction slots generalizing st with
  | nil => exact h
  | cons slot slots ih =>
    rw [List.forall_mem_cons] at hslots
    exact ih (h.fillSlot hslots.1) hslots.2

theorem WholeFilling.fillLine (h : WholeFilling c st) (hl : l.Whole c) :
    WholeFilling c (fillLine rolesForAccount st l) := by
  have hstart : WholeFilling c { st with left := l.amount } := ⟨hl.1.sub hl.2, h.net, h.unfilled⟩
  have hslots : ∀ slot ∈ slotsOf (netKey rolesForAccount l) st.unfilled, Ordered slot := by
    intro slot hslot
    obtain ⟨e, he, rfl⟩ := List.mem_map.1 (mem_slotsOf.1 hslot).1
    exact (h.unfilled.entries e he).1
  have hfilled := hstart.fillSlots hslots
  unfold Celerp.fillLine
  dsimp only
  split_ifs
  · exact ⟨hfilled.left, hfilled.net.add (ordered_netKey rolesForAccount l) hfilled.left,
      hfilled.unfilled⟩
  · exact hfilled

theorem WholeFilling.foldl {bill : List RoleLine} (h : WholeFilling c st) (hbill : ∀ l ∈ bill, l.Whole c) :
    WholeFilling c (bill.foldl (Celerp.fillLine rolesForAccount) st) := by
  induction bill generalizing st with
  | nil => exact h
  | cons l bill ih =>
    rw [List.forall_mem_cons] at hbill
    exact ih (h.fillLine hbill.1) hbill.2

theorem wholeAmounts_nil : WholeAmounts c [] := ⟨List.nodup_nil, by simp⟩

theorem wholeAmounts_netAgainst {bill : List RoleLine} {booked : List (NetKey × ℚ)}
    (hbooked : WholeAmounts c booked) (hbill : ∀ l ∈ bill, l.Whole c) :
    WholeAmounts c (netAgainst rolesForAccount bill booked) := by
  have hstart : WholeFilling c ⟨0, [], booked⟩ := ⟨isWhole_zero c, wholeAmounts_nil, hbooked⟩
  rw [netAgainst_eq]
  refine (hstart.foldl hbill).net.foldl fun e he => ?_
  obtain ⟨f, hf, rfl⟩ := List.mem_map.1 he
  exact ⟨(hbooked.entries f hf).1, (hbooked.entries f hf).2.neg⟩

theorem wholeAmounts_docReceiptBooked {booked : List (List RoleLine)}
    (hbooked : ∀ l ∈ booked.flatten, l.Whole c) :
    WholeAmounts c (docReceiptBooked rolesForAccount booked) := by
  refine wholeAmounts_nil.foldl fun e he => ?_
  obtain ⟨l, hl, rfl⟩ := List.mem_map.1 he
  exact ⟨ordered_netKey rolesForAccount l, (hbooked l hl).1.sub (hbooked l hl).2⟩

end

/-! ## Posting -/

/-- An entry in whole minor units that balances. -/
structure BalancedEntry (c : String) where
  lines : List RoleLine
  whole : ∀ l ∈ lines, l.Whole c
  balanced : exchangeGap (lines.map (·.toLine)) = 0

section
variable {c : String} {rolesForAccount : String → List String} {lines : List RoleLine}
  {d : List (NetKey × ℚ)} {e : NetKey × ℚ} {p : NetKey → Prop} [DecidablePred p]

theorem exchangeGap_eq_movedOn (rolesForAccount : String → List String) (lines : List RoleLine) :
    exchangeGap (lines.map (·.toLine)) = movedOn rolesForAccount (fun _ => True) lines := by
  induction lines with
  | nil => simp [movedOn]
  | cons l lines ih =>
    rw [List.map_cons, exchangeGap_cons, ih, movedOn, movedOn, List.map_cons, totalOf_cons,
      if_pos trivial]
    rfl

theorem movedOn_filter_moves : movedOn rolesForAccount p (lines.filter (·.moves)) =
    movedOn rolesForAccount p lines := by
  induction lines with
  | nil => rfl
  | cons l lines ih =>
    have hcons : movedOn rolesForAccount p (l :: lines) =
        (if p (netKey rolesForAccount l) then l.amount else 0) + movedOn rolesForAccount p lines := by
      rw [movedOn, movedOn, List.map_cons, totalOf_cons]
    rw [hcons, List.filter_cons]
    split_ifs with hmoves hp
    · rw [movedOn, List.map_cons, totalOf_cons, if_pos hp]
      exact congrArg _ ih
    · rw [movedOn, List.map_cons, totalOf_cons, if_neg hp]
      exact congrArg _ ih
    · have hzero := Line.eq_zero_of_not_moves (l := l.toLine) hmoves
      rw [ih, RoleLine.amount, hzero.1, hzero.2, sub_self, zero_add]
    · rw [ih, zero_add]

/-- Whole lines that balance are posted, less those that move nothing. -/
theorem emitRoleLines_of_whole (hwhole : ∀ l ∈ lines, l.Whole c)
    (hgap : exchangeGap (lines.map (·.toLine)) = 0) :
    emitRoleLines c lines = some (lines.filter (·.moves)) := by
  have hround : (lines.map fun l => { l with toLine := l.toLine.round c }) = lines := by
    refine (List.map_congr_left fun l hl => ?_).trans (List.map_id' lines)
    rw [(hwhole l hl).round_eq]
  have hfiltered : exchangeGap ((lines.filter (·.moves)).map (·.toLine)) = 0 := by
    rw [exchangeGap_eq_movedOn fun _ => [], movedOn_filter_moves, ← exchangeGap_eq_movedOn, hgap]
  unfold emitRoleLines
  rw [hround]
  exact if_pos hfiltered

theorem netLine_amount : (netLine e).amount = e.2 := by
  unfold RoleLine.amount netLine
  rcases le_total e.2 0 with h | h
  · rw [max_eq_right h, max_eq_left (neg_nonneg.2 h)]
    ring
  · rw [max_eq_left h, max_eq_right (neg_nonpos.2 h), sub_zero]

theorem netLine_moves (h : e.2 ≠ 0) : (netLine e).moves := by
  have hside : (netLine e).debit ≠ 0 ∨ (netLine e).credit ≠ 0 := by
    by_contra hno
    rw [not_or, not_not, not_not] at hno
    refine h ?_
    rw [← netLine_amount, RoleLine.amount, hno.1, hno.2, sub_self]
  rw [Line.moves, decide_eq_true_eq]
  tauto

theorem isWhole_max_zero {v : ℚ} (h : IsWhole c v) : IsWhole c (max v 0) := by
  rcases max_choice v 0 with hmax | hmax <;> rw [hmax]
  · exact h
  · exact isWhole_zero c

theorem whole_netLine (h : IsWhole c e.2) : (netLine e).Whole c :=
  ⟨isWhole_max_zero h, isWhole_max_zero h.neg⟩

/-- The lines of amounts on ordered keys move those amounts on those keys. -/
theorem movedOn_netLine (h : ∀ e ∈ d, Ordered e.1) :
    movedOn rolesForAccount p (d.map netLine) = totalOf p d := by
  have hkeys : (d.map netLine).map (fun l => (netKey rolesForAccount l, l.amount)) = d := by
    rw [List.map_map]
    refine (List.map_congr_left fun e he => ?_).trans (List.map_id' d)
    have hkey : netKey rolesForAccount (netLine e) = e.1 := Prod.ext rfl (h e he)
    rw [Function.comp_apply, hkey, netLine_amount]
  rw [movedOn, hkeys]

theorem movedOn_nonneg {σ : ℚ} (h : ∀ l ∈ lines, p (netKey rolesForAccount l) → 0 ≤ σ * l.amount) :
    0 ≤ σ * movedOn rolesForAccount p lines := by
  induction lines with
  | nil => simp [movedOn]
  | cons l lines ih =>
    rw [List.forall_mem_cons] at h
    rw [movedOn, List.map_cons, totalOf_cons, mul_add]
    refine add_nonneg ?_ (ih h.2)
    split_ifs with hp
    · exact h.1 hp
    · rw [mul_zero]

/-- What the entry of a bill is, for each account and its roles and for each group. -/
structure BilledOnce (rolesForAccount : String → List String) (bill posted : List RoleLine)
    (booked : List (List RoleLine)) : Prop where
  /-- the posted entry balances -/
  balanced : exchangeGap (posted.map (·.toLine)) = 0
  /-- what was booked and what is posted come to what the bill books in each group -/
  groups : ∀ g, movedOn rolesForAccount (InGroup g) booked.flatten +
    movedOn rolesForAccount (InGroup g) posted = movedOn rolesForAccount (InGroup g) bill
  /-- in a role group where the bill's lines are on one side and come to at least what was
      booked on that side, each account keeps at least what was booked on it -/
  kept : ∀ σ g, σ = 1 ∨ σ = -1 → g ≠ [] →
    (∀ l ∈ bill, InGroup g (netKey rolesForAccount l) → 0 ≤ σ * l.amount) →
    bookedOnSide σ g (docReceiptBooked rolesForAccount booked) ≤
      σ * movedOn rolesForAccount (InGroup g) bill →
    ∀ k, InGroup g k → σ * movedOn rolesForAccount (· = k) booked.flatten ≤
      σ * (movedOn rolesForAccount (· = k) booked.flatten + movedOn rolesForAccount (· = k) posted)

theorem totalOf_docReceiptBooked (booked : List (List RoleLine)) :
    totalOf p (docReceiptBooked rolesForAccount booked) =
      movedOn rolesForAccount p booked.flatten := totalOf_ofList

/-- The entry of a bill with nothing booked before it. -/
theorem billedOnce_of_unbooked {bill : List RoleLine} {booked : List (List RoleLine)}
    (hbooked : booked.flatten = []) (hgap : exchangeGap (bill.map (·.toLine)) = 0) :
    BilledOnce rolesForAccount bill (bill.filter (·.moves)) booked := by
  have hzero : ∀ (p : NetKey → Prop) [DecidablePred p],
      movedOn rolesForAccount p booked.flatten = 0 := by
    intro p _
    rw [hbooked]
    rfl
  refine ⟨?_, fun g => ?_, fun σ g _ _ hside _ k hk => ?_⟩
  · rw [exchangeGap_eq_movedOn fun _ => [], movedOn_filter_moves, ← exchangeGap_eq_movedOn, hgap]
  · rw [hzero, zero_add, movedOn_filter_moves]
  · rw [hzero, zero_add, mul_zero, movedOn_filter_moves]
    refine movedOn_nonneg fun l hl hkey => hside l hl ?_
    rw [hkey]
    exact hk

/-- The entry of a bill less what was booked before it. -/
theorem billedOnce_of_booked {bill : List RoleLine} {booked : List (List RoleLine)}
    (hgap : exchangeGap (bill.map (·.toLine)) = 0)
    (hbooked : exchangeGap (booked.flatten.map (·.toLine)) = 0)
    (hbillWhole : ∀ l ∈ bill, l.Whole c) (hbookedWhole : ∀ l ∈ booked.flatten, l.Whole c) :
    BilledOnce rolesForAccount bill
      (((netAgainst rolesForAccount bill (docReceiptBooked rolesForAccount booked)).filter
        (·.2 ≠ 0)).map netLine) booked := by
  have hwholeBooked : WholeAmounts c (docReceiptBooked rolesForAccount booked) :=
    wholeAmounts_docReceiptBooked hbookedWhole
  have hwhole : WholeAmounts c
      (netAgainst rolesForAccount bill (docReceiptBooked rolesForAccount booked)) :=
    wholeAmounts_netAgainst hwholeBooked hbillWhole
  have hmoved : ∀ (p : NetKey → Prop) [DecidablePred p], movedOn rolesForAccount p
      (((netAgainst rolesForAccount bill (docReceiptBooked rolesForAccount booked)).filter
        (·.2 ≠ 0)).map netLine) =
      totalOf p (netAgainst rolesForAccount bill (docReceiptBooked rolesForAccount booked)) := by
    intro p _
    rw [movedOn_netLine fun e he => (hwhole.entries e (List.mem_of_mem_filter he)).1,
      totalOf_filter_ne_zero]
  refine ⟨?_, fun g => ?_, fun σ g hσ hrole hside hless k hk => ?_⟩
  · rw [exchangeGap_eq_movedOn rolesForAccount, hmoved, netAgainst_total fun _ _ _ => Iff.rfl,
      totalOf_docReceiptBooked, ← exchangeGap_eq_movedOn, ← exchangeGap_eq_movedOn, hgap, hbooked,
      sub_zero]
  · have hgroup : ∀ k k' : NetKey, netGroup k.2 = netGroup k'.2 → (InGroup g k ↔ InGroup g k') := by
      intro k k' heq
      rw [InGroup, InGroup, heq]
    rw [hmoved, netAgainst_total hgroup, totalOf_docReceiptBooked]
    ring
  · have hstart : WholeFilling c ⟨0, [], docReceiptBooked rolesForAccount booked⟩ :=
      ⟨isWhole_zero c, wholeAmounts_nil, hwholeBooked⟩
    have hsofar : FilledSoFar σ g (docReceiptBooked rolesForAccount booked)
        (0 + movedOn rolesForAccount (InGroup g) bill) _ :=
      filledSoFar_start.foldl hσ hrole hside
    rw [zero_add] at hsofar
    have hfilled := hsofar.filled (hstart.foldl hbillWhole).unfilled.nodup hless hk
    rw [hmoved, totalOf_eq_get hwhole.nodup, netAgainst_get hwholeBooked.nodup,
      ← totalOf_docReceiptBooked, totalOf_eq_get hwholeBooked.nodup, add_sub_cancel]
    exact hfilled

/-- **Receiving a bill's goods before or after finalizing it ends in the same books.**
    Whatever balanced entries its receipts booked, the entry posted for a bill balances,
    makes up what the bill books in each net group, and takes nothing off the accounts
    of a role group its lines book on one side for at least what was booked there. -/
theorem billed_once (rolesForAccount : String → List String) (c : String) (bill : BalancedEntry c)
    (booked : List (BalancedEntry c)) :
    ∃ posted, createForBillConversion rolesForAccount c bill.lines (booked.map (·.lines)) =
      some posted ∧ BilledOnce rolesForAccount bill.lines posted (booked.map (·.lines)) := by
  have hbookedWhole : ∀ l ∈ (booked.map (·.lines)).flatten, l.Whole c := by
    intro l hl
    obtain ⟨lines, hlines, hl⟩ := List.mem_flatten.1 hl
    obtain ⟨entry, -, rfl⟩ := List.mem_map.1 hlines
    exact entry.whole l hl
  have hbooked : exchangeGap ((booked.map (·.lines)).flatten.map (·.toLine)) = 0 := by
    induction booked with
    | nil => exact exchangeGap_nil
    | cons entry booked ih =>
      have hrest : ∀ l ∈ (booked.map (·.lines)).flatten, l.Whole c := by
        intro l hl
        rw [List.map_cons, List.flatten_cons] at hbookedWhole
        exact hbookedWhole l (List.mem_append_right _ hl)
      rw [List.map_cons, List.flatten_cons, List.map_append, exchangeGap_append, entry.balanced,
        ih hrest, add_zero]
  generalize booked.map (·.lines) = entries at hbookedWhole hbooked
  unfold createForBillConversion
  dsimp only
  split_ifs with hnet
  · have hflatten : entries.flatten = [] := by
      refine List.eq_nil_iff_forall_not_mem.2 fun l hl => ?_
      have hkey : netKey rolesForAccount l ∈ (docReceiptBooked rolesForAccount entries).map Prod.fst :=
        mem_keys_ofList.2 (List.mem_map.2 ⟨_, List.mem_map_of_mem hl, rfl⟩)
      rw [hnet] at hkey
      cases hkey
    exact ⟨_, emitRoleLines_of_whole bill.whole bill.balanced,
      billedOnce_of_unbooked hflatten bill.balanced⟩
  · have hwhole : WholeAmounts c
        (netAgainst rolesForAccount bill.lines (docReceiptBooked rolesForAccount entries)) :=
      wholeAmounts_netAgainst (wholeAmounts_docReceiptBooked hbookedWhole) bill.whole
    have honce : BilledOnce rolesForAccount bill.lines _ entries :=
      billedOnce_of_booked bill.balanced hbooked bill.whole hbookedWhole
    split
    · next hempty =>
      rw [hempty] at honce
      exact ⟨_, rfl, honce⟩
    · next net _ =>
      set net := (netAgainst rolesForAccount bill.lines
        (docReceiptBooked rolesForAccount entries)).filter (·.2 ≠ 0) with hset
      have hlines : ∀ l ∈ net.map netLine, l.Whole c := by
        intro l hl
        obtain ⟨e, he, rfl⟩ := List.mem_map.1 hl
        exact whole_netLine (hwhole.entries e (List.mem_of_mem_filter he)).2
      have hmoves : (net.map netLine).filter (·.moves) = net.map netLine := by
        refine List.filter_eq_self.2 fun l hl => ?_
        obtain ⟨e, he, rfl⟩ := List.mem_map.1 hl
        exact netLine_moves (by simpa using (List.mem_filter.1 he).2)
      refine ⟨net.map netLine, ?_, honce⟩
      rw [emitRoleLines_of_whole hlines honce.balanced, hmoves]

/-- Stock on an account and what is owed for it. -/
def stockOwed (account : String) (amount : ℚ) : List RoleLine :=
  [⟨⟨account, amount, 0, none⟩, some ["inventory_purchased"]⟩,
    ⟨⟨"2110", 0, amount, none⟩, some ["accounts_payable"]⟩]

/-- The entry of stock worth a whole amount. -/
def stockEntry (account : String) (amount : ℚ) (hwhole : IsWhole c amount) : BalancedEntry c where
  lines := stockOwed account amount
  whole := by
    intro l hl
    rcases List.mem_pair.1 hl with rfl | rfl
    · exact ⟨hwhole, isWhole_zero c⟩
    · exact ⟨isWhole_zero c, hwhole⟩
  balanced := by simp [stockOwed, exchangeGap]

/-- A bill for 100 of stock, after a receipt of 60 of it on another stock account, posts the 40
    not received yet, and the receipt's account keeps its 60. -/
theorem billed_once_partial :
    createForBillConversion (fun _ => []) "USD" (stockOwed "1130" 100) [stockOwed "1131" 60] =
      some (stockOwed "1130" 40) ∧
    BilledOnce (fun _ => []) (stockOwed "1130" 100) (stockOwed "1130" 40) [stockOwed "1131" 60] := by
  have hbill : IsWhole "USD" 100 := isWhole_iff_roundMoney_eq.2 (by decide +kernel)
  have hreceipt : IsWhole "USD" 60 := isWhole_iff_roundMoney_eq.2 (by decide +kernel)
  have hposted : createForBillConversion (fun _ => []) "USD" (stockOwed "1130" 100) [stockOwed "1131" 60] =
      some (stockOwed "1130" 40) := by decide +kernel
  obtain ⟨posted, hsome, honce⟩ :=
    billed_once (fun _ => []) "USD" (stockEntry "1130" 100 hbill) [stockEntry "1131" 60 hreceipt]
  obtain rfl : stockOwed "1130" 40 = posted := Option.some.inj (hposted.symm.trans hsome)
  exact ⟨hposted, honce⟩

/-- A bill for 80 of stock, whose goods were received for 100 and then 20 of them put back
    from another account. -/
def returnedReceipts : List (List RoleLine) :=
  [[⟨⟨"1130", 100, 0, none⟩, some ["inventory_purchased"]⟩,
      ⟨⟨"2110", 0, 100, none⟩, some ["accounts_payable"]⟩],
    [⟨⟨"2110", 20, 0, none⟩, some ["accounts_payable"]⟩,
      ⟨⟨"1131", 0, 20, none⟩, some ["inventory_purchased"]⟩]]

@[inherit_doc returnedReceipts]
def returnedBill : List RoleLine :=
  [⟨⟨"1130", 80, 0, none⟩, some ["inventory_purchased"]⟩,
    ⟨⟨"2110", 0, 80, none⟩, some ["accounts_payable"]⟩]

/-- The bill books the 80 its receipts booked of purchased inventory, and takes 20 off the
    100 they booked on the first account. -/
theorem billed_moved :
    exchangeGap (returnedBill.map (·.toLine)) = 0 ∧
    (∀ lines ∈ returnedReceipts, exchangeGap (lines.map (·.toLine)) = 0) ∧
    movedOn (fun _ => []) (InGroup LOT_ROLES) returnedReceipts.flatten = 80 ∧
    movedOn (fun _ => []) (InGroup LOT_ROLES) returnedBill = 80 ∧
    movedOn (fun _ => []) (· = ("1130", ["inventory_purchased"])) returnedReceipts.flatten = 100 ∧
    (createForBillConversion (fun _ => []) "USD" returnedBill returnedReceipts).map
      (movedOn (fun _ => []) (· = ("1130", ["inventory_purchased"]))) = some (-20) := by
  decide +kernel

end

end Celerp
