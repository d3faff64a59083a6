/-
  The entry of a production run movement (`create_for_mfg_movement` in
  `celerp/services/auto_je.py`): what it moves on each account.

  `movedBy` is what a movement moves on an account; its entry moves exactly that
  (`post_ok`), on the account the work in progress is kept on (`keepWip_ok`).  `movedBy_neg`:
  amounts turned around are moved back, where the waste goes to the account it came from.
-/
import Celerp.Lib.Tally
import Celerp.Manufacturing.PlantSteps

namespace Celerp

open AccountRole Outcome

/-- What the lines of entries move on an account. -/
def netMoved (account : String) (entries : List RunEntry) : ℚ :=
  net account ((entries.flatMap (·.lines)).map (·.toLine))

/-- What a movement moves on an account: the lots' values, the work in progress on the account
    it is kept on, and the waste. -/
def movedBy (currency : String) (wipCode : Option String) (wip : ℚ) (lots : List (String × ℚ)) (cogsCode : String)
    (waste : ℚ) (account : String) : ℚ :=
  (lots.map fun p => if (splitPartyKey p.1).1 = account then roundMoney p.2 currency else 0).sum +
    (if wipCode.getD "" = account then roundMoney wip currency else 0) +
    if cogsCode = account then roundMoney waste currency else 0

section
variable {b : RunBooks} {c currency account movement cogsCode cogsCode' : String} {wipCode : Option String}
  {v wip waste : ℚ} {lots : List (String × ℚ)} {entries more : List RunEntry} {role : AccountRole}

@[simp] theorem netMoved_nil : netMoved account [] = 0 := rfl

@[simp] theorem netMoved_append : netMoved account (entries ++ more) = netMoved account entries + netMoved account more := by
  simp [netMoved]

theorem netMoved_single (lines : List PartyLine) : netMoved account [⟨movement, lines⟩] = net account (lines.map (·.toLine)) := by
  simp [netMoved]

/-- A side of an entry is the amount, rounded. -/
theorem round_side (v : ℚ) (c : String) : roundMoney (sideDebit v) c - roundMoney (sideCredit v) c = roundMoney v c := by
  unfold sideDebit sideCredit
  split_ifs with hpos
  · rw [abs_of_pos hpos, roundMoney_zero, sub_zero]
  · rw [abs_of_nonpos (not_lt.1 hpos), roundMoney_neg, roundMoney_zero, sub_neg_eq_add, zero_add]

theorem net_round (lines : List PartyLine) :
    net account ((lines.map (·.round c)).map (·.toLine)) =
      (lines.map fun l => if l.account = account then roundMoney l.debit c - roundMoney l.credit c else 0).sum := by
  induction lines with
  | nil => rfl
  | cons l lines ih =>
    rw [List.map_cons, List.map_cons, net_cons, ih, List.map_cons, List.sum_cons]
    rfl

/-- The entry of lines moves what they come to, each rounded. -/
theorem net_of_emitParty {lines posted : List PartyLine} (h : emitParty c lines = some posted) :
    net account (posted.map (·.toLine)) =
      (lines.map fun l => if l.account = account then roundMoney l.debit c - roundMoney l.credit c else 0).sum := by
  unfold emitParty at h
  dsimp only at h
  split_ifs at h
  rw [← Option.some.inj h, ← net_round]
  have hfilter : ∀ l : List PartyLine, (l.filter (·.moves)).map (·.toLine) = (l.map (·.toLine)).filter (·.moves) := by
    intro l
    rw [List.filter_map]
    rfl
  rw [hfilter, net_filter_moves]

/-- What is posted balances. -/
theorem balanced_of_emitParty {lines posted : List PartyLine} (h : emitParty c lines = some posted) :
    exchangeGap (posted.map (·.toLine)) = 0 := by
  unfold emitParty at h
  dsimp only at h
  split_ifs at h with hgap
  rw [← Option.some.inj h]
  exact hgap

/-- The lines of a movement come to what it moves. -/
theorem sum_movementLines (roles : PostingRoles) :
    ((movementLines roles wipCode wip lots cogsCode waste).map fun l =>
      if l.account = account then roundMoney l.debit c - roundMoney l.credit c else 0).sum =
        movedBy c wipCode wip lots cogsCode waste account := by
  have hlots : ((((lots.insertionSort fun a b => a.1 ≤ b.1).filter fun p => p.2 ≠ 0).map fun p =>
        roles.lotLine p.1 (sideDebit p.2) (sideCredit p.2)).map fun l =>
          if l.account = account then roundMoney l.debit c - roundMoney l.credit c else 0).sum =
      (lots.map fun p => if (splitPartyKey p.1).1 = account then roundMoney p.2 c else 0).sum := by
    rw [List.map_map]
    have hline : ((fun l : PartyLine => if l.account = account then roundMoney l.debit c - roundMoney l.credit c else 0) ∘
        fun p : String × ℚ => roles.lotLine p.1 (sideDebit p.2) (sideCredit p.2)) =
        fun p => if (splitPartyKey p.1).1 = account then roundMoney p.2 c else 0 := by
      funext p
      simp only [Function.comp_apply, PostingRoles.lotLine, PostingRoles.originLine, round_side]
    have hnone : ∀ p ∈ lots.insertionSort fun a b => a.1 ≤ b.1, ¬decide (p.2 ≠ 0) →
        (if (splitPartyKey p.1).1 = account then roundMoney p.2 c else 0) = 0 := by
      intro p _ hp
      have hzero : p.2 = 0 := by simpa using hp
      rw [hzero, roundMoney_zero, ite_self]
    rw [hline, Tally.sum_filter_of_zero hnone]
    exact ((List.perm_insertionSort _ lots).map _).sum_eq
  have hside : ∀ (code : String) (role : AccountRole) (v : ℚ),
      ((if v ≠ 0 then [sideLine code role v] else []).map fun l =>
        if l.account = account then roundMoney l.debit c - roundMoney l.credit c else 0).sum =
      if code = account then roundMoney v c else 0 := by
    intro code role v
    split_ifs with hv hcode hcode
    · simp [sideLine, hcode, round_side]
    · simp [sideLine, hcode]
    · rw [not_not.1 hv, roundMoney_zero]
      rfl
    · rfl
  unfold movementLines movedBy
  rw [List.map_append, List.map_append, List.sum_append, List.sum_append, hlots, hside, hside]

theorem resolve_ok (h : b.resolve role = .ok c) : b.roles.roleMap.lookup role = some c := by
  unfold RunBooks.resolve at h
  cases hrole : b.roles.roleMap.lookup role with
  | none =>
    rw [hrole] at h
    cases h
  | some code =>
    rw [hrole] at h
    dsimp only at h
    split_ifs at h
    rw [Except.ok.inj h]

theorem wasteAccount_ok (h : b.wasteAccount waste = .ok c) (hne : waste ≠ 0) : b.roles.roleMap.lookup cogs = some c := by
  unfold RunBooks.wasteAccount at h
  rw [if_pos hne] at h
  exact resolve_ok h

/-- **The entry of a movement** moves what the movement does, and balances; nothing is posted
    where Accounting is off. -/
theorem post_ok (h : b.post currency movement wipCode wip lots waste = .ok entries) :
    if b.on then ∃ cogsCode, (waste ≠ 0 → b.roles.roleMap.lookup cogs = some cogsCode) ∧
      (∀ account, netMoved account entries = movedBy currency wipCode wip lots cogsCode waste account) ∧
      ∀ e ∈ entries, exchangeGap (e.lines.map (·.toLine)) = 0
    else entries = [] := by
  unfold RunBooks.post at h
  split_ifs at h ⊢ with hon
  · unfold createForMfgMovement at h
    obtain ⟨cogsCode, hcogs, h⟩ := bind_eq_ok.1 h
    refine ⟨cogsCode, wasteAccount_ok hcogs, ?_⟩
    dsimp only at h
    by_cases hlines : movementLines b.roles wipCode wip lots cogsCode waste = []
    · rw [if_pos hlines] at h
      obtain rfl : [] = entries := Except.ok.inj h
      refine ⟨fun account => ?_, fun e he => absurd he List.not_mem_nil⟩
      rw [← sum_movementLines b.roles, hlines]
      rfl
    · rw [if_neg hlines] at h
      cases hposted : emitParty currency (movementLines b.roles wipCode wip lots cogsCode waste) with
      | none =>
        rw [hposted] at h
        cases h
      | some posted =>
        rw [hposted] at h
        obtain rfl : [⟨movement, posted⟩] = entries := Except.ok.inj h
        refine ⟨fun account => ?_, fun e he => ?_⟩
        · rw [netMoved_single, net_of_emitParty hposted, sum_movementLines]
        · obtain rfl := List.mem_singleton.1 he
          exact balanced_of_emitParty hposted
  · exact (Except.ok.inj h).symm

/-- The work in progress keeps moving on its account. -/
theorem keepWip_ok {moves : Bool} {code code' : Option String} (h : b.keepWip moves code = .ok code') : code' = code := by
  unfold RunBooks.keepWip at h
  split_ifs at h
  · obtain ⟨kept, hkept, rfl⟩ := map_eq_ok.1 h
    unfold RunBooks.continueRole at hkept
    cases code with
    | none => cases hkept
    | some code =>
      dsimp only at hkept
      split_ifs at hkept
      rw [Except.ok.inj hkept]
  · exact (Except.ok.inj h).symm

/-- **Amounts turned around are moved back**, but for the waste, which goes to the account it
    is told to. -/
theorem movedBy_neg (account : String) :
    movedBy c wipCode (-wip) (lots.map fun p => (p.1, -p.2)) cogsCode' (-waste) account =
      -movedBy c wipCode wip lots cogsCode waste account +
        ((if cogsCode = account then roundMoney waste c else 0) - if cogsCode' = account then roundMoney waste c else 0) := by
  have hlots : ((lots.map fun p => (p.1, -p.2)).map fun p =>
      if (splitPartyKey p.1).1 = account then roundMoney p.2 c else 0).sum =
      -(lots.map fun p => if (splitPartyKey p.1).1 = account then roundMoney p.2 c else 0).sum := by
    induction lots with
    | nil => simp
    | cons p lots ih =>
      simp only [List.map_cons, List.sum_cons, ih, roundMoney_neg]
      split_ifs <;> ring
  unfold movedBy
  rw [hlots, roundMoney_neg, roundMoney_neg]
  split_ifs <;> ring

end

end Celerp
