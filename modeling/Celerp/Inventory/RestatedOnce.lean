/-
  A correction reaches every merge result once (`celerp_inventory/services.py`).

  `Walked` is the walk of a correction along the merged lots, step by step; what it
  restates follows by induction on it: each lot once (`Walked.nodup`), along the merges
  (`Walked.trail`), each by the same amount (`Walked.corrected`), stopping early only where
  there is nothing more to carry (`Walked.stops`).
-/
import Celerp.Inventory.Restatement

namespace Celerp

open Outcome Pointers

/-! ## A cost written to a merge result -/

section
variable {round : ℚ → ℚ} {s : ItemState} {t : ℚ} {unknown : Option Bool}

/-- A cost adjusted is the goods cost of the lot. -/
theorem applyItemEvent_costAdjusted (round : ℚ → ℚ) (s : ItemState) (t : ℚ) (unknown : Option Bool) :
    ∃ after, applyItemEvent round s (.costAdjusted t unknown) = some after ∧ after.goodsBasis = some (roundBasis t) ∧
      after.goodsCostUnknown = unknown.getD s.goodsCostUnknown := by
  refine ⟨_, rfl, ?_, ?_⟩
  · simp [ItemState.setUnknown, ItemState.recomputeCost, ItemState.recomputedBase, LotCost.goodsBasis]
  · simp [ItemState.setUnknown, ItemState.recomputeCost, ItemState.recomputedBase, ItemState.landedPoolsFromUnits]

end

theorem onBasis_goodsBasis_getD (s : LotCost) : OnBasis (s.goodsBasis.getD 0) := by
  unfold LotCost.goodsBasis
  cases s.costBase.or s.costTotal with
  | none => exact onBasis_zero
  | some v => exact onBasis_roundBasis v

theorem basisOrConflict_ok {s : LotCost} {label : String} {basis : ℚ} (h : basisOrConflict s label = .ok basis) :
    basis = s.goodsBasis.getD 0 := by
  unfold basisOrConflict at h
  cases hbasis : s.goodsBasis with
  | some v =>
    rw [hbasis] at h
    exact (Except.ok.inj h).symm
  | none =>
    rw [hbasis] at h
    dsimp only at h
    split_ifs at h
    exact (Except.ok.inj h).symm

namespace LotBooks

/-! ## The walk -/

/-- The lot a merged lot of the books went into. -/
def mergedTo (b : LotBooks) (id : String) : Option String := (b.get? id).bind fun lot => mergedNext lot.state

/-- The state of a lot. -/
def stateOf (b : LotBooks) (id : String) : ItemState := ((b.get? id).map (·.state)).getD .empty

/-- The goods cost of a lot, 0 where it carries none. -/
def basisOf (b : LotBooks) (id : String) : ℚ := (b.stateOf id).goodsBasis.getD 0

/-- A lot that a change without value leaves as it is: it can no longer be restated, its
    cost is its own, or its goods cost is known or not as its parts make it. -/
def Settled (b : LotBooks) (prevId : String) (prevState : ItemState) (id : String) (lot : CostedLot) : Prop :=
  b.costCanBeRestated id lot = false ∨ mergeParts lot.history = none ∨
    ∃ parts, mergeParts lot.history = some parts ∧ b.partsKnown prevId prevState parts = lot.state.goodsCostKnown

/-- A merge result restated by a change, after the lot it was carried from. -/
structure Restated (b : LotBooks) (delta : ℚ) (prevId : String) (prevState : ItemState) (c : Carried) : Prop where
  found : b.get? c.lotId = some c.before
  applied : applyItemEvent roundBasis c.before.state (.costAdjusted c.costTotal c.unknown) = some c.after
  basis : c.after.goodsBasis = some (c.before.state.goodsBasis.getD 0 + delta)
  nonneg : 0 ≤ c.before.state.goodsBasis.getD 0 + delta
  known : ∀ parts, mergeParts c.before.history = some parts →
    c.after.goodsCostKnown = b.partsKnown prevId prevState parts

/-- The walk of a change of value `delta` from a lot, given the lot to look at next and
    those seen. -/
inductive Walked (b : LotBooks) (delta : ℚ) : List String → String → ItemState → Option String → List Carried → Prop
  | done {seen prevId prevState} : Walked b delta seen prevId prevState none []
  | stop {seen prevId prevState nextId lot} (hseen : nextId ∉ seen) (hlot : b.get? nextId = some lot)
      (hdelta : delta = 0) (hsettled : b.Settled prevId prevState nextId lot) :
      Walked b delta seen prevId prevState (some nextId) []
  | step {seen prevId prevState c rest} (hseen : c.lotId ∉ seen) (hrestated : b.Restated delta prevId prevState c)
      (hlinked : c.before.state.status.toLower = "merged" → mergedNext c.before.state ≠ none)
      (hrest : Walked b delta (c.lotId :: seen) c.lotId c.after (mergedNext c.before.state) rest) :
      Walked b delta seen prevId prevState (some c.lotId) (c :: rest)

section
variable {b : LotBooks} {delta : ℚ} {label : String} {fuel : ℕ} {seen : List String} {prevId current : String}
  {prevState : ItemState} {next : Option String} {carried : List Carried}

theorem nextLot_ok {s : ItemState} (h : nextLot label s = .ok next) :
    next = mergedNext s ∧ (s.status.toLower = "merged" → mergedNext s ≠ none) := by
  unfold nextLot at h
  split_ifs at h with hlink
  exact ⟨(Except.ok.inj h).symm, fun hmerged hnone => hlink ⟨hmerged, hnone⟩⟩

/-- What a walk that is not refused carries. -/
theorem walked_of_carry (hdelta : OnBasis delta) :
    ∀ {fuel : ℕ} {seen : List String} {prevId current : String} {prevState : ItemState} {next : Option String}
      {carried : List Carried}, b.carry delta label fuel seen prevId prevState current next = .ok carried →
      b.Walked delta seen prevId prevState next carried := by
  intro fuel
  induction fuel with
  | zero =>
    intro seen prevId current prevState next carried h
    cases next with
    | none =>
      rw [carry] at h
      rw [← Except.ok.inj h]
      exact .done
    | some nextId => cases h
  | succ fuel ih =>
    intro seen prevId current prevState next carried h
    cases next with
    | none =>
      rw [carry] at h
      rw [← Except.ok.inj h]
      exact .done
    | some nextId =>
      rw [carry] at h
      by_cases hseen : nextId ∈ seen
      · rw [if_pos hseen] at h
        cases h
      rw [if_neg hseen] at h
      cases hlot : b.get? nextId with
      | none =>
        rw [hlot] at h
        cases h
      | some lot =>
        rw [hlot] at h
        dsimp only at h
        by_cases hcan : b.costCanBeRestated nextId lot
        · rw [hcan, Bool.not_true, if_neg Bool.false_ne_true] at h
          obtain ⟨basis, hbasis, h⟩ := bind_eq_ok.1 h
          obtain rfl := basisOrConflict_ok hbasis
          by_cases hnegative : lot.state.goodsBasis.getD 0 + delta < 0
          · rw [if_pos hnegative] at h
            cases h
          rw [if_neg hnegative] at h
          by_cases hunmoved : Unmoved delta
              ((mergeParts lot.history).map fun parts => !b.partsKnown prevId prevState parts) lot.state
          · rw [if_pos hunmoved] at h
            rw [← Except.ok.inj h]
            refine .stop hseen hlot hunmoved.1 (.inr ?_)
            have hknown := hunmoved.2
            cases hparts : mergeParts lot.history with
            | none => exact .inl rfl
            | some parts =>
              rw [hparts] at hknown
              exact .inr ⟨parts, rfl, by simpa using hknown⟩
          · rw [if_neg hunmoved] at h
            obtain ⟨after, happlied, hafter, hunknown⟩ := applyItemEvent_costAdjusted roundBasis lot.state
              (roundBasis (lot.state.goodsBasis.getD 0 + delta))
              ((mergeParts lot.history).map fun parts => !b.partsKnown prevId prevState parts)
            rw [happlied] at h
            dsimp only at h
            obtain ⟨next, hnext, h⟩ := bind_eq_ok.1 h
            obtain ⟨hmergedNext, hlinked⟩ := nextLot_ok hnext
            rw [hmergedNext] at h
            obtain ⟨rest, hrest, h⟩ := bind_eq_ok.1 h
            rw [← Except.ok.inj h]
            have honBasis : OnBasis (lot.state.goodsBasis.getD 0 + delta) := (onBasis_goodsBasis_getD _).add hdelta
            refine .step (c := ⟨nextId, lot, after, _, _⟩) hseen
              ⟨hlot, happlied, ?_, not_lt.1 hnegative, fun parts hparts => ?_⟩ hlinked (ih hrest)
            · rw [hafter, roundBasis_of_onBasis (onBasis_roundBasis _), roundBasis_of_onBasis honBasis]
            · dsimp only at hparts
              rw [hparts] at hunknown
              unfold LotCost.goodsCostKnown
              rw [hunknown, hafter]
              simp
        · rw [Bool.not_eq_true] at hcan
          rw [hcan, Bool.not_false, if_pos rfl] at h
          by_cases hzero : delta = 0
          · rw [if_pos hzero] at h
            rw [← Except.ok.inj h]
            exact .stop hseen hlot hzero (.inl hcan)
          · rw [if_neg hzero] at h
            cases h

/-! ## What a walk restates -/

theorem Walked.nodup (h : b.Walked delta seen prevId prevState next carried) :
    (carried.map (·.lotId)).Nodup ∧ ∀ c ∈ carried, c.lotId ∉ seen := by
  induction h with
  | done => exact ⟨List.nodup_nil, fun c hc => absurd hc List.not_mem_nil⟩
  | stop => exact ⟨List.nodup_nil, fun c hc => absurd hc List.not_mem_nil⟩
  | step hseen _ _ _ ih =>
    obtain ⟨hnodup, hrest⟩ := ih
    constructor
    · rw [List.map_cons, List.nodup_cons]
      refine ⟨fun hmem => ?_, hnodup⟩
      obtain ⟨d, hd, hid⟩ := List.mem_map.1 hmem
      exact hrest d hd (by rw [hid]; exact List.mem_cons_self)
    · intro d hd
      rcases List.mem_cons.1 hd with rfl | hd
      · exact hseen
      · intro hmem
        exact hrest d hd (List.mem_cons_of_mem _ hmem)

theorem mergedTo_of_get? {l : String} {lot : CostedLot} (h : b.get? l = some lot) :
    b.mergedTo l = mergedNext lot.state := by
  simp [mergedTo, h]

theorem stateOf_of_get? {l : String} {lot : CostedLot} (h : b.get? l = some lot) : b.stateOf l = lot.state := by
  simp [stateOf, h]

/-- The lots restated are a piece of the merges from the lot corrected. -/
theorem Walked.chain (h : b.Walked delta seen prevId prevState next carried) (hnext : b.mergedTo prevId = next) :
    (prevId :: carried.map (·.lotId)).IsChain (Goes b.mergedTo) := by
  induction h with
  | done => exact List.isChain_singleton _
  | stop => exact List.isChain_singleton _
  | step _ hrestated _ _ ih =>
    rw [List.map_cons, List.isChain_cons_cons]
    exact ⟨hnext, ih (mergedTo_of_get? hrestated.found)⟩

/-- No lot on the walk was merged into a lot seen before it. -/
theorem Walked.not_goes_seen (h : b.Walked delta seen prevId prevState next carried) (hnext : b.mergedTo prevId = next) :
    ∀ a ∈ prevId :: carried.map (·.lotId), ∀ l ∈ seen, ¬Goes b.mergedTo a l := by
  induction h with
  | done =>
    intro a ha l _ hgoes
    rw [List.map_nil, List.mem_singleton] at ha
    rw [Goes, ha, hnext] at hgoes
    cases hgoes
  | stop hseen =>
    intro a ha l hl hgoes
    rw [List.map_nil, List.mem_singleton] at ha
    rw [Goes, ha, hnext] at hgoes
    rw [Option.some.inj hgoes] at hseen
    exact hseen hl
  | step hseen hrestated _ _ ih =>
    intro a ha l hl hgoes
    rcases List.mem_cons.1 ha with rfl | ha
    · rw [Goes, hnext] at hgoes
      rw [Option.some.inj hgoes] at hseen
      exact hseen hl
    · exact ih (mergedTo_of_get? hrestated.found) a ha l (List.mem_cons_of_mem _ hl) hgoes

/-- Each result on the walk is restated after the lot before it, as that lot is left. -/
theorem Walked.restated (h : b.Walked delta seen prevId prevState next carried) (hnext : b.mergedTo prevId = next)
    {state : String → ItemState} (hprev : state prevId = prevState) (hstate : ∀ c ∈ carried, state c.lotId = c.after) :
    ∀ c ∈ carried, ∀ a ∈ prevId :: carried.map (·.lotId), Goes b.mergedTo a c.lotId →
      b.Restated delta a (state a) c := by
  induction h with
  | done => exact fun c hc => absurd hc List.not_mem_nil
  | stop => exact fun c hc => absurd hc List.not_mem_nil
  | @step seen prevId prevState first rest hseen hrestated _ hrest ih =>
    intro c hc a ha hgoes
    have hfirst := mergedTo_of_get? hrestated.found
    rcases List.mem_cons.1 ha with rfl | ha
    · rw [Goes, hnext] at hgoes
      have hid : first.lotId = c.lotId := Option.some.inj hgoes
      rcases List.mem_cons.1 hc with rfl | hc
      · rw [hprev]
        exact hrestated
      · exact absurd (hid ▸ List.mem_cons_self) (hrest.nodup.2 c hc)
    · rcases List.mem_cons.1 hc with rfl | hc
      · exact absurd hgoes (hrest.not_goes_seen hfirst a ha _ List.mem_cons_self)
      · exact ih hfirst (hstate _ List.mem_cons_self) (fun d hd => hstate d (List.mem_cons_of_mem _ hd)) c hc a ha hgoes

/-- Where a walk ends: at a lot that was not merged, or with no value to carry in front of a
    lot that a change without value leaves as it is. -/
theorem Walked.ends (h : b.Walked delta seen prevId prevState next carried) (hnext : b.mergedTo prevId = next)
    (hlinked : (b.stateOf prevId).status.toLower = "merged" → next ≠ none) {state : String → ItemState}
    (hprev : state prevId = prevState) (hstate : ∀ c ∈ carried, state c.lotId = c.after) :
    ∀ l ∈ (prevId :: carried.map (·.lotId)).getLast?, (b.stateOf l).status.toLower ≠ "merged" ∨
      delta = 0 ∧ ∃ n lot, Goes b.mergedTo l n ∧ n ∉ seen ∧ n ∉ carried.map (·.lotId) ∧ b.get? n = some lot ∧
        b.Settled l (state l) n lot := by
  induction h with
  | done =>
    intro l hl
    obtain rfl : _ = l := Option.some.inj hl
    refine .inl fun hmerged => ?_
    exact hlinked hmerged rfl
  | @stop seen prevId prevState nextId lot hseen hlot hdelta hsettled =>
    intro l hl
    obtain rfl : prevId = l := Option.some.inj hl
    rw [← hprev] at hsettled
    exact .inr ⟨hdelta, nextId, lot, hnext, hseen, List.not_mem_nil, hlot, hsettled⟩
  | @step seen prevId prevState c rest hseen hrestated hlink _ ih =>
    intro l hl
    rw [List.map_cons, List.getLast?_cons_cons] at hl
    have hlink' : (b.stateOf c.lotId).status.toLower = "merged" → mergedNext c.before.state ≠ none := by
      rw [stateOf_of_get? hrestated.found]
      exact hlink
    rcases ih (mergedTo_of_get? hrestated.found) hlink' (hstate _ List.mem_cons_self)
      (fun d hd => hstate d (List.mem_cons_of_mem _ hd)) l hl with hmerged | ⟨hdelta, n, lot, hgoes, hn, hrest, hlot, hsettled⟩
    · exact .inl hmerged
    · rw [List.mem_cons, not_or] at hn
      refine .inr ⟨hdelta, n, lot, hgoes, hn.2, ?_, hlot, hsettled⟩
      rw [List.map_cons, List.mem_cons, not_or]
      exact ⟨hn.1, hrest⟩

theorem Walked.exists_restated (h : b.Walked delta seen prevId prevState next carried) :
    ∀ c ∈ carried, ∃ a s, b.Restated delta a s c := by
  induction h with
  | done => exact fun c hc => absurd hc List.not_mem_nil
  | stop => exact fun c hc => absurd hc List.not_mem_nil
  | step _ hrestated _ _ ih =>
    intro c hc
    rcases List.mem_cons.1 hc with rfl | hc
    · exact ⟨_, _, hrestated⟩
    · exact ih c hc

theorem mem_ids_of_get? {l : String} {lot : CostedLot} (h : b.get? l = some lot) : l ∈ b.lots.map Prod.fst := by
  by_contra hmem
  have : b.lots.lookup l = none := by
    rw [List.lookup_eq_none_iff]
    intro p hp
    rw [bne_iff_ne]
    rintro rfl
    exact hmem (List.mem_map_of_mem hp)
  rw [get?, this] at h
  cases h

theorem basisOrConflict_ne_exhausted (s : LotCost) : basisOrConflict s label ≠ .error .exhausted := by
  intro h
  unfold basisOrConflict at h
  cases hbasis : s.goodsBasis with
  | some v =>
    rw [hbasis] at h
    cases h
  | none =>
    rw [hbasis] at h
    dsimp only at h
    split_ifs at h
    cases Except.error.inj h

theorem nextLot_ne_exhausted (s : ItemState) : nextLot label s ≠ .error .exhausted := by
  intro h
  unfold nextLot at h
  split_ifs at h
  cases Except.error.inj h

/-- The walk comes to an end: it meets no more lots than there are. -/
theorem carry_ne_exhausted :
    ∀ {fuel : ℕ} {seen : List String} {prevId current : String} {prevState : ItemState} {next : Option String},
      unseen (b.lots.map Prod.fst) seen ≤ fuel →
      b.carry delta label fuel seen prevId prevState current next ≠ .error .exhausted := by
  intro fuel
  induction fuel with
  | zero =>
    intro seen prevId current prevState next hfuel
    exact absurd hfuel (by simp [unseen])
  | succ fuel ih =>
    intro seen prevId current prevState next hfuel h
    cases next with
    | none =>
      rw [carry] at h
      cases h
    | some nextId =>
      rw [carry] at h
      by_cases hseen : nextId ∈ seen
      · rw [if_pos hseen] at h
        cases Except.error.inj h
      rw [if_neg hseen] at h
      cases hlot : b.get? nextId with
      | none =>
        rw [hlot] at h
        cases Except.error.inj h
      | some lot =>
        rw [hlot] at h
        dsimp only at h
        by_cases hcan : b.costCanBeRestated nextId lot
        case neg =>
          rw [Bool.not_eq_true] at hcan
          rw [hcan, Bool.not_false, if_pos rfl] at h
          split_ifs at h
          cases Except.error.inj h
        rw [hcan, Bool.not_true, if_neg Bool.false_ne_true] at h
        rcases bind_eq_error.1 h with h | ⟨basis, hbasis, h⟩
        · exact basisOrConflict_ne_exhausted _ h
        by_cases hnegative : basis + delta < 0
        · rw [if_pos hnegative] at h
          cases Except.error.inj h
        rw [if_neg hnegative] at h
        by_cases hunmoved : Unmoved delta
            ((mergeParts lot.history).map fun parts => !b.partsKnown prevId prevState parts) lot.state
        · rw [if_pos hunmoved] at h
          cases h
        rw [if_neg hunmoved] at h
        cases happlied : applyItemEvent roundBasis lot.state (.costAdjusted (roundBasis (basis + delta))
            ((mergeParts lot.history).map fun parts => !b.partsKnown prevId prevState parts)) with
        | none =>
          rw [happlied] at h
          cases Except.error.inj h
        | some after =>
          rw [happlied] at h
          dsimp only at h
          rcases bind_eq_error.1 h with h | ⟨next, -, h⟩
          · exact nextLot_ne_exhausted _ h
          rcases bind_eq_error.1 h with h | ⟨rest, -, h⟩
          · have hless := unseen_cons_lt (mem_ids_of_get? hlot) hseen
            exact ih (by omega) h
          · cases h

end

/-! ## What is written -/

section
variable {b : LotBooks} {id l : String} {row : HistoryRow} {lot : CostedLot}

/-- A lot after an event is written to it. -/
def written (row : HistoryRow) (lot : CostedLot) : CostedLot :=
  { lot with
    state := (applyItemEvent roundBasis lot.state row.event).getD lot.state
    history := lot.history ++ [row] }

theorem get?_write (b : LotBooks) (id : String) (row : HistoryRow) (l : String) :
    (b.write id row).get? l = if l = id then (b.get? l).map (written row) else b.get? l := by
  unfold get? write
  dsimp only
  induction b.lots with
  | nil => simp
  | cons p lots ih =>
    obtain ⟨k, lot⟩ := p
    rw [List.map_cons, List.lookup_cons, List.lookup_cons]
    by_cases hk : k = id
    · subst hk
      rw [if_pos rfl]
      by_cases hl : l = k
      · simp [hl, written]
      · simpa [hl, beq_eq_false_iff_ne.2 hl] using ih
    · rw [if_neg hk]
      by_cases hl : l = k
      · subst hl
        simp [hk]
      · simpa [hl, beq_eq_false_iff_ne.2 hl] using ih

theorem get?_write_of_ne (h : l ≠ id) : (b.write id row).get? l = b.get? l := by
  rw [get?_write, if_neg h]

theorem get?_write_self (h : b.get? id = some lot) : (b.write id row).get? id = some (written row lot) := by
  rw [get?_write, if_pos rfl, h]
  rfl

/-- The writes of a correction to the results it is carried into. -/
def writeCarried (b : LotBooks) (id : String) (carried : List Carried) : LotBooks :=
  carried.foldl (fun b c => b.write c.lotId (c.row id)) b

theorem get?_writeCarried_of_notMem {carried : List Carried} (h : ∀ c ∈ carried, l ≠ c.lotId) :
    (b.writeCarried id carried).get? l = b.get? l := by
  induction carried generalizing b with
  | nil => rfl
  | cons c carried ih =>
    have hrest := ih (b := b.write c.lotId (c.row id)) fun d hd => h d (List.mem_cons_of_mem _ hd)
    rw [writeCarried, List.foldl_cons]
    rw [writeCarried] at hrest
    rw [hrest, get?_write_of_ne (h c List.mem_cons_self)]

theorem get?_writeCarried {carried : List Carried} (hnodup : (carried.map (·.lotId)).Nodup)
    (hfound : ∀ c ∈ carried, b.get? c.lotId = some c.before) :
    ∀ c ∈ carried, (b.writeCarried id carried).get? c.lotId = some (written (c.row id) c.before) := by
  induction carried generalizing b with
  | nil => exact fun c hc => absurd hc List.not_mem_nil
  | cons first carried ih =>
    intro c hc
    rw [List.map_cons, List.nodup_cons] at hnodup
    have hne : ∀ d ∈ carried, d.lotId ≠ first.lotId := by
      rintro d hd heq
      exact hnodup.1 (heq ▸ List.mem_map_of_mem hd)
    have hcons : b.writeCarried id (first :: carried) = (b.write first.lotId (first.row id)).writeCarried id carried := rfl
    rw [hcons]
    rcases List.mem_cons.1 hc with rfl | hc
    · rw [get?_writeCarried_of_notMem fun d hd => (hne d hd).symm, get?_write_self (hfound _ List.mem_cons_self)]
    · refine ih hnodup.2 (fun d hd => ?_) c hc
      rw [get?_write_of_ne (hne d hd)]
      exact hfound d (List.mem_cons_of_mem _ hd)

/-- A correction carried into a merge result leaves the result's cost the merge's own. -/
theorem mergeParts_carried (c : Carried) (id : String) (history : List HistoryRow) :
    mergeParts (history ++ [c.row id]) = mergeParts history := by
  cases history with
  | nil => rfl
  | cons first rows =>
    rw [List.cons_append, mergeParts, mergeParts]
    simp [Carried.row]

/-- A goods cost written to a lot makes it the lot's own. -/
theorem mergeParts_written (history : List HistoryRow) {event : ItemEvent} (h : writesGoodsCost event) :
    mergeParts (history ++ [{ event := event }]) = none := by
  cases history with
  | nil =>
    rw [List.nil_append, mergeParts]
    split <;> simp
  | cons first rows =>
    rw [List.cons_append, mergeParts]
    split <;> simp [h]

end

/-! ## A correction -/

/-- What a correction does: the lots it restates, once each along the merges, by what the
    lot corrected changes by, as far as there is anything to carry. -/
structure CarriesCorrection (b : LotBooks) (id : String) (plan : Restatement) (b' : LotBooks) : Prop where
  once : (plan.lots id).Nodup
  chain : (plan.lots id).IsChain (Goes b.mergedTo)
  found : ∀ l ∈ plan.lots id, (b.get? l).isSome
  others : ∀ l, l ∉ plan.lots id → b'.get? l = b.get? l
  changed : ∀ l ∈ plan.lots id, b'.basisOf l = b.basisOf l + (b'.basisOf id - b.basisOf id)
  nonneg : ∀ l ∈ plan.lots id, 0 ≤ b'.basisOf l
  /-- it stops early only with no value to carry, where the lot it stops at was not changed
      at all or the next one is left as it is -/
  stops : ∀ l ∈ (plan.lots id).getLast?, (b.stateOf l).status.toLower ≠ "merged" ∨
    b'.basisOf id = b.basisOf id ∧
      ((l = id ∧ (b'.stateOf id).goodsCostKnown = (b.stateOf id).goodsCostKnown) ∨
        ∃ n lot, Goes b.mergedTo l n ∧ n ∉ plan.lots id ∧ b.get? n = some lot ∧ b.Settled l (b'.stateOf l) n lot)
  known : ∀ a ∈ plan.lots id, ∀ m ∈ plan.lots id, Goes b.mergedTo a m → m ≠ id →
    ∀ lot parts, b.get? m = some lot → mergeParts lot.history = some parts →
      (b'.stateOf m).goodsCostKnown = b.partsKnown a (b'.stateOf a) parts
  /-- a merge result that held the sum of the lots merged into it still does -/
  sums : ∀ m lot parts, b'.get? m = some lot → mergeParts lot.history = some parts → parts.Nodup →
    (∀ p, p ∈ parts ↔ Goes b.mergedTo p m) → b.basisOf m = (parts.map b.basisOf).sum →
      b'.basisOf m = (parts.map b'.basisOf).sum

section
variable {b : LotBooks} {id : String} {event : ItemEvent} {plan : Restatement} {root : CostedLot} {new : ItemState}

/-- What a plan is worked out from. -/
theorem restatement_ok (h : b.restatement id event = .ok plan) :
    ∃ root new, b.get? id = some root ∧ applyItemEvent roundBasis root.state event = some new ∧
      0 ≤ new.goodsBasis.getD 0 ∧ b.carryFrom id root new = .ok plan.carried := by
  unfold restatement at h
  cases hroot : b.get? id with
  | none =>
    rw [hroot] at h
    cases h
  | some root =>
    rw [hroot] at h
    dsimp only at h
    cases hnew : applyItemEvent roundBasis root.state event with
    | none =>
      rw [hnew] at h
      cases h
    | some new =>
      rw [hnew] at h
      dsimp only at h
      by_cases hnegative : negativeCost (writtenGoodsCosts event ++ [new.goodsBasis])
      · rw [if_pos hnegative] at h
        cases h
      rw [if_neg hnegative] at h
      by_cases hused : decide (root.state.goodsBasis ≠ new.goodsBasis) = true ∧ (!root.costIsTraceable) = true
      · rw [if_pos hused] at h
        cases h
      rw [if_neg hused] at h
      obtain ⟨carried, hcarried, h⟩ := bind_eq_ok.1 h
      have hplan : plan.carried = carried := by
        split_ifs at h
        · obtain ⟨consequences, -, h⟩ := bind_eq_ok.1 h
          rw [← Except.ok.inj h]
        · rw [← Except.ok.inj h]
      rw [hplan]
      refine ⟨root, new, rfl, hnew, ?_, hcarried⟩
      by_contra hless
      refine hnegative (List.any_eq_true.2 ⟨new.goodsBasis, by simp, ?_⟩)
      cases hbasis : new.goodsBasis with
      | none =>
        rw [hbasis] at hless
        exact absurd le_rfl hless
      | some v =>
        rw [hbasis] at hless
        simpa using hless

/-- The walk of a plan: the change of the lot's goods cost carried along the merges, or
    nothing where neither its goods cost nor its known-ness changes. -/
theorem carryFrom_ok {carried : List Carried} (h : b.carryFrom id root new = .ok carried) :
    (carried = [] ∧ (root.state.status.toLower = "merged" →
      new.goodsBasis.getD 0 = root.state.goodsBasis.getD 0 ∧ new.goodsCostKnown = root.state.goodsCostKnown)) ∨
    b.Walked (new.goodsBasis.getD 0 - root.state.goodsBasis.getD 0) [id] id new (mergedNext root.state) carried ∧
      (root.state.status.toLower = "merged" → mergedNext root.state ≠ none) := by
  unfold carryFrom at h
  dsimp only at h
  by_cases hwalks : walks root.state new
  · rw [if_pos hwalks] at h
    obtain ⟨basis, hbasis, h⟩ := bind_eq_ok.1 h
    obtain rfl := basisOrConflict_ok hbasis
    split_ifs at h
    obtain ⟨next, hnext, h⟩ := bind_eq_ok.1 h
    obtain ⟨rfl, hlinked⟩ := nextLot_ok hnext
    have honBasis := (onBasis_goodsBasis_getD new.toLotCost).sub (onBasis_goodsBasis_getD root.state.toLotCost)
    rw [roundBasis_of_onBasis honBasis] at h
    exact .inr ⟨walked_of_carry honBasis h, hlinked⟩
  · rw [if_neg hwalks] at h
    refine .inl ⟨(Except.ok.inj h).symm, fun hmerged => ?_⟩
    have hstill : ¬(root.state.goodsBasis ≠ new.goodsBasis ∨ root.state.goodsCostKnown ≠ new.goodsCostKnown) := by
      intro hmoves
      exact hwalks (by simp [walks, hmerged, hmoves])
    push Not at hstill
    exact ⟨by rw [hstill.1], hstill.2.symm⟩

theorem basisOf_of_get? {l : String} {lot : CostedLot} (h : b.get? l = some lot) :
    b.basisOf l = lot.state.goodsBasis.getD 0 := by
  rw [basisOf, stateOf_of_get? h]

/-- What a correction writes: the change to the lot, and what it is carried into. -/
theorem restateItemCost_ok {b' : LotBooks} (h : b.restateItemCost id event = .ok (plan, b')) :
    b.restatement id event = .ok plan ∧ b' = (b.write id { event := event }).writeCarried id plan.carried := by
  obtain ⟨plan', hplan, h⟩ := bind_eq_ok.1 h
  obtain ⟨rfl, rfl⟩ := Prod.mk.inj (Except.ok.inj h)
  exact ⟨hplan, rfl⟩

/-- A lot, what is written to it, what that is carried into, and the books it leaves. -/
structure Planned (b : LotBooks) (id : String) (event : ItemEvent) (root : CostedLot) (new : ItemState)
    (carried : List Carried) (b' : LotBooks) : Prop where
  hroot : b.get? id = some root
  hnew : applyItemEvent roundBasis root.state event = some new
  nonneg : 0 ≤ new.goodsBasis.getD 0
  carry : b.carryFrom id root new = .ok carried
  after : b' = (b.write id { event := event }).writeCarried id carried

end

namespace Planned

variable {b b' : LotBooks} {id : String} {event : ItemEvent} {root : CostedLot} {new : ItemState} {carried : List Carried}

theorem nodup (h : Planned b id event root new carried b') : (id :: carried.map (·.lotId)).Nodup := by
  rcases carryFrom_ok h.carry with ⟨rfl, -⟩ | ⟨hwalked, -⟩
  · exact List.nodup_singleton _
  · obtain ⟨hnodup, hseen⟩ := hwalked.nodup
    rw [List.nodup_cons]
    refine ⟨fun hmem => ?_, hnodup⟩
    obtain ⟨c, hc, hid⟩ := List.mem_map.1 hmem
    exact hseen c hc (List.mem_singleton.2 hid)

theorem chain (h : Planned b id event root new carried b') :
    (id :: carried.map (·.lotId)).IsChain (Goes b.mergedTo) := by
  rcases carryFrom_ok h.carry with ⟨rfl, -⟩ | ⟨hwalked, -⟩
  · exact List.isChain_singleton _
  · exact hwalked.chain (mergedTo_of_get? h.hroot)

theorem exists_restated (h : Planned b id event root new carried b') :
    ∀ c ∈ carried, ∃ a s, b.Restated (new.goodsBasis.getD 0 - root.state.goodsBasis.getD 0) a s c := by
  rcases carryFrom_ok h.carry with ⟨rfl, -⟩ | ⟨hwalked, -⟩
  · exact fun c hc => absurd hc List.not_mem_nil
  · exact hwalked.exists_restated

theorem found (h : Planned b id event root new carried b') : ∀ c ∈ carried, b.get? c.lotId = some c.before := by
  intro c hc
  obtain ⟨a, s, hrestated⟩ := h.exists_restated c hc
  exact hrestated.found

theorem get?_root (h : Planned b id event root new carried b') : b'.get? id = some (written { event := event } root) := by
  have hne : ∀ c ∈ carried, id ≠ c.lotId := by
    rintro c hc rfl
    exact (List.nodup_cons.1 h.nodup).1 (List.mem_map_of_mem hc)
  rw [h.after, get?_writeCarried_of_notMem hne]
  exact get?_write_self h.hroot

theorem stateOf_root (h : Planned b id event root new carried b') : b'.stateOf id = new := by
  rw [stateOf_of_get? h.get?_root, written, h.hnew]
  rfl

theorem get?_carried (h : Planned b id event root new carried b') :
    ∀ c ∈ carried, b'.get? c.lotId = some (written (c.row id) c.before) := by
  obtain ⟨hroot, hnodup⟩ := List.nodup_cons.1 h.nodup
  rw [h.after]
  refine get?_writeCarried hnodup fun c hc => ?_
  have hne : c.lotId ≠ id := by
    rintro rfl
    exact hroot (List.mem_map_of_mem hc)
  rw [get?_write_of_ne hne]
  exact h.found c hc

theorem get?_other (h : Planned b id event root new carried b') {l : String}
    (hl : l ∉ id :: carried.map (·.lotId)) : b'.get? l = b.get? l := by
  rw [List.mem_cons, not_or] at hl
  rw [h.after, get?_writeCarried_of_notMem, get?_write_of_ne hl.1]
  rintro c hc rfl
  exact hl.2 (List.mem_map_of_mem hc)

/-- A result is left as the walk read it. -/
theorem stateOf_carried (h : Planned b id event root new carried b') : ∀ c ∈ carried, b'.stateOf c.lotId = c.after := by
  intro c hc
  obtain ⟨a, s, hrestated⟩ := h.exists_restated c hc
  rw [stateOf_of_get? (h.get?_carried c hc), written, Carried.row, hrestated.applied]
  rfl

/-- A result is restated after the lot merged into it, as that lot is left. -/
theorem restated (h : Planned b id event root new carried b') :
    ∀ c ∈ carried, ∀ a ∈ id :: carried.map (·.lotId), Goes b.mergedTo a c.lotId →
      b.Restated (new.goodsBasis.getD 0 - root.state.goodsBasis.getD 0) a (b'.stateOf a) c := by
  rcases carryFrom_ok h.carry with ⟨rfl, -⟩ | ⟨hwalked, -⟩
  · exact fun c hc => absurd hc List.not_mem_nil
  · exact hwalked.restated (mergedTo_of_get? h.hroot) h.stateOf_root h.stateOf_carried

theorem ends (h : Planned b id event root new carried b') :
    ∀ l ∈ (id :: carried.map (·.lotId)).getLast?, (b.stateOf l).status.toLower ≠ "merged" ∨
      new.goodsBasis.getD 0 - root.state.goodsBasis.getD 0 = 0 ∧
        ((l = id ∧ new.goodsCostKnown = root.state.goodsCostKnown) ∨
          ∃ n lot, Goes b.mergedTo l n ∧ n ∉ id :: carried.map (·.lotId) ∧ b.get? n = some lot ∧
            b.Settled l (b'.stateOf l) n lot) := by
  intro l hl
  have hstate := stateOf_of_get? h.hroot
  rcases carryFrom_ok h.carry with ⟨rfl, hstill⟩ | ⟨hwalked, hlinked⟩
  · obtain rfl : id = l := Option.some.inj hl
    by_cases hmerged : root.state.status.toLower = "merged"
    · obtain ⟨hbasis, hknown⟩ := hstill hmerged
      exact .inr ⟨sub_eq_zero.2 hbasis, .inl ⟨rfl, hknown⟩⟩
    · exact .inl (by rwa [hstate])
  · rw [← hstate] at hlinked
    rcases hwalked.ends (mergedTo_of_get? h.hroot) (by rwa [← hstate]) h.stateOf_root h.stateOf_carried l hl with
      hmerged | ⟨hdelta, n, lot, hgoes, hseen, hn, hlot, hsettled⟩
    · exact .inl hmerged
    · refine .inr ⟨hdelta, .inr ⟨n, lot, hgoes, ?_, hlot, hsettled⟩⟩
      rw [List.mem_cons, not_or]
      exact ⟨fun heq => hseen (List.mem_singleton.2 heq), hn⟩

/-- What the goods cost of every lot changes by. -/
theorem basisOf_after (h : Planned b id event root new carried b') (l : String) :
    b'.basisOf l = b.basisOf l +
      if l ∈ id :: carried.map (·.lotId) then new.goodsBasis.getD 0 - root.state.goodsBasis.getD 0 else 0 := by
  split_ifs with hl
  · rcases List.mem_cons.1 hl with rfl | hl
    · rw [basisOf, h.stateOf_root, basisOf_of_get? h.hroot]
      ring
    · obtain ⟨c, hc, rfl⟩ := List.mem_map.1 hl
      obtain ⟨a, s, hrestated⟩ := h.exists_restated c hc
      rw [basisOf, h.stateOf_carried c hc, hrestated.basis, basisOf_of_get? hrestated.found]
      rfl
  · rw [basisOf, basisOf, stateOf, stateOf, h.get?_other hl, add_zero]

/-- The parts recorded of a result whose cost is still the merge's own are those recorded
    before, and it is not the lot corrected. -/
theorem mergeParts_before (h : Planned b id event root new carried b') (hwrites : writesGoodsCost event) {m : String}
    {lot : CostedLot} {parts : List String} (hlot : b'.get? m = some lot) (hparts : mergeParts lot.history = some parts) :
    m ≠ id ∧ ∃ before, b.get? m = some before ∧ mergeParts before.history = some parts := by
  have hne : m ≠ id := by
    rintro rfl
    rw [h.get?_root, Option.some_inj] at hlot
    subst hlot
    have hown : mergeParts (written { event := event } root).history = none := mergeParts_written _ hwrites
    rw [hown] at hparts
    cases hparts
  refine ⟨hne, ?_⟩
  by_cases hm : m ∈ id :: carried.map (·.lotId)
  · obtain ⟨c, hc, rfl⟩ := List.mem_map.1 ((List.mem_cons.1 hm).resolve_left hne)
    rw [h.get?_carried c hc, Option.some_inj] at hlot
    subst hlot
    refine ⟨c.before, h.found c hc, ?_⟩
    rwa [written, mergeParts_carried] at hparts
  · rw [h.get?_other hm] at hlot
    exact ⟨lot, hlot, hparts⟩

/-- A merge result that held the sum of the lots merged into it still does. -/
theorem sums (h : Planned b id event root new carried b') (hwrites : writesGoodsCost event) {m : String}
    {lot : CostedLot} {parts : List String} (hlot : b'.get? m = some lot) (hparts : mergeParts lot.history = some parts)
    (hnodup : parts.Nodup) (hmem : ∀ p, p ∈ parts ↔ Goes b.mergedTo p m)
    (hsum : b.basisOf m = (parts.map b.basisOf).sum) : b'.basisOf m = (parts.map b'.basisOf).sum := by
  obtain ⟨hne, before, hbefore, -⟩ := h.mergeParts_before hwrites hlot hparts
  have hchanges : (parts.map b'.basisOf).sum = (parts.map b.basisOf).sum +
      (parts.map fun p => if p ∈ id :: carried.map (·.lotId) then
        new.goodsBasis.getD 0 - root.state.goodsBasis.getD 0 else 0).sum := by
    rw [← List.sum_map_add]
    congr 1
    exact List.map_congr_left fun p _ => h.basisOf_after p
  have htrail : (parts.map fun p => if p ∈ id :: carried.map (·.lotId) then
      new.goodsBasis.getD 0 - root.state.goodsBasis.getD 0 else 0).sum =
      if m ∈ (id :: carried.map (·.lotId)).tail then new.goodsBasis.getD 0 - root.state.goodsBasis.getD 0 else 0 := by
    by_cases hzero : new.goodsBasis.getD 0 - root.state.goodsBasis.getD 0 = 0
    · simp [hzero]
    refine sum_trail h.nodup h.chain (fun l hl hgoes => ?_) hnodup hmem
    rcases h.ends l hl with hmerged | ⟨hdelta, -⟩
    · have hunmerged : b.mergedTo l = none := by
        unfold mergedTo
        cases hget : b.get? l with
        | none => rfl
        | some lot =>
          rw [stateOf_of_get? hget] at hmerged
          simp [mergedNext, hmerged]
      rw [Goes, hunmerged] at hgoes
      cases hgoes
    · exact hzero hdelta
  have hm : (m ∈ id :: carried.map (·.lotId)) ↔ m ∈ (id :: carried.map (·.lotId)).tail := by
    rw [List.tail_cons, List.mem_cons]
    exact ⟨fun hm => hm.resolve_left hne, .inr⟩
  rw [h.basisOf_after m, hchanges, htrail, hsum]
  simp only [hm]

theorem planned_of_ok {plan : Restatement} (h : b.restateItemCost id event = .ok (plan, b')) :
    ∃ root new, Planned b id event root new plan.carried b' := by
  obtain ⟨hplan, hafter⟩ := restateItemCost_ok h
  obtain ⟨root, new, hroot, hnew, hnonneg, hcarry⟩ := restatement_ok hplan
  exact ⟨root, new, hroot, hnew, hnonneg, hcarry, hafter⟩

end Planned

/-- The walk of a correction always ends. -/
theorem carryFrom_ne_exhausted (b : LotBooks) (id : String) (root : CostedLot) (new : ItemState) :
    b.carryFrom id root new ≠ .error .exhausted := by
  intro h
  unfold carryFrom at h
  dsimp only at h
  by_cases hwalks : walks root.state new
  · rw [if_pos hwalks] at h
    rcases bind_eq_error.1 h with h | ⟨basis, -, h⟩
    · exact basisOrConflict_ne_exhausted _ h
    split_ifs at h
    · cases Except.error.inj h
    rcases bind_eq_error.1 h with h | ⟨next, -, h⟩
    · exact nextLot_ne_exhausted _ h
    refine carry_ne_exhausted ?_ h
    rw [unseen]
    have := (b.lots.map Prod.fst).length_filter_le fun n => n ∉ [id]
    rw [List.length_map] at this
    omega
  · rw [if_neg hwalks] at h
    cases h

/-- **A correction reaches every merge result once, and by the same amount**, as far as
    there is anything to carry. -/
theorem correction_carried (b : LotBooks) (id : String) (event : ItemEvent) (hwrites : writesGoodsCost event) :
    (∀ root new, b.carryFrom id root new ≠ .error .exhausted) ∧
    ∀ plan b', b.restateItemCost id event = .ok (plan, b') → CarriesCorrection b id plan b' := by
  refine ⟨b.carryFrom_ne_exhausted id, fun plan b' h => ?_⟩
  obtain ⟨root, new, hplanned⟩ := Planned.planned_of_ok h
  have hdelta : new.goodsBasis.getD 0 - root.state.goodsBasis.getD 0 = b'.basisOf id - b.basisOf id := by
    rw [basisOf, hplanned.stateOf_root, basisOf_of_get? hplanned.hroot]
  constructor
  case once => exact hplanned.nodup
  case chain => exact hplanned.chain
  case found =>
    intro l hl
    rcases List.mem_cons.1 hl with rfl | hl
    · rw [hplanned.hroot]
      rfl
    · obtain ⟨c, hc, rfl⟩ := List.mem_map.1 hl
      rw [hplanned.found c hc]
      rfl
  case others => exact fun l hl => hplanned.get?_other hl
  case changed =>
    intro l hl
    rw [Restatement.lots] at hl
    rw [← hdelta, hplanned.basisOf_after l, if_pos hl]
  case nonneg =>
    intro l hl
    rcases List.mem_cons.1 hl with rfl | hl
    · rw [basisOf, hplanned.stateOf_root]
      exact hplanned.nonneg
    · obtain ⟨c, hc, rfl⟩ := List.mem_map.1 hl
      obtain ⟨a, s, hrestated⟩ := hplanned.exists_restated c hc
      rw [basisOf, hplanned.stateOf_carried c hc, hrestated.basis]
      exact hrestated.nonneg
  case stops =>
    intro l hl
    rcases hplanned.ends l hl with hmerged | ⟨hzero, hstop⟩
    · exact .inl hmerged
    · refine .inr ⟨sub_eq_zero.1 (hdelta ▸ hzero), ?_⟩
      rw [hplanned.stateOf_root, stateOf_of_get? hplanned.hroot]
      exact hstop
  case known =>
    intro a ha m hm hgoes hne lot parts hlot hparts
    obtain ⟨c, hc, rfl⟩ := List.mem_map.1 ((List.mem_cons.1 hm).resolve_left hne)
    rw [hplanned.found c hc, Option.some_inj] at hlot
    rw [hplanned.stateOf_carried c hc]
    exact (hplanned.restated c hc a ha hgoes).known parts (hlot ▸ hparts)
  case sums =>
    intro m lot parts hlot hparts hnodup hmem hsum
    exact hplanned.sums hwrites hlot hparts hnodup hmem hsum

/-! ## Small books -/

/-- One unit of goods at a cost. -/
def unitCosting (cost : ℚ) (unknown : Bool) (status : String) (mergedInto : Option String) : ItemState :=
  { ItemState.empty with
    quantity := 1, costBase := some cost, costTotal := some cost, goodsCostUnknown := unknown, status := status
    mergedInto := mergedInto }

/-- A lot made at its cost, from the lots merged into it if any. -/
def madeAt (state : ItemState) (mergedFrom : List String) (later : List HistoryRow) : CostedLot where
  state := state
  history := { event := .created [.quantity 1, .costTotal state.costTotal], mergedFrom := mergedFrom } :: later

/-- Lots no invoice and no list names. -/
def ofLots (lots : List (String × CostedLot)) (nodup : (lots.map Prod.fst).Nodup) : LotBooks where
  lots := lots
  nodup := nodup
  lastSale _ := none
  returnAfter _ _ := none
  docs _ := none
  recognizedCycle _ := none
  legacyCogsRefusal _ := none
  allocations _ := []
  writeoffLists _ := none
  consignorOf _ := none

/-- Two lots merged into one, which was merged on. -/
def mergedTwice : LotBooks :=
  ofLots [("a", madeAt (unitCosting 10 true "merged" (some "m")) [] []),
    ("b", madeAt (unitCosting 5 false "merged" (some "m")) [] []),
    ("m", madeAt (unitCosting 15 true "merged" (some "n")) ["a", "b"] []),
    ("n", madeAt (unitCosting 15 true "available" none) ["m"] [])] (by decide)

theorem mergedTwice_corrected :
    (∀ root new, mergedTwice.carryFrom "a" root new ≠ .error .exhausted) ∧
    ∀ plan b', mergedTwice.restateItemCost "a" (.costAdjusted 12 (some false)) = .ok (plan, b') →
      CarriesCorrection mergedTwice "a" plan b' :=
  correction_carried mergedTwice "a" (.costAdjusted 12 (some false)) (by decide)

/-- The correction reaches both results. -/
example : ((mergedTwice.restateItemCost "a" (.costAdjusted 12 (some false))).toOption.map fun r =>
    (r.1.lots "a", r.2.basisOf "m", r.2.basisOf "n", (r.2.stateOf "n").goodsCostKnown)) =
      some (["a", "m", "n"], 17, 17, true) := by
  decide +kernel

/-- A lot merged into one that was split later. -/
def splitLater : LotBooks :=
  ofLots [("a", madeAt (unitCosting 10 true "merged" (some "m")) [] []),
    ("m", madeAt (unitCosting 10 true "available" none) ["a"] [{ event := .noted .split }])] (by decide)

/-- A lot a merge result was made from that is no longer merged. -/
def unmerged : LotBooks :=
  ofLots [("a", madeAt (unitCosting 10 false "available" none) [] []),
    ("m", madeAt (unitCosting 10 false "available" none) ["a"] [])] (by decide)

/-- A lot two results were made from, one of them through the other. -/
def mergedTwoWays : LotBooks :=
  ofLots [("a", madeAt (unitCosting 10 true "merged" (some "m")) [] []),
    ("m", madeAt (unitCosting 10 true "merged" (some "n")) ["a"] []),
    ("n", madeAt (unitCosting 20 true "available" none) ["a", "m"] [])] (by decide)

/-- A lot merged into itself. -/
def mergedIntoItself : LotBooks :=
  ofLots [("a", madeAt (unitCosting 10 false "merged" (some "a")) [] [])] (by decide)

/-- Four corrections that are made: one stops in front of a result split later, which is
    left unknown though its one part is known now; one leaves a result below the part it
    was made from, as that part is not merged any more; one leaves a result unknown though
    each of its parts is known once it is made; one changes nothing of a lot merged into
    itself. -/
theorem corrections_left_behind :
    ((splitLater.restateItemCost "a" (.costAdjusted 10 (some false))).toOption.map fun r =>
      (r.1.lots "a", (r.2.stateOf "a").goodsCostKnown, (r.2.stateOf "m").goodsCostKnown,
        (r.2.get? "m").bind fun m => mergeParts m.history)) = some (["a"], true, false, some ["a"]) ∧
    ((unmerged.restateItemCost "a" (.costAdjusted 12 none)).toOption.map fun r =>
      (unmerged.basisOf "m", r.2.basisOf "a", r.2.basisOf "m", (r.2.get? "m").bind fun m => mergeParts m.history)) =
        some (unmerged.basisOf "a", 12, 10, some ["a"]) ∧
    ((mergedTwoWays.restateItemCost "a" (.costAdjusted 12 (some false))).toOption.map fun r =>
      (r.1.lots "a", (r.2.stateOf "a").goodsCostKnown, (r.2.stateOf "m").goodsCostKnown,
        (r.2.stateOf "n").goodsCostKnown, (r.2.get? "n").bind fun n => mergeParts n.history)) =
          some (["a", "m", "n"], true, true, false, some ["a", "m"]) ∧
    ((mergedIntoItself.restateItemCost "a" (.costAdjusted 10 none)).toOption.map fun r => r.1.lots "a") =
      some ["a"] := by
  refine ⟨?_, ?_, ?_, ?_⟩
  · decide +kernel
  · decide +kernel
  · decide +kernel
  · decide +kernel

end LotBooks

end Celerp
