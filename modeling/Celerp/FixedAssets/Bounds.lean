/-
  The accumulated depreciation of an asset stays between 0 and its depreciable amount.

  A layer in use (`Layer.Live`) has only consumed some of its life, so it is charged
  within its basis (`Layer.Live.within`), and so is what a disposal leaves of it, but for
  the half-year convention, which takes life back (`consume_within_iff`). The asset of an
  acquisition, improvements and disposals keeps its layers so (`stepMonth_bounded`), and
  what they are charged adds up to its depreciation (`cumulative_within`).
-/
import Celerp.FixedAssets.Charged
import Celerp.FixedAssets.Past
import Celerp.Lib.Runs
import Mathlib.Algebra.Order.Group.MinMax

namespace Celerp

open Scan Tally Runs

/-! ## A layer -/

namespace Layer

/-- A layer in use: what it consumes of its life it keeps. -/
structure Live (layer : Layer) : Prop where
  basis_nonneg : 0 ≤ layer.basis
  residual_nonneg : 0 ≤ layer.residual
  rate_nonneg : 0 < layer.life → 0 ≤ monthlyRate layer.inputs
  weights_nonneg : ∀ w ∈ layer.weights, 0 ≤ w
  fractions_nonneg : 0 < layer.life → ∀ f ∈ layer.fractions, 0 ≤ f
  position_le : 0 < layer.life → layer.position ≤ layer.life

/-- Up to each month, the layer is charged between nothing and its basis. -/
def Within (layer : Layer) : Prop :=
  ∀ n, 0 ≤ (layer.charges.take n).sum ∧ (layer.charges.take n).sum ≤ layer.basis

/-- What the half-year convention takes back of a layer written down to its residual, of a
    declining balance that has no straight line to switch to, was charged. -/
def GivesBackCharged (layer : Layer) (fyStart : ℕ) : Prop :=
  layer.method = .decliningBalance → 0 < layer.life → layer.carrying = layer.residual →
    ¬(layer.params.switchToStraightLine ∧ layer.position < layer.life) →
      layer.residual * monthlyRate layer.inputs *
        min ((layer.fractions.drop (fyStart - layer.start)).sum - 6) layer.position ≤ layer.basis

end Layer

section
variable {layer : Layer} {index fyStart : ℕ} {reading : Option ℚ} {convention : Convention}
  {disposal : Option Date} {share : Share} {q : ℚ}

/-- The charges of the first months. -/
theorem take_charges (layer : Layer) (n : ℕ) :
    layer.charges.take n = layer.method.amounts (layer.inputs.consuming (layer.fractions.take n)) := by
  obtain ⟨rest, -, hrest⟩ :=
    amounts_append layer.inputs layer.method (layer.fractions.take n) (layer.fractions.drop n)
  rw [List.take_append_drop] at hrest
  have hcharges : layer.charges = layer.method.amounts (layer.inputs.consuming (layer.fractions.take n)) ++ rest :=
    hrest
  have hlength : (layer.method.amounts (layer.inputs.consuming (layer.fractions.take n))).length =
      min n layer.fractions.length := by
    rw [length_amounts, MethodInputs.consuming, List.length_take]
  rcases le_total n layer.fractions.length with hn | hn
  · rw [min_eq_left hn] at hlength
    rw [hcharges, List.take_left' hlength]
  · rw [List.take_of_length_le (by rwa [length_charges]), List.take_of_length_le hn]
    rfl

namespace Layer.Live

theorem position_nonneg (h : layer.Live) (hlife : 0 < layer.life) : 0 ≤ layer.position :=
  List.sum_nonneg (h.fractions_nonneg hlife)

theorem within (h : layer.Live) : layer.Within := by
  intro n
  rw [take_charges]
  exact sum_amounts_mem layer.method h.basis_nonneg h.residual_nonneg h.rate_nonneg
    fun hlife f hf => h.fractions_nonneg hlife f (List.mem_of_mem_take hf)

theorem normalFraction_nonneg (h : layer.Live) : 0 ≤ layer.normalFraction index :=
  layer.normalFraction_of zero_le_one h.weights_nonneg index

/-- Consuming some of the life left keeps a layer in use. -/
theorem consuming (h : layer.Live) (hq : 0 < layer.life → 0 ≤ q ∧ q ≤ layer.life - layer.position) :
    ({ layer with fractions := layer.fractions ++ [max q (-layer.position)] } : Layer).Live where
  basis_nonneg := h.basis_nonneg
  residual_nonneg := h.residual_nonneg
  rate_nonneg := h.rate_nonneg
  weights_nonneg := h.weights_nonneg
  fractions_nonneg := by
    intro hlife f hf
    rcases List.mem_append.1 hf with hf | hf
    · exact h.fractions_nonneg hlife f hf
    · obtain rfl := List.mem_singleton.1 hf
      exact (hq hlife).1.trans (le_max_left _ _)
  position_le := by
    intro hlife
    have hback : -layer.position ≤ q := (neg_nonpos.2 (h.position_nonneg hlife)).trans (hq hlife).1
    have hsum : ({ layer with fractions := layer.fractions ++ [max q (-layer.position)] } : Layer).position =
        layer.position + max q (-layer.position) := by
      simp [position]
    rw [hsum, max_eq_left hback]
    linarith [(hq hlife).2]

theorem gone (h : layer.Live) : (layer.gone share).Live where
  basis_nonneg := mul_nonneg h.basis_nonneg share.pos.le
  residual_nonneg := mul_nonneg h.residual_nonneg share.pos.le
  rate_nonneg := h.rate_nonneg
  weights_nonneg := h.weights_nonneg
  fractions_nonneg := h.fractions_nonneg
  position_le := h.position_le

theorem kept (h : layer.Live) : (layer.kept share).Live where
  basis_nonneg := sub_nonneg.2 (mul_le_of_le_one_right h.basis_nonneg share.le_one)
  residual_nonneg := sub_nonneg.2 (mul_le_of_le_one_right h.residual_nonneg share.le_one)
  rate_nonneg := h.rate_nonneg
  weights_nonneg := h.weights_nonneg
  fractions_nonneg := h.fractions_nonneg
  position_le := h.position_le

end Layer.Live

/-- Every convention but the half-year one consumes some of the life left. -/
theorem disposal_mem {normal fyConsumed remaining : ℚ} {day : Date} (hconvention : convention ≠ .halfYear)
    (hremaining : 0 ≤ remaining) : 0 ≤ convention.disposal normal day fyConsumed remaining ∧
      convention.disposal normal day fyConsumed remaining ≤ remaining := by
  cases convention with
  | fullMonth => exact ⟨le_rfl, hremaining⟩
  | midMonth => exact ⟨le_min (le_max_right _ _) hremaining, min_le_right _ _⟩
  | daily => exact ⟨le_min (le_max_right _ _) hremaining, min_le_right _ _⟩
  | halfYear => exact absurd rfl hconvention

/-- A month that is no half-year disposal consumes some of the life left. -/
theorem consumed_mem (h : layer.Live) (hreading : 0 ≤ reading.getD 0) (hlife : 0 < layer.life)
    (hmonth : layer.method.usesReadings = true ∨ disposal = none ∨ convention ≠ .halfYear) :
    0 ≤ consumed layer index reading convention fyStart disposal ∧
      consumed layer index reading convention fyStart disposal ≤ layer.life - layer.position := by
  have hremaining : 0 ≤ layer.life - layer.position := sub_nonneg.2 (h.position_le hlife)
  unfold consumed
  simp only
  split_ifs with hreadings
  · exact ⟨le_min hreading hremaining, min_le_right _ _⟩
  · cases disposal with
    | none => exact ⟨le_min h.normalFraction_nonneg hremaining, min_le_right _ _⟩
    | some day =>
      refine disposal_mem ?_ hremaining
      rcases hmonth with hmonth | hmonth | hmonth
      · exact absurd hmonth hreadings
      · exact absurd hmonth (Option.some_ne_none day)
      · exact hmonth

theorem consume_live (h : layer.Live) (hreading : 0 ≤ reading.getD 0)
    (hmonth : layer.method.usesReadings = true ∨ disposal = none ∨ convention ≠ .halfYear) :
    (consume index reading convention fyStart disposal layer).Live :=
  h.consuming fun hlife => consumed_mem h hreading hlife hmonth

/-- What the half-year convention takes back, at the least all that was consumed. -/
theorem neg_halfYear (day : Date) (normal fy : ℚ) {remaining : ℚ} (position : ℚ) {k b : ℚ}
    (hremaining : 0 ≤ remaining) (hk : 0 ≤ k) (hb : 0 ≤ b) :
    k * -max (Convention.halfYear.disposal normal day fy remaining) (-position) ≤ b ↔
      k * min (fy - 6) position ≤ b := by
  have hneg : -max (Convention.halfYear.disposal normal day fy remaining) (-position) =
      min (fy - min 6 (fy + remaining)) position := by
    rw [Convention.disposal, ← min_neg_neg, neg_neg, neg_sub]
  rw [hneg]
  rcases le_or_gt fy 6 with hfy | hfy
  · -- nothing is taken back
    have hleft : min (fy - min 6 (fy + remaining)) position ≤ 0 :=
      (min_le_left _ _).trans (sub_nonpos.2 (le_min hfy (by linarith)))
    have hright : min (fy - 6) position ≤ 0 := (min_le_left _ _).trans (sub_nonpos.2 hfy)
    exact iff_of_true ((mul_nonpos_of_nonneg_of_nonpos hk hleft).trans hb)
      ((mul_nonpos_of_nonneg_of_nonpos hk hright).trans hb)
  · rw [min_eq_left (by linarith : (6 : ℚ) ≤ fy + remaining)]

/-- A layer charged within its basis so far, and in all. -/
theorem within_of_prefix (h : layer.Live) (hconsumed : 0 ≤ (consume index reading convention fyStart disposal layer).charges.sum)
    (hle : (consume index reading convention fyStart disposal layer).charges.sum ≤ layer.basis) :
    (consume index reading convention fyStart disposal layer).Within := by
  intro n
  rcases le_or_gt n layer.fractions.length with hn | hn
  · have htake : (consume index reading convention fyStart disposal layer).charges.take n = layer.charges.take n := by
      rw [take_charges, take_charges]
      simp only [consume, List.take_append_of_le_length hn]
      rfl
    rw [htake]
    exact h.within n
  · rw [List.take_of_length_le]
    · exact ⟨hconsumed, hle⟩
    · rw [length_charges]
      simp only [consume, List.length_append, List.length_singleton]
      exact hn

theorem charges_consume : (consume index reading convention fyStart disposal layer).charges =
    layer.method.amounts (layer.inputs.consuming (layer.fractions ++
      [max (consumed layer index reading convention fyStart disposal) (-layer.position)])) := rfl

/-- What a half-year disposal gives back of a declining balance, as its layer says it. -/
theorem givesBackCharged_iff {day : Date} (h : layer.Live) (hmethod : layer.method = .decliningBalance)
    (hlife : 0 < layer.life) :
    Celerp.GivesBackCharged layer.inputs (decliningState layer.inputs)
        (max (consumed layer index reading .halfYear fyStart (some day)) (-layer.position)) ↔
      layer.GivesBackCharged fyStart := by
  have hremaining : 0 ≤ layer.life - layer.position := sub_nonneg.2 (h.position_le hlife)
  have hmonthly : 0 ≤ layer.residual * monthlyRate layer.inputs :=
    mul_nonneg h.residual_nonneg (h.rate_nonneg hlife)
  have hcarrying : (decliningState layer.inputs).1 = layer.carrying := by
    have hfst := fst_decliningState (i := layer.inputs) hlife
    rw [hfst, ← hmethod]
    rfl
  have hposition : (decliningState layer.inputs).2 = layer.position := snd_decliningState
  have hconsumed : consumed layer index reading .halfYear fyStart (some day) =
      Convention.halfYear.disposal (min (layer.normalFraction index) (layer.life - layer.position)) day
        (layer.fractions.drop (fyStart - layer.start)).sum (layer.life - layer.position) := by
    simp [consumed, hmethod, Method.usesReadings]
  have hback := neg_halfYear day (min (layer.normalFraction index) (layer.life - layer.position))
    (layer.fractions.drop (fyStart - layer.start)).sum layer.position hremaining hmonthly h.basis_nonneg
  rw [← hconsumed] at hback
  unfold Celerp.GivesBackCharged Layer.GivesBackCharged
  rw [hcarrying, hposition]
  constructor
  · intro hgives _ _ hdone hswitch
    exact hback.1 (hgives hdone hswitch)
  · intro hgives hdone hswitch
    exact hback.2 (hgives hmethod hlife hdone hswitch)

/-- **A layer disposed of is charged within its basis exactly when what the half-year
    convention takes back of it was charged.** -/
theorem consume_within_iff {day : Date} (h : layer.Live) (hreading : 0 ≤ reading.getD 0) :
    (consume index reading convention fyStart (some day) layer).Within ↔
      (convention = .halfYear → layer.GivesBackCharged fyStart) := by
  by_cases hmethod : layer.method = .decliningBalance ∧ 0 < layer.life
  · obtain ⟨hdeclining, hlife⟩ := hmethod
    by_cases hconvention : convention = .halfYear
    · subst hconvention
      -- the months so far, and the month of disposal after them
      have hlast := sum_amounts_last hlife h.basis_nonneg h.residual_nonneg (h.rate_nonneg hlife)
        (h.fractions_nonneg hlife) (h.position_le hlife)
        (le_max_right (consumed layer index reading .halfYear fyStart (some day)) (-layer.position))
      have hstate : decliningState (layer.inputs.consuming layer.fractions) = decliningState layer.inputs := rfl
      rw [hstate, givesBackCharged_iff h hdeclining hlife, ← hdeclining, ← charges_consume] at hlast
      refine ⟨fun hwithin _ => ?_, fun hgives => ?_⟩
      · have hall := (hwithin (layer.fractions.length + 1)).1
        rw [List.take_of_length_le (by rw [length_charges]; simp [consume])] at hall
        exact hlast.1.1 hall
      · exact within_of_prefix h (hlast.1.2 (hgives rfl)) hlast.2
    · refine iff_of_true (consume_live h hreading (Or.inr (Or.inr hconvention))).within fun hhalf => ?_
      exact absurd hhalf hconvention
  · -- the other methods stay within the basis whatever is consumed
    refine iff_of_true ?_ fun _ hdeclining hlife => absurd ⟨hdeclining, hlife⟩ hmethod
    have hmem : 0 ≤ (consume index reading convention fyStart (some day) layer).charges.sum ∧
        (consume index reading convention fyStart (some day) layer).charges.sum ≤ layer.basis := by
      rw [charges_consume]
      by_cases hdeclining : layer.method = .decliningBalance
      · have hlife : ¬0 < layer.life := fun hlife => hmethod ⟨hdeclining, hlife⟩
        exact sum_amounts_mem _ h.basis_nonneg h.residual_nonneg (fun hpos => absurd hpos hlife)
          fun hpos => absurd hpos hlife
      · exact sum_amounts_mem_of_ne hdeclining h.basis_nonneg
    exact within_of_prefix h hmem.1 hmem.2

end

/-! ## An asset bought or brought in, improved and disposed of -/

/-- Parameters that charge nothing back. -/
structure Params.Nonneg (params : Params) : Prop where
  factor_nonneg : 0 ≤ params.factor
  rate_nonneg : ∀ rate ∈ params.rate, 0 ≤ rate

theorem monthlyRate_nonneg {inputs : MethodInputs} (h : inputs.params.Nonneg) (hlife : 0 < inputs.life) :
    0 ≤ monthlyRate inputs := by
  unfold monthlyRate
  cases hrate : inputs.params.rate with
  | none => exact div_nonneg h.factor_nonneg hlife.le
  | some rate => exact div_nonneg (h.rate_nonneg rate hrate) (by norm_num)

/-- The amounts to depreciate of some layers. -/
def bases (layers : List Layer) : ℚ := (layers.map Layer.basis).sum

@[simp] theorem bases_nil : bases [] = 0 := rfl

@[simp] theorem bases_singleton (layer : Layer) : bases [layer] = layer.basis := by simp [bases]

@[simp] theorem bases_append (layers more : List Layer) : bases (layers ++ more) = bases layers + bases more := by
  simp [bases]

theorem bases_map {f : Layer → Layer} (h : ∀ l, (f l).basis = l.basis) (layers : List Layer) :
    bases (layers.map f) = bases layers := by
  unfold bases
  rw [List.map_map]
  exact congrArg List.sum (List.map_congr_left fun l _ => h l)

theorem bases_split (layers : List Layer) (share : Share) :
    bases (layers.map (Layer.kept · share)) + bases (layers.map (Layer.gone · share)) = bases layers := by
  simp only [bases, List.map_map, ← List.sum_map_add]
  refine congrArg List.sum (List.map_congr_left fun l _ => ?_)
  simp [Layer.kept]

namespace Movement
variable (policy : Policy)

/-- An acquisition, opening, improvement or disposal, of amounts to depreciate that are no
    less than 0. -/
def Plain : Movement → Prop
  | acquire _ amount => policy.residual ≤ amount
  | opening _ cost accumulated _ => policy.residual ≤ cost - accumulated
  | improve _ amount _ => 0 ≤ amount
  | dispose _ _ => True
  | estimateChange .. | revalue .. | impair .. => False

/-- What a movement adds to depreciate. -/
def laid : Movement → ℚ
  | acquire _ amount => amount - policy.residual
  | opening _ cost accumulated _ => cost - accumulated - policy.residual
  | improve _ amount _ => amount
  | dispose .. | estimateChange .. | revalue .. | impair .. => 0

end Movement

/-- Within a month, the layers are in use, and those retired charged within their basis. -/
structure Month.Bounded (policy : Policy) (f : ℕ) (w : Month) : Prop where
  terms : w.terms = policy.terms
  layers : ∀ l ∈ w.layers, l.Live
  leaving : ∀ g ∈ w.leaving, ∀ l ∈ g.2, l.Live
  retired : ∀ l ∈ w.retired, l.Within
  start : ∀ l ∈ w.all, f ≤ l.start

section
variable {policy : Policy} {f index : ℕ} {w : Month} {m : Movement} {total : ℚ}

theorem live_fresh {layer : Layer} (hfractions : layer.fractions = []) (hbasis : 0 ≤ layer.basis)
    (hresidual : 0 ≤ layer.residual) (hparams : layer.params.Nonneg) (hweights : ∀ w ∈ layer.weights, 0 ≤ w) :
    layer.Live where
  basis_nonneg := hbasis
  residual_nonneg := hresidual
  rate_nonneg := fun hlife => monthlyRate_nonneg hparams hlife
  weights_nonneg := hweights
  fractions_nonneg := by simp [hfractions]
  position_le := by
    intro hlife
    rw [Layer.position, hfractions]
    exact hlife.le

/-- A layer laid down keeps the month. -/
theorem Month.Bounded.laying (h : w.Bounded policy f) {layer : Layer} (hlive : layer.Live) (hstart : f ≤ layer.start) :
    ({ w with layers := w.layers ++ [layer] } : Month).Bounded policy f where
  terms := h.terms
  layers := by
    intro l hl
    rcases List.mem_append.1 hl with hl | hl
    · exact h.layers l hl
    · obtain rfl := List.mem_singleton.1 hl
      exact hlive
  leaving := h.leaving
  retired := h.retired
  start := by
    intro l hl
    simp only [Month.all, List.mem_append, List.mem_singleton] at hl
    rcases hl with (hl | hl | rfl) | hl
    · exact h.start l (by simp [Month.all, hl])
    · exact h.start l (by simp [Month.all, hl])
    · exact hstart
    · exact h.start l (List.mem_append_right _ hl)

/-- A movement keeps the layers in use. -/
theorem apply_bounded (hresidual : 0 ≤ policy.residual) (hparams : policy.params.Nonneg) (hf : f ≤ index)
    (h : w.Bounded policy f) (hm : m.Plain policy) : (apply policy index w m).Bounded policy f := by
  have hterms : w.terms.params.Nonneg := h.terms ▸ hparams
  cases m with
  | acquire on amount =>
    refine h.laying (live_fresh rfl (sub_nonneg.2 hm) hresidual hterms ?_) hf
    exact fun weight hweight => (Convention.startWeights_pos _ _ _ weight hweight).le
  | opening on cost accumulated lifeMonths =>
    exact h.laying (live_fresh rfl (sub_nonneg.2 hm) hresidual hterms (by simp)) hf
  | improve on amount lifeMonths =>
    refine h.laying (live_fresh rfl hm le_rfl hterms ?_) hf
    exact fun weight hweight => (Convention.startWeights_pos _ _ _ weight hweight).le
  | dispose on share =>
    simp only [apply]
    split_ifs
    · refine ⟨h.terms, ?_, ?_, h.retired, ?_⟩
      · intro l hl
        obtain ⟨l', hl', rfl⟩ := List.mem_map.1 hl
        exact (h.layers l' hl').kept
      · intro g hg
        rcases List.mem_append.1 hg with hg | hg
        · exact h.leaving g hg
        · obtain rfl := List.mem_singleton.1 hg
          intro l hl
          obtain ⟨l', hl', rfl⟩ := List.mem_map.1 hl
          exact (h.layers l' hl').gone
      · intro l hl
        simp only [Month.all, List.flatMap_append, List.mem_append, List.mem_map, List.flatMap_cons,
          List.flatMap_nil, List.append_nil] at hl
        rcases hl with (hl | ⟨l, hl, rfl⟩) | hl | ⟨l, hl, rfl⟩
        · exact h.start l (by simp [Month.all, hl])
        · exact h.start l (by simp [Month.all, hl])
        · exact h.start l (List.mem_append_right _ hl)
        · exact h.start l (by simp [Month.all, hl])
    · exact ⟨h.terms, h.layers, h.leaving, h.retired, h.start⟩
  | estimateChange | revalue | impair => exact hm.elim

/-- A movement adds to the layers what it lays down. -/
theorem bases_apply (hm : m.Plain policy) :
    bases (apply policy index w m).all = bases w.all + m.laid policy := by
  cases m with
  | acquire on amount =>
    simp only [apply, Month.all, bases_append, Movement.laid, bases_singleton]
    ring
  | opening on cost accumulated lifeMonths =>
    simp only [apply, Month.all, bases_append, Movement.laid, bases_singleton]
    ring
  | improve on amount lifeMonths =>
    simp only [apply, Month.all, bases_append, Movement.laid, bases_singleton]
    ring
  | dispose on share =>
    have hsplit := bases_split w.layers share
    simp only [apply, Movement.laid]
    split_ifs
    · simp only [Month.all, List.flatMap_append, bases_append, List.flatMap_cons, List.flatMap_nil,
        List.append_nil]
      linarith
    · rw [add_zero]
      rfl
  | estimateChange | revalue | impair => exact hm.elim

theorem foldl_apply_bounded (hresidual : 0 ≤ policy.residual) (hparams : policy.params.Nonneg) (hf : f ≤ index)
    {due : List Movement} (h : w.Bounded policy f) (hdue : ∀ m ∈ due, m.Plain policy) :
    (due.foldl (apply policy index) w).Bounded policy f ∧
      bases (due.foldl (apply policy index) w).all = bases w.all + (due.map (Movement.laid policy)).sum := by
  induction due generalizing w with
  | nil => exact ⟨h, by simp⟩
  | cons m due ih =>
    rw [List.forall_mem_cons] at hdue
    obtain ⟨hbounded, hbases⟩ := ih (apply_bounded hresidual hparams hf h hdue.1) hdue.2
    refine ⟨hbounded, ?_⟩
    rw [List.foldl_cons, hbases, bases_apply hdue.1, List.map_cons, List.sum_cons, add_assoc]

end

/-! ## From month to month -/

/-- The layers a month disposes of, in part or in whole. -/
def Month.disposed (w : Month) : List Layer :=
  w.leaving.flatMap Prod.snd ++ if w.disposal.isSome then w.layers else []

/-- What the half-year convention takes back in a month, of the layers disposed of in it,
    was charged. -/
def DisposalsCharged (policy : Policy) (s : Run) (index : ℕ) : Prop :=
  s.disposal = none → policy.convention = .halfYear → ∀ l ∈ (dueIn policy index s).disposed,
    l.GivesBackCharged (fiscalYearStartIndex index policy.fiscalYearStart)

instance (layer : Layer) (fyStart : ℕ) : Decidable (layer.GivesBackCharged fyStart) := by
  unfold Layer.GivesBackCharged
  infer_instance

instance (policy : Policy) (s : Run) (index : ℕ) : Decidable (DisposalsCharged policy s index) := by
  unfold DisposalsCharged
  infer_instance

/-- A month of a run that has not ended. -/
def monthStep (policy : Policy) (readings : ℕ → Option ℚ) (s : Run) (index : ℕ) : Run :=
  if s.disposal.isSome then s else stepMonth policy readings index s

/-- The layers are in use until the asset is disposed of, charged within their basis, and
    what they and what is still due add up to is the depreciable amount. -/
structure Run.Bounded (policy : Policy) (f : ℕ) (total : ℚ) (s : Run) : Prop where
  terms : s.terms = policy.terms
  live : s.disposal = none → ∀ l ∈ s.layers, l.Live
  within : ∀ l ∈ s.retired ++ s.layers, l.Within
  start : ∀ l ∈ s.retired ++ s.layers, f ≤ l.start
  pending : ∀ m ∈ s.pending, m.Plain policy
  bases : bases (s.retired ++ s.layers) + (s.pending.map (Movement.laid policy)).sum = total

section
variable {policy : Policy} {readings : ℕ → Option ℚ} {f index n : ℕ} {total : ℚ} {s : Run} {w : Month}

theorem foldl_monthStep_of_disposed (h : s.disposal.isSome) (months : List ℕ) :
    months.foldl (monthStep policy readings) s = s := by
  induction months with
  | nil => rfl
  | cons i months ih => rw [List.foldl_cons, monthStep, if_pos h, ih]

theorem runMonths_eq_foldl (h : s.disposal = none) :
    runMonths policy readings n index s = (List.range' index n).foldl (monthStep policy readings) s := by
  induction n generalizing index s with
  | zero => rfl
  | succ n ih =>
    have hstep : monthStep policy readings s index = stepMonth policy readings index s := by
      rw [monthStep, h]
      rfl
    rw [runMonths, List.range'_succ, List.foldl_cons, hstep]
    split_ifs with hdisposed
    · rw [foldl_monthStep_of_disposed hdisposed]
    · exact ih (Option.not_isSome_iff_eq_none.1 hdisposed)

theorem dueIn_bounded (hresidual : 0 ≤ policy.residual) (hparams : policy.params.Nonneg) (hf : f ≤ index)
    (h : s.Bounded policy f total) (hdisposal : s.disposal = none) :
    (dueIn policy index s).Bounded policy f ∧
      Celerp.bases (dueIn policy index s).all = Celerp.bases (s.retired ++ s.layers) +
        ((s.pending.takeWhile fun m => m.firstMonth ≤ index).map (Movement.laid policy)).sum := by
  have hstart : (⟨s.terms, s.layers, s.retired, [], none⟩ : Month).Bounded policy f := by
    refine ⟨h.terms, h.live hdisposal, by simp, fun l hl => h.within l (List.mem_append_left _ hl), ?_⟩
    intro l hl
    exact h.start l (by simpa [Month.all] using hl)
  obtain ⟨hbounded, hbases⟩ := foldl_apply_bounded hresidual hparams hf hstart
    fun m hm => h.pending m ((List.takeWhile_subset _) hm)
  refine ⟨hbounded, hbases.trans ?_⟩
  simp [Month.all]

theorem bases_consume {layers : List Layer} {reading : Option ℚ} {convention : Convention} {fyStart : ℕ}
    {disposal : Option Date} :
    bases (layers.map (consume index reading convention fyStart disposal)) = bases layers := by
  have hbasis : ∀ l, (consume index reading convention fyStart disposal l).basis = l.basis := fun _ => rfl
  exact bases_map hbasis layers

theorem bases_leaving {leaving : List (Date × List Layer)} {reading : Option ℚ} {convention : Convention} {fyStart : ℕ} :
    bases (leaving.map fun g => g.2.map (consume index reading convention fyStart (some g.1))).flatten =
      bases (leaving.flatMap Prod.snd) := by
  induction leaving with
  | nil => rfl
  | cons g leaving ih =>
    rw [List.map_cons, List.flatten_cons, List.flatMap_cons, bases_append, bases_append, ih,
      bases_consume]

/-- A reading of a month is no less than 0. -/
theorem reading_nonneg (hreadings : ∀ i r, readings i = some r → 0 ≤ r) (taken : Bool) :
    0 ≤ (if taken then readings index else none).getD 0 := by
  split_ifs
  · cases hr : readings index with
    | none => exact le_rfl
    | some r => exact hreadings index r hr
  · exact le_rfl

/-- **A month keeps the layers charged within their basis**, where what it takes back was
    charged. -/
theorem stepMonth_bounded (hresidual : 0 ≤ policy.residual) (hparams : policy.params.Nonneg)
    (hreadings : ∀ i r, readings i = some r → 0 ≤ r) (hf : f ≤ index) (h : s.Bounded policy f total)
    (hdisposal : s.disposal = none) (hcharged : DisposalsCharged policy s index) :
    (stepMonth policy readings index s).Bounded policy f total := by
  obtain ⟨hw, hbases⟩ := dueIn_bounded hresidual hparams hf h hdisposal
  have hreading : 0 ≤ (if (dueIn policy index s).takesReading then readings index else none).getD 0 :=
    reading_nonneg hreadings _
  have hconvention : (dueIn policy index s).terms.convention = policy.convention := by rw [hw.terms]; rfl
  have hcharged' : ∀ l ∈ (dueIn policy index s).disposed, (dueIn policy index s).terms.convention = .halfYear →
      l.GivesBackCharged (fiscalYearStartIndex index policy.fiscalYearStart) :=
    fun l hl hhalf => hcharged hdisposal (hconvention ▸ hhalf) l hl
  refine ⟨hw.terms, ?_, ?_, ?_, ?_, ?_⟩
  · intro hnone l hl
    obtain ⟨l', hl', rfl⟩ := List.mem_map.1 hl
    exact consume_live (hw.layers l' hl') hreading (Or.inr (Or.inl hnone))
  · intro l hl
    rcases List.mem_append.1 hl with hl | hl
    · rcases List.mem_append.1 hl with hl | hl
      · exact hw.retired l hl
      · -- a part disposed of
        obtain ⟨part, hpart, hl⟩ := List.mem_flatten.1 hl
        obtain ⟨g, hg, rfl⟩ := List.mem_map.1 hpart
        obtain ⟨l', hl', rfl⟩ := List.mem_map.1 hl
        have hmem : l' ∈ (dueIn policy index s).disposed :=
          List.mem_append_left _ (List.mem_flatMap.2 ⟨g, hg, hl'⟩)
        exact (consume_within_iff (hw.leaving g hg l' hl') hreading).2 (hcharged' l' hmem)
    · obtain ⟨l', hl', rfl⟩ := List.mem_map.1 hl
      cases hwhole : (dueIn policy index s).disposal with
      | none => exact (consume_live (hw.layers l' hl') hreading (Or.inr (Or.inl rfl))).within
      | some day =>
        have hmem : l' ∈ (dueIn policy index s).disposed := by
          refine List.mem_append_right _ ?_
          rw [hwhole]
          exact hl'
        exact (consume_within_iff (hw.layers l' hl') hreading).2 (hcharged' l' hmem)
  · intro l hl
    rcases List.mem_append.1 hl with hl | hl
    · rcases List.mem_append.1 hl with hl | hl
      · exact hw.start l (by simp [Month.all, hl])
      · obtain ⟨part, hpart, hl⟩ := List.mem_flatten.1 hl
        obtain ⟨g, hg, rfl⟩ := List.mem_map.1 hpart
        obtain ⟨l', hl', rfl⟩ := List.mem_map.1 hl
        exact hw.start l' (List.mem_append_right _ (List.mem_flatMap.2 ⟨g, hg, hl'⟩))
    · obtain ⟨l', hl', rfl⟩ := List.mem_map.1 hl
      exact hw.start l' (by simp [Month.all, hl'])
  · exact fun m hm => h.pending m (List.dropWhile_subset _ hm)
  · have hsplit : (s.pending.takeWhile fun m => m.firstMonth ≤ index) ++
        (s.pending.dropWhile fun m => m.firstMonth ≤ index) = s.pending := List.takeWhile_append_dropWhile
    have htotal := h.bases
    rw [← hsplit, List.map_append, List.sum_append] at htotal
    simp only [Month.all, bases_append] at hbases
    simp only [stepMonth, closeMonth, bases_append, bases_leaving, bases_consume] at htotal ⊢
    linarith

theorem startRun_bounded {movements : List Movement} (h : ∀ m ∈ movements, m.Plain policy) :
    (startRun policy movements).Bounded policy f (movements.map (Movement.laid policy)).sum where
  terms := rfl
  live := by simp [startRun]
  within := by simp [startRun]
  start := by simp [startRun]
  pending := fun m hm => h m ((List.mem_insertionSort _).1 hm)
  bases := by
    have hperm := List.perm_insertionSort Movement.Before movements
    simp only [startRun, List.append_nil, bases_nil, zero_add]
    exact (hperm.map _).sum_eq

/-- **The asset stays charged within its basis**, where each month takes back no more than
    was charged. -/
theorem runMonths_bounded (hresidual : 0 ≤ policy.residual) (hparams : policy.params.Nonneg)
    (hreadings : ∀ i r, readings i = some r → 0 ≤ r) (h : s.Bounded policy f total) (hdisposal : s.disposal = none)
    (hcharged : EveryStep (monthStep policy readings) (DisposalsCharged policy) s (List.range' f n)) :
    (runMonths policy readings n f s).Bounded policy f total := by
  rw [runMonths_eq_foldl hdisposal]
  have hmonths : EveryStep (monthStep policy readings) (fun _ index => f ≤ index) s (List.range' f n) :=
    everyStep_of_mem fun index hindex _ => (List.mem_range'_1.1 hindex).1
  refine foldl_of_step ?_ h (hcharged.and hmonths)
  rintro s index hs ⟨hcharged, hindex⟩
  rw [monthStep]
  split_ifs with hended
  · exact hs
  · exact stepMonth_bounded hresidual hparams hreadings hindex hs (Option.not_isSome_iff_eq_none.1 hended) hcharged

/-- The months of a run follow on one another. -/
theorem months_runMonths (h : s.months.map Prod.fst = List.range' f (index - f)) (hf : f ≤ index) :
    ∃ k, (runMonths policy readings n index s).months.map Prod.fst = List.range' f k := by
  induction n generalizing index s with
  | zero => exact ⟨index - f, h⟩
  | succ n ih =>
    have hnext : (stepMonth policy readings index s).months.map Prod.fst = List.range' f (index + 1 - f) := by
      have hconcat : List.range' f (index + 1 - f) = List.range' f (index - f) ++ [index] := by
        have hsucc : index + 1 - f = index - f + 1 := by omega
        rw [hsucc, List.range'_1_concat, Nat.add_sub_cancel' hf]
      simp only [stepMonth, closeMonth, List.map_append, h, hconcat, List.map_singleton]
    rw [runMonths]
    split_ifs
    · exact ⟨_, hnext⟩
    · exact ih hnext (hf.trans (Nat.le_succ index))

end

/-! ## The schedule -/

section
variable {policy : Policy} {readings : ℕ → Option ℚ} {currency : String} {through f n : ℕ} {total : ℚ} {s : Run}

theorem sum_snd_take_charged (hmonths : s.months.map Prod.fst = List.range' f n) (k : ℕ) :
    ∃ j, ((s.charged.take k).map Prod.snd).sum =
      ((List.range' f j).map (byMonth (s.retired ++ s.layers))).sum := by
  have hsnd : s.charged.map Prod.snd = (List.range' f n).map (byMonth (s.retired ++ s.layers)) := by
    rw [← hmonths, Run.charged, List.map_map, List.map_map]
    rfl
  rw [List.map_take, hsnd, ← List.map_take]
  rcases le_total n k with hk | hk
  · exact ⟨n, by rw [List.take_range'_of_length_le hk]⟩
  · exact ⟨k, by rw [List.take_range'_of_length_ge hk]⟩

/-- What some layers are charged in a run of months. -/
theorem sum_byMonth {layers : List Layer} (h : ∀ l ∈ layers, f ≤ l.start) (k : ℕ) :
    ((List.range' f k).map (byMonth layers)).sum =
      (layers.map fun l => (l.charges.take (f + k - l.start)).sum).sum := by
  induction layers with
  | nil =>
    have hnil : byMonth [] = fun _ => 0 := rfl
    simp [hnil]
  | cons l layers ih =>
    rw [List.forall_mem_cons] at h
    have hsplit : byMonth (l :: layers) = fun i => Tally.total i l.dated + byMonth layers i := by
      funext i
      simp [byMonth]
    rw [hsplit, List.sum_map_add, ih h.2, List.map_cons, List.sum_cons]
    unfold Layer.dated
    rw [sum_total_zipIdx h.1]

/-- Layers charged within their basis are charged between nothing and their bases. -/
theorem sum_within {layers : List Layer} (h : ∀ l ∈ layers, l.Within) (k : Layer → ℕ) :
    0 ≤ (layers.map fun l => (l.charges.take (k l)).sum).sum ∧
      (layers.map fun l => (l.charges.take (k l)).sum).sum ≤ bases layers := by
  refine ⟨List.sum_nonneg fun v hv => ?_, List.sum_le_sum fun l hl => (h l hl (k l)).2⟩
  obtain ⟨l, hl, rfl⟩ := List.mem_map.1 hv
  exact (h l hl (k l)).1

/-- The cumulative charge of a period is that of the months up to it. -/
theorem cumulative_eq {p : PeriodAmount} {st : ℚ × ℚ} {months : List ((ℕ × Option MissingReading) × ℚ)}
    (hp : p ∈ scan (periodStep currency) st months) :
    ∃ k, p.cumulative = st.1 + ((months.take k).map Prod.snd).sum := by
  induction months generalizing st with
  | nil => exact absurd hp List.not_mem_nil
  | cons month months ih =>
    rcases List.mem_cons.1 hp with rfl | hp
    · exact ⟨1, by simp [periodStep]⟩
    · obtain ⟨k, hk⟩ := ih hp
      refine ⟨k + 1, ?_⟩
      rw [hk, List.take_succ_cons, List.map_cons, List.sum_cons, ← add_assoc]
      rfl

/-- A run within its bounds has a schedule within them. -/
theorem cumulative_mem (h : s.Bounded policy f total) (hpolicy : ∀ m ∈ s.pending, 0 ≤ m.laid policy)
    (hmonths : ∃ n, s.months.map Prod.fst = List.range' f n) {p : PeriodAmount}
    (hp : p ∈ (s.schedule currency).periods) : 0 ≤ p.cumulative ∧ p.cumulative ≤ total := by
  obtain ⟨n, hmonths⟩ := hmonths
  obtain ⟨k, hk⟩ := cumulative_eq hp
  obtain ⟨j, hj⟩ := sum_snd_take_charged hmonths k
  obtain ⟨hnonneg, hle⟩ := sum_within h.within fun l => f + j - l.start
  rw [zero_add, hj, sum_byMonth h.start] at hk
  have hpending : 0 ≤ (s.pending.map (Movement.laid policy)).sum := by
    refine List.sum_nonneg fun v hv => ?_
    obtain ⟨m, hm, rfl⟩ := List.mem_map.1 hv
    exact hpolicy m hm
  have hbases := h.bases
  rw [hk]
  exact ⟨hnonneg, by linarith⟩

end

/-- How an asset starts: an acquisition or an opening worth no less than its residual. -/
def Movement.Starts (policy : Policy) : Movement → Prop
  | acquire _ amount => policy.residual ≤ amount
  | opening _ cost accumulated _ => policy.residual ≤ cost - accumulated
  | improve .. | dispose .. | estimateChange .. | revalue .. | impair .. => False

/-- What may follow: improvements and disposals. -/
def Movement.Follows : Movement → Prop
  | improve _ amount _ => 0 ≤ amount
  | dispose _ _ => True
  | acquire .. | opening .. | estimateChange .. | revalue .. | impair .. => False

/-- What a movement is worth: the amounts acquired, opened and improved less accumulated
    depreciation. -/
def Movement.worth : Movement → ℚ
  | acquire _ amount => amount
  | opening _ cost accumulated _ => cost - accumulated
  | improve _ amount _ => amount
  | dispose .. | estimateChange .. | revalue .. | impair .. => 0

/-- In every month of the schedule, what the half-year convention takes back of the layers
    disposed of was charged. -/
def EveryDisposalCharged (movements : List Movement) (policy : Policy) (through : ℕ) (readings : ℕ → Option ℚ) : Prop :=
  ∀ f, firstInService movements = some f →
    EveryStep (monthStep policy readings) (DisposalsCharged policy) (startRun policy movements)
      (List.range' f (through + 1 - f))

section
variable {policy : Policy} {readings : ℕ → Option ℚ} {currency : String} {through : ℕ} {first m : Movement}
  {later : List Movement}

theorem Movement.Starts.plain (h : first.Starts policy) : first.Plain policy := by
  cases first with
  | acquire | opening => exact h
  | improve | dispose | estimateChange | revalue | impair => exact h.elim

theorem Movement.Follows.plain (h : m.Follows) : m.Plain policy := by
  cases m with
  | improve | dispose => exact h
  | acquire | opening | estimateChange | revalue | impair => exact h.elim

theorem Movement.Plain.laid_nonneg (h : m.Plain policy) : 0 ≤ m.laid policy := by
  cases m with
  | acquire | opening => exact sub_nonneg.2 h
  | improve => exact h
  | dispose => exact le_rfl
  | estimateChange | revalue | impair => exact h.elim

theorem laid_of_starts (h : first.Starts policy) : first.laid policy = first.worth - policy.residual := by
  cases first with
  | acquire | opening => rfl
  | improve | dispose | estimateChange | revalue | impair => exact h.elim

theorem laid_of_follows (h : m.Follows) : m.laid policy = m.worth := by
  cases m with
  | improve | dispose => rfl
  | acquire | opening | estimateChange | revalue | impair => exact h.elim

/-- **Depreciation never leaves its bounds** where each disposal takes back no more than
    was charged: an asset acquired or opened, then improved and disposed of, has in every
    period been charged at least 0 and at most its depreciable amount. -/
theorem cumulative_within (hfirst : first.Starts policy) (hlater : ∀ m ∈ later, m.Follows)
    (hresidual : 0 ≤ policy.residual) (hparams : policy.params.Nonneg)
    (hreadings : ∀ i r, readings i = some r → 0 ≤ r)
    (hcharged : EveryDisposalCharged (first :: later) policy through readings) :
    ∀ p ∈ (schedule (first :: later) policy through currency readings).periods,
      0 ≤ p.cumulative ∧ p.cumulative ≤ ((first :: later).map Movement.worth).sum - policy.residual := by
  have hplain : ∀ m ∈ first :: later, m.Plain policy := by
    intro m hm
    rcases List.mem_cons.1 hm with rfl | hm
    · exact hfirst.plain
    · exact (hlater m hm).plain
  have htotal : ((first :: later).map (Movement.laid policy)).sum =
      ((first :: later).map Movement.worth).sum - policy.residual := by
    have hrest : later.map (Movement.laid policy) = later.map Movement.worth :=
      List.map_congr_left fun m hm => laid_of_follows (hlater m hm)
    rw [List.map_cons, List.sum_cons, List.map_cons, List.sum_cons, hrest, laid_of_starts hfirst]
    ring
  intro p hp
  cases hf : firstInService (first :: later) with
  | none =>
    -- no month is in service
    have hnone : firstInService ((first :: later).insertionSort Movement.Before) = none := by
      cases hsorted : firstInService ((first :: later).insertionSort Movement.Before) with
      | none => rfl
      | some f =>
        have hsome := (firstInService_perm (List.perm_insertionSort Movement.Before (first :: later))).2 hsorted
        rw [hf] at hsome
        exact hsome.symm
    rw [schedule, hnone] at hp
    exact absurd hp List.not_mem_nil
  | some f =>
    rw [schedule_of_firstInService hf] at hp
    rw [← htotal]
    have hbounded := runMonths_bounded hresidual hparams hreadings (startRun_bounded hplain) rfl (hcharged f hf)
    refine cumulative_mem hbounded (fun m hm => (hbounded.pending m hm).laid_nonneg) ?_ hp
    exact months_runMonths (by simp [startRun]) le_rfl

end

/-- Half of an asset bought in January and written down by June. -/
theorem cumulative_within_juneSale :
    (schedule [januaryPurchase, juneSale] ⟨.decliningBalance, 36, 10, .halfYear, 1, {}⟩ 24323 "EUR"
        fun _ => none).periods ≠ [] ∧
      ∀ p ∈ (schedule [januaryPurchase, juneSale] ⟨.decliningBalance, 36, 10, .halfYear, 1, {}⟩ 24323 "EUR"
          fun _ => none).periods,
        0 ≤ p.cumulative ∧ p.cumulative ≤ ([januaryPurchase, juneSale].map Movement.worth).sum - 10 := by
  refine ⟨by decide +kernel, ?_⟩
  refine cumulative_within (by norm_num [januaryPurchase, Movement.Starts]) ?_ (by norm_num)
    ⟨by norm_num, by simp⟩ (by simp) ?_
  · simp [juneSale, Movement.Follows]
  · intro f hf
    have hfirst : firstInService [januaryPurchase, juneSale] = some 24312 := by decide
    obtain rfl : 24312 = f := Option.some.inj (hfirst.symm.trans hf)
    decide +kernel

/-- An asset of 100 with a residual of 90, depreciated at 30% a year with no straight line
    to switch to: bought on 15 December 2026, it is charged its 10 that month. -/
def decemberPurchase : Movement := .acquire (.of 2026 12 15 (by decide)) 100

def decemberSale : Movement := .dispose (.of 2027 12 10 (by decide)) ⟨1, by norm_num, by norm_num⟩

def highResidual : Policy := ⟨.decliningBalance, 60, 90, .halfYear, 1, ⟨0, 2, some (3 / 10), false⟩⟩

/-- Sold in December 2027, it gives back 11.25 of the 10 it was charged. -/
theorem cumulative_below_zero :
    decemberPurchase.Starts highResidual ∧ decemberSale.Follows ∧ 0 ≤ highResidual.residual ∧
      (∀ rate ∈ highResidual.params.rate, 0 ≤ rate / 12 ∧ rate / 12 ≤ 1) ∧
      ¬∀ p ∈ (schedule [decemberPurchase, decemberSale] highResidual 24340 "EUR" fun _ => none).periods,
        0 ≤ p.cumulative ∧ p.cumulative ≤
          ([decemberPurchase, decemberSale].map Movement.worth).sum - highResidual.residual := by
  refine ⟨by norm_num [decemberPurchase, highResidual, Movement.Starts], trivial, by norm_num [highResidual], ?_, ?_⟩
  · norm_num [highResidual]
  · decide +kernel

end Celerp
