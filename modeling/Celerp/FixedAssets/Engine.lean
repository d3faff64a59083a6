/-
  Depreciation on a dated movement sequence (`celerp_fixed_assets/calc/engine.py`).

  An asset is a set of layers: the acquisition or opening balance and each improvement.
  `schedule` steps through the months. What falls due in a month is applied first
  (`apply`): it lays layers down, merges, restates or splits them. Then every layer
  consumes its life of the month (`consume`). The months are charged at the end, from
  what each layer consumed.
-/
import Celerp.FixedAssets.Calendar
import Celerp.FixedAssets.Method
import Celerp.Lib.Tally
import Celerp.Money
import Mathlib.Data.List.Sort
import Mathlib.Data.Prod.Lex

namespace Celerp

open Scan

/-! ## Movements -/

/-- The share of an asset a disposal takes. -/
structure Share where
  value : ℚ
  pos : 0 < value
  le_one : value ≤ 1
  deriving DecidableEq

/-- The movements of an asset. -/
inductive Movement where
  | acquire (on : Date) (amount : ℚ)
  | improve (on : Date) (amount : ℚ) (lifeMonths : Option ℤ)
  | estimateChange (on : Date) (lifeMonths residual : ℚ) (method : Option Method) (params : Option Params)
      (convention : Option Convention)
  | dispose (on : Date) (share : Share)
  | opening (on : Date) (cost accumulated : ℚ) (lifeMonths : ℤ)
  | revalue (on : Date) (fairValue : ℚ)
  | impair (on : Date) (carrying : ℚ)
  deriving DecidableEq

namespace Movement

def on : Movement → Date
  | acquire on _ | improve on _ _ | estimateChange on _ _ _ _ _ | dispose on _ | opening on _ _ _
  | revalue on _ | impair on _ => on

/-- `_MONTH_END`: the movements measured at a month's end. -/
def monthEnd : Movement → Bool
  | opening .. | revalue .. | impair .. => true
  | acquire .. | improve .. | estimateChange .. | dispose .. => false

def isDispose : Movement → Bool
  | dispose .. => true
  | acquire .. | improve .. | estimateChange .. | opening .. | revalue .. | impair .. => false

/-- `_first_month` -/
def firstMonth (m : Movement) : ℕ := m.on.monthIndex + if m.monthEnd then 1 else 0

/-- What the movements are sorted by. -/
def sortKey (m : Movement) : ℕ ×ₗ ℕ ×ₗ Bool := toLex (m.firstMonth, toLex (m.on.ordinal, m.isDispose))

/-- The movement comes no later than another. -/
abbrev Before (m n : Movement) : Prop := m.sortKey ≤ n.sortKey

end Movement

/-- What the asset is depreciated under. -/
structure Policy where
  method : Method
  lifeMonths : ℤ
  residual : ℚ
  convention : Convention
  fiscalYearStart : ℕ := 1
  params : Params := {}
  deriving DecidableEq

/-- A month no reading was entered for. -/
structure MissingReading where
  period : ℕ
  deriving DecidableEq

/-- What a month is charged. -/
structure PeriodAmount where
  period : ℕ
  amount : ℚ
  cumulative : ℚ
  missing : Option MissingReading
  deriving DecidableEq

/-! ## Layers -/

/-- One layer: `basis` to depreciate down to `residual` over `life`, from month `start`;
    `fractions` is the life each month has consumed so far. -/
structure Layer where
  basis : ℚ
  residual : ℚ
  life : ℚ
  start : ℕ
  weights : List ℚ
  method : Method
  params : Params
  fractions : List ℚ := []
  deriving DecidableEq

namespace Layer
variable (layer : Layer)

/-- `position`: the life consumed. -/
def position : ℚ := layer.fractions.sum

/-- `normal_fraction` -/
def normalFraction (index : ℕ) : ℚ := layer.weights.getD (index - layer.start) 1

theorem normalFraction_of {p : ℚ → Prop} (hone : p 1) (hweights : ∀ w ∈ layer.weights, p w) (index : ℕ) :
    p (layer.normalFraction index) := by
  rw [normalFraction, List.getD_eq_getElem?_getD]
  cases hw : layer.weights[index - layer.start]? with
  | none => exact hone
  | some w => exact hweights w (List.mem_of_getElem? hw)

/-- The layer as its method takes it. -/
def inputs : MethodInputs :=
  ⟨layer.basis, layer.residual, layer.life, layer.fractions, layer.params⟩

/-- `_charges` -/
def charges : List ℚ := layer.method.amounts layer.inputs

/-- The charges by the month they fall in. -/
def dated : List (ℕ × ℚ) := (layer.charges.zipIdx layer.start).map Prod.swap

/-- `_carrying_of` -/
def carrying : ℚ := layer.basis + layer.residual - layer.charges.sum

/-- `_left` -/
def left : ℚ := max (layer.life - layer.position) 0

/-- The loop of `end`, with a life left at a month. -/
def endFrom : ℕ → ℕ → ℚ → ℕ × ℚ
  | 0, index, left => (index, left)
  | fuel + 1, index, left =>
    let fraction := min (layer.normalFraction index) left
    if left - fraction ≤ 0 then (index, fraction) else endFrom fuel (index + 1) (left - fraction)

/-- The months that use a life up: those with a weight of their own, and a whole month
    each after them. -/
def endFuel : ℕ := layer.weights.length + ⌈layer.life - layer.position⌉₊

/-- `end`: the month the life runs out, consuming normally from a month, and the fraction
    of it consumed. -/
def lifeEnd (index : ℕ) : ℕ × ℚ := layer.endFrom layer.endFuel index (layer.life - layer.position)

/-- `split`: what a share takes out. -/
def gone (share : Share) : Layer :=
  { layer with basis := layer.basis * share.value, residual := layer.residual * share.value }

/-- `split`: what the layer keeps. -/
def kept (share : Share) : Layer :=
  { layer with
    basis := layer.basis - (layer.gone share).basis, residual := layer.residual - (layer.gone share).residual }

end Layer

/-- A month of the search leaves less to search: a weight of its own, or a whole month of
    the life. -/
theorem Layer.fuel_next {layer : Layer} (hweights : ∀ w ∈ layer.weights, 0 ≤ w) {index : ℕ} {left : ℚ}
    (hleft : 0 < left) (hindex : layer.start ≤ index) (hend : 0 < left - min (layer.normalFraction index) left) :
    layer.weights.length - (index + 1 - layer.start) + ⌈left - min (layer.normalFraction index) left⌉₊ + 1 ≤
      layer.weights.length - (index - layer.start) + ⌈left⌉₊ := by
  rcases lt_or_ge (index - layer.start) layer.weights.length with hlt | hge
  · have hmem : layer.normalFraction index ∈ layer.weights := by
      rw [normalFraction, List.getD_eq_getElem?_getD, List.getElem?_eq_getElem hlt, Option.getD_some]
      exact List.getElem_mem hlt
    have hle : ⌈left - min (layer.normalFraction index) left⌉₊ ≤ ⌈left⌉₊ :=
      Nat.ceil_mono (sub_le_self left (le_min (hweights _ hmem) hleft.le))
    omega
  · have hnormal : layer.normalFraction index = 1 := by
      rw [normalFraction, List.getD_eq_getElem?_getD, List.getElem?_eq_none hge, Option.getD_none]
    rw [hnormal] at hend ⊢
    have hone : min 1 left = 1 := by
      rcases min_choice 1 left with h | h
      · exact h
      · exact absurd hend (by rw [h]; simp)
    rw [hone] at hend ⊢
    have hceil : ⌈left⌉₊ = ⌈left - 1⌉₊ + 1 := by
      rw [← Nat.ceil_add_one hend.le, sub_add_cancel]
    omega

/-- The months a life can take are enough to use it up: a search with more of them ends
    in the same month. -/
theorem Layer.endFrom_succ {layer : Layer} (hweights : ∀ w ∈ layer.weights, 0 ≤ w) {fuel index : ℕ} {left : ℚ}
    (hleft : 0 < left) (hindex : layer.start ≤ index)
    (hfuel : layer.weights.length - (index - layer.start) + ⌈left⌉₊ ≤ fuel) :
    layer.endFrom (fuel + 1) index left = layer.endFrom fuel index left := by
  induction fuel generalizing index left with
  | zero =>
    have hceil : 0 < ⌈left⌉₊ := Nat.ceil_pos.2 hleft
    omega
  | succ fuel ih =>
    conv_lhs => rw [endFrom]
    conv_rhs => rw [endFrom]
    split_ifs with hend
    · rfl
    · rw [not_le] at hend
      have hnext := fuel_next hweights hleft hindex hend
      exact ih hend (hindex.trans (Nat.le_succ index)) (by omega)

/-- The later of two ends. -/
def laterEnd (a b : ℕ × ℚ) : ℕ × ℚ := if a.1 < b.1 ∨ a.1 = b.1 ∧ a.2 < b.2 then b else a

/-- `_keep_end_life` -/
def keepEndLife (layers : List Layer) (index : ℕ) (weights : List ℚ) : ℚ :=
  match (layers.filter fun l => l.position < l.life).map (Layer.lifeEnd · index) with
  | [] => 0
  | e :: es =>
    let last := es.foldl laterEnd e
    ((List.range' index (last.1 + 1 - index)).map fun i : ℕ =>
      let weight := weights.getD (i - index) 1
      if i = last.1 then min weight last.2 else weight).sum

/-- `_merged` -/
def merged (layers : List Layer) (value : ℚ) (index : ℕ) (method : Method) (params : Params) : Layer :=
  let residual := min (layers.map Layer.residual).sum value
  let life := (layers.map Layer.left).foldr max 0
  ⟨value - residual, residual, life, index, [1], method, params, []⟩

/-- A layer of `_restated`, at a carrying amount. -/
def Layer.restatedAt (layer : Layer) (value : ℚ) (index : ℕ) : Layer :=
  let residual := min layer.residual value
  ⟨value - residual, residual, layer.left, index, [1], layer.method, layer.params, []⟩

/-- `_restated` -/
def restated (layers : List Layer) (carrying : ℚ) (index : ℕ) (method : Method) (params : Params) : List Layer :=
  let total := (layers.map Layer.carrying).sum
  if total ≤ 0 then [merged layers carrying index method params]
  else layers.map fun layer => layer.restatedAt (carrying * layer.carrying / total) index

/-- The fraction `_consume` comes to. -/
def consumed (layer : Layer) (index : ℕ) (reading : Option ℚ) (convention : Convention) (fyStart : ℕ)
    (disposal : Option Date) : ℚ :=
  let remaining := layer.life - layer.position
  if layer.method.usesReadings then min (reading.getD 0) remaining
  else
    let normal := min (layer.normalFraction index) remaining
    match disposal with
    | none => normal
    | some day =>
      let fyConsumed := (layer.fractions.drop (fyStart - layer.start)).sum
      convention.disposal normal day fyConsumed remaining

/-- `_consume`: the life a layer consumes in a month; in the month it is disposed of, the
    convention's share of that month. -/
def consume (index : ℕ) (reading : Option ℚ) (convention : Convention) (fyStart : ℕ) (disposal : Option Date)
    (layer : Layer) : Layer :=
  let fraction := consumed layer index reading convention fyStart disposal
  { layer with fractions := layer.fractions ++ [max fraction (-layer.position)] }

/-! ## The months -/

/-- What later layers are laid down with. -/
structure Terms where
  method : Method
  params : Params
  convention : Convention
  life : ℚ
  deriving DecidableEq

/-- `_life` -/
def lifeOf (method : Method) (policyLife : ℤ) (params : Params) : ℚ :=
  if method.usesReadings then params.totalUnits else policyLife

/-- What the layers of a policy are laid down with. -/
def Policy.terms (policy : Policy) : Terms :=
  ⟨policy.method, policy.params, policy.convention, lifeOf policy.method policy.lifeMonths policy.params⟩

/-- The asset within a month. -/
structure Month where
  terms : Terms
  layers : List Layer
  retired : List Layer
  leaving : List (Date × List Layer)
  disposal : Option Date
  deriving DecidableEq

/-- A movement that falls due in a month. -/
def apply (policy : Policy) (index : ℕ) (w : Month) : Movement → Month
  | .acquire on amount =>
    let weights := w.terms.convention.startWeights on policy.fiscalYearStart
    { w with
      layers := w.layers ++ [⟨amount - policy.residual, policy.residual, w.terms.life, index, weights,
        w.terms.method, w.terms.params, []⟩] }
  | .opening _ cost accumulated lifeMonths =>
    { w with
      layers := w.layers ++ [⟨cost - accumulated - policy.residual, policy.residual, lifeMonths, index, [1],
        w.terms.method, w.terms.params, []⟩] }
  | .improve on amount lifeMonths =>
    let weights := w.terms.convention.startWeights on policy.fiscalYearStart
    let life : ℚ := match lifeMonths with
      | some months => months
      | none => keepEndLife w.layers index weights
    { w with
      layers := w.layers ++ [⟨amount, 0, life, index, weights, w.terms.method, w.terms.params, []⟩] }
  | .estimateChange _ lifeMonths residual method params convention =>
    let carrying := (w.layers.map Layer.carrying).sum
    let method := method.getD w.terms.method
    let params := params.getD w.terms.params
    { w with
      terms := ⟨method, params, convention.getD w.terms.convention, lifeOf method policy.lifeMonths params⟩
      retired := w.retired ++ w.layers
      layers := [⟨carrying - residual, residual, lifeMonths, index, [1], method, params, []⟩] }
  | .revalue _ fairValue =>
    { w with
      retired := w.retired ++ w.layers
      layers := [merged w.layers fairValue index w.terms.method w.terms.params] }
  | .impair _ carrying =>
    { w with
      retired := w.retired ++ w.layers
      layers := restated w.layers carrying index w.terms.method w.terms.params }
  | .dispose on share =>
    if share.value < 1 then
      { w with
        layers := w.layers.map (Layer.kept · share)
        leaving := w.leaving ++ [(on, w.layers.map (Layer.gone · share))] }
    else { w with disposal := some on }

/-- The asset from month to month. -/
structure Run where
  terms : Terms
  layers : List Layer
  retired : List Layer
  shares : List (ℕ × List Layer)
  months : List (ℕ × Option MissingReading)
  pending : List Movement
  disposal : Option Date
  deriving DecidableEq

/-- The asset after what falls due in a month. -/
def dueIn (policy : Policy) (index : ℕ) (s : Run) : Month :=
  (s.pending.takeWhile fun m => m.firstMonth ≤ index).foldl (apply policy index)
    ⟨s.terms, s.layers, s.retired, [], none⟩

/-- Whether a layer of the month is charged by readings. -/
def Month.takesReading (w : Month) : Bool :=
  (w.layers ++ w.leaving.flatMap Prod.snd).any fun l => l.method.usesReadings

/-- A month, after what falls due in it: every layer consumes its life of it. -/
def closeMonth (policy : Policy) (readings : ℕ → Option ℚ) (index : ℕ) (s : Run) (w : Month) : Run :=
  let reading := if w.takesReading then readings index else none
  let missing := if w.takesReading ∧ reading = none then some ⟨index⟩ else none
  let fyStart := fiscalYearStartIndex index policy.fiscalYearStart
  let gone := w.leaving.map fun g => g.2.map (consume index reading w.terms.convention fyStart (some g.1))
  { terms := w.terms
    layers := w.layers.map (consume index reading w.terms.convention fyStart w.disposal)
    retired := w.retired ++ gone.flatten
    shares := s.shares ++ gone.map (Prod.mk index)
    months := s.months ++ [(index, missing)]
    pending := s.pending.dropWhile fun m => m.firstMonth ≤ index
    disposal := w.disposal }

/-- A month. -/
def stepMonth (policy : Policy) (readings : ℕ → Option ℚ) (index : ℕ) (s : Run) : Run :=
  closeMonth policy readings index s (dueIn policy index s)

/-- The months from `index`, ending with the month of disposal. -/
def runMonths (policy : Policy) (readings : ℕ → Option ℚ) : ℕ → ℕ → Run → Run
  | 0, _, s => s
  | n + 1, index, s =>
    let s' := stepMonth policy readings index s
    if s'.disposal.isSome then s' else runMonths policy readings n (index + 1) s'

/-! ## The schedule -/

/-- The charges of some layers in a month. -/
def byMonth (layers : List Layer) (index : ℕ) : ℚ := Tally.total index (layers.flatMap Layer.dated)

/-- A month's amount, and the cumulative charge and what is posted after it. -/
def periodStep (currency : String) (s : ℚ × ℚ) (month : (ℕ × Option MissingReading) × ℚ) : PeriodAmount × ℚ × ℚ :=
  let cumulative := s.1 + month.2
  let rounded := roundMoney cumulative currency
  (⟨month.1.1, rounded - s.2, cumulative, month.1.2⟩, cumulative, rounded)

/-- `Schedule`: `parted` is what each partial disposal's share was charged in the month
    it left. -/
structure Schedule where
  periods : List PeriodAmount
  layers : List Layer
  parted : List ℚ
  deriving DecidableEq

/-- The months of a run, each with its charge. -/
def Run.charged (s : Run) : List ((ℕ × Option MissingReading) × ℚ) :=
  s.months.map fun month => (month, byMonth (s.retired ++ s.layers) month.1)

/-- What a run is charged. -/
def Run.schedule (s : Run) (currency : String) : Schedule where
  periods := scan (periodStep currency) (0, roundMoney 0 currency) s.charged
  layers := s.layers
  parted := s.shares.map fun part =>
    (part.2.map fun layer => (layer.charges.drop (part.1 - layer.start)).sum).sum

/-- The first month in service. -/
def firstInService (movements : List Movement) : Option ℕ :=
  ((movements.filter fun m => !m.isDispose).map Movement.firstMonth).min?

/-- The asset before its first month. -/
def startRun (policy : Policy) (movements : List Movement) : Run where
  terms := policy.terms
  layers := []
  retired := []
  shares := []
  months := []
  pending := movements.insertionSort Movement.Before
  disposal := none

/-- `schedule`: monthly depreciation from the first month in service through `through`,
    ending with the month of disposal. -/
def schedule (movements : List Movement) (policy : Policy) (through : ℕ) (currency : String)
    (readings : ℕ → Option ℚ) : Schedule :=
  match firstInService (movements.insertionSort Movement.Before) with
  | none => ⟨[], [], []⟩
  | some index =>
    (runMonths policy readings (through + 1 - index) index (startRun policy movements)).schedule currency

end Celerp
