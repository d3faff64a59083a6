/-
  An asset kept to the end of its lives is depreciated in full.

  A layer no one disposes of consumes the same of its life in a month whatever else
  happens (`Layer.normally`), so by the month its life runs out (`Layer.lastMonth`) it has
  consumed all of it (`Layer.Normal.spent`) and is charged its basis. The layers an
  acquisition and improvements lay down stay so (`runMonths_kept`).

  `depreciated_exactly`: once every layer's last month is past, the periods come to the
  depreciable amount, and later ones post nothing.
-/
import Celerp.FixedAssets.Bounds

namespace Celerp

open Scan Tally Runs

/-! ## A layer by the month its life runs out -/

namespace Layer
variable (layer : Layer)

/-- The layer as it was laid down. -/
def fresh : Layer := { layer with fractions := [] }

/-- The month the life runs out, consuming normally from the start. -/
def lastMonth : ℕ := (layer.fresh.lifeEnd layer.start).1

/-- The layer after a month consumed normally. -/
def normally (index : ℕ) : Layer :=
  { layer with
    fractions := layer.fractions ++
      [max (min (layer.normalFraction index) (layer.life - layer.position)) (-layer.position)] }

/-- The layer has consumed the months up to a month normally. -/
def Normal (index : ℕ) : Prop :=
  layer.start ≤ index ∧ (List.range' layer.start (index - layer.start)).foldl normally layer.fresh = layer

/-- A layer laid down with some life, each month of which consumes some. -/
structure Sound (method : Method) (index : ℕ) : Prop where
  method_eq : layer.method = method
  life_pos : 0 < layer.life
  weights_pos : ∀ w ∈ layer.weights, 0 < w
  normal : layer.Normal index

end Layer

section
variable {layer : Layer} {index i n k fuel : ℕ} {left : ℚ} {method : Method}

theorem normalFraction_pos (hweights : ∀ w ∈ layer.weights, 0 < w) (index : ℕ) : 0 < layer.normalFraction index :=
  layer.normalFraction_of one_pos hweights index

theorem position_normally (hweights : ∀ w ∈ layer.weights, 0 < w) (hposition : 0 ≤ layer.position)
    (hle : layer.position ≤ layer.life) (index : ℕ) : (layer.normally index).position =
      layer.position + min (layer.normalFraction index) (layer.life - layer.position) := by
  have hmin : 0 ≤ min (layer.normalFraction index) (layer.life - layer.position) :=
    le_min (normalFraction_pos hweights index).le (sub_nonneg.2 hle)
  rw [Layer.position, Layer.normally, List.sum_append, List.sum_singleton, max_eq_left (by linarith)]
  rfl

/-- A life used up stays so. -/
theorem position_foldl_spent (layer : Layer) (hweights : ∀ w ∈ layer.weights, 0 < w) (hlife : 0 ≤ layer.life)
    (hspent : layer.position = layer.life) (months : List ℕ) :
    (months.foldl Layer.normally layer).position = layer.life := by
  induction months generalizing layer with
  | nil => exact hspent
  | cons i months ih =>
    refine ih (layer.normally i) hweights hlife ?_
    rw [position_normally hweights (hspent ▸ hlife) hspent.le, hspent, sub_self,
      min_eq_right (normalFraction_pos hweights i).le, add_zero]
    rfl

theorem endFrom_normally (layer : Layer) (i fuel index : ℕ) (left : ℚ) :
    (layer.normally i).endFrom fuel index left = layer.endFrom fuel index left := by
  induction fuel generalizing index left with
  | zero => rfl
  | succ fuel ih => rw [Layer.endFrom, Layer.endFrom, ih]; rfl

/-- A search ends no earlier than it starts, with some of the month consumed. -/
theorem endFrom_pos (hweights : ∀ w ∈ layer.weights, 0 < w) (fuel index : ℕ) (hleft : 0 < left) :
    index ≤ (layer.endFrom fuel index left).1 ∧ 0 < (layer.endFrom fuel index left).2 := by
  induction fuel generalizing index left with
  | zero => exact ⟨le_rfl, hleft⟩
  | succ fuel ih =>
    rw [Layer.endFrom]
    split_ifs with hend
    · exact ⟨le_rfl, lt_min (normalFraction_pos hweights index) hleft⟩
    · obtain ⟨hle, hpos⟩ := ih (index + 1) (not_le.1 hend)
      exact ⟨(Nat.le_succ index).trans hle, hpos⟩

/-- **Consuming normally past the month a life runs out uses it up.** -/
theorem position_of_endFrom (layer : Layer) (fuel index k : ℕ) (hweights : ∀ w ∈ layer.weights, 0 < w)
    (hindex : layer.start ≤ index) (hposition : 0 ≤ layer.position) (hleft : 0 < layer.life - layer.position)
    (hfuel : layer.weights.length - (index - layer.start) + ⌈layer.life - layer.position⌉₊ ≤ fuel)
    (hend : (layer.endFrom fuel index (layer.life - layer.position)).1 < index + k) :
    ((List.range' index k).foldl Layer.normally layer).position = layer.life := by
  induction fuel generalizing layer index k with
  | zero =>
    have hceil : 0 < ⌈layer.life - layer.position⌉₊ := Nat.ceil_pos.2 hleft
    omega
  | succ fuel ih =>
    have hle := (endFrom_pos hweights (fuel + 1) index hleft).1
    obtain ⟨k, rfl⟩ : ∃ k', k = k' + 1 := ⟨k - 1, by omega⟩
    have hnext := position_normally hweights hposition (sub_pos.1 hleft).le index
    have hmin : 0 < min (layer.normalFraction index) (layer.life - layer.position) :=
      lt_min (normalFraction_pos hweights index) hleft
    rw [List.range'_succ, List.foldl_cons]
    rw [Layer.endFrom] at hend
    split_ifs at hend with hlast
    · -- the life runs out this month
      refine position_foldl_spent (layer.normally index) hweights ?_ ?_ _
      · show 0 ≤ layer.life
        linarith
      · show (layer.normally index).position = layer.life
        rw [hnext]
        linarith [min_le_right (layer.normalFraction index) (layer.life - layer.position)]
    · rw [not_le] at hlast
      have hrest : (layer.normally index).life - (layer.normally index).position =
          layer.life - layer.position - min (layer.normalFraction index) (layer.life - layer.position) := by
        rw [hnext, sub_add_eq_sub_sub]
        rfl
      have hsearch := Layer.fuel_next (fun w hw => (hweights w hw).le) hleft hindex hlast
      refine ih (layer.normally index) (index + 1) k hweights (hindex.trans (Nat.le_succ index)) ?_ ?_ ?_ ?_
      · rw [hnext]
        linarith
      · rw [hrest]
        exact hlast
      · rw [hrest]
        show layer.weights.length - (index + 1 - layer.start) + _ ≤ fuel
        omega
      · rw [endFrom_normally, hrest]
        omega

/-! ## The months of a sound layer -/

theorem normal_fresh (hstart : layer.start = index) (hfractions : layer.fractions = []) : layer.Normal index := by
  refine ⟨hstart.le, ?_⟩
  rw [hstart, Nat.sub_self]
  show layer.fresh = layer
  rw [Layer.fresh, ← hfractions]

theorem Layer.Normal.normally (h : layer.Normal index) : (layer.normally index).Normal (index + 1) := by
  obtain ⟨hle, hmonths⟩ := h
  refine ⟨hle.trans (Nat.le_succ index), ?_⟩
  show (List.range' layer.start (index + 1 - layer.start)).foldl Layer.normally layer.fresh = _
  rw [Nat.sub_add_comm hle, List.range'_1_concat, List.foldl_append, hmonths, Nat.add_sub_cancel' hle]
  rfl

theorem Layer.Sound.normally (h : layer.Sound method index) : (layer.normally index).Sound method (index + 1) :=
  ⟨h.method_eq, h.life_pos, h.weights_pos, h.normal.normally⟩

/-- Months normally consumed add to those before them. -/
theorem foldl_normally (layer : Layer) (months : List ℕ) :
    ∃ more : List ℚ, more.length = months.length ∧
      months.foldl Layer.normally layer = { layer with fractions := layer.fractions ++ more } := by
  induction months generalizing layer with
  | nil => exact ⟨[], rfl, by simp⟩
  | cons i months ih =>
    obtain ⟨more, hlength, hmore⟩ := ih (layer.normally i)
    refine ⟨max (min (layer.normalFraction i) (layer.life - layer.position)) (-layer.position) :: more, ?_, ?_⟩
    · rw [List.length_cons, List.length_cons, hlength]
    · rw [List.foldl_cons, hmore]
      simp [Layer.normally]

/-- **A sound layer has consumed its life by the month after its last.** -/
theorem Layer.Sound.sum_take (h : layer.Sound method index) (hlast : layer.lastMonth < layer.start + n)
    (hn : layer.start + n ≤ index) : (layer.fractions.take n).sum = layer.life := by
  obtain ⟨hle, hmonths⟩ := h.normal
  have hsplit : List.range' layer.start (index - layer.start) =
      List.range' layer.start n ++ List.range' (layer.start + n) (index - layer.start - n) := by
    rw [List.range'_append_1]
    congr 1
    omega
  obtain ⟨first, hlength, hfirst⟩ := foldl_normally layer.fresh (List.range' layer.start n)
  obtain ⟨more, -, hmore⟩ := foldl_normally ((List.range' layer.start n).foldl Layer.normally layer.fresh)
    (List.range' (layer.start + n) (index - layer.start - n))
  have hfractions : layer.fractions = first ++ more := by
    rw [← List.foldl_append, ← hsplit, hmonths, hfirst] at hmore
    exact congrArg Layer.fractions hmore
  rw [List.length_range'] at hlength
  have hposition := position_of_endFrom layer.fresh layer.fresh.endFuel layer.start n h.weights_pos le_rfl le_rfl
  rw [hfirst] at hposition
  have hzero : layer.fresh.position = 0 := rfl
  rw [hfractions, List.take_left' hlength]
  refine hposition ?_ ?_ hlast
  · rw [hzero, sub_zero]
    exact h.life_pos
  · exact Nat.add_le_add_right (Nat.sub_le _ _) _

theorem Layer.Sound.position_eq (h : layer.Sound method index) (hlast : layer.lastMonth < index) :
    layer.position = layer.life := by
  have hsub : layer.start + (index - layer.start) = index := Nat.add_sub_cancel' h.normal.1
  have hall := h.sum_take (n := index - layer.start) (by omega) (by omega)
  obtain ⟨more, hlength, hmore⟩ := foldl_normally layer.fresh (List.range' layer.start (index - layer.start))
  rw [h.normal.2] at hmore
  have hfractions : layer.fractions = more := congrArg Layer.fractions hmore
  rw [List.take_of_length_le (by rw [hfractions, hlength, List.length_range'])] at hall
  exact hall

/-- **From its last month on, a sound layer is charged its basis.** -/
theorem Layer.Sound.sum_charges (h : layer.Sound method index) (hmethod : method ≠ .noDepreciation)
    (hlast : layer.lastMonth < layer.start + n) (hn : layer.start + n ≤ index) :
    (layer.charges.take n).sum = layer.basis := by
  rw [take_charges]
  have hdepreciates : layer.method ≠ .noDepreciation := by rwa [h.method_eq]
  have hspent : (layer.inputs.consuming (layer.fractions.take n)).fractions.sum = layer.life := h.sum_take hlast hn
  exact sum_amounts_spent hdepreciates h.life_pos hspent

end

/-! ## Movements that lay layers down -/

namespace Movement

/-- How an asset comes to be held: acquired, or brought in. -/
def Begins : Movement → Prop
  | acquire .. | opening .. => True
  | improve .. | estimateChange .. | dispose .. | revalue .. | impair .. => False

def Improves : Movement → Prop
  | improve .. => True
  | acquire .. | opening .. | estimateChange .. | dispose .. | revalue .. | impair .. => False

/-- What the movement lays down has some life: its own, or that of a layer with some left. -/
def HasLife (w : Month) : Movement → Prop
  | acquire .. => 0 < w.terms.life
  | opening _ _ _ lifeMonths => 0 < lifeMonths
  | improve _ _ (some lifeMonths) => 0 < lifeMonths
  | improve _ _ none => ∃ l ∈ w.layers, l.position < l.life
  | estimateChange .. | dispose .. | revalue .. | impair .. => False

instance instDecidableHasLife (w : Month) : ∀ m : Movement, Decidable (m.HasLife w)
  | acquire .. => inferInstanceAs (Decidable (0 < w.terms.life))
  | opening _ _ _ lifeMonths => inferInstanceAs (Decidable (0 < lifeMonths))
  | improve _ _ (some lifeMonths) => inferInstanceAs (Decidable (0 < lifeMonths))
  | improve _ _ none => inferInstanceAs (Decidable (∃ l ∈ w.layers, l.position < l.life))
  | estimateChange .. | dispose .. | revalue .. | impair .. => isFalse id

end Movement

section
variable {policy : Policy} {index : ℕ} {w : Month} {m : Movement} {layers : List Layer} {weights : List ℚ}

theorem laterEnd_eq (a b : ℕ × ℚ) : laterEnd a b = a ∨ laterEnd a b = b := by
  unfold laterEnd
  split_ifs
  · exact .inr rfl
  · exact .inl rfl

theorem foldl_laterEnd_mem (e : ℕ × ℚ) (es : List (ℕ × ℚ)) : es.foldl laterEnd e ∈ e :: es := by
  induction es generalizing e with
  | nil => exact List.mem_cons_self
  | cons e' es ih =>
    rw [List.foldl_cons]
    rcases List.mem_cons.1 (ih (laterEnd e e')) with h | h
    · rw [h]
      rcases laterEnd_eq e e' with h | h
      · rw [h]
        exact List.mem_cons_self
      · rw [h]
        exact List.mem_cons_of_mem _ List.mem_cons_self
    · exact List.mem_cons_of_mem _ (List.mem_cons_of_mem _ h)

theorem weight_pos (hweights : ∀ x ∈ weights, 0 < x) (i : ℕ) : 0 < weights.getD i 1 := by
  rw [List.getD_eq_getElem?_getD]
  cases hx : weights[i]? with
  | none => exact one_pos
  | some x => exact hweights x (List.mem_of_getElem? hx)

/-- An improvement that ends with the asset has some life, while a layer has some left. -/
theorem keepEndLife_pos (hweights : ∀ l ∈ layers, ∀ x ∈ l.weights, 0 < x) (hnew : ∀ x ∈ weights, 0 < x)
    (hleft : ∃ l ∈ layers, l.position < l.life) : 0 < keepEndLife layers index weights := by
  unfold keepEndLife
  have hends : ∀ e ∈ (layers.filter fun l => l.position < l.life).map (Layer.lifeEnd · index),
      index ≤ e.1 ∧ 0 < e.2 := by
    intro e he
    obtain ⟨l, hl, rfl⟩ := List.mem_map.1 he
    have hlt : l.position < l.life := by simpa using List.of_mem_filter hl
    exact endFrom_pos (hweights l (List.mem_of_mem_filter hl)) _ index (sub_pos.2 hlt)
  cases hcases : (layers.filter fun l => l.position < l.life).map (Layer.lifeEnd · index) with
  | nil =>
    obtain ⟨l, hl, hlt⟩ := hleft
    exact absurd (List.map_eq_nil_iff.1 hcases) (List.ne_nil_of_mem (List.mem_filter.2 ⟨hl, by simpa using hlt⟩))
  | cons e es =>
    rw [hcases] at hends
    obtain ⟨hindex, hpos⟩ := hends _ (foldl_laterEnd_mem e es)
    refine List.sum_pos _ ?_ ?_
    · intro x hx
      obtain ⟨i, -, rfl⟩ := List.mem_map.1 hx
      dsimp only
      split_ifs
      · exact lt_min (weight_pos hnew _) hpos
      · exact weight_pos hnew _
    · intro hnil
      have hlength := congrArg List.length hnil
      rw [List.length_map, List.length_range', List.length_nil] at hlength
      omega

/-- **A movement lays down a sound layer**, of what it adds to depreciate. -/
theorem apply_lays (policy : Policy) (hlife : m.HasLife w) (hweights : ∀ l ∈ w.layers, ∀ x ∈ l.weights, 0 < x) :
    ∃ l, apply policy index w m = { w with layers := w.layers ++ [l] } ∧ l.basis = m.laid policy ∧ l.start = index ∧
      l.Sound w.terms.method index := by
  cases m with
  | acquire on amount =>
    exact ⟨_, rfl, rfl, rfl, rfl, hlife, Convention.startWeights_pos _ _ _, normal_fresh rfl rfl⟩
  | opening on cost accumulated lifeMonths =>
    have hpos : (0 : ℚ) < lifeMonths := by exact_mod_cast hlife
    exact ⟨_, rfl, rfl, rfl, rfl, hpos, by simp, normal_fresh rfl rfl⟩
  | improve on amount lifeMonths =>
    cases lifeMonths with
    | none =>
      refine ⟨_, rfl, rfl, rfl, rfl, ?_, Convention.startWeights_pos _ _ _, normal_fresh rfl rfl⟩
      exact keepEndLife_pos hweights (Convention.startWeights_pos _ _ _) hlife
    | some months =>
      have hpos : (0 : ℚ) < months := by exact_mod_cast hlife
      exact ⟨_, rfl, rfl, rfl, rfl, hpos, Convention.startWeights_pos _ _ _, normal_fresh rfl rfl⟩
  | estimateChange | dispose | revalue | impair => exact hlife.elim

theorem foldl_lays (policy : Policy) {due : List Movement} {method : Method} {first : ℕ} (hfirst : first ≤ index)
    (hmethod : w.terms.method = method) (hdue : EveryStep (apply policy index) (fun w m => m.HasLife w) w due)
    (hsound : ∀ l ∈ w.layers, first ≤ l.start ∧ l.Sound method index) :
    ∃ layers, due.foldl (apply policy index) w = { w with layers := layers } ∧
      (∀ l ∈ layers, first ≤ l.start ∧ l.Sound method index) ∧
      bases layers = bases w.layers + (due.map (Movement.laid policy)).sum := by
  induction due generalizing w with
  | nil => exact ⟨w.layers, rfl, hsound, by simp⟩
  | cons m due ih =>
    obtain ⟨hlife, hdue⟩ := hdue
    obtain ⟨l, happly, hbasis, hstart, hl⟩ := apply_lays policy hlife fun l hl => (hsound l hl).2.weights_pos
    rw [hmethod] at hl
    rw [happly] at hdue
    have hmethod' : ({ w with layers := w.layers ++ [l] } : Month).terms.method = method := hmethod
    obtain ⟨layers, hfoldl, hlayers, hbases⟩ := ih hmethod' hdue
      (List.forall_mem_append.2 ⟨hsound, List.forall_mem_singleton.2 ⟨hstart ▸ hfirst, hl⟩⟩)
    refine ⟨layers, ?_, hlayers, ?_⟩
    · rw [List.foldl_cons, happly, hfoldl]
    · rw [hbases, bases_append, bases_singleton, hbasis, List.map_cons, List.sum_cons, add_assoc]

end

/-! ## From month to month -/

/-- What falls due in a month has some life. -/
def DueHasLife (policy : Policy) (s : Run) (index : ℕ) : Prop :=
  EveryStep (apply policy index) (fun w m => m.HasLife w) ⟨s.terms, s.layers, s.retired, [], none⟩
    (s.pending.takeWhile fun m => m.firstMonth ≤ index)

instance (policy : Policy) (s : Run) (index : ℕ) : Decidable (DueHasLife policy s index) := by
  unfold DueHasLife
  infer_instance

/-- An asset no one disposed of at a month, whose layers are sound and with what is still due add
    up to what it depreciates. -/
structure Run.Kept (policy : Policy) (first index : ℕ) (total : ℚ) (s : Run) : Prop where
  terms : s.terms = policy.terms
  retired : s.retired = []
  disposal : s.disposal = none
  layers : ∀ l ∈ s.layers, first ≤ l.start ∧ l.Sound policy.method index
  months : s.months.map Prod.fst = List.range' first (index - first)
  sorted : s.pending.Pairwise Movement.Before
  pending : ∀ m ∈ s.pending, index ≤ m.firstMonth
  bases : bases s.layers + (s.pending.map (Movement.laid policy)).sum = total

section
variable {policy : Policy} {readings : ℕ → Option ℚ} {first index n : ℕ} {total : ℚ} {s : Run}

/-- A month of a layer whose life is not read: it consumes it normally. -/
theorem consume_normally {layer : Layer} (hreadings : layer.method.usesReadings = false) (reading : Option ℚ)
    (convention : Convention) (fyStart : ℕ) :
    consume index reading convention fyStart none layer = layer.normally index := by
  unfold consume consumed Layer.normally
  simp [hreadings]

/-- What falls due in a month of a kept asset lays sound layers down, and nothing else. -/
theorem dueIn_kept (h : s.Kept policy first index total) (hfirst : first ≤ index) (hdue : DueHasLife policy s index) :
    ∃ layers, dueIn policy index s = ⟨s.terms, layers, s.retired, [], none⟩ ∧
      (∀ l ∈ layers, first ≤ l.start ∧ l.Sound policy.method index) ∧ Celerp.bases layers = Celerp.bases s.layers +
        ((s.pending.takeWhile fun m => m.firstMonth ≤ index).map (Movement.laid policy)).sum := by
  have hmethod : (⟨s.terms, s.layers, s.retired, [], none⟩ : Month).terms.method = policy.method := by
    show s.terms.method = policy.method
    rw [h.terms]
    rfl
  exact foldl_lays policy hfirst hmethod hdue h.layers

/-- **A month keeps a kept asset so.** -/
theorem stepMonth_kept (hreadings : policy.method.usesReadings = false) (h : s.Kept policy first index total)
    (hfirst : first ≤ index) (hdue : DueHasLife policy s index) :
    (stepMonth policy readings index s).Kept policy first (index + 1) total := by
  obtain ⟨layers, hdueIn, hlayers, hbases⟩ := dueIn_kept h hfirst hdue
  have hnormally : ∀ l ∈ layers, ∀ reading convention fyStart,
      consume index reading convention fyStart none l = l.normally index := by
    intro l hl reading convention fyStart
    refine consume_normally ?_ reading convention fyStart
    rw [(hlayers l hl).2.method_eq, hreadings]
  unfold stepMonth closeMonth
  rw [hdueIn]
  refine ⟨h.terms, ?_, rfl, ?_, ?_, ?_, ?_, ?_⟩
  · show s.retired ++ _ = []
    rw [h.retired]
    rfl
  · intro l hl
    obtain ⟨l', hl', rfl⟩ := List.mem_map.1 hl
    rw [hnormally l' hl']
    exact ⟨(hlayers l' hl').1, (hlayers l' hl').2.normally⟩
  · have hsucc : index + 1 - first = index - first + 1 := by omega
    rw [List.map_append, h.months, hsucc, List.range'_1_concat, Nat.add_sub_cancel' hfirst]
    rfl
  · exact h.sorted.sublist (List.dropWhile_sublist _)
  · intro m hm
    rw [Grouping.dropWhile_eq_filter (fun a b hab hb => ?_) h.sorted] at hm
    · have hlt : index < m.firstMonth := by simpa using List.of_mem_filter hm
      exact hlt
    · simpa using (firstMonth_le_of_before hab).trans (by simpa using hb)
  · have hsplit : (s.pending.takeWhile fun m => m.firstMonth ≤ index) ++
        (s.pending.dropWhile fun m => m.firstMonth ≤ index) = s.pending := List.takeWhile_append_dropWhile
    have htotal := h.bases
    rw [← hsplit, List.map_append, List.sum_append] at htotal
    show Celerp.bases (layers.map _) + _ = total
    rw [bases_consume, hbases]
    linarith

theorem runMonths_kept (hreadings : policy.method.usesReadings = false) (h : s.Kept policy first index total)
    (hfirst : first ≤ index) (hdue : EveryStep (monthStep policy readings) (DueHasLife policy) s (List.range' index n)) :
    (runMonths policy readings n index s).Kept policy first (index + n) total := by
  induction n generalizing index s with
  | zero => exact h
  | succ n ih =>
    rw [List.range'_succ] at hdue
    obtain ⟨hnow, hrest⟩ := hdue
    have hstep : monthStep policy readings s index = stepMonth policy readings index s := by
      rw [monthStep, h.disposal]
      rfl
    rw [hstep] at hrest
    have hkept : (stepMonth policy readings index s).Kept policy first (index + 1) total :=
      stepMonth_kept hreadings h hfirst hnow
    have hgoes : (stepMonth policy readings index s).disposal.isSome = false := by rw [hkept.disposal]; rfl
    rw [runMonths]
    simp only [hgoes, Bool.false_eq_true, ↓reduceIte]
    rw [Nat.add_comm n 1, ← Nat.add_assoc]
    exact ih hkept (hfirst.trans (Nat.le_succ index)) hrest

/-- What is due after some months was due before them. -/
theorem pending_runMonths (n index : ℕ) (s : Run) : (runMonths policy readings n index s).pending.Sublist s.pending := by
  induction n generalizing index s with
  | zero => exact List.Sublist.refl _
  | succ n ih =>
    have hstep : (stepMonth policy readings index s).pending.Sublist s.pending := List.dropWhile_sublist _
    rw [runMonths]
    split_ifs
    · exact hstep
    · exact (ih (index + 1) _).trans hstep

/-- A month in which nothing falls due lays nothing down, and leaves each life to end when it did. -/
theorem stepMonth_quiet (hnone : s.pending = []) : (stepMonth policy readings index s).pending = [] ∧
    ∀ last, (∀ l ∈ s.layers, l.lastMonth < last) → ∀ l ∈ (stepMonth policy readings index s).layers, l.lastMonth < last := by
  have hdueIn : dueIn policy index s = ⟨s.terms, s.layers, s.retired, [], none⟩ := by rw [dueIn, hnone]; rfl
  unfold stepMonth closeMonth
  rw [hdueIn, hnone]
  refine ⟨rfl, ?_⟩
  intro last hlast l hl
  obtain ⟨l', hl', rfl⟩ := List.mem_map.1 hl
  exact hlast l' hl'

theorem runMonths_quiet (hreadings : policy.method.usesReadings = false) (h : s.Kept policy first index total)
    (hfirst : first ≤ index) (hnone : s.pending = []) {last : ℕ} (hlast : ∀ l ∈ s.layers, l.lastMonth < last) (n : ℕ) :
    (runMonths policy readings n index s).Kept policy first (index + n) total ∧
      (runMonths policy readings n index s).pending = [] ∧
      ∀ l ∈ (runMonths policy readings n index s).layers, l.lastMonth < last := by
  induction n generalizing index s with
  | zero => exact ⟨h, hnone, hlast⟩
  | succ n ih =>
    have hdue : DueHasLife policy s index := by
      rw [DueHasLife, hnone]
      exact everyStep_nil
    have hkept : (stepMonth policy readings index s).Kept policy first (index + 1) total :=
      stepMonth_kept hreadings h hfirst hdue
    have hgoes : (stepMonth policy readings index s).disposal.isSome = false := by rw [hkept.disposal]; rfl
    obtain ⟨hpending, hlayers⟩ := @stepMonth_quiet policy readings index s hnone
    rw [runMonths]
    simp only [hgoes, Bool.false_eq_true, ↓reduceIte]
    rw [Nat.add_comm n 1, ← Nat.add_assoc]
    exact ih hkept (hfirst.trans (Nat.le_succ index)) hpending (hlayers last hlast)

theorem runMonths_add (h : (runMonths policy readings n index s).disposal = none) (hs : s.disposal = none) (k : ℕ) :
    runMonths policy readings (n + k) index s =
      runMonths policy readings k (index + n) (runMonths policy readings n index s) := by
  rw [runMonths_eq_foldl h, runMonths_eq_foldl hs, runMonths_eq_foldl hs, ← List.foldl_append, List.range'_append_1]

end

/-! ## The periods -/

section
variable {policy : Policy} {currency : String} {first index j : ℕ} {total : ℚ} {s : Run} {st : ℚ × ℚ}

/-- The amounts of periods come to what is charged in them, rounded once. -/
theorem sum_amounts {months : List ((ℕ × Option MissingReading) × ℚ)} (hst : st.2 = roundMoney st.1 currency) :
    ((scan (periodStep currency) st months).map (·.amount)).sum =
      roundMoney (st.1 + (months.map Prod.snd).sum) currency - st.2 := by
  induction months generalizing st with
  | nil => simp [hst]
  | cons month months ih =>
    rw [scan_cons, List.map_cons, List.sum_cons, List.map_cons, List.sum_cons, ← add_assoc, ih rfl]
    simp only [periodStep]
    ring

/-- A period's amount is what the months through it come to, rounded, less those before it. -/
theorem amount_eq {p : PeriodAmount} {months : List ((ℕ × Option MissingReading) × ℚ)}
    (hst : st.2 = roundMoney st.1 currency) (hp : p ∈ scan (periodStep currency) st months) :
    ∃ k, (months.map (·.1.1))[k]? = some p.period ∧
      p.amount = roundMoney (st.1 + ((months.take (k + 1)).map Prod.snd).sum) currency -
        roundMoney (st.1 + ((months.take k).map Prod.snd).sum) currency := by
  induction months generalizing st with
  | nil => exact absurd hp List.not_mem_nil
  | cons month months ih =>
    rcases List.mem_cons.1 hp with rfl | hp
    · refine ⟨0, rfl, ?_⟩
      simp [periodStep, hst]
    · obtain ⟨k, hperiod, hamount⟩ := ih rfl hp
      refine ⟨k + 1, hperiod, ?_⟩
      rw [hamount, List.take_succ_cons, List.take_succ_cons, List.map_cons, List.map_cons, List.sum_cons, List.sum_cons,
        ← add_assoc, ← add_assoc]
      rfl

theorem start_le_lastMonth {layer : Layer} {method : Method} (h : layer.Sound method index) :
    layer.start ≤ layer.lastMonth := by
  have hleft : 0 < layer.fresh.life - layer.fresh.position := by
    show 0 < layer.life - 0
    rw [sub_zero]
    exact h.life_pos
  have hweights : ∀ w ∈ layer.fresh.weights, 0 < w := h.weights_pos
  exact (endFrom_pos hweights _ layer.start hleft).1

/-- **Past every last month a kept asset is charged its bases.** -/
theorem sum_charged (hmethod : policy.method ≠ .noDepreciation) (h : s.Kept policy first index total)
    (hlast : ∀ l ∈ s.layers, l.lastMonth < first + j) (hj : first + j ≤ index) :
    ((s.charged.take j).map Prod.snd).sum = bases s.layers := by
  have hsnd : s.charged.map Prod.snd = (List.range' first (index - first)).map (byMonth s.layers) := by
    rw [← h.months, Run.charged, List.map_map, List.map_map, h.retired]
    rfl
  rw [List.map_take, hsnd, ← List.map_take, List.take_range'_of_length_ge (by omega),
    sum_byMonth fun l hl => (h.layers l hl).1]
  refine congrArg List.sum (List.map_congr_left fun l hl => ?_)
  have hsound := (h.layers l hl).2
  have hstart := (start_le_lastMonth hsound).trans_lt (hlast l hl)
  have hsub : l.start + (first + j - l.start) = first + j := Nat.add_sub_cancel' hstart.le
  exact hsound.sum_charges hmethod (by rw [hsub]; exact hlast l hl) (by rw [hsub]; exact hj)

/-- The periods of a kept asset come to its bases, and those after every last month post nothing. -/
theorem periods_kept (hmethod : policy.method ≠ .noDepreciation) (h : s.Kept policy first index total)
    (hfirst : first ≤ index) {last : ℕ} (hlast : ∀ l ∈ s.layers, l.lastMonth < last) (hle : last ≤ index) :
    ((s.schedule currency).periods.map (·.amount)).sum = roundMoney (bases s.layers) currency ∧
      ∀ p ∈ (s.schedule currency).periods, last ≤ p.period → p.amount = 0 := by
  have hlength : s.charged.length = index - first := by
    have hmonths := congrArg List.length h.months
    rw [List.length_map, List.length_range'] at hmonths
    rw [Run.charged, List.length_map, hmonths]
  have hall : ∀ j, last ≤ first + j → first + j ≤ index → ((s.charged.take j).map Prod.snd).sum = bases s.layers :=
    fun j hj hji => sum_charged hmethod h (fun l hl => (hlast l hl).trans_le hj) hji
  constructor
  · have hsum := hall s.charged.length (by omega) (by omega)
    rw [List.take_length] at hsum
    rw [Run.schedule, sum_amounts rfl, hsum, zero_add, roundMoney_zero, sub_zero]
  · intro p hp hperiod
    obtain ⟨k, hk, hamount⟩ := amount_eq rfl hp
    have hfst : s.charged.map (·.1.1) = List.range' first (index - first) := by
      rw [← h.months, Run.charged, List.map_map]
      rfl
    rw [hfst, List.getElem?_eq_some_iff] at hk
    obtain ⟨hk, hat⟩ := hk
    rw [List.getElem_range'_1] at hat
    rw [List.length_range'] at hk
    rw [hamount, hall (k + 1) (by omega) (by omega), hall k (by omega) (by omega), sub_self]

end

/-! ## The schedule -/

/-- What falls due in each month of a schedule has some life. -/
def EveryMovementHasLife (movements : List Movement) (policy : Policy) (through : ℕ) (readings : ℕ → Option ℚ) : Prop :=
  ∀ first, firstInService movements = some first →
    EveryStep (monthStep policy readings) (DueHasLife policy) (startRun policy movements)
      (List.range' first (through + 1 - first))

section
variable {policy : Policy} {readings : ℕ → Option ℚ} {currency : String} {through first : ℕ} {begins m : Movement}
  {later movements : List Movement}

theorem firstInService_exists (hm : m ∈ movements) (hdispose : m.isDispose = false) :
    ∃ first, firstInService movements = some first := by
  cases hfirst : firstInService movements with
  | some first => exact ⟨first, rfl⟩
  | none =>
    rw [firstInService, List.min?_eq_none_iff, List.map_eq_nil_iff, List.filter_eq_nil_iff] at hfirst
    exact absurd (by rw [hdispose]; rfl) (hfirst m hm)

theorem startRun_kept (hfirst : ∀ m ∈ movements, first ≤ m.firstMonth) :
    (startRun policy movements).Kept policy first first (movements.map (Movement.laid policy)).sum where
  terms := rfl
  retired := rfl
  disposal := rfl
  layers := by simp [startRun]
  months := by simp [startRun]
  sorted := pairwise_pending
  pending := fun m hm => hfirst m ((List.mem_insertionSort _).1 hm)
  bases := by
    have hperm := List.perm_insertionSort Movement.Before movements
    simp only [startRun, bases_nil, zero_add]
    exact (hperm.map _).sum_eq

theorem laid_of_begins (h : m.Begins) : m.laid policy = m.worth - policy.residual := by
  cases m with
  | acquire | opening => rfl
  | improve | dispose | estimateChange | revalue | impair => exact h.elim

theorem laid_of_improves (h : m.Improves) : m.laid policy = m.worth := by
  cases m with
  | improve => rfl
  | acquire | opening | dispose | estimateChange | revalue | impair => exact h.elim

theorem isDispose_of_lays (h : m.Begins ∨ m.Improves) : m.isDispose = false := by
  cases m with
  | dispose => exact h.elim False.elim False.elim
  | acquire | opening | improve | estimateChange | revalue | impair => rfl

/-- **An asset kept to the end is depreciated exactly**, where all that is laid down has some life:
    once every layer's last month is past, each has consumed its life, the periods come to the
    depreciable amount, and later ones post nothing. -/
theorem depreciated_exactly (hbegins : begins.Begins) (hlater : ∀ m ∈ later, m.Improves)
    (hreadings : policy.method.usesReadings = false) (hmethod : policy.method ≠ .noDepreciation)
    (hlife : EveryMovementHasLife (begins :: later) policy through readings)
    (hdue : ∀ m ∈ begins :: later, m.firstMonth ≤ through)
    (hthrough : ∀ l ∈ (schedule (begins :: later) policy through currency readings).layers, l.lastMonth ≤ through) :
    (∀ l ∈ (schedule (begins :: later) policy through currency readings).layers, l.position = l.life) ∧
      ((schedule (begins :: later) policy through currency readings).periods.map (·.amount)).sum =
        roundMoney (((begins :: later).map Movement.worth).sum - policy.residual) currency ∧
      ∀ longer, through ≤ longer → ∀ p ∈ (schedule (begins :: later) policy longer currency readings).periods,
        through < p.period → p.amount = 0 := by
  have hdispose : ∀ m ∈ begins :: later, m.isDispose = false := by
    intro m hm
    rcases List.mem_cons.1 hm with rfl | hm
    · exact isDispose_of_lays (.inl hbegins)
    · exact isDispose_of_lays (.inr (hlater m hm))
  have htotal : ((begins :: later).map (Movement.laid policy)).sum =
      ((begins :: later).map Movement.worth).sum - policy.residual := by
    have hrest : later.map (Movement.laid policy) = later.map Movement.worth :=
      List.map_congr_left fun m hm => laid_of_improves (hlater m hm)
    rw [List.map_cons, List.sum_cons, List.map_cons, List.sum_cons, hrest, laid_of_begins hbegins]
    ring
  obtain ⟨first, hfirst⟩ := firstInService_exists List.mem_cons_self (hdispose begins List.mem_cons_self)
  obtain ⟨⟨m, hm, -, hmonth⟩, hmin⟩ := firstInService_eq_some.1 hfirst
  have hfrom : first ≤ through := hmonth ▸ hdue m hm
  have hstart : (startRun policy (begins :: later)).Kept policy first first
      ((begins :: later).map (Movement.laid policy)).sum :=
    startRun_kept fun m hm => hmin m hm (hdispose m hm)
  have hkept := runMonths_kept hreadings hstart le_rfl (hlife first hfirst)
  have hindex : first + (through + 1 - first) = through + 1 := by omega
  rw [hindex] at hkept
  rw [schedule_of_firstInService hfirst] at hthrough ⊢
  generalize hs : runMonths policy readings (through + 1 - first) first (startRun policy (begins :: later)) = s at *
  have hlast : ∀ l ∈ s.layers, l.lastMonth < through + 1 := fun l hl => Nat.lt_succ_of_le (hthrough l hl)
  -- nothing is due after every last month
  have hnone : s.pending = [] := by
    refine List.eq_nil_iff_forall_not_mem.2 fun m hm => ?_
    have hm' : m ∈ begins :: later := by
      have hsub := @pending_runMonths policy readings (through + 1 - first) first (startRun policy (begins :: later))
      rw [hs] at hsub
      exact (List.mem_insertionSort _).1 (hsub.subset hm)
    have hle := hkept.pending m hm
    have hge := hdue m hm'
    omega
  have hbases : bases s.layers = ((begins :: later).map Movement.worth).sum - policy.residual := by
    have hbases := hkept.bases
    rw [hnone, List.map_nil, List.sum_nil, add_zero] at hbases
    rw [hbases, htotal]
  refine ⟨fun l hl => (hkept.layers l hl).2.position_eq (hlast l hl), ?_, ?_⟩
  · rw [← hbases]
    exact (periods_kept hmethod hkept (by omega) hlast le_rfl).1
  · intro longer hlonger p hp hperiod
    have hmonths : longer + 1 - first = through + 1 - first + (longer - through) := by omega
    rw [schedule_of_firstInService hfirst, hmonths, runMonths_add (by rw [hs]; exact hkept.disposal) rfl, hs, hindex] at hp
    obtain ⟨hlonger', -, hlast'⟩ := runMonths_quiet hreadings hkept (by omega) hnone hlast (longer - through)
    exact (periods_kept hmethod hlonger' (by omega) hlast' (by omega)).2 p hp hperiod

end

/-- An asset bought in January and improved in June, ending with it. -/
def juneImprovement : Movement := .improve tenthOfJune 30 none

def twoYears : Policy := ⟨.sumOfYearsDigits, 24, 10, .midMonth, 1, {}⟩

theorem januaryPurchase_depreciated :
    ((schedule [januaryPurchase, juneImprovement] twoYears 24336 "EUR" fun _ => none).periods.map (·.amount)).sum =
      roundMoney (([januaryPurchase, juneImprovement].map Movement.worth).sum - 10) "EUR" := by
  have hbegins : januaryPurchase.Begins := trivial
  have himproves : ∀ m ∈ [juneImprovement], m.Improves := List.forall_mem_singleton.2 trivial
  have hmethod : twoYears.method ≠ .noDepreciation := by decide
  refine (depreciated_exactly hbegins himproves rfl hmethod ?_ ?_ ?_).2.1
  · intro first hfirst
    have hjanuary : firstInService [januaryPurchase, juneImprovement] = some 24312 := by decide
    obtain rfl : 24312 = first := Option.some.inj (hjanuary.symm.trans hfirst)
    decide +kernel
  · decide
  · decide +kernel

/-- An asset brought in at the end of 2025 with 40 of 100 depreciated and no life left. -/
def spentOpening : Movement := .opening (.of 2025 12 31 (by decide)) 100 40 0

def fiveYears : Policy := ⟨.straightLine, 60, 0, .fullMonth, 1, {}⟩

/-- It stays at 60. -/
theorem spentOpening_stranded :
    spentOpening.Begins ∧ spentOpening.firstMonth ≤ 24400 ∧
      (∀ l ∈ (schedule [spentOpening] fiveYears 24400 "EUR" fun _ => none).layers, l.lastMonth ≤ 24400) ∧
      ((schedule [spentOpening] fiveYears 24400 "EUR" fun _ => none).periods.map (·.amount)).sum = 0 ∧
      roundMoney (([spentOpening].map Movement.worth).sum - fiveYears.residual) "EUR" = 60 := by
  refine ⟨trivial, by decide, ?_, ?_, ?_⟩
  · decide +kernel
  · decide +kernel
  · decide +kernel

end Celerp
