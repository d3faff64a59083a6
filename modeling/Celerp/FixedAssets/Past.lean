/-
  What a month was charged stays.

  A layer at a month has consumed the months up to it (`Month.At`), so no movement of the
  month changes what the asset was charged before it (`byMonth_apply`), and no run from
  the month on does (`before_runMonths`). Two runs that agree on what falls due before a
  month agree on every month up to it (`runMonths_agree`).
-/
import Celerp.FixedAssets.Engine
import Celerp.Lib.Grouping

namespace Celerp

open Scan Tally

/-! ## Charges by month -/

section
variable {layer : Layer} {layers more : List Layer} {index i : ℕ} {share : Share}

@[simp] theorem byMonth_nil : byMonth [] i = 0 := rfl

@[simp] theorem byMonth_append : byMonth (layers ++ more) i = byMonth layers i + byMonth more i := by
  simp [byMonth]

theorem byMonth_map (f : Layer → Layer) (h : ∀ l ∈ layers, total i (f l).dated = total i l.dated) :
    byMonth (layers.map f) i = byMonth layers i := by
  unfold byMonth
  rw [total_flatMap, total_flatMap, List.map_map]
  exact congrArg List.sum (List.map_congr_left h)

@[simp] theorem length_charges : layer.charges.length = layer.fractions.length := length_amounts

theorem dated_of_fractions_eq_nil (h : layer.fractions = []) : layer.dated = [] := by
  have hcharges : layer.charges = [] := List.length_eq_zero_iff.1 (by rw [length_charges, h]; rfl)
  rw [Layer.dated, hcharges]
  rfl

/-- The months a layer has not come to leave those before as they were charged. -/
theorem total_dated_consume {reading : Option ℚ} {convention : Convention} {fyStart : ℕ} {disposal : Option Date}
    (h : i < layer.start + layer.fractions.length) :
    total i (consume index reading convention fyStart disposal layer).dated = total i layer.dated := by
  obtain ⟨rest, hlength, hrest⟩ := amounts_append layer.inputs layer.method layer.fractions
    [max (consumed layer index reading convention fyStart disposal) (-layer.position)]
  have hcharges : (consume index reading convention fyStart disposal layer).charges = layer.charges ++ rest :=
    hrest
  have hstart : (consume index reading convention fyStart disposal layer).start = layer.start := rfl
  rw [Layer.dated, Layer.dated, hcharges, hstart, List.zipIdx_append, List.map_append, total_append,
    length_charges, total_zipIdx_of_lt h, add_zero]

/-! ## Parts of a layer -/

theorem total_zipIdx_map_mul (k : ℚ) (l : List ℚ) (start : ℕ) :
    total i (((l.map (k * ·)).zipIdx start).map Prod.swap) = k * total i ((l.zipIdx start).map Prod.swap) := by
  induction l generalizing start with
  | nil => simp
  | cons v l ih =>
    simp only [List.map_cons, List.zipIdx_cons, Prod.swap_prod_mk, total_cons, ih]
    split_ifs <;> ring

theorem charges_gone : (layer.gone share).charges = layer.charges.map (share.value * ·) := by
  have hinputs : (layer.gone share).inputs = layer.inputs.scaled share.value := by
    simp only [Layer.gone, Layer.inputs, MethodInputs.scaled, mul_comm]
  show layer.method.amounts (layer.gone share).inputs = _
  rw [hinputs, amounts_scaled share.pos.le]
  rfl

theorem charges_kept : (layer.kept share).charges = layer.charges.map ((1 - share.value) * ·) := by
  have hinputs : (layer.kept share).inputs = layer.inputs.scaled (1 - share.value) := by
    simp only [Layer.kept, Layer.gone, Layer.inputs, MethodInputs.scaled, MethodInputs.mk.injEq, and_true]
    constructor <;> ring
  show layer.method.amounts (layer.kept share).inputs = _
  rw [hinputs, amounts_scaled (sub_nonneg.2 share.le_one)]
  rfl

/-- **The share split off and the part kept together charge each month what the whole
    layer did.** -/
theorem total_split (layer : Layer) (share : Share) (i : ℕ) :
    total i (layer.gone share).dated + total i (layer.kept share).dated = total i layer.dated := by
  have hgone : (layer.gone share).start = layer.start := rfl
  have hkept : (layer.kept share).start = layer.start := rfl
  simp only [Layer.dated, charges_gone, charges_kept, hgone, hkept, total_zipIdx_map_mul]
  ring

theorem byMonth_split (layers : List Layer) (share : Share) (i : ℕ) : byMonth (layers.map (Layer.kept · share)) i +
    byMonth (layers.map (Layer.gone · share)) i = byMonth layers i := by
  unfold byMonth
  simp only [total_flatMap, List.map_map, ← List.sum_map_add]
  refine congrArg List.sum (List.map_congr_left fun l _ => ?_)
  rw [add_comm]
  exact total_split l share i

end

/-! ## A month -/

/-- The layers have consumed the months up to a month. -/
def Started (index : ℕ) (layers : List Layer) : Prop :=
  ∀ l ∈ layers, l.start + l.fractions.length = index

/-- The asset is at a month: every layer but those retired has consumed the months up
    to it. -/
structure Month.At (index : ℕ) (w : Month) : Prop where
  layers : Started index w.layers
  leaving : ∀ g ∈ w.leaving, Started index g.2

/-- All layers of a month. -/
def Month.all (w : Month) : List Layer := w.retired ++ w.layers ++ w.leaving.flatMap Prod.snd

section
variable {policy : Policy} {index i : ℕ} {w : Month} {m : Movement} {layers : List Layer}
  {method : Method} {params : Params} {value : ℚ}

theorem started_append {more : List Layer} :
    Started index (layers ++ more) ↔ Started index layers ∧ Started index more :=
  List.forall_mem_append

theorem started_singleton {layer : Layer} (hstart : layer.start = index) (h : layer.fractions = []) :
    Started index [layer] := by
  intro l hl
  obtain rfl := List.mem_singleton.1 hl
  rw [h, hstart]
  rfl

/-- A layer laid down in a month starts in it, with nothing consumed. -/
theorem fresh_restated : ∀ l ∈ restated layers value index method params, l.start = index ∧ l.fractions = [] := by
  intro l hl
  unfold restated at hl
  simp only at hl
  split_ifs at hl
  · obtain rfl := List.mem_singleton.1 hl
    exact ⟨rfl, rfl⟩
  · obtain ⟨l', -, rfl⟩ := List.mem_map.1 hl
    exact ⟨rfl, rfl⟩

theorem byMonth_of_fresh (h : ∀ l ∈ layers, l.fractions = []) : byMonth layers i = 0 := by
  have hdated : layers.flatMap Layer.dated = [] :=
    List.flatMap_eq_nil_iff.2 fun l hl => dated_of_fractions_eq_nil (h l hl)
  rw [byMonth, hdated]
  rfl

theorem byMonth_cons {layer : Layer} (h : layer.fractions = []) : byMonth (layer :: layers) i = byMonth layers i := by
  rw [← List.singleton_append, byMonth_append, byMonth_of_fresh fun _ hl => List.mem_singleton.1 hl ▸ h, zero_add]

/-- A movement leaves the layers at the month. -/
theorem apply_at (policy : Policy) (h : w.At index) (m : Movement) : (apply policy index w m).At index := by
  cases m with
  | acquire on amount =>
    exact ⟨started_append.2 ⟨h.layers, started_singleton rfl rfl⟩, h.leaving⟩
  | improve on amount lifeMonths =>
    exact ⟨started_append.2 ⟨h.layers, started_singleton rfl rfl⟩, h.leaving⟩
  | opening on cost accumulated lifeMonths =>
    exact ⟨started_append.2 ⟨h.layers, started_singleton rfl rfl⟩, h.leaving⟩
  | estimateChange on lifeMonths residual method params convention =>
    exact ⟨started_singleton rfl rfl, h.leaving⟩
  | revalue on fairValue => exact ⟨started_singleton rfl rfl, h.leaving⟩
  | impair on carrying =>
    refine ⟨fun l hl => ?_, h.leaving⟩
    obtain ⟨hstart, hfractions⟩ := fresh_restated l hl
    rw [hstart, hfractions]
    rfl
  | dispose on share =>
    simp only [apply]
    split_ifs
    · refine ⟨?_, fun g hg => ?_⟩
      · intro l hl
        obtain ⟨l', hl', rfl⟩ := List.mem_map.1 hl
        exact h.layers l' hl'
      · rcases List.mem_append.1 hg with hg | hg
        · exact h.leaving g hg
        · obtain rfl := List.mem_singleton.1 hg
          intro l hl
          obtain ⟨l', hl', rfl⟩ := List.mem_map.1 hl
          exact h.layers l' hl'
    · exact ⟨h.layers, h.leaving⟩

/-- **A movement leaves every month as it was charged**: what it lays down has consumed
    nothing yet, what it retires stays, and the parts it splits add up. -/
theorem byMonth_apply (m : Movement) : byMonth (apply policy index w m).all i = byMonth w.all i := by
  cases m with
  | acquire on amount => simp [apply, Month.all, byMonth_cons]
  | improve on amount lifeMonths => simp [apply, Month.all, byMonth_cons]
  | opening on cost accumulated lifeMonths => simp [apply, Month.all, byMonth_cons]
  | estimateChange on lifeMonths residual method params convention =>
    simp [apply, Month.all, byMonth_cons]
  | revalue on fairValue => simp [apply, Month.all, byMonth_cons, merged]
  | impair on carrying =>
    have hfresh : byMonth (restated w.layers carrying index w.terms.method w.terms.params) i = 0 :=
      byMonth_of_fresh fun l hl => (fresh_restated l hl).2
    simp [apply, Month.all, hfresh]
  | dispose on share =>
    simp only [apply]
    split_ifs
    · have hsplit := byMonth_split w.layers share i
      simp only [Month.all, List.flatMap_append, byMonth_append, List.flatMap_cons, List.flatMap_nil,
        List.append_nil]
      linarith
    · rfl

theorem foldl_apply (policy : Policy) (i : ℕ) (due : List Movement) (h : w.At index) :
    (due.foldl (apply policy index) w).At index ∧
      byMonth (due.foldl (apply policy index) w).all i = byMonth w.all i := by
  induction due generalizing w with
  | nil => exact ⟨h, rfl⟩
  | cons m due ih =>
    obtain ⟨hat, hby⟩ := ih (apply_at policy h m)
    exact ⟨hat, hby.trans (byMonth_apply m)⟩

end

/-! ## From month to month -/

/-- The asset is at a month, with the months before it stepped through. -/
structure Run.At (index : ℕ) (s : Run) : Prop where
  layers : Started index s.layers
  ascending : s.months.Pairwise fun a b => a.1 < b.1
  past : ∀ month ∈ s.months, month.1 < index

/-- What the asset was charged before a month. -/
def Run.before (k : ℕ) (s : Run) : List ((ℕ × Option MissingReading) × ℚ) :=
  s.charged.filter fun month => month.1.1 < k

section
variable {policy : Policy} {readings : ℕ → Option ℚ} {index i k n : ℕ} {s s' : Run} {w : Month}

theorem started_consume {layers : List Layer} {reading : Option ℚ} {convention : Convention} {fyStart : ℕ}
    {disposal : Option Date} (h : Started index layers) :
    Started (index + 1) (layers.map (consume index reading convention fyStart disposal)) := by
  intro l hl
  obtain ⟨l', hl', rfl⟩ := List.mem_map.1 hl
  simp only [consume, List.length_append, List.length_singleton]
  rw [← add_assoc, h l' hl']

theorem byMonth_consume {layers : List Layer} {reading : Option ℚ} {convention : Convention} {fyStart : ℕ}
    {disposal : Option Date} (h : Started index layers) (hi : i < index) :
    byMonth (layers.map (consume index reading convention fyStart disposal)) i = byMonth layers i :=
  byMonth_map _ fun l hl => total_dated_consume ((h l hl).symm ▸ hi)

theorem byMonth_leaving {leaving : List (Date × List Layer)} {reading : Option ℚ} {convention : Convention}
    {fyStart : ℕ} (h : ∀ g ∈ leaving, Started index g.2) (hi : i < index) :
    byMonth (leaving.map fun g => g.2.map (consume index reading convention fyStart (some g.1))).flatten i =
      byMonth (leaving.flatMap Prod.snd) i := by
  induction leaving with
  | nil => rfl
  | cons g leaving ih =>
    rw [List.forall_mem_cons] at h
    rw [List.map_cons, List.flatten_cons, List.flatMap_cons, byMonth_append, byMonth_append, ih h.2,
      byMonth_consume h.1 hi]

theorem dueIn_at (policy : Policy) (i : ℕ) (h : s.At index) : (dueIn policy index s).At index ∧
    byMonth (dueIn policy index s).all i = byMonth (s.retired ++ s.layers) i := by
  have hstart : (⟨s.terms, s.layers, s.retired, [], none⟩ : Month).At index := ⟨h.layers, by simp⟩
  obtain ⟨hat, hby⟩ := foldl_apply policy i (s.pending.takeWhile fun m => m.firstMonth ≤ index) hstart
  exact ⟨hat, hby.trans (by simp [Month.all])⟩

theorem stepMonth_at (h : s.At index) : (stepMonth policy readings index s).At (index + 1) where
  layers := started_consume (dueIn_at policy 0 h).1.layers
  ascending := by
    refine List.pairwise_append.2 ⟨h.ascending, List.pairwise_singleton _ _, fun a ha b hb => ?_⟩
    obtain rfl := List.mem_singleton.1 hb
    exact h.past a ha
  past := by
    intro month hmonth
    rcases List.mem_append.1 hmonth with hmonth | hmonth
    · exact (h.past month hmonth).trans (Nat.lt_succ_self index)
    · obtain rfl := List.mem_singleton.1 hmonth
      exact Nat.lt_succ_self index

/-- **A month leaves those before it as they were charged.** -/
theorem byMonth_stepMonth (h : s.At index) (hi : i < index) :
    byMonth ((stepMonth policy readings index s).retired ++ (stepMonth policy readings index s).layers) i =
      byMonth (s.retired ++ s.layers) i := by
  obtain ⟨hat, hby⟩ := dueIn_at policy i h
  rw [← hby]
  simp only [stepMonth, closeMonth, byMonth_append, Month.all, byMonth_consume hat.layers hi,
    byMonth_leaving hat.leaving hi]
  ring

theorem before_stepMonth (h : s.At index) (hk : k ≤ index) :
    (stepMonth policy readings index s).before k = s.before k := by
  obtain ⟨missing, hmonths⟩ : ∃ missing, (stepMonth policy readings index s).months = s.months ++ [(index, missing)] :=
    ⟨_, rfl⟩
  have hnew : [(index, missing)].filter ((fun month => decide (month.1.1 < k)) ∘
      fun month => (month, byMonth ((stepMonth policy readings index s).retired ++
        (stepMonth policy readings index s).layers) month.1)) = [] := by
    simpa using hk
  unfold Run.before Run.charged
  rw [List.filter_map, List.filter_map, hmonths, List.filter_append, hnew, List.append_nil]
  refine List.map_congr_left fun month hmonth => ?_
  have hlt : month.1 < k := by simpa using List.of_mem_filter hmonth
  rw [byMonth_stepMonth h (hlt.trans_le hk)]

/-- **No run from a month on changes what was charged before it.** -/
theorem before_runMonths (h : s.At index) (hk : k ≤ index) :
    (runMonths policy readings n index s).before k = s.before k := by
  induction n generalizing index s with
  | zero => rfl
  | succ n ih =>
    rw [runMonths]
    split_ifs
    · exact before_stepMonth h hk
    · rw [ih (stepMonth_at h) (hk.trans (Nat.le_succ index)), before_stepMonth h hk]

theorem ascending_runMonths (h : s.At index) :
    (runMonths policy readings n index s).months.Pairwise fun a b => a.1 < b.1 := by
  induction n generalizing index s with
  | zero => exact h.ascending
  | succ n ih =>
    rw [runMonths]
    split_ifs
    · exact (stepMonth_at h).ascending
    · exact ih (stepMonth_at h)

end

/-! ## Two runs -/

theorem before_total (m n : Movement) : m.Before n ∨ n.Before m := le_total _ _

theorem before_trans (m n o : Movement) (hmn : m.Before n) (hno : n.Before o) : m.Before o :=
  le_trans hmn hno

/-- What falls due by a month comes before the rest. -/
theorem firstMonth_le_of_before {m n : Movement} (h : m.Before n) : m.firstMonth ≤ n.firstMonth := by
  rcases Prod.Lex.le_iff.1 h with h | h
  · exact h.le
  · exact h.1.le

/-- Two assets are the same but for what falls due from a month on. -/
structure Agree (k : ℕ) (s s' : Run) : Prop where
  run : s' = { s with pending := s'.pending }
  sorted : s.pending.Pairwise Movement.Before
  sorted' : s'.pending.Pairwise Movement.Before
  pending : (s'.pending.filter fun m => m.firstMonth < k) = s.pending.filter fun m => m.firstMonth < k

section
variable {policy : Policy} {readings : ℕ → Option ℚ} {index i k n : ℕ} {s s' : Run}

/-- What falls due in a month, of movements in order. -/
theorem takeWhile_due {pending : List Movement} (h : pending.Pairwise Movement.Before) (hk : index < k) :
    (pending.takeWhile fun m => m.firstMonth ≤ index) =
      (pending.filter fun m => m.firstMonth < k).filter fun m => m.firstMonth ≤ index := by
  rw [Grouping.takeWhile_eq_filter (fun a b hab hb => ?_) h, List.filter_filter]
  · refine List.filter_congr fun m _ => ?_
    by_cases hm : m.firstMonth ≤ index
    · simp [hm, hm.trans_lt hk]
    · simp [hm]
  · simpa using (firstMonth_le_of_before hab).trans (by simpa using hb)

theorem dropWhile_due {pending : List Movement} (h : pending.Pairwise Movement.Before) :
    ((pending.dropWhile fun m => m.firstMonth ≤ index).filter fun m => m.firstMonth < k) =
      (pending.filter fun m => m.firstMonth < k).filter fun m => !decide (m.firstMonth ≤ index) := by
  rw [Grouping.dropWhile_eq_filter (fun a b hab hb => ?_) h, List.filter_comm]
  simpa using (firstMonth_le_of_before hab).trans (by simpa using hb)

theorem Agree.stepMonth (h : Agree k s s') (hk : index < k) :
    Agree k (stepMonth policy readings index s) (stepMonth policy readings index s') := by
  have hdue : dueIn policy index s' = dueIn policy index s := by
    rw [dueIn, dueIn, takeWhile_due h.sorted hk, takeWhile_due h.sorted' hk, h.pending]
    rw [h.run]
  refine ⟨?_, ?_, ?_, ?_⟩
  · rw [Celerp.stepMonth, Celerp.stepMonth, hdue]
    rw [h.run]
    rfl
  · exact h.sorted.sublist (List.dropWhile_sublist _)
  · exact h.sorted'.sublist (List.dropWhile_sublist _)
  · show ((s'.pending.dropWhile _).filter _) = ((s.pending.dropWhile _).filter _)
    rw [dropWhile_due h.sorted, dropWhile_due h.sorted', h.pending]

/-- **Assets that agree on what falls due before a month are charged the same before it.** -/
theorem Agree.runMonths (h : Agree k s s') (hs : s.At index) (hs' : s'.At index) :
    (runMonths policy readings n index s').before k = (runMonths policy readings n index s).before k := by
  have hnow : ∀ {s s' : Run}, Agree k s s' → s'.before k = s.before k := by
    intro s s' h
    rw [h.run]
    rfl
  induction n generalizing index s s' with
  | zero => exact hnow h
  | succ n ih =>
    rcases lt_or_ge index k with hk | hk
    · have hstep : Agree k (Celerp.stepMonth policy readings index s) (Celerp.stepMonth policy readings index s') :=
        h.stepMonth hk
      have hdisposal := congrArg Run.disposal hstep.run
      simp only at hdisposal
      rw [Celerp.runMonths, Celerp.runMonths]
      simp only [hdisposal]
      split_ifs
      · exact hnow hstep
      · exact ih hstep (stepMonth_at hs) (stepMonth_at hs')
    · rw [before_runMonths hs' hk, before_runMonths hs hk, hnow h]

end

/-! ## The schedule -/

section
variable {movements : List Movement} {policy : Policy} {through f k : ℕ} {currency : String}
  {readings : ℕ → Option ℚ} {m : Movement} {s : Run}

/-- The periods of a run before a month are those of what was charged before it. -/
theorem periods_before (h : s.months.Pairwise fun a b => a.1 < b.1) :
    ((s.schedule currency).periods.filter fun p => p.period < k) =
      scan (periodStep currency) (0, roundMoney 0 currency) (s.before k) := by
  have hsorted : s.charged.Pairwise fun a b => a.1.1 < b.1.1 := h.map _ fun a b hab => hab
  have hsplit := Grouping.filter_append_filter (p := fun month => decide (month.1.1 < k))
    (fun a b hab hb => by simpa using hab.trans (by simpa using hb)) hsorted
  exact filter_scan (fun _ _ => rfl) hsplit

theorem firstInService_eq_some : firstInService movements = some f ↔
    (∃ m ∈ movements, m.isDispose = false ∧ m.firstMonth = f) ∧
      ∀ m ∈ movements, m.isDispose = false → f ≤ m.firstMonth := by
  simp only [firstInService, List.min?_eq_some_iff, List.mem_map, List.mem_filter, Bool.not_eq_true']
  constructor
  · rintro ⟨⟨first, ⟨hfirst, hdispose⟩, rfl⟩, hmin⟩
    exact ⟨⟨first, hfirst, hdispose, rfl⟩, fun n hn hn' => hmin _ ⟨n, ⟨hn, hn'⟩, rfl⟩⟩
  · rintro ⟨⟨first, hfirst, hdispose, rfl⟩, hmin⟩
    refine ⟨⟨first, ⟨hfirst, hdispose⟩, rfl⟩, ?_⟩
    rintro _ ⟨n, ⟨hn, hn'⟩, rfl⟩
    exact hmin n hn hn'

theorem firstInService_perm {movements' : List Movement} (h : movements.Perm movements') :
    firstInService movements' = some f ↔ firstInService movements = some f := by
  simp only [firstInService_eq_some, h.mem_iff]

theorem firstInService_append (hf : firstInService movements = some f) (hk : f < m.firstMonth) :
    firstInService (movements ++ [m]) = some f := by
  rw [firstInService_eq_some] at hf ⊢
  obtain ⟨⟨first, hfirst, hdispose, rfl⟩, hmin⟩ := hf
  refine ⟨⟨first, List.mem_append_left _ hfirst, hdispose, rfl⟩, fun n hn hdispose => ?_⟩
  rcases List.mem_append.1 hn with hn | hn
  · exact hmin n hn hdispose
  · obtain rfl := List.mem_singleton.1 hn
    exact hk.le

theorem schedule_of_firstInService (hf : firstInService movements = some f) :
    schedule movements policy through currency readings =
      (runMonths policy readings (through + 1 - f) f (startRun policy movements)).schedule currency := by
  have hsorted := (firstInService_perm (List.perm_insertionSort Movement.Before movements).symm).2 hf
  rw [schedule, hsorted]

theorem startRun_at : (startRun policy movements).At f :=
  ⟨by simp [Started, startRun], List.Pairwise.nil, by simp [startRun]⟩

theorem pairwise_pending : (startRun policy movements).pending.Pairwise Movement.Before := by
  have : Std.Total Movement.Before := ⟨before_total⟩
  have : IsTrans Movement Movement.Before := ⟨before_trans⟩
  exact List.pairwise_insertionSort Movement.Before movements

/-- A movement agrees with the list without it on what falls due before it. -/
theorem agree_startRun : Agree m.firstMonth (startRun policy movements) (startRun policy (movements ++ [m])) where
  run := rfl
  sorted := pairwise_pending
  sorted' := pairwise_pending
  pending := by
    simp only [startRun]
    rw [Grouping.filter_insertionSort before_total before_trans, List.filter_append,
      Grouping.filter_insertionSort before_total before_trans]
    simp

/-- **A later movement never restates an earlier month.** -/
theorem earlier_months_kept (hf : firstInService movements = some f) (hk : f < m.firstMonth) :
    ((schedule (movements ++ [m]) policy through currency readings).periods.filter fun p =>
        p.period < m.firstMonth) =
      ((schedule movements policy through currency readings).periods.filter fun p => p.period < m.firstMonth) ∧
    ∀ (layer : Layer) (share : Share) (i : ℕ),
      total i (layer.gone share).dated + total i (layer.kept share).dated = total i layer.dated := by
  refine ⟨?_, total_split⟩
  rw [schedule_of_firstInService hf, schedule_of_firstInService (firstInService_append hf hk),
    periods_before (ascending_runMonths startRun_at), periods_before (ascending_runMonths startRun_at),
    agree_startRun.runMonths startRun_at startRun_at]

end

/-- An asset bought in January, half of which is sold in June. -/
def januaryPurchase : Movement := .acquire (.of 2026 1 15 (by decide)) 100

def tenthOfJune : Date := .of 2026 6 10 (by decide)

def juneSale : Movement := .dispose tenthOfJune ⟨1 / 2, by norm_num, by norm_num⟩

theorem earlier_months_kept_juneSale :
    ((schedule ([januaryPurchase] ++ [juneSale]) ⟨.decliningBalance, 36, 10, .halfYear, 1, {}⟩ 24323 "EUR"
        fun _ => none).periods.filter fun p => p.period < juneSale.firstMonth) =
      ((schedule [januaryPurchase] ⟨.decliningBalance, 36, 10, .halfYear, 1, {}⟩ 24323 "EUR"
        fun _ => none).periods.filter fun p => p.period < juneSale.firstMonth) :=
  (earlier_months_kept (f := 24312) (by decide) (by decide)).1

end Celerp
