/-
  No change of the stock is lost on its way to the shop.

  `StockQueue.Sound` is the invariant: a row is queued for what the shop does not show yet, and while
  a delivery writes what it read before the last change, one it did not take.  Each step keeps it
  (`StockQueue.Sound.step`).

  `stock_delivered`: over every run whose writes take turns (`StockQueue.promised`), the shop shows
  the stock as it is after the last change, or that was given up, or a row is queued.
-/
import Celerp.Connectors.StockQueue
import Celerp.Lib.Runs

namespace Celerp

/-- What holds of a delivery: a row is left if it fails, and one it did not take if it read the stock
    before the last change. -/
structure Delivery.Sound (rows : List OutboundRow) (nextId version gaveUp : ℕ) (d : Delivery) : Prop where
  bounded : ∀ i ∈ d.ids, i < nextId
  left : version ≤ gaveUp ∨ ∃ r ∈ rows, r.id = d.keeper ∨ r.id ∉ d.ids
  read : ∀ v, d.read = some v → v = version ∨ version ≤ gaveUp ∨ ∃ r ∈ rows, r.id ∉ d.ids

/-- What holds of a write that may still reach the shop: it is of a change there was, and a row is
    queued. -/
structure StockWrite.Sound {α : Type*} (level : α) (version gaveUp : ℕ) (rows : List OutboundRow) (k : StockWrite α) :
    Prop where
  within : k.version ≤ version
  value : k.version = version → k.value = level
  left : version ≤ gaveUp ∨ rows ≠ []

structure StockQueue.Sound {α : Type*} (w : StockQueue α) : Prop where
  bounded : ∀ r ∈ w.rows, r.id < w.nextId
  within : w.shownAt ≤ w.version
  current : w.shownAt = w.version → w.shown = w.level
  covered : w.shownAt = w.version ∨ w.version ≤ w.gaveUp ∨ w.rows ≠ []
  delivery : ∀ d, w.delivery = some d → d.Sound w.rows w.nextId w.version w.gaveUp
  writes : ∀ k ∈ w.write.toList ++ w.late, k.Sound w.level w.version w.gaveUp w.rows
  sent : ∀ k, w.write = some k → w.late = [] ∧ (k.arrived = true → w.shownAt = k.version) ∧
    ∃ d, w.delivery = some d ∧ d.read = some k.version

section
variable {α : Type*} {w : StockQueue α} {d : Delivery}

theorem StockQueue.sound_fresh {level : α} : (StockQueue.fresh level).Sound where
  bounded := fun r hr => absurd hr List.not_mem_nil
  within := Nat.le_refl _
  current := fun _ => rfl
  covered := .inl rfl
  delivery := fun d h => by cases h
  writes := fun k hk => absurd hk List.not_mem_nil
  sent := fun k h => by cases h

/-- The rows are changed, each in its place. -/
theorem StockQueue.Sound.mapRows (hw : w.Sound) {f : OutboundRow → OutboundRow} (hf : ∀ r, (f r).id = r.id) :
    { w with rows := w.rows.map f }.Sound := by
  have hsome : ∀ p : ℕ → Prop, (∃ r ∈ w.rows, p r.id) → ∃ r ∈ w.rows.map f, p r.id := by
    rintro p ⟨r, hr, hp⟩
    exact ⟨f r, List.mem_map_of_mem hr, (hf r).symm ▸ hp⟩
  have hne : w.rows ≠ [] → w.rows.map f ≠ [] := fun h => by simpa using h
  refine { hw with
    bounded := fun r hr => ?_
    covered := hw.covered.imp_right fun h => h.imp_right hne
    delivery := fun d hd => ?_
    writes := fun k hk => { hw.writes k hk with left := (hw.writes k hk).left.imp_right hne } }
  · obtain ⟨r', hr', rfl⟩ := List.mem_map.1 hr
    rw [hf r']
    exact hw.bounded r' hr'
  · obtain ⟨hbounded, hleft, hread⟩ := hw.delivery d hd
    refine ⟨hbounded, hleft.imp_right (hsome fun i => i = d.keeper ∨ i ∉ d.ids), fun v hv => ?_⟩
    rcases hread v hv with hv | hgave | hnew
    · exact .inl hv
    · exact .inr (.inl hgave)
    · exact .inr (.inr (hsome (· ∉ d.ids) hnew))

/-- A delivery is over, and its write is late. -/
theorem StockQueue.Sound.ended (hw : w.Sound) : w.ended.Sound :=
  { hw with
    delivery := fun d hd => (by cases hd)
    writes := hw.writes
    sent := fun k hk => by cases hk }

/-- **A delivery that ends without success** leaves a row. -/
theorem StockQueue.Sound.retain (hw : w.Sound) (hd : d.Sound w.rows w.nextId w.version w.gaveUp)
    {paced : OutboundRow → OutboundRow} (hpaced : ∀ r, (paced r).id = r.id) : (w.retain d paced).Sound := by
  have hid : ∀ r : OutboundRow, (if r.id = d.keeper then paced (r.carry (w.rows.filter (·.id ∈ d.ids))) else r).id =
      r.id := by
    intro r
    split_ifs
    · exact hpaced _
    · rfl
  have hleft : w.version ≤ w.gaveUp ∨ (w.retain d paced).rows ≠ [] := by
    refine hd.left.imp_right ?_
    rintro ⟨r, hr, hkept⟩
    have hmem : r ∈ w.rows.filter fun row => row.id = d.keeper ∨ row.id ∉ d.ids :=
      List.mem_filter.2 ⟨hr, decide_eq_true hkept⟩
    exact List.ne_nil_of_mem (List.mem_map_of_mem hmem)
  refine { hw.ended with
    bounded := fun r hr => ?_
    covered := .inr hleft
    delivery := fun d' hd' => (by cases hd')
    writes := fun k hk => { hw.writes k hk with left := hleft } }
  obtain ⟨r', hr', rfl⟩ := List.mem_map.1 hr
  rw [hid r']
  exact hw.bounded r' (List.mem_of_mem_filter hr')

/-- **The rows a delivery took are removed** once what it read is shown, or given up. -/
theorem StockQueue.Sound.clear (hw : w.Sound) (hwrite : w.write = none) (hlate : w.late = [])
    (hcovered : w.shownAt = w.version ∨ w.version ≤ w.gaveUp ∨ ∃ r ∈ w.rows, r.id ∉ d.ids) : (w.clear d).Sound where
  bounded := fun r hr => hw.bounded r (List.mem_of_mem_filter hr)
  within := hw.within
  current := hw.current
  covered := by
    refine hcovered.imp_right fun h => h.imp_right ?_
    rintro ⟨r, hr, hid⟩
    exact List.ne_nil_of_mem (List.mem_filter.2 ⟨hr, decide_eq_true hid⟩)
  delivery := fun d' hd' => by cases hd'
  writes := fun k hk => by
    have hk' : k ∈ w.write.toList ++ w.late := hk
    rw [hwrite, hlate] at hk'
    cases hk'
  sent := fun k hk => by cases hk

/-- More changes are given up. -/
theorem StockQueue.Sound.giveUp (hw : w.Sound) {n : ℕ} (hn : w.version ≤ w.gaveUp → w.version ≤ n) :
    { w with gaveUp := n }.Sound := by
  refine { hw with
    covered := hw.covered.imp_right fun h => h.imp_left hn
    delivery := fun d hd => ?_
    writes := fun k hk => { hw.writes k hk with left := (hw.writes k hk).left.imp_left hn } }
  obtain ⟨hbounded, hleft, hread⟩ := hw.delivery d hd
  exact ⟨hbounded, hleft.imp_left hn, fun v hv => (hread v hv).imp_right fun h => h.imp_left hn⟩

/-- The shop's answer has come. -/
theorem StockQueue.Sound.writeEnds (hw : w.Sound) : { w with write := none }.Sound :=
  { hw with
    writes := fun k hk => hw.writes k (List.mem_append_right _ hk)
    sent := fun k hk => by cases hk }

/-- A row queued after a delivery began is not one it took. -/
theorem StockQueue.Sound.change (hw : w.Sound) {level : α} {pushes : Bool} : (w.change level pushes).Sound := by
  have hwithin := hw.within
  have hwrites {gaveUp : ℕ} {rows : List OutboundRow} (hleft : w.version + 1 ≤ gaveUp ∨ rows ≠ []) :
      ∀ k ∈ w.write.toList ++ w.late, k.Sound level (w.version + 1) gaveUp rows := by
    intro k hk
    have hle := (hw.writes k hk).within
    exact ⟨Nat.le_succ_of_le hle, fun h => absurd h (Nat.ne_of_lt (Nat.lt_succ_of_le hle)), hleft⟩
  unfold StockQueue.change
  split_ifs
  · have hnew : ∀ d, w.delivery = some d → ∃ r ∈ w.rows ++ [⟨w.nextId, .pending, 0, .unset, none⟩],
        OutboundRow.id r ∉ d.ids := by
      intro d hd
      refine ⟨_, List.mem_append_right _ (List.mem_singleton_self _), fun hmem => ?_⟩
      exact Nat.lt_irrefl _ ((hw.delivery d hd).bounded _ hmem)
    have hne : w.rows ++ [⟨w.nextId, .pending, 0, .unset, none⟩] ≠ [] := by simp
    refine ⟨fun r hr => ?_, Nat.le_succ_of_le hwithin, fun h => ?_, .inr (.inr hne), fun d hd => ?_,
      hwrites (.inr hne), hw.sent⟩
    · rcases List.mem_append.1 hr with hr | hr
      · exact Nat.lt_succ_of_lt (hw.bounded r hr)
      · obtain rfl := List.mem_singleton.1 hr
        exact Nat.lt_succ_self _
    · have h' : w.shownAt = w.version + 1 := h
      omega
    · obtain ⟨r, hr, hid⟩ := hnew d hd
      exact ⟨fun i hi => Nat.lt_succ_of_lt ((hw.delivery d hd).bounded i hi), .inr ⟨r, hr, .inr hid⟩,
        fun _ _ => .inr (.inr ⟨r, hr, hid⟩)⟩
  · refine ⟨hw.bounded, Nat.le_succ_of_le hwithin, fun h => ?_, .inr (.inl (Nat.le_refl _)), fun d hd => ?_,
      hwrites (.inl (Nat.le_refl _)), hw.sent⟩
    · have h' : w.shownAt = w.version + 1 := h
      omega
    · exact ⟨(hw.delivery d hd).bounded, .inl (Nat.le_refl _), fun _ _ => .inr (.inl (Nat.le_refl _))⟩

theorem StockQueue.Sound.begin (hw : w.Sound) {parked : Bool} : (w.begin parked).Sound := by
  unfold StockQueue.begin
  split
  · exact hw
  · rename_i hdelivery
    simp only
    split
    · exact hw
    · rename_i keeper hkeeper
      have hmem := List.mem_of_mem_filter (List.mem_of_getLast? hkeeper)
      have hd : Delivery.Sound w.rows w.nextId w.version w.gaveUp
          ⟨(w.rows.filter fun row => parked || row.status = .pending).map (·.id), keeper.id, none⟩ := by
        refine ⟨fun i hi => ?_, .inr ⟨keeper, hmem, .inl rfl⟩, fun v hv => by cases hv⟩
        obtain ⟨r, hr, rfl⟩ := List.mem_map.1 hi
        exact hw.bounded r (List.mem_of_mem_filter hr)
      split_ifs
      · exact hw.retain hd fun _ => rfl
      · refine { hw with delivery := fun d' hd' => ?_, sent := fun k hk => ?_ }
        · exact Option.some.inj hd' ▸ hd
        · obtain ⟨-, -, d', hd', -⟩ := hw.sent k hk
          cases hdelivery.symm.trans hd'

theorem StockQueue.Sound.send (hw : w.Sound) {linked : Bool} (hlate : w.promised (.send linked) = true) :
    (w.send linked).Sound := by
  have hnil : w.late = [] := List.isEmpty_iff.1 hlate
  unfold StockQueue.send
  split
  · rename_i d hdelivery
    have hd := hw.delivery d hdelivery
    split_ifs with hread
    · exact hw
    · refine { hw with delivery := fun d' hd' => ?_, writes := fun k hk => ?_, sent := fun k hk => ?_ }
      · obtain rfl := Option.some.inj hd'
        exact ⟨hd.bounded, hd.left, fun v hv => .inl (Option.some.inj hv).symm⟩
      · rw [hnil, List.append_nil, Option.mem_toList] at hk
        obtain rfl := Option.some.inj hk
        refine ⟨Nat.le_refl _, fun _ => rfl, hd.left.imp_right ?_⟩
        rintro ⟨r, hr, -⟩
        exact List.ne_nil_of_mem hr
      · obtain rfl := Option.some.inj hk
        exact ⟨hnil, fun h => (by cases h), _, rfl, rfl⟩
    · have hwrite : w.write = none := by
        cases hk : w.write with
        | none => rfl
        | some k =>
          obtain ⟨-, -, d', hd', hsent⟩ := hw.sent k hk
          obtain rfl := Option.some.inj (hdelivery.symm.trans hd')
          simp [hsent] at hread
      have hgave : { w with gaveUp := w.version }.Sound := hw.giveUp fun _ => Nat.le_refl _
      exact hgave.clear hwrite hnil (.inr (.inl (Nat.le_refl _)))
  · exact hw

/-- **A write that reaches the shop** is shown, and a row is queued for what it is not of. -/
theorem StockQueue.Sound.shows (hw : w.Sound) {k : StockWrite α} (hk : k ∈ w.write.toList ++ w.late)
    (hwrite : w.write = none ∨ w.write = some k) : { w with shown := k.value, shownAt := k.version }.Sound := by
  obtain ⟨hle, hvalue, hleft⟩ := hw.writes k hk
  refine ⟨hw.bounded, hle, hvalue, .inr hleft, hw.delivery, hw.writes, fun k' hk' => ?_⟩
  obtain ⟨hnil, -, hread⟩ := hw.sent k' hk'
  refine ⟨hnil, fun _ => ?_, hread⟩
  rcases hwrite with hnone | hsome
  · cases hnone.symm.trans hk'
  · exact congrArg StockWrite.version (Option.some.inj (hsome.symm.trans hk'))

theorem StockQueue.Sound.arrive (hw : w.Sound) : w.arrive.Sound := by
  unfold StockQueue.arrive
  split
  · rename_i k hk
    have hmem : k ∈ w.write.toList ++ w.late := List.mem_append_left _ (Option.mem_toList.2 hk)
    have hshown := hw.shows hmem (.inr hk)
    obtain ⟨hnil, -, hread⟩ := hw.sent k hk
    refine { hshown with writes := fun k' hk' => ?_, sent := fun k' hk' => ?_ }
    · rw [hnil, List.append_nil, Option.mem_toList] at hk'
      obtain rfl := Option.some.inj hk'
      exact { hw.writes k hmem with }
    · obtain rfl := Option.some.inj hk'
      exact ⟨hnil, fun _ => rfl, hread⟩
  · exact hw

theorem StockQueue.Sound.arriveLate (hw : w.Sound) {i : ℕ} : (w.arriveLate i).Sound := by
  unfold StockQueue.arriveLate
  split
  · rename_i k hk
    have hmem : k ∈ w.late := List.mem_of_getElem? hk
    refine hw.shows (List.mem_append_right _ hmem) (.inl ?_)
    -- no delivery waits for a write where one is late
    cases hwrite : w.write with
    | none => rfl
    | some k' =>
      rw [(hw.sent k' hwrite).1] at hmem
      cases hmem
  · exact hw

/-- A write that may still reach the shop does not. -/
theorem StockQueue.Sound.lateEnds (hw : w.Sound) (i : ℕ) : { w with late := w.late.eraseIdx i }.Sound := by
  refine { hw with writes := fun k hk => hw.writes k ?_, sent := fun k hk => ?_ }
  · exact (List.Sublist.append_left (List.eraseIdx_sublist _ _) _).subset hk
  · obtain ⟨hnil, hrest⟩ := hw.sent k hk
    have hends : w.late.eraseIdx i = [] := by rw [hnil, List.eraseIdx_nil]
    exact ⟨hends, hrest⟩

theorem StockQueue.Sound.answered (hw : w.Sound) {answer : StockQueue.Answer} : (w.answered answer).Sound := by
  unfold StockQueue.answered
  split
  · rename_i d k hdelivery hwrite
    have hd := hw.delivery d hdelivery
    obtain ⟨hlate, hshown, d', hd', hsent⟩ := hw.sent k hwrite
    obtain rfl := Option.some.inj (hdelivery.symm.trans hd')
    have hread := hd.read k.version hsent
    cases answer with
    | written =>
      simp only
      split_ifs with harrived
      · refine hw.writeEnds.clear rfl hlate (hread.imp_left fun hlast => ?_)
        exact (hshown harrived).trans hlast
      · exact hw
    | rejected =>
      have hgave : { w with write := none, gaveUp := max w.gaveUp k.version }.Sound :=
        hw.writeEnds.giveUp fun hgave => hgave.trans (Nat.le_max_left _ _)
      refine hgave.clear rfl hlate (.inr ?_)
      rcases hread with hlast | hgave | hnew
      · exact .inl (hlast ▸ Nat.le_max_right _ _)
      · exact .inl (hgave.trans (Nat.le_max_left _ _))
      · exact .inr hnew
    | conflict message => exact hw.writeEnds.retain hd fun _ => rfl
  · exact hw

theorem StockQueue.Sound.fail (hw : w.Sound) {message : String} : (w.fail message).Sound := by
  unfold StockQueue.fail
  split
  · rename_i d hdelivery
    exact hw.retain (hw.delivery d hdelivery) fun _ => rfl
  · exact hw

theorem StockQueue.Sound.release (hw : w.Sound) {all : Bool} : (w.release all).Sound where
  bounded := fun r hr => hw.bounded r (List.mem_of_mem_filter hr)
  within := hw.within
  current := hw.current
  covered := .inr (.inl (Nat.le_refl _))
  delivery := fun d hd => ⟨(hw.delivery d hd).bounded, .inl (Nat.le_refl _), fun _ _ => .inr (.inl (Nat.le_refl _))⟩
  writes := fun k hk => { hw.writes k hk with left := .inl (Nat.le_refl _) }
  sent := hw.sent

theorem StockQueue.Sound.pending (hw : w.Sound) {f : OutboundRow → OutboundRow} (hf : ∀ r, (f r).id = r.id) :
    (w.pending f).Sound := by
  refine hw.mapRows fun r => ?_
  split_ifs
  · exact hf r
  · rfl

theorem StockQueue.Sound.unrun (hw : w.Sound) {stopped : Stopped} {message : String} :
    (w.unrun stopped message).Sound := by
  unfold StockQueue.unrun
  split
  · exact hw.pending fun _ => rfl
  · exact hw.release
  · exact hw.pending fun _ => rfl
  · exact hw.pending fun _ => rfl

/-! ## Runs -/

/-- **One step**, of a run whose writes take turns. -/
theorem StockQueue.Sound.step (hw : w.Sound) (s : StockStep α) (hs : w.promised s = true) : (w.step s).Sound := by
  cases s with
  | change level pushes => exact hw.change
  | begin parked => exact hw.begin
  | send linked => exact hw.send hs
  | arrive => exact hw.arrive
  | arriveLate i => exact hw.arriveLate
  | answered answer => exact hw.answered
  | fails message => exact hw.fail
  | crash => exact hw.ended
  | lateEnds i => exact hw.lateEnds i
  | release all => exact hw.release
  | unrun stopped message => exact hw.unrun
  | resume =>
    refine hw.mapRows fun r => ?_
    split_ifs
    · rfl
    · rfl
  | tick d => exact { hw with }

theorem StockQueue.sound_run {level : α} {steps : List (StockStep α)}
    (hsteps : Runs.EveryStep StockQueue.step (fun w s => w.promised s = true) (StockQueue.fresh level) steps) :
    ((StockQueue.fresh level).run steps).Sound :=
  Runs.foldl_of_step (fun _ s hw hs => hw.step s hs) StockQueue.sound_fresh hsteps

/-- **No change of the stock is lost on its way to the shop.**  Over every run whose writes take turns,
    the shop shows the stock as it is after the last change, or that was given up (it was not sent, was
    released, or was refused by the shop), or a row is queued. -/
theorem stock_delivered {α : Type*} (level : α) (steps : List (StockStep α))
    (hsteps : Runs.EveryStep StockQueue.step (fun w s => w.promised s = true) (StockQueue.fresh level) steps) :
    let w := (StockQueue.fresh level).run steps
    (w.shownAt = w.version ∧ w.shown = w.level) ∨ w.version ≤ w.gaveUp ∨ w.rows ≠ [] := by
  intro w
  have hw : w.Sound := StockQueue.sound_run hsteps
  exact hw.covered.imp_left fun hlast => ⟨hlast, hw.current hlast⟩

end

/-- A write is given up and reaches the shop late, another change comes meanwhile, and the next
    delivery writes it. -/
def deliveredLate : List (StockStep ℕ) :=
  [.change 5 true, .begin false, .send true, .fails "timed out", .change 4 true, .arriveLate 0, .lateEnds 0,
    .begin true, .send true, .arrive, .answered .written]

theorem stock_delivered_late :
    let w := (StockQueue.fresh 9).run deliveredLate
    ((w.shownAt = w.version ∧ w.shown = w.level) ∨ w.version ≤ w.gaveUp ∨ w.rows ≠ []) ∧ w.shown = 4 ∧ w.rows = [] :=
  ⟨stock_delivered 9 deliveredLate (by decide), rfl, rfl⟩

/-- Were a write given up to reach the shop after the next delivery's, nothing would be queued for
    what it undid. -/
example :
    let w := (StockQueue.fresh 9).run [.change 5 true, .begin false, .send true, .fails "timed out", .change 4 true,
      .begin true, .send true, .arrive, .answered .written, .arriveLate 0]
    w.shown = 5 ∧ w.level = 4 ∧ w.rows = [] ∧ w.gaveUp = 0 :=
  ⟨rfl, rfl, rfl, rfl⟩

end Celerp
