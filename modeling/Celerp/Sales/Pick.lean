/-
  Lot draw order and allocation for document lines (`celerp/services/pick.py`).

  A line draws its own holds, then the lot it is bound to, then free lots of its
  SKU in pick order (`lineDrawSources`); `draw` takes what it needs from lots in
  turn, around one running tally of what each lot still has, and `planLineDraws`
  is a line's draw.

  * `takeOf` is what a draw takes of one lot; over lots of different ids the draw
    takes of each what `takeOf` gives after the lots before it
    (`draw_spec` with `total_takesOf_split`), leaves in the lot what it had less
    that, and every unit needed is taken or short.
-/
import Celerp.Inventory.Lot
import Celerp.Lib.Tally
import Mathlib.Data.List.Sort
import Mathlib.Data.List.Infix

namespace Celerp

open Tally

/-! ## Lots and their order -/

/-- The lot the planners read (`as_lot`). -/
structure Lot where
  entityId : String
  createdAt : String
  state : LotState
  claim : Option DemandClaim
  deriving DecidableEq, Repr

namespace Lot

def quantity (l : Lot) : ℚ := l.state.quantity

def sku (l : Lot) : String := l.state.sku

/-- When the lot expires, one without expiry last. -/
def expiry (l : Lot) : String := l.state.expiresAt.getD "9999-99-99"

end Lot

/-- The order lots of a product are drawn in. -/
inductive PickMethod where
  | fifo
  | fefo
  | lifo
  deriving DecidableEq, Repr

/-- `VALID_PICK_METHODS`: the methods by name. -/
def VALID_PICK_METHODS : List (String × PickMethod) :=
  [("fifo", .fifo), ("fefo", .fefo), ("lifo", .lifo)]

/-- `resolve_pick_method`: the item's own method, else the company's, else `fifo`. -/
def resolvePickMethod (state : LotState) (inventoryMethod : Option String) : PickMethod :=
  let named (c : Option String) : Option PickMethod :=
    c.bind fun c => VALID_PICK_METHODS.lookup c.toLower
  ((named state.pickMethod).or (named inventoryMethod)).getD .fifo

/-- `_sorted_inventory`: the lots in draw order, those that tie as they stood. -/
def sortedInventory (lots : List Lot) : PickMethod → List Lot
  | .fifo => lots.insertionSort fun a b => a.createdAt ≤ b.createdAt
  | .lifo => lots.insertionSort fun a b => b.createdAt ≤ a.createdAt
  | .fefo => lots.insertionSort fun a b =>
    a.expiry < b.expiry ∨ a.expiry = b.expiry ∧ a.createdAt ≤ b.createdAt

theorem perm_sortedInventory (lots : List Lot) (method : PickMethod) :
    (sortedInventory lots method).Perm lots := by
  cases method <;> exact List.perm_insertionSort _ _

/-! ## The lots a line may draw -/

/-- The fields of a document line the draw reads. -/
structure DocLine where
  lineId : Option String := none
  /-- `line_item_id` -/
  itemId : Option String
  sku : String := ""
  quantity : ℚ
  deriving DecidableEq, Repr

/-- `doc_bound_lots`: the lots the lines reference directly. -/
def docBoundLots (lines : List DocLine) : List String := lines.filterMap (·.itemId)

/-- Whose a held lot is. -/
inductive Holder where
  | line (index : ℕ)
  | orphan
  | ambiguous (indices : List ℕ)
  deriving DecidableEq, Repr

/-- `attribute_holds` of one lot: the line a hold is stamped with, while the line is
    there; without a stamp, the one line that binds the lot, or bound by none, the one
    line of its product. -/
def attributeHold (lines : List DocLine) (lot : Lot) : Holder :=
  let at_ (p : DocLine → Bool) : List ℕ :=
    (lines.zipIdx.filter fun l => p l.1).map Prod.snd
  match lot.state.statusLineId with
  | some stamp =>
    match (at_ fun li => li.lineId = some stamp).getLast? with
    | some i => .line i
    | none => .orphan
  | none =>
    let binders := at_ fun li => li.itemId = some lot.entityId
    let carriers := at_ fun li => li.itemId.isSome ∧ li.sku ≠ "" ∧ li.sku = lot.sku
    match if binders = [] then carriers else binders with
    | [] => .orphan
    | [i] => .line i
    | is => .ambiguous is

/-- `attribute_holds`: the lots the document holds that belong to a line. -/
def attributedTo (lots : List Lot) (lines : List DocLine) (i : ℕ) : List Lot :=
  lots.filter fun lot => lot.claim = some .reserved ∧ attributeHold lines lot = .line i

/-- The lots a line may draw from. -/
structure DrawSources where
  own : List Lot
  primary : Option Lot
  free : List Lot

/-- `line_draw_sources`: the holds attributed to the line, its bound lot first; the
    bound lot, where it is free; and the free lots of the product that no other line
    binds. -/
def lineDrawSources (lines : List DocLine) (i : ℕ) (li : DocLine) (lots : List Lot)
    (method : PickMethod) : DrawSources :=
  let isBound (lot : Lot) : Bool := li.itemId = some lot.entityId
  let boundLot := lots.find? isBound
  let held := attributedTo lots lines i
  let sku := match boundLot.map (·.sku) with
    | none | some "" => li.sku
    | some sku => sku
  let others := docBoundLots (lines.eraseIdx i)
  { own := held.filter isBound ++ sortedInventory (held.filter (!isBound ·)) method
    primary := boundLot.filter (·.claim = some .free)
    free := lots.filter fun lot =>
      lot.claim = some .free ∧ !isBound lot ∧ lot.entityId ∉ others ∧ lot.sku = sku }

/-! ## The draw -/

/-- The quantities lots still have, where a draw set one (`remaining`). -/
abbrev Remaining := String → Option ℚ

/-- What a lot still has: its full quantity where nothing is recorded. -/
def avail (r : Remaining) (lot : Lot) : ℚ := (r lot.entityId).getD lot.quantity

/-- A lot drawn, and whether the draw empties it. -/
structure Draw where
  lot : Lot
  take : ℚ
  isFull : Bool

/-- What a draw of lots leaves. -/
structure Drawn where
  draws : List Draw
  /-- the quantity no lot covers -/
  short : ℚ
  remaining : Remaining

/-- A lot that may not be split and would be drawn in part is passed over. -/
def cuts (lot : Lot) (take : ℚ) : Bool :=
  take < lot.quantity - EPS ∧ !lot.state.splittingAllowed

/-- `_draw`: take what is needed from the lots in turn, each once, and record what they
    have left. -/
def draw : List String → List Lot → ℚ → Remaining → Drawn
  | _, [], left, r => ⟨[], max 0 left, r⟩
  | seen, lot :: lots, left, r =>
    if left ≤ EPS then ⟨[], max 0 left, r⟩
    else if lot.entityId ∈ seen then draw seen lots left r
    else
      let seen := lot.entityId :: seen
      let has := avail r lot
      let take := min left has
      if has ≤ EPS ∨ cuts lot take then draw seen lots left r
      else
        let d := draw seen lots (left - take) (Function.update r lot.entityId (some (has - take)))
        { d with draws := ⟨lot, take, |take - has| ≤ EPS⟩ :: d.draws }

/-- `plan_line_draws`: a line's own holds, its bound lot, then free lots of its product
    in pick order. -/
def planLineDraws (needed : ℚ) (sources : DrawSources) (method : PickMethod) (r : Remaining) : Drawn :=
  draw [] (sources.own ++ sources.primary.toList ++ sortedInventory sources.free method) needed r

/-! ## What a draw takes -/

namespace Drawn

/-- The quantities drawn, by lot. -/
def takes (d : Drawn) : List (String × ℚ) := d.draws.map fun w => (w.lot.entityId, w.take)

end Drawn

/-- What a draw that still needs `left` takes of a lot that has `has`. -/
def takeOf (lot : Lot) (left has : ℚ) : ℚ :=
  if left ≤ EPS ∨ has ≤ EPS ∨ cuts lot (min left has) then 0 else min left has

/-- What is still needed after the lots, each taken from once. -/
def leftAfter (r : Remaining) : List Lot → ℚ → ℚ
  | [], left => left
  | lot :: lots, left => leftAfter r lots (left - takeOf lot left (avail r lot))

section
variable {lot : Lot} {lots : List Lot} {left has : ℚ} {r r' : Remaining} {seen : List String}

theorem takeOf_nonneg : 0 ≤ takeOf lot left has := by
  unfold takeOf
  split_ifs with h
  · exact le_rfl
  · rw [not_or, not_or, not_le, not_le] at h
    exact le_min (EPS_pos.trans h.1).le (EPS_pos.trans h.2.1).le

theorem takeOf_le (h : 0 ≤ left) : takeOf lot left has ≤ left := by
  unfold takeOf
  split_ifs
  · exact h
  · exact min_le_left _ _

theorem takeOf_of_left_le (h : left ≤ EPS) : takeOf lot left has = 0 := if_pos (Or.inl h)

theorem takeOf_of_has_le (h : has ≤ EPS) : takeOf lot left has = 0 := if_pos (Or.inr (Or.inl h))

/-- A draw never takes more than there is, and of a lot that has less than nothing it
    takes nothing. -/
theorem max_sub_takeOf : max 0 (has - takeOf lot left has) = max 0 has - takeOf lot left has := by
  rcases le_total has 0 with hneg | hpos
  · rw [takeOf_of_has_le (hneg.trans EPS_pos.le), sub_zero, sub_zero]
  · have hle : takeOf lot left has ≤ has := by
      unfold takeOf
      split_ifs
      · exact hpos
      · exact min_le_right _ _
    rw [max_eq_right hpos, max_eq_right (sub_nonneg.2 hle)]

/-- Less than nothing counts as nothing. -/
theorem takeOf_max : takeOf lot left (max 0 has) = takeOf lot left has := by
  rcases le_total has 0 with hneg | hpos
  · rw [max_eq_left hneg, takeOf_of_has_le EPS_pos.le, takeOf_of_has_le (hneg.trans EPS_pos.le)]
  · rw [max_eq_right hpos]

theorem leftAfter_of_le (h : left ≤ EPS) : leftAfter r lots left = left := by
  induction lots with
  | nil => rfl
  | cons lot lots ih => rw [leftAfter, takeOf_of_left_le h, sub_zero, ih]

theorem leftAfter_nonneg (h : 0 ≤ left) : 0 ≤ leftAfter r lots left := by
  induction lots generalizing left with
  | nil => exact h
  | cons lot lots ih => exact ih (sub_nonneg.2 (takeOf_le h))

theorem leftAfter_append (more : List Lot) :
    leftAfter r (lots ++ more) left = leftAfter r more (leftAfter r lots left) := by
  induction lots generalizing left with
  | nil => rfl
  | cons lot lots ih => rw [List.cons_append, leftAfter, leftAfter, ih]

/-- Only what the lots have counts. -/
theorem leftAfter_congr (h : ∀ lot ∈ lots, avail r lot = avail r' lot) :
    leftAfter r lots left = leftAfter r' lots left := by
  induction lots generalizing left with
  | nil => rfl
  | cons lot lots ih =>
    rw [List.forall_mem_cons] at h
    rw [leftAfter, leftAfter, h.1, ih h.2]

/-- What is taken of each lot, in turn. -/
def takesOf (r : Remaining) : List Lot → ℚ → List (String × ℚ)
  | [], _ => []
  | lot :: lots, left =>
    let take := takeOf lot left (avail r lot)
    (lot.entityId, take) :: takesOf r lots (left - take)

theorem takesOf_congr (h : ∀ lot ∈ lots, avail r lot = avail r' lot) :
    takesOf r lots left = takesOf r' lots left := by
  induction lots generalizing left with
  | nil => rfl
  | cons lot lots ih =>
    rw [List.forall_mem_cons] at h
    simp only [takesOf, h.1, ih h.2]

theorem sum_takesOf : ((takesOf r lots left).map Prod.snd).sum = left - leftAfter r lots left := by
  induction lots generalizing left with
  | nil => simp [takesOf, leftAfter]
  | cons lot lots ih =>
    simp only [takesOf, leftAfter, List.map_cons, List.sum_cons, ih]
    ring

theorem total_takesOf_of_le (id : String) (h : left ≤ EPS) : total id (takesOf r lots left) = 0 := by
  induction lots generalizing left with
  | nil => rfl
  | cons lot lots ih =>
    simp only [takesOf, total_cons, takeOf_of_left_le h, sub_zero, ih h, ite_self, add_zero]

theorem total_takesOf_of_not_mem {id : String} (h : id ∉ lots.map (·.entityId)) :
    total id (takesOf r lots left) = 0 := by
  induction lots generalizing left with
  | nil => rfl
  | cons lot lots ih =>
    rw [List.map_cons, List.mem_cons, not_or] at h
    simp only [takesOf, total_cons, if_neg (Ne.symm h.1), ih h.2, add_zero]

/-- Of a lot the draw takes what `takeOf` gives after the lots before it. -/
theorem total_takesOf_split {before after : List Lot}
    (h : ((before ++ lot :: after).map (·.entityId)).Nodup) :
    total lot.entityId (takesOf r (before ++ lot :: after) left) =
      takeOf lot (leftAfter r before left) (avail r lot) := by
  induction before generalizing left with
  | nil =>
    rw [List.nil_append, List.map_cons, List.nodup_cons] at h
    simp only [List.nil_append, takesOf, total_cons, if_true, total_takesOf_of_not_mem h.1,
      add_zero, leftAfter]
  | cons first before ih =>
    rw [List.cons_append, List.map_cons, List.nodup_cons] at h
    have hne : first.entityId ≠ lot.entityId := by
      intro heq
      exact h.1 (heq ▸ List.mem_map_of_mem (List.mem_append_right _ List.mem_cons_self))
    simp only [List.cons_append, takesOf, total_cons, if_neg hne, zero_add, leftAfter, ih h.2]

/-- What a draw takes of each lot, what it leaves there, and what stays short, over lots
    of different ids. -/
structure DrawSpec (r : Remaining) (lots : List Lot) (left : ℚ) (d : Drawn) : Prop where
  total_takes : ∀ id, total id d.takes = total id (takesOf r lots left)
  sum_takes : (d.takes.map Prod.snd).sum = left - leftAfter r lots left
  short_eq : d.short = max 0 (leftAfter r lots left)
  avail_eq : ∀ other : Lot, (∀ l ∈ lots, l.entityId = other.entityId → l.quantity = other.quantity) →
    avail d.remaining other = avail r other - total other.entityId (takesOf r lots left)

theorem drawSpec_nothing (h : left ≤ EPS) : DrawSpec r lots left ⟨[], max 0 left, r⟩ where
  total_takes id := (total_takesOf_of_le id h).symm
  sum_takes := by simp [Drawn.takes, leftAfter_of_le h]
  short_eq := by rw [leftAfter_of_le h]
  avail_eq other _ := by rw [total_takesOf_of_le _ h, sub_zero]

theorem DrawSpec.skip {d : Drawn} (hskip : takeOf lot left (avail r lot) = 0)
    (h : DrawSpec r lots left d) : DrawSpec r (lot :: lots) left d where
  total_takes id := by simp only [h.total_takes, takesOf, total_cons, hskip, ite_self, zero_add, sub_zero]
  sum_takes := by rw [h.sum_takes, leftAfter, hskip, sub_zero]
  short_eq := by rw [h.short_eq, leftAfter, hskip, sub_zero]
  avail_eq other hother := by
    rw [h.avail_eq other fun l hl => hother l (List.mem_cons_of_mem _ hl)]
    simp only [takesOf, total_cons, hskip, ite_self, zero_add, sub_zero]

theorem avail_update_of_ne {other : Lot} {v : ℚ} (h : other.entityId ≠ lot.entityId) :
    avail (Function.update r lot.entityId (some v)) other = avail r other := by
  simp [avail, Function.update_of_ne h]

theorem DrawSpec.take {d : Drawn} {take : ℚ} {full : Bool} (htake : takeOf lot left (avail r lot) = take)
    (hnew : lot.entityId ∉ lots.map (·.entityId))
    (h : DrawSpec (Function.update r lot.entityId (some (avail r lot - take))) lots (left - take) d) :
    DrawSpec r (lot :: lots) left { d with draws := ⟨lot, take, full⟩ :: d.draws } := by
  have hsame : ∀ l ∈ lots, avail (Function.update r lot.entityId (some (avail r lot - take))) l = avail r l :=
    fun l hl => avail_update_of_ne fun heq => hnew (heq ▸ List.mem_map_of_mem hl)
  have htakes : takesOf _ lots (left - take) = takesOf r lots (left - take) := takesOf_congr hsame
  have hleft : leftAfter _ lots (left - take) = leftAfter r lots (left - take) := leftAfter_congr hsame
  constructor
  · intro id
    have := h.total_takes id
    simp only [Drawn.takes, List.map_cons, total_cons, takesOf, htake] at this ⊢
    rw [this, htakes]
  · have := h.sum_takes
    simp only [Drawn.takes, List.map_cons, List.sum_cons, leftAfter, htake] at this ⊢
    rw [this, hleft]
    ring
  · rw [leftAfter, htake, ← hleft]
    exact h.short_eq
  · intro other hother
    have hrest := h.avail_eq other fun l hl => hother l (List.mem_cons_of_mem _ hl)
    rw [htakes] at hrest
    simp only [takesOf, total_cons, htake]
    by_cases heq : lot.entityId = other.entityId
    · have hfresh : avail (Function.update r lot.entityId (some (avail r lot - take))) other =
          avail r lot - take := by simp [avail, heq]
      have hlot : avail r lot = avail r other := by
        simp only [avail, heq, hother lot List.mem_cons_self heq]
      rw [if_pos heq]
      exact hrest.trans (by rw [hfresh, hlot]; ring)
    · rw [if_neg heq, zero_add]
      exact hrest.trans (by rw [avail_update_of_ne (Ne.symm heq)])

/-- **What a draw takes**, over lots of different ids. -/
theorem draw_spec (hnodup : (lots.map (·.entityId)).Nodup) (hseen : ∀ lot ∈ lots, lot.entityId ∉ seen) :
    DrawSpec r lots left (draw seen lots left r) := by
  induction lots generalizing seen left r with
  | nil => exact ⟨fun _ => rfl, by simp [draw, Drawn.takes, leftAfter], rfl, fun _ _ => by simp [draw, takesOf]⟩
  | cons lot lots ih =>
    rw [List.map_cons, List.nodup_cons] at hnodup
    rw [List.forall_mem_cons] at hseen
    have hrest : ∀ l ∈ lots, l.entityId ∉ lot.entityId :: seen := by
      intro l hl
      rw [List.mem_cons, not_or]
      exact ⟨fun heq => hnodup.1 (heq ▸ List.mem_map_of_mem hl), hseen.2 l hl⟩
    unfold draw
    by_cases hleft : left ≤ EPS
    · rw [if_pos hleft]
      exact drawSpec_nothing hleft
    rw [if_neg hleft, if_neg hseen.1]
    dsimp only
    by_cases hskip : avail r lot ≤ EPS ∨ cuts lot (min left (avail r lot)) = true
    · rw [if_pos hskip]
      exact (ih hnodup.2 hrest).skip (if_pos (Or.inr hskip))
    · rw [if_neg hskip]
      have htake : takeOf lot left (avail r lot) = min left (avail r lot) := by
        rw [takeOf, if_neg]
        rw [not_or]
        exact ⟨hleft, hskip⟩
      exact (ih hnodup.2 hrest).take htake hnodup.1

end

end Celerp
