/-
  The push of a product's stock to the shop (`celerp/connectors/outbound_queue.py`).

  Each change of an item adds a row for the product, in its own transaction (`change`).  A delivery
  takes the rows it sees, reads the stock anew, writes it to the shop with no transaction open, and
  removes the rows it took; what is queued meanwhile is left for the next (`_deliver`).  Deliveries
  of a product take turns.  The write of one that is over, because its client gave it up or its
  process stopped, may still reach the shop (`late`); `promised` is what a run relies on of these.

  `level` is what the stock comes to, after `version` changes; `shown` is what was last written to
  the shop, as of `shownAt` changes.  `gaveUp` changes were not sent, were released, or were refused
  by the shop.
-/
import Celerp.Connectors.XeroPush

namespace Celerp

/-! ## The rows of a product -/

/-- A row of `outbound_queue`. -/
structure OutboundRow where
  id : ℕ
  status : RowStatus
  retryCount : ℕ
  nextRetryAt : RetryAt
  errorMessage : Option String

/-- The later of two times. -/
def RetryAt.latest : RetryAt → RetryAt → RetryAt
  | unset, b => b
  | a, unset => a
  | infinity, _ => infinity
  | _, infinity => infinity
  | time s, time t => time (max s t)

namespace OutboundRow

/-- `_pace`, of a row in the queue. -/
def pace (now : ℕ) (row : OutboundRow) (p : Pacing) : OutboundRow :=
  { row with retryCount := (p.next now row.retryCount).1, nextRetryAt := (p.next now row.retryCount).2 }

/-- `_pace` with "carry": the most attempts and the latest retry time of some rows. -/
def carry (among : List OutboundRow) (row : OutboundRow) : OutboundRow :=
  { row with
    retryCount := (among.map retryCount).foldl max 0
    nextRetryAt := (among.map nextRetryAt).foldl RetryAt.latest .unset }

end OutboundRow

/-- A delivery: the rows it took, the one it keeps if it fails, and how many changes the stock it
    read is of. -/
structure Delivery where
  ids : List ℕ
  keeper : ℕ
  read : Option ℕ

/-- A write in flight. -/
structure StockWrite (α : Type*) where
  value : α
  version : ℕ
  arrived : Bool

/-- One product, its rows in the queue, and the shop. -/
structure StockQueue (α : Type*) where
  now : ℕ
  level : α
  version : ℕ
  rows : List OutboundRow
  nextId : ℕ
  delivery : Option Delivery
  /-- The write the delivery waits for. -/
  write : Option (StockWrite α)
  /-- Writes of deliveries that are over. -/
  late : List (StockWrite α)
  shown : α
  shownAt : ℕ
  gaveUp : ℕ

namespace StockQueue

variable {α : Type*}

/-- The shop shows the stock as it is. -/
def fresh (level : α) : StockQueue α where
  now := 0
  level := level
  version := 0
  rows := []
  nextId := 0
  delivery := none
  write := none
  late := []
  shown := level
  shownAt := 0
  gaveUp := 0

variable (w : StockQueue α)

/-- `enqueue_item_change`: the stock changes, and a row is queued where the connection sends it. -/
def change (level : α) (pushes : Bool) : StockQueue α :=
  if pushes then
    { w with
      level := level
      version := w.version + 1
      rows := w.rows ++ [⟨w.nextId, .pending, 0, .unset, none⟩]
      nextId := w.nextId + 1 }
  else { w with level := level, version := w.version + 1, gaveUp := w.version + 1 }

/-- The delivery is over: a write it waits for may still reach the shop. -/
def ended : StockQueue α := { w with delivery := none, write := none, late := w.write.toList ++ w.late }

/-- `retain`: the row a delivery keeps carries the pacing of all it took, and takes its own. -/
def retain (d : Delivery) (paced : OutboundRow → OutboundRow) : StockQueue α :=
  let among := w.rows.filter (·.id ∈ d.ids)
  { w.ended with
    rows := (w.rows.filter fun row => row.id = d.keeper ∨ row.id ∉ d.ids).map fun row =>
      if row.id = d.keeper then paced (row.carry among) else row }

/-- `clear`: the rows a delivery took are removed. -/
def clear (d : Delivery) : StockQueue α :=
  { w.ended with rows := w.rows.filter (·.id ∉ d.ids) }

/-- A delivery begins, once no other holds the identity's lock: of every row it sees, or, but for a
    sync run (`parked`), of the pending ones once they are all due. -/
def begin (parked : Bool) : StockQueue α :=
  match w.delivery with
  | some _ => w
  | none =>
    let locked := w.rows.filter fun row => parked || row.status = .pending
    match locked.getLast? with
    | none => w
    | some keeper =>
      let d : Delivery := ⟨locked.map (·.id), keeper.id, none⟩
      if !parked && locked.any fun row => !row.nextRetryAt.due w.now then
        w.retain d fun row => { row with errorMessage := (locked.reverse.findSome? (·.errorMessage)) }
      else { w with delivery := some d }

/-- The stock is read anew, and written to the shop, unless no item is linked to the product. -/
def send (linked : Bool) : StockQueue α :=
  match w.delivery with
  | some d =>
    if d.read.isSome then w
    else if linked then
      { w with delivery := some { d with read := some w.version }, write := some ⟨w.level, w.version, false⟩ }
    else { w with gaveUp := w.version }.clear d
  | none => w

/-- The write takes effect. -/
def arrive : StockQueue α :=
  match w.write with
  | some write =>
    { w with shown := write.value, shownAt := write.version, write := some { write with arrived := true } }
  | none => w

/-- A write of a delivery that is over does. -/
def arriveLate (i : ℕ) : StockQueue α :=
  match w.late[i]? with
  | some write => { w with shown := write.value, shownAt := write.version }
  | none => w

/-- What the shop answers a write with. -/
inductive Answer where
  | written
  | rejected
  | conflict (message : String)

/-- The answer to the write arrives. -/
def answered (answer : Answer) : StockQueue α :=
  match w.delivery, w.write with
  | some d, some write =>
    match answer with
    | .written => if write.arrived then { w with write := none }.clear d else w
    | .rejected => { w with write := none, gaveUp := max w.gaveUp write.version }.clear d
    | .conflict message =>
      { w with write := none }.retain d fun row =>
        { row.pace w.now .clear with status := .blocked, errorMessage := some message }
  | _, _ => w

/-- The delivery fails otherwise. -/
def fail (message : String) : StockQueue α :=
  match w.delivery with
  | some d =>
    w.retain d fun row => { row.pace w.now .retry with status := .pending, errorMessage := some message }
  | none => w

/-- `_release_rows`, of the pending rows or of all. -/
def release (all : Bool) : StockQueue α :=
  { w with rows := w.rows.filter fun row => !all && row.status ≠ .pending, gaveUp := w.version }

/-- `resume_reruns`, of the queue. -/
def resume : StockQueue α :=
  { w with rows := w.rows.map fun row => if row.nextRetryAt = .unset then row else row.pace w.now .resume }

/-- The pending rows are changed. -/
def pending (f : OutboundRow → OutboundRow) : StockQueue α :=
  { w with rows := w.rows.map fun row => if row.status = .pending then f row else row }

/-- A delivery that was stopped before it began (`process_outbound_identity`). -/
def unrun (stopped : Stopped) (message : String) : StockQueue α :=
  match pacing stopped with
  | none => w.pending fun row => row.pace w.now .busy
  | some .drop => w.release false
  | some .park => w.pending fun row => { row.pace w.now .park with errorMessage := some message }
  | some .retry => w.pending fun row => { row.pace w.now .retry with errorMessage := some message }

end StockQueue

/-! ## Runs -/

/-- What happens to the product, its rows and the write in flight. -/
inductive StockStep (α : Type*) where
  | change (level : α) (pushes : Bool)
  | begin (parked : Bool)
  | send (linked : Bool)
  | arrive
  | arriveLate (i : ℕ)
  | answered (answer : StockQueue.Answer)
  | fails (message : String)
  | crash
  | lateEnds (i : ℕ)
  | release (all : Bool)
  | unrun (stopped : Stopped) (message : String)
  | resume
  | tick (d : ℕ)

namespace StockQueue

variable {α : Type*}

/-- One step. -/
def step (w : StockQueue α) : StockStep α → StockQueue α
  | .change level pushes => w.change level pushes
  | .begin parked => w.begin parked
  | .send linked => w.send linked
  | .arrive => w.arrive
  | .arriveLate i => w.arriveLate i
  | .answered answer => w.answered answer
  | .fails message => w.fail message
  | .crash => w.ended
  | .lateEnds i => { w with late := w.late.eraseIdx i }
  | .release all => w.release all
  | .unrun stopped message => w.unrun stopped message
  | .resume => w.resume
  | .tick d => { w with now := w.now + d }

def run (w : StockQueue α) (steps : List (StockStep α)) : StockQueue α := steps.foldl step w

/-- What a run relies on: a write of a delivery that is over has reached the shop, or never will, when
    a later delivery writes. -/
def promised (w : StockQueue α) : StockStep α → Bool
  | .send _ => w.late.isEmpty
  | _ => true

end StockQueue

end Celerp
