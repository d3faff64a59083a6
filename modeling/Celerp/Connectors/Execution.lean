/-
  The boundary connector work runs in (`celerp/connectors/execution.py`), for one company's
  connection.

  An execution takes a lease on the resources it writes (`Boundary.acquire`), keeps it by
  renewing its heartbeat, fences every transaction by the lease rows, and checks before every
  call to the store that the lease is still alive.  A request that finds a resource held is
  recorded as a rerun on the heartbeat row (`recordRerun`), and only an execution that runs the
  work clears it (`settleRerun`), or a refusal that drops it (`settleUnrun`).

  Times are in microseconds.  The clock of an execution is the database's, read some time before
  it was told: `behind` is how long.  A call to the store is in flight until its client is answered
  or gives it up, for however long that takes: the limits of a client are on the parts of a call.
  A stopped process leaves its lease, its rows and the call it was making as they are.

  `log` and `history` are not stored anywhere: they remember, newest first, each grant and each
  commit, and what happened to reruns.
-/
import Celerp.Lib.Dicts
import Celerp.Lib.Leases
import Mathlib.Algebra.Order.Ring.Nat

namespace Celerp

/-! ## The pacing of deferred work -/

def SECOND : ℕ := 1000000

def TTL : ℕ := 5 * 60 * SECOND

def MARGIN : ℕ := 45 * SECOND

def SWEEP_EVERY : ℕ := 60 * SECOND

def RERUN_BACKOFF_MAX : ℕ := 60 * 60 * SECOND

def BUSY_WAIT : ℕ := 30 * SECOND

def WEBHOOKS : String := "webhooks"

/-- When deferred work is tried again. -/
inductive RetryAt where
  | unset
  | time (t : ℕ)
  | infinity
  deriving DecidableEq

/-- `rerun_retry_at IS NULL OR rerun_retry_at <= now()`. -/
def RetryAt.due (now : ℕ) : RetryAt → Bool
  | unset => true
  | time t => t ≤ now
  | infinity => false

/-- How `_pace` gives deferred work its next try. -/
inductive Pacing where
  | retry
  | park
  | busy
  | clear
  | resume
  deriving DecidableEq

/-- `_pace`: the attempts and the next try of deferred work, of any table. -/
def Pacing.next (now attempts : ℕ) : Pacing → ℕ × RetryAt
  | retry => (attempts + 1, .time (now + min (SWEEP_EVERY * 2 ^ attempts) RERUN_BACKOFF_MAX))
  | park => (attempts + 1, .infinity)
  | busy => (attempts, .time (now + BUSY_WAIT))
  | clear => (0, .unset)
  | resume => (0, .time now)

/-- A row of `connector_execution_heartbeats`. -/
structure Heartbeat where
  holder : Option ℕ
  expiresAt : Option ℕ
  rerunRequested : ℕ
  rerunDone : ℕ
  rerunAttempts : ℕ
  rerunRetryAt : RetryAt
  deriving DecidableEq

namespace Heartbeat

/-- `holder IS NOT NULL AND expires_at > now()`. -/
def live (now : ℕ) (b : Heartbeat) : Bool := b.holder.isSome && b.expiresAt.any (now < ·)

/-- `_pace`, of a heartbeat row. -/
def pace (now : ℕ) (b : Heartbeat) (p : Pacing) : Heartbeat :=
  { b with rerunAttempts := (p.next now b.rerunAttempts).1, rerunRetryAt := (p.next now b.rerunAttempts).2 }

/-- `_ack_rerun`: acknowledge the reruns up to a generation of a resource this holder holds. -/
def ack (now h g : ℕ) (alone : Bool) (b : Heartbeat) : Heartbeat :=
  if b.holder = some h ∧ (alone → g ≤ b.rerunDone + 1) then
    { b with rerunDone := max b.rerunDone g }.pace now .clear
  else b

/-- `record_rerun`: the next generation, tried at once unless it is parked. -/
def record (now : ℕ) (b : Heartbeat) : Heartbeat :=
  let recorded := { b with rerunRequested := b.rerunRequested + 1 }
  if recorded.rerunRetryAt = .infinity then recorded else recorded.pace now .clear

end Heartbeat

/-- `ExecutionRefused`'s reasons. -/
inductive Refusal where
  | directionOff
  | firstSyncMissing
  | firstSyncNotStarted
  | productsNeedAttention
  | storeChanged
  | firstSyncNotFinished
  | notConnected
  | relayUnavailable
  | storeUnchecked
  deriving DecidableEq

/-- What becomes of deferred work that was stopped before it ran. -/
inductive Deferred where
  | drop
  | park
  | retry
  deriving DecidableEq

def REFUSALS : Refusal → Deferred
  | .directionOff => .drop
  | .firstSyncMissing | .firstSyncNotStarted | .productsNeedAttention | .storeChanged => .park
  | .firstSyncNotFinished | .notConnected | .relayUnavailable | .storeUnchecked => .retry

/-- What stopped an attempt before its work. -/
inductive Stopped where
  | busy
  | notOwned
  | refused (reason : Refusal)
  | failed
  deriving DecidableEq

/-- `_pacing`. -/
def pacing : Stopped → Option Deferred
  | .busy => none
  | .notOwned => some .drop
  | .refused reason => some (REFUSALS reason)
  | .failed => some .retry

/-! ## What may run -/

/-- `PURPOSES`. -/
inductive Purpose where
  | firstSync
  | manualSync
  | schedule
  | webhook
  | outboundQueue
  | itemPublish
  | itemFlags
  | undo
  | resolve
  | webhooks
  | rerun
  deriving DecidableEq

/-- `LOCAL_PURPOSES`. -/
def Purpose.isLocal : Purpose → Bool
  | undo | resolve | itemFlags => true
  | _ => false

inductive FirstSyncState where
  | pending
  | starting
  | running
  | completed
  | failed
  deriving DecidableEq

/-- The first-sync record: its state, and the state of each resource it has come to. -/
structure FirstSync where
  state : FirstSyncState
  progress : List (String × String)

structure ConnectorConfig where
  entityDirections : List (String × String)
  webhooksDirty : Bool

/-- What the boundary asks of a connector. -/
structure Connector where
  reviewedFirstSync : Bool
  planResources : List (String × String) → List String

/-- Why a purpose may not write a resource of this connection now. -/
def eligible (connector : Connector) (config : Option ConnectorConfig) (firstSync : Option FirstSync)
    (purpose : Purpose) (resource : String) : Option Refusal :=
  match config, firstSync with
  | none, _ => some .notConnected
  | some _, none => some .firstSyncMissing
  | some config, some firstSync =>
    let progress := Dicts.get? firstSync.progress resource
    let direction :=
      if resource ∈ connector.planResources config.entityDirections then none else some Refusal.directionOff
    if purpose = .firstSync then
      if connector.reviewedFirstSync ∧ (firstSync.state = .starting ∨ firstSync.state = .running) then none
      else some .firstSyncNotStarted
    else if purpose.isLocal then
      if firstSync.state = .completed ∨ firstSync.state = .failed then none else some .firstSyncNotFinished
    else if resource = WEBHOOKS then
      if firstSync.state ≠ .pending then none else some .firstSyncNotStarted
    else if purpose = .itemPublish then
      if progress = some "failed" ∨ (firstSync.state = .failed ∧ progress ≠ some "completed") then
        some .productsNeedAttention
      else if firstSync.state ≠ .completed ∧ progress ≠ some "completed" then some .firstSyncNotFinished
      else direction
    else if firstSync.state ≠ .completed then some .firstSyncNotFinished
    else direction

/-! ## The boundary -/

/-- A row of `connector_execution_leases`. -/
@[ext] structure Lease where
  generation : ℕ
  holder : Option ℕ
  deriving DecidableEq

/-- Work a rerun asks for: a resource's sync, for the requests up to a generation, or (`alone`) a
    delivery's own sync, for its request alone. -/
structure Work where
  resource : String
  generation : ℕ
  alone : Bool
  deriving DecidableEq

structure Execution where
  purpose : Purpose
  resources : List String
  generations : String → ℕ
  confirmedExpiry : ℕ
  behind : ℕ
  lost : Bool
  /-- The lease rows its open transaction holds. -/
  transaction : Option (List String)
  /-- The work it is to run, the work it is running, and the work it ran and has not settled,
      with whether it completed. -/
  work : List Work
  running : Option Work
  ran : Option (Work × Bool)

namespace Execution

/-- An execution that just took its leases. -/
def started (purpose : Purpose) (resources : List String) (generations : String → ℕ) (confirmedExpiry behind : ℕ) :
    Execution where
  purpose := purpose
  resources := resources
  generations := generations
  confirmedExpiry := confirmedExpiry
  behind := behind
  lost := false
  transaction := none
  work := []
  running := none
  ran := none

/-- `_db_now`. -/
def dbNow (ex : Execution) (now : ℕ) : ℕ := now - ex.behind

/-- `check_alive` passes. -/
def alive (ex : Execution) (now : ℕ) : Bool := !ex.lost && ex.dbNow now + MARGIN < ex.confirmedExpiry

end Execution

/-- A call to the store that is in flight. -/
structure StoreCall where
  holder : ℕ
  resources : List String
  startedAt : ℕ
  /-- How late the holder's clock was when it made the call. -/
  behind : ℕ
  deriving DecidableEq

/-- A call has been in flight for longer than the margin, as late as its holder's clock was. -/
def StoreCall.Outlasts (k : StoreCall) (now : ℕ) : Prop := k.startedAt + MARGIN < now + k.behind

/-- What happens to reruns. -/
inductive RerunEvent where
  | requested (resource : String) (generation : ℕ)
  | began (h : ℕ) (w : Work)
  | completed (h : ℕ) (w : Work)
  | dropped (resource : String) (generation : ℕ)
  | parked (resource : String)
  deriving DecidableEq

/-- One connection, and the executions of it. -/
structure Boundary where
  now : ℕ
  config : Option ConnectorConfig
  firstSync : Option FirstSync
  leases : String → Lease
  heartbeats : String → Heartbeat
  executions : List (ℕ × Execution)
  /-- How many holders there were. -/
  holders : ℕ
  calls : List StoreCall
  log : List (Leases.Entry String ℕ)
  history : List RerunEvent

namespace Boundary

/-- A connection nothing ran on yet. -/
def fresh (config : Option ConnectorConfig) (firstSync : Option FirstSync) : Boundary where
  now := 0
  config := config
  firstSync := firstSync
  leases := fun _ => ⟨0, none⟩
  heartbeats := fun _ => ⟨none, none, 0, 0, 0, .unset⟩
  executions := []
  holders := 0
  calls := []
  log := []
  history := []

variable (connector : Connector) (c : Boundary)

/-- Change an execution. -/
def setExecution (h : ℕ) (ex : Execution) : Boundary := { c with executions := Dicts.set c.executions h ex }

/-- Change the heartbeat row of a resource. -/
def setHeartbeat (resource : String) (b : Heartbeat) : Boundary :=
  { c with heartbeats := Function.update c.heartbeats resource b }

/-! ### Leases -/

/-- No open transaction holds the lease rows, and no live execution the resources. -/
def free (resources : List String) : Bool :=
  c.executions.all (fun f => f.2.transaction.all fun locked => resources.all (· ∉ locked)) &&
    resources.all fun r => !(c.heartbeats r).live c.now

/-- A new holder takes the leases. -/
def granted (purpose : Purpose) (resources : List String) (lag : ℕ) : Boundary :=
  { c with
    leases := fun r => if r ∈ resources then ⟨(c.leases r).generation + 1, some c.holders⟩ else c.leases r
    heartbeats := fun r =>
      if r ∈ resources then { c.heartbeats r with holder := some c.holders, expiresAt := some (c.now + TTL) }
      else c.heartbeats r
    executions := Dicts.set c.executions c.holders
      (.started purpose resources (fun r => (c.leases r).generation + 1) (c.now + TTL) lag)
    holders := c.holders + 1
    log := Leases.entries c.holders (fun r => (c.leases r).generation + 1) resources ++ c.log }

/-- `_acquire`: the guard and the lease, in one short transaction. -/
def acquire (purpose : Purpose) (resources : List String) (lag : ℕ) : Boundary :=
  if resources.all (fun r => (eligible connector c.config c.firstSync purpose r).isNone) ∧ c.free resources then
    c.granted purpose resources lag
  else c

/-- Put off the end of some leases. -/
def extended (resources : List String) : Boundary :=
  { c with
    heartbeats := fun r =>
      if r ∈ resources then { c.heartbeats r with expiresAt := some (c.now + TTL) } else c.heartbeats r }

/-- `_renew_once`: put off the end of every lease that is still live, and confirm it where all
    are. -/
def renew (h lag : ℕ) (ex : Execution) : Boundary :=
  if ex.lost ∨ ex.resources = [] then c
  else
    let held := ex.resources.filter fun r =>
      (c.heartbeats r).holder = some h && (c.heartbeats r).expiresAt.any (c.now < ·)
    if held.length = ex.resources.length then
      (c.extended held).setExecution h { ex with confirmedExpiry := c.now + TTL, behind := lag }
    else (c.extended held).setExecution h { ex with lost := true }

/-- `fence`: a transaction holds the lease rows, and they still name this holder. -/
def fence (h : ℕ) (ex : Execution) : Boundary :=
  if ex.transaction.isSome ∨ ex.resources = [] ∨ ex.lost then c
  else if ex.resources.all fun r => c.leases r = ⟨ex.generations r, some h⟩ then
    c.setExecution h { ex with transaction := some ex.resources }
  else c.setExecution h { ex with lost := true }

/-- The fenced transaction commits. -/
def commit (h : ℕ) (ex : Execution) : Boundary :=
  match ex.transaction with
  | some locked =>
    { c.setExecution h { ex with transaction := none } with log := Leases.entries h ex.generations locked ++ c.log }
  | none => c

/-- It is rolled back. -/
def rollback (h : ℕ) (ex : Execution) : Boundary := c.setExecution h { ex with transaction := none }

/-! ### Calls to the store -/

/-- A call of a holder is in flight. -/
def calling (h : ℕ) : Bool := c.calls.any (·.holder = h)

/-- `before_remote_call`, and the call. -/
def call (h : ℕ) (ex : Execution) : Boundary :=
  if ex.purpose.isLocal ∨ ex.transaction.isSome ∨ c.calling h then c
  else if ex.alive c.now then { c with calls := ⟨h, ex.resources, c.now, ex.behind⟩ :: c.calls }
  else c.setExecution h { ex with lost := true }

/-! ### Reruns -/

/-- `record_rerun`. -/
def recordRerun (resource : String) : Boundary :=
  { c.setHeartbeat resource ((c.heartbeats resource).record c.now) with
    history := .requested resource ((c.heartbeats resource).rerunRequested + 1) :: c.history }

/-- The reruns pending on some resources, each with the generation the holder is to run. -/
def pendingReruns (h : ℕ) (resources : List String) : List (String × ℕ) :=
  let due := resources.filter fun r => (c.heartbeats r).rerunRetryAt.due c.now
  let generation := due.filterMap fun r =>
    let b := c.heartbeats r
    if b.rerunDone < b.rerunRequested ∧ b.holder = some h then some (r, b.rerunRequested) else none
  match c.config with
  | some config =>
    if WEBHOOKS ∈ due ∧ WEBHOOKS ∉ Dicts.keys generation ∧ config.webhooksDirty then
      generation ++ [(WEBHOOKS, 0)]
    else generation
  | none => []

/-- Acknowledge reruns the directions no longer call for. -/
def dropReruns (h : ℕ) (dropped : List (String × ℕ)) : Boundary :=
  { c with
    heartbeats := fun r => (Dicts.get? dropped r).elim (c.heartbeats r) fun g => (c.heartbeats r).ack c.now h g false
    history := dropped.map (fun f => .dropped f.1 f.2) ++ c.history }

/-- Free the leases a holder still has on some resources. -/
def given (h : ℕ) (resources : List String) (ex : Execution) : Boundary :=
  { c with
    leases := fun r =>
      if r ∈ resources ∧ c.leases r = ⟨ex.generations r, some h⟩ then { c.leases r with holder := none } else c.leases r
    heartbeats := fun r =>
      if r ∈ resources ∧ (c.heartbeats r).holder = some h then { c.heartbeats r with holder := none, expiresAt := none }
      else c.heartbeats r }

/-- `_release`, for a holder that is about to run what is pending (`reruns`), or is done. -/
def release (h : ℕ) (resources : List String) (reruns : Bool) (ex : Execution) : Boundary :=
  if ex.transaction.isSome ∨ c.calling h ∨ ¬resources ⊆ ex.resources then c
  else
    let pending := if reruns && !ex.lost then c.pendingReruns h resources else []
    let reason := fun f : String × ℕ => eligible connector c.config c.firstSync .rerun f.1
    let taken := pending.filter fun f => (reason f).isNone
    let dropped := pending.filter fun f => (reason f).any (REFUSALS · = .drop)
    let released := resources.filter (· ∉ Dicts.keys taken)
    ((c.dropReruns h dropped).given h released ex).setExecution h
      { ex with
        resources := ex.resources.filter (· ∉ released)
        work := taken.map fun f => ⟨f.1, f.2, false⟩
        running := none
        ran := none }

/-- A webhook's execution is to run the sync of the delivery whose request it recorded. -/
def deliver (h : ℕ) (resource : String) (generation : ℕ) (ex : Execution) : Boundary :=
  if ex.purpose = .webhook ∧ resource ∈ ex.resources ∧ ex.work = [] ∧ ex.running = none ∧ ex.ran = none ∧
      generation ≤ (c.heartbeats resource).rerunRequested then
    c.setExecution h { ex with work := [⟨resource, generation, true⟩] }
  else c

/-- An execution begins the next of its work. -/
def beginWork (h : ℕ) (ex : Execution) : Boundary :=
  match ex.work, ex.running, ex.ran with
  | w :: work, none, none =>
    { c.setExecution h { ex with work := work, running := some w } with history := .began h w :: c.history }
  | _, _, _ => c

/-- The work it is running completes, or does not. -/
def endWork (h : ℕ) (completed : Bool) (ex : Execution) : Boundary :=
  match ex.running with
  | some w =>
    { c.setExecution h { ex with running := none, ran := some (w, completed) } with
      history := if completed then .completed h w :: c.history else c.history }
  | none => c

/-- `settle_rerun`: acknowledge the work it ran, or count the failed attempt, after which it runs
    no more. -/
def settleRerun (h : ℕ) (ex : Execution) : Boundary :=
  match ex.ran with
  | some (w, true) =>
    (c.setExecution h { ex with ran := none }).setHeartbeat w.resource
      ((c.heartbeats w.resource).ack c.now h w.generation w.alone)
  | some (w, false) =>
    let b := c.heartbeats w.resource
    (c.setExecution h { ex with ran := none, work := [] }).setHeartbeat w.resource
      (if b.holder = some h then b.pace c.now .retry else b)
  | none => c

/-- `settle_unrun`: after an attempt at a pending rerun that was stopped before its work. -/
def settleUnrun (resource : String) (stopped : Stopped) : Boundary :=
  let b := c.heartbeats resource
  match pacing stopped with
  | none => c
  | some deferred =>
    if b.live c.now then c
    else match deferred with
      | .drop =>
        { c.setHeartbeat resource ({ b with rerunDone := b.rerunRequested }.pace c.now .clear) with
          history := .dropped resource b.rerunRequested :: c.history }
      | .park => { c.setHeartbeat resource (b.pace c.now .park) with history := .parked resource :: c.history }
      | .retry => c.setHeartbeat resource (b.pace c.now .retry)

/-- `resume_reruns`, of the heartbeats. -/
def resumeReruns : Boundary :=
  { c with heartbeats := fun r =>
      if (c.heartbeats r).rerunRetryAt = .unset then c.heartbeats r else (c.heartbeats r).pace c.now .resume }

end Boundary

/-! ## Runs -/

/-- What an execution does. -/
inductive ExecutionStep where
  | renew (lag : ℕ)
  | expire
  | fence
  | commit
  | rollback
  | call
  | release (resources : List String) (reruns : Bool)
  | deliver (resource : String) (generation : ℕ)
  | beginWork
  | endWork (completed : Bool)
  | settleRerun

/-- What happens on a connection: an execution starts, does something or stops, a call ends, a
    rerun is recorded, stopped or resumed, the connection is changed, and time passes. -/
inductive ConnectorStep where
  | acquire (purpose : Purpose) (resources : List String) (lag : ℕ)
  | execution (h : ℕ) (s : ExecutionStep)
  | stop (h : ℕ)
  | callEnds (i : ℕ)
  | recordRerun (resource : String)
  | settleUnrun (resource : String) (stopped : Stopped)
  | resumeReruns
  | change (config : Option ConnectorConfig) (firstSync : Option FirstSync)
  | tick (d : ℕ)

namespace Boundary

/-- One thing an execution does. -/
def executionStep (connector : Connector) (c : Boundary) (h : ℕ) (ex : Execution) :
    ExecutionStep → Boundary
  | .renew lag => c.renew h lag ex
  | .expire => c.setExecution h { ex with lost := true }
  | .fence => c.fence h ex
  | .commit => c.commit h ex
  | .rollback => c.rollback h ex
  | .call => c.call h ex
  | .release resources reruns => c.release connector h resources reruns ex
  | .deliver resource generation => c.deliver h resource generation ex
  | .beginWork => c.beginWork h ex
  | .endWork completed => c.endWork h completed ex
  | .settleRerun => c.settleRerun h ex

/-- One step. -/
def step (connector : Connector) (c : Boundary) : ConnectorStep → Boundary
  | .acquire purpose resources lag => c.acquire connector purpose resources lag
  | .execution h s =>
    match Dicts.get? c.executions h with
    | some ex => c.executionStep connector h ex s
    | none => c
  | .stop h => { c with executions := Dicts.pop c.executions h }
  | .callEnds i => { c with calls := c.calls.eraseIdx i }
  | .recordRerun resource => c.recordRerun resource
  | .settleUnrun resource stopped => c.settleUnrun resource stopped
  | .resumeReruns => c.resumeReruns
  | .change config firstSync => { c with config := config, firstSync := firstSync }
  | .tick d => { c with now := c.now + d }

def run (connector : Connector) (c : Boundary) (steps : List ConnectorStep) : Boundary :=
  steps.foldl (step connector) c

end Boundary

end Celerp
