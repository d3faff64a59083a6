/-
  Executions of one connection never get in each other's way.

  `Boundary.Fenced` is the invariant: what each execution believes of its lease is backed by the
  lease rows, its open transaction holds rows that name it, and each call in flight is made under a
  lease that outlives the margin.  Each step keeps it (`fenced_step`).

  `leases_exclusive`: over every run of executions that start, renew, write, call, release and stop,
  two calls to the store in flight are for the same resource only where one outlasts the margin
  (`StoreCall.Outlasts`), no two open transactions hold the same lease row, and nothing is committed
  under an older lease of a resource once a newer one was granted.
-/
import Celerp.Connectors.Execution
import Celerp.Lib.Runs
import Mathlib.Order.Nat

namespace Celerp

open Leases

/-- The lease and heartbeat rows, as a table of leases. -/
def Boundary.table (c : Boundary) : Table String ℕ ℕ where
  generation r := (c.leases r).generation
  holder r := (c.leases r).holder
  expires r := (c.heartbeats r).expiresAt.getD 0

/-- What an execution believes of its lease. -/
def Execution.belief (ex : Execution) (h : ℕ) : Belief String ℕ ℕ :=
  ⟨h, ex.resources, ex.generations, ex.confirmedExpiry⟩

/-- What holds of an execution. -/
structure Execution.Fenced (t : Table String ℕ ℕ) (now h : ℕ) (ex : Execution) : Prop where
  backed : Backed t now (ex.belief h)
  locked : ∀ rs, ex.transaction = some rs → ∀ r ∈ rs, t.Names h (ex.generations r) r

/-- A call in flight is under a lease that outlives the margin, or it outlasts the margin itself. -/
def StoreCall.Held (t : Table String ℕ ℕ) (now : ℕ) (k : StoreCall) : Prop :=
  ∀ r ∈ k.resources, (t.holder r = some k.holder ∧ k.Outlasts (t.expires r)) ∨ k.Outlasts now

/-- A call and an older one are for other resources, or one of them outlasts the margin when the
    call is made. -/
def StoreCall.Apart (k older : StoreCall) : Prop :=
  ∀ r ∈ k.resources, r ∈ older.resources → older.Outlasts k.startedAt ∨ k.Outlasts k.startedAt

structure Boundary.Fenced (c : Boundary) : Prop where
  agree : ∀ r, (c.heartbeats r).holder = (c.leases r).holder
  soon : ∀ r, c.table.expires r ≤ c.now + TTL
  executions : ∀ h ex, Dicts.get? c.executions h = some ex → h < c.holders ∧ ex.Fenced c.table c.now h
  calls : ∀ k ∈ c.calls, k.Held c.table c.now
  apart : c.calls.Pairwise StoreCall.Apart
  ordered : Ordered c.log
  within : Within c.table c.log

section
variable {connector : Connector} {c : Boundary} {ex ex' : Execution} {h : ℕ} {r resource : String}
  {b b' : Heartbeat}

theorem fenced_fresh {config : Option ConnectorConfig} {firstSync : Option FirstSync} :
    (Boundary.fresh config firstSync).Fenced where
  agree := fun _ => rfl
  soon := fun _ => Nat.zero_le _
  executions := fun h ex hex => by simp [Boundary.fresh] at hex
  calls := fun k hk => absurd hk List.not_mem_nil
  apart := .nil
  ordered := List.Pairwise.nil
  within := within_nil

/-! ## Changes that leave the leases alone -/

/-- A heartbeat row is held as before. -/
def Heartbeat.HeldAs (b b' : Heartbeat) : Prop := b'.holder = b.holder ∧ b'.expiresAt = b.expiresAt

theorem heldAs_pace {now : ℕ} {p : Pacing} : b.HeldAs (b.pace now p) := by
  cases p <;> exact ⟨rfl, rfl⟩

theorem heldAs_ack {now g : ℕ} {alone : Bool} : b.HeldAs (b.ack now h g alone) := by
  unfold Heartbeat.ack
  split_ifs
  · exact ⟨rfl, rfl⟩
  · exact ⟨rfl, rfl⟩

theorem heldAs_record {now : ℕ} : b.HeldAs (b.record now) := by
  unfold Heartbeat.record
  simp only
  split_ifs
  · exact ⟨rfl, rfl⟩
  · exact heldAs_pace

theorem Boundary.Fenced.heartbeats (hc : c.Fenced) {f : String → Heartbeat}
    (hf : ∀ r, (c.heartbeats r).HeldAs (f r)) : { c with heartbeats := f }.Fenced := by
  have htable : { c with heartbeats := f }.table = c.table := by
    simp only [Boundary.table, Table.mk.injEq, true_and]
    funext r
    rw [(hf r).2]
  refine ⟨fun r => (hf r).1.trans (hc.agree r), ?_, ?_, ?_, hc.apart, hc.ordered, ?_⟩
  · exact htable.symm ▸ hc.soon
  · exact htable.symm ▸ hc.executions
  · exact htable.symm ▸ hc.calls
  · exact htable.symm ▸ hc.within

theorem Boundary.Fenced.setHeartbeat (hc : c.Fenced) (hb : (c.heartbeats resource).HeldAs b) :
    (c.setHeartbeat resource b).Fenced := by
  refine hc.heartbeats fun r => ?_
  rcases eq_or_ne r resource with rfl | hr
  · rw [Function.update_self]
    exact hb
  · rw [Function.update_of_ne hr]
    exact ⟨rfl, rfl⟩

theorem Boundary.Fenced.setExecution (hc : c.Fenced) (hex : Dicts.get? c.executions h = some ex)
    (hex' : ex'.Fenced c.table c.now h) : (c.setExecution h ex').Fenced where
  agree := hc.agree
  soon := hc.soon
  executions := by
    intro h' ex₁ hget
    rw [Boundary.setExecution, Dicts.get?_set] at hget
    split_ifs at hget with hh
    · subst hh
      exact ⟨(hc.executions h' ex hex).1, Option.some.inj hget ▸ hex'⟩
    · exact hc.executions h' ex₁ hget
  calls := hc.calls
  apart := hc.apart
  ordered := hc.ordered
  within := hc.within

/-! ## Granting, renewing and freeing -/

section
variable {t : Table String ℕ ℕ} {now e h' : ℕ} {resources : List String} {k : StoreCall}

theorem Execution.Fenced.grant (hex : ex.Fenced t now h)
    (hended : ∀ r ∈ resources, t.holder r ≠ none → t.expires r ≤ now)
    (hunlocked : ∀ rs, ex.transaction = some rs → ∀ r ∈ rs, r ∉ resources) (hne : h ≠ h') :
    ex.Fenced (t.grant h' resources e) now h where
  backed := hex.backed.grant hended hne
  locked rs htx r hr := by
    simp only [Table.Names, Table.grant, if_neg (hunlocked rs htx r hr)]
    exact hex.locked rs htx r hr

theorem Execution.Fenced.extend (hex : ex.Fenced t now h) (hlater : ∀ r ∈ resources, t.expires r ≤ e) :
    ex.Fenced (t.extend resources e) now h where
  backed := hex.backed.extend hlater
  locked := hex.locked

/-- The rows another holder frees are not those a transaction holds. -/
theorem Execution.Fenced.free (hex : ex.Fenced t now h) (hheld : ∀ r ∈ resources, t.holder r = some h')
    (hne : h ≠ h') : ex.Fenced (t.free resources e) now h where
  backed := hex.backed.free hheld hne
  locked rs htx r hr := by
    have hnames := hex.locked rs htx r hr
    have hkept : r ∉ resources := fun hfreed => hne (Option.some.inj (hnames.1.symm.trans (hheld r hfreed)))
    simp only [Table.Names, Table.free, if_neg hkept]
    exact hnames

theorem StoreCall.Outlasts.later {now' : ℕ} (hk : k.Outlasts now) (hnow : now ≤ now') : k.Outlasts now' :=
  lt_of_lt_of_le hk (Nat.add_le_add_right hnow _)

/-- A lease that has ended is not one a call within the margin is made under. -/
theorem StoreCall.Held.grant (hk : k.Held t now)
    (hended : ∀ r ∈ resources, t.holder r ≠ none → t.expires r ≤ now) : k.Held (t.grant h' resources e) now := by
  intro r hr
  by_cases hrs : r ∈ resources
  · rcases hk r hr with ⟨hholder, hlast⟩ | hlast
    · exact .inr (hlast.later (hended r hrs (by simp [hholder])))
    · exact .inr hlast
  · simp only [Table.grant, if_neg hrs]
    exact hk r hr

theorem StoreCall.Held.extend (hk : k.Held t now) (hlater : ∀ r ∈ resources, t.expires r ≤ e) :
    k.Held (t.extend resources e) now := by
  intro r hr
  refine (hk r hr).imp_left fun ⟨hholder, hlast⟩ => ⟨hholder, ?_⟩
  simp only [Table.extend]
  split_ifs with hrs
  · exact hlast.later (hlater r hrs)
  · exact hlast

theorem StoreCall.Held.free (hk : k.Held t now) (hheld : ∀ r ∈ resources, t.holder r = some h')
    (hne : k.holder ≠ h') : k.Held (t.free resources e) now := by
  intro r hr
  refine (hk r hr).imp_left fun ⟨hholder, hlast⟩ => ?_
  have hkept : r ∉ resources := fun hfreed => hne (Option.some.inj (hholder.symm.trans (hheld r hfreed)))
  simp only [Table.free, if_neg hkept]
  exact ⟨hholder, hlast⟩

end

/-- A resource that may be taken: no transaction holds its lease row, and its lease has ended. -/
theorem free_spec {resources : List String} (hfree : c.free resources = true) (hr : r ∈ resources) :
    (∀ h ex rs, Dicts.get? c.executions h = some ex → ex.transaction = some rs → r ∉ rs) ∧
      (c.heartbeats r).live c.now = false := by
  simp only [Boundary.free, Bool.and_eq_true, List.all_eq_true, Bool.not_eq_true'] at hfree
  refine ⟨fun h ex rs hex htx hmem => ?_, hfree.2 r hr⟩
  have hlocked := hfree.1 _ (Dicts.mem_of_get? hex)
  simp only [htx, Option.all_some, List.all_eq_true, decide_eq_true_eq] at hlocked
  exact hlocked r hr hmem

/-- A lease that is not live has ended. -/
theorem ended_of_not_live (hlive : (c.heartbeats r).live c.now = false) (hheld : (c.heartbeats r).holder ≠ none) :
    c.table.expires r ≤ c.now := by
  simp only [Heartbeat.live, Bool.and_eq_false_iff, Option.isSome_eq_false_iff, Option.isNone_iff_eq_none] at hlive
  have hnot := hlive.resolve_left hheld
  simp only [Boundary.table]
  cases hexp : (c.heartbeats r).expiresAt with
  | none => exact Nat.zero_le _
  | some e =>
    rw [hexp] at hnot
    simpa using hnot

theorem table_granted {purpose : Purpose} {resources : List String} {lag : ℕ} :
    (c.granted purpose resources lag).table = c.table.grant c.holders resources (c.now + TTL) := by
  simp only [Boundary.granted, Boundary.table, Table.grant, Table.mk.injEq]
  refine ⟨?_, ?_, ?_⟩
  all_goals
    funext r
    split_ifs
    · rfl
    · rfl

theorem Boundary.Fenced.acquire (hc : c.Fenced) {purpose : Purpose} {resources : List String} {lag : ℕ} :
    (c.acquire connector purpose resources lag).Fenced := by
  unfold Boundary.acquire
  split_ifs with hguard
  · obtain ⟨-, hfree⟩ := hguard
    have hended : ∀ r ∈ resources, c.table.holder r ≠ none → c.table.expires r ≤ c.now := by
      intro r hr hheld
      refine ended_of_not_live (free_spec hfree hr).2 ?_
      rw [hc.agree r]
      exact hheld
    obtain ⟨hordered, hwithin⟩ := recorded (fun r => (c.leases r).generation + 1) resources hc.ordered
      (hc.within.grant c.holders resources (c.now + TTL)) fun r hr => by
        simp only [Table.Names, Table.grant, if_pos hr]
        exact ⟨rfl, rfl⟩
    refine ⟨fun r => ?_, fun r => ?_, fun h ex hex => ?_, fun k hk => ?_, hc.apart, hordered, table_granted ▸ hwithin⟩
    · simp only [Boundary.granted]
      split_ifs
      · rfl
      · exact hc.agree r
    · rw [table_granted]
      simp only [Table.grant]
      split_ifs
      · exact le_refl _
      · exact hc.soon r
    · rw [table_granted]
      simp only [Boundary.granted, Dicts.get?_set] at hex
      split_ifs at hex with hh
      · subst hh
        cases hex
        refine ⟨Nat.lt_succ_self _, ?_, fun rs htx => by cases htx⟩
        exact backed_granted (le_refl _) (fun _ _ => rfl) fun _ hr => hr
      · obtain ⟨hlt, hex'⟩ := hc.executions h ex hex
        refine ⟨Nat.lt_succ_of_lt hlt, hex'.grant hended (fun rs htx r hr hr' => ?_) hh⟩
        exact (free_spec hfree hr').1 h ex rs hex htx hr
    · rw [table_granted]
      exact (hc.calls k hk).grant hended
  · exact hc

theorem table_extended {resources : List String} :
    (c.extended resources).table = c.table.extend resources (c.now + TTL) := by
  simp only [Boundary.extended, Boundary.table, Table.extend, Table.mk.injEq, true_and]
  funext r
  split_ifs
  · rfl
  · rfl

/-- The end of a lease is only put off. -/
theorem Boundary.Fenced.extended (hc : c.Fenced) (resources : List String) : (c.extended resources).Fenced where
  agree := by
    intro r
    simp only [Boundary.extended]
    split_ifs
    · exact hc.agree r
    · exact hc.agree r
  soon := by
    intro r
    rw [table_extended]
    simp only [Table.extend]
    split_ifs
    · exact le_refl _
    · exact hc.soon r
  executions := by
    intro h ex hex
    obtain ⟨hlt, hex'⟩ := hc.executions h ex hex
    rw [table_extended]
    exact ⟨hlt, hex'.extend fun r _ => hc.soon r⟩
  calls := by
    intro k hk
    rw [table_extended]
    exact (hc.calls k hk).extend fun r _ => hc.soon r
  apart := hc.apart
  ordered := hc.ordered
  within := table_extended ▸ hc.within.extend

theorem Boundary.Fenced.renew (hc : c.Fenced) (hex : Dicts.get? c.executions h = some ex) {lag : ℕ} :
    (c.renew h lag ex).Fenced := by
  have hex' := (hc.executions h ex hex).2
  unfold Boundary.renew
  split_ifs with hguard
  · exact hc
  · simp only
    set held := ex.resources.filter _ with hheld
    have hextended := hc.extended held
    split_ifs with hall
    · refine hextended.setExecution hex ⟨?_, ?_⟩
      · have hevery := List.length_filter_eq_length_iff.1 hall
        rw [table_extended]
        refine backed_extended (le_refl _) (fun r hr => List.mem_filter.2 ⟨hr, hevery r hr⟩) fun r hr => ?_
        -- a row that names the holder names it at its own generation
        have hholder : c.table.holder r = some h := by
          have := hevery r hr
          simp only [Bool.and_eq_true, decide_eq_true_eq] at this
          exact (hc.agree r).symm.trans this.1
        exact ((hex'.backed r hr).resolve_right fun hother => hother.2.2 hholder).1
      · rw [table_extended]
        exact hex'.locked
    · have hlost : ex.Fenced (c.extended held).table c.now h := by
        rw [table_extended]
        exact hex'.extend fun r _ => hc.soon r
      exact hextended.setExecution hex ⟨hlost.backed, hlost.locked⟩

/-- The leases a holder still has on some resources. -/
def Boundary.freed (c : Boundary) (h : ℕ) (resources : List String) : List String :=
  resources.filter fun r => (c.leases r).holder = some h

theorem mem_freed {resources : List String} :
    r ∈ c.freed h resources ↔ r ∈ resources ∧ (c.leases r).holder = some h := by
  simp [Boundary.freed]

/-- The rows a holder frees are those that name it. -/
theorem given_eq (hc : c.Fenced) (hex : ex.Fenced c.table c.now h) {resources : List String}
    (hsub : resources ⊆ ex.resources) :
    (c.given h resources ex).leases = (fun r =>
        if r ∈ c.freed h resources then { c.leases r with holder := none } else c.leases r) ∧
      (c.given h resources ex).heartbeats = fun r =>
        if r ∈ c.freed h resources then { c.heartbeats r with holder := none, expiresAt := none }
        else c.heartbeats r := by
  constructor
  · funext r
    have hiff : (r ∈ resources ∧ c.leases r = ⟨ex.generations r, some h⟩) ↔ r ∈ c.freed h resources := by
      rw [mem_freed]
      refine and_congr_right fun hr => ⟨fun heq => by rw [heq], fun hholder => ?_⟩
      have hnames := ((hex.backed r (hsub hr)).resolve_right fun hother => hother.2.2 hholder).1
      exact Lease.ext hnames.2 hnames.1
    simp only [Boundary.given, hiff]
  · funext r
    simp only [Boundary.given, mem_freed, hc.agree r]

theorem Boundary.Fenced.given (hc : c.Fenced) (hex : Dicts.get? c.executions h = some ex)
    {resources : List String} (hsub : resources ⊆ ex.resources) (htx : ex.transaction = none)
    (hcalling : c.calling h = false) {ex' : Execution}
    (hresources : ex'.resources = ex.resources.filter (· ∉ resources))
    (hsame : ex'.generations = ex.generations ∧ ex'.confirmedExpiry = ex.confirmedExpiry ∧
      ex'.transaction = ex.transaction) :
    ((c.given h resources ex).setExecution h ex').Fenced := by
  obtain ⟨hlt, hex₁⟩ := hc.executions h ex hex
  obtain ⟨hleases, hheartbeats⟩ := given_eq hc hex₁ hsub
  have htable : ((c.given h resources ex).setExecution h ex').table = c.table.free (c.freed h resources) 0 := by
    simp only [Boundary.table, Boundary.setExecution, hleases, hheartbeats, Table.free, Table.mk.injEq]
    refine ⟨?_, ?_, ?_⟩
    all_goals
      funext r
      split_ifs
      · rfl
      · rfl
  have hheld : ∀ r ∈ c.freed h resources, c.table.holder r = some h := fun r hr => (mem_freed.1 hr).2
  refine ⟨fun r => ?_, fun r => ?_, fun h' ex₂ hget => ?_, fun k hk => ?_, hc.apart, hc.ordered, ?_⟩
  · simp only [Boundary.setExecution, hleases, hheartbeats]
    split_ifs
    · rfl
    · exact hc.agree r
  · rw [htable]
    simp only [Table.free]
    split_ifs
    · exact Nat.zero_le _
    · exact hc.soon r
  · rw [htable]
    rw [Boundary.setExecution, Dicts.get?_set] at hget
    split_ifs at hget with hh
    · subst hh
      cases hget
      obtain ⟨hgen, hexpiry, htx'⟩ := hsame
      refine ⟨hlt, ?_, fun rs hrs => by rw [htx', htx] at hrs; cases hrs⟩
      have hbelief : ex'.belief h' = { ex.belief h' with resources := ex'.resources } := by
        simp only [Execution.belief, hgen, hexpiry]
      rw [hbelief]
      refine (hex₁.backed.sub fun r hr => ?_).kept fun r hr hfreed => ?_
      · exact (List.mem_filter.1 (hresources ▸ hr)).1
      · have hnot := (List.mem_filter.1 (hresources ▸ hr)).2
        exact absurd (mem_freed.1 hfreed).1 (by simpa using hnot)
    · obtain ⟨hlt', hex₂⟩ := hc.executions h' ex₂ hget
      exact ⟨hlt', hex₂.free hheld hh⟩
  · rw [htable]
    simp only [Boundary.calling, List.any_eq_false, decide_eq_true_eq] at hcalling
    exact (hc.calls k hk).free hheld (hcalling k hk)
  · rw [htable]
    exact hc.within.free

theorem Boundary.Fenced.dropReruns (hc : c.Fenced) (dropped : List (String × ℕ)) :
    (c.dropReruns h dropped).Fenced := by
  have hsame : ∀ r, (c.heartbeats r).HeldAs ((c.dropReruns h dropped).heartbeats r) := by
    intro r
    simp only [Boundary.dropReruns]
    cases Dicts.get? dropped r with
    | none => exact ⟨rfl, rfl⟩
    | some g => exact heldAs_ack
  exact { hc.heartbeats hsame with }

theorem Boundary.Fenced.release (hc : c.Fenced) (hex : Dicts.get? c.executions h = some ex)
    {resources : List String} {reruns : Bool} : (c.release connector h resources reruns ex).Fenced := by
  unfold Boundary.release
  by_cases hguard : ex.transaction.isSome ∨ c.calling h ∨ ¬resources ⊆ ex.resources
  · rw [if_pos hguard]
    exact hc
  · rw [if_neg hguard]
    obtain ⟨htx, hcalling, hsub⟩ := (not_or.1 hguard).imp_right not_or.1
    refine (hc.dropReruns _).given hex (fun r hr => not_not.1 hsub (List.mem_filter.1 hr).1) ?_ ?_ rfl
      ⟨rfl, rfl, rfl⟩
    · simpa using htx
    · exact Bool.eq_false_iff.2 hcalling

/-! ## Transactions and calls -/

theorem Boundary.Fenced.fence (hc : c.Fenced) (hex : Dicts.get? c.executions h = some ex) :
    (c.fence h ex).Fenced := by
  have hex' := (hc.executions h ex hex).2
  unfold Boundary.fence
  split_ifs with hguard hnamed
  · exact hc
  · refine hc.setExecution hex ⟨hex'.backed, fun rs htx r hr => ?_⟩
    cases htx
    simp only [List.all_eq_true, decide_eq_true_eq] at hnamed
    simp [Table.Names, Boundary.table, hnamed r hr]
  · exact hc.setExecution hex ⟨hex'.backed, hex'.locked⟩

/-- **What a fenced transaction commits** is under the lease the rows name. -/
theorem Boundary.Fenced.commit (hc : c.Fenced) (hex : Dicts.get? c.executions h = some ex) :
    (c.commit h ex).Fenced := by
  have hex' := (hc.executions h ex hex).2
  unfold Boundary.commit
  cases htx : ex.transaction with
  | none => exact hc
  | some locked =>
    obtain ⟨hordered, hwithin⟩ := recorded ex.generations locked hc.ordered hc.within (hex'.locked locked htx)
    have hset : (c.setExecution h { ex with transaction := none }).Fenced :=
      hc.setExecution hex ⟨hex'.backed, fun rs hrs => by cases hrs⟩
    exact { hset with ordered := hordered, within := hwithin }

/-- While an execution is alive, the lease rows name it for longer than the margin, but for how
    late its clock is. -/
theorem Execution.Fenced.names_of_alive {t : Table String ℕ ℕ} {now : ℕ} (hex : ex.Fenced t now h)
    (halive : ex.alive now = true) (hr : r ∈ ex.resources) :
    (t.Names h (ex.generations r) r ∧ now + MARGIN < t.expires r + ex.behind) ∨ MARGIN < ex.behind := by
  simp only [Execution.alive, Execution.dbNow, Bool.and_eq_true] at halive
  have hclock := of_decide_eq_true halive.2
  rcases Nat.lt_or_ge now ex.confirmedExpiry with hbefore | hended
  · obtain ⟨hnames, hexpires⟩ := hex.backed.names hr hbefore
    simp only [Execution.belief] at hexpires
    exact .inl ⟨hnames, by omega⟩
  · right
    omega

/-- **While an execution is alive**, the calls in flight of its resources are its own or outlast
    the margin, but for how late its clock is. -/
theorem Boundary.Fenced.calls_own (hc : c.Fenced) (hex : Dicts.get? c.executions h = some ex)
    (halive : ex.alive c.now = true) (hr : r ∈ ex.resources) {k : StoreCall} (hk : k ∈ c.calls)
    (hrk : r ∈ k.resources) : k.holder = h ∨ k.Outlasts c.now ∨ MARGIN < ex.behind := by
  rcases (hc.executions h ex hex).2.names_of_alive halive hr with ⟨hnames, -⟩ | hlate
  · rcases hc.calls k hk r hrk with ⟨hholder, -⟩ | hlast
    · exact .inl (Option.some.inj (hholder.symm.trans hnames.1))
    · exact .inr (.inl hlast)
  · exact .inr (.inr hlate)

/-- **A call begun while the lease is alive** is apart from those in flight. -/
theorem Boundary.Fenced.call (hc : c.Fenced) (hex : Dicts.get? c.executions h = some ex) :
    (c.call h ex).Fenced := by
  have hex' := (hc.executions h ex hex).2
  unfold Boundary.call
  split_ifs with hguard halive
  · exact hc
  · simp only [not_or] at hguard
    obtain ⟨-, -, hcalling⟩ := hguard
    have hlate : MARGIN < ex.behind → StoreCall.Outlasts ⟨h, ex.resources, c.now, ex.behind⟩ c.now :=
      Nat.add_lt_add_left (k := c.now)
    refine { hc with calls := fun k hk => ?_, apart := List.pairwise_cons.2 ⟨fun k hk r hr hrk => ?_, hc.apart⟩ }
    · rcases List.mem_cons.1 hk with rfl | hk
      · intro r hr
        exact (hex'.names_of_alive halive hr).imp (fun hnames => ⟨hnames.1.1, hnames.2⟩) hlate
      · exact hc.calls k hk
    · have hother : k.holder ≠ h := fun heq => hcalling (List.any_eq_true.2 ⟨k, hk, decide_eq_true heq⟩)
      exact ((hc.calls_own hex halive hr hk hrk).resolve_left hother).imp_right hlate
  · exact hc.setExecution hex ⟨hex'.backed, hex'.locked⟩

/-! ## Runs -/

/-- **One thing an execution does.** -/
theorem Boundary.Fenced.executionStep (hc : c.Fenced) (hex : Dicts.get? c.executions h = some ex)
    (s : ExecutionStep) : (c.executionStep connector h ex s).Fenced := by
  have hex' := (hc.executions h ex hex).2
  have hset : ∀ {ex' : Execution}, ex'.belief h = ex.belief h → ex'.transaction = ex.transaction →
      (c.setExecution h ex').Fenced := by
    intro ex' hbelief htx
    have hgen : ex'.generations = ex.generations := congrArg Belief.generation hbelief
    refine hc.setExecution hex ⟨hbelief ▸ hex'.backed, ?_⟩
    rw [htx, hgen]
    exact hex'.locked
  cases s with
  | renew lag => exact hc.renew hex
  | expire => exact hset rfl rfl
  | fence => exact hc.fence hex
  | commit => exact hc.commit hex
  | rollback => exact hc.setExecution hex ⟨hex'.backed, fun rs hrs => by cases hrs⟩
  | call => exact hc.call hex
  | release resources reruns => exact hc.release hex
  | deliver resource generation =>
    simp only [Boundary.executionStep, Boundary.deliver]
    split_ifs
    · exact hset rfl rfl
    · exact hc
  | beginWork =>
    simp only [Boundary.executionStep, Boundary.beginWork]
    split
    · rename_i w work _ _ _
      have hbegan : (c.setExecution h { ex with work := work, running := some w }).Fenced := hset rfl rfl
      exact { hbegan with }
    · exact hc
  | endWork completed =>
    simp only [Boundary.executionStep, Boundary.endWork]
    split
    · rename_i w _
      have hran : (c.setExecution h { ex with running := none, ran := some (w, completed) }).Fenced :=
        hset rfl rfl
      exact { hran with }
    · exact hc
  | settleRerun =>
    simp only [Boundary.executionStep, Boundary.settleRerun]
    split
    · refine Boundary.Fenced.setHeartbeat ?_ heldAs_ack
      exact hset rfl rfl
    · refine Boundary.Fenced.setHeartbeat ?_ ?_
      · exact hset rfl rfl
      split_ifs
      · exact heldAs_pace
      · exact ⟨rfl, rfl⟩
    · exact hc

/-- **One step.** -/
theorem fenced_step (hc : c.Fenced) (s : ConnectorStep) : (c.step connector s).Fenced := by
  cases s with
  | acquire purpose resources lag => exact hc.acquire
  | execution h s =>
    simp only [Boundary.step]
    split
    · rename_i ex hex
      exact hc.executionStep hex s
    · exact hc
  | stop h =>
    refine { hc with executions := fun h' ex hex => ?_ }
    simp only [Boundary.step, Dicts.get?_pop] at hex
    split_ifs at hex
    exact hc.executions h' ex hex
  | callEnds i =>
    refine { hc with calls := fun k hk => hc.calls k (List.mem_of_mem_eraseIdx hk), apart := ?_ }
    exact hc.apart.sublist (List.eraseIdx_sublist _ _)
  | recordRerun resource =>
    have hset : (c.setHeartbeat resource ((c.heartbeats resource).record c.now)).Fenced :=
      hc.setHeartbeat heldAs_record
    exact { hset with }
  | settleUnrun resource stopped =>
    simp only [Boundary.step, Boundary.settleUnrun]
    split
    · exact hc
    · split_ifs
      · exact hc
      · split
        · have hset : (c.setHeartbeat resource ({ c.heartbeats resource with
              rerunDone := (c.heartbeats resource).rerunRequested }.pace c.now .clear)).Fenced :=
            hc.setHeartbeat ⟨rfl, rfl⟩
          exact { hset with }
        · have hset : (c.setHeartbeat resource ((c.heartbeats resource).pace c.now .park)).Fenced :=
            hc.setHeartbeat heldAs_pace
          exact { hset with }
        · exact hc.setHeartbeat heldAs_pace
  | resumeReruns =>
    refine hc.heartbeats fun r => ?_
    split_ifs
    · exact ⟨rfl, rfl⟩
    · exact heldAs_pace
  | change config firstSync => exact { hc with }
  | tick d =>
    have hlater : c.now ≤ c.now + d := Nat.le_add_right _ _
    refine ⟨hc.agree, fun r => ?_, fun h ex hex => ?_, fun k hk r hr => ?_, hc.apart, hc.ordered, hc.within⟩
    · exact (hc.soon r).trans (Nat.add_le_add_right hlater _)
    · obtain ⟨hlt, hex'⟩ := hc.executions h ex hex
      exact ⟨hlt, hex'.backed.later hlater, hex'.locked⟩
    · exact (hc.calls k hk r hr).imp_right fun hlast => hlast.later hlater

theorem fenced_run {config : Option ConnectorConfig} {firstSync : Option FirstSync} {steps : List ConnectorStep} :
    ((Boundary.fresh config firstSync).run connector steps).Fenced := by
  have hstep : ∀ c s, Boundary.Fenced c → True → (Boundary.step connector c s).Fenced :=
    fun _ s hc _ => fenced_step hc s
  exact Runs.foldl_of_step hstep fenced_fresh (Runs.everyStep_of_forall fun _ _ => trivial)

/-- **Executions of a connection exclude each other.**  Over every run: two calls to the store in
    flight are of different resources, or one of them outlasts the margin when the younger is made;
    two open transactions hold different lease rows; and what is committed under an older lease of a
    resource comes before the next was granted. -/
theorem leases_exclusive (connector : Connector) (config : Option ConnectorConfig) (firstSync : Option FirstSync)
    (steps : List ConnectorStep) :
    let c := (Boundary.fresh config firstSync).run connector steps
    (c.calls.Pairwise fun k older => ∀ r ∈ k.resources, r ∈ older.resources →
        older.Outlasts k.startedAt ∨ k.Outlasts k.startedAt) ∧
      (∀ h h' ex ex' rs rs' r, Dicts.get? c.executions h = some ex → Dicts.get? c.executions h' = some ex' →
        ex.transaction = some rs → ex'.transaction = some rs' → r ∈ rs → r ∈ rs' → h = h') ∧
      Ordered c.log := by
  intro c
  have hc : c.Fenced := fenced_run
  refine ⟨hc.apart, fun h h' ex ex' rs rs' r hex hex' hrs hrs' hr hr' => ?_, hc.ordered⟩
  have hnames := (hc.executions h ex hex).2.locked rs hrs r hr
  have hnames' := (hc.executions h' ex' hex').2.locked rs' hrs' r hr'
  exact Option.some.inj (hnames.1.symm.trans hnames'.1)

end

/-- A connector that syncs products. -/
def productsConnector : Connector := ⟨false, fun _ => ["products"]⟩

/-- An execution calls the store for longer than its lease, another takes the lease over and calls
    the store as well, and only the other writes. -/
def takeover : List ConnectorStep :=
  [.acquire .schedule ["products"] 0, .execution 0 .call, .tick TTL, .acquire .schedule ["products"] 0,
    .execution 1 .call, .execution 0 .fence, .execution 0 .commit, .execution 1 .fence, .execution 1 .commit]

theorem leases_exclusive_takeover :
    let c := (Boundary.fresh (some ⟨[], false⟩) (some ⟨.completed, []⟩)).run productsConnector takeover
    c.calls = [⟨1, ["products"], TTL, 0⟩, ⟨0, ["products"], 0, 0⟩] ∧
      c.log = [⟨"products", 2, 1⟩, ⟨"products", 2, 1⟩, ⟨"products", 1, 0⟩] ∧
      (c.calls.Pairwise fun k older => ∀ r ∈ k.resources, r ∈ older.resources →
        older.Outlasts k.startedAt ∨ k.Outlasts k.startedAt) ∧ Ordered c.log := by
  intro c
  obtain ⟨hcalls, -, hordered⟩ :=
    leases_exclusive productsConnector (some ⟨[], false⟩) (some ⟨.completed, []⟩) takeover
  exact ⟨rfl, rfl, hcalls, hordered⟩

end Celerp
