/-
  The company lock and what taking it proved (`celerp/services/company_lock.py`).

  A lock is noted with the savepoint it was taken in (`Session.note`); the notes of a
  savepoint go when it, or one containing it, rolls back (`proofsReleased`), and all of them
  when the transaction ends (`lockReleased`). The database holds a row lock with the
  savepoint that took it, hands it to the one outside on release, and lets it go on a
  rollback (`Database`).

  `holdsCompanyLock_iff`: after any run of savepoints, rollbacks and locks, the session says
  it holds a company's lock exactly when the database does. `holds_after_lockCompany`: a lock
  asked for on a row that is there is held afterwards.
-/
import Celerp.Lib.Runs
import Celerp.Lib.Scopes
import Mathlib.Data.List.Dedup
import Mathlib.Data.List.Sort
import Mathlib.Data.String.Basic

namespace Celerp

open Scopes Scope

/-! ## The session -/

/-- What a note proves. -/
inductive ProofKind where
  | locked | loaded | deleting | judged | modules
  deriving DecidableEq, Repr

/-- A session transaction, which keeps its parent: a savepoint is `nested` in it. -/
abbrev SessionTransaction := Scope Bool

/-- The innermost savepoint a transaction is or is in (`get_nested_transaction`). -/
def nestedTransaction : SessionTransaction → Option SessionTransaction
  | root _ => none
  | child id true parent => some (child id true parent)
  | child _ false parent => nestedTransaction parent

/-- The outermost transaction (`get_transaction`). -/
def rootTransaction : SessionTransaction → SessionTransaction
  | root id => root id
  | child _ _ parent => rootTransaction parent

/-- A note of a lock: what it proves, of what, and the transaction or savepoint it was
    taken in. -/
structure LockProof where
  kind : ProofKind
  key : String
  takenIn : SessionTransaction
  deriving DecidableEq

/-- A session: its innermost open transaction, and its `_PROOFS`. -/
structure Session where
  transaction : Option SessionTransaction := none
  proofs : List LockProof := []
  nextId : ℕ := 0
  deriving DecidableEq

namespace Session
variable (s : Session)

/-- `note`: in the innermost open savepoint, else in the transaction, which a lock's query has
    begun. -/
def note (kind : ProofKind) (key : String) : Session :=
  match s.transaction with
  | none => s
  | some t => { s with proofs := s.proofs ++ [⟨kind, key, (nestedTransaction t).getD (rootTransaction t)⟩] }

/-- `noted` -/
def noted (kind : ProofKind) : List String := (s.proofs.filter fun p => p.kind = kind).map (·.key)

/-- `holds_company_lock` -/
def holdsCompanyLock (companyId : String) : Bool := companyId ∈ s.noted .locked

/-- The savepoint, or the transaction, that a rollback takes back. -/
def boundary : SessionTransaction → SessionTransaction
  | root id => root id
  | child id true parent => child id true parent
  | child _ false parent => boundary parent

/-- `_proofs_released`: on a rollback, the proofs of the savepoint and of those in it go. -/
def proofsReleased (transaction : SessionTransaction) : Session :=
  { s with proofs := s.proofs.filter fun p => !(boundary transaction).within p.takenIn }

/-- `_lock_released`: at the end of the outermost transaction all proofs go. -/
def lockReleased : SessionTransaction → Session
  | root _ => { s with proofs := [] }
  | child .. => s

/-- A query begins a transaction where there is none. -/
def autobegin : Session :=
  match s.transaction with
  | none => { s with transaction := some (root s.nextId), nextId := s.nextId + 1 }
  | some _ => s

/-- A savepoint within the innermost open transaction. -/
def beginNested : Session :=
  match s.autobegin.transaction with
  | none => s
  | some t =>
    { s.autobegin with transaction := some (child s.autobegin.nextId true t), nextId := s.autobegin.nextId + 1 }

/-- Release the innermost savepoint. -/
def release : Session :=
  match s.transaction with
  | some (child id nested parent) => { s with transaction := some parent }.lockReleased (child id nested parent)
  | _ => s

/-- Roll the innermost savepoint back. -/
def rollBack : Session :=
  match s.transaction with
  | some (child id nested parent) =>
    ({ s with transaction := some parent }.proofsReleased (child id nested parent)).lockReleased (child id nested parent)
  | _ => s

/-- Roll back the savepoint some levels out, and those within it. -/
def rollBackTo : ℕ → Session
  | 0 => s.rollBack
  | k + 1 => (rollBackTo k).rollBack

/-- The savepoints open. -/
def depthOf : SessionTransaction → ℕ
  | root _ => 0
  | child _ _ parent => depthOf parent + 1

def depth : ℕ := (s.transaction.map depthOf).getD 0

/-- End the transaction. -/
def finish (rolledBack : Bool) : Session :=
  match s.transaction with
  | none => s
  | some t =>
    let ended := { s with transaction := none }
    (if rolledBack then ended.proofsReleased (rootTransaction t) else ended).lockReleased (rootTransaction t)

end Session

/-! ## The database -/

/-- The company rows a transaction holds locked, by the savepoint that holds each, from the
    innermost outwards; none outside a transaction. -/
structure Database where
  frames : List (List String) := []
  deriving DecidableEq

namespace Database
variable (d : Database)

/-- The database holds the row of a company locked. -/
def Holds (companyId : String) : Prop := ∃ f ∈ d.frames, companyId ∈ f

instance (companyId : String) : Decidable (d.Holds companyId) := by unfold Holds; infer_instance

/-- `BEGIN`, where there is no transaction. -/
def begin : Database := if d.frames = [] then ⟨[[]]⟩ else d

/-- `SAVEPOINT` -/
def savepoint : Database := ⟨[] :: d.begin.frames⟩

/-- `RELEASE SAVEPOINT`: the locks pass to what it is in. -/
def release : Database := ⟨merge d.frames⟩

/-- `ROLLBACK TO SAVEPOINT`, some levels out. -/
def rollBackTo (k : ℕ) : Database := ⟨d.frames.drop (k + 1)⟩

/-- A row locked for update. -/
def lockRow (companyId : String) : Database := ⟨addTop companyId d.frames⟩

end Database

/-! ## Runs -/

/-- A session on its database connection. -/
structure Connection where
  session : Session := {}
  database : Database := {}
  deriving DecidableEq

/-- What is done on a connection. -/
inductive LockEvent where
  | savepoint
  | release
  /-- a savepoint, by how many are open within it -/
  | rollBack (within : ℕ)
  | finish (rolledBack : Bool)
  /-- `lock_company`, where some companies are there -/
  | lockCompany (companyIds : List String) (found : List String)
  deriving DecidableEq

namespace Connection
variable (w : Connection)

/-- A row lock, and its note. -/
def take (companyId : String) : Connection :=
  ⟨w.session.note .locked companyId, w.database.lockRow companyId⟩

/-- `lock_company`: the rows of the companies not held yet are asked for, and those there are
    noted. Whether every row was there. -/
def lockCompany (companyIds found : List String) : Connection × Bool :=
  let ids := companyIds.dedup.insertionSort (· ≤ ·)
  let held := ids.filter w.session.holdsCompanyLock
  let asked := ids.filter fun c => !w.session.holdsCompanyLock c
  let taken := asked.filter fun c => c ∈ found
  let begun := if asked = [] then w else ⟨w.session.autobegin, w.database.begin⟩
  (taken.foldl take begun, held.length + taken.length = ids.length)

def step (w : Connection) : LockEvent → Connection
  | .savepoint => ⟨w.session.beginNested, w.database.savepoint⟩
  | .release => if 0 < w.session.depth then ⟨w.session.release, w.database.release⟩ else w
  | .rollBack k => if k < w.session.depth then ⟨w.session.rollBackTo k, w.database.rollBackTo k⟩ else w
  | .finish rolledBack => ⟨w.session.finish rolledBack, {}⟩
  | .lockCompany companyIds found => (w.lockCompany companyIds found).1

end Connection

/-! ## Session and database agree -/

/-- The locks noted, each with what it was taken in. -/
def lockedItems (proofs : List LockProof) : List (String × SessionTransaction) :=
  (proofs.filter fun p => p.kind = .locked).map fun p => (p.key, p.takenIn)

/-- All within a transaction are savepoints. -/
def AllNested : SessionTransaction → Prop
  | root _ => True
  | child _ nested parent => nested = true ∧ AllNested parent

/-- Within a transaction, the notes by the open savepoints are the locks the database holds with
    each. -/
structure InTransaction (w : Connection) (t : SessionTransaction) : Prop where
  transaction : w.session.transaction = some t
  nested : AllNested t
  below : t.Below w.session.nextId
  proofs_below : ∀ p ∈ w.session.proofs, p.takenIn.Below w.session.nextId
  frames : SameFrames w.database.frames (framesOf t (lockedItems w.session.proofs))

/-- Outside a transaction nothing is noted and nothing is held. -/
structure OutOfTransaction (w : Connection) : Prop where
  transaction : w.session.transaction = none
  proofs : w.session.proofs = []
  frames : w.database.frames = []

/-- The session and the database agree. -/
def Agrees (w : Connection) : Prop := OutOfTransaction w ∨ ∃ t, InTransaction w t

section
variable {w : Connection} {t p : SessionTransaction} {id n k : ℕ} {nested : Bool} {companyId : String}

/-- A note is taken in the innermost savepoint. -/
theorem takenIn_eq (h : AllNested t) : (nestedTransaction t).getD (rootTransaction t) = t := by
  cases t with
  | root id => rfl
  | child id nested parent =>
    obtain rfl := h.1
    rfl

/-- A savepoint is its own boundary. -/
theorem boundary_eq (h : AllNested t) : Session.boundary t = t := by
  cases t with
  | root id => rfl
  | child id nested parent =>
    obtain rfl := h.1
    rfl

theorem lockedItems_filter (b : SessionTransaction) (proofs : List LockProof) :
    lockedItems (proofs.filter fun p => !b.within p.takenIn) = (lockedItems proofs).filter fun i => !b.within i.2 := by
  unfold lockedItems
  rw [List.filter_map, List.filter_comm]
  rfl

theorem mem_lockedItems_iff {proofs : List LockProof} {i : String × SessionTransaction} :
    i ∈ lockedItems proofs ↔ ⟨.locked, i.1, i.2⟩ ∈ proofs := by
  unfold lockedItems
  constructor
  · intro hi
    obtain ⟨⟨kind, key, takenIn⟩, hp, rfl⟩ := List.mem_map.1 hi
    have hkind : kind = .locked := by simpa using List.of_mem_filter hp
    subst hkind
    exact List.mem_of_mem_filter hp
  · intro hi
    exact List.mem_map.2 ⟨_, List.mem_filter.2 ⟨hi, by simp⟩, rfl⟩

theorem holdsCompanyLock_eq_true : w.session.holdsCompanyLock companyId = true ↔
    ∃ t, (companyId, t) ∈ lockedItems w.session.proofs := by
  simp only [Session.holdsCompanyLock, Session.noted, lockedItems, decide_eq_true_eq, List.mem_map, Prod.mk.injEq]
  constructor
  · rintro ⟨p, hp, rfl⟩
    exact ⟨p.takenIn, p, hp, rfl, rfl⟩
  · rintro ⟨t, p, hp, rfl, -⟩
    exact ⟨p, hp, rfl⟩

/-- **Where session and database agree, so do what they hold.** -/
theorem Agrees.holds_iff (h : Agrees w) : w.session.holdsCompanyLock companyId = true ↔ w.database.Holds companyId := by
  rw [holdsCompanyLock_eq_true, Database.Holds]
  rcases h with h | ⟨t, h⟩
  · simp [h.proofs, h.frames, lockedItems]
  · rw [h.frames.exists_mem_iff]
    exact exists_mem_framesOf.symm

/-! ## What each step keeps -/

theorem framesOf_ne_nil (t : SessionTransaction) (items : List (String × SessionTransaction)) : framesOf t items ≠ [] := by
  cases t <;> exact List.cons_ne_nil _ _

/-- Once a query has begun a transaction, session and database are in one. -/
theorem Agrees.begun (h : Agrees w) : ∃ t, InTransaction ⟨w.session.autobegin, w.database.begin⟩ t := by
  rcases h with h | ⟨t, h⟩
  · refine ⟨root w.session.nextId, ?_, trivial, ?_, ?_, ?_⟩
    · simp [Session.autobegin, h.transaction]
    · simp [Session.autobegin, h.transaction, Below]
    · simp [Session.autobegin, h.transaction, h.proofs]
    · simp only [Session.autobegin, h.transaction, h.proofs, Database.begin, h.frames]
      exact SameFrames.refl _
  · refine ⟨t, ?_⟩
    have hsession : w.session.autobegin = w.session := by simp [Session.autobegin, h.transaction]
    have hframes : w.database.frames ≠ [] := by
      intro hnil
      have hframes := h.frames
      rw [hnil, SameFrames, List.forall₂_nil_left_iff] at hframes
      exact framesOf_ne_nil _ _ hframes
    rw [hsession, Database.begin, if_neg hframes]
    exact h

theorem InTransaction.savepoint (h : InTransaction w t) :
    InTransaction ⟨w.session.beginNested, w.database.savepoint⟩ (child w.session.nextId true t) := by
  have hsession : w.session.autobegin = w.session := by simp [Session.autobegin, h.transaction]
  have hbegun : w.session.beginNested =
      { w.session with transaction := some (child w.session.nextId true t), nextId := w.session.nextId + 1 } := by
    simp only [Session.beginNested, hsession, h.transaction]
  have hframes : w.database.begin = w.database := by
    rw [Database.begin, if_neg]
    intro hnil
    have hframes := h.frames
    rw [hnil, SameFrames, List.forall₂_nil_left_iff] at hframes
    exact framesOf_ne_nil _ _ hframes
  rw [hbegun]
  refine ⟨rfl, ⟨rfl, h.nested⟩, ⟨Nat.lt_succ_self _, h.below.succ⟩, fun p hp => (h.proofs_below p hp).succ, ?_⟩
  rw [Database.savepoint, hframes]
  show SameFrames ([] :: w.database.frames) (framesOf _ (lockedItems w.session.proofs))
  rw [framesOf_enter true t fun i hi => h.proofs_below _ (mem_lockedItems_iff.1 hi)]
  exact h.frames.cons_nil

theorem InTransaction.release (h : InTransaction w (child id nested p)) :
    InTransaction ⟨w.session.release, w.database.release⟩ p := by
  have hrelease : w.session.release = { w.session with transaction := some p } := by
    simp only [Session.release, h.transaction, Session.lockReleased]
  rw [hrelease]
  exact ⟨rfl, h.nested.2, h.below.2, h.proofs_below, h.frames.merge.trans (framesOf_leave id nested p _).symm⟩

theorem InTransaction.rollBack (h : InTransaction w (child id nested p)) :
    InTransaction ⟨w.session.rollBack, ⟨w.database.frames.tail⟩⟩ p := by
  have hrollBack : w.session.rollBack =
      { w.session with
        transaction := some p
        proofs := w.session.proofs.filter fun proof => !(child id nested p).within proof.takenIn } := by
    simp only [Session.rollBack, h.transaction, Session.lockReleased, Session.proofsReleased, boundary_eq h.nested]
  rw [hrollBack]
  refine ⟨rfl, h.nested.2, h.below.2, fun proof hproof => h.proofs_below proof (List.mem_of_mem_filter hproof), ?_⟩
  show SameFrames w.database.frames.tail (framesOf p (lockedItems (w.session.proofs.filter _)))
  rw [lockedItems_filter, framesOf_drop]
  exact h.frames.tail

/-- Rolling back some levels out leaves the transaction outside them. -/
theorem InTransaction.rollBackTo (h : InTransaction w t) (hk : k < Session.depthOf t) :
    ∃ p, InTransaction ⟨w.session.rollBackTo k, w.database.rollBackTo k⟩ p ∧
      Session.depthOf t = Session.depthOf p + (k + 1) := by
  induction k with
  | zero =>
    cases t with
    | root id => exact absurd hk (Nat.lt_irrefl 0)
    | child id nested p =>
      refine ⟨p, ?_, rfl⟩
      have hstep := h.rollBack
      rw [← List.drop_one] at hstep
      exact hstep
  | succ k ih =>
    obtain ⟨p, hp, hdepth⟩ := ih (Nat.lt_of_succ_lt hk)
    cases p with
    | root id =>
      have hzero : Session.depthOf (root id : SessionTransaction) = 0 := rfl
      omega
    | child id nested parent =>
      refine ⟨parent, ?_, ?_⟩
      · have hstep := hp.rollBack
        rw [Database.rollBackTo, List.tail_drop] at hstep
        exact hstep
      · have hdepth' : Session.depthOf (child id nested parent) = Session.depthOf parent + 1 := rfl
        omega

theorem InTransaction.take (h : InTransaction w t) (companyId : String) : InTransaction (w.take companyId) t := by
  have hnote : w.session.note .locked companyId =
      { w.session with proofs := w.session.proofs ++ [⟨.locked, companyId, t⟩] } := by
    simp only [Session.note, h.transaction, takenIn_eq h.nested]
  rw [Connection.take, hnote]
  refine ⟨h.transaction, h.nested, h.below, ?_, ?_⟩
  · exact List.forall_mem_append.2 ⟨h.proofs_below, List.forall_mem_singleton.2 h.below⟩
  · have hitems : lockedItems (w.session.proofs ++ [⟨.locked, companyId, t⟩]) =
        lockedItems w.session.proofs ++ [(companyId, t)] := by simp [lockedItems]
    show SameFrames (addTop companyId w.database.frames) (framesOf t (lockedItems (w.session.proofs ++ [_])))
    rw [hitems, framesOf_add]
    exact h.frames.addTop companyId

theorem InTransaction.takes (h : InTransaction w t) (taken : List String) :
    InTransaction (taken.foldl Connection.take w) t := by
  induction taken generalizing w with
  | nil => exact h
  | cons companyId taken ih => exact ih (h.take companyId)

/-! ### What a lock asked for gives -/

theorem InTransaction.holds_take (h : InTransaction w t) (taken : String) :
    (w.take taken).session.holdsCompanyLock companyId = true ↔
      companyId = taken ∨ w.session.holdsCompanyLock companyId = true := by
  have hitems : lockedItems (w.take taken).session.proofs = lockedItems w.session.proofs ++ [(taken, t)] := by
    simp [Connection.take, Session.note, h.transaction, takenIn_eq h.nested, lockedItems]
  rw [holdsCompanyLock_eq_true, holdsCompanyLock_eq_true, hitems]
  constructor
  · rintro ⟨u, hu⟩
    rcases List.mem_append.1 hu with hu | hu
    · exact .inr ⟨u, hu⟩
    · exact .inl (Prod.mk.inj (List.mem_singleton.1 hu)).1
  · rintro (rfl | ⟨u, hu⟩)
    · exact ⟨t, List.mem_append_right _ (List.mem_singleton_self _)⟩
    · exact ⟨u, List.mem_append_left _ hu⟩

theorem InTransaction.holds_takes (h : InTransaction w t) (taken : List String) :
    (taken.foldl Connection.take w).session.holdsCompanyLock companyId = true ↔
      companyId ∈ taken ∨ w.session.holdsCompanyLock companyId = true := by
  induction taken generalizing w with
  | nil => simp
  | cons first taken ih =>
    rw [List.foldl_cons, ih (h.take first), h.holds_take, List.mem_cons]
    tauto

theorem holds_autobegin (s : Session) : s.autobegin.holdsCompanyLock companyId = s.holdsCompanyLock companyId := by
  obtain ⟨transaction, proofs, nextId⟩ := s
  cases transaction <;> rfl

/-- A company asked for: one among the ids that is not held yet. -/
theorem mem_asked {companyIds : List String} :
    companyId ∈ (companyIds.dedup.insertionSort (· ≤ ·)).filter (fun c => !w.session.holdsCompanyLock c) ↔
      companyId ∈ companyIds ∧ ¬ w.session.holdsCompanyLock companyId = true := by
  simp [List.mem_insertionSort]

/-- **`lock_company` holds what it was asked for of the rows there are**, with what was held
    before, and nothing else. -/
theorem Agrees.holds_lockCompany (h : Agrees w) (companyIds found : List String) :
    (w.lockCompany companyIds found).1.session.holdsCompanyLock companyId = true ↔
      w.session.holdsCompanyLock companyId = true ∨ companyId ∈ companyIds ∧ companyId ∈ found := by
  unfold Connection.lockCompany
  dsimp only
  split_ifs with hasked
  · rw [hasked, List.filter_nil, List.foldl_nil]
    refine ⟨.inl, ?_⟩
    rintro (hheld | ⟨hid, -⟩)
    · exact hheld
    · -- where no row is asked for, every company is held
      by_contra hheld
      exact List.not_mem_nil (hasked ▸ mem_asked.2 ⟨hid, hheld⟩)
  · obtain ⟨t, ht⟩ := h.begun
    rw [ht.holds_takes, holds_autobegin, List.mem_filter, mem_asked, decide_eq_true_eq]
    tauto

/-- It answers that every row was there exactly when the session holds every company then. -/
theorem Agrees.lockCompany_all (h : Agrees w) (companyIds found : List String) :
    (w.lockCompany companyIds found).2 = true ↔
      ∀ id ∈ companyIds, (w.lockCompany companyIds found).1.session.holdsCompanyLock id = true := by
  have hcount : (w.lockCompany companyIds found).2 = true ↔
      ∀ id ∈ companyIds, ¬ w.session.holdsCompanyLock id = true → id ∈ found := by
    have hsplit := List.length_eq_length_filter_add (l := companyIds.dedup.insertionSort (· ≤ ·))
      w.session.holdsCompanyLock
    unfold Connection.lockCompany
    dsimp only
    rw [decide_eq_true_eq, hsplit, Nat.add_left_cancel_iff, List.length_filter_eq_length_iff]
    constructor
    · intro hall id hid hheld
      exact of_decide_eq_true (hall id (mem_asked.2 ⟨hid, hheld⟩))
    · intro hall id hid
      exact decide_eq_true (hall id (mem_asked.1 hid).1 (mem_asked.1 hid).2)
  rw [hcount]
  refine forall₂_congr fun id hid => ?_
  rw [h.holds_lockCompany]
  tauto

/-! ### Events -/

/-- Taking locks keeps session and database in agreement. -/
theorem Agrees.lockCompany (h : Agrees w) (companyIds found : List String) : Agrees (w.lockCompany companyIds found).1 := by
  unfold Connection.lockCompany
  dsimp only
  split_ifs with hasked
  · -- no row is asked for
    rw [hasked]
    exact h
  · obtain ⟨t, ht⟩ := h.begun
    exact .inr ⟨t, ht.takes _⟩

theorem beginNested_autobegin (s : Session) : s.autobegin.beginNested = s.beginNested := by
  obtain ⟨transaction, proofs, nextId⟩ := s
  cases transaction <;> rfl

theorem savepoint_begin (d : Database) : d.begin.savepoint = d.savepoint := by
  have hbegin : d.begin.begin = d.begin := by
    unfold Database.begin
    split_ifs with hnil hnil'
    · exact absurd hnil' (by simp)
    · rfl
    · rfl
  rw [Database.savepoint, hbegin]
  rfl

theorem rootTransaction_eq (t : SessionTransaction) : ∃ id, rootTransaction t = root id := by
  induction t with
  | root id => exact ⟨id, rfl⟩
  | child id nested parent ih => exact ih

/-- The end of a transaction leaves none, and no proofs. -/
theorem Agrees.finish (h : Agrees w) (rolledBack : Bool) :
    (w.session.finish rolledBack).transaction = none ∧ (w.session.finish rolledBack).proofs = [] := by
  rcases h with h | ⟨t, h⟩
  · rw [Session.finish, h.transaction]
    exact ⟨h.transaction, h.proofs⟩
  · obtain ⟨id, hroot⟩ := rootTransaction_eq t
    rw [Session.finish, h.transaction]
    dsimp only
    rw [hroot]
    cases rolledBack <;> exact ⟨rfl, rfl⟩

/-- **Every event keeps session and database in agreement.** -/
theorem Agrees.step (h : Agrees w) (e : LockEvent) : Agrees (w.step e) := by
  cases e with
  | savepoint =>
    obtain ⟨t, ht⟩ := h.begun
    have hstep := ht.savepoint
    rw [beginNested_autobegin, savepoint_begin] at hstep
    exact .inr ⟨_, hstep⟩
  | release =>
    show Agrees (if 0 < w.session.depth then _ else w)
    split_ifs with hdepth
    · rcases h with h | ⟨t, h⟩
      · rw [Session.depth, h.transaction] at hdepth
        exact absurd hdepth (Nat.lt_irrefl 0)
      · cases t with
        | root id =>
          rw [Session.depth, h.transaction] at hdepth
          exact absurd hdepth (Nat.lt_irrefl 0)
        | child id nested p => exact .inr ⟨p, h.release⟩
    · exact h
  | rollBack k =>
    show Agrees (if k < w.session.depth then _ else w)
    split_ifs with hdepth
    · rcases h with h | ⟨t, h⟩
      · rw [Session.depth, h.transaction] at hdepth
        exact absurd hdepth (Nat.not_lt_zero k)
      · rw [Session.depth, h.transaction] at hdepth
        obtain ⟨p, hp, -⟩ := h.rollBackTo hdepth
        exact .inr ⟨p, hp⟩
    · exact h
  | finish rolledBack =>
    obtain ⟨htransaction, hproofs⟩ := h.finish rolledBack
    exact .inl ⟨htransaction, hproofs, rfl⟩
  | lockCompany companyIds found => exact h.lockCompany companyIds found

end

/-- After any run session and database agree. -/
theorem agrees_run (events : List LockEvent) : Agrees (events.foldl Connection.step {}) := by
  have hstart : Agrees {} := .inl ⟨rfl, rfl, rfl⟩
  exact Runs.foldl_of_step (fun w e hw _ => hw.step e) hstart
    (Runs.everyStep_of_forall (P := fun _ _ => True) fun _ _ => trivial)

/-- **A lock proof stands while the lock does**: after any run, the session says it holds a
    company's lock exactly when the database does. -/
theorem holdsCompanyLock_iff (events : List LockEvent) (companyId : String) :
    (events.foldl Connection.step {}).session.holdsCompanyLock companyId = true ↔
      (events.foldl Connection.step {}).database.Holds companyId :=
  (agrees_run events).holds_iff

/-- **A lock asked for is held**: after any run, what the database holds locked then is what it
    held, and of the companies asked for those whose rows are there. -/
theorem holds_after_lockCompany (events : List LockEvent) (companyIds found : List String) (companyId : String) :
    (events.foldl Connection.step {} |>.lockCompany companyIds found).1.database.Holds companyId ↔
      (events.foldl Connection.step {}).database.Holds companyId ∨ companyId ∈ companyIds ∧ companyId ∈ found := by
  have hrun := agrees_run events
  rw [← (hrun.lockCompany companyIds found).holds_iff, ← hrun.holds_iff]
  exact hrun.holds_lockCompany companyIds found

end Celerp
