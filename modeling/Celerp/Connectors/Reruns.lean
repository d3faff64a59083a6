/-
  No request for a rerun is lost.

  `Completed history w`: the history has work that began, after the requests it is for, and
  completed.  A request is answered (`Answered`) by such work, or by a refusal that drops it
  afterwards.

  `Boundary.Accounted` is the invariant: a heartbeat row acknowledges only answered requests, and
  what an execution is to run, runs or ran is work for requests recorded before.  Each step keeps it
  (`accounted_step`).

  `reruns_answered`: over every run, a request is answered or still pending, and a pending one is due
  within `RERUN_BACKOFF_MAX`, unless a refusal that only the person can clear has parked it.
-/
import Celerp.Connectors.Execution
import Celerp.Lib.Runs
import Mathlib.Data.List.Infix

namespace Celerp

/-- The requests a piece of work is for. -/
def Work.Covers (w : Work) (g : ℕ) : Prop := 0 < g ∧ g ≤ w.generation ∧ (w.alone → g = w.generation)

/-- Work began after the requests it is for. -/
def Begun (history : List RerunEvent) (h : ℕ) (w : Work) : Prop :=
  ∃ before, .began h w :: before <:+ history ∧ ∀ g, w.Covers g → .requested w.resource g ∈ before

/-- Work that so began completed. -/
def Completed (history : List RerunEvent) (w : Work) : Prop :=
  ∃ h earlier, .completed h w :: earlier <:+ history ∧ Begun earlier h w

/-- A request was answered: by work for it that began after it and completed, or by a refusal that
    dropped it. -/
def Answered (history : List RerunEvent) (r : String) (g : ℕ) : Prop :=
  (∃ w : Work, w.resource = r ∧ w.Covers g ∧ Completed history w) ∨
    ∃ g' before, g ≤ g' ∧ .dropped r g' :: before <:+ history ∧ .requested r g ∈ before

section
variable {history history' : List RerunEvent} {h : ℕ} {w : Work} {r : String} {g : ℕ}

theorem Begun.mono (hb : Begun history h w) (hsub : history <:+ history') : Begun history' h w := by
  obtain ⟨before, hbefore, hrequested⟩ := hb
  exact ⟨before, hbefore.trans hsub, hrequested⟩

theorem Completed.mono (hc : Completed history w) (hsub : history <:+ history') : Completed history' w := by
  obtain ⟨h, earlier, hearlier, hbegun⟩ := hc
  exact ⟨h, earlier, hearlier.trans hsub, hbegun⟩

theorem Answered.mono (ha : Answered history r g) (hsub : history <:+ history') : Answered history' r g := by
  rcases ha with ⟨w, hw, hcovers, hcompleted⟩ | ⟨g', before, hg, hbefore, hrequested⟩
  · exact .inl ⟨w, hw, hcovers, hcompleted.mono hsub⟩
  · exact .inr ⟨g', before, hg, hbefore.trans hsub, hrequested⟩

end

/-! ## The invariant -/

/-- What an execution is to run, runs, or ran, as far as the requests recorded and the history go. -/
structure Execution.Accounted (requested : String → ℕ) (history : List RerunEvent) (h : ℕ) (ex : Execution) : Prop where
  work : ∀ w ∈ ex.work, w.generation ≤ requested w.resource
  running : ∀ w, ex.running = some w → w.generation ≤ requested w.resource ∧ Begun history h w
  ran : ∀ w, ex.ran = some (w, true) → w.generation ≤ requested w.resource ∧ Completed history w

/-- Deferred work waits no longer than the longest backoff, or is parked. -/
structure Heartbeat.Paced (now : ℕ) (parked : Prop) (b : Heartbeat) : Prop where
  time : ∀ t, b.rerunRetryAt = .time t → t ≤ now + RERUN_BACKOFF_MAX
  infinity : b.rerunRetryAt = .infinity → parked

/-- The requests recorded of each resource. -/
def Boundary.requested (c : Boundary) (r : String) : ℕ := (c.heartbeats r).rerunRequested

structure Boundary.Accounted (c : Boundary) : Prop where
  recorded : ∀ r g, 0 < g → g ≤ c.requested r → .requested r g ∈ c.history
  settled : ∀ r, (c.heartbeats r).rerunDone ≤ c.requested r
  answered : ∀ r g, 0 < g → g ≤ (c.heartbeats r).rerunDone → Answered c.history r g
  executions : ∀ h ex, Dicts.get? c.executions h = some ex → ex.Accounted c.requested c.history h
  paced : ∀ r, (c.heartbeats r).Paced c.now (.parked r ∈ c.history)

section
variable {connector : Connector} {c c' : Boundary} {ex ex' : Execution} {h g : ℕ} {r resource : String}
  {b : Heartbeat} {parked parked' : Prop} {now now' : ℕ}

theorem accounted_fresh {config : Option ConnectorConfig} {firstSync : Option FirstSync} :
    (Boundary.fresh config firstSync).Accounted where
  recorded := fun r g hpos hle => by
    simp only [Boundary.requested, Boundary.fresh] at hle
    omega
  settled := fun _ => Nat.le_refl _
  answered := fun r g hpos hle => by
    simp only [Boundary.fresh] at hle
    omega
  executions := fun h ex hex => by simp [Boundary.fresh] at hex
  paced := fun r => ⟨fun t ht => (by cases ht), fun ht => (by cases ht)⟩

/-! ### Pacing -/

theorem Heartbeat.Paced.later (hb : b.Paced now parked) (hnow : now ≤ now') (hparked : parked → parked') :
    b.Paced now' parked' where
  time t ht := (hb.time t ht).trans (Nat.add_le_add_right hnow _)
  infinity ht := hparked (hb.infinity ht)

theorem paced_pace {p : Pacing} (hparked : p = .park → parked) : (b.pace now p).Paced now parked := by
  have hbusy : BUSY_WAIT ≤ RERUN_BACKOFF_MAX := by decide
  cases p with
  | retry =>
    refine ⟨fun t ht => ?_, fun ht => by cases ht⟩
    cases ht
    exact Nat.add_le_add_left (Nat.min_le_right _ _) _
  | park => exact ⟨fun t ht => (by cases ht), fun _ => hparked rfl⟩
  | busy =>
    refine ⟨fun t ht => ?_, fun ht => by cases ht⟩
    cases ht
    exact Nat.add_le_add_left hbusy _
  | clear => exact ⟨fun t ht => (by cases ht), fun ht => (by cases ht)⟩
  | resume =>
    refine ⟨fun t ht => ?_, fun ht => by cases ht⟩
    cases ht
    exact Nat.le_add_right _ _

/-- Pacing changes nothing else. -/
theorem rerun_pace {p : Pacing} :
    (b.pace now p).rerunRequested = b.rerunRequested ∧ (b.pace now p).rerunDone = b.rerunDone := by
  cases p <;> exact ⟨rfl, rfl⟩

theorem paced_ack {alone : Bool} (hb : b.Paced now parked) : (b.ack now h g alone).Paced now parked := by
  unfold Heartbeat.ack
  split_ifs
  · exact paced_pace fun hp => by cases hp
  · exact hb

theorem requested_ack {alone : Bool} : (b.ack now h g alone).rerunRequested = b.rerunRequested := by
  unfold Heartbeat.ack
  split_ifs
  · exact rerun_pace.1
  · rfl

/-- What acknowledging up to a generation adds: no more than that, and, alone, that one only. -/
theorem done_ack {alone : Bool} {g' : ℕ} (hg : g' ≤ (b.ack now h g alone).rerunDone) :
    g' ≤ b.rerunDone ∨ (g' ≤ g ∧ (alone → g' = g)) := by
  unfold Heartbeat.ack at hg
  split_ifs at hg with hack
  · rw [rerun_pace.2] at hg
    rcases Nat.lt_or_ge b.rerunDone g' with hnew | hold
    · have hmax : g' ≤ max b.rerunDone g := hg
      have hle : g' ≤ g := by omega
      refine .inr ⟨hle, fun halone => ?_⟩
      have hnext := hack.2 halone
      omega
    · exact .inl hold
  · exact .inl hg

theorem done_ack_le {alone : Bool} (hdone : b.rerunDone ≤ b.rerunRequested) (hg : g ≤ b.rerunRequested) :
    (b.ack now h g alone).rerunDone ≤ b.rerunRequested := by
  unfold Heartbeat.ack
  split_ifs
  · rw [rerun_pace.2]
    exact Nat.max_le.2 ⟨hdone, hg⟩
  · exact hdone

/-! ### Changes -/

theorem Execution.Accounted.mono {requested requested' : String → ℕ} {history history' : List RerunEvent}
    (hex : ex.Accounted requested history h) (hrequested : ∀ r, requested r ≤ requested' r)
    (hhistory : history <:+ history') : ex.Accounted requested' history' h where
  work w hw := (hex.work w hw).trans (hrequested _)
  running w hw := by
    obtain ⟨hle, hbegun⟩ := hex.running w hw
    exact ⟨hle.trans (hrequested _), hbegun.mono hhistory⟩
  ran w hw := by
    obtain ⟨hle, hcompleted⟩ := hex.ran w hw
    exact ⟨hle.trans (hrequested _), hcompleted.mono hhistory⟩

/-- **Heartbeat rows change** in what they acknowledge and when they are tried again. -/
theorem Boundary.Accounted.heartbeats (hc : c.Accounted) {f : String → Heartbeat} (events : List RerunEvent)
    (hrequested : ∀ r, (f r).rerunRequested = c.requested r) (hdone : ∀ r, (f r).rerunDone ≤ c.requested r)
    (hanswered : ∀ r g, 0 < g → g ≤ (f r).rerunDone →
      g ≤ (c.heartbeats r).rerunDone ∨ Answered (events ++ c.history) r g)
    (hpaced : ∀ r, (f r).Paced c.now (.parked r ∈ events ++ c.history)) :
    { c with heartbeats := f, history := events ++ c.history }.Accounted := by
  have hhistory : c.history <:+ events ++ c.history := List.suffix_append _ _
  refine ⟨fun r g hpos hle => ?_, fun r => ?_, fun r g hpos hle => ?_, fun h ex hex => ?_, hpaced⟩
  · have hle' : g ≤ c.requested r := Nat.le_trans hle (Nat.le_of_eq (hrequested r))
    exact hhistory.subset (hc.recorded r g hpos hle')
  · exact (hdone r).trans (Nat.le_of_eq (hrequested r).symm)
  · rcases hanswered r g hpos hle with hold | hnew
    · exact (hc.answered r g hpos hold).mono hhistory
    · exact hnew
  · exact (hc.executions h ex hex).mono (fun r => Nat.le_of_eq (hrequested r).symm) hhistory

theorem Boundary.Accounted.remember (hc : c.Accounted) (events : List RerunEvent) :
    { c with history := events ++ c.history }.Accounted :=
  hc.heartbeats events (fun _ => rfl) hc.settled (fun _ _ _ hle => .inl hle) fun r =>
    (hc.paced r).later (Nat.le_refl _) fun hp => List.mem_append_right _ hp

theorem Boundary.Accounted.setExecution (hc : c.Accounted) (hex' : ex'.Accounted c.requested c.history h) :
    (c.setExecution h ex').Accounted := by
  refine { hc with executions := fun h' ex hex => ?_ }
  rw [Boundary.setExecution, Dicts.get?_set] at hex
  split_ifs at hex with hh
  · subst hh
    exact Option.some.inj hex ▸ hex'
  · exact hc.executions h' ex hex

theorem Boundary.Accounted.setHeartbeat (hc : c.Accounted) (events : List RerunEvent)
    (hrequested : b.rerunRequested = c.requested resource) (hdone : b.rerunDone ≤ c.requested resource)
    (hanswered : ∀ g, 0 < g → g ≤ b.rerunDone →
      g ≤ (c.heartbeats resource).rerunDone ∨ Answered (events ++ c.history) resource g)
    (hpaced : b.Paced c.now (.parked resource ∈ events ++ c.history)) :
    { c.setHeartbeat resource b with history := events ++ c.history }.Accounted := by
  have hself : (c.setHeartbeat resource b).heartbeats resource = b := Function.update_self _ _ _
  have hother : ∀ r, r ≠ resource → (c.setHeartbeat resource b).heartbeats r = c.heartbeats r :=
    fun r hr => Function.update_of_ne hr _ _
  refine hc.heartbeats events (fun r => ?_) (fun r => ?_) (fun r g hpos hle => ?_) fun r => ?_
  all_goals by_cases hr : r = resource
  · rw [hr, hself]
    exact hrequested
  · rw [hother r hr]
    rfl
  · rw [hr, hself]
    exact hdone
  · rw [hother r hr]
    exact hc.settled r
  · rw [hr, hself] at hle
    rw [hr]
    exact hanswered g hpos hle
  · rw [hother r hr] at hle
    exact .inl hle
  · rw [hr, hself]
    exact hpaced
  · rw [hother r hr]
    exact (hc.paced r).later (Nat.le_refl _) fun hp => List.mem_append_right _ hp

/-- **A row is paced**, and a park remembered. -/
theorem Boundary.Accounted.pace (hc : c.Accounted) (p : Pacing) (events : List RerunEvent)
    (hpark : p = .park → .parked resource ∈ events) :
    { c.setHeartbeat resource ((c.heartbeats resource).pace c.now p) with
      history := events ++ c.history }.Accounted := by
  refine hc.setHeartbeat events rerun_pace.1 ?_ (fun g _ hg => .inl ?_) ?_
  · rw [rerun_pace.2]
    exact hc.settled _
  · rwa [rerun_pace.2] at hg
  · exact paced_pace fun hp => List.mem_append_left _ (hpark hp)

/-- A heartbeat row keeps its rerun. -/
def Heartbeat.RerunAs (b b' : Heartbeat) : Prop :=
  b'.rerunRequested = b.rerunRequested ∧ b'.rerunDone = b.rerunDone ∧ b'.rerunRetryAt = b.rerunRetryAt

theorem Boundary.Accounted.heldAnew (hc : c.Accounted) {f : String → Heartbeat}
    (hf : ∀ r, (c.heartbeats r).RerunAs (f r)) : { c with heartbeats := f }.Accounted := by
  refine hc.heartbeats [] (fun r => (hf r).1) (fun r => ?_) (fun r g _ hle => ?_) fun r => ?_
  · rw [(hf r).2.1]
    exact hc.settled r
  · rw [(hf r).2.1] at hle
    exact .inl hle
  · refine ⟨fun t ht => (hc.paced r).time t ?_, fun ht => (hc.paced r).infinity ?_⟩
    · exact (hf r).2.2.symm.trans ht
    · exact (hf r).2.2.symm.trans ht

/-- An execution goes on with the same reruns. -/
theorem Boundary.Accounted.sameWork (hc : c.Accounted) (hex : Dicts.get? c.executions h = some ex)
    (hwork : ex'.work = ex.work) (hrunning : ex'.running = ex.running) (hran : ex'.ran = ex.ran) :
    (c.setExecution h ex').Accounted := by
  have hex₁ := hc.executions h ex hex
  refine hc.setExecution ⟨?_, ?_, ?_⟩
  · rw [hwork]
    exact hex₁.work
  · rw [hrunning]
    exact hex₁.running
  · rw [hran]
    exact hex₁.ran

/-- Work that only waits to be run. -/
theorem accounted_waiting {requested : String → ℕ} {history : List RerunEvent} (hrunning : ex.running = none)
    (hran : ex.ran = none) (hwork : ∀ w ∈ ex.work, w.generation ≤ requested w.resource) :
    ex.Accounted requested history h where
  work := hwork
  running w hw := by
    rw [hrunning] at hw
    cases hw
  ran w hw := by
    rw [hran] at hw
    cases hw

/-! ### What executions do -/

theorem Boundary.Accounted.acquire (hc : c.Accounted) {purpose : Purpose} {resources : List String} {lag : ℕ} :
    (c.acquire connector purpose resources lag).Accounted := by
  unfold Boundary.acquire
  split_ifs
  · have hheld : { c with heartbeats := (c.granted purpose resources lag).heartbeats }.Accounted := by
      refine hc.heldAnew fun r => ?_
      simp only [Boundary.granted]
      split_ifs
      · exact ⟨rfl, rfl, rfl⟩
      · exact ⟨rfl, rfl, rfl⟩
    have hstarted : (Execution.started purpose resources (fun r => (c.leases r).generation + 1) (c.now + TTL)
        lag).Accounted { c with heartbeats := (c.granted purpose resources lag).heartbeats }.requested c.history
          c.holders :=
      accounted_waiting rfl rfl fun w hw => absurd hw List.not_mem_nil
    have hset := hheld.setExecution hstarted
    exact { hset with }
  · exact hc

theorem Boundary.Accounted.renew (hc : c.Accounted) (hex : Dicts.get? c.executions h = some ex) {lag : ℕ} :
    (c.renew h lag ex).Accounted := by
  have hextended : ∀ rs, (c.extended rs).Accounted := by
    intro rs
    refine hc.heldAnew fun r => ?_
    split_ifs
    · exact ⟨rfl, rfl, rfl⟩
    · exact ⟨rfl, rfl, rfl⟩
  unfold Boundary.renew
  split_ifs
  · exact hc
  · simp only
    split_ifs
    · exact (hextended _).sameWork hex rfl rfl rfl
    · exact (hextended _).sameWork hex rfl rfl rfl

/-- The reruns a holder is to run are recorded. -/
theorem pendingReruns_le {resources : List String} {f : String × ℕ} (hf : f ∈ c.pendingReruns h resources) :
    f.2 ≤ c.requested f.1 := by
  simp only [Boundary.pendingReruns] at hf
  cases hconfig : c.config with
  | none => simp [hconfig] at hf
  | some config =>
    simp only [hconfig] at hf
    have hgeneration : ∀ f ∈ (resources.filter fun r => (c.heartbeats r).rerunRetryAt.due c.now).filterMap (fun r =>
        if (c.heartbeats r).rerunDone < (c.heartbeats r).rerunRequested ∧ (c.heartbeats r).holder = some h then
          some (r, (c.heartbeats r).rerunRequested) else none), f.2 ≤ c.requested f.1 := by
      intro f hf
      obtain ⟨r, -, hr⟩ := List.mem_filterMap.1 hf
      split_ifs at hr
      cases hr
      exact Nat.le_refl _
    split_ifs at hf
    · rcases List.mem_append.1 hf with hf | hf
      · exact hgeneration f hf
      · obtain rfl := List.mem_singleton.1 hf
        exact Nat.zero_le _
    · exact hgeneration f hf

theorem Boundary.Accounted.dropReruns (hc : c.Accounted) {dropped : List (String × ℕ)}
    (hdropped : ∀ f ∈ dropped, f.2 ≤ c.requested f.1) : (c.dropReruns h dropped).Accounted := by
  refine hc.heartbeats _ (fun r => ?_) (fun r => ?_) (fun r g hpos hle => ?_) fun r => ?_
  · cases Dicts.get? dropped r with
    | none => rfl
    | some g => exact requested_ack
  · cases hget : Dicts.get? dropped r with
    | none => exact hc.settled r
    | some g => exact done_ack_le (hc.settled r) (hdropped _ (Dicts.mem_of_get? hget))
  · cases hget : Dicts.get? dropped r with
    | none =>
      rw [hget] at hle
      exact .inl hle
    | some g' =>
      rw [hget] at hle
      refine (done_ack hle).imp_right fun hnew => .inr ?_
      have hmem := Dicts.mem_of_get? hget
      have hle' : g ≤ c.requested r := hnew.1.trans (hdropped _ hmem)
      obtain ⟨before, after, hsplit⟩ := List.append_of_mem (List.mem_map_of_mem (f := fun f : String × ℕ =>
        RerunEvent.dropped f.1 f.2) hmem)
      refine ⟨g', after ++ c.history, hnew.1, ?_, List.mem_append_right _ (hc.recorded r g hpos hle')⟩
      rw [hsplit, List.append_assoc]
      exact List.suffix_append _ _
  · have hpaced := (hc.paced r).later (Nat.le_refl c.now) fun hp =>
      List.mem_append_right (dropped.map fun f => RerunEvent.dropped f.1 f.2) hp
    cases Dicts.get? dropped r with
    | none => exact hpaced
    | some g => exact paced_ack hpaced

theorem requested_dropReruns (dropped : List (String × ℕ)) : (c.dropReruns h dropped).requested r = c.requested r := by
  simp only [Boundary.requested, Boundary.dropReruns]
  cases Dicts.get? dropped r with
  | none => rfl
  | some g => exact requested_ack

theorem rerunAs_given {resources : List String} :
    (c.heartbeats r).RerunAs ((c.given h resources ex).heartbeats r) := by
  simp only [Boundary.given]
  split_ifs
  · exact ⟨rfl, rfl, rfl⟩
  · exact ⟨rfl, rfl, rfl⟩

theorem requested_given {resources : List String} : (c.given h resources ex).requested r = c.requested r :=
  rerunAs_given.1

theorem Boundary.Accounted.given (hc : c.Accounted) {resources : List String} :
    (c.given h resources ex).Accounted := by
  have hgiven : { c with heartbeats := (c.given h resources ex).heartbeats }.Accounted :=
    hc.heldAnew fun _ => rerunAs_given
  exact { hgiven with }

theorem Boundary.Accounted.release (hc : c.Accounted) {resources : List String} {reruns : Bool} :
    (c.release connector h resources reruns ex).Accounted := by
  unfold Boundary.release
  by_cases hguard : ex.transaction.isSome ∨ c.calling h ∨ ¬resources ⊆ ex.resources
  · rw [if_pos hguard]
    exact hc
  · rw [if_neg hguard]
    simp only
    set pending := if reruns && !ex.lost then c.pendingReruns h resources else [] with hpending
    have hle : ∀ f ∈ pending, f.2 ≤ c.requested f.1 := by
      intro f hf
      rw [hpending] at hf
      split_ifs at hf
      · exact pendingReruns_le hf
      · exact absurd hf List.not_mem_nil
    refine Boundary.Accounted.setExecution ?_ ?_
    · exact (hc.dropReruns fun f hf => hle f (List.mem_filter.1 hf).1).given
    · refine accounted_waiting rfl rfl fun w hw => ?_
      obtain ⟨f, hf, rfl⟩ := List.mem_map.1 hw
      have hrequested : c.requested f.1 ≤ (c.dropReruns h (pending.filter fun f =>
          (eligible connector c.config c.firstSync .rerun f.1).any (REFUSALS · = .drop))).requested f.1 :=
        Nat.le_of_eq (requested_dropReruns _).symm
      exact (hle f (List.mem_filter.1 hf).1).trans (hrequested.trans (Nat.le_of_eq requested_given.symm))

theorem Boundary.Accounted.deliver (hc : c.Accounted) {generation : ℕ} :
    (c.deliver h resource generation ex).Accounted := by
  unfold Boundary.deliver
  split_ifs with hguard
  · obtain ⟨-, -, -, hrunning, hran, hle⟩ := hguard
    refine hc.setExecution (accounted_waiting hrunning hran fun w hw => ?_)
    obtain rfl := List.mem_singleton.1 hw
    exact hle
  · exact hc

theorem Boundary.Accounted.beginWork (hc : c.Accounted) (hex : Dicts.get? c.executions h = some ex) :
    (c.beginWork h ex).Accounted := by
  have hex' := hc.executions h ex hex
  unfold Boundary.beginWork
  split
  · rename_i w work hwork _ hran
    have hmem : w ∈ ex.work := hwork ▸ List.mem_cons_self
    refine (hc.remember [.began h w]).setExecution (h := h) ⟨fun w' hw' => ?_, fun w' hw' => ?_, fun w' hw' => ?_⟩
    · exact hex'.work w' (hwork ▸ List.mem_cons_of_mem _ hw')
    · cases hw'
      refine ⟨hex'.work w hmem, c.history, List.suffix_refl _, fun g hg => ?_⟩
      exact hc.recorded _ g hg.1 (hg.2.1.trans (hex'.work w hmem))
    · rw [hran] at hw'
      cases hw'
  · exact hc

theorem Boundary.Accounted.endWork (hc : c.Accounted) (hex : Dicts.get? c.executions h = some ex)
    {completed : Bool} : (c.endWork h completed ex).Accounted := by
  have hex' := hc.executions h ex hex
  unfold Boundary.endWork
  split
  · rename_i w hrunning
    obtain ⟨hle, hbegun⟩ := hex'.running w hrunning
    cases completed with
    | false =>
      have hset : (c.setExecution h { ex with running := none, ran := some (w, false) }).Accounted := by
        refine hc.setExecution ⟨hex'.work, fun w' hw' => (by cases hw'), fun w' hw' => ?_⟩
        cases hw'
      exact { hset with }
    | true =>
      have hremembered := hc.remember [.completed h w]
      refine hremembered.setExecution (h := h) ⟨hex'.work, fun w' hw' => (by cases hw'), fun w' hw' => ?_⟩
      cases hw'
      exact ⟨hle, h, c.history, List.suffix_refl _, hbegun⟩
  · exact hc

/-- **Work is acknowledged** only once it completed. -/
theorem Boundary.Accounted.settleRerun (hc : c.Accounted) (hex : Dicts.get? c.executions h = some ex) :
    (c.settleRerun h ex).Accounted := by
  have hex' := hc.executions h ex hex
  unfold Boundary.settleRerun
  split
  · rename_i w hran
    obtain ⟨hle, hcompleted⟩ := hex'.ran w hran
    have hset : (c.setExecution h { ex with ran := none }).Accounted :=
      hc.setExecution ⟨hex'.work, hex'.running, fun w' hw' => by cases hw'⟩
    refine hset.setHeartbeat [] requested_ack (done_ack_le (hc.settled _) hle) (fun g hpos hg => ?_)
      (paced_ack (hc.paced _))
    refine (done_ack hg).imp_right fun hnew => ?_
    exact .inl ⟨w, rfl, ⟨hpos, hnew.1, hnew.2⟩, hcompleted⟩
  · rename_i w _
    have hset : (c.setExecution h { ex with ran := none, work := [] }).Accounted :=
      hc.setExecution ⟨fun w' hw' => absurd hw' List.not_mem_nil, hex'.running, fun w' hw' => by cases hw'⟩
    simp only
    split_ifs
    · exact hset.pace .retry [] fun hp => by cases hp
    · exact hset.setHeartbeat [] rfl (hc.settled _) (fun g _ hg => .inl hg) (hc.paced _)
  · exact hc

theorem Boundary.Accounted.settleUnrun (hc : c.Accounted) {stopped : Stopped} :
    (c.settleUnrun resource stopped).Accounted := by
  unfold Boundary.settleUnrun
  simp only
  split
  · exact hc
  · split_ifs
    · exact hc
    · split
      · refine hc.setHeartbeat [.dropped resource _] rfl (Nat.le_refl _) (fun g hpos hg => .inr (.inr ?_)) ?_
        · exact ⟨_, c.history, hg, List.suffix_refl _, hc.recorded _ g hpos hg⟩
        · exact paced_pace fun hp => by cases hp
      · exact hc.pace .park [.parked resource] fun _ => List.mem_singleton_self _
      · exact hc.pace .retry [] fun hp => by cases hp

/-- Recording adds a request, and has it tried at once unless the row is parked. -/
theorem rerun_record :
    (b.record now).rerunRequested = b.rerunRequested + 1 ∧ (b.record now).rerunDone = b.rerunDone := by
  simp only [Heartbeat.record]
  split_ifs
  · exact ⟨rfl, rfl⟩
  · exact rerun_pace

theorem paced_record (hb : b.Paced now parked) : (b.record now).Paced now parked := by
  simp only [Heartbeat.record]
  split_ifs with hinfinity
  · exact ⟨hb.time, hb.infinity⟩
  · exact paced_pace fun hp => by cases hp

theorem Boundary.Accounted.recordRerun (hc : c.Accounted) : (c.recordRerun resource).Accounted := by
  have hself : (c.recordRerun resource).heartbeats resource = (c.heartbeats resource).record c.now :=
    Function.update_self _ _ _
  have hother : ∀ r, r ≠ resource → (c.recordRerun resource).heartbeats r = c.heartbeats r :=
    fun r hr => Function.update_of_ne hr _ _
  have hdone : ∀ r, ((c.recordRerun resource).heartbeats r).rerunDone = (c.heartbeats r).rerunDone := by
    intro r
    by_cases hr : r = resource
    · rw [hr, hself, rerun_record.2]
    · rw [hother r hr]
  have hrequested : ∀ r, (c.recordRerun resource).requested r =
      if r = resource then c.requested r + 1 else c.requested r := by
    intro r
    by_cases hr : r = resource
    · rw [if_pos hr, hr, Boundary.requested, hself, rerun_record.1, Boundary.requested]
    · rw [if_neg hr, Boundary.requested, hother r hr, Boundary.requested]
  have hmore : ∀ r, c.requested r ≤ (c.recordRerun resource).requested r := by
    intro r
    rw [hrequested r]
    split_ifs <;> omega
  have hhistory : c.history <:+ (c.recordRerun resource).history := List.suffix_cons _ _
  refine ⟨fun r g hpos hle => ?_, fun r => ?_, fun r g hpos hle => ?_, fun h ex hex => ?_, fun r => ?_⟩
  · rcases Nat.lt_or_ge (c.requested r) g with hnew | hold
    · rw [hrequested r] at hle
      by_cases hr : r = resource
      · rw [if_pos hr] at hle
        have hg : g = c.requested r + 1 := by omega
        rw [hg, hr]
        exact List.mem_cons_self
      · rw [if_neg hr] at hle
        omega
    · exact hhistory.subset (hc.recorded r g hpos hold)
  · rw [hdone r]
    exact (hc.settled r).trans (hmore r)
  · rw [hdone r] at hle
    exact (hc.answered r g hpos hle).mono hhistory
  · exact (hc.executions h ex hex).mono hmore hhistory
  · have hpaced := (hc.paced r).later (Nat.le_refl c.now) fun hp => hhistory.subset hp
    by_cases hr : r = resource
    · rw [hr, hself]
      exact paced_record (hr ▸ hpaced)
    · rw [hother r hr]
      exact hpaced

/-! ## Runs -/

theorem Boundary.Accounted.executionStep (hc : c.Accounted) (hex : Dicts.get? c.executions h = some ex)
    (s : ExecutionStep) : (c.executionStep connector h ex s).Accounted := by
  cases s with
  | renew lag => exact hc.renew hex
  | expire => exact hc.sameWork hex rfl rfl rfl
  | fence =>
    simp only [Boundary.executionStep, Boundary.fence]
    split_ifs
    · exact hc
    · exact hc.sameWork hex rfl rfl rfl
    · exact hc.sameWork hex rfl rfl rfl
  | commit =>
    simp only [Boundary.executionStep, Boundary.commit]
    split
    · have hset : (c.setExecution h { ex with transaction := none }).Accounted := hc.sameWork hex rfl rfl rfl
      exact { hset with }
    · exact hc
  | rollback => exact hc.sameWork hex rfl rfl rfl
  | call =>
    simp only [Boundary.executionStep, Boundary.call]
    split_ifs
    · exact hc
    · exact { hc with }
    · exact hc.sameWork hex rfl rfl rfl
  | release resources reruns => exact hc.release
  | deliver resource generation => exact hc.deliver
  | beginWork => exact hc.beginWork hex
  | endWork completed => exact hc.endWork hex
  | settleRerun => exact hc.settleRerun hex

theorem accounted_step (hc : c.Accounted) (s : ConnectorStep) : (c.step connector s).Accounted := by
  cases s with
  | acquire purpose resources lag => exact hc.acquire
  | execution h s =>
    simp only [Boundary.step]
    split
    · rename_i ex hex
      exact hc.executionStep hex s
    · exact hc
  | stop h =>
    refine { hc with executions := fun h' ex hex => ?_ }
    simp only [Boundary.step, Dicts.get?_pop] at hex
    split_ifs at hex
    exact hc.executions h' ex hex
  | callEnds i => exact { hc with }
  | recordRerun resource => exact hc.recordRerun
  | settleUnrun resource stopped => exact hc.settleUnrun
  | resumeReruns =>
    refine hc.heartbeats [] (fun r => ?_) (fun r => ?_) (fun r g _ hg => .inl ?_) fun r => ?_
    all_goals split_ifs at *
    · rfl
    · exact rerun_pace.1
    · exact hc.settled r
    · rw [rerun_pace.2]
      exact hc.settled r
    · exact hg
    · rwa [rerun_pace.2] at hg
    · exact hc.paced r
    · exact paced_pace fun hp => by cases hp
  | change config firstSync => exact { hc with }
  | tick d => exact { hc with paced := fun r => (hc.paced r).later (Nat.le_add_right _ _) id }

theorem accounted_run {config : Option ConnectorConfig} {firstSync : Option FirstSync} {steps : List ConnectorStep} :
    ((Boundary.fresh config firstSync).run connector steps).Accounted := by
  have hstep : ∀ c s, Boundary.Accounted c → True → (Boundary.step connector c s).Accounted :=
    fun _ s hc _ => accounted_step hc s
  exact Runs.foldl_of_step hstep accounted_fresh (Runs.everyStep_of_forall fun _ _ => trivial)

/-- **No request for a rerun is lost.**  Over every run, each request is answered, by work for it
    that began after it and completed or by a refusal that dropped it, or still pending; and a row
    is due within the longest backoff, unless it is parked, by a refusal that parked it. -/
theorem reruns_answered (connector : Connector) (config : Option ConnectorConfig) (firstSync : Option FirstSync)
    (steps : List ConnectorStep) :
    let c := (Boundary.fresh config firstSync).run connector steps
    (∀ r g, 0 < g → g ≤ (c.heartbeats r).rerunRequested → .requested r g ∈ c.history ∧
        (Answered c.history r g ∨ (c.heartbeats r).rerunDone < g)) ∧
      ∀ r, (c.heartbeats r).rerunRetryAt.due (c.now + RERUN_BACKOFF_MAX) ∨
        (c.heartbeats r).rerunRetryAt = .infinity ∧ .parked r ∈ c.history := by
  intro c
  have hc : c.Accounted := accounted_run
  refine ⟨fun r g hpos hle => ⟨hc.recorded r g hpos hle, ?_⟩, fun r => ?_⟩
  · rcases Nat.lt_or_ge (c.heartbeats r).rerunDone g with hpending | hdone
    · exact .inr hpending
    · exact .inl (hc.answered r g hpos hdone)
  · cases hretry : (c.heartbeats r).rerunRetryAt with
    | unset => exact .inl rfl
    | time t => exact .inl (decide_eq_true ((hc.paced r).time t hretry))
    | infinity => exact .inr ⟨rfl, (hc.paced r).infinity hretry⟩

end

/-- A request recorded while an execution holds the products is run by it before it releases them,
    and one recorded later is parked by a refusal. -/
def rerunTwice : List ConnectorStep :=
  [.acquire .schedule ["products"] 0, .recordRerun "products", .execution 0 (.release ["products"] true),
    .execution 0 .beginWork, .execution 0 (.endWork true), .execution 0 .settleRerun,
    .execution 0 (.release ["products"] true), .recordRerun "products",
    .settleUnrun "products" (.refused .productsNeedAttention)]

theorem reruns_answered_twice :
    let c := (Boundary.fresh (some ⟨[], false⟩) (some ⟨.completed, []⟩)).run ⟨false, fun _ => ["products"]⟩ rerunTwice
    c.heartbeats "products" = ⟨none, none, 2, 1, 1, .infinity⟩ ∧ Answered c.history "products" 1 ∧
      .parked "products" ∈ c.history := by
  intro c
  obtain ⟨hanswered, hdue⟩ :=
    reruns_answered ⟨false, fun _ => ["products"]⟩ (some ⟨[], false⟩) (some ⟨.completed, []⟩) rerunTwice
  have hdone : ¬(c.heartbeats "products").rerunDone < 1 := Nat.lt_irrefl 1
  have hwaits : ¬(c.heartbeats "products").rerunRetryAt.due (c.now + RERUN_BACKOFF_MAX) := nofun
  exact ⟨rfl, (hanswered "products" 1 Nat.one_pos (by decide)).2.resolve_right hdone,
    ((hdue "products").resolve_left hwaits).2⟩

end Celerp
