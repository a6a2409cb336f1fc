import Mathlib.Data.Finset.Max
import WorkflowEngine.Deliveries
import WorkflowEngine.Guarantees

/-!
# Retry chains

The attempts of a task are numbered without a gap, all but the last have failed, and each
but the first has its own retry. A retry is in the table until its message is in the stream,
and the publisher never touches an attempt that a worker has taken over.
-/
namespace WorkflowEngine

open Database

namespace Database

variable {db : Database}

/-- The attempts of one task. -/
def attemptsOf (db : Database) (taskId : Uuid) : List TaskAttemptRecord :=
  db.taskAttempts.filter fun r => decide (r.taskId = taskId)

/-- The retry rows of one attempt. -/
def retriesOf (db : Database) (attemptId : Uuid) : List TaskRetryDispatchRecord :=
  db.taskRetryDispatches.filter fun d => decide (d.attemptId = attemptId)

theorem mem_attemptsOf {taskId : Uuid} {r : TaskAttemptRecord} :
    r ∈ db.attemptsOf taskId ↔ r ∈ db.taskAttempts ∧ r.taskId = taskId := by
  simp [attemptsOf]

/-- The chain of one task with `k` attempts. -/
structure RetryChain (maxAttempts : Nat) (db : Database) (task : LogicalTaskRecord) (k : Nat) : Prop where
  bounds : 1 ≤ k ∧ k ≤ maxAttempts
  numbers : ((db.attemptsOf task.taskId).map (·.attemptNumber)).Perm (List.range' 1 k)
  closed : ∀ r ∈ db.attemptsOf task.taskId, r.attemptNumber < k → r.failureEventId.isSome
  retries : ∀ r ∈ db.attemptsOf task.taskId,
    (db.retriesOf r.attemptId).length = if r.attemptNumber = 1 then 0 else 1
  exhausted : db.status task.executionId task.nodeId = .failed → k = maxAttempts ∧
    ∀ r ∈ db.attemptsOf task.taskId, r.attemptNumber = k → r.failureEventId.isSome

end Database

/-! ## Numbers -/

namespace Numbered

variable {maxAttempts : Nat} {l : List TaskAttemptRecord}

/-- Every number below the one of an attempt is the number of an attempt. -/
theorem below (h : Numbered maxAttempts l) {r : TaskAttemptRecord} (hr : r ∈ l) :
    ∀ {d : Nat}, d < r.attemptNumber → ∃ r' ∈ l, r'.taskId = r.taskId ∧ r'.attemptNumber + d = r.attemptNumber := by
  intro d
  induction d with
  | zero => exact fun _ => ⟨r, hr, rfl, rfl⟩
  | succ d ih =>
    intro hlt
    obtain ⟨r', hr', htask, hnumber⟩ := ih (by omega)
    obtain ⟨p, hp, hptask, hpnumber⟩ := h.previous r' hr' (by omega)
    exact ⟨p, hp, hptask.trans htask, by omega⟩

/-- The numbers of a task's attempts are an interval from one on. -/
theorem interval (h : Numbered maxAttempts l) (hkeyed : Table.Keyed (·.attemptId) l) {taskId : Uuid}
    (hne : ∃ r ∈ l, r.taskId = taskId) : ∃ k, (1 ≤ k ∧ k ≤ maxAttempts) ∧
      ((l.filter fun r => decide (r.taskId = taskId)).map (·.attemptNumber)).Perm (List.range' 1 k) := by
  have hmem : ∀ {r}, r ∈ l.filter (fun r => decide (r.taskId = taskId)) ↔ r ∈ l ∧ r.taskId = taskId := by simp
  obtain ⟨r₀, hr₀⟩ : ∃ r, r ∈ l.filter fun r => decide (r.taskId = taskId) := by
    obtain ⟨r, hr, htask⟩ := hne
    exact ⟨r, hmem.2 ⟨hr, htask⟩⟩
  -- the attempt with the largest number
  obtain ⟨last, hlast, hmax⟩ : ∃ last ∈ l.filter (fun r => decide (r.taskId = taskId)),
      ∀ r ∈ l.filter (fun r => decide (r.taskId = taskId)), r.attemptNumber ≤ last.attemptNumber := by
    obtain ⟨last, hlast, hle⟩ := (l.filter fun r => decide (r.taskId = taskId)).toFinset.exists_max_image
      (·.attemptNumber) ⟨r₀, List.mem_toFinset.2 hr₀⟩
    exact ⟨last, List.mem_toFinset.1 hlast, fun r hr => hle r (List.mem_toFinset.2 hr)⟩
  obtain ⟨hl, htask⟩ := hmem.1 hlast
  refine ⟨last.attemptNumber, h.bounded last hl, (List.perm_ext_iff_of_nodup ?_ (List.nodup_range' ..)).2 fun n => ?_⟩
  · refine List.Nodup.map_on (fun r hr r' hr' hnumber => ?_) (List.Nodup.filter _ (List.Nodup.of_map _ hkeyed))
    have hid := h.unique r (hmem.1 hr).1 r' (hmem.1 hr').1 ((hmem.1 hr).2.trans (hmem.1 hr').2.symm) hnumber
    exact hkeyed.ext (hmem.1 hr).1 (hmem.1 hr').1 hid
  · rw [List.mem_map, List.mem_range'_1]
    constructor
    · rintro ⟨r, hr, rfl⟩
      have := hmax r hr
      have := h.bounded r (hmem.1 hr).1
      omega
    · rintro ⟨hge, hlt⟩
      obtain ⟨r, hr, hrtask, hnumber⟩ := @below _ _ h last hl (last.attemptNumber - n) (by omega)
      exact ⟨r, hmem.2 ⟨hr, hrtask.trans htask⟩, by omega⟩

end Numbered

namespace System

variable {cfg : Config} {s t : System} {a : Action} {e : Uuid} {i : String}

/-! ## Failures -/

/-- A failure event closes at most one attempt. -/
def DistinctFailures (s : System) : Prop :=
  ∀ r ∈ s.db.taskAttempts, ∀ r' ∈ s.db.taskAttempts, ∀ id, r.failureEventId = some id → r'.failureEventId = some id →
    r.attemptId = r'.attemptId

theorem AttemptChange.failure {r r' : TaskAttemptRecord} (h : AttemptChange cfg s a r r') :
    r'.failureEventId = r.failureEventId ∨ ∃ (k index : Nat) (event : TaskCompletionEvent),
      a = .handle k ∧ s.handlings[k]? = some ⟨.completion, index, .received⟩ ∧
      s.completions.entries[index]? = some event ∧ r.attemptId = event.attemptId ∧
      r'.failureEventId = some event.eventId ∧ ∀ p ∈ s.db.taskAttempts, p.failureEventId ≠ some event.eventId := by
  cases h with
  | failed handling entry _ _ _ id counts => exact .inr ⟨_, _, _, rfl, handling, entry, id, rfl, counts.fresh⟩
  | _ => exact .inl rfl

theorem NewAttempt.failure {r : TaskAttemptRecord} (h : NewAttempt s r) : r.failureEventId = none := by
  cases h <;> rfl

theorem AttemptsStep.distinctFailures (hstep : AttemptsStep cfg s a t) (h : DistinctFailures s) :
    DistinctFailures t := by
  intro r hr r' hr' id hid hid'
  rcases hstep.mem hr with ⟨r₀, hr₀, hchange⟩ | hnew
  · rcases hstep.mem hr' with ⟨r₀', hr₀', hchange'⟩ | hnew'
    · rw [hchange.id, hchange'.id]
      rcases hchange.failure with heq | ⟨k, index, event, rfl, hk, he, hattempt, heq, hfresh⟩ <;>
        rcases hchange'.failure with heq' | ⟨k', index', event', ha, hk', he', hattempt', heq', hfresh'⟩
      · exact h r₀ hr₀ r₀' hr₀' id (heq ▸ hid) (heq' ▸ hid')
      · rw [heq'] at hid'
        exact absurd ((heq ▸ hid).trans hid'.symm) (hfresh' r₀ hr₀)
      · rw [heq] at hid
        exact absurd ((heq' ▸ hid').trans hid.symm) (hfresh r₀' hr₀')
      · cases ha
        rw [hk] at hk'
        cases hk'
        rw [he] at he'
        cases he'
        rw [hattempt, hattempt']
    · rw [hnew'.failure] at hid'
      cases hid'
  · rw [hnew.failure] at hid
    cases hid

theorem reachable_distinctFailures (h : Reachable cfg anyStep s) : DistinctFailures s :=
  Transition.Reachable.invariant (by simp [DistinctFailures, init, Database.empty])
    (fun _ _ _ hr hs _ ht => (reachable_attemptsStep hr (step_effect ht)).distinctFailures hs) h

/-- A node that a step claims runs after it. -/
theorem Kind.claimed (hk : Kind cfg s t) (ht : t.Claimed e i) : s.Claimed e i ∨ t.db.status e i = .running := by
  have happend :
      ∀ {l : List Milestone}, t.history = s.history ++ l → Milestone.nodeClaimed e i ∉ l → s.Claimed e i := by
    intro l heq hl
    have hmem : Milestone.nodeClaimed e i ∈ s.history ++ l := heq ▸ ht
    exact (List.mem_append.1 hmem).resolve_right hl
  cases hk with
  | submit _ _ _ _ eq => subst eq; exact .inl ht
  | trigger _ _ eq => subst eq; exact .inl (happend rfl (by simp))
  | process _ _ _ _ eq => subst eq; exact .inl ht
  | dispatch _ _ _ _ _ eq =>
    subst eq
    rcases List.mem_append.1 ht with hold | hnew
    · exact .inl hold
    · right
      split at hnew
      · rename_i hrunning
        obtain ⟨rfl, rfl⟩ : e = _ ∧ i = _ := by simpa using hnew
        have := (of_decide_eq_true hrunning).2
        rw [statusMap_node] at this
        simp [Database.status, this]
      · cases hnew
  | evaluate _ _ _ eq => subst eq; exact .inl ht
  | read _ _ _ eq => subst eq; exact .inl ht
  | quiet hq =>
    obtain ⟨l, heq, hlocal⟩ := hq.history
    exact .inl (happend heq fun hmem => hlocal _ hmem)

/-- A node that had its own task failed through it. -/
def OwnFailures (cfg : Config) (s : System) : Prop :=
  ∀ e i, s.Claimed e i → s.db.status e i = .failed → Exhausted cfg.policy.maxAttempts s.db e i

theorem Kind.ownFailures (hk : Kind cfg s t) (hc : Consistent s) (hd : Dispatches s) (h : OwnFailures cfg s) :
    OwnFailures cfg t := by
  intro e i hclaimed hfailed
  have hadv := hk.advances hc
  rcases hk.claimed hclaimed with hold | hrunning
  · cases hst : s.db.status e i with
    | pending =>
      rcases hd.node e i with ⟨-, -, hne⟩ | ⟨hno, -⟩
      · exact absurd hst hne
      · exact absurd hold hno
    | running => exact hk.exhausts hc hd hst hfailed
    | completed => rw [hadv.later.completed e i hst] at hfailed; cases hfailed
    | failed => exact (hk.keepsFailures hc hd).exhausted (h e i hold hst)
  · rw [hrunning] at hfailed
    cases hfailed

theorem reachable_ownFailures (h : Reachable cfg anyStep s) : OwnFailures cfg s := by
  refine Transition.Reachable.invariant (fun e i hclaimed => ?_) (fun _ _ _ hr hs _ ht => ?_) h
  · simp [Claimed, init] at hclaimed
  · exact (step_kind (reachable_consistent hr).sound ht).ownFailures (reachable_consistent hr)
      (reachable_dispatches hr) hs

/-! ## The chain of a task -/

theorem length_retriesOf {db : Database} {attemptId : Uuid} :
    (db.retriesOf attemptId).length = (db.taskRetryDispatches.map (·.attemptId)).count attemptId := by
  rw [retriesOf, ← List.countP_eq_length_filter, List.count, List.countP_map]
  rfl

theorem Retries.nodup (h : Retries s) (hids : AttemptIds s) : (s.db.taskRetryDispatches.map (·.attemptId)).Nodup := by
  have hsub :
      ((s.db.taskAttempts.map (·.slot)).filter fun p => decide (1 < p.2.2)).Sublist (s.db.taskAttempts.map (·.slot)) :=
    List.filter_sublist
  rw [h.rows]
  refine (hsub.map (·.1)).nodup ?_
  rw [List.map_map]
  exact hids.keyed

/-- A retry for each attempt but the first. -/
theorem Retries.count (h : Retries s) (hids : AttemptIds s) (hd : Dispatches s) {r : TaskAttemptRecord}
    (hr : r ∈ s.db.taskAttempts) : (s.db.retriesOf r.attemptId).length = if r.attemptNumber = 1 then 0 else 1 := by
  have hnumber := hd.numbers r hr
  rw [length_retriesOf]
  split
  · rename_i hone
    refine List.count_eq_zero_of_not_mem fun hmem => ?_
    rw [h.rows] at hmem
    obtain ⟨p, hp, hid⟩ := List.mem_map.1 hmem
    obtain ⟨hp, hlt⟩ := List.mem_filter.1 hp
    obtain ⟨r', hr', rfl⟩ := List.mem_map.1 hp
    obtain rfl := hids.keyed.ext hr' hr hid
    have : 1 < r'.attemptNumber := of_decide_eq_true hlt
    omega
  · rename_i hne
    refine List.count_eq_one_of_mem (h.nodup hids) ?_
    rw [h.rows]
    refine List.mem_map.2 ⟨r.slot, List.mem_filter.2 ⟨List.mem_map_of_mem hr, ?_⟩, rfl⟩
    have : 1 < r.attemptNumber := by omega
    exact decide_eq_true this

/-- The task of a node that was claimed has a first attempt. -/
theorem Dispatches.attempt (h : Dispatches s) {task : LogicalTaskRecord} (htask : task ∈ s.db.logicalTasks) :
    task.taskId = createTaskId task.executionId task.nodeId ∧ s.Claimed task.executionId task.nodeId ∧
      ∃ r ∈ s.db.taskAttempts, r.taskId = task.taskId := by
  have hid := h.ids task htask
  rcases h.node task.executionId task.nodeId with ⟨hclaimed, hone, -⟩ | ⟨-, ⟨hno, -⟩, -⟩
  · obtain ⟨_, attempt, _, _, -, -, hfirst, -⟩ := hone
    have hmem : attempt ∈ s.db.firstAttemptsOf task.executionId task.nodeId := hfirst ▸ List.mem_singleton.2 rfl
    obtain ⟨hmem, hattempt⟩ := List.mem_filter.1 hmem
    exact ⟨hid, hclaimed, attempt, hmem, (of_decide_eq_true hattempt).1.trans hid.symm⟩
  · have hmem : task ∈ s.db.tasksOf task.executionId task.nodeId := by simp [tasksOf, htask]
    rw [hno] at hmem
    cases hmem

theorem nodup_failures (hids : AttemptIds s) (h : DistinctFailures s) :
    (s.db.taskAttempts.filterMap (·.failureEventId)).Nodup := by
  refine List.pairwise_filterMap.2 ((List.pairwise_map.1 hids.keyed).imp_of_mem ?_)
  intro r r' hr hr' hne id hid id' hid' heq
  exact hne (h r hr r' hr' id hid (heq ▸ hid'))

/-- The chain of every task in every state of every run. No two attempts fail by one event, so
neither an insertion of an attempt nor the record of a failure violates a constraint: the
record of any published failure and the registration of any task about to be started return. -/
theorem retry_chain (h : Reachable cfg anyStep s) :
    (∀ task ∈ s.db.logicalTasks, ∃ k, RetryChain cfg.policy.maxAttempts s.db task k) ∧
    (s.db.taskAttempts.filterMap (·.failureEventId)).Nodup ∧
    (∀ event ∈ s.completions.entries, ∀ message errorType at', ∃ result,
      s.db.recordFailure event.taskId event.attemptId event.eventId message errorType s.now cfg.policy.maxAttempts at'
        (.v4 s.draws) = .ok result) ∧
    ∀ g ∈ s.handlings, ∀ x nodes, g.phase.toDispatch = some (x, nodes) → ∀ n ∈ nodes,
      s.db.status x.executionId n.id = .pending → ∀ input, ∃ db, registerTask x n input (.v4 s.draws) s.now
        (s.db.claimPendingNodes x.executionId [n.id] s.now).2 = .ok db := by
  have hd := reachable_dispatches h
  have hids := reachable_attemptIds h
  have hnumbered := (reachable_sequences h).numbered
  refine ⟨fun task htask => ?_, ?_, fun event hmem message errorType at' => ?_,
    fun g _ x nodes _ n _ hpending input => ?_⟩
  · obtain ⟨hid, hclaimed, hattempt⟩ := hd.attempt htask
    obtain ⟨k, hbounds, hperm⟩ := hnumbered.interval hids.keyed hattempt
    -- the attempt with the last number
    have hnumber : ∀ {r : TaskAttemptRecord}, r ∈ s.db.attemptsOf task.taskId → r.attemptNumber ≤ k := by
      intro r hr
      have := hperm.mem_iff.1 (List.mem_map_of_mem hr)
      rw [List.mem_range'_1] at this
      omega
    refine ⟨k, hbounds, hperm, fun r hr hlt => ?_, fun r hr => ?_, fun hfailed => ?_⟩
    · have hk : k ∈ List.range' 1 k := List.mem_range'_1.2 (by omega)
      obtain ⟨last, hlast, hlk⟩ := List.mem_map.1 (hperm.mem_iff.2 hk)
      obtain ⟨hlast, hltask⟩ := mem_attemptsOf.1 hlast
      obtain ⟨hr, hrtask⟩ := mem_attemptsOf.1 hr
      exact hnumbered.closed r hr last hlast (hrtask.trans hltask.symm) (by omega)
    · exact (reachable_retries h).count hids hd (mem_attemptsOf.1 hr).1
    · obtain ⟨r, hr, hrtask, hle, hclosed⟩ := reachable_ownFailures h _ _ hclaimed hfailed
      have hmem := mem_attemptsOf.2 ⟨hr, hrtask.trans hid.symm⟩
      have hle' := hnumber hmem
      refine ⟨by omega, fun p hp hpk => ?_⟩
      obtain ⟨hp, hptask⟩ := mem_attemptsOf.1 hp
      have hsame := hnumbered.unique p hp r hr (hptask.trans (hid.trans hrtask.symm)) (by omega)
      rw [hids.keyed.ext hp hr hsame]
      exact hclosed
  · exact nodup_failures hids (reachable_distinctFailures h)
  · obtain ⟨-, -, m, hm, hreports⟩ := (reachable_workers h).completions event hmem
    have hissued := (reachable_messages h).entries m hm
    obtain ⟨r, hr, htask, -⟩ := hids.issued hissued
    rw [hreports.taskId, hreports.attemptId]
    obtain ⟨decision, db, hdb⟩ := recordFailure_total cfg.policy.maxAttempts_pos hr htask hnumbered hids.unused
      (reachable_sequences h).retry_unused
    exact ⟨_, hdb⟩
  · rcases hd.node x.executionId n.id with ⟨-, -, hst⟩ | ⟨hno, hnone, -⟩
    · exact absurd hpending hst
    · have hfresh := (reachable_identifiers h).fresh ((reachable_identifiers h).task_unused hno)
      exact ⟨_, @registerTask_total (s.db.claimPendingNodes x.executionId [n.id] s.now).2 x s.now n input (.v4 s.draws)
        hnone hd.ids hids.unused hfresh⟩

/-- A policy with one retry. -/
def retryConfig : Config := sampleRetries 1

/-- The root node of `chain` has failed once. -/
def chainRetried : System := reached retryConfig (fetched (.failure "boom" "RuntimeError"))

theorem retry_chain_retried :
    chainRetried.db.taskAttempts.map (fun r => (r.attemptNumber, r.status)) = [(1, .failed), (2, .scheduled)] ∧
      ∃ task ∈ chainRetried.db.logicalTasks, ∃ k, RetryChain 2 chainRetried.db task k := by
  have htask : (chainRetried.db.logicalTasks.map (·.nodeId)) = ["fetch"] := by decide +kernel
  obtain ⟨task, hmem, -⟩ : ∃ task ∈ chainRetried.db.logicalTasks, task.nodeId = "fetch" :=
    List.mem_map.1 (htask ▸ List.mem_singleton.2 rfl)
  exact ⟨by decide +kernel, task, hmem, (retry_chain (reachable_reached retryConfig _)).1 task hmem⟩

/-! ## Publication of retries -/

/-- A step of `publish_due_retries`. -/
def Action.publishesRetries : Action → Bool
  | .readRetries => true
  | .publishRetry _ => true
  | .markRetry _ => true
  | _ => false

/-- The attempt waits for its publication: the next read finds it once it is due. -/
structure Waits (db : Database) (r : TaskAttemptRecord) : Prop where
  status : r.status = .scheduled
  retry : ∃ d ∈ db.taskRetryDispatches, d.attemptId = r.attemptId ∧ d.status = .pending ∧
    ∀ now, d.availableAt ≤ now → ∃ m ∈ db.getDueRetries now, m.attemptId = r.attemptId

theorem Retries.waits (h : Retries s) {r : TaskAttemptRecord} (hr : r ∈ s.db.taskAttempts)
    (hlater : 2 ≤ r.attemptNumber) :
    Waits s.db r ∨ ∃ m ∈ s.tasks.entries, m.attemptId = r.attemptId := by
  rcases h.scheduled r hr hlater with hscheduled | hentry
  · have hmem : r.attemptId ∈ s.db.taskRetryDispatches.map (·.attemptId) := by
      rw [h.rows]
      exact List.mem_map.2 ⟨r.slot, List.mem_filter.2 ⟨List.mem_map_of_mem hr, decide_eq_true hlater⟩, rfl⟩
    obtain ⟨d, hd, hid⟩ := List.mem_map.1 hmem
    cases hst : d.status with
    | published => exact .inr (hid ▸ h.published d hd hst)
    | pending =>
      obtain ⟨task, htask, htid⟩ := h.task r hr
      refine .inl ⟨hscheduled, d, hd, hid, hst, fun now hdue => ⟨retryMessage task r, ?_, rfl⟩⟩
      refine List.mem_flatMap.2 ⟨task, htask, List.mem_flatMap.2 ⟨r, ?_, List.mem_map.2 ⟨d, ?_, rfl⟩⟩⟩
      · exact List.mem_filter.2 ⟨hr, decide_eq_true ⟨htid.symm, hscheduled⟩⟩
      · exact List.mem_filter.2 ⟨hd, decide_eq_true ⟨hid, hst, hdue⟩⟩
  · exact .inr hentry

/-- The attempt's retry is marked. -/
def Marked (s : System) (attemptId : Uuid) : Prop :=
  ∃ d ∈ s.db.taskRetryDispatches, d.attemptId = attemptId ∧ d.status = .published

theorem RetriesStep.marked_mono (h : RetriesStep s a t) {attemptId : Uuid} (hm : s.Marked attemptId) :
    t.Marked attemptId := by
  obtain ⟨d, hd, hid, hst⟩ := hm
  cases h with
  | same retries => exact ⟨d, retries ▸ hd, hid, hst⟩
  | scheduled _ _ retries => exact ⟨d, retries ▸ List.mem_append_left _ hd, hid, hst⟩
  | marked _ _ retries =>
    refine ⟨d, ?_, hid, hst⟩
    rw [retries]
    exact Table.mem_updateWhere.2 ⟨d, hd, by simp [hst]⟩

/-- The mark succeeds on a pending retry, and publishes it. -/
theorem markRetryPublished_true {db : Database} {attemptId : Uuid} {now : Time}
    (h : (db.markRetryPublished attemptId now).1 = true) :
    ∃ d ∈ db.taskRetryDispatches, d.attemptId = attemptId ∧ d.status = .pending ∧
      { d with status := .published, publishedAt := some now } ∈
        (db.markRetryPublished attemptId now).2.taskRetryDispatches := by
  unfold markRetryPublished at h ⊢
  dsimp only at h ⊢
  split at h
  · rename_i hany
    obtain ⟨d, hd, hp⟩ := List.any_eq_true.1 hany
    refine ⟨d, hd, (of_decide_eq_true hp).1, (of_decide_eq_true hp).2, ?_⟩
    rw [if_pos hany]
    exact Table.mem_updateWhere.2 ⟨d, hd, by rw [if_pos hp]⟩
  · cases h

/-- A marked retry is not marked again. -/
theorem Marked.fails (h : Reachable cfg anyStep s) {attemptId : Uuid} (hm : s.Marked attemptId) (now : Time) :
    (s.db.markRetryPublished attemptId now).1 = false := by
  obtain ⟨d, hd, hid, hst⟩ := hm
  rw [Bool.eq_false_iff]
  intro htrue
  obtain ⟨d', hd', hid', hst', -⟩ := markRetryPublished_true htrue
  have heq :=
    List.inj_on_of_nodup_map ((reachable_retries h).nodup (reachable_attemptIds h)) hd hd' (hid.trans hid'.symm)
  rw [heq, hst'] at hst
  cases hst

/-- In every state of every run a later attempt still waits, found by the next read once it is
due, or a message of it is in the stream; a retry is marked at most once, whatever comes
after; and the publisher's steps leave every attempt alone that is not scheduled. -/
theorem retry_publication (h : Reachable cfg anyStep s) :
    (∀ r ∈ s.db.taskAttempts, 2 ≤ r.attemptNumber →
      Waits s.db r ∨ ∃ m ∈ s.tasks.entries, m.attemptId = r.attemptId) ∧
    (∀ attemptId t, (s.db.markRetryPublished attemptId s.now).1 = true → step cfg s (.markRetry attemptId) = some t →
      ∀ u, Transition.Reachable (step cfg) anyStep t u → ∀ now, (u.db.markRetryPublished attemptId now).1 = false) ∧
    ∀ a t, a.publishesRetries = true → step cfg s a = some t → ∀ r ∈ s.db.taskAttempts,
      r.status = .claimed ∨ r.status = .resultRecorded ∨ r.status = .completed ∨ r.status = .failed →
      t.db.getAttempt r.attemptId = some r := by
  refine ⟨fun r hr hlater => (reachable_retries h).waits hr hlater, fun attemptId t hmark hstep u hu now => ?_,
    fun a t ha hstep r hr hst => ?_⟩
  · have ht : Reachable cfg anyStep t := .next _ h trivial hstep
    have hmarked : t.Marked attemptId := by
      obtain ⟨d, -, hid, -, hd'⟩ := markRetryPublished_true hmark
      cases step_effect hstep
      exact ⟨_, hd', hid, rfl⟩
    have hu' : u.Marked attemptId ∧ Reachable cfg anyStep u := by
      induction hu with
      | start => exact ⟨hmarked, ht⟩
      | next a _ _ hs ih =>
        exact ⟨((step_effect hs).retriesStep (reachable_consistent ih.2) (reachable_dispatches ih.2)).marked_mono ih.1,
          .next a ih.2 trivial hs⟩
    exact hu'.1.fails hu'.2 now
  · obtain ⟨r', hr', hchange⟩ := (reachable_attemptsStep h (step_effect hstep)).old hr
    have heq : r' = r := by
      cases hchange with
      | same => rfl
      | queued _ _ scheduled => rcases hst with hst | hst | hst | hst <;> rw [hst] at scheduled <;> cases scheduled
      | _ => cases ha
    exact (reachable_attemptIds (.next a h trivial hstep)).getAttempt (heq ▸ hr') rfl

/-- The scheduled attempt waits; no message of it was sent yet. -/
theorem retry_publication_retried :
    ∃ r ∈ chainRetried.db.taskAttempts, r.attemptNumber = 2 ∧ Waits chainRetried.db r := by
  have hnumbers : chainRetried.db.taskAttempts.map (·.attemptNumber) = [1, 2] := by decide +kernel
  obtain ⟨r, hr, hnumber⟩ : ∃ r ∈ chainRetried.db.taskAttempts, r.attemptNumber = 2 :=
    List.mem_map.1 (by rw [hnumbers]; simp)
  have hunsent : ∀ m ∈ chainRetried.tasks.entries, ∀ r ∈ chainRetried.db.taskAttempts, r.attemptNumber = 2 →
      m.attemptId ≠ r.attemptId := by
    decide +kernel
  refine ⟨r, hr, hnumber, ?_⟩
  rcases (retry_publication (reachable_reached retryConfig _)).1 r hr (by omega) with hwaits | ⟨m, hm, hid⟩
  · exact hwaits
  · exact absurd hid (hunsent m hm r hr hnumber)

end System

end WorkflowEngine
