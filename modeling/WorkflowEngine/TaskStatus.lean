import WorkflowEngine.Outcomes
import WorkflowEngine.RetryChains

/-!
# The status of a logical task

Only the retry repository writes the status of a task. A published success finds its own
identifier in the row of its attempt, where the worker has put it, so the task never becomes
`completed`; it becomes `failed` with the failure of its last attempt.
-/
namespace WorkflowEngine

open Database

namespace Database

variable {db db' : Database} {policy : RetryPolicy} {event : TaskCompletionEvent} {existing : NodeExecutionRecord}
  {next : Uuid} {now : Time} {early : Option TaskCompletionDecision}

/-- The last attempt that the policy allows is closed. -/
def LastFailed (maxAttempts : Nat) (db : Database) (taskId : Uuid) : Prop :=
  ∃ r ∈ db.attemptsOf taskId, maxAttempts ≤ r.attemptNumber ∧ r.failureEventId.isSome

/-- What the status of a task says of its attempts. -/
def TaskStatuses (maxAttempts : Nat) (db : Database) : Prop :=
  ∀ task ∈ db.logicalTasks, task.status ≠ .completed ∧ (task.status = .failed ↔ LastFailed maxAttempts db task.taskId)

theorem lastFailed_congr {maxAttempts : Nat} {taskId : Uuid} (h : db'.attemptsOf taskId = db.attemptsOf taskId) :
    LastFailed maxAttempts db' taskId ↔ LastFailed maxAttempts db taskId := by
  rw [LastFailed, h]
  rfl

theorem attemptsOf_updateAttempt {attemptId taskId : Uuid} {f : TaskAttemptRecord → TaskAttemptRecord}
    (hf : ∀ r, (f r).taskId = r.taskId) (h : ∀ r ∈ db.taskAttempts, r.attemptId = attemptId → r.taskId ≠ taskId) :
    (db.updateAttempt attemptId f).attemptsOf taskId = db.attemptsOf taskId := by
  simp only [attemptsOf, updateAttempt]
  rw [Table.filter_updateWhere fun r => by rw [hf]]
  refine Table.updateWhere_eq_self ?_
  rw [List.any_eq_false]
  intro r hr hid
  obtain ⟨hmem, htask⟩ := List.mem_filter.1 hr
  exact h r hmem (of_decide_eq_true hid) (of_decide_eq_true htask)

/-- A failure writes the task of its attempt, and no attempt of another task. -/
theorem FailureCounts.attemptsOf_other {r : TaskAttemptRecord} {attemptId eventId taskId taskId' : Uuid}
    {f : TaskAttemptRecord → TaskAttemptRecord} (h : FailureCounts taskId attemptId eventId db r)
    (hkeyed : Table.Keyed (·.attemptId) db.taskAttempts) (hf : ∀ r, (f r).taskId = r.taskId) (hne : taskId' ≠ taskId) :
    (db.updateAttempt attemptId f).attemptsOf taskId' = db.attemptsOf taskId' := by
  refine attemptsOf_updateAttempt hf fun r' hr' hid htask => hne ?_
  obtain ⟨hr, hrid⟩ := attempt_some h.attempt
  obtain rfl := hkeyed.ext hr' hr (hid.trans hrid.symm)
  rw [← htask, h.task]

theorem consulted_taskStatuses (h : Consulted policy event existing next now db early db')
    (hkeyed : Table.Keyed (·.attemptId) db.taskAttempts) (hnumbered : Numbered policy.maxAttempts db.taskAttempts)
    (hknown : event.status = .completed → ∀ r, db.getAttempt event.attemptId = some r →
      r.completionEventId = some event.eventId)
    (hs : TaskStatuses policy.maxAttempts db) : TaskStatuses policy.maxAttempts db' := by
  cases h with
  | success status attempt _ unknown => exact absurd (hknown status _ attempt) unknown
  | @exhausted r errorMessage errorType _ _ _ counts last =>
    intro task' htask'
    obtain ⟨task, htask, rfl⟩ := Table.mem_updateWhere.1 htask'
    by_cases hid : task.taskId = event.taskId
    · obtain ⟨hr, hrid⟩ := attempt_some counts.attempt
      simp only [hid, decide_true, if_true]
      refine ⟨by simp, iff_of_true trivial ⟨failedWith event.eventId errorMessage errorType now r, ?_, last, rfl⟩⟩
      refine mem_attemptsOf.2 ⟨Table.mem_updateWhere.2 ⟨r, hr, by simp [hrid]⟩, counts.task⟩
    · simp only [hid, decide_false, Bool.false_eq_true, if_false]
      refine ⟨(hs task htask).1, (hs task htask).2.trans (lastFailed_congr ?_).symm⟩
      exact counts.attemptsOf_other hkeyed (fun _ => rfl) hid
  | @retry r errorMessage errorType at' _ _ _ counts more =>
    intro task' htask'
    obtain ⟨task, htask, rfl⟩ := Table.mem_updateWhere.1 htask'
    obtain ⟨hr, hrid⟩ := attempt_some counts.attempt
    by_cases hid : task.taskId = event.taskId
    · simp only [hid, decide_true, if_true]
      refine ⟨by simp, iff_of_false (by simp) ?_⟩
      rintro ⟨r', hr', hlast, hclosed⟩
      obtain ⟨hmem, htask'⟩ := mem_attemptsOf.1 hr'
      rcases List.mem_append.1 hmem with hmem | hmem
      · obtain ⟨r₀, hr₀, rfl⟩ := Table.mem_updateWhere.1 hmem
        by_cases hid₀ : r₀.attemptId = event.attemptId
        · obtain rfl := hkeyed.ext hr₀ hr (hid₀.trans hrid.symm)
          simp only [hid₀, decide_true, if_true] at hlast
          exact absurd more (Nat.not_lt.2 hlast)
        · simp only [hid₀, decide_false, Bool.false_eq_true, if_false] at hlast hclosed htask'
          have := hnumbered.closed r hr r₀ hr₀ (counts.task.trans htask'.symm) (more.trans_le hlast)
          rw [counts.open'] at this
          cases this
      · rw [List.mem_singleton] at hmem
        subst hmem
        cases hclosed
    · simp only [hid, decide_false, Bool.false_eq_true, if_false]
      refine ⟨(hs task htask).1, (hs task htask).2.trans (lastFailed_congr ?_).symm⟩
      have hnew : [scheduledAttempt next event.taskId (r.attemptNumber + 1) at'].filter
          (fun r => decide (r.taskId = task.taskId)) = [] := by
        simp [scheduledAttempt, Ne.symm hid]
      refine Eq.trans ?_ (counts.attemptsOf_other (f := failedWith event.eventId errorMessage errorType now) hkeyed
        (fun _ => rfl) hid)
      simp only [attemptsOf, scheduleRetry, updateLogicalTask, List.filter_append, hnew, List.append_nil]
  | _ => exact hs

theorem processed_taskStatuses {decision : TaskCompletionDecision}
    (h : Processed policy event next now db decision db') (hkeyed : Table.Keyed (·.attemptId) db.taskAttempts)
    (hnumbered : Numbered policy.maxAttempts db.taskAttempts)
    (hknown : event.status = .completed → ∀ r, db.getAttempt event.attemptId = some r →
      r.completionEventId = some event.eventId)
    (hs : TaskStatuses policy.maxAttempts db) : TaskStatuses policy.maxAttempts db' := by
  obtain ⟨_, _, db₁, consult, htasks, hattempts, -⟩ := h.consulted
  intro task htask
  have h₁ := consulted_taskStatuses consult hkeyed hnumbered hknown hs task (htasks ▸ htask)
  refine ⟨h₁.1, h₁.2.trans (lastFailed_congr ?_).symm⟩
  rw [attemptsOf, hattempts]
  rfl

/-- An attempt added open is not a last failure. -/
theorem lastFailed_append {maxAttempts : Nat} {taskId : Uuid} {r : TaskAttemptRecord}
    (h : db'.taskAttempts = db.taskAttempts ++ [r]) (hopen : r.failureEventId = none) :
    LastFailed maxAttempts db' taskId ↔ LastFailed maxAttempts db taskId := by
  simp only [LastFailed, mem_attemptsOf, h, List.mem_append, List.mem_singleton]
  constructor
  · rintro ⟨r', ⟨hr' | rfl, htask⟩, hlast⟩
    · exact ⟨r', ⟨hr', htask⟩, hlast⟩
    · rw [hopen] at hlast
      cases hlast.2
  · rintro ⟨r', ⟨hr', htask⟩, hlast⟩
    exact ⟨r', ⟨.inl hr', htask⟩, hlast⟩

theorem lastFailed_of_identity {maxAttempts : Nat} {taskId : Uuid}
    (h : db'.taskAttempts.map (·.identity) = db.taskAttempts.map (·.identity))
    (hlast : LastFailed maxAttempts db taskId) :
    LastFailed maxAttempts db' taskId := by
  obtain ⟨r, hr, hnumber, hclosed⟩ := hlast
  obtain ⟨hmem, htask⟩ := mem_attemptsOf.1 hr
  have hidentity : r.identity ∈ db'.taskAttempts.map (·.identity) := by
    rw [h]
    exact List.mem_map_of_mem hmem
  obtain ⟨r', hr', hid⟩ := List.mem_map.1 hidentity
  simp only [TaskAttemptRecord.identity, Prod.mk.injEq] at hid
  obtain ⟨-, htask', hnumber', hfailure⟩ := hid
  exact ⟨r', mem_attemptsOf.2 ⟨hr', htask'.trans htask⟩, hnumber' ▸ hnumber, hfailure ▸ hclosed⟩

end Database

namespace System

variable {cfg : Config} {s t : System} {a : Action}

theorem Kind.taskStatuses (hk : Kind cfg s t) (hc : Consistent s) (hd : Dispatches s) (hids : AttemptIds s)
    (hseq : Sequences cfg s) (hout : Outcomes s) (h : TaskStatuses cfg.policy.maxAttempts s.db) :
    TaskStatuses cfg.policy.maxAttempts t.db := by
  cases hk with
  | submit _ _ _ _ eq => subst eq; exact h
  | trigger _ commit eq =>
    subst eq
    obtain ⟨-, rfl⟩ := triggerCommit_ok hc.sound commit
    exact h
  | process _ entry _ processed eq =>
    subst eq
    refine processed_taskStatuses (process_ok hc.sound hc.runs processed).2 hids.keyed hseq.numbered
      (fun hcompleted r hr => ?_) h
    obtain ⟨hmem, hid⟩ := attempt_some hr
    exact (hout.success (List.mem_of_getElem? entry) hcompleted hmem hid).id
  | @dispatch _ _ _ x _ n _ _ _ handling toDispatch node dispatched _ eq =>
    subst eq
    rcases dispatch_cases hc hd handling toDispatch node dispatched with ⟨rfl, -⟩ | ⟨_, _, -, -, hno, -, rfl⟩
    · exact h
    · intro task htask
      have happend : ∀ {input : Dict Json} (taskId : Uuid), LastFailed cfg.policy.maxAttempts
          (registered x n input (.v4 s.draws) s.now (s.db.claimPendingNodes x.executionId [n.id] s.now).2) taskId ↔
            LastFailed cfg.policy.maxAttempts s.db taskId := by
        intro input taskId
        exact @lastFailed_append s.db _ _ _ (initialAttempt (.v4 s.draws) (createTaskId x.executionId n.id) s.now)
          (by simp [registered, pushOutbox, claimPendingNodes]) rfl
      rcases List.mem_append.1 htask with htask | htask
      · exact ⟨(h task htask).1, (h task htask).2.trans (happend _).symm⟩
      · rw [List.mem_singleton.1 htask]
        refine ⟨by simp [taskRecord], iff_of_false (by simp [taskRecord]) fun hlast => ?_⟩
        obtain ⟨r, hr, -⟩ := (happend _).1 hlast
        exact hno.2.1 r (mem_attemptsOf.1 hr).1 (mem_attemptsOf.1 hr).2
  | evaluate _ _ _ eq => subst eq; exact h
  | read _ _ _ eq => subst eq; exact h
  | quiet hq =>
    intro task htask
    have hold := h task (hq.tasks ▸ htask)
    exact ⟨hold.1, hold.2.trans ⟨lastFailed_of_identity hq.attempts, lastFailed_of_identity hq.attempts.symm⟩⟩

theorem reachable_taskStatuses (h : Reachable cfg anyStep s) : TaskStatuses cfg.policy.maxAttempts s.db := by
  refine Transition.Reachable.invariant (P := fun s => TaskStatuses cfg.policy.maxAttempts s.db) (fun task htask => ?_)
    (fun _ _ _ hr hs _ ht => ?_) h
  · simp [init, Database.empty] at htask
  · exact (step_kind (reachable_consistent hr).sound ht).taskStatuses (reachable_consistent hr)
      (reachable_dispatches hr) (reachable_attemptIds hr) (reachable_sequences hr) (reachable_outcomes hr) hs

/-- A node runs with an open attempt, so its last attempt has not failed. -/
theorem Sequences.not_lastFailed (h : Sequences cfg s) (hids : AttemptIds s) {e : Uuid} {i : String}
    (hrunning : s.db.status e i = .running) : ¬ LastFailed cfg.policy.maxAttempts s.db (createTaskId e i) := by
  rintro ⟨r, hr, hlast, hclosed⟩
  obtain ⟨hmem, htask⟩ := mem_attemptsOf.1 hr
  obtain ⟨r', hr', htask', hopen⟩ := h.running e i hrunning
  have hbound := (h.numbered.bounded r' hr').2
  rcases Nat.lt_or_ge r'.attemptNumber r.attemptNumber with hlt | hge
  · have := h.numbered.closed r' hr' r hmem (htask'.trans htask.symm) hlt
    rw [hopen] at this
    cases this
  · have hid := h.numbered.unique r' hr' r hmem (htask'.trans htask.symm) (by omega)
    obtain rfl := hids.keyed.ext hr' hmem hid
    rw [hopen] at hclosed
    cases hclosed

/-- The status of a task follows its node, in the words of the two enumerations. -/
def Follows (task : LogicalTaskStatus) (node : NodeExecutionStatus) : Prop :=
  (task = .completed ↔ node = .completed) ∧ (task = .failed ↔ node = .failed) ∧
    (task = .running ∨ task = .retryScheduled ↔ node = .running)

/-- The status of a dispatched node's task follows the node exactly as long as the node is not
completed: no task ever becomes `completed`. -/
theorem task_status_iff (h : Reachable cfg anyStep s) {task : LogicalTaskRecord} (htask : task ∈ s.db.logicalTasks) :
    Follows task.status (s.db.status task.executionId task.nodeId) ↔
      s.db.status task.executionId task.nodeId ≠ .completed := by
  obtain ⟨hid, hclaimed, r, hr, hrtask⟩ := (reachable_dispatches h).attempt htask
  obtain ⟨hnever, hfailed⟩ := reachable_taskStatuses h task htask
  have hstarted : s.db.status task.executionId task.nodeId ≠ .pending := by
    rcases (reachable_dispatches h).node task.executionId task.nodeId with ⟨-, -, hst⟩ | ⟨hno, -⟩
    · exact hst
    · exact absurd hclaimed hno
  refine ⟨fun hfollows hcompleted => hnever (hfollows.1.2 hcompleted), fun hnot => ?_⟩
  cases hst : s.db.status task.executionId task.nodeId with
  | pending => exact absurd hst hstarted
  | completed => exact absurd hst hnot
  | running =>
    have hopen : task.status ≠ .failed := fun hf =>
      (reachable_sequences h).not_lastFailed (reachable_attemptIds h) hst (hid ▸ hfailed.1 hf)
    cases hs : task.status with
    | completed => exact absurd hs hnever
    | failed => exact absurd hs hopen
    | running => simp [Follows]
    | retryScheduled => simp [Follows]
  | failed =>
    obtain ⟨r', hr', hrtask', hlast, hclosed⟩ := reachable_ownFailures h _ _ hclaimed hst
    have hs : task.status = .failed := hfailed.2 ⟨r', mem_attemptsOf.2 ⟨hr', hrtask'.trans hid.symm⟩, hlast, hclosed⟩
    simp [Follows, hs]

/-- The failed task of `chain`. -/
theorem task_status_chain :
    ∃ task ∈ chainFailed.db.logicalTasks, chainFailed.db.status task.executionId task.nodeId = .failed ∧
      Follows task.status .failed := by
  have htask :
      chainFailed.db.logicalTasks.map (fun task => chainFailed.db.status task.executionId task.nodeId) =
      [.failed] := by
    decide +kernel
  obtain ⟨task, hmem, hst⟩ : ∃ task ∈ chainFailed.db.logicalTasks,
      chainFailed.db.status task.executionId task.nodeId = .failed :=
    List.mem_map.1 (htask ▸ List.mem_singleton.2 rfl)
  have hnot : chainFailed.db.status task.executionId task.nodeId ≠ .completed := by simp [hst]
  exact ⟨task, hmem, hst, hst ▸ (task_status_iff (reachable_reached sampleConfig _) hmem).2 hnot⟩

/-- The node `fetch` of `chain` is completed, and its task still runs. -/
theorem task_status_counterexample :
    Reachable sampleConfig anyStep chainFetched ∧
      chainFetched.db.logicalTasks.map (fun task => (task.status,
        chainFetched.db.status task.executionId task.nodeId)) =
        [(.running, .completed)] ∧ ¬ Follows .running .completed := by
  exact ⟨reachable_reached _ _, by decide +kernel, by simp [Follows]⟩

end System

end WorkflowEngine
