import WorkflowEngine.Outcomes
import WorkflowEngine.Results
import WorkflowEngine.RetryChains

/-!
# Duplicates

`process` turns an event away by tests on several rows, and makes them before it looks at the
node. Here is what these tests amount to for a tracked task, when they turn away an event that
was processed before, and when they turn away an event of a node that has ended.
-/
namespace WorkflowEngine

namespace Database

variable {db db' : Database} {policy : RetryPolicy} {event : TaskCompletionEvent} {existing : NodeExecutionRecord}
  {next : Uuid} {now : Time} {r : TaskAttemptRecord}

/-- `record_success` or `record_failure` returns without a write. -/
def Known (event : TaskCompletionEvent) (db : Database) (r : TaskAttemptRecord) : Prop :=
  match event.status with
  | .completed => r.completionEventId = some event.eventId ∨
      ((r.status = .completed ∨ r.status = .failed) ∧ r.completionEventId.isSome)
  | .failed => (∃ r' ∈ db.taskAttempts, r'.failureEventId = some event.eventId) ∨ r.failureEventId.isSome ∨
      (r.status = .completed ∧ r.completionEventId ≠ some event.eventId)

instance : Decidable (Known event db r) := by
  unfold Known
  cases event.status <;> infer_instance

/-- A failed event has error information, and the instant of its retry exists. -/
def Timed (policy : RetryPolicy) (now : Time) (event : TaskCompletionEvent) : Prop :=
  event.status = .failed → ∃ message type at', event.errorMessage = some message ∧ event.errorType = some type ∧
    retryAt policy now event.attemptNumber = .ok at'

/-- The event names an attempt of a task that is tracked. -/
structure Names (event : TaskCompletionEvent) (db : Database) (r : TaskAttemptRecord) : Prop where
  id : event.taskId = createTaskId event.executionId event.nodeId
  tracked : db.getLogicalTask event.taskId ≠ none
  attempt : db.getAttempt event.attemptId = some r
  task : r.taskId = event.taskId

theorem consultRetries_known (hnames : Names event db r) (hknown : Known event db r)
    (htimed : Timed policy now event) :
    consultRetries policy event existing next now db =
      .ok (if event.status = .completed ∧ existing.status = .running then none
        else some (duplicateDecision event), db) := by
  obtain ⟨task, htask⟩ := Option.ne_none_iff_exists'.1 hnames.tracked
  unfold consultRetries
  cases hst : event.status with
  | completed =>
    have hrecord : db.recordSuccess event.taskId event.attemptId event.eventId now = .ok (false, db) := by
      simp only [Known, hst] at hknown
      simp only [recordSuccess, htask, hnames.attempt, hnames.task, ne_eq, not_true_eq_false, if_false]
      rcases hknown with hid | hclosed
      · rw [if_pos hid]
      · rw [if_pos hclosed, ite_self]
    simp only [hrecord, Except.bind_eq_ok]
    by_cases hrunning : existing.status = .running <;> simp [hrunning, pure, Except.pure]
  | failed =>
    obtain ⟨message, type, at', hmessage, htype, hat⟩ := htimed hst
    have hpolicy : ¬ policy.maxAttempts < 1 := Nat.not_lt.2 policy.maxAttempts_pos
    have hrecord :
        db.recordFailure event.taskId event.attemptId event.eventId message type now policy.maxAttempts at' next =
        .ok (.duplicate, db) := by
      simp only [Known, hst] at hknown
      simp only [recordFailure, hpolicy, if_false, htask, hnames.attempt, hnames.task, ne_eq, not_true_eq_false]
      rcases hknown with ⟨r', hr', hid⟩ | hclosed
      · rw [if_pos (List.any_eq_true.2 ⟨r', hr', by simpa using hid⟩)]
      · rw [if_pos hclosed, ite_self]
    simp [hmessage, htype, hat, hrecord, bind, Except.bind, pure, Except.pure]

/-- A known event changes nothing, unless it is a success of a running node. -/
theorem process_known (hs : db.Sound) (hnames : Names event db r)
    (hnode : db.node event.executionId event.nodeId = some existing)
    (hended : event.status = .completed → existing.status ≠ .running) (hknown : Known event db r)
    (htimed : Timed policy now event) : process policy event next now db = .ok (duplicateDecision event, db) := by
  obtain ⟨x, hx⟩ := hs.node_execution existing (node_some hnode).1
  rw [(node_some hnode).2.1] at hx
  have hconsult : consultRetries policy event existing next now db = .ok (some (duplicateDecision event), db) := by
    rw [consultRetries_known hnames hknown htimed, if_neg fun h => hended h.1 h.2]
  unfold process
  rw [if_neg (not_not.2 hnames.id), hx]
  dsimp only
  rw [find?_node, hnode]
  simp [hconsult, bind, Except.bind, pure, Except.pure]

/-- `process` of a failed event has computed the instant of a retry when it returns. -/
theorem process_timed {result : TaskCompletionDecision × Database}
    (h : process policy event next now db = .ok result) : Timed policy now event := by
  intro hfailed
  unfold process at h
  split at h
  · cases h
  · split at h
    · cases h
    · dsimp only at h
      split at h
      · cases h
      · obtain ⟨⟨early, db₁⟩, hconsult, -⟩ := Except.bind_eq_ok.1 h
        simp only [consultRetries, hfailed] at hconsult
        split at hconsult
        · rename_i message type hmessage htype
          obtain ⟨at', hat, -⟩ := Except.bind_eq_ok.1 hconsult
          exact ⟨message, type, at', hmessage, htype, hat⟩
        · cases hconsult

/-- An update that changes the row of its attempt changes the table. -/
theorem updateAttempt_ne {f : TaskAttemptRecord → TaskAttemptRecord} {attemptId : Uuid}
    (hf : ∀ r, (f r).attemptId = r.attemptId) (hattempt : db.getAttempt attemptId = some r) (hne : f r ≠ r) :
    (db.updateAttempt attemptId f).taskAttempts ≠ db.taskAttempts := by
  intro heq
  have hget : (db.updateAttempt attemptId f).getAttempt attemptId = db.getAttempt attemptId :=
    congrArg (Table.lookup TaskAttemptRecord.attemptId attemptId) heq
  rw [getAttempt_updated hf hattempt, hattempt] at hget
  exact hne (Option.some.inj hget)

theorem consulted_known {early : Option TaskCompletionDecision}
    (h : Consulted policy event existing next now db early db') (hearly : ∀ d, early = some d → d.outcome = .duplicate)
    (hsame : db'.taskAttempts = db.taskAttempts) (hnames : Names event db r) : Known event db r := by
  have hrow : ∀ {r' : TaskAttemptRecord}, db.getAttempt event.attemptId = some r' → r' = r := by
    intro r' hr'
    exact Option.some.inj (hr'.symm.trans hnames.attempt)
  unfold Known
  cases h with
  | successUntracked _ task => exact absurd task hnames.tracked
  | successKnown status attempt _ known =>
    obtain rfl := hrow attempt
    rw [status]
    exact known
  | @success r' status attempt _ unknown _ =>
    refine absurd hsame (updateAttempt_ne (fun _ => rfl) attempt fun heq => unknown ?_)
    rw [← heq]
    rfl
  | failureUntracked _ task => exact absurd task hnames.tracked
  | failureDuplicate status known =>
    rw [status]
    refine known.imp_right ?_
    rintro ⟨r', attempt, hclosed⟩
    obtain rfl := hrow attempt
    exact hclosed
  | @exhausted r' errorMessage errorType _ _ _ counts _ =>
    refine absurd hsame (updateAttempt_ne (fun _ => rfl) counts.attempt fun heq => ?_)
    have hopen := counts.open'
    rw [← heq] at hopen
    cases hopen
  | retry => cases hearly _ rfl

/-- An event of an ended node that is a duplicate and changes no attempt is known. -/
theorem processed_known {decision : TaskCompletionDecision} (h : Processed policy event next now db decision db')
    (hduplicate : decision.outcome = .duplicate) (hsame : db'.taskAttempts = db.taskAttempts)
    (hnames : Names event db r) (hended : db.Ended event.executionId event.nodeId) : Known event db r := by
  cases h with
  | early _ consult => exact consulted_known consult (fun d hd => by cases hd; exact hduplicate) hsame hnames
  | late _ _ consult => exact consulted_known consult (fun d hd => by cases hd) hsame hnames
  | completed node running => exact absurd ((status_of_node node).trans running) hended.not_running
  | failed node running => exact absurd ((status_of_node node).trans running) hended.not_running

/-- A failed event is known, or the retry repository closes its attempt with it. -/
theorem consulted_failed {early : Option TaskCompletionDecision}
    (h : Consulted policy event existing next now db early db') (hfailed : event.status = .failed)
    (hnames : Names event db r) :
    (early = some (duplicateDecision event) ∧ db' = db ∧ Known event db r) ∨
      (FailureCounts event.taskId event.attemptId event.eventId db r ∧
        (early = none ∨ early = some (retryDecision event next (r.attemptNumber + 1))) ∧
        ∃ r', db'.getAttempt event.attemptId = some r' ∧ r'.failureEventId = some event.eventId) := by
  have hrow : ∀ {r' : TaskAttemptRecord}, db.getAttempt event.attemptId = some r' → r' = r := by
    intro r' hr'
    exact Option.some.inj (hr'.symm.trans hnames.attempt)
  have hclosed : ∀ errorMessage errorType,
      (db.updateAttempt event.attemptId (failedWith event.eventId errorMessage errorType now)).getAttempt
        event.attemptId = some (failedWith event.eventId errorMessage errorType now r) := by
    intro errorMessage errorType
    exact getAttempt_updated (fun _ => rfl) hnames.attempt
  cases h with
  | failureUntracked _ task => exact absurd task hnames.tracked
  | failureDuplicate _ known =>
    refine .inl ⟨rfl, rfl, ?_⟩
    simp only [Known, hfailed]
    refine known.imp_right ?_
    rintro ⟨r', attempt, hknown⟩
    obtain rfl := hrow attempt
    exact hknown
  | exhausted _ _ _ counts =>
    obtain rfl := hrow counts.attempt
    exact .inr ⟨counts, .inl rfl, _, hclosed _ _, rfl⟩
  | retry _ _ _ counts =>
    obtain rfl := hrow counts.attempt
    exact .inr ⟨counts, .inr rfl, _, Table.lookup_append_of_some (hclosed _ _), rfl⟩
  | _ => simp_all

/-- The same of `process`, which writes no attempt besides. -/
theorem processed_failed {decision : TaskCompletionDecision} (h : Processed policy event next now db decision db')
    (hfailed : event.status = .failed) (hnames : Names event db r) :
    (decision = duplicateDecision event ∧ db' = db ∧ Known event db r) ∨
      (FailureCounts event.taskId event.attemptId event.eventId db r ∧
        ∃ r', db'.getAttempt event.attemptId = some r' ∧ r'.failureEventId = some event.eventId) := by
  cases h with
  | early _ consult =>
    rcases consulted_failed consult hfailed hnames with ⟨hearly, hdb, hknown⟩ | ⟨hcounts, -, hclosed⟩
    · exact .inl ⟨Option.some.inj hearly, hdb, hknown⟩
    · exact .inr ⟨hcounts, hclosed⟩
  | late _ _ consult =>
    rcases consulted_failed consult hfailed hnames with ⟨hearly, -⟩ | ⟨hcounts, -, hclosed⟩
    · cases hearly
    · exact .inr ⟨hcounts, hclosed⟩
  | failed _ _ _ _ _ consult ends =>
    rcases consulted_failed consult hfailed hnames with ⟨hearly, -⟩ | ⟨hcounts, -, hclosed⟩
    · cases hearly
    · refine .inr ⟨hcounts, ?_⟩
      unfold getAttempt at hclosed ⊢
      rw [ends.attempts]
      exact hclosed
  | completed _ _ status => rw [hfailed] at status; cases status

/-- A processed success leaves its node ended. -/
theorem processed_completed {decision : TaskCompletionDecision} (h : Processed policy event next now db decision db')
    (hcompleted : event.status = .completed) (hstarted : db.status event.executionId event.nodeId ≠ .pending) :
    db'.Ended event.executionId event.nodeId := by
  have hended :
      ∀ {existing : NodeExecutionRecord} {db₁ : Database}, db.node event.executionId event.nodeId = some existing →
      existing.status ≠ .running → SameRuns db db₁ → db₁.Ended event.executionId event.nodeId := by
    intro existing db₁ node hrunning hsame
    have hst : db₁.status event.executionId event.nodeId = existing.status := by
      rw [status, hsame.node, node]
      rfl
    rw [status_of_node node] at hstarted
    unfold Ended
    rw [hst]
    cases hs : existing.status with
    | pending => exact absurd hs hstarted
    | running => exact absurd hs hrunning
    | completed => exact .inl rfl
    | failed => exact .inr rfl
  cases h with
  | early node consult =>
    refine hended node (fun hrunning => ?_) consult.sameRuns
    generalize hearly : some decision = early at consult
    cases consult with
    | successKnown =>
      rw [if_pos hrunning] at hearly
      cases hearly
    | _ => simp_all
  | late node ended consult => exact hended node (by rcases ended with h | h <;> rw [h] <;> simp) consult.sameRuns
  | completed _ _ _ _ _ _ _ run =>
    have hnode := congrFun ((congrArg DependencyRun.nodes run).trans DependencyRun.settle_nodes) event.nodeId
    exact .inl (hnode.trans (Function.update_self _ _ _))
  | failed _ _ status => rw [hcompleted] at status; cases status

end Database

open Database

namespace System

variable {cfg : Config} {s t u : System} {a : Action} {event : TaskCompletionEvent} {decision : TaskCompletionDecision}
  {k : Nat}

/-- A task of which an attempt exists is tracked, and its node has been started. -/
theorem Dispatches.tracked (h : Dispatches s) {r : TaskAttemptRecord} (hr : r ∈ s.db.taskAttempts)
    {e : Uuid} {i : String} (htask : r.taskId = createTaskId e i) :
    s.db.getLogicalTask (createTaskId e i) ≠ none ∧ s.db.status e i ≠ .pending := by
  rcases h.node e i with ⟨-, hone, hst⟩ | ⟨-, ⟨-, hno, -⟩, -⟩
  · obtain ⟨task, -, -, -, htasks, hid, -⟩ := hone
    have hmem : task ∈ s.db.tasksOf e i := htasks ▸ List.mem_singleton.2 rfl
    exact ⟨fun hnone => Table.lookup_none.1 hnone task (List.mem_filter.1 hmem).1 hid, hst⟩
  · exact absurd htask (hno r hr)

/-- An event in the stream names an attempt. -/
theorem published_names (h : Reachable cfg anyStep s) (hmem : event ∈ s.completions.entries) :
    ∃ r, Names event s.db r := by
  obtain ⟨-, -, m, hm, hreports⟩ := (reachable_workers h).completions event hmem
  have hissued := (reachable_messages h).entries m hm
  obtain ⟨htask, -⟩ := (reachable_dispatches h).issued hissued
  obtain ⟨r, hr, hrtask, -⟩ := (reachable_attemptIds h).issued hissued
  have hid : event.taskId = createTaskId event.executionId event.nodeId := by
    rw [hreports.taskId, hreports.executionId, hreports.nodeId, htask]
  have hrtask : r.taskId = event.taskId := hrtask.trans hreports.taskId.symm
  refine ⟨r, hid, ?_, hreports.attemptId ▸ hr, hrtask⟩
  rw [hid]
  exact ((reachable_dispatches h).tracked (attempt_some hr).1 (hrtask.trans hid)).1

/-! ## Redelivery -/

/-- One orchestrator takes the event, `process` returns the decision and the transaction commits. -/
structure Processes (cfg : Config) (s : System) (k : Nat) (event : TaskCompletionEvent)
    (decision : TaskCompletionDecision) (t : System) : Prop where
  handling :
    ∃ index, s.handlings[k]? = some ⟨.completion, index, .received⟩ ∧ s.completions.entries[index]? = some event
  readable : readable event = true
  returns : ∃ db, process cfg.policy event (.v4 s.draws) s.now s.db = .ok (decision, db)
  commits : step cfg s (.handle k) = some t

/-- The rows show that the event counts no more: they do so in every later state. -/
def Settled (s : System) (event : TaskCompletionEvent) : Prop :=
  match event.status with
  | .completed => s.db.Ended event.executionId event.nodeId
  | .failed => ∃ r ∈ s.db.taskAttempts, r.failureEventId = some event.eventId ∨
      (r.attemptId = event.attemptId ∧ r.failureEventId.isSome)

theorem AttemptChange.failure_kept {r r' : TaskAttemptRecord} (h : AttemptChange cfg s a r r') {id : Uuid}
    (hid : r.failureEventId = some id) : r'.failureEventId = some id := by
  cases h with
  | failed _ _ _ _ _ _ counts =>
    rw [counts.open'] at hid
    cases hid
  | _ => exact hid

theorem Settled.step (h : Reachable cfg anyStep s) (hstep : step cfg s a = some t) (hs : Settled s event) :
    Settled t event := by
  unfold Settled at *
  cases hst : event.status with
  | completed =>
    rw [hst] at hs
    exact (reachable_advances h hstep).ended (reachable_consistent h).sound hs
  | failed =>
    rw [hst] at hs
    obtain ⟨r, hr, hclosed⟩ := hs
    obtain ⟨r', hr', hchange⟩ := (reachable_attemptsStep h (step_effect hstep)).old hr
    refine ⟨r', hr', ?_⟩
    rcases hclosed with hid | ⟨hid, hsome⟩
    · exact .inl (hchange.failure_kept hid)
    · obtain ⟨id, hsome⟩ := Option.isSome_iff_exists.1 hsome
      exact .inr ⟨hchange.id.trans hid, Option.isSome_iff_exists.2 ⟨id, hchange.failure_kept hsome⟩⟩

theorem Settled.later (h : Reachable cfg anyStep t) (hs : Settled t event)
    (hu : Transition.Reachable (System.step cfg) anyStep t u) : Settled u event ∧ Reachable cfg anyStep u := by
  induction hu with
  | start => exact ⟨hs, h⟩
  | next a _ _ hstep ih => exact ⟨Settled.step ih.2 hstep ih.1, .next a ih.2 trivial hstep⟩

theorem Processes.settled (h : Reachable cfg anyStep s) (hp : Processes cfg s k event decision t) :
    Settled t event := by
  obtain ⟨⟨index, handling, entry⟩, readable, ⟨db, returns⟩, commits⟩ := hp
  have hdb : t.db = db := by
    simp only [System.step, handle, handling, handleCompletion, entry, readable, returns, if_true,
      Option.some.injEq] at commits
    rw [← commits]
  have hmem := List.mem_of_getElem? entry
  obtain ⟨r, hnames⟩ := published_names h hmem
  have hprocessed := (process_ok (reachable_consistent h).sound (reachable_consistent h).runs returns).2
  unfold Settled
  rw [hdb]
  cases hst : event.status with
  | completed =>
    refine processed_completed hprocessed hst ?_
    exact ((reachable_dispatches h).tracked (attempt_some hnames.attempt).1 (hnames.task.trans hnames.id)).2
  | failed =>
    rcases processed_failed hprocessed hst hnames with ⟨-, hsame, hknown⟩ | ⟨-, r', hr', hid⟩
    · rw [hsame]
      simp only [Known, hst] at hknown
      rcases hknown with ⟨r', hr', hid⟩ | hclosed | ⟨-, hother⟩
      · exact ⟨r', hr', .inl hid⟩
      · exact ⟨r, (attempt_some hnames.attempt).1, .inr ⟨(attempt_some hnames.attempt).2, hclosed⟩⟩
      · -- the row holds another result, so this attempt had been closed
        obtain ⟨hr, hrid⟩ := attempt_some hnames.attempt
        rcases (reachable_outcomes h).out event (.published hmem) r hr hrid with hmatches | ⟨-, hclosed⟩
        · exact absurd hmatches.id hother
        · exact ⟨r, hr, .inr ⟨hrid, hclosed⟩⟩
    · exact ⟨r', (attempt_some hr').1, .inl hid⟩

/-- A settled event of the stream is known to its rows. -/
theorem Settled.known (h : Reachable cfg anyStep s) (hs : Settled s event) (hmem : event ∈ s.completions.entries)
    {r : TaskAttemptRecord} (hnames : Names event s.db r) : Known event s.db r := by
  obtain ⟨hr, hrid⟩ := attempt_some hnames.attempt
  unfold Settled at hs
  unfold Known
  cases hst : event.status with
  | completed => exact .inl ((reachable_outcomes h).success hmem hst hr hrid).id
  | failed =>
    rw [hst] at hs
    obtain ⟨r', hr', hid | ⟨hid, hclosed⟩⟩ := hs
    · exact .inl ⟨r', hr', hid⟩
    · obtain rfl := (reachable_attemptIds h).keyed.ext hr' hr (hid.trans hrid.symm)
      exact .inr (.inl hclosed)

theorem completions_later (hu : Transition.Reachable (step cfg) anyStep t u) (hmem : event ∈ t.completions.entries) :
    event ∈ u.completions.entries := by
  induction hu with
  | start => exact hmem
  | next a _ _ hstep ih => exact (step_effect hstep).completion_mono ih

/-- Whatever happens after an event was processed, its redelivery is a duplicate and changes
nothing, exactly when the instant of a retry can still be computed: `process` computes it for
every failure, also for one that it is about to turn away. -/
theorem redelivery_iff (h : Reachable cfg anyStep s) (hp : Processes cfg s k event decision t)
    (hu : Transition.Reachable (step cfg) anyStep t u) (next : Uuid) (now : Time) :
    process cfg.policy event next now u.db = .ok (duplicateDecision event, u.db) ↔
      (event.status = .failed → ∃ at', retryAt cfg.policy now event.attemptNumber = .ok at') := by
  constructor
  · intro hprocess hfailed
    obtain ⟨-, -, at', -, -, hat⟩ := process_timed hprocess hfailed
    exact ⟨at', hat⟩
  · intro hretry
    obtain ⟨index, -, entry⟩ := hp.handling
    have ht : Reachable cfg anyStep t := .next _ h trivial hp.commits
    obtain ⟨hsettled, hur⟩ := (hp.settled h).later ht hu
    have hmem := completions_later hu ((step_effect hp.commits).completion_mono (List.mem_of_getElem? entry))
    obtain ⟨r, hnames⟩ := published_names hur hmem
    obtain ⟨-, hst⟩ := (reachable_dispatches hur).tracked (attempt_some hnames.attempt).1 (hnames.task.trans hnames.id)
    obtain ⟨existing, hnode⟩ := exists_node_of_started hst
    refine process_known (reachable_consistent hur).sound hnames hnode (fun hcompleted hrunning => ?_)
      (hsettled.known hur hmem hnames) fun hfailed => ?_
    · unfold Settled at hsettled
      rw [hcompleted] at hsettled
      exact hsettled.not_running ((status_of_node hnode).trans hrunning)
    · obtain ⟨at', hat⟩ := hretry hfailed
      cases ((reachable_workers hur).completions event hmem).built with
      | completed status => rw [hfailed] at status; cases status
      | failed _ _ message type => exact ⟨_, _, at', message, type, hat⟩

/-- The failure of `fetch` is published and delivered to an orchestrator. -/
def boomDelivered (cfg : Config) : System := reached cfg (fetched (.failure "boom" "RuntimeError")).dropLast

/-- The failure has been processed, and `later` has happened since. -/
def boomProcessed (cfg : Config) (later : List Action) : System :=
  reached cfg (fetched (.failure "boom" "RuntimeError") ++ later)

/-- The delivered failure is processed; `outcome` is what `process` returned. -/
theorem boomProcessed_processes {cfg : Config} {outcome : TaskCompletionOutcome}
    (handling : (boomDelivered cfg).handlings[0]? = some ⟨.completion, 0, .received⟩)
    (entry : (boomDelivered cfg).completions.entries[0]? = some boom)
    (returns : (process cfg.policy boom (.v4 (boomDelivered cfg).draws) (boomDelivered cfg).now
      (boomDelivered cfg).db).map (·.1.outcome) = .ok outcome)
    (commits : step cfg (boomDelivered cfg) (.handle 0) = some (boomProcessed cfg [])) :
    ∃ decision, Processes cfg (boomDelivered cfg) 0 boom decision (boomProcessed cfg []) ∧
      decision.outcome = outcome := by
  cases hprocess :
    process cfg.policy boom (.v4 (boomDelivered cfg).draws) (boomDelivered cfg).now (boomDelivered cfg).db with
  | error e => rw [hprocess] at returns; cases returns
  | ok result =>
    rw [hprocess] at returns
    exact ⟨result.1, ⟨⟨0, handling, entry⟩, by decide +kernel, ⟨result.2, hprocess⟩, commits⟩, Except.ok.inj returns⟩

/-- The first failure of `fetch` schedules a retry; once this is published the failure comes again. -/
theorem redelivery_retried :
    ∃ decision u, Processes retryConfig (boomDelivered retryConfig) 0 boom decision (boomProcessed retryConfig []) ∧
      decision.outcome = .retryScheduled ∧
      Transition.Reachable (step retryConfig) anyStep (boomProcessed retryConfig []) u ∧
      u.db.taskAttempts.map (·.status) = [.failed, .queued] ∧
      process retryConfig.policy boom (.v4 u.draws) u.now u.db = .ok (duplicateDecision boom, u.db) := by
  obtain ⟨decision, hprocesses, houtcome⟩ := @boomProcessed_processes retryConfig .retryScheduled (by decide +kernel)
    (by decide +kernel) (by decide +kernel) (by decide +kernel)
  have hu : Transition.Reachable (step retryConfig) anyStep (boomProcessed retryConfig [])
      (boomProcessed retryConfig [.tick 1000000, .readRetries, .publishRetry 0, .markRetry (.v4 5)]) :=
    @reachable_run _ _ _ [.tick 1000000, .readRetries, .publishRetry 0, .markRetry (.v4 5)] (by decide +kernel)
  exact ⟨decision, _, hprocesses, houtcome, hu, by decide +kernel,
    (redelivery_iff (reachable_reached _ _) hprocesses hu _ _).2 fun _ => ⟨2000000, by decide +kernel⟩⟩

/-- Retries are due in the last second a `datetime` can hold. -/
def lateConfig : Config :=
  { retryConfig with
    policy := { retryConfig.policy with
      initialDelaySeconds := 253402300799
      backoffMultiplier := 1
      initialDelay_nonneg := by decide +kernel
      multiplier_ge_one := by decide +kernel } }

/-- A second later the instant of the retry is out of range, and the duplicate raises. -/
theorem redelivery_counterexample :
    ∃ decision u, Reachable lateConfig anyStep (boomDelivered lateConfig) ∧
      Processes lateConfig (boomDelivered lateConfig) 0 boom decision (boomProcessed lateConfig []) ∧
      Transition.Reachable (step lateConfig) anyStep (boomProcessed lateConfig []) u ∧
      process lateConfig.policy boom (.v4 u.draws) u.now u.db = .error (.overflowError "date value out of range") := by
  obtain ⟨decision, hprocesses, -⟩ := @boomProcessed_processes lateConfig .retryScheduled (by decide +kernel)
    (by decide +kernel) (by decide +kernel) (by decide +kernel)
  exact ⟨decision, boomProcessed lateConfig [.tick 1000000], reachable_reached _ _, hprocesses,
    @reachable_run _ _ _ [.tick 1000000] (by decide +kernel), by decide +kernel⟩

/-! ## Events of ended nodes -/

/-- An event for any attempt of an ended node is a duplicate and changes nothing exactly when
the attempts already know it, and when the instant of a retry exists. The node's own status is
looked at too late to decide. -/
theorem ended_node_iff (h : Reachable cfg anyStep s) (hended : s.db.Ended event.executionId event.nodeId)
    (hevent : event.taskId = createTaskId event.executionId event.nodeId) {r : TaskAttemptRecord}
    (hr : s.db.getAttempt event.attemptId = some r) (htask : r.taskId = event.taskId) (next : Uuid) (now : Time) :
    process cfg.policy event next now s.db = .ok (duplicateDecision event, s.db) ↔
      Known event s.db r ∧ Timed cfg.policy now event := by
  have hc := reachable_consistent h
  obtain ⟨htracked, hst⟩ := (reachable_dispatches h).tracked (attempt_some hr).1 (htask.trans hevent)
  have hnames : Names event s.db r := ⟨hevent, hevent ▸ htracked, hr, htask⟩
  constructor
  · intro hprocess
    exact ⟨processed_known (process_ok hc.sound hc.runs hprocess).2 rfl rfl hnames hended, process_timed hprocess⟩
  · rintro ⟨hknown, htimed⟩
    obtain ⟨existing, hnode⟩ := exists_node_of_started hst
    exact process_known hc.sound hnames hnode
      (fun _ hrunning => hended.not_running ((status_of_node hnode).trans hrunning)) hknown htimed

/-- A policy with two retries. -/
def twoRetriesConfig : Config := sampleRetries 2

/-- The failure of `fetch` was processed before its worker could mark the attempt, so the entry
is claimed and run again, and now succeeds: the node is completed while attempt 2 is due. -/
def completedLate : List Action :=
  boomRecorded ++ ([.work 0 (.success .null), .deliverCompletion "orchestrator", .handle 0, .work 0 (.success .null),
    .tick 60000000, .reclaimTask "second" 0, .work 0 (.success .null), .work 0 (.success .null),
    .work 0 (.success .null),
    .work 0 (.success .null), .work 0 (.success .null), .deliverCompletion "orchestrator", .handle 1] : List Action)

/-- The redelivered failure finds its node completed, and is a duplicate. -/
theorem ended_node_completed :
    let s := reached twoRetriesConfig completedLate
    s.db.status (.v4 1) "fetch" = .completed ∧
      process twoRetriesConfig.policy boom (.v4 s.draws) s.now s.db = .ok (duplicateDecision boom, s.db) := by
  intro s
  have hrow : ∃ r, s.db.getAttempt boom.attemptId = some r ∧ r.taskId = boom.taskId ∧ Known boom s.db r := by
    have hsome :
        (s.db.getAttempt boom.attemptId).any (fun r => decide (r.taskId = boom.taskId ∧ Known boom s.db r)) =
        true := by
      decide +kernel
    obtain ⟨r, hr, hp⟩ := (Option.any_eq_true _ _).1 hsome
    exact ⟨r, hr, of_decide_eq_true hp⟩
  obtain ⟨r, hr, htask, hknown⟩ := hrow
  have hcompleted : s.db.status (.v4 1) "fetch" = .completed := by decide +kernel
  exact ⟨hcompleted, (ended_node_iff (reachable_reached _ _) (.inl hcompleted) rfl hr htask _ _).2
    ⟨hknown, fun _ => ⟨"boom", "RuntimeError", 61000000, rfl, rfl, by decide +kernel⟩⟩⟩

/-- The failure of the second attempt of `fetch`. -/
def again : TaskCompletionEvent :=
  ⟨.v4 8, createTaskId (.v4 1) "fetch", .v4 5, 2, .v4 1, "fetch", .failed, .null, some "again", some "RuntimeError"⟩

/-- Attempt 2 is published, run by a worker and fails; its event is delivered. -/
def failsLate : List Action :=
  completedLate ++
    ([.readRetries, .publishRetry 0, .markRetry (.v4 5), .deliverTask "worker", .work 1 (.success .null),
    .work 1 (.success .null), .work 1 (.failure "again" "RuntimeError"), .work 1 (.success .null),
    .work 1 (.success .null), .deliverCompletion "orchestrator"] : List Action)

/-- The node is completed, and the failure of attempt 2 schedules attempt 3. -/
theorem ended_node_counterexample :
    let s := reached twoRetriesConfig failsLate
    Reachable twoRetriesConfig anyStep s ∧ again ∈ s.completions.entries ∧ s.db.status (.v4 1) "fetch" = .completed ∧
      (process twoRetriesConfig.policy again (.v4 s.draws) s.now s.db).map
        (fun result => (result.1.outcome, result.2.taskAttempts.map (·.attemptNumber))) =
        .ok (.retryScheduled, [1, 2, 3]) := by
  exact ⟨reachable_reached _ _, by decide +kernel, by decide +kernel, by decide +kernel⟩

end System

end WorkflowEngine
