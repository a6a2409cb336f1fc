import WorkflowEngine.Interpreter
import WorkflowEngine.Lib.Variant
import WorkflowEngine.RoundTrip

/-!
# Termination

Left to itself the engine comes to rest. Whatever has happened before, steps that take the work at
hand further lower a number: what is in the streams and with the processes, the rows that wait for
publication, and all that nodes and attempts may still bring about are counted in steps. Where no
such step is possible nothing is left to do, and then the results are those of the interpreter.
-/
namespace WorkflowEngine

open Database

/-! ## Costs -/

/-- No workflow has more nodes, and no ready set. -/
def Database.breadth (db : Database) : Nat := Table.weight (·.nodes.length) db.workflows

/-- An entry of the orchestrator: its delivery, its handling, the reading and the dispatch of the
ready nodes, their end and the acknowledgement. -/
def entryCost (b : Nat) : Nat := b + 5

/-- An entry of a worker: its delivery, seven steps and the completion. -/
def taskCost (b : Nat) : Nat := entryCost b + 8

/-- A row of the outbox: its publication, the mark and the entry. -/
def rowCost (b : Nat) : Nat := taskCost b + 2

/-- A retry: it becomes due, is read, published and marked, and its entry. -/
def retryCost (b : Nat) : Nat := taskCost b + 4

def HandlingPhase.cost (b : Nat) : HandlingPhase → Nat
  | .received => b + 4
  | .evaluated _ _ => b + 3
  | .dispatching _ nodes => nodes.length + 2
  | .raised _ nodes => nodes.length + 1
  | .dispatched => 1

def TaskPhase.cost (b : Nat) : TaskPhase → Nat
  | .received => entryCost b + 7
  | .claimed => entryCost b + 6
  | .executing _ => entryCost b + 5
  | .executed _ => entryCost b + 4
  | .replaying => entryCost b + 4
  | .recorded _ => entryCost b + 3
  | .published _ => 2
  | .acknowledging => 1

/-- A pending node may be claimed, which gives it a task with a first attempt, and end. -/
def NodeExecutionStatus.cost (maxAttempts b : Nat) : NodeExecutionStatus → Nat
  | .pending => (maxAttempts - 1) * retryCost b + 2 * rowCost b
  | .running => rowCost b
  | .completed => 0
  | .failed => 0

/-- A pending execution may be triggered and end, each with an event. -/
def WorkflowExecutionStatus.cost (b : Nat) : WorkflowExecutionStatus → Nat
  | .pending => 2 * rowCost b
  | .running => rowCost b
  | .completed => 0
  | .failed => 0

/-- An attempt that has not failed may fail, and its successors. -/
def TaskAttemptRecord.cost (maxAttempts b : Nat) (r : TaskAttemptRecord) : Nat :=
  if r.failureEventId.isSome then 0 else (maxAttempts - r.attemptNumber) * retryCost b

/-! ## Transactions -/

namespace Database

variable {db db' db₁ : Database} {e : Uuid} {x : WorkflowExecutionRecord} {now : Time} {M b : Nat}
  {row : OutboxEventRecord → Nat} {retry : TaskRetryDispatchRecord → Nat} {event : TaskCompletionEvent}

/-- What nodes and executions may still bring about, with the rows of the outbox. -/
def runsLeft (M b : Nat) (row : OutboxEventRecord → Nat) (db : Database) : Nat :=
  Table.weight (fun r => r.status.cost M b) db.nodeExecutions + Table.weight (fun x => x.status.cost b)
    db.workflowExecutions + Table.weight row db.outboxEvents

/-- What attempts may still bring about, with the retries. -/
def retriesLeft (M b : Nat) (retry : TaskRetryDispatchRecord → Nat) (db : Database) : Nat :=
  Table.weight (TaskAttemptRecord.cost M b) db.taskAttempts + Table.weight retry db.taskRetryDispatches

theorem SameRuns.runsLeft (h : SameRuns db db') : db'.runsLeft M b row = db.runsLeft M b row := by
  rw [Database.runsLeft, Database.runsLeft, h.nodes, h.executions, h.outbox]

theorem runsLeft_pushOutbox (hrow : ∀ r, row r ≤ rowCost b) (rows : List OutboxEventRecord) :
    (db.pushOutbox rows).runsLeft M b row ≤ db.runsLeft M b row + rowCost b * rows.length := by
  have := Table.weight_le (t := rows) fun r _ => hrow r
  simp only [runsLeft, pushOutbox, Table.weight_append]
  omega

variable (db e now M b row) in
theorem runsLeft_failPendingNodes (ids : List String) (reason : String) :
    (db.failPendingNodes e ids reason now).2.runsLeft M b row +
      rowCost b * (db.failPendingNodes e ids reason now).1.length ≤ db.runsLeft M b row := by
  unfold failPendingNodes
  split
  · simp
  · have := Table.weight_updateWhere (c := fun r : NodeExecutionRecord => r.status.cost M b) (t := db.nodeExecutions)
      (p := pendingNode e ids) (w := rowCost b) (f := fun r => { r with
        status := .failed, errorMessage := some reason, errorType := some "FailedDependency",
          completedAt := some now })
      fun r _ hp => by
        have hpending := (of_decide_eq_true hp).2.2
        simp only [hpending, NodeExecutionStatus.cost]
        omega
    simp only [runsLeft, Table.returning, List.length_map, ← List.countP_eq_length_filter]
    omega

theorem countP_pos_of_any {α : Type} {p : α → Bool} {l : List α} (h : l.any p = true) : 0 < l.countP p := by
  obtain ⟨r, hr, hp⟩ := List.any_eq_true.1 h
  exact List.countP_pos_iff.2 ⟨r, hr, hp⟩

variable (row) in
/-- A running node that ends leaves room for its event. -/
theorem runsLeft_updateNodeIfCurrent {i : String} {target : NodeExecutionStatus} {output : Option Json}
    {errorMessage errorType : Option String} {startedAt completedAt : Option Time} (htarget : target.cost M b = 0)
    (hupdated : (db.updateNodeIfCurrent e i .running target output errorMessage errorType startedAt completedAt).1 =
      true) :
    (db.updateNodeIfCurrent e i .running target output errorMessage errorType startedAt completedAt).2.runsLeft M b
      row + rowCost b ≤ db.runsLeft M b row := by
  have hpos := countP_pos_of_any hupdated
  have := Table.weight_updateWhere (c := fun r : NodeExecutionRecord => r.status.cost M b) (t := db.nodeExecutions)
    (p := fun r => decide (r.workflowExecutionId = e ∧ r.nodeId = i ∧ r.status = .running)) (w := rowCost b)
    (f := fun r => { r with
      status := target
      outputData := output.getD r.outputData
      errorMessage := errorMessage.or r.errorMessage
      errorType := errorType.or r.errorType
      startedAt := startedAt.or r.startedAt
      completedAt := completedAt.or r.completedAt })
    fun r _ hp => by
      have hrunning := (of_decide_eq_true hp).2.2
      change target.cost M b + rowCost b ≤ r.status.cost M b
      rw [hrunning, htarget]
      exact (Nat.zero_add _).le
  have hle := Nat.mul_le_mul_left (rowCost b) hpos
  simp only [runsLeft, updateNodeIfCurrent]
  omega

variable (M row) in
theorem runsLeft_updateExecutionIfCurrent {expected new : WorkflowExecutionStatus}
    {startedAt completedAt : Option Time} {input : Option (Dict Json)}
    (hcost : new.cost b + rowCost b ≤ expected.cost b)
    (hupdated : (db.updateExecutionIfCurrent e expected new startedAt completedAt input).1 = true) :
    (db.updateExecutionIfCurrent e expected new startedAt completedAt input).2.runsLeft M b row + rowCost b ≤
      db.runsLeft M b row := by
  have hpos := countP_pos_of_any hupdated
  have := Table.weight_updateWhere (c := fun x : WorkflowExecutionRecord => x.status.cost b)
    (t := db.workflowExecutions) (p := fun x => decide (x.executionId = e ∧ x.status = expected)) (w := rowCost b)
    (f := fun x => { x with
      status := new
      startedAt := startedAt.or x.startedAt
      completedAt := completedAt.or x.completedAt
      inputData := input.getD x.inputData })
    fun x _ hp => by
      have hexpected := (of_decide_eq_true hp).2
      simp only [hexpected]
      exact hcost
  have hle := Nat.mul_le_mul_left (rowCost b) hpos
  simp only [runsLeft, updateExecutionIfCurrent]
  omega

section services

variable (hrow : ∀ r, row r ≤ rowCost b)

include hrow

theorem addMessage_left {messageId aggregateId : Uuid} {messageType : MessageType} {targetStream : StreamName}
    {payload : OutboxPayload}
    (h : db.addMessage messageId messageType targetStream aggregateId payload now = .ok db') :
    db'.runsLeft M b row ≤ db.runsLeft M b row + rowCost b := by
  rw [addMessage_ok h]
  simpa using runsLeft_pushOutbox hrow [outboxRow messageId messageType targetStream aggregateId payload now]

theorem finalizeAs_left {correlationId : Uuid} {new : WorkflowExecutionStatus} {messageType : MessageType}
    (hnew : new.cost b = 0) (h : finalizeAs e correlationId new messageType now db = .ok db') :
    db'.runsLeft M b row ≤ db.runsLeft M b row := by
  unfold finalizeAs at h
  dsimp only at h
  split at h
  · rename_i hupdated
    have := runsLeft_updateExecutionIfCurrent M row (by rw [hnew]; exact (Nat.zero_add _).le) hupdated
    have := addMessage_left (M := M) hrow h
    omega
  · rename_i hfalse
    rw [Bool.not_eq_true] at hfalse
    cases h
    rw [updateExecutionIfCurrent_false hfalse]

theorem evaluateFinalization_left {correlationId : Uuid}
    (h : evaluateFinalization e x correlationId now db = .ok db') :
    db'.runsLeft M b row ≤ db.runsLeft M b row := by
  simp only [evaluateFinalization] at h
  split at h
  · exact finalizeAs_left hrow rfl h
  · split at h
    · cases h
    · split at h
      · exact finalizeAs_left hrow rfl h
      · cases h
        exact le_rfl

/-- Each node that fails with the event pays for its own announcement. -/
theorem propagateFailure_left {rows : List NodeExecutionRecord} (h : propagateFailure event x rows now db = .ok db') :
    db'.runsLeft M b row ≤ db.runsLeft M b row := by
  unfold propagateFailure at h
  split at h
  · cases h
  · obtain ⟨blocked, -, h⟩ := Except.bind_eq_ok.1 h
    have hfailed := runsLeft_failPendingNodes db event.executionId now M b row blocked (dependencyReason event.nodeId)
    obtain rfl := announceFailures_ok _ h
    refine (runsLeft_pushOutbox hrow _).trans ?_
    rw [List.length_map]
    exact hfailed

theorem afterUpdate_left {rows : List NodeExecutionRecord} {decision : TaskCompletionDecision}
    (h : afterUpdate event x rows now db = .ok (decision, db')) :
    db'.runsLeft M b row ≤ db.runsLeft M b row + rowCost b := by
  obtain ⟨db₁, db₂, h₁, h₂, h₃⟩ := afterUpdate_steps h
  have hfirst : db₁.runsLeft M b row ≤ db.runsLeft M b row := by
    rcases h₁ with ⟨-, h₁⟩ | rfl
    · exact propagateFailure_left hrow h₁
    · exact le_rfl
  have := addMessage_left (M := M) hrow h₂
  have := evaluateFinalization_left (M := M) hrow h₃
  omega

theorem completeNode_left {rows : List NodeExecutionRecord} {existing : NodeExecutionRecord}
    {decision : TaskCompletionDecision} (h : completeNode event x rows existing now db = .ok (decision, db')) :
    db'.runsLeft M b row ≤ db.runsLeft M b row := by
  rcases completeNode_steps h with rfl | ⟨output, errorMessage, errorType, hupdated, h⟩
  · exact le_rfl
  · have := runsLeft_updateNodeIfCurrent (M := M) (b := b) row (by cases event.status <;> rfl) hupdated
    have := afterUpdate_left (M := M) hrow h
    omega

theorem process_runsLeft {policy : RetryPolicy} {next : Uuid} {decision : TaskCompletionDecision}
    (h : process policy event next now db = .ok (decision, db')) : db'.runsLeft M b row ≤ db.runsLeft M b row := by
  obtain ⟨db₁, hsame, rfl | ⟨x, rows, existing, h⟩⟩ := process_steps h
  · exact hsame.runsLeft.le
  · exact (completeNode_left hrow h).trans hsame.runsLeft.le

theorem triggerCommit_left {input : Option (Dict Json)} {messageId : Uuid}
    (h : triggerCommit x input messageId now db = .ok db') : db'.runsLeft M b row ≤ db.runsLeft M b row := by
  unfold triggerCommit at h
  dsimp only at h
  split at h
  · rename_i hupdated
    have := @runsLeft_updateExecutionIfCurrent _ _ M b row _ _ _ _ _
        (by simp only [WorkflowExecutionStatus.cost]; omega) hupdated
    have := addMessage_left (M := M) hrow h
    omega
  · cases h

variable (x now M retry) in
/-- A claimed node pays for its first attempt and its message. -/
theorem registered_left {n : WorkflowNode} (input : Dict Json) (attemptId : Uuid)
    (hpending : db.nodeExecutions.any (pendingNode e [n.id]) = true) :
    (registered x n input attemptId now (db.claimPendingNodes e [n.id] now).2).runsLeft M b row +
      (registered x n input attemptId now (db.claimPendingNodes e [n.id] now).2).retriesLeft M b retry ≤
      db.runsLeft M b row + db.retriesLeft M b retry := by
  have hpos := countP_pos_of_any hpending
  have hnodes :=
    Table.weight_updateWhere (c := fun r : NodeExecutionRecord => r.status.cost M b) (t := db.nodeExecutions)
      (p := pendingNode e [n.id]) (w := (M - 1) * retryCost b + rowCost b)
      (f := fun r => { r with status := .running, startedAt := some now })
      fun r _ hp => by
        have hpending := (of_decide_eq_true hp).2.2
        simp only [hpending, NodeExecutionStatus.cost]
        omega
  have hle := Nat.mul_le_mul_left ((M - 1) * retryCost b + rowCost b) hpos
  have hmessage := hrow (taskRow x n input attemptId now)
  have hattempt : (initialAttempt attemptId (createTaskId x.executionId n.id) now).cost M b = (M - 1) * retryCost b :=
    rfl
  simp only [runsLeft, retriesLeft, registered, pushOutbox, claimPendingNodes, List.isEmpty_cons,
    Bool.false_eq_true, if_false, Table.weight_append, Table.weight_cons, Table.weight_nil, hattempt]
  omega

end services

/-- An update that leaves number and failure alone. -/
theorem retriesLeft_updateWhere {p : TaskAttemptRecord → Bool} {f : TaskAttemptRecord → TaskAttemptRecord}
    (hf : ∀ r, (f r).failureEventId = r.failureEventId ∧ (f r).attemptNumber = r.attemptNumber) :
    Table.weight (TaskAttemptRecord.cost M b) (Table.updateWhere p f db.taskAttempts) =
      Table.weight (TaskAttemptRecord.cost M b) db.taskAttempts :=
  Table.weight_updateWhere_eq fun r _ => by rw [TaskAttemptRecord.cost, TaskAttemptRecord.cost, (hf r).1, (hf r).2]

variable (now M b) in
/-- A failure that counts frees what the attempt may still have brought about. -/
theorem failedWith_left {r : TaskAttemptRecord} {t a ev : Uuid} (h : FailureCounts t a ev db r)
    (errorMessage errorType : String) :
    Table.weight (TaskAttemptRecord.cost M b)
      (db.updateAttempt a (failedWith ev errorMessage errorType now)).taskAttempts +
      (M - r.attemptNumber) * retryCost b ≤ Table.weight (TaskAttemptRecord.cost M b) db.taskAttempts := by
  have hmem := attempt_some h.attempt
  have hcost : r.cost M b = (M - r.attemptNumber) * retryCost b := by
    rw [TaskAttemptRecord.cost, h.open']
    rfl
  rw [updateAttempt, Table.updateWhere, Table.weight, List.map_map]
  refine Table.weight_add_le (c := TaskAttemptRecord.cost M b ∘ fun r => if decide (r.attemptId = a) then
    failedWith ev errorMessage errorType now r else r) (fun r' _ => ?_) hmem.1 ?_
  · dsimp only [Function.comp]
    split
    · exact Nat.zero_le _
    · exact le_rfl
  · dsimp only [Function.comp]
    rw [if_pos (decide_eq_true hmem.2), ← hcost]
    exact (Nat.zero_add _).le

end Database

/-- A retry is one of the attempts that were left. -/
theorem Consulted.left {policy : RetryPolicy} {event : TaskCompletionEvent}
    {existing : NodeExecutionRecord} {next : Uuid} {now : Time} {db db' : Database}
    {early : Option TaskCompletionDecision} {b : Nat} {retry : TaskRetryDispatchRecord → Nat}
    (hretry : ∀ d, retry d ≤ retryCost b)
    (h : Consulted policy event existing next now db early db') :
    db'.retriesLeft policy.maxAttempts b retry ≤ db.retriesLeft policy.maxAttempts b retry := by
  cases h with
  | success =>
    refine Nat.add_le_add_right (Nat.le_of_eq ?_) _
    exact retriesLeft_updateWhere fun _ => ⟨rfl, rfl⟩
  | @exhausted r errorMessage errorType _ _ _ counts =>
    have := failedWith_left now policy.maxAttempts b counts errorMessage errorType
    simp only [retriesLeft, updateLogicalTask, updateAttempt] at this ⊢
    omega
  | @retry r errorMessage errorType at' _ _ _ counts more =>
    have := failedWith_left now policy.maxAttempts b counts errorMessage errorType
    have hnew := hretry ⟨next, at', .pending, none⟩
    have hcost : (scheduledAttempt next event.taskId (r.attemptNumber + 1) at').cost policy.maxAttempts b =
        (policy.maxAttempts - (r.attemptNumber + 1)) * retryCost b := rfl
    have hsplit : (policy.maxAttempts - r.attemptNumber) * retryCost b =
        (policy.maxAttempts - (r.attemptNumber + 1)) * retryCost b + retryCost b := by
      rw [← Nat.succ_mul]
      congr 1
      omega
    simp only [retriesLeft, scheduleRetry, updateLogicalTask, updateAttempt, Table.weight_append, Table.weight_cons,
      Table.weight_nil, hcost] at this ⊢
    omega
  | _ => exact le_rfl

/-! ## Steps -/

namespace System

variable {cfg : Config} {s t : System} {a : Action} {b : Nat}

/-- The steps that take the work at hand further. A message is published once, a retry is read
once, and time passes until a retry becomes due. Requests from outside, deliveries that come again,
crashes, renewals and the cleanup are not among them. -/
def productive (s : System) : Action → Bool
  | .commitTrigger k => decide (k < s.triggers.length)
  | .publishRow messageId => decide (messageId ∉ s.outboxSent)
  | .markRow messageId => s.db.outboxEvents.any fun r => decide (r.messageId = messageId ∧ r.status = .pending)
  | .deliverEvent _ => true
  | .deliverCompletion _ => true
  | .handle _ => true
  | .readReady _ => true
  | .dispatchNode _ _ => true
  | .finishDispatch _ => true
  | .acknowledge _ => true
  | .abandon k => (s.handlings[k]?).any fun h =>
      match h.phase with
      | .raised _ [] => true
      | _ => false
  | .readRetries => (s.db.getDueRetries s.now).any fun m => decide (m.attemptId ∉ s.retriesDue.map (·.attemptId))
  | .publishRetry j => (s.retriesDue[j]?).any fun m => decide (m.attemptId ∉ s.retriesSent) &&
      s.db.taskRetryDispatches.any fun d => decide (d.attemptId = m.attemptId ∧ d.status = .pending)
  | .markRetry attemptId =>
    s.db.taskRetryDispatches.any fun d => decide (d.attemptId = attemptId ∧ d.status = .pending)
  | .deliverTask _ => true
  | .work _ _ => true
  | .tick elapsed => s.db.taskRetryDispatches.any fun d =>
      decide (d.status = .pending ∧ s.now < d.availableAt ∧ d.availableAt ≤ s.now + elapsed)
  | _ => false

def rowLeft (b : Nat) (s : System) (r : OutboxEventRecord) : Nat :=
  match r.status with
  | .pending => if r.messageId ∈ s.outboxSent then 1 else rowCost b
  | .published => 0

def retryLeft (b : Nat) (s : System) (d : TaskRetryDispatchRecord) : Nat :=
  match d.status with
  | .pending =>
    (if s.now < d.availableAt then 1 else 0) + (if d.attemptId ∈ s.retriesDue.map (·.attemptId) then 0 else 1) +
      (if d.attemptId ∈ s.retriesSent then 0 else taskCost b + 1) + 1
  | .published => 0

/-- What the processes hold, and what is in the streams. -/
def inHand (b : Nat) (s : System) : Nat :=
  s.triggers.length + entryCost b * s.events.backlog + entryCost b * s.completions.backlog +
    taskCost b * s.tasks.backlog + Table.weight (·.phase.cost b) s.handlings + Table.weight (·.phase.cost b) s.inFlight

/-- How many steps are left at most, where no workflow has more than `b` nodes. -/
def left (cfg : Config) (b : Nat) (s : System) : Nat :=
  s.db.runsLeft cfg.policy.maxAttempts b (s.rowLeft b) + s.db.retriesLeft cfg.policy.maxAttempts b
    (s.retryLeft b) + s.inHand b

def remaining (cfg : Config) (s : System) : Nat := s.left cfg s.db.breadth

theorem rowLeft_le (r : OutboxEventRecord) : s.rowLeft b r ≤ rowCost b := by
  unfold rowLeft
  split
  · split
    · simp [rowCost]
    · exact le_rfl
  · exact Nat.zero_le _

theorem retryLeft_le (d : TaskRetryDispatchRecord) : s.retryLeft b d ≤ retryCost b := by
  unfold retryLeft
  split
  · split <;> split <;> split <;> simp [retryCost] <;> omega
  · exact Nat.zero_le _

/-- Only what the processes hold has changed. -/
theorem left_of_inHand (hdb : t.db = s.db) (hrow : t.rowLeft b = s.rowLeft b) (hretry : t.retryLeft b = s.retryLeft b)
    (h : t.inHand b < s.inHand b) : t.left cfg b < s.left cfg b := by
  rw [left, left, hdb, hrow, hretry]
  omega

theorem HandlingPhase.cost_pos (phase : HandlingPhase) : 0 < phase.cost b := by
  cases phase <;> simp [HandlingPhase.cost]

theorem TaskPhase.cost_pos (phase : TaskPhase) : 0 < phase.cost b := by
  cases phase <;> simp [TaskPhase.cost]

/-- Nothing is added to the database that it does not pay for itself. -/
theorem left_lt_of_sum (hdb : t.db.runsLeft cfg.policy.maxAttempts b (t.rowLeft b) +
      t.db.retriesLeft cfg.policy.maxAttempts b (t.retryLeft b) ≤
      s.db.runsLeft cfg.policy.maxAttempts b (s.rowLeft b) + s.db.retriesLeft cfg.policy.maxAttempts b (s.retryLeft b))
    (hhand : t.inHand b < s.inHand b) : t.left cfg b < s.left cfg b := by
  rw [left, left]
  omega

theorem left_lt
    (hruns : t.db.runsLeft cfg.policy.maxAttempts b (t.rowLeft b) ≤
      s.db.runsLeft cfg.policy.maxAttempts b (s.rowLeft b))
    (hretries : t.db.retriesLeft cfg.policy.maxAttempts b (t.retryLeft b) ≤
      s.db.retriesLeft cfg.policy.maxAttempts b (s.retryLeft b)) (hhand : t.inHand b < s.inHand b) :
    t.left cfg b < s.left cfg b :=
  left_lt_of_sum (Nat.add_le_add hruns hretries) hhand

theorem inHand_handling {k : Nat} {h g : Handling} (hk : s.handlings[k]? = some h)
    (hlt : g.phase.cost b < h.phase.cost b) :
    ({ s with handlings := s.handlings.set k g } : System).inHand b < s.inHand b := by
  have := Table.weight_set (c := fun h : Handling => h.phase.cost b) hk g
  simp only [inHand]
  omega

theorem inHand_handled {k : Nat} {h : Handling} (hk : s.handlings[k]? = some h) :
    ({ s with handlings := s.handlings.eraseIdx k } : System).inHand b < s.inHand b := by
  have := Table.weight_eraseIdx (c := fun h : Handling => h.phase.cost b) hk
  have := HandlingPhase.cost_pos (b := b) h.phase
  simp only [inHand]
  omega

theorem inHand_setPhase {k : Nat} {f : InFlight} {phase : TaskPhase} (hk : s.inFlight[k]? = some f)
    (hlt : phase.cost b < f.phase.cost b) : (s.setPhase k f phase).inHand b < s.inHand b := by
  have := Table.weight_set (c := fun f : InFlight => f.phase.cost b) hk { f with phase := phase }
  simp only [inHand, setPhase]
  dsimp only at this
  omega

theorem inHand_dropInFlight {k : Nat} {f : InFlight} (hk : s.inFlight[k]? = some f) :
    (s.dropInFlight k).inHand b < s.inHand b := by
  have := Table.weight_eraseIdx (c := fun f : InFlight => f.phase.cost b) hk
  have := TaskPhase.cost_pos (b := b) f.phase
  simp only [inHand, dropInFlight]
  omega

theorem rowLeft_sent {row : OutboxEventRecord} (mem : row ∈ s.db.outboxEvents) (pending : row.status = .pending)
    (unsent : row.messageId ∉ s.outboxSent) (hsent : t.outboxSent = s.outboxSent ++ [row.messageId]) :
    Table.weight (t.rowLeft b) s.db.outboxEvents + (taskCost b + 1) ≤
      Table.weight (s.rowLeft b) s.db.outboxEvents := by
  refine Table.weight_add_le (fun r _ => ?_) mem ?_
  · unfold rowLeft
    cases r.status with
    | published => exact le_rfl
    | pending =>
      dsimp only
      by_cases h : r.messageId ∈ s.outboxSent
      · rw [if_pos h, if_pos (hsent ▸ List.mem_append_left _ h)]
      · rw [if_neg h]
        split
        · simp [rowCost]
        · exact le_rfl
  · simp only [rowLeft, pending, hsent, unsent, List.mem_append, List.mem_singleton, or_true, if_true,
      if_false, rowCost]
    omega

/-- As time passes, and retries are read and sent, no retry costs more. -/
theorem retryLeft_mono (hnow : s.now ≤ t.now)
    (hdue : ∀ id ∈ s.retriesDue.map (·.attemptId), id ∈ t.retriesDue.map (·.attemptId))
    (hsent : ∀ id ∈ s.retriesSent, id ∈ t.retriesSent) (d : TaskRetryDispatchRecord) :
    t.retryLeft b d ≤ s.retryLeft b d := by
  unfold retryLeft
  cases d.status with
  | published => exact le_rfl
  | pending =>
    dsimp only
    refine Nat.add_le_add_right (Nat.add_le_add (Nat.add_le_add ?_ ?_) ?_) 1
    · by_cases h : t.now < d.availableAt
      · rw [if_pos h, if_pos (lt_of_le_of_lt hnow h)]
      · rw [if_neg h]
        exact Nat.zero_le _
    · by_cases h : d.attemptId ∈ s.retriesDue.map (·.attemptId)
      · rw [if_pos h, if_pos (hdue _ h)]
      · rw [if_neg h]
        split <;> simp
    · by_cases h : d.attemptId ∈ s.retriesSent
      · rw [if_pos h, if_pos (hsent _ h)]
      · rw [if_neg h]
        split <;> simp

/-- A step of a worker that updates attempts. -/
theorem left_attempts {p : TaskAttemptRecord → Bool} {f : TaskAttemptRecord → TaskAttemptRecord}
    (hf : ∀ r, (f r).failureEventId = r.failureEventId ∧ (f r).attemptNumber = r.attemptNumber)
    (hdb : t.db = { s.db with taskAttempts := Table.updateWhere p f s.db.taskAttempts })
    (hrow : t.rowLeft b = s.rowLeft b) (hretry : t.retryLeft b = s.retryLeft b) (hhand : t.inHand b < s.inHand b) :
    t.left cfg b < s.left cfg b := by
  refine left_lt ?_ ?_ hhand
  · rw [hdb, hrow]
    exact le_rfl
  · rw [hdb, hretry, retriesLeft, retriesLeft]
    exact Nat.add_le_add_right (retriesLeft_updateWhere hf).le _

theorem breadth_le {w : Workflow} {id : Uuid} (hw : s.db.getWorkflowById id = some w) :
    w.nodes.length ≤ s.db.breadth :=
  Table.le_weight (c := fun w : Workflow => w.nodes.length) (Table.lookup_some hw).1

/-- The publication of one row. -/
theorem left_published {row : OutboxEventRecord} (mem : row ∈ s.db.outboxEvents) (pending : row.status = .pending)
    (unsent : row.messageId ∉ s.outboxSent) (hdb : t.db = s.db)
    (hsent : t.outboxSent = s.outboxSent ++ [row.messageId]) (hretry : t.retryLeft b = s.retryLeft b)
    (hhand : t.inHand b ≤ s.inHand b + taskCost b) :
    t.left cfg b < s.left cfg b := by
  have := rowLeft_sent (b := b) mem pending unsent hsent
  simp only [left, hdb, hretry, runsLeft]
  omega

/-- The mark of a published row. -/
theorem left_marked {rows : List OutboxEventRecord} (hdb : t.db = { s.db with outboxEvents := rows })
    (hrow : t.rowLeft b = s.rowLeft b) (hretry : t.retryLeft b = s.retryLeft b) (hhand : t.inHand b = s.inHand b)
    (hless : Table.weight (s.rowLeft b) rows < Table.weight (s.rowLeft b) s.db.outboxEvents) :
    t.left cfg b < s.left cfg b := by
  simp only [left, hdb, hrow, hretry, hhand, runsLeft, retriesLeft]
  omega

theorem left_markedRetry {retries : List TaskRetryDispatchRecord} {attempts : List TaskAttemptRecord}
    (hdb : t.db = { s.db with taskRetryDispatches := retries, taskAttempts := attempts })
    (hrow : t.rowLeft b = s.rowLeft b) (hretry : t.retryLeft b = s.retryLeft b) (hhand : t.inHand b = s.inHand b)
    (hattempts : Table.weight (TaskAttemptRecord.cost cfg.policy.maxAttempts b) attempts =
      Table.weight (TaskAttemptRecord.cost cfg.policy.maxAttempts b) s.db.taskAttempts)
    (hless : Table.weight (s.retryLeft b) retries < Table.weight (s.retryLeft b) s.db.taskRetryDispatches) :
    t.left cfg b < s.left cfg b := by
  simp only [left, hdb, hrow, hretry, hhand, runsLeft, retriesLeft, hattempts]
  omega

/-- One retry has come nearer to its task, which may be in the stream now. -/
theorem left_retry {d : TaskRetryDispatchRecord} {w : Nat} (hd : d ∈ s.db.taskRetryDispatches) (hdb : t.db = s.db)
    (hrow : t.rowLeft b = s.rowLeft b) (hmono : ∀ d, t.retryLeft b d ≤ s.retryLeft b d)
    (hless : t.retryLeft b d + (w + 1) ≤ s.retryLeft b d) (hhand : t.inHand b ≤ s.inHand b + w) :
    t.left cfg b < s.left cfg b := by
  have := Table.weight_add_le (fun d _ => hmono d) hd hless
  simp only [left, hdb, hrow, retriesLeft]
  omega

/-- Each step that takes the work further lowers what is left. -/
theorem Effect.left_lt (heffect : Effect cfg s a t) (hr : Reachable cfg anyStep s) (ha : productive s a = true)
    (hb : s.db.breadth ≤ b) : t.left cfg b < s.left cfg b := by
  have hc := reachable_consistent hr
  cases heffect with
  | submit | readTrigger | cleanRow | redeliverEvent | redeliverCompletion | reclaimTask | renew | dropTask => cases ha
  | trigger _ commit =>
    obtain ⟨-, rfl⟩ := triggerCommit_ok hc.sound commit
    refine System.left_lt (triggerCommit_left (fun r => rowLeft_le r) commit) le_rfl ?_
    have hk := of_decide_eq_true ha
    simp only [inHand, List.length_eraseIdx_of_lt hk]
    omega
  | triggerLost =>
    refine left_of_inHand rfl rfl rfl ?_
    have hk := of_decide_eq_true ha
    simp only [inHand, List.length_eraseIdx_of_lt hk]
    omega
  | @publishTaskRow row message mem pending =>
    refine left_published mem pending (of_decide_eq_true ha) rfl rfl rfl ?_
    have := Nat.mul_le_mul_left (taskCost b) (GroupStream.backlog_xadd (s := s.tasks) (a := message))
    simp only [inHand]
    rw [Nat.mul_succ] at this
    omega
  | @publishEventRow row mem pending =>
    refine left_published mem pending (of_decide_eq_true ha) rfl rfl rfl ?_
    have := Nat.mul_le_mul_left (entryCost b) (GroupStream.backlog_xadd (s := s.events)
      (a := ⟨row.messageId, row.messageType, row.payload⟩))
    simp only [inHand, taskCost]
    rw [Nat.mul_succ] at this
    omega
  | publishOtherRow mem pending =>
    exact left_published mem pending (of_decide_eq_true ha) rfl rfl rfl (Nat.le_add_right _ _)
  | @markRow messageId =>
    have hpos := countP_pos_of_any ha
    have := Table.weight_updateWhere (c := s.rowLeft b) (t := s.db.outboxEvents) (w := 1)
      (p := fun r => decide (r.messageId = messageId ∧ r.status = .pending))
      (f := fun r => { r with
        status := .published, publishedAt := some s.now, publishAttempts := r.publishAttempts + 1, lastError := none })
      fun r _ hp => by
        simp only [rowLeft, (of_decide_eq_true hp).2]
        split <;> simp [rowCost]
    exact left_marked (by rfl) (by rfl) (by rfl) (by rfl) (by omega)
  | deliverEvent next =>
    refine left_of_inHand (by rfl) (by rfl) (by rfl) ?_
    have := congrArg (entryCost b * ·) (GroupStream.backlog_deliver ‹String› s.now next)
    simp only [inHand, Nat.mul_succ, Table.weight_append, Table.weight_cons, Table.weight_nil, HandlingPhase.cost,
      entryCost] at this ⊢
    omega
  | deliverCompletion next =>
    refine left_of_inHand (by rfl) (by rfl) (by rfl) ?_
    have := congrArg (entryCost b * ·) (GroupStream.backlog_deliver ‹String› s.now next)
    simp only [inHand, Nat.mul_succ, Table.weight_append, Table.weight_cons, Table.weight_nil, HandlingPhase.cost,
      entryCost] at this ⊢
    omega
  | deliverTask next =>
    refine left_of_inHand (by rfl) (by rfl) (by rfl) ?_
    have := congrArg (taskCost b * ·) (GroupStream.backlog_deliver ‹String› s.now next)
    simp only [inHand, Nat.mul_succ, Table.weight_append, Table.weight_cons, Table.weight_nil, TaskPhase.cost,
      taskCost] at this ⊢
    omega
  | evaluate handling =>
    exact left_of_inHand (by rfl) (by rfl) (by rfl) (inHand_handling handling (Nat.lt_succ_self _))
  | evaluateRaised handling | processRaised handling | readRaised handling =>
    exact left_of_inHand (by rfl) (by rfl) (by rfl) (inHand_handled handling)
  | skip handling | readEmpty handling | finishDispatch handling =>
    exact left_of_inHand (by rfl) (by rfl) (by rfl) (inHand_handling handling (by simp [HandlingPhase.cost]))
  | process handling _ _ processed =>
    refine System.left_lt (process_runsLeft (fun r => rowLeft_le r) processed) ?_ ?_
    · obtain ⟨existing, early, db₁, hconsult, -, hattempts, hretries⟩ :=
        (process_ok hc.sound hc.runs processed).2.consulted
      refine le_trans (Nat.le_of_eq ?_) (hconsult.left fun d => retryLeft_le d)
      rw [retriesLeft, retriesLeft, hattempts, hretries]
      rfl
    · exact inHand_handling (s := { s with db := _, draws := _ }) handling (Nat.lt_succ_self _)
  | @read k index source e ready x nodes handling _ reads =>
    refine left_of_inHand (by rfl) (by rfl) (by rfl) (inHand_handling handling ?_)
    have : nodes.length ≤ b := by
      unfold readyNodes at reads
      split at reads
      · cases reads
      · split at reads
        · cases reads
        · rename_i w hw
          cases reads
          exact (List.length_filter_le _ _).trans ((breadth_le hw).trans hb)
    simp only [HandlingPhase.cost]
    omega
  | @dispatch k j h x nodes n phase result db handling toDispatch node dispatched phase_eq =>
    have hj := (List.getElem?_eq_some_iff.1 node).1
    have hlt : phase.cost b < h.phase.cost b := by
      rcases phase_eq with ⟨hphase, rfl⟩ | ⟨hphase, rfl⟩ <;>
        simp only [hphase, HandlingPhase.cost, List.length_eraseIdx_of_lt hj] <;> omega
    rcases dispatch_cases hc (reachable_dispatches hr) handling toDispatch node dispatched with
      ⟨rfl, -⟩ | ⟨r, input, hnode, hpending, -, -, rfl⟩
    · exact left_of_inHand (by rfl) (by rfl) (by rfl)
        (inHand_handling (s := { s with draws := _, history := _ }) handling hlt)
    · have hany : s.db.nodeExecutions.any (pendingNode x.executionId [n.id]) = true := by
        obtain ⟨hmem, he, hi⟩ := node_some hnode
        exact List.any_eq_true.2 ⟨r, hmem, decide_eq_true ⟨he, List.mem_singleton.2 hi, hpending⟩⟩
      have hdb := registered_left x s.now cfg.policy.maxAttempts (s.retryLeft b)
        (fun r => rowLeft_le (b := b) (s := s) r) input (.v4 s.draws) hany
      refine left_lt_of_sum hdb ?_
      exact inHand_handling (s := { s with db := _, draws := _, history := _ }) handling hlt
  | @dispatchRaised k j h x nodes n error handling toDispatch node =>
    have hj := (List.getElem?_eq_some_iff.1 node).1
    refine left_of_inHand (by rfl) (by rfl) (by rfl) (inHand_handling handling ?_)
    cases hphase : h.phase with
    | dispatching | raised =>
      rw [hphase] at toDispatch
      cases toDispatch
      simp only [HandlingPhase.cost, List.length_eraseIdx_of_lt hj]
      omega
    | received | evaluated | dispatched =>
      rw [hphase] at toDispatch
      cases toDispatch
  | acknowledgeEvent handling =>
    exact left_of_inHand (by rfl) (by rfl) (by rfl) (inHand_handled (s := { s with events := _ }) handling)
  | acknowledgeCompletion handling =>
    exact left_of_inHand (by rfl) (by rfl) (by rfl) (inHand_handled (s := { s with completions := _ }) handling)
  | @abandon k =>
    obtain ⟨h, hk, -⟩ := (Option.any_eq_true _ _).1 ha
    exact left_of_inHand (by rfl) (by rfl) (by rfl) (inHand_handled hk)
  | readRetries =>
    obtain ⟨m, hm, hunread⟩ := List.any_eq_true.1 ha
    obtain ⟨-, -, -, -, -, d, hd, hid, hpending⟩ := getDueRetries_issued hm
    have hmono :=
      retryLeft_mono (b := b) (s := s) (t := { s with retriesDue := s.retriesDue ++ s.db.getDueRetries s.now })
        le_rfl (fun id hid => by rw [List.map_append]; exact List.mem_append_left _ hid) fun _ h => h
    refine left_retry (w := 0) hd (by rfl) (by rfl) hmono ?_ le_rfl
    have hread : d.attemptId ∈ (s.retriesDue ++ s.db.getDueRetries s.now).map (·.attemptId) := by
      rw [List.map_append]
      exact List.mem_append_right _ (hid ▸ List.mem_map_of_mem hm)
    simp only [retryLeft, hpending, hid ▸ of_decide_eq_true hunread, hread, if_true, if_false]
    omega
  | @publishRetry j message due =>
    simp only [productive, due, Option.any_some, Bool.and_eq_true] at ha
    obtain ⟨d, hd, hp⟩ := List.any_eq_true.1 ha.2
    obtain ⟨hid, hpending⟩ := of_decide_eq_true hp
    have hmono := retryLeft_mono (b := b) (s := s)
      (t := { s with tasks := s.tasks.xadd message, retriesSent := s.retriesSent ++ [message.attemptId] })
      le_rfl (fun _ h => h) fun id hid => List.mem_append_left _ hid
    refine left_retry (w := taskCost b) hd (by rfl) (by rfl) hmono ?_ ?_
    · have hsent : d.attemptId ∈ s.retriesSent ++ [message.attemptId] := by simp [hid]
      simp only [retryLeft, hpending, hid ▸ of_decide_eq_true ha.1, hsent, if_true, if_false]
      omega
    · have := Nat.mul_le_mul_left (taskCost b) (GroupStream.backlog_xadd (s := s.tasks) (a := message))
      simp only [inHand]
      rw [Nat.mul_succ] at this
      omega
  | @markRetry attemptId =>
    have hpos := countP_pos_of_any ha
    have := Table.weight_updateWhere (c := s.retryLeft b) (t := s.db.taskRetryDispatches) (w := 1)
      (p := fun r => decide (r.attemptId = attemptId ∧ r.status = .pending))
      (f := fun r => { r with status := .published, publishedAt := some s.now })
      fun r _ hp => by
        simp only [retryLeft, (of_decide_eq_true hp).2]
        omega
    exact left_markedRetry (congrArg Prod.snd (if_pos ha)) (by rfl) (by rfl) (by rfl)
      (retriesLeft_updateWhere fun _ => ⟨rfl, rfl⟩) (by omega)
  | claimRaised task | leaseLost task | recordRaised task | replayRaised task | markRaised task =>
    exact left_of_inHand (by rfl) (by rfl) (by rfl) (inHand_dropInFlight task)
  | acknowledgeTask task =>
    exact left_of_inHand (by rfl) (by rfl) (by rfl) (inHand_dropInFlight (s := { s with tasks := _ }) task)
  | @claim k outcome f r task phase =>
    exact left_attempts (f := claimedBy f.worker s.now (s.now + cfg.lease)) (fun _ => ⟨rfl, rfl⟩) (by rfl)
      (by rfl) (by rfl) (inHand_setPhase (s := { s with db := _ }) task (by simp [phase, TaskPhase.cost]))
  | replay task phase | alreadyCompleted task phase | busy task phase =>
    exact left_of_inHand (by rfl) (by rfl) (by rfl) (inHand_setPhase task (by simp [phase, TaskPhase.cost, entryCost]))
  | invoke task phase =>
    exact left_of_inHand (by rfl) (by rfl) (by rfl)
      (inHand_setPhase (s := { s with history := _ }) task (by simp [phase, TaskPhase.cost]))
  | finish task phase =>
    exact left_of_inHand (by rfl) (by rfl) (by rfl)
      (inHand_setPhase (s := { s with draws := _ }) task (by simp [phase, TaskPhase.cost]))
  | replayed task phase =>
    exact left_of_inHand (by rfl) (by rfl) (by rfl) (inHand_setPhase task (by simp [phase, TaskPhase.cost]))
  | @record k outcome f event r task phase =>
    exact left_attempts (f := resultOf event) (fun _ => ⟨rfl, rfl⟩) (by rfl) (by rfl) (by rfl)
      (inHand_setPhase (s := { s with db := _, history := _ }) task (by simp [phase, TaskPhase.cost]))
  | @publish k outcome f event task phase =>
    refine left_of_inHand (by rfl) (by rfl) (by rfl) ?_
    have hflight :=
      Table.weight_set (c := fun f : InFlight => f.phase.cost b) task { f with phase := .published event }
    have := Nat.mul_le_mul_left (entryCost b) (GroupStream.backlog_xadd (s := s.completions) (a := event))
    simp only [inHand, setPhase, phase, TaskPhase.cost] at hflight ⊢
    rw [Nat.mul_succ] at this
    omega
  | mark task phase =>
    exact left_attempts (f := markedCompleted s.now) (fun _ => ⟨rfl, rfl⟩) (by rfl) (by rfl) (by rfl)
      (inHand_setPhase (s := { s with db := _ }) task (by simp [phase, TaskPhase.cost]))
  | @tick elapsed =>
    obtain ⟨d, hd, hp⟩ := List.any_eq_true.1 ha
    obtain ⟨hpending, hearly, hdue⟩ := of_decide_eq_true hp
    have hmono := retryLeft_mono (b := b) (s := s) (t := { s with now := s.now + elapsed })
      (Int.le_add_of_nonneg_right (Int.natCast_nonneg _)) (fun _ h => h) fun _ h => h
    refine left_retry (w := 0) hd (by rfl) (by rfl) hmono ?_ le_rfl
    simp only [retryLeft, hpending, hearly, not_lt_of_ge hdue, if_true, if_false]
    omega

theorem Effect.breadth (heffect : Effect cfg s a t) (hr : Reachable cfg anyStep s) (ha : productive s a = true) :
    t.db.breadth = s.db.breadth := by
  have hc := reachable_consistent hr
  suffices hworkflows : t.db.workflows = s.db.workflows by rw [Database.breadth, Database.breadth, hworkflows]
  cases heffect with
  | submit => cases ha
  | trigger _ commit =>
    obtain ⟨-, rfl⟩ := triggerCommit_ok hc.sound commit
    rfl
  | process _ _ _ processed => exact processed_workflows (process_ok hc.sound hc.runs processed).2
  | dispatch handling toDispatch node dispatched =>
    rcases dispatch_cases hc (reachable_dispatches hr) handling toDispatch node dispatched with
      ⟨rfl, -⟩ | ⟨_, _, -, -, -, -, rfl⟩
    · rfl
    · exact claimPendingNodes_evolves.workflows
  | markRetry => exact markRetryPublished_sameRuns.workflows
  | _ => rfl

/-- What is left is a variant of the steps that take the work further. -/
theorem productive_variant (cfg : Config) :
    Transition.Variant (step cfg) (fun s a => productive s a = true) (Reachable cfg anyStep) (remaining cfg) where
  keeps _ a _ hr _ ht := .next a hr trivial ht
  lowers s a t hr ha ht := by
    have heffect := step_effect ht
    rw [remaining, heffect.breadth hr ha]
    exact heffect.left_lt hr ha le_rfl

/-! ## Progress -/

/-- The entries a handling may come from. -/
def entryCount (s : System) : Source → Nat
  | .trigger => s.events.entries.length
  | .completion => s.completions.entries.length

theorem Effect.entryCount (heffect : Effect cfg s a t) (source : Source) :
    s.entryCount source ≤ t.entryCount source := by
  cases source with
  | trigger =>
    obtain ⟨l, hl⟩ := heffect.eventEntries
    simp [System.entryCount, hl]
  | completion =>
    rcases heffect.completions with heq | ⟨_, _, _, _, _, heq, _⟩
    · simp [System.entryCount, heq]
    · simp [System.entryCount, heq]

theorem events_delivered (h : Reachable cfg anyStep s) : s.events.lastDelivered ≤ s.events.entries.length :=
  Transition.Reachable.invariant (P := fun s => s.events.lastDelivered ≤ s.events.entries.length)
    (Nat.le_refl _) (fun _ _ _ _ hs _ ht => (step_effect ht).eventsDelivered hs) h

/-- What was delivered is in the streams. -/
structure InRange (s : System) : Prop where
  handlings : ∀ h ∈ s.handlings, h.index < s.entryCount h.source
  tasks : s.tasks.lastDelivered ≤ s.tasks.entries.length

theorem Effect.inRange (heffect : Effect cfg s a t) (hr : Reachable cfg anyStep s) (h : InRange s) : InRange t := by
  have hcount := heffect.entryCount
  have hkept : ∀ g ∈ s.handlings, g.index < t.entryCount g.source :=
    fun g hg => (h.handlings g hg).trans_le (hcount g.source)
  have hset : ∀ {k : Nat} {g g' : Handling}, s.handlings[k]? = some g → g'.source = g.source → g'.index = g.index →
      ∀ g₀ ∈ s.handlings.set k g', g₀.index < t.entryCount g₀.source := by
    intro k g g' hk hsource hindex g₀ hg₀
    rcases mem_set_cases hg₀ with hg₀ | rfl
    · exact hkept g₀ hg₀
    · rw [hsource, hindex]
      exact hkept g (List.mem_of_getElem? hk)
  have herase : ∀ {k : Nat}, ∀ g ∈ s.handlings.eraseIdx k, g.index < t.entryCount g.source :=
    fun g hg => hkept g (List.mem_of_mem_eraseIdx hg)
  have hreceived : ∀ {source : Source} {index : Nat}, index < s.entryCount source →
      ∀ g ∈ s.handlings ++ [⟨source, index, .received⟩], g.index < t.entryCount g.source := by
    intro source index hindex g hg
    rcases List.mem_append.1 hg with hg | hg
    · exact hkept g hg
    · rw [List.mem_singleton.1 hg]
      exact hindex.trans_le (hcount source)
  cases heffect with
  | evaluate handling | skip handling | process handling | readEmpty handling | read handling
  | finishDispatch handling =>
    exact ⟨hset handling rfl rfl, h.tasks⟩
  | dispatch handling | dispatchRaised handling => exact ⟨hset handling rfl rfl, h.tasks⟩
  | evaluateRaised | processRaised | readRaised | acknowledgeCompletion | acknowledgeEvent | abandon =>
    exact ⟨herase, h.tasks⟩
  | deliverEvent next => exact ⟨hreceived (List.getElem?_eq_some_iff.1 next).1, h.tasks⟩
  | deliverCompletion next => exact ⟨hreceived (List.getElem?_eq_some_iff.1 next).1, h.tasks⟩
  | redeliverEvent delivered => exact ⟨hreceived (delivered.trans_le (events_delivered hr)), h.tasks⟩
  | redeliverCompletion delivered => exact ⟨hreceived (delivered.trans_le (completions_delivered hr)), h.tasks⟩
  | publishTaskRow | publishRetry =>
    refine ⟨hkept, ?_⟩
    simp only [GroupStream.xadd, List.length_append]
    exact Nat.le_add_right_of_le h.tasks
  | deliverTask next => exact ⟨hkept, (List.getElem?_eq_some_iff.1 next).1⟩
  | _ => exact ⟨hkept, h.tasks⟩

theorem reachable_inRange (h : Reachable cfg anyStep s) : InRange s :=
  Transition.Reachable.invariant ⟨by simp [init], Nat.le_refl _⟩
    (fun _ _ _ hr hs _ ht => (step_effect ht).inRange hr hs) h

/-- A message of a later attempt has come from the publisher of retries. -/
structure LaterSent (s : System) : Prop where
  rows : ∀ row ∈ s.db.outboxEvents, ∀ m, row.payload = .task m → m.attemptNumber = 1
  entries : ∀ m ∈ s.tasks.entries, m.attemptNumber = 1 ∨ m.attemptId ∈ s.retriesSent

/-- A step that sends nothing to the workers. -/
theorem LaterSent.carry (h : LaterSent s)
    (hrows : ∀ row ∈ t.db.outboxEvents, (∃ row₀ ∈ s.db.outboxEvents, row.payload = row₀.payload) ∨
      ∀ m, row.payload = .task m → m.attemptNumber = 1)
    (htasks : t.tasks.entries = s.tasks.entries) (hsent : t.retriesSent = s.retriesSent) : LaterSent t := by
  refine ⟨fun row hrow m hm => ?_, by rw [htasks, hsent]; exact h.entries⟩
  rcases hrows row hrow with ⟨row₀, hrow₀, hpayload⟩ | hfirst
  · exact h.rows row₀ hrow₀ m (hpayload ▸ hm)
  · exact hfirst m hm

theorem Effect.laterSent (heffect : Effect cfg s a t) (hr : Reachable cfg anyStep s) (h : LaterSent s) :
    LaterSent t := by
  have hc := reachable_consistent hr
  have hsame : t.db.outboxEvents = s.db.outboxEvents → ∀ row ∈ t.db.outboxEvents,
      (∃ row₀ ∈ s.db.outboxEvents, row.payload = row₀.payload) ∨ ∀ m, row.payload = .task m → m.attemptNumber = 1 :=
    fun heq row hrow => .inl ⟨row, heq ▸ hrow, rfl⟩
  cases heffect with
  | submit commit =>
    obtain ⟨w, -, -, -, -, rfl⟩ := submit_ok hc.sound commit
    exact h.carry (hsame rfl) rfl rfl
  | trigger _ commit =>
    obtain ⟨-, rfl⟩ := triggerCommit_ok hc.sound commit
    refine h.carry (fun row hrow => (List.mem_append.1 hrow).imp (fun hrow => ⟨row, hrow, rfl⟩) fun hrow m hm => ?_)
      rfl rfl
    rw [List.mem_singleton.1 hrow] at hm
    cases hm
  | process _ _ _ processed =>
    obtain ⟨rows, hout, -, hann⟩ := (process_ok hc.sound hc.runs processed).2.outbox
    refine h.carry (fun row hrow => ?_) rfl rfl
    dsimp only at hrow
    rw [hout] at hrow
    exact (List.mem_append.1 hrow).imp (fun hrow => ⟨row, hrow, rfl⟩) fun hrow m hm =>
      absurd hm ((hann row hrow).2.2.2.1 m)
  | dispatch handling toDispatch node dispatched =>
    rcases dispatch_cases hc (reachable_dispatches hr) handling toDispatch node dispatched with
      ⟨rfl, -⟩ | ⟨_, input, -, -, -, -, rfl⟩
    · exact h.carry (hsame rfl) rfl rfl
    · refine h.carry (fun row hrow => (List.mem_append.1 hrow).imp (fun hrow => ⟨row, hrow, rfl⟩) fun hrow m hm => ?_)
        rfl rfl
      rw [List.mem_singleton.1 hrow] at hm
      cases hm
      rfl
  | markRow =>
    refine h.carry (fun row hrow => ?_) rfl rfl
    obtain ⟨row₀, hrow₀, rfl⟩ := Table.mem_updateWhere.1 hrow
    exact .inl ⟨row₀, hrow₀, by split <;> rfl⟩
  | cleanRow => exact h.carry (fun row hrow => .inl ⟨row, List.mem_of_mem_filter hrow, rfl⟩) rfl rfl
  | @publishTaskRow row message mem _ _ payload =>
    refine ⟨h.rows, fun m hm => (List.mem_append.1 hm).elim (h.entries m) fun hm => .inl ?_⟩
    rw [List.mem_singleton.1 hm]
    exact h.rows row mem message payload
  | publishRetry =>
    refine ⟨h.rows, fun m hm => ?_⟩
    rcases List.mem_append.1 hm with hm | hm
    · exact (h.entries m hm).imp_right fun hsent => List.mem_append_left _ hsent
    · rw [List.mem_singleton.1 hm]
      exact .inr (List.mem_append_right _ (List.mem_singleton.2 rfl))
  | markRetry => exact h.carry (hsame markRetryPublished_sameRuns.outbox) rfl rfl
  | _ => exact h.carry (hsame rfl) rfl rfl

theorem reachable_laterSent (h : Reachable cfg anyStep s) : LaterSent s :=
  Transition.Reachable.invariant ⟨by simp [init, Database.empty], by simp [init, GroupStream.empty]⟩
    (fun _ _ _ hr hs _ ht => (step_effect ht).laterSent hr hs) h

/-- A retry that is due and was not sent is found by the next read. -/
theorem unsent_due (h : Reachable cfg anyStep s) {d : TaskRetryDispatchRecord} (hd : d ∈ s.db.taskRetryDispatches)
    (hpending : d.status = .pending) (hunsent : d.attemptId ∉ s.retriesSent) (hdue : d.availableAt ≤ s.now) :
    ∃ m ∈ s.db.getDueRetries s.now, m.attemptId = d.attemptId := by
  have hretries := reachable_retries h
  obtain ⟨r, hr, hid, hlater⟩ : ∃ r ∈ s.db.taskAttempts, r.attemptId = d.attemptId ∧ 1 < r.attemptNumber := by
    have hmem := hretries.rows ▸ List.mem_map_of_mem (f := fun d : TaskRetryDispatchRecord => d.attemptId) hd
    obtain ⟨p, hp, hpid⟩ := List.mem_map.1 hmem
    obtain ⟨hslot, hnumber⟩ := List.mem_filter.1 hp
    obtain ⟨r, hr, rfl⟩ := List.mem_map.1 hslot
    exact ⟨r, hr, hpid, of_decide_eq_true hnumber⟩
  have hscheduled : r.status = .scheduled := by
    rcases hretries.scheduled r hr hlater with hst | ⟨m, hm, hmid⟩
    · exact hst
    · rcases (reachable_laterSent h).entries m hm with hfirst | hsent
      · obtain ⟨r', hr', -, hnumber⟩ := (reachable_attemptIds h).issued ((reachable_messages h).entries m hm)
        rw [hmid, (reachable_attemptIds h).getAttempt hr rfl] at hr'
        cases hr'
        omega
      · exact absurd (hid ▸ hmid ▸ hsent) hunsent
  obtain ⟨task, htask, htid⟩ := hretries.task r hr
  refine ⟨retryMessage task r, List.mem_flatMap.2 ⟨task, htask, List.mem_flatMap.2 ⟨r, ?_,
    List.mem_map.2 ⟨d, ?_, rfl⟩⟩⟩, hid⟩
  · exact List.mem_filter.2 ⟨hr, decide_eq_true ⟨htid.symm, hscheduled⟩⟩
  · exact List.mem_filter.2 ⟨hd, decide_eq_true ⟨hid.symm, hpending, hdue⟩⟩

/-- The handlers answer a function, whatever task is worked on. -/
def answersAll (handler : Handler) (s : System) : Action → Bool
  | .work k outcome => (s.inFlight[k]?).all fun f => decide (outcome = f.task.answer handler)
  | _ => true

/-- Some step takes the work further. -/
def Enabled (cfg : Config) (handler : Handler) (s : System) : Prop :=
  ∃ a t, productive s a = true ∧ answersAll handler s a = true ∧ step cfg s a = some t

variable {handler : Handler}

theorem enabled_outbox {row : OutboxEventRecord} (hmem : row ∈ s.db.outboxEvents) (hpending : row.status = .pending) :
    Enabled cfg handler s := by
  by_cases hsent : row.messageId ∈ s.outboxSent
  · exact ⟨.markRow row.messageId, _, List.any_eq_true.2 ⟨row, hmem, decide_eq_true ⟨rfl, hpending⟩⟩,
      rfl, if_pos hsent⟩
  · cases hfind : s.db.outboxEvents.find? fun r => decide (r.messageId = row.messageId ∧ r.status = .pending) with
    | none => exact absurd (decide_eq_true ⟨rfl, hpending⟩) (List.find?_eq_none.1 hfind row hmem)
    | some r =>
      exact ⟨.publishRow row.messageId, _, decide_eq_true hsent, rfl, by simp only [step, publishRow, hfind]; rfl⟩

theorem enabled_retries (h : Reachable cfg anyStep s) {d : TaskRetryDispatchRecord} (hd : d ∈ s.db.taskRetryDispatches)
    (hpending : d.status = .pending) : Enabled cfg handler s := by
  have hany :
      (s.db.taskRetryDispatches.any fun d' => decide (d'.attemptId = d.attemptId ∧ d'.status = .pending)) = true :=
    List.any_eq_true.2 ⟨d, hd, decide_eq_true ⟨rfl, hpending⟩⟩
  by_cases hsent : d.attemptId ∈ s.retriesSent
  · exact ⟨.markRetry d.attemptId, _, hany, rfl, if_pos hsent⟩
  by_cases hread : d.attemptId ∈ s.retriesDue.map (·.attemptId)
  · obtain ⟨m, hm, hid⟩ := List.mem_map.1 hread
    obtain ⟨j, hj⟩ := List.mem_iff_getElem?.1 hm
    refine ⟨.publishRetry j, _, ?_, rfl, by simp only [step, publishRetry, hj]; rfl⟩
    simp only [productive, hj, Option.any_some, hid, hany, Bool.and_true]
    exact decide_eq_true hsent
  by_cases hdue : d.availableAt ≤ s.now
  · obtain ⟨m, hm, hid⟩ := unsent_due h hd hpending hsent hdue
    exact ⟨.readRetries, _, List.any_eq_true.2 ⟨m, hm, decide_eq_true (hid ▸ hread)⟩, rfl, rfl⟩
  · refine ⟨.tick (d.availableAt - s.now).toNat, _, List.any_eq_true.2 ⟨d, hd, decide_eq_true ⟨hpending, ?_, ?_⟩⟩, rfl,
      rfl⟩
    · exact lt_of_not_ge hdue
    · exact Int.le_add_of_sub_left_le (Int.self_le_toNat _)

theorem enabled_handling (h : InRange s) {k : Nat} {g : Handling} (hk : s.handlings[k]? = some g) :
    Enabled cfg handler s := by
  have hrange := h.handlings g (List.mem_of_getElem? hk)
  obtain ⟨source, index, phase⟩ := g
  cases phase with
  | received =>
    cases source with
    | trigger =>
      have hentry := List.getElem?_eq_getElem (l := s.events.entries) hrange
      have : (s.handleTrigger k ⟨.trigger, index, .received⟩).isSome := by
        unfold handleTrigger
        rw [hentry]
        dsimp only
        split
        · split <;> rfl
        · rfl
      exact ⟨.handle k, _, rfl, rfl, by simp only [step, handle, hk]; exact (Option.some_get this).symm⟩
    | completion =>
      have hentry := List.getElem?_eq_getElem (l := s.completions.entries) hrange
      have : (s.handleCompletion cfg k ⟨.completion, index, .received⟩).isSome := by
        unfold handleCompletion
        rw [hentry]
        dsimp only
        split
        · split <;> rfl
        · rfl
      exact ⟨.handle k, _, rfl, rfl, by simp only [step, handle, hk]; exact (Option.some_get this).symm⟩
  | evaluated executionId ready =>
    have : (s.readReady k).isSome := by
      unfold readReady
      rw [hk]
      dsimp only
      split
      · rfl
      · split <;> rfl
    exact ⟨.readReady k, _, rfl, rfl, (Option.some_get this).symm⟩
  | dispatching x nodes =>
    cases nodes with
    | nil => exact ⟨.finishDispatch k, _, rfl, rfl, by simp only [step, finishDispatch, hk]; rfl⟩
    | cons n nodes =>
      have : (s.dispatchNode cfg k 0).isSome := by
        unfold dispatchNode
        rw [hk]
        dsimp only [List.getElem?_cons_zero]
        split <;> rfl
      exact ⟨.dispatchNode k 0, _, rfl, rfl, (Option.some_get this).symm⟩
  | raised x nodes =>
    cases nodes with
    | nil =>
      exact ⟨.abandon k, _, by simp [productive, hk], rfl, if_pos (List.getElem?_eq_some_iff.1 hk).1⟩
    | cons n nodes =>
      have : (s.dispatchNode cfg k 0).isSome := by
        unfold dispatchNode
        rw [hk]
        dsimp only [List.getElem?_cons_zero]
        split <;> rfl
      exact ⟨.dispatchNode k 0, _, rfl, rfl, (Option.some_get this).symm⟩
  | dispatched =>
    cases source with
    | trigger => exact ⟨.acknowledge k, _, rfl, rfl, by simp only [step, acknowledge, hk]; rfl⟩
    | completion => exact ⟨.acknowledge k, _, rfl, rfl, by simp only [step, acknowledge, hk]; rfl⟩

theorem exists_head {α : Type} {l : List α} (h : l ≠ []) : ∃ a, l[0]? = some a := by
  cases l with
  | nil => exact absurd rfl h
  | cons a l => exact ⟨a, rfl⟩

/-- Nothing is left to do: the system is at rest and no request is being handled. -/
structure Idle (s : System) : Prop where
  quiescent : Quiescent s
  triggers : s.triggers = []

variable (handler) in
/-- Where nothing takes the work further, nothing is left to do. -/
theorem idle_or_enabled (h : Reachable cfg anyStep s) : Idle s ∨ Enabled cfg handler s := by
  have hrange := reachable_inRange h
  by_contra hneither
  obtain ⟨hbusy, hstuck⟩ := not_or.1 hneither
  refine hbusy ⟨⟨fun row hrow => ?_, fun d hd => ?_, ?_, ?_, ?_, ?_, ?_⟩, ?_⟩
  · cases hst : row.status with
    | published => rfl
    | pending => exact absurd (enabled_outbox hrow hst) hstuck
  · cases hst : d.status with
    | published => rfl
    | pending => exact absurd (enabled_retries h hd hst) hstuck
  · refine (events_delivered h).eq_of_not_lt fun hlt => hstuck ?_
    exact ⟨.deliverEvent "orchestrator", _, rfl, rfl, by
      simp only [step, deliverEvent, GroupStream.xreadgroup, List.getElem?_eq_getElem hlt]; rfl⟩
  · refine hrange.tasks.eq_of_not_lt fun hlt => hstuck ?_
    exact ⟨.deliverTask "worker", _, rfl, rfl, by
      simp only [step, deliverTask, GroupStream.xreadgroup, List.getElem?_eq_getElem hlt]; rfl⟩
  · refine (completions_delivered h).eq_of_not_lt fun hlt => hstuck ?_
    exact ⟨.deliverCompletion "orchestrator", _, rfl, rfl, by
      simp only [step, deliverCompletion, GroupStream.xreadgroup, List.getElem?_eq_getElem hlt]; rfl⟩
  · by_contra hne
    obtain ⟨g, hg⟩ := exists_head hne
    exact hstuck (enabled_handling hrange hg)
  · by_contra hne
    obtain ⟨f, hf⟩ := exists_head hne
    refine hstuck ⟨.work 0 (f.task.answer handler), _, rfl, ?_, by simp only [step, workTask, hf]; rfl⟩
    simp [answersAll, hf]
  · by_contra hne
    obtain ⟨request, hrequest⟩ := exists_head hne
    have : (s.commitTrigger 0).isSome := by
      unfold commitTrigger
      rw [hrequest]
      dsimp only
      split <;> rfl
    exact hstuck ⟨.commitTrigger 0, _, decide_eq_true (List.length_pos_iff.2 hne), rfl, (Option.some_get this).symm⟩

/-- And the other way round. -/
theorem Idle.stuck (h : Idle s) (ha : productive s a = true) : step cfg s a = none := by
  have hq := h.quiescent
  cases ht : step cfg s a with
  | none => rfl
  | some t =>
    have hnone : ∀ {α : Type} {l : List α} {k : Nat} {x : α}, l = [] → l[k]? ≠ some x := by
      rintro α l k x rfl hx
      cases hx
    have hpublished : ∀ {row : OutboxEventRecord}, row ∈ s.db.outboxEvents → row.status ≠ .pending :=
      fun hmem hpending => by rw [hq.outbox _ hmem] at hpending; cases hpending
    have hsent : ∀ {d : TaskRetryDispatchRecord}, d ∈ s.db.taskRetryDispatches → d.status ≠ .pending :=
      fun hmem hpending => by rw [hq.retries _ hmem] at hpending; cases hpending
    exfalso
    cases step_effect ht with
    | submit | readTrigger | cleanRow | redeliverEvent | redeliverCompletion | reclaimTask | renew | dropTask =>
      cases ha
    | trigger | triggerLost =>
      have := of_decide_eq_true ha
      rw [h.triggers] at this
      exact Nat.not_lt_zero _ this
    | publishTaskRow mem pending | publishEventRow mem pending | publishOtherRow mem pending =>
      exact hpublished mem pending
    | markRow =>
      obtain ⟨row, hmem, hp⟩ := List.any_eq_true.1 ha
      exact hpublished hmem (of_decide_eq_true hp).2
    | deliverEvent next =>
      have := (List.getElem?_eq_some_iff.1 next).1
      exact absurd hq.events (Nat.ne_of_lt this)
    | deliverCompletion next =>
      have := (List.getElem?_eq_some_iff.1 next).1
      exact absurd hq.completions (Nat.ne_of_lt this)
    | deliverTask next =>
      have := (List.getElem?_eq_some_iff.1 next).1
      exact absurd hq.tasks (Nat.ne_of_lt this)
    | evaluate handling | evaluateRaised handling | skip handling | process handling | processRaised handling
      | readEmpty handling | read handling | readRaised handling | dispatch handling | dispatchRaised handling
      | finishDispatch handling | acknowledgeEvent handling | acknowledgeCompletion handling =>
      exact hnone hq.handlings handling
    | abandon =>
      obtain ⟨g, hk, -⟩ := (Option.any_eq_true _ _).1 ha
      exact hnone hq.handlings hk
    | readRetries =>
      obtain ⟨m, hm, -⟩ := List.any_eq_true.1 ha
      obtain ⟨-, -, -, -, -, d, hd, -, hpending⟩ := getDueRetries_issued hm
      exact hsent hd hpending
    | publishRetry due =>
      simp only [productive, due, Option.any_some, Bool.and_eq_true] at ha
      obtain ⟨d, hd, hp⟩ := List.any_eq_true.1 ha.2
      exact hsent hd (of_decide_eq_true hp).2
    | markRetry =>
      obtain ⟨d, hd, hp⟩ := List.any_eq_true.1 ha
      exact hsent hd (of_decide_eq_true hp).2
    | claimRaised task | claim task | replay task | alreadyCompleted task | busy task | invoke task | leaseLost task
      | finish task | record task | recordRaised task | replayed task | replayRaised task | publish task | mark task
      | markRaised task | acknowledgeTask task => exact hnone hq.inFlight task
    | tick =>
      obtain ⟨d, hd, hp⟩ := List.any_eq_true.1 ha
      exact hsent hd (of_decide_eq_true hp).1

/-- From every state that can be reached, whatever has crashed or come twice before, every run of
steps that take the work further is finite, with a bound read off the state; it can be continued as
long as something is left to do, and ends where nothing is. What a stopped process has left without
an acknowledgement is not waited for. -/
theorem comes_to_rest (h : Reachable cfg anyStep s) :
    (∀ labels t, Transition.Path (step cfg) (fun s a => productive s a = true) s labels t →
      labels.length ≤ remaining cfg s ∧ ((∀ a, productive t a = true → step cfg t a = none) ↔ Idle t)) ∧
    ∀ handler, ∃ labels t, Transition.Path (step cfg)
      (fun s a => productive s a = true ∧ answersAll handler s a = true) s labels t ∧ Idle t := by
  have hvariant := productive_variant cfg
  refine ⟨fun labels t hp => ⟨?_, fun hstuck => ?_, fun hidle a ha => hidle.stuck ha⟩, fun handler => ?_⟩
  · have := hvariant.length_le hp h
    omega
  · rcases idle_or_enabled (fun _ _ _ => .success .null) (hvariant.keeps_path hp h) with hidle | ⟨a, u, ha, -, hu⟩
    · exact hidle
    · rw [hstuck a ha] at hu
      cases hu
  · refine (hvariant.restrict fun _ _ ha => ha.1).reaches (fun s hs => ?_) h
    rcases idle_or_enabled handler hs with hidle | ⟨a, u, ha, hanswers, hu⟩
    · exact .inl hidle
    · exact .inr ⟨a, u, ⟨ha, hanswers⟩, hu⟩

/-- `fetch` was delivered and claimed, and its worker has stopped. -/
def chainDropped : System :=
  reached sampleConfig ((fetched (.success .null)).take 13 ++ ([.dropTask 0] : List Action))

theorem comes_to_rest_dropped :
    remaining sampleConfig chainDropped = 70 ∧ ∃ labels t, Transition.Path (step sampleConfig)
    (fun s a => productive s a = true) chainDropped labels t ∧ labels.length ≤ 70 ∧ Idle t := by
  have hremaining : remaining sampleConfig chainDropped = 70 := by
    decide +kernel
  obtain ⟨hbound, hreaches⟩ :=
    comes_to_rest (reachable_reached sampleConfig _ : Reachable sampleConfig anyStep chainDropped)
  obtain ⟨labels, t, hp, hidle⟩ := hreaches (always (.success .null))
  have hproductive := hp.mono fun _ _ ha => ha.1
  exact ⟨hremaining, labels, t, hproductive, hremaining ▸ (hbound labels t hproductive).1, hidle⟩

/-! ## Total correctness -/

/-- Nothing crashes, no dispatch raises, what is handled is accepted, and the handlers answer. -/
def orderly (cfg : Config) (e : Uuid) (handler : Handler) (s : System) (a : Action) : Bool :=
  dispatchReturns cfg s a && (crashFree s a && (completionAccepted cfg s a && answers e handler s a))

theorem productive_crashFree (h : productive s a = true) : crashFree s a = true := by
  cases a with
  | abandon k =>
    obtain ⟨g, hk, hg⟩ := (Option.any_eq_true _ _).1 h
    simp only [crashFree, hk, Option.all_some]
    exact hg
  | dropTask => cases h
  | _ => rfl

theorem answersAll_answers {e : Uuid} (h : answersAll handler s a = true) : answers e handler s a = true := by
  cases a with
  | work k outcome =>
    simp only [answersAll, answers] at h ⊢
    cases hk : s.inFlight[k]? with
    | none => rfl
    | some f =>
      rw [hk] at h
      exact decide_eq_true fun _ _ => of_decide_eq_true h
  | _ => rfl

/-- A triggered execution keeps its workflow and its input. -/
theorem path_execution {allowed : System → Action → Prop} {labels : List Action} {e : Uuid}
    {x : WorkflowExecutionRecord} {w : Workflow} (hp : Transition.Path (step cfg) allowed s labels t)
    (h : Reachable cfg anyStep s) (hx : s.db.getExecutionById e = some x) (triggered : x.status ≠ .pending)
    (hw : s.db.getWorkflowById x.workflowId = some w) :
    ∃ x', t.db.getExecutionById e = some x' ∧ x'.status ≠ .pending ∧ x'.inputData = x.inputData ∧
      t.db.getWorkflowById x'.workflowId = some w := by
  induction hp generalizing x with
  | nil => exact ⟨x, hx, triggered, rfl, hw⟩
  | cons _ next _ ih =>
    have hlater := ((step_kind (reachable_consistent h).sound next).advances (reachable_consistent h)).later
    obtain ⟨x₁, hx₁, hid, hkept⟩ := hlater.execution e x hx
    obtain ⟨triggered₁, hinput⟩ := hkept triggered
    obtain ⟨x', hx', triggered', hinput', hw'⟩ :=
      ih (.next _ h trivial next) hx₁ triggered₁ (hid ▸ hlater.workflow _ _ hw)
    exact ⟨x', hx', triggered', hinput'.trans hinput, hw'⟩

/-- In a run that has been orderly from the start: once an execution is triggered, orderly steps that take
the work further come to an end after at most as many as are left, and then nodes and execution are as
the interpreter says; unless the next thing to do is a dispatch that raises or a completion that is not
accepted. -/
theorem engine_finishes {e : Uuid} {x : WorkflowExecutionRecord} {w : Workflow} {labels : List Action}
    (h : Reachable cfg (fun s a => orderly cfg e handler s a = true) s) (hx : s.db.getExecutionById e = some x)
    (triggered : x.status ≠ .pending) (hw : s.db.getWorkflowById x.workflowId = some w)
    (hp : Transition.Path (step cfg) (fun s a => productive s a = true ∧ orderly cfg e handler s a = true) s labels t)
    (last : ∀ a, productive t a = true → orderly cfg e handler t a = true → step cfg t a = none) :
    labels.length ≤ remaining cfg s ∧
      (((∀ n ∈ w.nodes, EndsAs t e n.id ((interpreter cfg handler x w).result n.id)) ∧
          ∃ x', t.db.getExecutionById e = some x' ∧ x'.status = (interpreter cfg handler x w).status) ∨
        ∃ a u, productive t a = true ∧ step cfg t a = some u ∧
          (dispatchReturns cfg t a = false ∨ completionAccepted cfg t a = false)) := by
  have hany : Reachable cfg anyStep s := h.mono fun _ _ _ => trivial
  have hvariant := productive_variant cfg
  have hproductive := hp.mono fun _ _ ha => ha.1
  refine ⟨le_of_add_le_left (hvariant.length_le hproductive hany), ?_⟩
  rcases idle_or_enabled handler (hvariant.keeps_path hproductive hany) with hidle | ⟨a, u, ha, hanswers, hu⟩
  · obtain ⟨x', hx', triggered', hinput, hw'⟩ := path_execution hp hany hx triggered hw
    have hrests : Rests cfg handler t e x' w :=
      ⟨(hp.mono fun _ _ ha => ha.2).reachable h, hidle.quiescent, hx', triggered', hw'⟩
    obtain ⟨hends, hstatus⟩ := hrests.interpreted
    have hsame : interpreter cfg handler x' w = interpreter cfg handler x w := by rw [interpreter, interpreter, hinput]
    rw [hsame] at hends hstatus
    exact .inl ⟨hends, x', hx', hstatus.symm⟩
  · refine .inr ⟨a, u, ha, hu, ?_⟩
    by_contra hneither
    obtain ⟨hreturns, haccepted⟩ := not_or.1 hneither
    rw [Bool.not_eq_false] at hreturns haccepted
    have hok : orderly cfg e handler t a = true := by
      simp [orderly, hreturns, haccepted, productive_crashFree ha, answersAll_answers hanswers]
    rw [last a ha hok] at hu
    cases hu

/-- The trigger of `chain` has been evaluated, and nothing has been dispatched. -/
def chainEvaluated : System :=
  reachedUnder sampleConfig (orderly sampleConfig (.v4 1) (always (.failure "boom" "RuntimeError"))) (triggered chain)

def chainSteps : List Action :=
  (fetched (.failure "boom" "RuntimeError")).drop (triggered chain).length ++
    ([.readReady 0, .acknowledge 0, .markRow (.v4 2),
    .markRow (createTaskId (.v4 1) "fetch")] : List Action) ++
    settleRow (.v5 (.v4 4) "node:" (.v4 1) "report:failed") ++
    settleRow (.v4 4) ++ settleRow (.v5 (.v4 4) "workflow:" (.v4 1) "failed")

def chainEnded : System :=
  (Transition.run (fun s a =>
      if s.productive a && orderly sampleConfig (.v4 1) (always (.failure "boom" "RuntimeError")) s a then
        step sampleConfig s a
      else none)
    chainEvaluated chainSteps).getD init

theorem engine_finishes_chain : chainSteps.length ≤ remaining sampleConfig chainEvaluated ∧
    EndsAs chainEnded (.v4 1) "fetch" ⟨.failed, .null, some [], 1⟩ := by
  let x : WorkflowExecutionRecord := ⟨.v4 1, .v4 0, .running, [], 0, some 0, none⟩
  let fetch : WorkflowNode := ⟨"fetch", "input", [], []⟩
  let w : Workflow := ⟨.v4 0, "sample", [fetch, ⟨"report", "output", ["fetch"], []⟩]⟩
  have hrun :
      chainEvaluated.db.getExecutionById (.v4 1) = some x ∧ chainEvaluated.db.getWorkflowById x.workflowId = some w ∧
      (Quiescent chainEnded ∧ chainEnded.triggers = []) ∧
      (interpreter sampleConfig (always (.failure "boom" "RuntimeError")) x w).result fetch.id =
      ⟨.failed, .null, some [], 1⟩ := by
    decide +kernel
  obtain ⟨hx, hw, ⟨hquiescent, htriggers⟩, hresult⟩ := hrun
  have hpath : Transition.run (fun s a => if s.productive a &&
      orderly sampleConfig (.v4 1) (always (.failure "boom" "RuntimeError")) s a then step sampleConfig s a else none)
      chainEvaluated chainSteps = some chainEnded := by
    decide +kernel
  obtain ⟨hlength, ⟨hends, -⟩ | ⟨a, u, ha, hu, -⟩⟩ :=
    @engine_finishes sampleConfig _ _ _ (.v4 1) _ _ _ (reachable_reachedUnder _ _ _) hx (by decide) hw
      (.of_run _ (fun _ _ h => (Bool.and_eq_true _ _).mp h) chainSteps hpath)
      fun a ha _ => Idle.stuck ⟨hquiescent, htriggers⟩ ha
  · exact ⟨hlength, hresult ▸ hends fetch (.head _)⟩
  · rw [Idle.stuck ⟨hquiescent, htriggers⟩ ha] at hu
    cases hu

end System

end WorkflowEngine
