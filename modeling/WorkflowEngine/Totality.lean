import WorkflowEngine.Sequences

/-!
# Calls that cannot raise

In a reachable state a read of the ready nodes returns, a dispatch returns if the node's
input resolves, and the processing of a readable event returns if the instant of the next
retry can be computed. Everything these calls insert is new, and everything they look up is
there.
-/
namespace WorkflowEngine

open Database

namespace Database

variable {db db' : Database} {e : Uuid} {i : String} {x : WorkflowExecutionRecord} {w : Workflow} {now : Time}

/-- No message of the outbox has this identifier. -/
def Fresh (id : Uuid) (db : Database) : Prop := ∀ row ∈ db.outboxEvents, row.messageId ≠ id

theorem Fresh.push {id : Uuid} (h : Fresh id db) {rows : List OutboxEventRecord}
    (hrows : ∀ row ∈ rows, row.messageId ≠ id) :
    Fresh id (db.pushOutbox rows) := by
  intro row hrow
  rcases List.mem_append.1 hrow with hrow | hrow
  · exact h row hrow
  · exact hrows row hrow

theorem addMessage_total {messageId aggregateId : Uuid} {messageType : MessageType} {targetStream : StreamName}
    {payload : OutboxPayload} (h : Fresh messageId db) :
    db.addMessage messageId messageType targetStream aggregateId payload now =
      .ok (db.pushOutbox [outboxRow messageId messageType targetStream aggregateId payload now]) := by
  have hany : ¬ (db.outboxEvents.any fun r => decide (r.messageId = messageId)) = true := by
    rw [List.any_eq_true]
    rintro ⟨row, hrow, hid⟩
    exact h row hrow (of_decide_eq_true hid)
  unfold addMessage
  rw [if_neg hany]
  rfl

/-! ## Dispatch -/

theorem insertAttempt_total {row : TaskAttemptRecord} (hid : ∀ r ∈ db.taskAttempts, r.attemptId ≠ row.attemptId)
    (hnumber : ∀ r ∈ db.taskAttempts, r.taskId = row.taskId → r.attemptNumber ≠ row.attemptNumber) :
    db.insertAttempt row = .ok { db with taskAttempts := db.taskAttempts ++ [row] } := by
  have hany : ¬ (db.taskAttempts.any fun r => decide (r.attemptId = row.attemptId ∨
      (r.taskId = row.taskId ∧ r.attemptNumber = row.attemptNumber))) = true := by
    rw [List.any_eq_true]
    rintro ⟨r, hr, hp⟩
    rcases of_decide_eq_true hp with hp | ⟨htask, hn⟩
    · exact hid r hr hp
    · exact hnumber r hr htask hn
  unfold insertAttempt
  rw [if_neg hany]

theorem registerTask_total {n : WorkflowNode} {input : Dict Json} {attemptId : Uuid}
    (hno : NoTask db x.executionId n.id) (hids : ∀ r ∈ db.logicalTasks, r.taskId = createTaskId r.executionId r.nodeId)
    (hattempt : ∀ r ∈ db.taskAttempts, r.attemptId ≠ attemptId) (hfresh : Fresh (createTaskId x.executionId n.id) db) :
    registerTask x n input attemptId now db = .ok (registered x n input attemptId now db) := by
  have hany : ¬ (db.logicalTasks.any fun r => decide (r.executionId = x.executionId ∧ r.nodeId = n.id)) = true := by
    rw [List.any_eq_true]
    rintro ⟨r, hr, hp⟩
    have : r ∈ db.tasksOf x.executionId n.id := List.mem_filter.2 ⟨hr, hp⟩
    rw [hno.1] at this
    cases this
  have htask : db.insertLogicalTask (taskRecord x n input) =
      .ok { db with logicalTasks := db.logicalTasks ++ [taskRecord x n input] } := by
    unfold insertLogicalTask
    rw [if_neg (by simp [taskRecord, hno.getLogicalTask hids])]
    exact if_neg hany
  have hfind : (db.taskAttempts.find? fun r =>
      decide (r.taskId = createTaskId x.executionId n.id ∧ r.attemptNumber = 1)) = none := by
    rw [List.find?_eq_none]
    intro r hr
    simp [hno.2.1 r hr]
  have hinsert := @insertAttempt_total { db with logicalTasks := db.logicalTasks ++ [taskRecord x n input] }
    (initialAttempt attemptId (createTaskId x.executionId n.id) now) hattempt
    fun r hr htask => absurd htask (hno.2.1 r hr)
  have hmessage := @addMessage_total
    { db with
      logicalTasks := db.logicalTasks ++ [taskRecord x n input]
      taskAttempts := db.taskAttempts ++ [initialAttempt attemptId (createTaskId x.executionId n.id) now] } now
    (createTaskId x.executionId n.id) x.executionId .task .tasks
    (.task (firstMessage x n input attemptId)) hfresh
  simp only [taskRecord] at htask
  simp only [registerTask, registerInitialTask, htask, hfind, bind, Except.bind, pure, Except.pure]
  simp only [taskRecord] at hinsert hmessage
  rw [hinsert]
  exact hmessage

/-- The dispatch of a startable node returns, and starts the node if it is still pending. -/
theorem dispatch_total {strFloat : Rat → String} {n : WorkflowNode} {attemptId : Uuid} {input : Dict Json}
    (hs : db.Sound) (hstart : db.Startable x.executionId n)
    (hresolve : NodeInputResolver.resolve strFloat n x.inputData (completedDependencyOutputs x.executionId n
      (db.getNodeExecutionsForExecution x.executionId)) = .ok input)
    (hids : ∀ r ∈ db.logicalTasks, r.taskId = createTaskId r.executionId r.nodeId)
    (hattempt : ∀ r ∈ db.taskAttempts, r.attemptId ≠ attemptId)
    (hpending : db.status x.executionId n.id = .pending →
      NoTask db x.executionId n.id ∧ Fresh (createTaskId x.executionId n.id) db) :
    ∃ result db', dispatch strFloat x n attemptId now db = .ok (result, db') ∧
      ∀ r, db.node x.executionId n.id = some r → r.status = .pending → result.outcome = .dispatched := by
  obtain ⟨x', w, hx', -⟩ := id hstart
  have hfailed : ¬ (n.dependencies.any fun d =>
      decide (statusMap (db.getNodeExecutionsForExecution x.executionId) d = some .failed)) = true := by
    rw [List.any_eq_true]
    rintro ⟨d, hd, hf⟩
    exact hstart.no_failed hd (of_decide_eq_true hf)
  unfold dispatch
  dsimp only
  rw [if_neg (by simp [hx']), if_neg hfailed, hresolve]
  simp only [bind, Except.bind]
  by_cases hp : ∀ r, db.node x.executionId n.id = some r → r.status ≠ .pending
  · rw [if_pos ((claimPendingNodes_isEmpty hs.nodes_keyed).2 hp)]
    exact ⟨_, _, rfl, fun r hr hst => absurd hst (hp r hr)⟩
  · rw [if_neg (mt (claimPendingNodes_isEmpty hs.nodes_keyed).1 hp)]
    push Not at hp
    obtain ⟨r, hr, hst⟩ := hp
    obtain ⟨hno, hfresh⟩ := hpending ((status_of_node hr).trans hst)
    have hregister :=
      @registerTask_total (db.claimPendingNodes x.executionId [n.id] now).2 x now n input attemptId hno hids
        hattempt hfresh
    rw [hregister]
    exact ⟨_, _, rfl, fun _ _ _ => rfl⟩

theorem readyNodes_total (hx : db.getExecutionById e = some x) (hw : db.getWorkflowById x.workflowId = some w)
    (ready : List String) : readyNodes e ready db = .ok (x, w.nodes.filter fun n => decide (n.id ∈ ready)) := by
  simp only [readyNodes, hx, hw]

theorem evaluateReadiness_total (hx : db.getExecutionById e = some x) (hw : db.getWorkflowById x.workflowId = some w) :
    evaluateReadiness e db =
      .ok (evaluateReadyNodeIds w (statusMap (db.getNodeExecutionsForExecution e))) := by
  simp only [evaluateReadiness, evaluateReadinessFor, hx, hw]

/-! ## Completion -/

theorem recordSuccess_total {taskId attemptId eventId : Uuid} {r : TaskAttemptRecord}
    (hattempt : db.getAttempt attemptId = some r) (htask : r.taskId = taskId) :
    ∃ recorded db', db.recordSuccess taskId attemptId eventId now = .ok (recorded, db') := by
  unfold recordSuccess
  split
  · exact ⟨_, _, rfl⟩
  · rw [hattempt]
    dsimp only
    rw [if_neg (not_not.2 htask)]
    split
    · exact ⟨_, _, rfl⟩
    · split <;> exact ⟨_, _, rfl⟩

/-- The successor of the last attempt can be scheduled. -/
theorem closeFailedAttempt_total {maxAttempts : Nat} {eventId next : Uuid}
    {errorMessage errorType : String} {at' : Time} {r : TaskAttemptRecord}
    (hfresh : ∀ r' ∈ db.taskAttempts, r'.failureEventId ≠ some eventId)
    (hlast : ∀ r' ∈ db.taskAttempts, r'.taskId = r.taskId → r'.attemptNumber ≤ r.attemptNumber)
    (hnext : ∀ r' ∈ db.taskAttempts, r'.attemptId ≠ next) (hretry : ∀ d ∈ db.taskRetryDispatches, d.attemptId ≠ next) :
    ∃ decision db', closeFailedAttempt r eventId errorMessage errorType now maxAttempts at' next db =
      .ok (decision, db') := by
  have hany : ¬ (db.taskAttempts.any fun r' => decide (r'.attemptId ≠ r.attemptId ∧
      r'.failureEventId = some eventId)) = true := by
    rw [List.any_eq_true]
    rintro ⟨r', hr', hp⟩
    exact hfresh r' hr' (of_decide_eq_true hp).2
  have hretry' : ¬ (db.taskRetryDispatches.any fun d => decide (d.attemptId = next)) = true := by
    rw [List.any_eq_true]
    rintro ⟨d, hd, hp⟩
    exact hretry d hd (of_decide_eq_true hp)
  have hrows : ∀ p ∈ (db.updateAttempt r.attemptId (failedWith eventId errorMessage errorType now)).taskAttempts,
      ∃ p₀ ∈ db.taskAttempts, p.slot = p₀.slot := by
    intro p hp
    obtain ⟨p₀, hp₀, hslot, -⟩ := updateAttempt_failedWith.1 p hp
    exact ⟨p₀, hp₀, hslot⟩
  simp only [TaskAttemptRecord.slot, Prod.mk.injEq] at hrows
  have hinsert := @insertAttempt_total (db.updateAttempt r.attemptId (failedWith eventId errorMessage errorType now))
    (scheduledAttempt next r.taskId (r.attemptNumber + 1) at')
    (fun p hp => by
      obtain ⟨p₀, hp₀, hid, -⟩ := hrows p hp
      rw [hid]
      exact hnext p₀ hp₀)
    (fun p hp htask => by
      obtain ⟨p₀, hp₀, -, htask₀, hnumber⟩ := hrows p hp
      have hle := hlast p₀ hp₀ (htask₀.symm.trans htask)
      simp only [hnumber, scheduledAttempt]
      omega)
  unfold closeFailedAttempt
  rw [if_neg hany]
  simp only [bind, Except.bind, pure, Except.pure]
  split
  · exact ⟨_, _, rfl⟩
  · split
    · rename_i herror
      cases hinsert.symm.trans herror
    · rename_i db₁ hok
      cases hinsert.symm.trans hok
      simp only [insertRetryDispatch]
      rw [if_neg (by exact hretry')]
      exact ⟨_, _, rfl⟩

theorem recordFailure_total {maxAttempts : Nat} {taskId attemptId eventId next : Uuid}
    {errorMessage errorType : String} {at' : Time} {r : TaskAttemptRecord} (hpos : 1 ≤ maxAttempts)
    (hattempt : db.getAttempt attemptId = some r) (htask : r.taskId = taskId)
    (hnumbered : Numbered maxAttempts db.taskAttempts) (hnext : ∀ r' ∈ db.taskAttempts, r'.attemptId ≠ next)
    (hretry : ∀ d ∈ db.taskRetryDispatches, d.attemptId ≠ next) :
    ∃ decision db', db.recordFailure taskId attemptId eventId errorMessage errorType now maxAttempts at' next =
      .ok (decision, db') := by
  unfold recordFailure
  rw [if_neg (by omega)]
  split
  · exact ⟨_, _, rfl⟩
  · split
    · exact ⟨_, _, rfl⟩
    · rename_i hany
      rw [hattempt]
      dsimp only
      rw [if_neg (not_not.2 htask)]
      split
      · exact ⟨_, _, rfl⟩
      · rename_i hopen
        have hfresh : ∀ r' ∈ db.taskAttempts, r'.failureEventId ≠ some eventId := by
          simpa using hany
        refine closeFailedAttempt_total hfresh (fun r' hr' htask' => ?_) hnext hretry
        by_contra hlt
        exact hopen (.inl (hnumbered.closed r (attempt_some hattempt).1 r' hr' htask'.symm (by omega)))

variable {event : TaskCompletionEvent}

theorem consultRetries_total {policy : RetryPolicy} {existing : NodeExecutionRecord} {next : Uuid}
    {r : TaskAttemptRecord} (hattempt : db.getAttempt event.attemptId = some r) (htask : r.taskId = event.taskId)
    (hfailed : event.status = .failed → ∃ message type at', event.errorMessage = some message ∧
      event.errorType = some type ∧ retryAt policy now event.attemptNumber = .ok at')
    (hnumbered : Numbered policy.maxAttempts db.taskAttempts) (hnext : ∀ r' ∈ db.taskAttempts, r'.attemptId ≠ next)
    (hretry : ∀ d ∈ db.taskRetryDispatches, d.attemptId ≠ next) :
    ∃ early db', consultRetries policy event existing next now db = .ok (early, db') := by
  unfold consultRetries
  split
  · obtain ⟨recorded, db', h⟩ :=
      @recordSuccess_total db now event.taskId event.attemptId event.eventId r hattempt htask
    rw [h]
    exact ⟨_, _, rfl⟩
  · rename_i hst
    obtain ⟨message, type, at', hm, ht, hat⟩ := hfailed hst
    obtain ⟨decision, db', h⟩ :=
      @recordFailure_total db now policy.maxAttempts event.taskId event.attemptId event.eventId
        next message type at' r policy.maxAttempts_pos hattempt htask hnumbered hnext hretry
    rw [hm, ht]
    simp only [hat, bind, Except.bind, h]
    cases decision <;> exact ⟨_, _, rfl⟩

theorem announceFailures_total (ids : List String) : ∀ {db : Database}, ids.Nodup →
    (∀ i ∈ ids, Fresh (nodeFailedEventId event i) db) → ∃ db', announceFailures event now ids db = .ok db' := by
  induction ids with
  | nil => exact fun _ _ => ⟨_, rfl⟩
  | cons i ids ih =>
    intro db hnodup hfresh
    obtain ⟨hi, hnodup⟩ := List.nodup_cons.1 hnodup
    simp only [announceFailures, bind, Except.bind]
    rw [addMessage_total (hfresh i List.mem_cons_self)]
    refine ih hnodup fun j hj => (hfresh j (List.mem_cons_of_mem _ hj)).push fun row hrow hid => ?_
    rw [List.mem_singleton.1 hrow] at hid
    simp only [outboxRow, nodeFailedEventId, Uuid.v5.injEq, true_and] at hid
    exact hi ((String.append_left_inj _).1 hid ▸ hj)

theorem nodup_returning_pending (hs : db.Sound) {ids : List String} :
    (Table.returning (pendingNode e ids) (·.nodeId) db.nodeExecutions).Nodup := by
  have hkeys : ((db.nodeExecutions.filter (pendingNode e ids)).map nodeKey).Nodup :=
    hs.nodes_keyed.sublist (List.filter_sublist.map _)
  have hmap : (db.nodeExecutions.filter (pendingNode e ids)).map nodeKey =
      ((db.nodeExecutions.filter (pendingNode e ids)).map (·.nodeId)).map fun j => (e, j) := by
    rw [List.map_map]
    refine List.map_congr_left fun r hr => ?_
    have hp := (List.mem_filter.1 hr).2
    simp only [pendingNode, decide_eq_true_eq] at hp
    simp [nodeKey, hp.1]
  rw [hmap] at hkeys
  exact hkeys.of_map _

/-- No message of the outbox is named after the event. -/
def FreshFor (event : TaskCompletionEvent) (db : Database) : Prop := ∀ id, DerivedFrom event.eventId id → Fresh id db

theorem finalizeAs_total {new : WorkflowExecutionStatus} {messageType : MessageType} {correlationId : Uuid}
    (hfresh : Fresh (workflowEventId correlationId e new.value) db) :
    ∃ db', finalizeAs e correlationId new messageType now db = .ok db' := by
  unfold finalizeAs
  dsimp only
  split
  · exact ⟨_, addMessage_total hfresh⟩
  · exact ⟨_, rfl⟩

theorem evaluateFinalization_total {correlationId : Uuid} (hw : db.getWorkflowById x.workflowId = some w)
    (hfresh : ∀ status, Fresh (workflowEventId correlationId e status) db) :
    ∃ db', evaluateFinalization e x correlationId now db = .ok db' := by
  unfold evaluateFinalization
  dsimp only
  split
  · exact finalizeAs_total (hfresh _)
  · rw [hw]
    dsimp only
    split
    · exact finalizeAs_total (hfresh _)
    · exact ⟨_, rfl⟩

/-- What the announcements of the propagation leave for the messages that follow them. -/
structure Announced (event : TaskCompletionEvent) (db db' : Database) : Prop where
  workflows : db'.workflows = db.workflows
  node : Fresh event.eventId db'
  execution : ∀ status, Fresh (workflowEventId event.eventId event.executionId status) db'

theorem propagateFailure_total (hs : db.Sound) (hw : db.getWorkflowById x.workflowId = some w) (hwf : w.WellFormed)
    {d : Nat} (hid : event.eventId = .v4 d) (hfresh : FreshFor event db) {rows : List NodeExecutionRecord} :
    ∃ db', propagateFailure event x rows now db = .ok db' ∧ Announced event db db' := by
  obtain ⟨blocked, hblocked, -⟩ := evaluateFailedDependencyNodeIds_spec hwf.closed (failedAt event rows)
  have hfields := (failPendingNodes_fields db event.executionId blocked (dependencyReason event.nodeId) now).1
  have hnodup : (db.failPendingNodes event.executionId blocked (dependencyReason event.nodeId) now).1.Nodup := by
    unfold failPendingNodes
    split
    · exact List.nodup_nil
    · exact nodup_returning_pending hs
  have hfresh₁ :
      FreshFor event (db.failPendingNodes event.executionId blocked (dependencyReason event.nodeId) now).2 :=
    fun id hder row hrow => hfresh id hder row (hfields.outbox ▸ hrow)
  obtain ⟨db', h⟩ := @announceFailures_total now event _ _ hnodup fun i _ => hfresh₁ _ (.inr ⟨_, _, _, rfl⟩)
  have hblocked' : evaluateFailedDependencyNodeIds w
      (fun i => if i = event.nodeId then some .failed else statusMap rows i) = .ok blocked := hblocked
  refine ⟨db', by simp only [propagateFailure, hw, hblocked', bind, Except.bind, h], ?_⟩
  rw [announceFailures_ok _ h]
  refine ⟨hfields.workflows.symm, (hfresh₁ _ (.inl rfl)).push fun row hrow => ?_,
    fun status => (hfresh₁ _ (.inr ⟨_, _, _, rfl⟩)).push fun row hrow => ?_⟩
  · obtain ⟨i, -, rfl⟩ := List.mem_map.1 hrow
    simp [outboxRow, nodeFailedEventId, hid]
  · obtain ⟨i, -, rfl⟩ := List.mem_map.1 hrow
    simp [outboxRow, nodeFailedEventId]

theorem afterUpdate_total (hs : db.Sound) (hw : db.getWorkflowById x.workflowId = some w)
    (hwf : w.WellFormed) {d : Nat} (hid : event.eventId = .v4 d) (hfresh : FreshFor event db)
    {rows : List NodeExecutionRecord} :
    ∃ result, afterUpdate event x rows now db = .ok result := by
  -- the message of the node, then that of the execution
  have hrest : ∀ {db₁ : Database} {messageType : MessageType}, Announced event db db₁ → ∃ db₂ db₃,
      db₁.addMessage event.eventId messageType .events event.executionId (.node event) now = .ok db₂ ∧
        db₂.getWorkflowById x.workflowId = some w ∧
        evaluateFinalization event.executionId x event.eventId now db₂ = .ok db₃ := by
    intro db₁ messageType hann
    have hw₁ : db₁.getWorkflowById x.workflowId = some w := by
      rw [getWorkflowById, hann.workflows]
      exact hw
    obtain ⟨db₃, h₃⟩ := @evaluateFinalization_total
      (db₁.pushOutbox [outboxRow event.eventId messageType .events event.executionId (.node event) now])
      event.executionId x w now event.eventId hw₁ fun status => (hann.execution status).push fun row hrow => by
        rw [List.mem_singleton.1 hrow]
        simp [outboxRow, workflowEventId, hid]
    exact ⟨_, db₃, addMessage_total hann.node, hw₁, h₃⟩
  cases hst : event.status with
  | completed =>
    obtain ⟨db₂, db₃, h₂, hw₂, h₃⟩ := @hrest db event.status.messageType
      ⟨rfl, hfresh _ (.inl rfl), fun status => hfresh _ (.inr ⟨_, _, _, rfl⟩)⟩
    rw [hst] at h₂
    simp only [afterUpdate, hst, bind, Except.bind, h₂, evaluateReadinessFor, hw₂, h₃]
    exact ⟨_, rfl⟩
  | failed =>
    obtain ⟨db₁, h₁, hann⟩ := @propagateFailure_total db x w now event hs hw hwf d hid hfresh rows
    obtain ⟨db₂, db₃, h₂, hw₂, h₃⟩ := @hrest db₁ event.status.messageType hann
    rw [hst] at h₂
    simp only [afterUpdate, hst, bind, Except.bind, h₁, h₂, h₃]
    exact ⟨_, rfl⟩

theorem completeNode_total (hs : db.Sound) (hw : db.getWorkflowById x.workflowId = some w)
    (hwf : w.WellFormed) {d : Nat} (hid : event.eventId = .v4 d) {existing : NodeExecutionRecord}
    (hn : db.node event.executionId event.nodeId = some existing) (hstarted : existing.status ≠ .pending)
    (hfresh : existing.status = .running → FreshFor event db) {rows : List NodeExecutionRecord} :
    ∃ result, completeNode event x rows existing now db = .ok result := by
  by_cases hr : existing.status = .running
  · have hafter : ∀ {target output errorMessage errorType}, ∃ result, afterUpdate event x rows now
        (db.updateNodeIfCurrent event.executionId event.nodeId .running target output errorMessage errorType none
          (some now)).2 = .ok result :=
      afterUpdate_total (updateNodeIfCurrent_evolves.sound hs) hw hwf hid (hfresh hr)
    cases hst : event.status with
    | completed =>
      simp only [completeNode, hst]
      rw [if_pos ((updateNodeIfCurrent_fst hs).2 ⟨existing, hn, hr⟩)]
      exact hafter
    | failed =>
      simp only [completeNode, hst]
      rw [if_pos ((updateNodeIfCurrent_fst hs).2 ⟨existing, hn, hr⟩)]
      exact hafter
  · have hended : existing.status = .completed ∨ existing.status = .failed := by
      cases hst : existing.status with
      | pending => exact absurd hst hstarted
      | running => exact absurd hst hr
      | completed => exact .inl rfl
      | failed => exact .inr rfl
    have hnot : ∀ {target output errorMessage errorType}, ¬ (db.updateNodeIfCurrent event.executionId event.nodeId
        .running target output errorMessage errorType none (some now)).1 = true := by
      intro target output errorMessage errorType hupdated
      obtain ⟨r, hr', hrunning⟩ := (updateNodeIfCurrent_fst hs).1 hupdated
      rw [hn] at hr'
      cases hr'
      exact hr hrunning
    unfold completeNode
    dsimp only
    rw [if_neg hnot, if_pos hended]
    exact ⟨_, rfl⟩

/-- What the processing of an event relies on. -/
structure Processable (policy : RetryPolicy) (event : TaskCompletionEvent) (next : Uuid) (now : Time) (db : Database) :
    Prop where
  task : event.taskId = createTaskId event.executionId event.nodeId
  drawn : ∃ d, event.eventId = .v4 d
  attempt : ∃ r, db.getAttempt event.attemptId = some r ∧ r.taskId = event.taskId
  started : db.status event.executionId event.nodeId ≠ .pending
  failed : event.status = .failed → ∃ message type at', event.errorMessage = some message ∧
    event.errorType = some type ∧ retryAt policy now event.attemptNumber = .ok at'
  numbered : Numbered policy.maxAttempts db.taskAttempts
  unused : ∀ r ∈ db.taskAttempts, r.attemptId ≠ next
  retry : ∀ d ∈ db.taskRetryDispatches, d.attemptId ≠ next
  fresh : db.status event.executionId event.nodeId = .running → FreshFor event db

theorem process_total {policy : RetryPolicy} {next : Uuid} (hs : db.Sound) (h : Processable policy event next now db) :
    ∃ result, process policy event next now db = .ok result := by
  obtain ⟨existing, hn⟩ : ∃ existing, db.node event.executionId event.nodeId = some existing := by
    cases hn : db.node event.executionId event.nodeId with
    | none => exact absurd (by simp [status, hn]) h.started
    | some existing => exact ⟨existing, rfl⟩
  obtain ⟨hmem, he, -⟩ := node_some hn
  obtain ⟨x, hx⟩ := hs.node_execution existing hmem
  rw [he] at hx
  obtain ⟨w, hw, hwf, -⟩ := hs.workflow _ x hx
  obtain ⟨r, hattempt, htask⟩ := h.attempt
  obtain ⟨d, hid⟩ := h.drawn
  obtain ⟨early, db₁, hconsult⟩ := @consultRetries_total db now event policy existing next r hattempt htask h.failed
    h.numbered h.unused h.retry
  have hsame := (consultRetries_ok hconsult).sameRuns
  unfold process
  rw [if_neg (not_not.2 h.task), hx]
  dsimp only
  rw [find?_node, hn]
  simp only [hconsult, bind, Except.bind]
  cases early with
  | some decision => exact ⟨_, rfl⟩
  | none =>
    refine completeNode_total (hsame.evolves.sound hs) (by rw [hsame.evolves.getWorkflowById, hw]) hwf hid
      (by rw [hsame.node, hn]) ?_ fun hr => ?_
    · rw [← status_of_node hn]
      exact h.started
    · intro id hder row hrow
      exact h.fresh ((status_of_node hn).trans hr) id hder row (hsame.outbox ▸ hrow)

end Database

namespace System

variable {cfg : Config} {s : System} {e : Uuid} {i : String}

/-! ## In a reachable state -/

/-- The node's one task, seen from a message of it. -/
theorem Dispatches.issued (h : Dispatches s) {m : NodeTaskMessage} (hm : s.db.Issued m) :
    m.taskId = createTaskId m.executionId m.nodeId ∧ s.Claimed m.executionId m.nodeId ∧
      s.db.status m.executionId m.nodeId ≠ .pending := by
  obtain ⟨task, htask, hid⟩ := List.mem_map.1 hm.2
  simp only [LogicalTaskRecord.identity, Prod.mk.injEq] at hid
  obtain ⟨hid, he, hi, -⟩ := hid
  refine ⟨by rw [← hid, ← he, ← hi]; exact h.ids task htask, ?_⟩
  rcases h.node m.executionId m.nodeId with ⟨hclaimed, -, hst⟩ | ⟨-, ⟨hno, -⟩, -⟩
  · exact ⟨hclaimed, hst⟩
  · have hmem : task ∈ s.db.tasksOf m.executionId m.nodeId := by simp [tasksOf, htask, he, hi]
    rw [hno] at hmem
    cases hmem

/-- The attempt a message is for. -/
theorem AttemptIds.issued (h : AttemptIds s) {m : NodeTaskMessage} (hm : s.db.Issued m) :
    ∃ r, s.db.getAttempt m.attemptId = some r ∧ r.taskId = m.taskId ∧ r.attemptNumber = m.attemptNumber := by
  obtain ⟨r, hr, hslot⟩ := List.mem_map.1 hm.1
  simp only [TaskAttemptRecord.slot, Prod.mk.injEq] at hslot
  exact ⟨r, h.getAttempt hr hslot.1, hslot.2⟩

theorem AttemptIds.unused (h : AttemptIds s) : ∀ r ∈ s.db.taskAttempts, r.attemptId ≠ .v4 s.draws := by
  intro r hr he
  obtain ⟨d, hlt, hid⟩ := h.drawn r hr
  rw [hid] at he
  cases he
  exact lt_irrefl _ hlt

theorem Sequences.retry_unused (h : Sequences cfg s) : ∀ d ∈ s.db.taskRetryDispatches, d.attemptId ≠ .v4 s.draws := by
  intro d hd he
  obtain ⟨n, hlt, hn⟩ := h.retries d hd
  rw [hn] at he
  cases he
  exact lt_irrefl _ hlt

/-- Two events of one identifier are of one node. -/
theorem same_node (h : Reachable cfg anyStep s) {event event' : TaskCompletionEvent}
    (hmem : event ∈ s.completions.entries) (hmem' : event' ∈ s.completions.entries)
    (hid : event.eventId = event'.eventId) :
    event.executionId = event'.executionId ∧ event.nodeId = event'.nodeId := by
  have hknows := Knows.published hmem'
  rw [← hid] at hknows
  have hattempt := (reachable_identifiers h).unique _ _ _ (.published hmem) hknows
  obtain ⟨m, hm, hreports⟩ := ((reachable_workers h).completions event hmem).task
  obtain ⟨m', hm', hreports'⟩ := ((reachable_workers h).completions event' hmem').task
  have hissued := (reachable_messages h).entries m hm
  have hissued' := (reachable_messages h).entries m' hm'
  obtain ⟨r, hr, htask, -⟩ := (reachable_attemptIds h).issued hissued
  obtain ⟨r', hr', htask', -⟩ := (reachable_attemptIds h).issued hissued'
  rw [← hreports.attemptId, hattempt, hreports'.attemptId, hr'] at hr
  cases hr
  have hnode := createTaskId_injective (((reachable_dispatches h).issued hissued).1.symm.trans
    (htask.symm.trans (htask'.trans ((reachable_dispatches h).issued hissued').1)))
  rw [hreports.executionId, hreports.nodeId, hreports'.executionId, hreports'.nodeId]
  exact hnode

/-- A name that no inserted row has is not in the outbox either. -/
theorem Identifiers.fresh (h : Identifiers s) {id : Uuid} (hid : ∀ row ∈ s.db.outboxInserted, row.messageId ≠ id) :
    Fresh id s.db := by
  intro row hrow
  obtain ⟨row₀, hrow₀, hcontent⟩ := h.stored row hrow
  rw [show row.messageId = row₀.messageId from congrArg Prod.fst hcontent]
  exact hid row₀ hrow₀

/-- No row is named after the task of a node that was not claimed. -/
theorem Identifiers.task_unused (h : Identifiers s) (hno : ¬ s.Claimed e i) :
    ∀ row ∈ s.db.outboxInserted, row.messageId ≠ createTaskId e i := by
  intro row hrow hid
  cases h.named row hrow with
  | trigger _ id =>
    rw [id] at hid
    cases hid
  | task _ id claimed =>
    obtain ⟨rfl, rfl⟩ := createTaskId_injective (id.symm.trans hid)
    exact hno claimed
  | event _ mem derived =>
    obtain ⟨d, -, hd⟩ := h.drawn _ _ (.published mem)
    rcases derived with he | ⟨label, e', suffix, he⟩
    · rw [hid, hd] at he
      cases he
    · rw [hid, hd] at he
      cases he

/-- A row that is named after a published event tells that the node of this event has ended. -/
theorem Identifiers.event_row (h : Identifiers s) {event : TaskCompletionEvent} (hmem : event ∈ s.completions.entries)
    {row : OutboxEventRecord} (hrow : row ∈ s.db.outboxInserted) (hder : DerivedFrom event.eventId row.messageId) :
    ∃ event' ∈ s.completions.entries, event'.eventId = event.eventId ∧
      s.db.Ended event'.executionId event'.nodeId := by
  obtain ⟨d, -, hd⟩ := h.drawn _ _ (.published hmem)
  cases h.named row hrow with
  | trigger _ id _ unknown =>
    rcases hder with he | ⟨label, e, suffix, he⟩
    · exact absurd (he ▸ .published hmem) (unknown event.attemptId)
    · rw [id] at he
      cases he
  | task _ id =>
    rcases hder with he | ⟨label, e, suffix, he⟩
    · rw [id, hd] at he
      cases he
    · rw [id, hd] at he
      cases he
  | @event event' _ mem derived ended =>
    obtain ⟨d', -, hd'⟩ := h.drawn _ _ (.published mem)
    refine ⟨event', mem, ?_, ended⟩
    rcases hder with he | ⟨label, e, suffix, he⟩ <;> rcases derived with he' | ⟨label', e', suffix', he'⟩
    · exact he'.symm.trans he
    · rw [he', hd] at he
      cases he
    · rw [he', hd'] at he
      cases he
    · exact (Uuid.v5.inj (he'.symm.trans he)).1

/-- No row is named after an event whose node still runs. -/
theorem event_unused (h : Reachable cfg anyStep s) {event : TaskCompletionEvent} (hmem : event ∈ s.completions.entries)
    (hrunning : s.db.status event.executionId event.nodeId = .running) {id : Uuid}
    (hder : DerivedFrom event.eventId id) :
    ∀ row ∈ s.db.outboxInserted, row.messageId ≠ id := by
  intro row hrow hid
  obtain ⟨event', mem, heq, ended⟩ := (reachable_identifiers h).event_row hmem hrow (hid ▸ hder)
  obtain ⟨he, hi⟩ := same_node h mem hmem heq
  rw [he, hi] at ended
  exact ended.not_running hrunning

/-- The dispatch of a startable node whose input resolves returns, and dispatches a pending node. -/
theorem dispatch_returns (h : Reachable cfg anyStep s) {x : WorkflowExecutionRecord} {n : WorkflowNode}
    {input : Dict Json} (hstart : s.db.Startable x.executionId n)
    (hresolve : NodeInputResolver.resolve cfg.strFloat n x.inputData (completedDependencyOutputs x.executionId n
      (s.db.getNodeExecutionsForExecution x.executionId)) = .ok input) :
    ∃ result db, dispatch cfg.strFloat x n (.v4 s.draws) s.now s.db = .ok (result, db) ∧
      ∀ r, s.db.node x.executionId n.id = some r → r.status = .pending → result.outcome = .dispatched := by
  refine dispatch_total (reachable_consistent h).sound hstart hresolve (reachable_dispatches h).ids
    (reachable_attemptIds h).unused fun hpending => ?_
  rcases (reachable_dispatches h).node x.executionId n.id with ⟨-, -, hst⟩ | ⟨hno, hnone, -⟩
  · exact absurd hpending hst
  · exact ⟨hnone, (reachable_identifiers h).fresh ((reachable_identifiers h).task_unused hno)⟩

/-- The processing of a published event returns, if the instant of the next retry exists. -/
theorem process_returns (h : Reachable cfg anyStep s) {event : TaskCompletionEvent}
    (hmem : event ∈ s.completions.entries)
    (hretry : event.status = .failed → ∃ at', retryAt cfg.policy s.now event.attemptNumber = .ok at') :
    ∃ result, process cfg.policy event (.v4 s.draws) s.now s.db = .ok result := by
  obtain ⟨-, hbuilt, m, hm, hreports⟩ := (reachable_workers h).completions event hmem
  have hissued := (reachable_messages h).entries m hm
  obtain ⟨htask, -, hst⟩ := (reachable_dispatches h).issued hissued
  obtain ⟨r, hr, hrtask, -⟩ := (reachable_attemptIds h).issued hissued
  obtain ⟨d, -, hd⟩ := (reachable_identifiers h).drawn _ _ (.published hmem)
  refine process_total (reachable_consistent h).sound ⟨?_, ⟨d, hd⟩, ⟨r, ?_, ?_⟩, ?_, fun hfailed => ?_,
    (reachable_sequences h).numbered, (reachable_attemptIds h).unused, (reachable_sequences h).retry_unused,
    fun hrunning id hder => (reachable_identifiers h).fresh (event_unused h hmem hrunning hder)⟩
  · rw [hreports.taskId, hreports.executionId, hreports.nodeId, htask]
  · rw [hreports.attemptId, hr]
  · rw [hrtask, hreports.taskId]
  · rw [hreports.executionId, hreports.nodeId]
    exact hst
  · obtain ⟨at', hat⟩ := hretry hfailed
    cases hbuilt with
    | completed status => rw [hfailed] at status; cases status
    | failed _ _ message type => exact ⟨_, _, at', message, type, hat⟩

/-- The read of a ready set of an execution that exists returns its nodes. -/
theorem readyNodes_returns (h : Reachable cfg anyStep s) {x : WorkflowExecutionRecord}
    (hx : s.db.getExecutionById e = some x) (ready : List String) : ∃ w, s.db.getWorkflowById x.workflowId = some w ∧
      readyNodes e ready s.db = .ok (x, w.nodes.filter fun n => decide (n.id ∈ ready)) := by
  obtain ⟨w, hw, -⟩ := (reachable_consistent h).sound.workflow e x hx
  exact ⟨w, hw, readyNodes_total hx hw ready⟩

end System

end WorkflowEngine
