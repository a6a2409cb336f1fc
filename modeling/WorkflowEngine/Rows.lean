import WorkflowEngine.Acceptance
import WorkflowEngine.DependencyRun
import WorkflowEngine.Services

/-!
# Rows by key

The tables as maps by key, how each repository function changes these maps, and the frames
of the functions: which tables a call leaves alone. Later proofs use these statements and
never unfold a repository function again.
-/
namespace WorkflowEngine

theorem Except.bind_eq_ok {ε α β : Type} {x : Except ε α} {f : α → Except ε β} {b : β} :
    (x >>= f) = .ok b ↔ ∃ a, x = .ok a ∧ f a = .ok b := by
  cases x <;> simp [bind, Except.bind]

namespace Database

variable {db db' : Database} {e e' : Uuid} {i i' : String}

/-! ## Rows by key -/

def nodeKey (r : NodeExecutionRecord) : Uuid × String := (r.workflowExecutionId, r.nodeId)

def node (db : Database) (e : Uuid) (i : String) : Option NodeExecutionRecord :=
  Table.lookup nodeKey (e, i) db.nodeExecutions

theorem node_some {r : NodeExecutionRecord} (h : db.node e i = some r) :
    r ∈ db.nodeExecutions ∧ r.workflowExecutionId = e ∧ r.nodeId = i := by
  obtain ⟨hmem, hkey⟩ := Table.lookup_some h
  simp only [nodeKey, Prod.mk.injEq] at hkey
  exact ⟨hmem, hkey⟩

theorem find?_node : (db.getNodeExecutionsForExecution e).find? (fun r => decide (r.nodeId = i)) = db.node e i := by
  rw [getNodeExecutionsForExecution, List.find?_filter]
  simp [node, Table.lookup, nodeKey]

theorem statusMap_node : statusMap (db.getNodeExecutionsForExecution e) i = (db.node e i).map (·.status) := by
  rw [statusMap, find?_node]

/-- The committed status of a node; a node without a row counts as pending. -/
def status (db : Database) (e : Uuid) (i : String) : NodeExecutionStatus :=
  ((db.node e i).map (·.status)).getD .pending

theorem statusMap_of : StatusMap.of (statusMap (db.getNodeExecutionsForExecution e)) i = db.status e i := by
  rw [StatusMap.of, statusMap_node, status]

theorem status_of_node {r : NodeExecutionRecord} (h : db.node e i = some r) : db.status e i = r.status := by
  simp [status, h]

theorem exists_node_of_started (h : db.status e i ≠ .pending) : ∃ r, db.node e i = some r := by
  cases hn : db.node e i with
  | none => exact absurd (by simp [status, hn]) h
  | some r => exact ⟨r, rfl⟩

/-- The execution as a dependency-ordered run. -/
def run (db : Database) (e : Uuid) : DependencyRun String :=
  ⟨((db.getExecutionById e).map (·.status)).getD .pending, db.status e⟩

theorem execution_some {x : WorkflowExecutionRecord} (h : db.getExecutionById e = some x) :
    x ∈ db.workflowExecutions ∧ x.executionId = e :=
  Table.lookup_some h

/-- What the tables owe to their keys and to each other. -/
structure Sound (db : Database) : Prop where
  executions_keyed : Table.Keyed (·.executionId) db.workflowExecutions
  nodes_keyed : Table.Keyed nodeKey db.nodeExecutions
  node_execution : ∀ r ∈ db.nodeExecutions, ∃ x, db.getExecutionById r.workflowExecutionId = some x
  workflow : ∀ e x, db.getExecutionById e = some x → ∃ w, db.getWorkflowById x.workflowId = some w ∧
    w.WellFormed ∧ (db.getNodeExecutionsForExecution e).map (·.nodeId) = w.nodeIds

/-! ## Repository functions on the maps -/

theorem node_updateNodeIfCurrent {expected new : NodeExecutionStatus} {output : Option Json}
    {errorMessage errorType : Option String} {startedAt completedAt : Option Time} :
    (db.updateNodeIfCurrent e i expected new output errorMessage errorType startedAt completedAt).2.node e' i' =
      (db.node e' i').map fun r => if e' = e ∧ i' = i ∧ r.status = expected then
        { r with
          status := new
          outputData := output.getD r.outputData
          errorMessage := errorMessage.or r.errorMessage
          errorType := errorType.or r.errorType
          startedAt := startedAt.or r.startedAt
          completedAt := completedAt.or r.completedAt } else r := by
  simp only [node, updateNodeIfCurrent]
  rw [Table.lookup_updateWhere (by intro r; rfl)]
  cases h : Table.lookup nodeKey (e', i') db.nodeExecutions with
  | none => rfl
  | some r =>
    obtain ⟨-, rfl, rfl⟩ := node_some h
    simp

theorem updateNodeIfCurrent_fst (hs : db.Sound) {expected new : NodeExecutionStatus} {output : Option Json}
    {errorMessage errorType : Option String} {startedAt completedAt : Option Time} :
    (db.updateNodeIfCurrent e i expected new output errorMessage errorType startedAt completedAt).1 = true ↔
      ∃ r, db.node e i = some r ∧ r.status = expected := by
  simp only [updateNodeIfCurrent]
  rw [hs.nodes_keyed.any_iff (k := (e, i)) (by simp +contextual [nodeKey])]
  constructor
  · rintro ⟨r, hr, hp⟩
    exact ⟨r, hr, (of_decide_eq_true hp).2.2⟩
  · rintro ⟨r, hr, hp⟩
    obtain ⟨-, he, hi⟩ := node_some hr
    exact ⟨r, hr, by simp [he, hi, hp]⟩

theorem updateNodeIfCurrent_false {expected new : NodeExecutionStatus} {output : Option Json}
    {errorMessage errorType : Option String} {startedAt completedAt : Option Time}
    (h : (db.updateNodeIfCurrent e i expected new output errorMessage errorType startedAt completedAt).1 = false) :
    (db.updateNodeIfCurrent e i expected new output errorMessage errorType startedAt completedAt).2 = db := by
  simp only [updateNodeIfCurrent] at h ⊢
  rw [Table.updateWhere_eq_self h]

theorem node_updateWhere_pending {ids : List String} {f : NodeExecutionRecord → NodeExecutionRecord}
    (hf : ∀ r, nodeKey (f r) = nodeKey r) :
    Table.lookup nodeKey (e', i') (Table.updateWhere (pendingNode e ids) f db.nodeExecutions) =
      (db.node e' i').map fun r => if e' = e ∧ i' ∈ ids ∧ r.status = .pending then f r else r := by
  rw [Table.lookup_updateWhere hf]
  cases h : db.node e' i' with
  | none => simp only [node] at h; simp [h]
  | some r =>
    obtain ⟨-, rfl, rfl⟩ := node_some h
    simp only [node] at h
    simp [h, pendingNode]

theorem node_claimPendingNodes {ids : List String} {now : Time} :
    (db.claimPendingNodes e ids now).2.node e' i' = (db.node e' i').map fun r =>
      if e' = e ∧ i' ∈ ids ∧ r.status = .pending then
        { r with status := .running, startedAt := some now } else r := by
  unfold claimPendingNodes
  split
  · rename_i h
    have : ids = [] := by simpa using h
    simp [this]
  · exact node_updateWhere_pending fun r => rfl

theorem node_failPendingNodes {ids : List String} {reason : String} {now : Time} :
    (db.failPendingNodes e ids reason now).2.node e' i' = (db.node e' i').map fun r =>
      if e' = e ∧ i' ∈ ids ∧ r.status = .pending then
        { r with
          status := .failed
          errorMessage := some reason
          errorType := some "FailedDependency"
          completedAt := some now } else r := by
  unfold failPendingNodes
  split
  · rename_i h
    have : ids = [] := by simpa using h
    simp [this]
  · exact node_updateWhere_pending fun r => rfl

theorem mem_returning_pending (hk : Table.Keyed nodeKey db.nodeExecutions) {ids : List String} :
    i ∈ Table.returning (pendingNode e ids) (·.nodeId) db.nodeExecutions ↔
      i ∈ ids ∧ ∃ r, db.node e i = some r ∧ r.status = .pending := by
  simp only [Table.returning, List.mem_map, List.mem_filter, pendingNode, decide_eq_true_eq]
  constructor
  · rintro ⟨r, ⟨hr, rfl, hi, hp⟩, rfl⟩
    exact ⟨hi, r, hk.lookup_iff.2 ⟨hr, rfl⟩, hp⟩
  · rintro ⟨hi, r, hr, hp⟩
    obtain ⟨hmem, rfl, rfl⟩ := node_some hr
    exact ⟨r, ⟨hmem, rfl, hi, hp⟩, rfl⟩

theorem getExecutionById_updateExecutionIfCurrent {expected new : WorkflowExecutionStatus}
    {startedAt completedAt : Option Time} {input : Option (Dict Json)} :
    (db.updateExecutionIfCurrent e expected new startedAt completedAt input).2.getExecutionById e' =
      (db.getExecutionById e').map fun x => if e' = e ∧ x.status = expected then
        { x with
          status := new
          startedAt := startedAt.or x.startedAt
          completedAt := completedAt.or x.completedAt
          inputData := input.getD x.inputData } else x := by
  simp only [getExecutionById, updateExecutionIfCurrent]
  rw [Table.lookup_updateWhere (by intro r; rfl)]
  cases h : Table.lookup WorkflowExecutionRecord.executionId e' db.workflowExecutions with
  | none => rfl
  | some x =>
    obtain ⟨-, rfl⟩ := execution_some h
    simp

theorem updateExecutionIfCurrent_fst (hs : db.Sound) {expected new : WorkflowExecutionStatus}
    {startedAt completedAt : Option Time} {input : Option (Dict Json)} :
    (db.updateExecutionIfCurrent e expected new startedAt completedAt input).1 = true ↔
      ∃ x, db.getExecutionById e = some x ∧ x.status = expected := by
  simp only [updateExecutionIfCurrent]
  rw [hs.executions_keyed.any_iff (k := e) (by simp +contextual)]
  constructor
  · rintro ⟨x, hx, hp⟩
    exact ⟨x, hx, (of_decide_eq_true hp).2⟩
  · rintro ⟨x, hx, hp⟩
    exact ⟨x, hx, by simp [(execution_some hx).2, hp]⟩

theorem updateExecutionIfCurrent_false {expected new : WorkflowExecutionStatus}
    {startedAt completedAt : Option Time} {input : Option (Dict Json)}
    (h : (db.updateExecutionIfCurrent e expected new startedAt completedAt input).1 = false) :
    (db.updateExecutionIfCurrent e expected new startedAt completedAt input).2 = db := by
  simp only [updateExecutionIfCurrent] at h ⊢
  rw [Table.updateWhere_eq_self h]

/-! ## The outbox -/

/-- A row as `add_message` writes it. -/
def outboxRow (messageId : Uuid) (messageType : MessageType) (targetStream : StreamName) (aggregateId : Uuid)
    (payload : OutboxPayload) (now : Time) : OutboxEventRecord :=
  ⟨messageId, messageType, targetStream, aggregateId, payload, .pending, 0, none, now, none⟩

def pushOutbox (rows : List OutboxEventRecord) (db : Database) : Database :=
  { db with outboxEvents := db.outboxEvents ++ rows, outboxInserted := db.outboxInserted ++ rows }

@[simp] theorem pushOutbox_getExecutionById {rows : List OutboxEventRecord} :
    (db.pushOutbox rows).getExecutionById e = db.getExecutionById e := rfl

@[simp] theorem pushOutbox_node {rows : List OutboxEventRecord} : (db.pushOutbox rows).node e i = db.node e i := rfl

@[simp] theorem pushOutbox_run {rows : List OutboxEventRecord} : (db.pushOutbox rows).run e = db.run e := rfl

theorem addMessage_ok {messageId aggregateId : Uuid} {messageType : MessageType} {targetStream : StreamName}
    {payload : OutboxPayload} {now : Time}
    (h : db.addMessage messageId messageType targetStream aggregateId payload now = .ok db') :
    db' = db.pushOutbox [outboxRow messageId messageType targetStream aggregateId payload now] := by
  unfold addMessage at h
  split at h
  · cases h
  · cases h
    rfl

/-! ## Frames -/

/-- Only statuses and other data columns change: no row of these tables comes or goes. -/
structure Evolves (db db' : Database) : Prop where
  workflows : db'.workflows = db.workflows
  executions : db'.workflowExecutions.map (fun x => (x.executionId, x.workflowId)) =
    db.workflowExecutions.map fun x => (x.executionId, x.workflowId)
  nodes : db'.nodeExecutions.map nodeKey = db.nodeExecutions.map nodeKey

theorem Evolves.refl (db : Database) : Evolves db db := ⟨rfl, rfl, rfl⟩

theorem Evolves.trans {db₁ db₂ db₃ : Database} (h : Evolves db₁ db₂) (h' : Evolves db₂ db₃) : Evolves db₁ db₃ :=
  ⟨h'.workflows.trans h.workflows, h'.executions.trans h.executions, h'.nodes.trans h.nodes⟩

theorem Evolves.getWorkflowById (h : Evolves db db') (id : Uuid) :
    db'.getWorkflowById id = db.getWorkflowById id := by
  rw [Database.getWorkflowById, Database.getWorkflowById, h.workflows]

theorem Evolves.executions_keyed (h : Evolves db db')
    (hk : Table.Keyed (·.executionId) db.workflowExecutions) :
    Table.Keyed (·.executionId) db'.workflowExecutions := by
  have := congrArg (List.map Prod.fst) h.executions
  simp only [List.map_map] at this
  rw [Table.Keyed]
  exact (show db'.workflowExecutions.map (·.executionId) = _ from this) ▸ hk

theorem Evolves.symm (h : Evolves db db') : Evolves db' db :=
  ⟨h.workflows.symm, h.executions.symm, h.nodes.symm⟩

theorem Evolves.execution (h : Evolves db db') (hk : Table.Keyed (·.executionId) db.workflowExecutions)
    {x : WorkflowExecutionRecord} (hx : db.getExecutionById e = some x) :
    ∃ x', db'.getExecutionById e = some x' ∧ x'.workflowId = x.workflowId := by
  obtain ⟨hmem, rfl⟩ := execution_some hx
  have hpair : (x.executionId, x.workflowId) ∈ db'.workflowExecutions.map fun x => (x.executionId, x.workflowId) := by
    rw [h.executions]
    exact List.mem_map_of_mem hmem
  obtain ⟨x', hx', he⟩ := List.mem_map.1 hpair
  simp only [Prod.mk.injEq] at he
  exact ⟨x', (h.executions_keyed hk).lookup_iff.2 ⟨hx', he.1⟩, he.2⟩

theorem nodeIds_of_keys (db : Database) (e : Uuid) :
    (db.getNodeExecutionsForExecution e).map (·.nodeId) =
      ((db.nodeExecutions.map nodeKey).filter fun k => decide (k.1 = e)).map (·.2) := by
  rw [getNodeExecutionsForExecution, List.filter_map, List.map_map]
  rfl

theorem Evolves.nodeIds (h : Evolves db db') (e : Uuid) :
    (db'.getNodeExecutionsForExecution e).map (·.nodeId) = (db.getNodeExecutionsForExecution e).map (·.nodeId) := by
  rw [nodeIds_of_keys, nodeIds_of_keys, h.nodes]

theorem Evolves.sound (h : Evolves db db') (hs : db.Sound) : db'.Sound := by
  have hkeyed := h.executions_keyed hs.executions_keyed
  refine ⟨hkeyed, ?_, ?_, ?_⟩
  · rw [Table.Keyed, h.nodes]
    exact hs.nodes_keyed
  · intro r hr
    have hkey : nodeKey r ∈ db.nodeExecutions.map nodeKey := h.nodes ▸ List.mem_map_of_mem hr
    obtain ⟨r₀, hr₀, he⟩ := List.mem_map.1 hkey
    simp only [nodeKey, Prod.mk.injEq] at he
    obtain ⟨x, hx⟩ := hs.node_execution r₀ hr₀
    obtain ⟨x', hx', -⟩ := h.execution hs.executions_keyed hx
    exact ⟨x', he.1 ▸ hx'⟩
  · intro e x' hx'
    obtain ⟨x, hx, hid⟩ := h.symm.execution hkeyed hx'
    obtain ⟨w, hw, hwf, hids⟩ := hs.workflow e x hx
    exact ⟨w, by rw [h.getWorkflowById, ← hid, hw], hwf, by rw [h.nodeIds, hids]⟩

theorem updateNodeIfCurrent_evolves {expected new : NodeExecutionStatus} {output : Option Json}
    {errorMessage errorType : Option String} {startedAt completedAt : Option Time} :
    Evolves db (db.updateNodeIfCurrent e i expected new output errorMessage errorType startedAt completedAt).2 :=
  ⟨rfl, rfl, Table.map_updateWhere fun _ _ _ => rfl⟩

theorem claimPendingNodes_evolves {ids : List String} {now : Time} :
    Evolves db (db.claimPendingNodes e ids now).2 := by
  unfold claimPendingNodes
  split
  · exact .refl db
  · exact ⟨rfl, rfl, Table.map_updateWhere fun _ _ _ => rfl⟩

theorem failPendingNodes_evolves {ids : List String} {reason : String} {now : Time} :
    Evolves db (db.failPendingNodes e ids reason now).2 := by
  unfold failPendingNodes
  split
  · exact .refl db
  · exact ⟨rfl, rfl, Table.map_updateWhere fun _ _ _ => rfl⟩

theorem updateExecutionIfCurrent_evolves {expected new : WorkflowExecutionStatus}
    {startedAt completedAt : Option Time} {input : Option (Dict Json)} :
    Evolves db (db.updateExecutionIfCurrent e expected new startedAt completedAt input).2 :=
  ⟨rfl, Table.map_updateWhere fun _ _ _ => rfl, rfl⟩

theorem pushOutbox_evolves {rows : List OutboxEventRecord} : Evolves db (db.pushOutbox rows) := ⟨rfl, rfl, rfl⟩

/-- Only attempts, logical tasks and retry rows change. -/
structure SameRuns (db db' : Database) : Prop where
  workflows : db'.workflows = db.workflows
  executions : db'.workflowExecutions = db.workflowExecutions
  nodes : db'.nodeExecutions = db.nodeExecutions
  outbox : db'.outboxEvents = db.outboxEvents
  inserted : db'.outboxInserted = db.outboxInserted

theorem SameRuns.refl (db : Database) : SameRuns db db := ⟨rfl, rfl, rfl, rfl, rfl⟩

theorem markRetryPublished_sameRuns {attemptId : Uuid} {now : Time} :
    SameRuns db (db.markRetryPublished attemptId now).2 := by
  unfold markRetryPublished
  dsimp only
  split <;> exact ⟨rfl, rfl, rfl, rfl, rfl⟩

theorem SameRuns.evolves (h : SameRuns db db') : Evolves db db' :=
  ⟨h.workflows, by rw [h.executions], by rw [h.nodes]⟩

theorem SameRuns.node (h : SameRuns db db') : db'.node e i = db.node e i := by
  rw [Database.node, Database.node, h.nodes]

theorem SameRuns.getExecutionById (h : SameRuns db db') : db'.getExecutionById e = db.getExecutionById e := by
  rw [Database.getExecutionById, Database.getExecutionById, h.executions]

theorem SameRuns.rows (h : SameRuns db db') :
    db'.getNodeExecutionsForExecution e = db.getNodeExecutionsForExecution e := by
  rw [getNodeExecutionsForExecution, getNodeExecutionsForExecution, h.nodes]

theorem SameRuns.run (h : SameRuns db db') : db'.run e = db.run e := by
  have hst : db'.status e = db.status e := funext fun i => by rw [status, status, h.node]
  rw [Database.run, Database.run, h.getExecutionById, hst]

/-! ## Attempts -/

theorem attempt_some {a : Uuid} {r : TaskAttemptRecord} (h : db.getAttempt a = some r) :
    r ∈ db.taskAttempts ∧ r.attemptId = a :=
  Table.lookup_some h

theorem logicalTask_some {t : Uuid} {r : LogicalTaskRecord} (h : db.getLogicalTask t = some r) :
    r ∈ db.logicalTasks ∧ r.taskId = t :=
  Table.lookup_some h

theorem getAttempt_updateAttempt {a a' : Uuid} {f : TaskAttemptRecord → TaskAttemptRecord}
    (hf : ∀ r, (f r).attemptId = r.attemptId) :
    (db.updateAttempt a f).getAttempt a' = (db.getAttempt a').map fun r => if a' = a then f r else r := by
  simp only [getAttempt, updateAttempt]
  rw [Table.lookup_updateWhere hf]
  cases h : Table.lookup TaskAttemptRecord.attemptId a' db.taskAttempts with
  | none => rfl
  | some r =>
    obtain ⟨-, rfl⟩ := attempt_some h
    simp

theorem getAttempt_updated {a : Uuid} {r : TaskAttemptRecord} {f : TaskAttemptRecord → TaskAttemptRecord}
    (hf : ∀ r, (f r).attemptId = r.attemptId) (h : db.getAttempt a = some r) :
    (db.updateAttempt a f).getAttempt a = some (f r) := by
  rw [getAttempt_updateAttempt hf, h]
  simp

/-- The attempt's row after a success was recorded by the orchestrator. -/
def succeeded (eventId : Uuid) (now : Time) (r : TaskAttemptRecord) : TaskAttemptRecord :=
  { r with status := .completed, completionEventId := some eventId, completedAt := some now }

/-- The attempt's row after a failure was recorded by the orchestrator. -/
def failedWith (eventId : Uuid) (errorMessage errorType : String) (now : Time) (r : TaskAttemptRecord) :
    TaskAttemptRecord :=
  { r with
    status := .failed
    failureEventId := some eventId
    errorMessage := some errorMessage
    errorType := some errorType
    failedAt := some now }

theorem recordSuccess_ok {t a ev : Uuid} {now : Time} {recorded : Bool}
    (h : db.recordSuccess t a ev now = .ok (recorded, db')) :
    (db' = db ∧ recorded = true ∧ db.getLogicalTask t = none) ∨
    ∃ r, db.getAttempt a = some r ∧ r.taskId = t ∧
      ((db' = db ∧ recorded = false ∧ (r.completionEventId = some ev ∨
          ((r.status = .completed ∨ r.status = .failed) ∧ r.completionEventId.isSome))) ∨
        (recorded = true ∧ r.completionEventId ≠ some ev ∧
          ¬((r.status = .completed ∨ r.status = .failed) ∧ r.completionEventId.isSome) ∧
          db' = (db.updateAttempt a (succeeded ev now)).updateLogicalTask t
            fun task => { task with status := .completed })) := by
  unfold recordSuccess at h
  split at h
  · rename_i ht
    cases h
    exact .inl ⟨rfl, rfl, ht⟩
  · split at h
    · cases h
    · rename_i r hr
      refine .inr ⟨r, hr, ?_⟩
      split at h
      · cases h
      · rename_i htask
        refine ⟨not_not.1 htask, ?_⟩
        split at h
        · rename_i hc
          cases h
          exact .inl ⟨rfl, rfl, .inl hc⟩
        · rename_i hc
          split at h
          · rename_i hs
            cases h
            exact .inl ⟨rfl, rfl, .inr hs⟩
          · rename_i hs
            cases h
            exact .inr ⟨rfl, hc, hs, rfl⟩

/-- The successor of a failed attempt, with the row that waits for its publication. -/
def scheduleRetry (next task : Uuid) (number : Nat) (at' : Time) (db : Database) : Database :=
  { db with
    taskAttempts := db.taskAttempts ++ [scheduledAttempt next task number at']
    taskRetryDispatches := db.taskRetryDispatches ++ [⟨next, at', .pending, none⟩] }

/-- A failure that counts: the attempt exists, has not failed before, and was not completed
under another event. -/
structure FailureCounts (t a ev : Uuid) (db : Database) (r : TaskAttemptRecord) : Prop where
  attempt : db.getAttempt a = some r
  task : r.taskId = t
  open' : r.failureEventId = none
  not_completed : ¬(r.status = .completed ∧ r.completionEventId ≠ some ev)
  fresh : ∀ r' ∈ db.taskAttempts, r'.failureEventId ≠ some ev

theorem closeFailedAttempt_ok {r : TaskAttemptRecord} {ev next : Uuid} {errorMessage errorType : String}
    {now at' : Time} {maxAttempts : Nat} {d : RetryDecision}
    (h : closeFailedAttempt r ev errorMessage errorType now maxAttempts at' next db = .ok (d, db')) :
    (d = .exhausted ∧ maxAttempts ≤ r.attemptNumber ∧
      db' = (db.updateAttempt r.attemptId (failedWith ev errorMessage errorType now)).updateLogicalTask r.taskId
        fun task => { task with
          status := .failed, finalErrorMessage := some errorMessage, finalErrorType := some errorType }) ∨
    (d = .retryScheduled next (r.attemptNumber + 1) ∧ r.attemptNumber < maxAttempts ∧
      db' = ((db.updateAttempt r.attemptId (failedWith ev errorMessage errorType now)).scheduleRetry next r.taskId
        (r.attemptNumber + 1) at').updateLogicalTask r.taskId fun task =>
          { task with status := .retryScheduled }) := by
  unfold closeFailedAttempt at h
  simp only [bind, Except.bind] at h
  split at h
  · cases h
  · simp only [pure, Except.pure] at h
    split at h
    · rename_i hmax
      cases h
      exact .inl ⟨rfl, hmax, rfl⟩
    · rename_i hmax
      refine .inr ?_
      split at h
      · cases h
      · rename_i db₁ h₁
        split at h
        · cases h
        · rename_i db₂ h₂
          cases h
          refine ⟨rfl, by omega, ?_⟩
          unfold insertAttempt at h₁
          unfold insertRetryDispatch at h₂
          split at h₁
          · cases h₁
          · cases h₁
            split at h₂
            · cases h₂
            · cases h₂
              rfl

theorem recordFailure_ok {t a ev next : Uuid} {errorMessage errorType : String} {now at' : Time}
    {maxAttempts : Nat} {d : RetryDecision}
    (h : db.recordFailure t a ev errorMessage errorType now maxAttempts at' next = .ok (d, db')) :
    (d = .exhausted ∧ db' = db ∧ db.getLogicalTask t = none) ∨
    (d = .duplicate ∧ db' = db ∧ ((∃ r ∈ db.taskAttempts, r.failureEventId = some ev) ∨
      ∃ r, db.getAttempt a = some r ∧ (r.failureEventId.isSome ∨
        (r.status = .completed ∧ r.completionEventId ≠ some ev)))) ∨
    ∃ r, FailureCounts t a ev db r ∧
      closeFailedAttempt r ev errorMessage errorType now maxAttempts at' next db = .ok (d, db') := by
  unfold recordFailure at h
  split at h
  · cases h
  · split at h
    · rename_i ht
      cases h
      exact .inl ⟨rfl, rfl, ht⟩
    · split at h
      · rename_i hev
        cases h
        exact .inr (.inl ⟨rfl, rfl, .inl (by simpa using hev)⟩)
      · rename_i hev
        split at h
        · cases h
        · rename_i r hr
          split at h
          · cases h
          · rename_i htask
            split at h
            · rename_i hdup
              cases h
              exact .inr (.inl ⟨rfl, rfl, .inr ⟨r, hr, hdup⟩⟩)
            · rename_i hdup
              push Not at hdup
              refine .inr (.inr ⟨r, ⟨hr, not_not.1 htask, by simpa using hdup.1, by simpa using hdup.2, ?_⟩, h⟩)
              simpa using hev

end Database

end WorkflowEngine
