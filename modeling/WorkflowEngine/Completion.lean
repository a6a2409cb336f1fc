import WorkflowEngine.Rows

/-!
# What a completion does

The ways in which `TaskCompletionService.process` can return: what happens to the attempt,
to the node, downstream of it and to the execution, and which nodes are reported as ready.
-/
namespace WorkflowEngine

/-! ## Readiness and finalization -/

open Database

section services

variable {db db' : Database} {e : Uuid} {x x' : WorkflowExecutionRecord} {w : Workflow} {now : Time}

theorem evaluateReadinessFor_ok {ready : List String} (hw : db.getWorkflowById x.workflowId = some w)
    (h : evaluateReadinessFor e x db = .ok ready) {i : String} :
    i ∈ ready ↔ ∃ n ∈ w.nodes, n.id = i ∧ db.status e i = .pending ∧
      ∀ d ∈ n.dependencies, db.status e d = .completed := by
  simp only [evaluateReadinessFor, hw, Except.ok.injEq] at h
  subst h
  simp only [mem_evaluateReadyNodeIds, statusMap_of]

theorem Database.Sound.mem_nodeIds (hs : db.Sound) (hx : db.getExecutionById e = some x)
    (hw : db.getWorkflowById x.workflowId = some w) {i : String} :
    i ∈ w.nodeIds ↔ ∃ r, db.node e i = some r := by
  obtain ⟨w', hw', -, hids⟩ := hs.workflow e x hx
  rw [hw] at hw'
  cases hw'
  rw [← hids, List.mem_map]
  constructor
  · rintro ⟨r, hr, rfl⟩
    simp only [getNodeExecutionsForExecution, List.mem_filter, decide_eq_true_eq] at hr
    exact ⟨r, hs.nodes_keyed.lookup_iff.2 ⟨hr.1, by rw [nodeKey, hr.2]⟩⟩
  · rintro ⟨r, hr⟩
    obtain ⟨hmem, he, hi⟩ := node_some hr
    exact ⟨r, by simp [getNodeExecutionsForExecution, hmem, he], hi⟩

theorem any_failed (hs : db.Sound) (hx : db.getExecutionById e = some x)
    (hw : db.getWorkflowById x.workflowId = some w) :
    ((db.getNodeExecutionsForExecution e).any fun r => decide (r.status = .failed)) = true ↔
      ∃ i ∈ w.nodeIds, db.status e i = .failed := by
  simp only [List.any_eq_true, getNodeExecutionsForExecution, List.mem_filter, decide_eq_true_eq]
  constructor
  · rintro ⟨r, ⟨hr, rfl⟩, hf⟩
    have hn : db.node r.workflowExecutionId r.nodeId = some r := hs.nodes_keyed.lookup_iff.2 ⟨hr, rfl⟩
    exact ⟨r.nodeId, (hs.mem_nodeIds hx hw).2 ⟨r, hn⟩, by rw [status_of_node hn, hf]⟩
  · rintro ⟨i, hi, hf⟩
    obtain ⟨r, hr⟩ := (hs.mem_nodeIds hx hw).1 hi
    obtain ⟨hmem, he, -⟩ := node_some hr
    exact ⟨r, ⟨hmem, he⟩, by rw [← status_of_node hr, hf]⟩

theorem all_completed (hs : db.Sound) (hx : db.getExecutionById e = some x)
    (hw : db.getWorkflowById x.workflowId = some w) :
    (w.nodes.all fun n => decide (statusMap (db.getNodeExecutionsForExecution e) n.id = some .completed)) = true ↔
      ∀ i ∈ w.nodeIds, db.status e i = .completed := by
  simp only [List.all_eq_true, decide_eq_true_eq, Workflow.mem_nodeIds, statusMap_node]
  constructor
  · rintro h i ⟨n, hn, rfl⟩
    simp [status, h n hn]
  · intro h n hn
    obtain ⟨r, hr⟩ := (hs.mem_nodeIds hx hw).1 (Workflow.mem_nodeIds.2 ⟨n, hn, rfl⟩)
    have := h n.id ⟨n, hn, rfl⟩
    rw [status_of_node hr] at this
    simp [hr, this]

/-- The event's own identifier, or one derived from it by `uuid5`. -/
def DerivedFrom (eventId id : Uuid) : Prop := id = eventId ∨ ∃ label e suffix, id = .v5 eventId label e suffix

/-- Announces a status under an identifier of the event: neither a trigger nor a task. -/
def OutboxEventRecord.Announces (eventId : Uuid) (row : OutboxEventRecord) : Prop :=
  row.messageType ≠ .executionTriggered ∧ row.messageType ≠ .task ∧ row.targetStream = .events ∧
    (∀ message, row.payload ≠ .task message) ∧ DerivedFrom eventId row.messageId

/-- The only difference is in the status columns of executions, and in announcements. -/
structure Settles (eventId : Uuid) (db db' : Database) : Prop where
  evolves : Evolves db db'
  nodes : db'.nodeExecutions = db.nodeExecutions
  tasks : db'.logicalTasks = db.logicalTasks
  attempts : db'.taskAttempts = db.taskAttempts
  retries : db'.taskRetryDispatches = db.taskRetryDispatches
  outbox : ∃ rows, db'.outboxEvents = db.outboxEvents ++ rows ∧ db'.outboxInserted = db.outboxInserted ++ rows ∧
    ∀ row ∈ rows, row.Announces eventId
  input : ∀ e x', db'.getExecutionById e = some x' → ∃ x, db.getExecutionById e = some x ∧ x.inputData = x'.inputData

theorem Settles.refl (eventId : Uuid) (db : Database) : Settles eventId db db :=
  ⟨.refl db, rfl, rfl, rfl, rfl, ⟨[], by simp⟩, fun _ x' h => ⟨x', h, rfl⟩⟩

theorem finalizeAs_ok (hs : db.Sound) (hx : db.getExecutionById e = some x) {correlationId : Uuid}
    {new : WorkflowExecutionStatus} {messageType : MessageType}
    (hm : messageType = .executionCompleted ∨ messageType = .executionFailed)
    (h : finalizeAs e correlationId new messageType now db = .ok db') :
    Settles correlationId db db' ∧ (∀ e', e' ≠ e → db'.run e' = db.run e') ∧
      ((x.status ≠ .running ∧ db'.run e = db.run e) ∨
        (x.status = .running ∧ db'.run e = { db.run e with status := new })) := by
  unfold finalizeAs at h
  by_cases hr : x.status = .running
  · have hfst : (db.updateExecutionIfCurrent e .running new none (some now) none).1 = true :=
      (updateExecutionIfCurrent_fst hs).2 ⟨x, hx, hr⟩
    simp only [hfst, if_true] at h
    rw [addMessage_ok h]
    have hget : ∀ e', (db.updateExecutionIfCurrent e .running new none (some now) none).2.getExecutionById e' =
        (db.getExecutionById e').map fun x => if e' = e ∧ x.status = .running then
          { x with status := new, completedAt := some now } else x :=
      fun _ => getExecutionById_updateExecutionIfCurrent
    refine ⟨⟨updateExecutionIfCurrent_evolves.trans pushOutbox_evolves, rfl, rfl, rfl, rfl, ⟨_, rfl, rfl, ?_⟩, ?_⟩,
      ?_, .inr ⟨hr, ?_⟩⟩
    · rcases hm with rfl | rfl <;> simp [OutboxEventRecord.Announces, DerivedFrom, outboxRow, workflowEventId]
    · intro e' x' hx'
      rw [pushOutbox_getExecutionById, hget, Option.map_eq_some_iff] at hx'
      obtain ⟨x₀, hx₀, rfl⟩ := hx'
      exact ⟨x₀, hx₀, by split <;> rfl⟩
    · intro e' he'
      rw [pushOutbox_run, Database.run, Database.run, hget]
      simp only [he', false_and, if_false, Option.map_id']
      rfl
    · rw [pushOutbox_run, Database.run, Database.run, hget, hx]
      simp [hr]
      rfl
  · have hfst : (db.updateExecutionIfCurrent e .running new none (some now) none).1 = false := by
      rw [Bool.eq_false_iff, ne_eq, updateExecutionIfCurrent_fst hs]
      rintro ⟨x', hx', hr'⟩
      rw [hx] at hx'
      cases hx'
      exact hr hr'
    simp only [hfst, Bool.false_eq_true, if_false, Except.ok.injEq] at h
    rw [updateExecutionIfCurrent_false hfst] at h
    subst h
    exact ⟨.refl _ db, fun _ _ => rfl, .inl ⟨hr, rfl⟩⟩

theorem evaluateFinalization_ok (hs : db.Sound) (hx : db.getExecutionById e = some x')
    (hid : x'.workflowId = x.workflowId) (hw : db.getWorkflowById x.workflowId = some w) {correlationId : Uuid}
    (h : evaluateFinalization e x correlationId now db = .ok db') :
    Settles correlationId db db' ∧ (∀ e', e' ≠ e → db'.run e' = db.run e') ∧
      db'.run e = DependencyRun.settle w.nodeIds (db.run e) := by
  have hst : (db.run e).status = x'.status := by simp [Database.run, hx]
  have hfailed : _ ↔ ∃ i ∈ w.nodeIds, (db.run e).nodes i = .failed := any_failed hs hx (hid ▸ hw)
  have hall : _ ↔ ∀ i ∈ w.nodeIds, (db.run e).nodes i = .completed := all_completed hs hx (hid ▸ hw)
  simp only [evaluateFinalization] at h
  split at h
  · rename_i hf
    obtain ⟨hset, hothers, hrun⟩ := finalizeAs_ok hs hx (.inr rfl) h
    refine ⟨hset, hothers, ?_⟩
    rcases hrun with ⟨hr, hrun⟩ | ⟨hr, hrun⟩
    · rw [hrun, DependencyRun.settle, if_neg (by rw [hst]; exact hr)]
    · rw [hrun, DependencyRun.settle, if_pos (hst.trans hr), if_pos (hfailed.1 hf)]
  · rename_i hf
    rw [hw] at h
    dsimp only at h
    split at h
    · rename_i hc
      obtain ⟨hset, hothers, hrun⟩ := finalizeAs_ok hs hx (.inl rfl) h
      refine ⟨hset, hothers, ?_⟩
      rcases hrun with ⟨hr, hrun⟩ | ⟨hr, hrun⟩
      · rw [hrun, DependencyRun.settle, if_neg (by rw [hst]; exact hr)]
      · rw [hrun, DependencyRun.settle, if_pos (hst.trans hr), if_neg (mt hfailed.2 hf), if_pos (hall.1 hc)]
    · rename_i hc
      cases h
      refine ⟨.refl _ db, fun _ _ => rfl, ?_⟩
      by_cases hr : (db.run e).status = .running
      · rw [DependencyRun.settle, if_pos hr, if_neg (mt hfailed.2 hf), if_neg (mt hall.2 hc)]
      · rw [DependencyRun.settle, if_neg hr]

/-! ## Completion -/

theorem announceFailures_ok {event : TaskCompletionEvent} (ids : List String) :
    ∀ {db : Database}, announceFailures event now ids db = .ok db' →
      db' = db.pushOutbox (ids.map fun i => outboxRow (nodeFailedEventId event i) .nodeFailed .events
        event.executionId (.dependencyFailed event.executionId i (dependencyReason event.nodeId)) now) := by
  induction ids with
  | nil =>
    intro db h
    cases h
    simp [pushOutbox]
  | cons i ids ih =>
    intro db h
    obtain ⟨db₁, h₁, h₂⟩ := Except.bind_eq_ok.1 h
    rw [addMessage_ok h₁] at h₂
    rw [ih h₂]
    simp [pushOutbox]

/-- The statuses failure propagation starts from. -/
def failedAt (event : TaskCompletionEvent) (rows : List NodeExecutionRecord) : StatusMap :=
  fun i => if i = event.nodeId then some .failed else statusMap rows i

/-- What a completion that ends a node leaves alone, and what it writes as the node's output. -/
structure Ends (event : TaskCompletionEvent) (output : Json) (db db' : Database) : Prop where
  evolves : Evolves db db'
  tasks : db'.logicalTasks = db.logicalTasks
  attempts : db'.taskAttempts = db.taskAttempts
  retries : db'.taskRetryDispatches = db.taskRetryDispatches
  outbox : ∃ rows, db'.outboxEvents = db.outboxEvents ++ rows ∧ db'.outboxInserted = db.outboxInserted ++ rows ∧
    ∀ row ∈ rows, row.Announces event.eventId
  input : ∀ e x', db'.getExecutionById e = some x' → ∃ x, db.getExecutionById e = some x ∧ x.inputData = x'.inputData
  others : ∀ e', e' ≠ event.executionId → db'.run e' = db.run e'
  output : ∀ e j r', db'.node e j = some r' → ∃ r, db.node e j = some r ∧
    r'.outputData = if e = event.executionId ∧ j = event.nodeId then output else r.outputData

/-- The update of the node's own row in `completeNode`. -/
def endNode (event : TaskCompletionEvent) (target : NodeExecutionStatus) (output : Json)
    (errorMessage errorType : Option String) (now : Time) (db : Database) : Database :=
  (db.updateNodeIfCurrent event.executionId event.nodeId .running target (some output) errorMessage errorType none
    (some now)).2

variable {event : TaskCompletionEvent}

theorem node_endNode {target : NodeExecutionStatus} {output : Json} {errorMessage errorType : Option String}
    {r : NodeExecutionRecord} (hn : db.node event.executionId event.nodeId = some r) (hr : r.status = .running)
    {e : Uuid} {j : String} :
    (endNode event target output errorMessage errorType now db).node e j = (db.node e j).map fun r =>
      if e = event.executionId ∧ j = event.nodeId then
        { r with
          status := target
          outputData := output
          errorMessage := errorMessage.or r.errorMessage
          errorType := errorType.or r.errorType
          startedAt := r.startedAt
          completedAt := some now } else r := by
  rw [endNode, node_updateNodeIfCurrent]
  by_cases h : e = event.executionId ∧ j = event.nodeId
  · obtain ⟨rfl, rfl⟩ := h
    simp [hn, hr]
  · congr 1
    funext r
    rw [if_neg h, if_neg fun h' => h ⟨h'.1, h'.2.1⟩]

theorem status_endNode {target : NodeExecutionStatus} {output : Json} {errorMessage errorType : Option String}
    {r : NodeExecutionRecord} (hn : db.node event.executionId event.nodeId = some r) (hr : r.status = .running) :
    (endNode event target output errorMessage errorType now db).status event.executionId =
      Function.update (db.status event.executionId) event.nodeId target := by
  funext j
  rw [status, node_endNode hn hr]
  by_cases hj : j = event.nodeId
  · subst hj
    simp [hn]
  · simp [hj, status]

theorem run_endNode_ne {target : NodeExecutionStatus} {output : Json} {errorMessage errorType : Option String}
    {e : Uuid} (he : e ≠ event.executionId) :
    (endNode event target output errorMessage errorType now db).run e = db.run e := by
  have hst : (endNode event target output errorMessage errorType now db).status e = db.status e := by
    funext j
    rw [status, status, endNode, node_updateNodeIfCurrent]
    simp [he]
  rw [Database.run, Database.run, hst]
  rfl

theorem ends_endNode {target : NodeExecutionStatus} {output : Json} {errorMessage errorType : Option String}
    {r : NodeExecutionRecord} (hn : db.node event.executionId event.nodeId = some r) (hr : r.status = .running) :
    Ends event output db (endNode event target output errorMessage errorType now db) := by
  refine ⟨updateNodeIfCurrent_evolves, rfl, rfl, rfl, ⟨[], ?_⟩, fun _ x' h => ⟨x', h, rfl⟩,
    fun e' he' => run_endNode_ne he', ?_⟩
  · simp [endNode, updateNodeIfCurrent]
  · intro e j r' hr'
    rw [node_endNode hn hr, Option.map_eq_some_iff] at hr'
    obtain ⟨r₀, hr₀, rfl⟩ := hr'
    refine ⟨r₀, hr₀, ?_⟩
    split <;> rfl

theorem Ends.push {output : Json} (h : Ends event output db db') {rows : List OutboxEventRecord}
    (hrows : ∀ row ∈ rows, row.Announces event.eventId) : Ends event output db (db'.pushOutbox rows) := by
  obtain ⟨rows₀, h₁, h₂, h₃⟩ := h.outbox
  refine ⟨h.evolves.trans pushOutbox_evolves, h.tasks, h.attempts, h.retries, ⟨rows₀ ++ rows, ?_, ?_, ?_⟩,
    h.input, h.others, h.output⟩
  · simp [pushOutbox, h₁]
  · simp [pushOutbox, h₂]
  · simpa [or_imp, forall_and] using ⟨h₃, hrows⟩

theorem failPendingNodes_fields (db : Database) (e : Uuid) (ids : List String) (reason : String) (now : Time) :
    SameRuns { (db.failPendingNodes e ids reason now).2 with nodeExecutions := db.nodeExecutions } db ∧
      (db.failPendingNodes e ids reason now).2.logicalTasks = db.logicalTasks ∧
      (db.failPendingNodes e ids reason now).2.taskAttempts = db.taskAttempts ∧
      (db.failPendingNodes e ids reason now).2.taskRetryDispatches = db.taskRetryDispatches := by
  unfold failPendingNodes
  split
  · exact ⟨.refl db, rfl, rfl, rfl⟩
  · exact ⟨⟨rfl, rfl, rfl, rfl, rfl⟩, rfl, rfl, rfl⟩

theorem Ends.failPending {output : Json} (h : Ends event output db db') {ids : List String} {reason : String} :
    Ends event output db (db'.failPendingNodes event.executionId ids reason now).2 := by
  obtain ⟨hsame, htasks, hattempts, hretries⟩ :=
    failPendingNodes_fields db' event.executionId ids reason now
  have hx : ∀ e, (db'.failPendingNodes event.executionId ids reason now).2.getExecutionById e =
      db'.getExecutionById e := fun e => (hsame.getExecutionById (e := e)).symm
  refine ⟨h.evolves.trans failPendingNodes_evolves, htasks.trans h.tasks, hattempts.trans h.attempts,
    hretries.trans h.retries, ?_, fun e x' hx' => h.input e x' (hx e ▸ hx'), ?_, ?_⟩
  · obtain ⟨rows, h₁, h₂, h₃⟩ := h.outbox
    exact ⟨rows, hsame.outbox ▸ h₁, hsame.inserted ▸ h₂, h₃⟩
  · intro e' he'
    rw [← h.others e' he', Database.run, Database.run, hx]
    have hst : (db'.failPendingNodes event.executionId ids reason now).2.status e' = db'.status e' := by
      funext j
      rw [status, status, node_failPendingNodes]
      simp [he']
    rw [hst]
  · intro e j r' hr'
    rw [node_failPendingNodes, Option.map_eq_some_iff] at hr'
    obtain ⟨r₀, hr₀, rfl⟩ := hr'
    obtain ⟨r, hr, hout⟩ := h.output e j r₀ hr₀
    refine ⟨r, hr, ?_⟩
    rw [← hout]
    split <;> rfl

theorem Ends.settles {output : Json} {db₁ : Database} (h : Ends event output db db₁)
    (hs : Settles event.eventId db₁ db') (hothers : ∀ e', e' ≠ event.executionId → db'.run e' = db₁.run e') :
    Ends event output db db' := by
  obtain ⟨rows₀, h₁, h₂, h₃⟩ := h.outbox
  obtain ⟨rows, h₁', h₂', h₃'⟩ := hs.outbox
  refine ⟨h.evolves.trans hs.evolves, hs.tasks.trans h.tasks, hs.attempts.trans h.attempts,
    hs.retries.trans h.retries, ⟨rows₀ ++ rows, by simp [h₁', h₁], by simp [h₂', h₂], ?_⟩, ?_,
    fun e' he' => (hothers e' he').trans (h.others e' he'), ?_⟩
  · simpa [or_imp, forall_and] using ⟨h₃, h₃'⟩
  · intro e x' hx'
    obtain ⟨x₁, hx₁, hi₁⟩ := hs.input e x' hx'
    obtain ⟨x, hx, hi⟩ := h.input e x₁ hx₁
    exact ⟨x, hx, hi.trans hi₁⟩
  · intro e j r' hr'
    rw [Database.node, hs.nodes] at hr'
    exact h.output e j r' hr'

theorem Settles.status {eventId : Uuid} (h : Settles eventId db db') {e : Uuid} : db'.status e = db.status e := by
  funext j
  rw [Database.status, Database.status, Database.node, Database.node, h.nodes]

theorem afterUpdate_completed (hs : db.Sound) {r : NodeExecutionRecord}
    (hn : db.node event.executionId event.nodeId = some r) (hr : r.status = .running)
    (hx : db.getExecutionById event.executionId = some x) (hw : db.getWorkflowById x.workflowId = some w)
    (hst : event.status = .completed) {rows : List NodeExecutionRecord} {errorMessage errorType : Option String}
    {decision : TaskCompletionDecision}
    (h : afterUpdate event x rows now (endNode event .completed event.outputData errorMessage errorType now db) =
      .ok (decision, db')) :
    Ends event event.outputData db db' ∧
      db'.run event.executionId = DependencyRun.settle w.nodeIds
        { db.run event.executionId with
          nodes := Function.update (db.run event.executionId).nodes event.nodeId .completed } ∧
      decision.outcome = .processed ∧
      ∀ i, i ∈ decision.readyNodeIds ↔ ∃ n ∈ w.nodes, n.id = i ∧ db'.status event.executionId i = .pending ∧
        ∀ d ∈ n.dependencies, db'.status event.executionId d = .completed := by
  simp only [afterUpdate, hst] at h
  obtain ⟨db₁, h₁, h⟩ := Except.bind_eq_ok.1 h
  cases h₁
  obtain ⟨db₂, h₂, h⟩ := Except.bind_eq_ok.1 h
  have hpush := addMessage_ok h₂
  obtain ⟨ready, hready, h⟩ := Except.bind_eq_ok.1 h
  obtain ⟨db₃, h₃, h⟩ := Except.bind_eq_ok.1 h
  cases h
  have hends : Ends event event.outputData db db₂ := by
    rw [hpush]
    refine (ends_endNode hn hr).push fun row hrow => ?_
    rw [List.mem_singleton.1 hrow]
    simp [OutboxEventRecord.Announces, DerivedFrom, outboxRow, TaskCompletionStatus.messageType]
  have hx₂ : db₂.getExecutionById event.executionId = some x := by rw [hpush]; exact hx
  have hw₂ : db₂.getWorkflowById x.workflowId = some w := by rw [hends.evolves.getWorkflowById, hw]
  obtain ⟨hset, hothers, hrun⟩ := evaluateFinalization_ok (hends.evolves.sound hs) hx₂ rfl hw₂ h₃
  refine ⟨hends.settles hset hothers, ?_, rfl, fun i => ?_⟩
  · rw [hrun, hpush, pushOutbox_run, Database.run, Database.run, status_endNode hn hr]
    rfl
  · rw [hset.status]
    exact evaluateReadinessFor_ok hw₂ hready

theorem failedAt_of {j : String} :
    (failedAt event (db.getNodeExecutionsForExecution event.executionId)).of j =
      if j = event.nodeId then .failed else db.status event.executionId j := by
  by_cases hj : j = event.nodeId
  · simp [failedAt, StatusMap.of, hj]
  · simpa [failedAt, StatusMap.of, hj] using @statusMap_of db event.executionId j

/-- From a consistent state propagation reaches exactly what is downstream of the failed node. -/
theorem blocked_iff_downstream
    (hc : DependencyRun.Consistent w.nodeIds w.DependsOn (db.run event.executionId))
    (hr : db.status event.executionId event.nodeId = .running) {j : String} :
    Blocked w (failedAt event (db.getNodeExecutionsForExecution event.executionId)) j ↔
      DependencyRun.Downstream w.DependsOn (db.status event.executionId) event.nodeId j := by
  have hpending : ∀ {n}, (failedAt event (db.getNodeExecutionsForExecution event.executionId)).of n = .pending ↔
      db.status event.executionId n = .pending := by
    intro n
    rw [failedAt_of]
    by_cases hn : n = event.nodeId
    · simp [hn, hr]
    · simp [hn]
  constructor
  · intro h
    induction h with
    | @direct n d mem pending dep failed =>
      have hdep : w.DependsOn n.id d := ⟨n, mem, rfl, dep⟩
      rw [failedAt_of] at failed
      split at failed
      · rename_i hd
        exact .direct (hd ▸ hdep) (hpending.1 pending)
      · exact absurd failed (hc.waiting n.id d hdep (hpending.1 pending))
    | @through n d mem pending dep _ ih => exact .through ⟨n, mem, rfl, dep⟩ (hpending.1 pending) ih
  · intro h
    induction h with
    | direct dep pending =>
      obtain ⟨n, mem, rfl, hd⟩ := dep
      exact .direct mem (hpending.2 pending) hd (by simp [failedAt_of])
    | through dep pending _ ih =>
      obtain ⟨n, mem, rfl, hd⟩ := dep
      exact .through mem (hpending.2 pending) hd ih

theorem afterUpdate_failed (hs : db.Sound) {r : NodeExecutionRecord}
    (hn : db.node event.executionId event.nodeId = some r) (hr : r.status = .running)
    (hx : db.getExecutionById event.executionId = some x) (hw : db.getWorkflowById x.workflowId = some w)
    (hwf : w.WellFormed) (hc : DependencyRun.Consistent w.nodeIds w.DependsOn (db.run event.executionId))
    (hst : event.status = .failed) {errorMessage errorType : Option String} {output : Json}
    {decision : TaskCompletionDecision}
    (h : afterUpdate event x (db.getNodeExecutionsForExecution event.executionId) now
      (endNode event .failed output errorMessage errorType now db) = .ok (decision, db')) :
    Ends event output db db' ∧
      db'.run event.executionId = DependencyRun.settle w.nodeIds
        { db.run event.executionId with
          nodes := DependencyRun.failFrom w.DependsOn (db.run event.executionId).nodes event.nodeId } ∧
      decision.outcome = .processed ∧ decision.readyNodeIds = [] := by
  simp only [afterUpdate, hst] at h
  obtain ⟨db₁, h₁, h⟩ := Except.bind_eq_ok.1 h
  obtain ⟨db₂, h₂, h⟩ := Except.bind_eq_ok.1 h
  have hpush := addMessage_ok h₂
  obtain ⟨ready, hready, h⟩ := Except.bind_eq_ok.1 h
  cases hready
  obtain ⟨db₃, h₃, h⟩ := Except.bind_eq_ok.1 h
  cases h
  have hst₀ : db.status event.executionId event.nodeId = .running := by rw [status_of_node hn, hr]
  obtain ⟨ids, hids, -, -, hblocked⟩ := evaluateFailedDependencyNodeIds_spec hwf.closed
    (failedAt event (db.getNodeExecutionsForExecution event.executionId))
  have hw₀ : (endNode event .failed output errorMessage errorType now db).getWorkflowById x.workflowId = some w := hw
  simp only [propagateFailure, hw₀] at h₁
  obtain ⟨ids', hids', h₁⟩ := Except.bind_eq_ok.1 h₁
  have he : ids' = ids := Except.ok.inj (hids'.symm.trans hids)
  subst he
  have hann := announceFailures_ok _ h₁
  have hends : Ends event output db db₂ := by
    rw [hpush, hann]
    refine (((ends_endNode hn hr).failPending).push fun row hrow => ?_).push fun row hrow => ?_
    · obtain ⟨i, -, rfl⟩ := List.mem_map.1 hrow
      simp [OutboxEventRecord.Announces, DerivedFrom, outboxRow, nodeFailedEventId]
    · rw [List.mem_singleton.1 hrow]
      simp [OutboxEventRecord.Announces, DerivedFrom, outboxRow, TaskCompletionStatus.messageType]
  have hsame :=
    failPendingNodes_fields (endNode event .failed output errorMessage errorType now db) event.executionId ids'
      (dependencyReason event.nodeId) now
  have hx₂ : db₂.getExecutionById event.executionId = some x := by
    rw [hpush, hann, pushOutbox_getExecutionById, pushOutbox_getExecutionById]
    exact (hsame.1.getExecutionById (e := event.executionId)).symm.trans hx
  have hw₂ : db₂.getWorkflowById x.workflowId = some w := by rw [hends.evolves.getWorkflowById, hw]
  obtain ⟨hset, hothers, hrun⟩ := evaluateFinalization_ok (hends.evolves.sound hs) hx₂ rfl hw₂ h₃
  refine ⟨hends.settles hset hothers, ?_, rfl, rfl⟩
  have hnodes : db₂.status event.executionId =
      DependencyRun.failFrom w.DependsOn (db.status event.executionId) event.nodeId := by
    funext j
    rw [hpush, hann, status, pushOutbox_node, pushOutbox_node, node_failPendingNodes, node_endNode hn hr,
      DependencyRun.failFrom]
    have hmem : j ∈ ids' ↔ _ := (hblocked j).trans (blocked_iff_downstream hc hst₀)
    by_cases hj : j = event.nodeId
    · subst hj
      simp [hn]
    · by_cases hd : DependencyRun.Downstream w.DependsOn (db.status event.executionId) event.nodeId j
      · obtain ⟨r', hr'⟩ := (hs.mem_nodeIds hx hw).1 ((blocked_iff_downstream hc hst₀).2 hd).mem
        have hp : r'.status = .pending := by rw [← status_of_node hr']; exact hd.pending
        simp [hj, hd, hr', hp, hmem.2 hd]
      · simp [hj, hd, status, mt hmem.1 hd]
  rw [hrun, Database.run, hnodes, hx₂, Database.run, hx]

/-! ## The whole transaction -/

/-- The ways in which the retry repository can answer. -/
inductive Consulted (policy : RetryPolicy) (event : TaskCompletionEvent) (existing : NodeExecutionRecord) (next : Uuid)
    (now : Time) (db : Database) : Option TaskCompletionDecision → Database → Prop where
  | successUntracked (status : event.status = .completed) (task : db.getLogicalTask event.taskId = none) :
      Consulted policy event existing next now db none db
  | successKnown {r : TaskAttemptRecord} (status : event.status = .completed)
      (attempt : db.getAttempt event.attemptId = some r) (task : r.taskId = event.taskId)
      (known : r.completionEventId = some event.eventId ∨
        ((r.status = .completed ∨ r.status = .failed) ∧ r.completionEventId.isSome)) :
      Consulted policy event existing next now db
        (if existing.status = .running then none else some (duplicateDecision event)) db
  | success {r : TaskAttemptRecord} (status : event.status = .completed)
      (attempt : db.getAttempt event.attemptId = some r) (task : r.taskId = event.taskId)
      (unknown : r.completionEventId ≠ some event.eventId)
      (open' : ¬((r.status = .completed ∨ r.status = .failed) ∧ r.completionEventId.isSome)) :
      Consulted policy event existing next now db none
        ((db.updateAttempt event.attemptId (succeeded event.eventId now)).updateLogicalTask event.taskId
          fun task => { task with status := .completed })
  | failureUntracked (status : event.status = .failed) (task : db.getLogicalTask event.taskId = none) :
      Consulted policy event existing next now db none db
  | failureDuplicate (status : event.status = .failed)
      (known : (∃ r ∈ db.taskAttempts, r.failureEventId = some event.eventId) ∨
        ∃ r, db.getAttempt event.attemptId = some r ∧ (r.failureEventId.isSome ∨
          (r.status = .completed ∧ r.completionEventId ≠ some event.eventId))) :
      Consulted policy event existing next now db (some (duplicateDecision event)) db
  | exhausted {r : TaskAttemptRecord} {errorMessage errorType : String} (status : event.status = .failed)
      (message : event.errorMessage = some errorMessage) (type : event.errorType = some errorType)
      (counts : FailureCounts event.taskId event.attemptId event.eventId db r)
      (last : policy.maxAttempts ≤ r.attemptNumber) :
      Consulted policy event existing next now db none
        ((db.updateAttempt event.attemptId (failedWith event.eventId errorMessage errorType now)).updateLogicalTask
          event.taskId fun task => { task with
            status := .failed, finalErrorMessage := some errorMessage, finalErrorType := some errorType })
  | retry {r : TaskAttemptRecord} {errorMessage errorType : String} {at' : Time} (status : event.status = .failed)
      (message : event.errorMessage = some errorMessage) (type : event.errorType = some errorType)
      (counts : FailureCounts event.taskId event.attemptId event.eventId db r)
      (more : r.attemptNumber < policy.maxAttempts) :
      Consulted policy event existing next now db (some (retryDecision event next (r.attemptNumber + 1)))
        (((db.updateAttempt event.attemptId (failedWith event.eventId errorMessage errorType now)).scheduleRetry next
          event.taskId (r.attemptNumber + 1) at').updateLogicalTask event.taskId
          fun task => { task with status := .retryScheduled })

theorem consultRetries_ok {policy : RetryPolicy} {existing : NodeExecutionRecord} {next : Uuid}
    {early : Option TaskCompletionDecision} (h : consultRetries policy event existing next now db = .ok (early, db')) :
    Consulted policy event existing next now db early db' := by
  unfold consultRetries at h
  split at h
  · rename_i hst
    obtain ⟨⟨recorded, db₁⟩, h₁, h⟩ := Except.bind_eq_ok.1 h
    simp only [pure, Except.pure, Except.ok.injEq, Prod.mk.injEq] at h
    obtain ⟨rfl, rfl⟩ := h
    rcases recordSuccess_ok h₁ with ⟨rfl, rfl, ht⟩ | ⟨r, hr, ht, ⟨rfl, rfl, hk⟩ | ⟨rfl, hu, ho, rfl⟩⟩
    · exact .successUntracked hst ht
    · have : Consulted policy event existing next now db₁
          (if existing.status = .running then none else some (duplicateDecision event)) db₁ :=
        .successKnown hst hr ht hk
      by_cases hrun : existing.status = .running
      · simpa [hrun] using this
      · simpa [hrun] using this
    · exact .success hst hr ht hu ho
  · rename_i hst
    split at h
    · rename_i errorMessage errorType hmsg htype
      obtain ⟨at', -, h⟩ := Except.bind_eq_ok.1 h
      obtain ⟨⟨d, db₁⟩, h₁, hd⟩ := Except.bind_eq_ok.1 h
      clear h
      rcases recordFailure_ok h₁ with ⟨rfl, rfl, ht⟩ | ⟨rfl, rfl, hk⟩ | ⟨r, hr, h₂⟩
      · cases hd
        exact .failureUntracked hst ht
      · cases hd
        exact .failureDuplicate hst hk
      · have hid := (attempt_some hr.attempt).2
        rcases closeFailedAttempt_ok h₂ with ⟨rfl, hmax, rfl⟩ | ⟨rfl, hmax, rfl⟩
        · cases hd
          rw [hid, hr.task]
          exact .exhausted hst hmsg htype hr hmax
        · cases hd
          rw [hid, hr.task]
          exact .retry hst hmsg htype hr hmax
    · cases h

theorem Consulted.sameRuns {policy : RetryPolicy} {existing : NodeExecutionRecord} {next : Uuid}
    {early : Option TaskCompletionDecision} (h : Consulted policy event existing next now db early db') :
    SameRuns db db' := by
  cases h <;> first | exact .refl _ | exact ⟨rfl, rfl, rfl, rfl, rfl⟩

/-- An early return reports nothing as ready. -/
theorem Consulted.early {policy : RetryPolicy} {existing : NodeExecutionRecord} {next : Uuid}
    {decision : TaskCompletionDecision} (h : Consulted policy event existing next now db (some decision) db') :
    decision.readyNodeIds = [] := by
  generalize he : some decision = early at h
  cases h with
  | successKnown =>
    split at he <;> cases he
    rfl
  | failureDuplicate => cases he; rfl
  | retry => cases he; rfl
  | _ => cases he

/-- The ways in which `process` can return. -/
inductive Processed (policy : RetryPolicy) (event : TaskCompletionEvent) (next : Uuid) (now : Time) (db : Database) :
    TaskCompletionDecision → Database → Prop where
  | early {existing : NodeExecutionRecord} {decision : TaskCompletionDecision} {db' : Database}
      (node : db.node event.executionId event.nodeId = some existing)
      (consult : Consulted policy event existing next now db (some decision) db') :
      Processed policy event next now db decision db'
  | late {existing : NodeExecutionRecord} {db' : Database}
      (node : db.node event.executionId event.nodeId = some existing)
      (ended : existing.status = .completed ∨ existing.status = .failed)
      (consult : Consulted policy event existing next now db none db') :
      Processed policy event next now db (duplicateDecision event) db'
  | completed {existing : NodeExecutionRecord} {decision : TaskCompletionDecision} {db₁ db' : Database}
      {x : WorkflowExecutionRecord} {w : Workflow}
      (node : db.node event.executionId event.nodeId = some existing) (running : existing.status = .running)
      (status : event.status = .completed)
      (execution : db.getExecutionById event.executionId = some x)
      (workflow : db.getWorkflowById x.workflowId = some w)
      (consult : Consulted policy event existing next now db none db₁)
      (ends : Ends event event.outputData db₁ db')
      (run : db'.run event.executionId = DependencyRun.settle w.nodeIds
        { db.run event.executionId with
          nodes := Function.update (db.run event.executionId).nodes event.nodeId .completed })
      (outcome : decision.outcome = .processed)
      (ready : ∀ i, i ∈ decision.readyNodeIds ↔ ∃ n ∈ w.nodes, n.id = i ∧
        db'.status event.executionId i = .pending ∧
        ∀ d ∈ n.dependencies, db'.status event.executionId d = .completed) :
      Processed policy event next now db decision db'
  | failed {existing : NodeExecutionRecord} {decision : TaskCompletionDecision} {db₁ db' : Database}
      {x : WorkflowExecutionRecord} {w : Workflow}
      (node : db.node event.executionId event.nodeId = some existing) (running : existing.status = .running)
      (status : event.status = .failed)
      (execution : db.getExecutionById event.executionId = some x)
      (workflow : db.getWorkflowById x.workflowId = some w)
      (consult : Consulted policy event existing next now db none db₁)
      (ends : Ends event .null db₁ db')
      (run : db'.run event.executionId = DependencyRun.settle w.nodeIds
        { db.run event.executionId with
          nodes := DependencyRun.failFrom w.DependsOn (db.run event.executionId).nodes event.nodeId })
      (outcome : decision.outcome = .processed) (ready : decision.readyNodeIds = []) :
      Processed policy event next now db decision db'

theorem completeNode_ok (hs : db.Sound) {existing : NodeExecutionRecord}
    (hn : db.node event.executionId event.nodeId = some existing) {decision : TaskCompletionDecision}
    {rows : List NodeExecutionRecord} (h : completeNode event x rows existing now db = .ok (decision, db')) :
    (existing.status ≠ .running ∧ (existing.status = .completed ∨ existing.status = .failed) ∧
      decision = duplicateDecision event ∧ db' = db) ∨
    (existing.status = .running ∧ ∃ errorMessage errorType,
      (event.status = .completed ∧ afterUpdate event x rows now
        (endNode event .completed event.outputData errorMessage errorType now db) = .ok (decision, db')) ∨
      (event.status = .failed ∧ afterUpdate event x rows now
        (endNode event .failed .null errorMessage errorType now db) = .ok (decision, db'))) := by
  by_cases hr : existing.status = .running
  · refine .inr ⟨hr, ?_⟩
    cases hst : event.status with
    | completed =>
      simp only [completeNode, hst] at h
      rw [if_pos ((updateNodeIfCurrent_fst hs).2 ⟨existing, hn, hr⟩)] at h
      exact ⟨_, _, .inl ⟨rfl, h⟩⟩
    | failed =>
      simp only [completeNode, hst] at h
      rw [if_pos ((updateNodeIfCurrent_fst hs).2 ⟨existing, hn, hr⟩)] at h
      exact ⟨_, _, .inr ⟨rfl, h⟩⟩
  · refine .inl ⟨hr, ?_⟩
    unfold completeNode at h
    have hfst : ∀ {target output errorMessage errorType}, (db.updateNodeIfCurrent event.executionId event.nodeId
        .running target output errorMessage errorType none (some now)).1 = false := by
      intro target output errorMessage errorType
      rw [Bool.eq_false_iff, ne_eq, updateNodeIfCurrent_fst hs]
      rintro ⟨r, hr', hrun⟩
      rw [hn] at hr'
      cases hr'
      exact hr hrun
    dsimp only at h
    rw [if_neg (by rw [hfst]; simp)] at h
    split at h
    · rename_i hend
      rw [updateNodeIfCurrent_false hfst] at h
      cases h
      exact ⟨hend, rfl, rfl⟩
    · cases h

theorem process_ok {policy : RetryPolicy} {next : Uuid} {decision : TaskCompletionDecision} (hs : db.Sound)
    (hc : ∀ e x w, db.getExecutionById e = some x → db.getWorkflowById x.workflowId = some w →
      DependencyRun.Consistent w.nodeIds w.DependsOn (db.run e))
    (h : process policy event next now db = .ok (decision, db')) :
    event.taskId = createTaskId event.executionId event.nodeId ∧
      Processed policy event next now db decision db' := by
  unfold process at h
  split at h
  · cases h
  · rename_i htask
    refine ⟨not_not.1 htask, ?_⟩
    split at h
    · cases h
    · rename_i x hx
      dsimp only at h
      rw [find?_node] at h
      split at h
      · cases h
      · rename_i existing hn
        obtain ⟨⟨early, db₁⟩, hconsult, h⟩ := Except.bind_eq_ok.1 h
        have hconsult := consultRetries_ok hconsult
        have hsame := hconsult.sameRuns
        have hn₁ : db₁.node event.executionId event.nodeId = some existing := by rw [hsame.node, hn]
        have hx₁ : db₁.getExecutionById event.executionId = some x := by rw [hsame.getExecutionById, hx]
        cases early with
        | some d =>
          cases h
          exact .early hn hconsult
        | none =>
          obtain ⟨w, hw, hwf, -⟩ := hs.workflow _ x hx
          have hs₁ := hsame.evolves.sound hs
          have hw₁ : db₁.getWorkflowById x.workflowId = some w := by rw [hsame.evolves.getWorkflowById, hw]
          rcases completeNode_ok hs₁ hn₁ h with
            ⟨-, hend, rfl, rfl⟩ | ⟨hr, errorMessage, errorType, ⟨hst, h⟩ | ⟨hst, h⟩⟩
          · exact .late hn hend hconsult
          · obtain ⟨hends, hrun, hout, hready⟩ := afterUpdate_completed hs₁ hn₁ hr hx₁ hw₁ hst h
            rw [hsame.run] at hrun
            exact .completed hn hr hst hx hw hconsult hends hrun hout hready
          · rw [← hsame.rows] at h
            have hc₁ : DependencyRun.Consistent w.nodeIds w.DependsOn (db₁.run event.executionId) := by
              rw [hsame.run]
              exact hc _ x w hx hw
            obtain ⟨hends, hrun, hout, hready⟩ := afterUpdate_failed hs₁ hn₁ hr hx₁ hw₁ hwf hc₁ hst h
            rw [hsame.run] at hrun
            exact .failed hn hr hst hx hw hconsult hends hrun hout hready

/-- Of the tasks, their attempts and their retries, `process` writes what the retry repository does. -/
theorem Processed.consulted {policy : RetryPolicy} {next : Uuid} {decision : TaskCompletionDecision}
    (h : Processed policy event next now db decision db') :
    ∃ existing early db₁, Consulted policy event existing next now db early db₁ ∧ db'.logicalTasks = db₁.logicalTasks ∧
      db'.taskAttempts = db₁.taskAttempts ∧ db'.taskRetryDispatches = db₁.taskRetryDispatches := by
  cases h with
  | early _ consult => exact ⟨_, _, _, consult, rfl, rfl, rfl⟩
  | late _ _ consult => exact ⟨_, _, _, consult, rfl, rfl, rfl⟩
  | completed _ _ _ _ _ consult ends => exact ⟨_, _, _, consult, ends.tasks, ends.attempts, ends.retries⟩
  | failed _ _ _ _ _ consult ends => exact ⟨_, _, _, consult, ends.tasks, ends.attempts, ends.retries⟩

theorem Processed.outbox {policy : RetryPolicy} {next : Uuid} {decision : TaskCompletionDecision}
    (h : Processed policy event next now db decision db') :
    ∃ rows, db'.outboxEvents = db.outboxEvents ++ rows ∧ db'.outboxInserted = db.outboxInserted ++ rows ∧
      ∀ row ∈ rows, row.Announces event.eventId := by
  cases h with
  | early _ consult =>
    have hsame := consult.sameRuns
    exact ⟨[], by simp [hsame.outbox], by simp [hsame.inserted], by simp⟩
  | late _ _ consult =>
    have hsame := consult.sameRuns
    exact ⟨[], by simp [hsame.outbox], by simp [hsame.inserted], by simp⟩
  | completed _ _ _ _ _ consult ends _ _ _ =>
    have hsame := consult.sameRuns
    rw [← hsame.outbox, ← hsame.inserted]
    exact ends.outbox
  | failed _ _ _ _ _ consult ends _ _ _ =>
    have hsame := consult.sameRuns
    rw [← hsame.outbox, ← hsame.inserted]
    exact ends.outbox

/-! ## The writes of `process`, one after the other -/

def TaskCompletionStatus.nodeStatus : TaskCompletionStatus → NodeExecutionStatus
  | .completed => .completed
  | .failed => .failed

theorem afterUpdate_steps {rows : List NodeExecutionRecord} {decision : TaskCompletionDecision}
    (h : afterUpdate event x rows now db = .ok (decision, db')) :
    ∃ db₁ db₂, ((event.status = .failed ∧ propagateFailure event x rows now db = .ok db₁) ∨ db₁ = db) ∧
      db₁.addMessage event.eventId event.status.messageType .events event.executionId (.node event) now = .ok db₂ ∧
      evaluateFinalization event.executionId x event.eventId now db₂ = .ok db' := by
  cases hst : event.status with
  | failed =>
    simp only [afterUpdate, hst] at h
    obtain ⟨db₁, h₁, h⟩ := Except.bind_eq_ok.1 h
    obtain ⟨db₂, h₂, h⟩ := Except.bind_eq_ok.1 h
    obtain ⟨ready, -, h⟩ := Except.bind_eq_ok.1 h
    obtain ⟨db₃, h₃, h⟩ := Except.bind_eq_ok.1 h
    cases h
    exact ⟨db₁, db₂, .inl ⟨rfl, h₁⟩, h₂, h₃⟩
  | completed =>
    simp only [afterUpdate, hst] at h
    obtain ⟨db₁, h₁, h⟩ := Except.bind_eq_ok.1 h
    obtain ⟨db₂, h₂, h⟩ := Except.bind_eq_ok.1 h
    obtain ⟨ready, -, h⟩ := Except.bind_eq_ok.1 h
    obtain ⟨db₃, h₃, h⟩ := Except.bind_eq_ok.1 h
    cases h
    cases h₁
    exact ⟨db, db₂, .inr rfl, h₂, h₃⟩

/-- Either the conditional update has hit, or nothing is written. -/
theorem completeNode_steps {rows : List NodeExecutionRecord} {existing : NodeExecutionRecord}
    {decision : TaskCompletionDecision} (h : completeNode event x rows existing now db = .ok (decision, db')) :
    db' = db ∨ ∃ output errorMessage errorType,
      (db.updateNodeIfCurrent event.executionId event.nodeId .running event.status.nodeStatus output
        errorMessage errorType none (some now)).1 = true ∧
      afterUpdate event x rows now (db.updateNodeIfCurrent event.executionId event.nodeId .running
        event.status.nodeStatus output errorMessage errorType none (some now)).2 = .ok (decision, db') := by
  have hstale : ∀ {target : NodeExecutionStatus} {output : Option Json} {errorMessage errorType : Option String},
      ¬(db.updateNodeIfCurrent event.executionId event.nodeId .running target output errorMessage errorType none
        (some now)).1 = true →
      (if existing.status = .completed ∨ existing.status = .failed then
        .ok (duplicateDecision event, (db.updateNodeIfCurrent event.executionId event.nodeId .running target output
          errorMessage errorType none (some now)).2)
        else .error (cannotComplete existing)) = Except.ok (decision, db') → db' = db := by
    intro target output errorMessage errorType hfalse h
    rw [updateNodeIfCurrent_false (Bool.eq_false_iff.2 hfalse)] at h
    split at h
    · cases h
      rfl
    · cases h
  cases hst : event.status with
  | completed =>
    simp only [completeNode, hst] at h
    split at h
    · rename_i hupdated
      exact .inr ⟨_, _, _, hupdated, h⟩
    · rename_i hfalse
      exact .inl (hstale hfalse h)
  | failed =>
    simp only [completeNode, hst] at h
    split at h
    · rename_i hupdated
      exact .inr ⟨_, _, _, hupdated, h⟩
    · rename_i hfalse
      exact .inl (hstale hfalse h)

/-- The retry repository comes first; it leaves nodes, executions and the outbox alone. -/
theorem process_steps {policy : RetryPolicy} {next : Uuid} {decision : TaskCompletionDecision}
    (h : process policy event next now db = .ok (decision, db')) :
    ∃ db₁, SameRuns db db₁ ∧
      (db' = db₁ ∨ ∃ x rows existing, completeNode event x rows existing now db₁ = .ok (decision, db')) := by
  unfold process at h
  split at h
  · cases h
  · split at h
    · cases h
    · dsimp only at h
      split at h
      · cases h
      · obtain ⟨⟨early, db₁⟩, hconsult, h⟩ := Except.bind_eq_ok.1 h
        refine ⟨db₁, (consultRetries_ok hconsult).sameRuns, ?_⟩
        cases early with
        | some d =>
          cases h
          exact .inl rfl
        | none => exact .inr ⟨_, _, _, h⟩

end services

end WorkflowEngine
