import WorkflowEngine.Consistency

/-!
# Tasks, attempts and their messages

Logical tasks and attempts are only ever added: by the dispatch that claims the node, with
the first attempt and the task's message, and by a failure below the limit, with the next
attempt. From this: one logical dispatch for each claimed node, one trigger for each
execution that is no longer pending, and a failed node has exhausted its attempts or has a
failed dependency.
-/
namespace WorkflowEngine

open Database

/-- The columns of a logical task that never change. -/
def LogicalTaskRecord.identity (r : LogicalTaskRecord) : Uuid × Uuid × String × String × Dict Json × Dict Json :=
  (r.taskId, r.executionId, r.nodeId, r.handler, r.handlerConfig, r.resolvedInput)

/-- The columns of an attempt that never change. -/
def TaskAttemptRecord.slot (r : TaskAttemptRecord) : Uuid × Uuid × Nat := (r.attemptId, r.taskId, r.attemptNumber)

theorem map_slot_of_identity {l l' : List TaskAttemptRecord} (h : l'.map (·.identity) = l.map (·.identity)) :
    l'.map (·.slot) = l.map (·.slot) := by
  have := congrArg (List.map fun p : Uuid × Uuid × Nat × Option Uuid => (p.1, p.2.1, p.2.2.1)) h
  rw [List.map_map, List.map_map] at this
  exact this

namespace Database

variable {db db' : Database} {e : Uuid} {i : String}

theorem updateLogicalTask_identity {t : Uuid} {f : LogicalTaskRecord → LogicalTaskRecord}
    (hf : ∀ r, (f r).identity = r.identity) :
    (db.updateLogicalTask t f).logicalTasks.map (·.identity) = db.logicalTasks.map (·.identity) :=
  Table.map_updateWhere fun r _ _ => hf r

theorem updateAttempt_slot {a : Uuid} {f : TaskAttemptRecord → TaskAttemptRecord} (hf : ∀ r, (f r).slot = r.slot) :
    (db.updateAttempt a f).taskAttempts.map (·.slot) = db.taskAttempts.map (·.slot) :=
  Table.map_updateWhere fun r _ _ => hf r

/-- The retry repository adds at most one attempt, the successor of one that has just failed. -/
theorem consulted_slots {policy : RetryPolicy} {event : TaskCompletionEvent} {existing : NodeExecutionRecord}
    {next : Uuid} {now : Time} {early : Option TaskCompletionDecision}
    (h : Consulted policy event existing next now db early db') :
    db'.logicalTasks.map (·.identity) = db.logicalTasks.map (·.identity) ∧
      (db'.taskAttempts.map (·.slot) = db.taskAttempts.map (·.slot) ∨
        ∃ r ∈ db.taskAttempts,
          db'.taskAttempts.map (·.slot) = db.taskAttempts.map (·.slot) ++
            [(next, r.taskId, r.attemptNumber + 1)]) := by
  cases h with
  | success => exact ⟨updateLogicalTask_identity fun _ => rfl, .inl (updateAttempt_slot fun _ => rfl)⟩
  | exhausted => exact ⟨updateLogicalTask_identity fun _ => rfl, .inl (updateAttempt_slot fun _ => rfl)⟩
  | @retry r _ _ at' _ _ _ counts _ =>
    refine ⟨updateLogicalTask_identity fun _ => rfl, .inr ⟨r, (attempt_some counts.attempt).1, ?_⟩⟩
    simp only [scheduleRetry, updateLogicalTask, List.map_append, List.map_cons, List.map_nil, counts.task]
    exact congrArg (· ++ _) (updateAttempt_slot fun _ => rfl)
  | _ => exact ⟨rfl, .inl rfl⟩

theorem processed_slots {policy : RetryPolicy} {event : TaskCompletionEvent} {next : Uuid} {now : Time}
    {decision : TaskCompletionDecision} (h : Processed policy event next now db decision db') :
    db'.logicalTasks.map (·.identity) = db.logicalTasks.map (·.identity) ∧
      (db'.taskAttempts.map (·.slot) = db.taskAttempts.map (·.slot) ∨
        ∃ r ∈ db.taskAttempts,
          db'.taskAttempts.map (·.slot) = db.taskAttempts.map (·.slot) ++
            [(next, r.taskId, r.attemptNumber + 1)]) := by
  obtain ⟨_, _, db₁, consult, htasks, hattempts, -⟩ := h.consulted
  rw [htasks, hattempts]
  exact consulted_slots consult

/-! ## One logical dispatch for each claimed node -/

/-- The logical tasks of a node. -/
def tasksOf (db : Database) (e : Uuid) (i : String) : List LogicalTaskRecord :=
  db.logicalTasks.filter fun r => decide (r.executionId = e ∧ r.nodeId = i)

/-- The first attempts of a node's task. -/
def firstAttemptsOf (db : Database) (e : Uuid) (i : String) : List TaskAttemptRecord :=
  db.taskAttempts.filter fun r => decide (r.taskId = createTaskId e i ∧ r.attemptNumber = 1)

/-- Whether an outbox row is a task message for the node. -/
def isTaskMessage (e : Uuid) (i : String) (row : OutboxEventRecord) : Bool :=
  match row.payload with
  | .task m => decide (row.messageType = .task ∧ m.executionId = e ∧ m.nodeId = i)
  | _ => false

/-- The task messages ever inserted for a node. -/
def taskInsertionsOf (db : Database) (e : Uuid) (i : String) : List OutboxEventRecord :=
  db.outboxInserted.filter (isTaskMessage e i)

/-- The trigger messages ever inserted for an execution. -/
def triggerInsertionsOf (db : Database) (e : Uuid) : List OutboxEventRecord :=
  db.outboxInserted.filter fun r => decide (r.messageType = .executionTriggered ∧ r.aggregateId = e)

/-- Exactly one task, one first attempt and one message, which belong together. -/
def OneTask (db : Database) (e : Uuid) (i : String) : Prop :=
  ∃ task attempt row message, db.tasksOf e i = [task] ∧ task.taskId = createTaskId e i ∧
    db.firstAttemptsOf e i = [attempt] ∧ db.taskInsertionsOf e i = [row] ∧ row.messageId = createTaskId e i ∧
    row.payload = .task message ∧ message.attemptId = attempt.attemptId

/-- Nothing was ever written for the node's task. -/
def NoTask (db : Database) (e : Uuid) (i : String) : Prop :=
  db.tasksOf e i = [] ∧ (∀ r ∈ db.taskAttempts, r.taskId ≠ createTaskId e i) ∧ db.taskInsertionsOf e i = []

/-- What a transaction adds to the tasks, the attempts and the inserted messages. -/
structure Adds (db db' : Database) (tasks : List (Uuid × Uuid × String × String × Dict Json × Dict Json))
    (slots : List (Uuid × Uuid × Nat)) (rows : List OutboxEventRecord) : Prop where
  tasks : db'.logicalTasks.map (·.identity) = db.logicalTasks.map (·.identity) ++ tasks
  slots : db'.taskAttempts.map (·.slot) = db.taskAttempts.map (·.slot) ++ slots
  rows : db'.outboxInserted = db.outboxInserted ++ rows

theorem tasksOf_identity : (db.tasksOf e i).map (·.identity) =
    (db.logicalTasks.map (·.identity)).filter fun p => decide (p.2.1 = e ∧ p.2.2.1 = i) := by
  rw [tasksOf, List.filter_map]
  rfl

theorem firstAttemptsOf_slot : (db.firstAttemptsOf e i).map (·.slot) =
    (db.taskAttempts.map (·.slot)).filter fun p => decide (p.2.1 = createTaskId e i ∧ p.2.2 = 1) := by
  rw [firstAttemptsOf, List.filter_map]
  rfl

theorem map_eq_single {α β : Type} {f : α → β} {l : List α} {b : β} (h : l.map f = [b]) :
    ∃ a, l = [a] ∧ f a = b := by
  obtain ⟨a, rest, rfl, ha, hrest⟩ := List.map_eq_cons_iff.1 h
  rw [List.map_eq_nil_iff.1 hrest]
  exact ⟨a, rfl, ha⟩

theorem OneTask.adds {tasks : List (Uuid × Uuid × String × String × Dict Json × Dict Json)}
    {slots : List (Uuid × Uuid × Nat)} {rows : List OutboxEventRecord} (h : OneTask db e i)
    (hadds : Adds db db' tasks slots rows) (ht : ∀ p ∈ tasks, ¬(p.2.1 = e ∧ p.2.2.1 = i))
    (ha : ∀ p ∈ slots, ¬(p.2.1 = createTaskId e i ∧ p.2.2 = 1)) (hr : ∀ row ∈ rows, isTaskMessage e i row = false) :
    OneTask db' e i := by
  obtain ⟨task, attempt, row, message, h₁, hid, h₂, h₃, hmid, hpayload, haid⟩ := h
  have ht' : (tasks.filter fun p => decide (p.2.1 = e ∧ p.2.2.1 = i)) = [] := by
    simpa [List.filter_eq_nil_iff] using ht
  have ha' : (slots.filter fun p => decide (p.2.1 = createTaskId e i ∧ p.2.2 = 1)) = [] := by
    simpa [List.filter_eq_nil_iff] using ha
  have hr' : rows.filter (isTaskMessage e i) = [] := by simpa [List.filter_eq_nil_iff] using hr
  have e₁ : (db'.tasksOf e i).map (·.identity) = [task.identity] := by
    rw [tasksOf_identity, hadds.tasks, List.filter_append, ht', List.append_nil, ← tasksOf_identity, h₁]
    rfl
  have e₂ : (db'.firstAttemptsOf e i).map (·.slot) = [attempt.slot] := by
    rw [firstAttemptsOf_slot, hadds.slots, List.filter_append, ha', List.append_nil, ← firstAttemptsOf_slot, h₂]
    rfl
  obtain ⟨task', h₁', hid'⟩ := map_eq_single e₁
  obtain ⟨attempt', h₂', haid'⟩ := map_eq_single e₂
  refine ⟨task', attempt', row, message, h₁', ?_, h₂', ?_, hmid, hpayload, ?_⟩
  · exact (congrArg Prod.fst hid').trans hid
  · rw [taskInsertionsOf, hadds.rows, List.filter_append, hr', List.append_nil]
    exact h₃
  · exact haid.trans (congrArg Prod.fst haid').symm

theorem NoTask.adds {tasks : List (Uuid × Uuid × String × String × Dict Json × Dict Json)}
    {slots : List (Uuid × Uuid × Nat)} {rows : List OutboxEventRecord} (h : NoTask db e i)
    (hadds : Adds db db' tasks slots rows) (ht : ∀ p ∈ tasks, ¬(p.2.1 = e ∧ p.2.2.1 = i))
    (ha : ∀ p ∈ slots, p.2.1 ≠ createTaskId e i) (hr : ∀ row ∈ rows, isTaskMessage e i row = false) :
    NoTask db' e i := by
  obtain ⟨h₁, h₂, h₃⟩ := h
  refine ⟨?_, ?_, ?_⟩
  · have ht' : (tasks.filter fun p => decide (p.2.1 = e ∧ p.2.2.1 = i)) = [] := by
      simpa [List.filter_eq_nil_iff] using ht
    have : (db'.tasksOf e i).map (·.identity) = [] := by
      rw [tasksOf_identity, hadds.tasks, List.filter_append, ht', List.append_nil, ← tasksOf_identity, h₁]
      rfl
    exact List.map_eq_nil_iff.1 this
  · intro r hr
    have hmem : r.slot ∈ db'.taskAttempts.map (·.slot) := List.mem_map_of_mem hr
    rw [hadds.slots] at hmem
    rcases List.mem_append.1 hmem with hmem | hmem
    · obtain ⟨r₀, hr₀, he⟩ := List.mem_map.1 hmem
      have : r₀.taskId = r.taskId := congrArg (fun p => p.2.1) he
      exact this ▸ h₂ r₀ hr₀
    · exact ha _ hmem
  · have hr' : rows.filter (isTaskMessage e i) = [] := by simpa [List.filter_eq_nil_iff] using hr
    rw [taskInsertionsOf, hadds.rows, List.filter_append, hr', List.append_nil]
    exact h₃

theorem NoTask.getLogicalTask (h : NoTask db e i)
    (hids : ∀ r ∈ db.logicalTasks, r.taskId = createTaskId r.executionId r.nodeId) :
    db.getLogicalTask (createTaskId e i) = none := by
  rw [Database.getLogicalTask, Table.lookup_none]
  intro r hr ht
  obtain ⟨rfl, rfl⟩ := createTaskId_injective ((hids r hr).symm.trans ht)
  have : r ∈ db.tasksOf r.executionId r.nodeId := List.mem_filter.2 ⟨hr, by simp⟩
  rw [h.1] at this
  cases this

/-- The first registration of a task adds exactly its rows. -/
theorem registered_adds (db : Database) (x : WorkflowExecutionRecord) (n : WorkflowNode) (input : Dict Json)
    (attemptId : Uuid) (now : Time) :
    Adds db (registered x n input attemptId now (db.claimPendingNodes x.executionId [n.id] now).2)
      [(taskRecord x n input).identity] [(attemptId, createTaskId x.executionId n.id, 1)]
      [taskRow x n input attemptId now] := by
  refine ⟨?_, ?_, rfl⟩
  · simp only [registered, pushOutbox, claimPendingNodes, List.map_append]
    rfl
  · simp only [registered, pushOutbox, claimPendingNodes, List.map_append]
    rfl

theorem registered_oneTask {x : WorkflowExecutionRecord} {n : WorkflowNode} (input : Dict Json) (attemptId : Uuid)
    (now : Time) (h : NoTask db x.executionId n.id) :
    OneTask (registered x n input attemptId now (db.claimPendingNodes x.executionId [n.id] now).2)
      x.executionId n.id := by
  have hadds := registered_adds db x n input attemptId now
  generalize registered x n input attemptId now (db.claimPendingNodes x.executionId [n.id] now).2 = db' at hadds ⊢
  obtain ⟨h₁, h₂, h₃⟩ := h
  have hnone : db.firstAttemptsOf x.executionId n.id = [] := by
    rw [firstAttemptsOf, List.filter_eq_nil_iff]
    intro r hr
    simp [h₂ r hr]
  have e₁ : (db'.tasksOf x.executionId n.id).map (·.identity) = [(taskRecord x n input).identity] := by
    rw [tasksOf_identity, hadds.tasks, List.filter_append, ← tasksOf_identity, h₁]
    simp [LogicalTaskRecord.identity, taskRecord]
  have e₂ : (db'.firstAttemptsOf x.executionId n.id).map (·.slot) =
      [(attemptId, createTaskId x.executionId n.id, 1)] := by
    rw [firstAttemptsOf_slot, hadds.slots, List.filter_append, ← firstAttemptsOf_slot, hnone]
    simp
  obtain ⟨task, h₁', hid⟩ := map_eq_single e₁
  obtain ⟨attempt, h₂', haid⟩ := map_eq_single e₂
  refine ⟨task, attempt, taskRow x n input attemptId now, firstMessage x n input attemptId, h₁',
    congrArg Prod.fst hid, h₂', ?_, rfl, rfl, (congrArg Prod.fst haid).symm⟩
  rw [taskInsertionsOf, hadds.rows, List.filter_append]
  have : db.outboxInserted.filter (isTaskMessage x.executionId n.id) = [] := h₃
  rw [this]
  simp [isTaskMessage, taskRow, outboxRow, firstMessage]

end Database

namespace Database

variable {db db' : Database} {e : Uuid} {i : String}

/-- A completion moves running nodes to their end and pending nodes to failure. -/
theorem processed_status {policy : RetryPolicy} {event : TaskCompletionEvent} {next : Uuid} {now : Time}
    {decision : TaskCompletionDecision} (h : Processed policy event next now db decision db') (e : Uuid) (i : String) :
    (db.status e i ≠ .pending → db'.status e i ≠ .pending) ∧
      (db'.status e i = .running ∨ db'.status e i = .completed →
        db.status e i = .running ∨ db.status e i = .completed) := by
  have hrun : ∀ {db₁ : Database}, db'.run e = db₁.run e → db'.status e i = db₁.status e i :=
    fun h => congrFun (congrArg DependencyRun.nodes h) i
  cases h with
  | early _ consult =>
    rw [hrun consult.sameRuns.run]
    exact ⟨fun h => h, fun h => h⟩
  | late _ _ consult =>
    rw [hrun consult.sameRuns.run]
    exact ⟨fun h => h, fun h => h⟩
  | completed node running _ _ _ consult ends run _ _ =>
    by_cases he : e = event.executionId
    · subst he
      have hst : db'.status event.executionId i =
          Function.update (db.status event.executionId) event.nodeId .completed i :=
        congrFun ((congrArg DependencyRun.nodes run).trans DependencyRun.settle_nodes) i
      have hr : db.status event.executionId event.nodeId = .running := (status_of_node node).trans running
      by_cases hi : i = event.nodeId
      · subst hi
        simp [hst, hr]
      · simp [hst, hi]
    · rw [hrun ((ends.others e he).trans consult.sameRuns.run)]
      exact ⟨fun h => h, fun h => h⟩
  | @failed _ _ _ _ _ w node running _ _ _ consult ends run _ _ =>
    by_cases he : e = event.executionId
    · subst he
      have hst : db'.status event.executionId i =
          DependencyRun.failFrom w.DependsOn (db.status event.executionId) event.nodeId i :=
        congrFun ((congrArg DependencyRun.nodes run).trans DependencyRun.settle_nodes) i
      rw [hst]
      by_cases hf : DependencyRun.failFrom w.DependsOn (db.status event.executionId) event.nodeId i = .failed
      · simp [hf]
      · rw [(DependencyRun.failFrom_of_ne hf).2.2]
        exact ⟨fun h => h, fun h => h⟩
    · rw [hrun ((ends.others e he).trans consult.sameRuns.run)]
      exact ⟨fun h => h, fun h => h⟩

theorem submitted_status_eq {w : Workflow} {now : Time} (hs : db.Sound) {e₀ : Uuid}
    (he : db.getExecutionById e₀ = none) : (submitted w e₀ now db).status e i = db.status e i := by
  by_cases hee : e = e₀
  · subst hee
    rw [submitted_status hs he]
    cases hn : db.node e i with
    | none => simp [status, hn]
    | some r =>
      obtain ⟨hmem, hre, -⟩ := node_some hn
      obtain ⟨x, hx⟩ := hs.node_execution r hmem
      rw [hre, he] at hx
      cases hx
  · rw [status, status, submitted_node_ne hee]

end Database

namespace System

variable {cfg : Config} {s t : System}

/-- The node was claimed, from pending to running, by some dispatch. -/
def Claimed (s : System) (e : Uuid) (i : String) : Prop := Milestone.nodeClaimed e i ∈ s.history

structure Dispatches (s : System) : Prop where
  ids : ∀ r ∈ s.db.logicalTasks, r.taskId = createTaskId r.executionId r.nodeId
  numbers : ∀ r ∈ s.db.taskAttempts, 1 ≤ r.attemptNumber
  node : ∀ e i, (s.Claimed e i ∧ OneTask s.db e i ∧ s.db.status e i ≠ .pending) ∨
    (¬ s.Claimed e i ∧ NoTask s.db e i ∧ ¬(s.db.status e i = .running ∨ s.db.status e i = .completed))
  once : ∀ e i, s.history.count (.nodeClaimed e i) ≤ 1

theorem dispatches_init : Dispatches init := by
  refine ⟨by simp [init, Database.empty], by simp [init, Database.empty], fun e i => .inr ⟨?_, ⟨?_, ?_, ?_⟩, ?_⟩, ?_⟩
  · simp [Claimed, init]
  · simp [tasksOf, init, Database.empty]
  · simp [init, Database.empty]
  · simp [taskInsertionsOf, init, Database.empty]
  · simp [status, node, Table.lookup, init, Database.empty]
  · simp [init]

/-- A step that adds no claim and no task, and starts no node. -/
theorem Dispatches.carry (h : Dispatches s) (slots : List (Uuid × Uuid × Nat)) (rows : List OutboxEventRecord)
    (l : List Milestone) (hadds : Adds s.db t.db [] slots rows) (hhist : t.history = s.history ++ l)
    (hl : ∀ e i, Milestone.nodeClaimed e i ∉ l)
    (hslots : ∀ p ∈ slots, (∃ r ∈ s.db.taskAttempts, r.taskId = p.2.1) ∧ 1 < p.2.2)
    (hrows : ∀ row ∈ rows, row.messageType ≠ .task)
    (hstatus : ∀ e i, (s.db.status e i ≠ .pending → t.db.status e i ≠ .pending) ∧
      (t.db.status e i = .running ∨ t.db.status e i = .completed →
        s.db.status e i = .running ∨ s.db.status e i = .completed)) : Dispatches t := by
  have hrows' : ∀ e i, ∀ row ∈ rows, isTaskMessage e i row = false := by
    intro e i row hrow
    have := hrows row hrow
    unfold isTaskMessage
    split
    · simp [this]
    · rfl
  refine ⟨?_, ?_, fun e i => ?_, fun e i => ?_⟩
  · intro r hr
    have hmem : r.identity ∈ t.db.logicalTasks.map (·.identity) := List.mem_map_of_mem hr
    rw [hadds.tasks, List.append_nil] at hmem
    obtain ⟨r₀, hr₀, he⟩ := List.mem_map.1 hmem
    simp only [LogicalTaskRecord.identity, Prod.mk.injEq] at he
    rw [← he.1, ← he.2.1, ← he.2.2.1]
    exact h.ids r₀ hr₀
  · intro r hr
    have hmem : r.slot ∈ t.db.taskAttempts.map (·.slot) := List.mem_map_of_mem hr
    rw [hadds.slots] at hmem
    rcases List.mem_append.1 hmem with hmem | hmem
    · obtain ⟨r₀, hr₀, he⟩ := List.mem_map.1 hmem
      have : r₀.attemptNumber = r.attemptNumber := congrArg (fun p => p.2.2) he
      exact this ▸ h.numbers r₀ hr₀
    · have := (hslots _ hmem).2
      simp only [TaskAttemptRecord.slot] at this
      omega
  · have hclaim : t.Claimed e i ↔ s.Claimed e i := by
      simp [Claimed, hhist, hl e i]
    rcases h.node e i with ⟨hc, hone, hst⟩ | ⟨hc, hno, hst⟩
    · refine .inl ⟨hclaim.2 hc, hone.adds hadds (by simp) (fun p hp hm => ?_) (hrows' e i), (hstatus e i).1 hst⟩
      have := (hslots p hp).2
      omega
    · refine .inr ⟨mt hclaim.1 hc, hno.adds hadds (by simp) (fun p hp hm => ?_) (hrows' e i), mt (hstatus e i).2 hst⟩
      obtain ⟨r, hr, ht⟩ := (hslots p hp).1
      exact hno.2.1 r hr (ht.trans hm)
  · rw [hhist, List.count_append, List.count_eq_zero_of_not_mem (hl e i)]
    exact h.once e i

theorem status_of_nodes {db db' : Database} (h : db'.nodeExecutions = db.nodeExecutions) (e : Uuid) (i : String) :
    db'.status e i = db.status e i := by
  rw [status, status, Database.node, Database.node, h]

theorem Quiet.dispatches (hq : Quiet s t) (h : Dispatches s) : Dispatches t := by
  obtain ⟨l, hhist, hl⟩ := hq.history
  refine h.carry [] [] l ⟨by simp [hq.tasks], by simpa using map_slot_of_identity hq.attempts,
    by simp [hq.inserted]⟩ hhist (fun e i hm => hl _ hm) (by simp) (by simp) fun e i => ?_
  rw [status_of_nodes hq.nodes]
  exact ⟨fun h => h, fun h => h⟩

theorem registered_status {db : Database} {x : WorkflowExecutionRecord} {n : WorkflowNode} (input : Dict Json)
    (attemptId : Uuid) (now : Time) {r : NodeExecutionRecord} (hnode : db.node x.executionId n.id = some r)
    (pending : r.status = .pending) (e : Uuid) (i : String) :
    (registered x n input attemptId now (db.claimPendingNodes x.executionId [n.id] now).2).status e i =
      if e = x.executionId ∧ i = n.id then .running else db.status e i := by
  have hn : (registered x n input attemptId now (db.claimPendingNodes x.executionId [n.id] now).2).node e i =
      (db.claimPendingNodes x.executionId [n.id] now).2.node e i := rfl
  rw [status, hn, node_claimPendingNodes]
  by_cases h : e = x.executionId ∧ i = n.id
  · obtain ⟨rfl, rfl⟩ := h
    simp [hnode, pending]
  · have h' : ∀ r : NodeExecutionRecord, ¬(e = x.executionId ∧ i ∈ [n.id] ∧ r.status = .pending) := by
      rintro r ⟨he, hi, -⟩
      exact h ⟨he, List.mem_singleton.1 hi⟩
    simp only [h', if_false, h, Option.map_id']
    rfl

/-- The commit that claims a node adds its task, its first attempt and its message. -/
theorem Dispatches.claimed (h : Dispatches s) {x : WorkflowExecutionRecord} {n : WorkflowNode} {input : Dict Json}
    {db : Database} {r : NodeExecutionRecord} {handlings : List Handling} (hno : NoTask s.db x.executionId n.id)
    (hnode : s.db.node x.executionId n.id = some r) (pending : r.status = .pending)
    (hdb : db = registered x n input (.v4 s.draws) s.now (s.db.claimPendingNodes x.executionId [n.id] s.now).2) :
    Dispatches { s with
      db := db
      draws := s.draws + 1
      handlings := handlings
      history := s.history ++
        if newlyRunning s.db db x.executionId n.id then [.nodeClaimed x.executionId n.id] else [] } := by
  have hstatus := registered_status input (.v4 s.draws) s.now hnode pending
  have hadds := registered_adds s.db x n input (.v4 s.draws) s.now
  have hone := registered_oneTask input (.v4 s.draws) s.now hno
  rw [← hdb] at hstatus hadds hone
  have hold : s.db.status x.executionId n.id = .pending := (status_of_node hnode).trans pending
  have hnew : newlyRunning s.db db x.executionId n.id = true := by
    have hrun := hstatus x.executionId n.id
    rw [if_pos ⟨rfl, rfl⟩] at hrun
    simp only [newlyRunning, statusMap_node, decide_eq_true_eq, hnode, Option.map_some, pending, true_and]
    cases hn : db.node x.executionId n.id with
    | none => simp [status, hn] at hrun
    | some r' => rw [status_of_node hn] at hrun; simp [hrun]
  obtain ⟨hclaim, -, -⟩ := (h.node x.executionId n.id).resolve_left fun hl => hl.2.2 hold
  simp only [hnew, if_true]
  refine ⟨?_, ?_, fun e i => ?_, fun e i => ?_⟩
  · intro task htask
    have hmem : task.identity ∈ db.logicalTasks.map (·.identity) := List.mem_map_of_mem htask
    rw [hadds.tasks] at hmem
    rcases List.mem_append.1 hmem with hmem | hmem
    · obtain ⟨r₀, hr₀, he⟩ := List.mem_map.1 hmem
      simp only [LogicalTaskRecord.identity, Prod.mk.injEq] at he
      rw [← he.1, ← he.2.1, ← he.2.2.1]
      exact h.ids r₀ hr₀
    · have he := List.mem_singleton.1 hmem
      simp only [LogicalTaskRecord.identity, Prod.mk.injEq] at he
      rw [he.1, he.2.1, he.2.2.1]
      rfl
  · intro a ha
    have hmem : a.slot ∈ db.taskAttempts.map (·.slot) := List.mem_map_of_mem ha
    rw [hadds.slots] at hmem
    rcases List.mem_append.1 hmem with hmem | hmem
    · obtain ⟨r₀, hr₀, he⟩ := List.mem_map.1 hmem
      have : r₀.attemptNumber = a.attemptNumber := congrArg (fun p => p.2.2) he
      exact this ▸ h.numbers r₀ hr₀
    · have : a.attemptNumber = 1 := congrArg (fun p => p.2.2) (List.mem_singleton.1 hmem)
      omega
  · by_cases hei : e = x.executionId ∧ i = n.id
    · obtain ⟨rfl, rfl⟩ := hei
      refine .inl ⟨by simp [Claimed], hone, ?_⟩
      simp [hstatus]
    · have hne : ¬(x.executionId = e ∧ n.id = i) := fun hh => hei ⟨hh.1.symm, hh.2.symm⟩
      have hid : createTaskId x.executionId n.id ≠ createTaskId e i := fun hh =>
        hne (createTaskId_injective hh)
      have hclaims : Milestone.nodeClaimed e i ∈ s.history ++ [Milestone.nodeClaimed x.executionId n.id] ↔
          s.Claimed e i := by
        simp only [List.mem_append, List.mem_singleton, Milestone.nodeClaimed.injEq, Claimed, or_iff_left_iff_imp]
        exact fun hh => absurd hh hei
      simp only [Claimed, hclaims, hstatus, hei, if_false]
      rcases h.node e i with ⟨hc, hone', hst⟩ | ⟨hc, hno', hst⟩
      · refine .inl ⟨hc, hone'.adds hadds (by simpa [LogicalTaskRecord.identity, taskRecord] using hne)
          (by simp [hid]) ?_, hst⟩
        simpa [isTaskMessage, taskRow, outboxRow, firstMessage] using fun h₁ h₂ => hne ⟨h₁, h₂⟩
      · refine .inr ⟨hc, hno'.adds hadds (by simpa [LogicalTaskRecord.identity, taskRecord] using hne)
          (by simp [hid]) ?_, hst⟩
        simpa [isTaskMessage, taskRow, outboxRow, firstMessage] using fun h₁ h₂ => hne ⟨h₁, h₂⟩
  · rw [List.count_append, List.count_singleton]
    by_cases hei : e = x.executionId ∧ i = n.id
    · obtain ⟨rfl, rfl⟩ := hei
      have : s.history.count (.nodeClaimed x.executionId n.id) = 0 := List.count_eq_zero_of_not_mem hclaim
      simp [this]
    · have hb : (Milestone.nodeClaimed x.executionId n.id == Milestone.nodeClaimed e i) = false := by
        simp only [beq_eq_false_iff_ne, ne_eq, Milestone.nodeClaimed.injEq]
        exact fun hh => hei ⟨hh.1.symm, hh.2.symm⟩
      simpa [hb] using h.once e i

/-- In a reachable state a dispatch changes nothing, or it claims the node and registers its task. -/
theorem dispatch_cases (hc : Consistent s) (hd : Dispatches s) {k j : Nat} {h : Handling}
    {x : WorkflowExecutionRecord} {nodes : List WorkflowNode} {n : WorkflowNode} {result : DispatchResult}
    {db : Database} (handling : s.handlings[k]? = some h) (toDispatch : h.phase.toDispatch = some (x, nodes))
    (node : nodes[j]? = some n)
    (dispatched : dispatch cfg.strFloat x n (.v4 s.draws) s.now s.db = .ok (result, db)) :
    (db = s.db ∧ ∀ r, s.db.node x.executionId n.id = some r → r.status ≠ .pending) ∨
    ∃ r input, s.db.node x.executionId n.id = some r ∧ r.status = .pending ∧ NoTask s.db x.executionId n.id ∧
      NodeInputResolver.resolve cfg.strFloat n x.inputData (completedDependencyOutputs x.executionId n
        (s.db.getNodeExecutionsForExecution x.executionId)) = .ok input ∧
      db = registered x n input (.v4 s.draws) s.now (s.db.claimPendingNodes x.executionId [n.id] s.now).2 := by
  have hdisp := dispatch_ok hc.sound.nodes_keyed dispatched
  have hstart := ((hc.supports h (List.mem_of_getElem? handling)).toDispatch x nodes toDispatch).2 n
    (List.mem_of_getElem? node)
  generalize result.outcome = outcome at hdisp
  cases hdisp with
  | dependencyFailed dep failed => exact absurd failed (hstart.no_failed dep)
  | alreadyStarted started => exact .inl ⟨rfl, started⟩
  | @dispatched r input _ hnode pending resolved registers =>
    have hst : s.db.status x.executionId n.id = .pending := (status_of_node hnode).trans pending
    obtain ⟨-, hno, -⟩ := (hd.node x.executionId n.id).resolve_left fun hl => hl.2.2 hst
    exact .inr ⟨r, input, hnode, pending, hno, resolved, registerTask_ok (hno.getLogicalTask hd.ids) hno.2.1 registers⟩

theorem Kind.dispatches (hk : Kind cfg s t) (hc : Consistent s) (h : Dispatches s) : Dispatches t := by
  cases hk with
  | submit _ _ _ newExecution eq =>
    subst eq
    refine h.carry [] [] [] ⟨by simp [submitted], by simp [submitted],
      by simp [submitted]⟩ (by simp) (by simp) (by simp) (by simp) fun e i => ?_
    rw [submitted_status_eq hc.sound newExecution]
    exact ⟨fun h => h, fun h => h⟩
  | trigger _ commit eq =>
    subst eq
    obtain ⟨-, rfl⟩ := triggerCommit_ok hc.sound commit
    refine h.carry [] _ _ ⟨(List.append_nil _).symm, (List.append_nil _).symm, rfl⟩ rfl (by simp) (by simp)
      (by simp [outboxRow]) fun e i => ⟨fun h => h, fun h => h⟩
  | process _ _ _ processed eq =>
    subst eq
    have hproc := (process_ok hc.sound hc.runs processed).2
    obtain ⟨rows, -, hins, hann⟩ := hproc.outbox
    obtain ⟨htasks, hslots⟩ := processed_slots hproc
    have hno : ∀ row ∈ rows, row.messageType ≠ .task := fun row hrow => (hann row hrow).2.1
    rcases hslots with hslots | ⟨r, hr, hslots⟩
    · exact h.carry [] rows [] ⟨by simp [htasks], by simp [hslots], hins⟩ (by simp) (by simp) (by simp)
        hno (processed_status hproc)
    · refine h.carry _ rows [] ⟨by simp [htasks], hslots, hins⟩ (by simp) (by simp) ?_ hno (processed_status hproc)
      have := h.numbers r hr
      simp only [List.mem_singleton, forall_eq]
      exact ⟨⟨r, hr, rfl⟩, by omega⟩
  | @dispatch k j g x nodes n phase result db handling toDispatch node dispatched phase_eq eq =>
    subst eq
    rcases dispatch_cases hc h handling toDispatch node dispatched with
      ⟨rfl, -⟩ | ⟨r, input, hnode, pending, hno, -, hdb⟩
    · have hnew : newlyRunning s.db s.db x.executionId n.id = false := by
        unfold newlyRunning
        rw [decide_eq_false_iff_not]
        rintro ⟨h₁, h₂⟩
        rw [h₁] at h₂
        cases h₂
      exact h.carry [] [] [] ⟨by simp, by simp, by simp⟩ (by simp [hnew]) (by simp) (by simp)
        (by simp) fun e i => ⟨fun h => h, fun h => h⟩
    · exact h.claimed hno hnode pending hdb
  | evaluate _ _ _ eq =>
    subst eq
    exact h.carry [] [] [] ⟨by simp, by simp, by simp⟩ (by simp) (by simp) (by simp)
      (by simp) fun e i => ⟨fun h => h, fun h => h⟩
  | read _ _ _ eq =>
    subst eq
    exact h.carry [] [] [] ⟨by simp, by simp, by simp⟩ (by simp) (by simp) (by simp)
      (by simp) fun e i => ⟨fun h => h, fun h => h⟩
  | quiet hq => exact hq.dispatches h

theorem reachable_dispatches (h : Reachable cfg anyStep s) : Dispatches s :=
  Transition.Reachable.invariant dispatches_init (fun _ _ _ hr hs _ ht =>
    (step_kind (reachable_consistent hr).sound ht).dispatches (reachable_consistent hr) hs) h

/-! ## One trigger for each execution that is no longer pending -/

/-- The inputs of the triggers that were committed for an execution. -/
def triggersOf (s : System) (e : Uuid) : List (Option (Dict Json)) :=
  s.history.filterMap fun m =>
    match m with
    | .triggered e' input => if e' = e then some input else none
    | _ => none

/-- Before and after the one trigger that wins. -/
inductive TriggerState (s : System) (e : Uuid) : Prop where
  | missing (execution : s.db.getExecutionById e = none) (insertions : s.db.triggerInsertionsOf e = [])
      (triggers : s.triggersOf e = [])
  | pending {x : WorkflowExecutionRecord} (execution : s.db.getExecutionById e = some x) (status : x.status = .pending)
      (input : x.inputData = []) (insertions : s.db.triggerInsertionsOf e = []) (triggers : s.triggersOf e = [])
  | triggered {x : WorkflowExecutionRecord} {row : OutboxEventRecord} {input : Option (Dict Json)}
      (execution : s.db.getExecutionById e = some x) (status : x.status ≠ .pending)
      (insertions : s.db.triggerInsertionsOf e = [row]) (triggers : s.triggersOf e = [input])
      (stored : x.inputData = input.getD [])

/-- The execution stays on its side of the trigger and keeps its input. -/
def KeepsTrigger (db db' : Database) (e : Uuid) : Prop :=
  (db.getExecutionById e = none → db'.getExecutionById e = none) ∧
    ∀ x, db.getExecutionById e = some x → ∃ x', db'.getExecutionById e = some x' ∧ x'.inputData = x.inputData ∧
      (x'.status = .pending ↔ x.status = .pending)

theorem KeepsTrigger.of_eq {db db' : Database} {e : Uuid} (h : db'.getExecutionById e = db.getExecutionById e) :
    KeepsTrigger db db' e := by
  rw [KeepsTrigger, h]
  exact ⟨fun h => h, fun x hx => ⟨x, hx, rfl, Iff.rfl⟩⟩

theorem triggersOf_append {e : Uuid} {l : List Milestone} (h : t.history = s.history ++ l)
    (hl : ∀ input, Milestone.triggered e input ∉ l) : t.triggersOf e = s.triggersOf e := by
  rw [triggersOf, triggersOf, h, List.filterMap_append]
  have : l.filterMap (fun m => match m with
      | .triggered e' input => if e' = e then some input else none
      | _ => none) = [] := by
    rw [List.filterMap_eq_nil_iff]
    intro m hm
    split
    · rename_i e' input
      split
      · rename_i he
        exact absurd (he ▸ hm) (hl input)
      · rfl
    · rfl
  simpa using this

theorem TriggerState.carry {e : Uuid} (h : TriggerState s e) (rows : List OutboxEventRecord) (l : List Milestone)
    (hkeeps : KeepsTrigger s.db t.db e) (hins : t.db.outboxInserted = s.db.outboxInserted ++ rows)
    (hrows : ∀ row ∈ rows, row.messageType = .executionTriggered → row.aggregateId ≠ e)
    (hhist : t.history = s.history ++ l) (hl : ∀ input, Milestone.triggered e input ∉ l) : TriggerState t e := by
  have hins' : t.db.triggerInsertionsOf e = s.db.triggerInsertionsOf e := by
    rw [triggerInsertionsOf, triggerInsertionsOf, hins, List.filter_append]
    have : (rows.filter fun r => decide (r.messageType = .executionTriggered ∧ r.aggregateId = e)) = [] := by
      rw [List.filter_eq_nil_iff]
      intro row hrow
      simpa using hrows row hrow
    rw [this, List.append_nil]
  have htrig := triggersOf_append hhist hl
  cases h with
  | missing execution insertions triggers =>
    exact .missing (hkeeps.1 execution) (hins'.trans insertions) (htrig.trans triggers)
  | pending execution status input insertions triggers =>
    obtain ⟨x', hx', hin, hst⟩ := hkeeps.2 _ execution
    exact .pending hx' (hst.2 status) (hin.trans input) (hins'.trans insertions) (htrig.trans triggers)
  | triggered execution status insertions triggers stored =>
    obtain ⟨x', hx', hin, hst⟩ := hkeeps.2 _ execution
    exact .triggered hx' (mt hst.1 status) (hins'.trans insertions) (htrig.trans triggers) (hin.trans stored)

/-- The one trigger of a pending execution. -/
theorem TriggerState.fire {e : Uuid} (h : TriggerState s e) {x x' : WorkflowExecutionRecord} {row : OutboxEventRecord}
    {input : Option (Dict Json)} (hx : s.db.getExecutionById e = some x) (hp : x.status = .pending)
    (hx' : t.db.getExecutionById e = some x') (hst : x'.status ≠ .pending)
    (hin : x'.inputData = input.getD x.inputData) (hins : t.db.outboxInserted = s.db.outboxInserted ++ [row])
    (hrow : row.messageType = .executionTriggered ∧ row.aggregateId = e)
    (hhist : t.history = s.history ++ [.triggered e input]) : TriggerState t e := by
  cases h with
  | missing execution =>
    rw [hx] at execution
    cases execution
  | triggered execution status =>
    rw [hx] at execution
    cases execution
    exact absurd hp status
  | pending execution _ hempty insertions triggers =>
    rw [hx] at execution
    cases execution
    refine .triggered hx' hst (?_ : _ = [row]) (?_ : _ = [input]) (hempty ▸ hin)
    · rw [triggerInsertionsOf] at insertions ⊢
      rw [hins, List.filter_append, insertions]
      simp [hrow]
    · rw [triggersOf] at triggers ⊢
      rw [hhist, List.filterMap_append, triggers]
      simp

theorem processed_keepsTrigger {policy : RetryPolicy} {event : TaskCompletionEvent} {next : Uuid} {now : Time}
    {decision : TaskCompletionDecision} {db : Database} (hc : Consistent s) (hadv : Advances s.db db)
    (h : Processed policy event next now s.db decision db) (e : Uuid) : KeepsTrigger s.db db e := by
  have hends :
      ∀ {output : Json} {db₁ : Database} {x : WorkflowExecutionRecord} {w : Workflow} {r : NodeExecutionRecord},
      SameRuns s.db db₁ → Ends event output db₁ db → s.db.node event.executionId event.nodeId = some r →
      r.status = .running → s.db.getExecutionById event.executionId = some x →
      s.db.getWorkflowById x.workflowId = some w → KeepsTrigger s.db db e := by
    intro output db₁ x w r hsame hends hnode hrunning hx hw
    have hev := hsame.evolves.trans hends.evolves
    refine ⟨fun hnone => ?_, fun x₀ hx₀ => ?_⟩
    · cases hx' : db.getExecutionById e with
      | none => rfl
      | some x' =>
        obtain ⟨x₁, hx₁, -⟩ := hev.symm.execution hadv.sound.executions_keyed hx'
        rw [hnone] at hx₁
        cases hx₁
    · obtain ⟨x', hx', -, htrig⟩ := hadv.later.execution e x₀ hx₀
      obtain ⟨x₁, hx₁, hin⟩ := hends.input e x' hx'
      rw [hsame.getExecutionById, hx₀] at hx₁
      cases hx₁
      refine ⟨x', hx', hin.symm, ⟨fun hp => ?_, fun hp => ?_⟩⟩
      · by_contra hnp
        exact (htrig hnp).1 hp
      · have hne : e ≠ event.executionId := by
          rintro rfl
          rw [hx] at hx₀
          cases hx₀
          have := (hc.runs _ x w hx hw).untriggered (by simpa [Database.run, hx] using hp) event.nodeId
          rw [show (s.db.run event.executionId).nodes event.nodeId = _ from status_of_node hnode, hrunning] at this
          cases this
        have hrun := (hends.others e hne).trans hsame.run
        have := congrArg DependencyRun.status hrun
        simpa [Database.run, hx', hx₀, hp] using this
  cases h with
  | early _ consult => exact .of_eq consult.sameRuns.getExecutionById
  | late _ _ consult => exact .of_eq consult.sameRuns.getExecutionById
  | completed node running _ execution workflow consult ends _ _ _ =>
    exact hends consult.sameRuns ends node running execution workflow
  | failed node running _ execution workflow consult ends _ _ _ =>
    exact hends consult.sameRuns ends node running execution workflow

theorem dispatched_executions {strFloat : Rat → String} {x : WorkflowExecutionRecord} {n : WorkflowNode}
    {attemptId : Uuid} {now : Time} {outcome : DispatchOutcome} {db db' : Database}
    (h : Dispatched strFloat x n attemptId now db outcome db') : db'.workflowExecutions = db.workflowExecutions := by
  cases h with
  | dependencyFailed =>
    exact (failPendingNodes_fields db x.executionId [n.id] "A required dependency failed." now).1.executions.symm
  | alreadyStarted => rfl
  | dispatched _ _ _ registers =>
    rw [(registerTask_frame registers).2.1]
    rfl

theorem Kind.triggerState (hk : Kind cfg s t) (hc : Consistent s) (h : ∀ e, TriggerState s e) (e : Uuid) :
    TriggerState t e := by
  have hadv := hk.advances hc
  cases hk with
  | @submit w definition _ _ _ newExecution eq =>
    subst eq
    by_cases he : e = .v4 (s.draws + 1)
    · subst he
      cases h (.v4 (s.draws + 1)) with
      | missing _ insertions triggers =>
        exact .pending ((submitted_getExecutionById newExecution).trans (if_pos rfl)) rfl rfl insertions triggers
      | pending execution => rw [newExecution] at execution; cases execution
      | triggered execution => rw [newExecution] at execution; cases execution
    · have hget : (submitted w (.v4 (s.draws + 1)) s.now s.db).getExecutionById e = s.db.getExecutionById e :=
        (submitted_getExecutionById newExecution).trans (if_neg he)
      exact (h e).carry [] [] (.of_eq hget) (List.append_nil _).symm (by simp) (List.append_nil _).symm (by simp)
  | @trigger k request _ db commit eq =>
    subst eq
    obtain ⟨⟨r, hr, hp⟩, rfl⟩ := triggerCommit_ok hc.sound commit
    by_cases he : e = request.execution.executionId
    · subst he
      refine (h request.execution.executionId).fire hr hp
        (getExecutionById_updateExecutionIfCurrent.trans (by rw [hr]; rfl)) ?_ ?_ rfl ⟨rfl, rfl⟩ rfl
      · simp [hp]
      · simp [hp]
    · have hget : (s.db.updateExecutionIfCurrent request.execution.executionId .pending .running (some s.now) none
          request.inputData).2.getExecutionById e = s.db.getExecutionById e := by
        rw [getExecutionById_updateExecutionIfCurrent]
        simp [he]
      exact (h e).carry _ _ (.of_eq hget) rfl (by simp [outboxRow, Ne.symm he]) rfl (by simp [he])
  | process _ _ _ processed eq =>
    subst eq
    have hproc := (process_ok hc.sound hc.runs processed).2
    obtain ⟨rows, -, hins, hann⟩ := hproc.outbox
    exact (h e).carry rows [] (processed_keepsTrigger hc hadv hproc e) hins
      (fun row hrow htype => absurd htype (hann row hrow).1)
      (by simp) (by simp)
  | dispatch handling toDispatch node dispatched phase_eq eq =>
    subst eq
    have hdisp := dispatch_ok hc.sound.nodes_keyed dispatched
    obtain ⟨rows, -, hins, htask⟩ := dispatched_outbox hdisp
    refine (h e).carry rows _ (.of_eq (by rw [getExecutionById, getExecutionById, dispatched_executions hdisp])) hins
      (fun row hrow => by simp [htask row hrow]) rfl ?_
    intro input
    split <;> simp
  | evaluate _ _ _ eq =>
    subst eq
    exact (h e).carry [] [] (.of_eq rfl) (by simp) (by simp) (by simp) (by simp)
  | read _ _ _ eq =>
    subst eq
    exact (h e).carry [] [] (.of_eq rfl) (by simp) (by simp) (by simp) (by simp)
  | quiet hq =>
    obtain ⟨l, hhist, hl⟩ := hq.history
    exact (h e).carry [] l (.of_eq (by rw [getExecutionById, getExecutionById, hq.executions]))
      (by simp [hq.inserted]) (by simp) hhist
      fun input hm => hl _ hm

theorem reachable_triggerState (h : Reachable cfg anyStep s) (e : Uuid) : TriggerState s e := by
  refine Transition.Reachable.invariant (P := fun s => ∀ e, TriggerState s e) ?_ (fun _ _ _ hr hs _ ht =>
    (step_kind (reachable_consistent hr).sound ht).triggerState (reachable_consistent hr) hs) h e
  intro e
  exact .missing rfl rfl rfl

end System

end WorkflowEngine
