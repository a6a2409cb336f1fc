import WorkflowEngine.Completion

/-!
# What a submission, a trigger and a dispatch do

The ways in which these calls can return, on the tables as maps by key.
-/
namespace WorkflowEngine

open Database

variable {db db' : Database} {e : Uuid} {x : WorkflowExecutionRecord} {now : Time}

/-! ## Submission -/

theorem foldl_upsert (nodes : List WorkflowNode) : ∀ {db : Database}, (nodes.map (·.id)).Nodup →
    (∀ n ∈ nodes, ∀ r ∈ db.nodeExecutions, nodeKey r ≠ (e, n.id)) →
    nodes.foldl (fun db n => db.upsertNodeExecution (pendingNodeExecution e now n)) db =
      { db with nodeExecutions := db.nodeExecutions ++ nodes.map (pendingNodeExecution e now) } := by
  induction nodes with
  | nil => simp
  | cons n nodes ih =>
    intro db hnodup hnew
    simp only [List.map_cons, List.nodup_cons] at hnodup
    have hany : ¬ (db.nodeExecutions.any fun r => decide
        (r.workflowExecutionId = (pendingNodeExecution e now n).workflowExecutionId ∧
          r.nodeId = (pendingNodeExecution e now n).nodeId)) = true := by
      rw [List.any_eq_true]
      rintro ⟨r, hr, hkey⟩
      obtain ⟨he, hi⟩ := of_decide_eq_true hkey
      exact hnew n (by simp) r hr (by rw [nodeKey, he, hi]; rfl)
    have hup : db.upsertNodeExecution (pendingNodeExecution e now n) =
        { db with nodeExecutions := db.nodeExecutions ++ [pendingNodeExecution e now n] } := by
      exact if_neg hany
    rw [List.foldl_cons, hup, ih hnodup.2]
    · simp
    · intro m hm r hr
      rcases List.mem_append.1 hr with hr | hr
      · exact hnew m (by simp [hm]) r hr
      · rw [List.mem_singleton.1 hr]
        simp only [nodeKey, pendingNodeExecution, ne_eq, Prod.mk.injEq, true_and]
        exact fun he => hnodup.1 (he ▸ List.mem_map_of_mem hm)

/-- The database after an accepted submission. -/
def submitted (w : Workflow) (e : Uuid) (now : Time) (db : Database) : Database :=
  { db with
    workflows := db.workflows ++ [w]
    workflowExecutions := db.workflowExecutions ++ [pendingExecution e w.workflowId now]
    nodeExecutions := db.nodeExecutions ++ w.nodes.map (pendingNodeExecution e now) }

/-- A submission whose execution has no node rows yet. -/
theorem submit_fresh (hnodes : db.getExecutionById e = none → ∀ r ∈ db.nodeExecutions, r.workflowExecutionId ≠ e)
    {env : ValidationEnv} {definition : Dict Json} {workflowId : Uuid}
    (h : submit env definition workflowId e now db = .ok db') :
    ∃ w, accept env workflowId definition = .ok w ∧ w.WellFormed ∧ db.getWorkflowById w.workflowId = none ∧
      db.getExecutionById e = none ∧ db' = submitted w e now db := by
  unfold submit at h
  split at h
  · cases h
  · rename_i w hw
    split at h
    · cases h
    · rename_i db₀ h₀
      cases h
      have hwf := accept_wellFormed hw
      obtain ⟨db₁, h₁, h₀⟩ := Except.bind_eq_ok.1 h₀
      obtain ⟨db₂, h₂, h₀⟩ := Except.bind_eq_ok.1 h₀
      unfold createWorkflow at h₁
      unfold createExecution at h₂
      split at h₁
      · cases h₁
      · rename_i hfresh
        cases h₁
        split at h₂
        · cases h₂
        · rename_i hnew
          cases h₂
          cases h₀
          have hnone : db.getExecutionById e = none := Option.not_isSome_iff_eq_none.1 hnew
          refine ⟨w, hw, hwf, by simpa using hfresh, hnone, ?_⟩
          rw [foldl_upsert w.nodes hwf.nodup]
          · rfl
          · intro n _ r hr hkey
            exact hnodes hnone r hr (congrArg Prod.fst hkey)

theorem submit_ok (hs : db.Sound) {env : ValidationEnv} {definition : Dict Json} {workflowId : Uuid}
    (h : submit env definition workflowId e now db = .ok db') :
    ∃ w, accept env workflowId definition = .ok w ∧ w.WellFormed ∧ db.getWorkflowById w.workflowId = none ∧
      db.getExecutionById e = none ∧ db' = submitted w e now db := by
  refine submit_fresh (fun hnone r hr he => ?_) h
  obtain ⟨x, hx⟩ := hs.node_execution r hr
  rw [he, hnone] at hx
  cases hx

theorem submitted_getWorkflowById {w : Workflow} (hw : db.getWorkflowById w.workflowId = none) {id : Uuid} :
    (submitted w e now db).getWorkflowById id =
      if id = w.workflowId then some w else db.getWorkflowById id := by
  simp only [getWorkflowById, submitted, Table.lookup_append, Table.lookup_single] at hw ⊢
  by_cases hid : id = w.workflowId
  · simp [hid, hw]
  · simp [hid, Ne.symm hid]

theorem submitted_getExecutionById {w : Workflow} (he : db.getExecutionById e = none) {e' : Uuid} :
    (submitted w e now db).getExecutionById e' =
      if e' = e then some (pendingExecution e w.workflowId now) else db.getExecutionById e' := by
  have hkey : (pendingExecution e w.workflowId now).executionId = e := rfl
  simp only [getExecutionById, submitted, Table.lookup_append, Table.lookup_single, hkey] at he ⊢
  by_cases hid : e' = e
  · simp [hid, he]
  · simp [hid, Ne.symm hid]

theorem submitted_node_ne {w : Workflow} {e' : Uuid} (he : e' ≠ e) {i : String} :
    (submitted w e now db).node e' i = db.node e' i := by
  have hnone : Table.lookup nodeKey (e', i) (w.nodes.map (pendingNodeExecution e now)) = none := by
    rw [Table.lookup_none]
    rintro r hr
    obtain ⟨n, -, rfl⟩ := List.mem_map.1 hr
    simp [nodeKey, pendingNodeExecution, Ne.symm he]
  simp [node, submitted, Table.lookup_append, hnone]

theorem submitted_status {w : Workflow} (hs : db.Sound) (he : db.getExecutionById e = none) {i : String} :
    (submitted w e now db).status e i = .pending := by
  cases h : (submitted w e now db).node e i with
  | none => simp [status, h]
  | some r =>
    rw [status_of_node h]
    obtain ⟨hmem, hre, -⟩ := node_some h
    rcases List.mem_append.1 hmem with hmem | hmem
    · obtain ⟨x, hx⟩ := hs.node_execution r hmem
      rw [hre, he] at hx
      cases hx
    · obtain ⟨n, -, rfl⟩ := List.mem_map.1 hmem
      rfl

theorem submitted_sound {w : Workflow} (hs : db.Sound) (hwf : w.WellFormed)
    (hw : db.getWorkflowById w.workflowId = none) (he : db.getExecutionById e = none) :
    (submitted w e now db).Sound := by
  have hrows : ∀ r ∈ db.nodeExecutions, r.workflowExecutionId ≠ e := by
    intro r hr hre
    obtain ⟨x, hx⟩ := hs.node_execution r hr
    rw [hre, he] at hx
    cases hx
  have hstays : ∀ e' x, db.getExecutionById e' = some x →
      (submitted w e now db).getExecutionById e' = some x := by
    intro e' x hx
    exact Table.lookup_append_of_some hx
  refine ⟨?_, ?_, ?_, ?_⟩
  · refine hs.executions_keyed.append fun r hr hre => ?_
    exact absurd hre (Table.lookup_none.1 he r hr)
  · simp only [Table.Keyed, submitted, List.map_append, List.map_map]
    refine List.nodup_append.2 ⟨hs.nodes_keyed, ?_, ?_⟩
    · refine List.Nodup.of_map Prod.snd ?_
      rw [List.map_map]
      exact hwf.nodup
    · intro a ha b hb hab
      obtain ⟨r, hr, rfl⟩ := List.mem_map.1 ha
      obtain ⟨n, -, rfl⟩ := List.mem_map.1 hb
      exact hrows r hr (congrArg Prod.fst hab)
  · intro r hr
    rcases List.mem_append.1 hr with hr | hr
    · obtain ⟨x, hx⟩ := hs.node_execution r hr
      exact ⟨x, hstays _ x hx⟩
    · obtain ⟨n, -, rfl⟩ := List.mem_map.1 hr
      exact ⟨_, (submitted_getExecutionById he).trans (if_pos rfl)⟩
  · intro e' x hx
    rw [submitted_getExecutionById he] at hx
    have hold : ∀ e', e' ≠ e → (submitted w e now db).getNodeExecutionsForExecution e' =
        db.getNodeExecutionsForExecution e' := by
      intro e' hne
      simp [getNodeExecutionsForExecution, submitted, List.filter_append, pendingNodeExecution, Ne.symm hne]
    split at hx
    · rename_i hee
      cases hx
      refine ⟨w, by rw [submitted_getWorkflowById hw]; simp [pendingExecution], hwf, ?_⟩
      rw [hee, getNodeExecutionsForExecution, submitted, List.filter_append]
      have hnil : (db.nodeExecutions.filter fun r => decide (r.workflowExecutionId = e)) = [] := by
        simpa [List.filter_eq_nil_iff] using hrows
      rw [hnil, List.nil_append, List.filter_eq_self.2 (by simp [pendingNodeExecution]), List.map_map]
      rfl
    · rename_i hne
      obtain ⟨w', hw', hwf', hids⟩ := hs.workflow e' x hx
      refine ⟨w', Table.lookup_append_of_some hw', hwf', by rw [hold e' hne, hids]⟩

/-! ## Trigger -/

theorem triggerCommit_ok (hs : db.Sound) {input : Option (Dict Json)} {messageId : Uuid}
    (h : triggerCommit x input messageId now db = .ok db') :
    (∃ r, db.getExecutionById x.executionId = some r ∧ r.status = .pending) ∧
      db' = (db.updateExecutionIfCurrent x.executionId .pending .running (some now) none input).2.pushOutbox
        [outboxRow messageId .executionTriggered .events x.executionId (.execution x.executionId) now] := by
  unfold triggerCommit at h
  dsimp only at h
  split at h
  · rename_i hfst
    exact ⟨(updateExecutionIfCurrent_fst hs).1 hfst, addMessage_ok h⟩
  · cases h

/-! ## Dispatch -/

/-- The message of a task's first attempt. -/
def firstMessage (x : WorkflowExecutionRecord) (n : WorkflowNode) (input : Dict Json) (attemptId : Uuid) :
    NodeTaskMessage :=
  ⟨createTaskId x.executionId n.id, attemptId, 1, x.executionId, n.id, n.handler, n.config, input⟩

/-- The outbox row of that message. -/
def taskRow (x : WorkflowExecutionRecord) (n : WorkflowNode) (input : Dict Json) (attemptId : Uuid) (now : Time) :
    OutboxEventRecord :=
  outboxRow (createTaskId x.executionId n.id) .task .tasks x.executionId (.task (firstMessage x n input attemptId)) now

/-- The task's row. -/
def taskRecord (x : WorkflowExecutionRecord) (n : WorkflowNode) (input : Dict Json) : LogicalTaskRecord :=
  ⟨createTaskId x.executionId n.id, x.executionId, n.id, n.handler, n.config, input, .running, none, none⟩

/-- The task's rows and message, written after the node was claimed. -/
def registered (x : WorkflowExecutionRecord) (n : WorkflowNode) (input : Dict Json) (attemptId : Uuid) (now : Time)
    (db : Database) : Database :=
  ({ db with
    logicalTasks := db.logicalTasks ++ [taskRecord x n input]
    taskAttempts := db.taskAttempts ++ [initialAttempt attemptId (createTaskId x.executionId n.id) now] } :
    Database).pushOutbox [taskRow x n input attemptId now]

theorem registerTask_ok {n : WorkflowNode} {input : Dict Json} {attemptId : Uuid}
    (hnone : db.getLogicalTask (createTaskId x.executionId n.id) = none)
    (hfirst : ∀ r ∈ db.taskAttempts, r.taskId ≠ createTaskId x.executionId n.id)
    (h : registerTask x n input attemptId now db = .ok db') : db' = registered x n input attemptId now db := by
  obtain ⟨⟨a, db₁⟩, h₁, h⟩ := Except.bind_eq_ok.1 h
  obtain ⟨db₂, h₂, h₁⟩ := Except.bind_eq_ok.1 h₁
  unfold insertLogicalTask at h₂
  rw [if_neg (by simp [hnone])] at h₂
  split at h₂
  · cases h₂
  · cases h₂
    have hfind : (db.taskAttempts.find? fun r =>
        decide (r.taskId = createTaskId x.executionId n.id ∧ r.attemptNumber = 1)) = none := by
      rw [List.find?_eq_none]
      intro r hr
      simp [hfirst r hr]
    dsimp only at h₁
    rw [hfind] at h₁
    obtain ⟨db₃, h₃, h₁⟩ := Except.bind_eq_ok.1 h₁
    cases h₁
    unfold insertAttempt at h₃
    split at h₃
    · cases h₃
    · cases h₃
      exact addMessage_ok h

/-- The ways in which `dispatch` can return. -/
inductive Dispatched (strFloat : Rat → String) (x : WorkflowExecutionRecord) (n : WorkflowNode) (attemptId : Uuid)
    (now : Time) (db : Database) : DispatchOutcome → Database → Prop where
  | dependencyFailed {d : String} (dep : d ∈ n.dependencies)
      (failed : statusMap (db.getNodeExecutionsForExecution x.executionId) d = some .failed) :
      Dispatched strFloat x n attemptId now db .alreadyStarted
        (db.failPendingNodes x.executionId [n.id] "A required dependency failed." now).2
  | alreadyStarted (started : ∀ r, db.node x.executionId n.id = some r → r.status ≠ .pending) :
      Dispatched strFloat x n attemptId now db .alreadyStarted db
  | dispatched {r : NodeExecutionRecord} {input : Dict Json} {db' : Database}
      (node : db.node x.executionId n.id = some r) (pending : r.status = .pending)
      (resolved : NodeInputResolver.resolve strFloat n x.inputData
        (completedDependencyOutputs x.executionId n (db.getNodeExecutionsForExecution x.executionId)) = .ok input)
      (registers : registerTask x n input attemptId now (db.claimPendingNodes x.executionId [n.id] now).2 = .ok db') :
      Dispatched strFloat x n attemptId now db .dispatched db'

theorem claimPendingNodes_isEmpty (hk : Table.Keyed nodeKey db.nodeExecutions) {i : String} :
    (db.claimPendingNodes e [i] now).1.isEmpty = true ↔ ∀ r, db.node e i = some r → r.status ≠ .pending := by
  simp only [claimPendingNodes, List.isEmpty_cons, Bool.false_eq_true, if_false, List.isEmpty_iff,
    List.eq_nil_iff_forall_not_mem]
  constructor
  · intro h r hr hp
    exact h i ((mem_returning_pending hk).2 ⟨by simp, r, hr, hp⟩)
  · intro h j hj
    obtain ⟨hi, r, hr, hp⟩ := (mem_returning_pending hk).1 hj
    rw [List.mem_singleton.1 hi] at hr
    exact h r hr hp

theorem claimPendingNodes_same (hk : Table.Keyed nodeKey db.nodeExecutions) {i : String}
    (h : ∀ r, db.node e i = some r → r.status ≠ .pending) : (db.claimPendingNodes e [i] now).2 = db := by
  have hany : db.nodeExecutions.any (pendingNode e [i]) = false := by
    rw [List.any_eq_false]
    intro r hr hp
    simp only [pendingNode, List.mem_singleton, decide_eq_true_eq] at hp
    obtain ⟨rfl, rfl, hp⟩ := hp
    exact h r (hk.lookup_iff.2 ⟨hr, rfl⟩) hp
  simp only [claimPendingNodes, List.isEmpty_cons, Bool.false_eq_true, if_false]
  rw [Table.updateWhere_eq_self hany]

theorem dispatch_ok {strFloat : Rat → String} {n : WorkflowNode} {attemptId : Uuid} {result : DispatchResult}
    (hk : Table.Keyed nodeKey db.nodeExecutions) (h : dispatch strFloat x n attemptId now db = .ok (result, db')) :
    Dispatched strFloat x n attemptId now db result.outcome db' := by
  unfold dispatch at h
  dsimp only at h
  split at h
  · cases h
  · split at h
    · rename_i hf
      cases h
      obtain ⟨d, hd, hfd⟩ := List.any_eq_true.1 hf
      exact .dependencyFailed hd (of_decide_eq_true hfd)
    · obtain ⟨input, hinput, h⟩ := Except.bind_eq_ok.1 h
      by_cases hp : ∀ r, db.node x.executionId n.id = some r → r.status ≠ .pending
      · rw [if_pos ((claimPendingNodes_isEmpty hk).2 hp), claimPendingNodes_same hk hp] at h
        cases h
        exact .alreadyStarted hp
      · rw [if_neg (mt (claimPendingNodes_isEmpty hk).1 hp)] at h
        obtain ⟨db₁, h₁, h⟩ := Except.bind_eq_ok.1 h
        cases h
        push Not at hp
        obtain ⟨r, hr, hpend⟩ := hp
        exact .dispatched hr hpend hinput h₁

end WorkflowEngine
