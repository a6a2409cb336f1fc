import WorkflowEngine.ExecutionResults
import WorkflowEngine.Lib.Lifespan

/-!
# Timestamps

Executions and nodes note when they were created, started and completed. A row is written in three
ways only, and each of them notes the instant of its transaction in a column that is still empty.
So instants are final, they come in the order of the status, and they respect the dependencies:
nothing starts before what it needs has been completed. One clock stands for those of all hosts and
for `now()` of the database, which claims nodes: the order of instants from different clocks is that
of the transactions only as far as these agree.
-/
namespace WorkflowEngine

open Database

def NodeExecutionRecord.span (r : NodeExecutionRecord) : Lifespan Time := ⟨r.createdAt, r.startedAt, r.completedAt⟩

def WorkflowExecutionRecord.span (x : WorkflowExecutionRecord) : Lifespan Time :=
  ⟨x.createdAt, x.startedAt, x.completedAt⟩

/-- The instants that each status calls for. A node that fails with a dependency has never started. -/
def NodeExecutionStatus.Marks (span : Lifespan Time) : NodeExecutionStatus → Prop
  | .pending => span.Fresh
  | .running => span.Begun
  | .completed => span.Ended
  | .failed => ∃ b, span.completed = some b

def WorkflowExecutionStatus.Marks (span : Lifespan Time) : WorkflowExecutionStatus → Prop
  | .pending => span.Fresh
  | .running => span.Begun
  | .completed => span.Ended
  | .failed => span.Ended

/-- The columns are filled that the status calls for. -/
def NodeExecutionRecord.Marked (r : NodeExecutionRecord) : Prop := r.status.Marks r.span

def WorkflowExecutionRecord.Marked (x : WorkflowExecutionRecord) : Prop := x.status.Marks x.span

theorem NodeExecutionRecord.Marked.completed {r : NodeExecutionRecord} (h : r.Marked)
    (hst : r.status = .completed ∨ r.status = .failed) : ∃ b, r.completedAt = some b := by
  unfold NodeExecutionRecord.Marked at h
  rcases hst with hst | hst
  · rw [hst] at h
    exact h.2
  · rw [hst] at h
    exact h

theorem WorkflowExecutionRecord.Marked.started {x : WorkflowExecutionRecord} (h : x.Marked)
    (hst : x.status ≠ .pending) :
    ∃ a, x.startedAt = some a := by
  unfold WorkflowExecutionRecord.Marked at h
  cases hs : x.status with
  | pending => exact absurd hs hst
  | running | completed | failed =>
    rw [hs] at h
    exact h.1

theorem TaskCompletionStatus.nodeStatus_terminal (status : TaskCompletionStatus) :
    status.nodeStatus = .completed ∨ status.nodeStatus = .failed := by
  cases status
  · exact .inl rfl
  · exact .inr rfl

namespace Database

variable {db db₁ db' : Database} {e : Uuid} {i : String} {x x' : WorkflowExecutionRecord} {w : Workflow}
  {r r' : NodeExecutionRecord} {now : Time}

/-! ## The writes of one row -/

/-- What a transaction at `now` makes of a node's row. -/
inductive NodeWrite (now : Time) (r : NodeExecutionRecord) : NodeExecutionRecord → Prop where
  | kept : NodeWrite now r r
  | claimed (pending : r.status = .pending) : NodeWrite now r { r with status := .running, startedAt := some now }
  | blocked (pending : r.status = .pending) (reason : String) :
      NodeWrite now r
        { r with
          status := .failed
          errorMessage := some reason
          errorType := some "FailedDependency"
          completedAt := some now }
  | ended {status : NodeExecutionStatus} (output : Json) (errorMessage errorType : Option String)
      (running : r.status = .running) (terminal : status = .completed ∨ status = .failed) :
      NodeWrite now r
        { r with
          status := status
          outputData := output
          errorMessage := errorMessage
          errorType := errorType
          completedAt := some now }

/-- What a transaction at `now` makes of an execution's row. -/
inductive ExecutionWrite (now : Time) (x : WorkflowExecutionRecord) : WorkflowExecutionRecord → Prop where
  | kept : ExecutionWrite now x x
  | triggered (inputData : Dict Json) (pending : x.status = .pending) :
      ExecutionWrite now x { x with status := .running, startedAt := some now, inputData := inputData }
  | ended {status : WorkflowExecutionStatus} (running : x.status = .running)
      (terminal : status = .completed ∨ status = .failed) :
      ExecutionWrite now x { x with status := status, completedAt := some now }

theorem NodeWrite.moves (h : NodeWrite now r r') : NodeMoves r r' := by
  cases h with
  | kept => exact .inl rfl
  | claimed pending => exact .inr (by simp [pending, NODE_TRANSITIONS])
  | blocked pending => exact .inr (by simp [pending, NODE_TRANSITIONS])
  | ended _ _ _ running terminal => exact .inr (by rcases terminal with rfl | rfl <;> simp [running, NODE_TRANSITIONS])

theorem ExecutionWrite.moves (h : ExecutionWrite now x x') : ExecutionMoves x x' := by
  cases h with
  | kept => exact .inl rfl
  | triggered _ pending => exact .inr (by simp [pending, WORKFLOW_TRANSITIONS])
  | ended running terminal => exact .inr (by rcases terminal with rfl | rfl <;> simp [running, WORKFLOW_TRANSITIONS])

theorem NodeWrite.extends (h : NodeWrite now r r') (hm : r.Marked) : r.span.Extends r'.span := by
  cases h with
  | kept => exact .refl _
  | claimed pending =>
    rw [NodeExecutionRecord.Marked, pending] at hm
    exact hm.start_extends now
  | blocked pending =>
    rw [NodeExecutionRecord.Marked, pending] at hm
    exact Lifespan.finish_extends hm.2 now
  | ended _ _ _ running =>
    rw [NodeExecutionRecord.Marked, running] at hm
    exact Lifespan.finish_extends hm.2 now

theorem ExecutionWrite.extends (h : ExecutionWrite now x x') (hm : x.Marked) : x.span.Extends x'.span := by
  cases h with
  | kept => exact .refl _
  | triggered _ pending =>
    rw [WorkflowExecutionRecord.Marked, pending] at hm
    exact hm.start_extends now
  | ended running =>
    rw [WorkflowExecutionRecord.Marked, running] at hm
    exact Lifespan.finish_extends hm.2 now

theorem NodeWrite.timed (h : NodeWrite now r r') (ho : r.span.Ordered now) (hm : r.Marked) :
    r'.span.Ordered now ∧ r'.Marked := by
  cases h with
  | kept => exact ⟨ho, hm⟩
  | claimed pending =>
    rw [NodeExecutionRecord.Marked, pending] at hm
    exact ⟨ho.start hm, ⟨now, rfl⟩, hm.2⟩
  | blocked => exact ⟨ho.finish, now, rfl⟩
  | ended _ _ _ running terminal =>
    rw [NodeExecutionRecord.Marked, running] at hm
    rcases terminal with rfl | rfl
    · exact ⟨ho.finish, hm.1, now, rfl⟩
    · exact ⟨ho.finish, now, rfl⟩

theorem ExecutionWrite.timed (h : ExecutionWrite now x x') (ho : x.span.Ordered now) (hm : x.Marked) :
    x'.span.Ordered now ∧ x'.Marked := by
  cases h with
  | kept => exact ⟨ho, hm⟩
  | triggered _ pending =>
    rw [WorkflowExecutionRecord.Marked, pending] at hm
    exact ⟨ho.start hm, ⟨now, rfl⟩, hm.2⟩
  | ended running terminal =>
    rw [WorkflowExecutionRecord.Marked, running] at hm
    rcases terminal with rfl | rfl <;> exact ⟨ho.finish, hm.1, now, rfl⟩

/-! ## The writes of one transaction -/

/-- Every row of a transaction at `now`; what it inserts has just been submitted. -/
structure RowWrites (now : Time) (db db' : Database) : Prop where
  node : ∀ e i r, db.node e i = some r → ∃ r', db'.node e i = some r' ∧ NodeWrite now r r'
  newNode : ∀ e i r', db.node e i = none → db'.node e i = some r' → ∃ n, r' = pendingNodeExecution e now n
  execution : ∀ e x, db.getExecutionById e = some x → ∃ x', db'.getExecutionById e = some x' ∧ ExecutionWrite now x x'
  newExecution : ∀ e x', db.getExecutionById e = none → db'.getExecutionById e = some x' →
    ∃ workflowId, x' = pendingExecution e workflowId now

theorem RowWrites.of_maps {f : Uuid → String → NodeExecutionRecord → NodeExecutionRecord}
    {g : Uuid → WorkflowExecutionRecord → WorkflowExecutionRecord}
    (hnode : ∀ e i, db'.node e i = (db.node e i).map (f e i))
    (hexecution : ∀ e, db'.getExecutionById e = (db.getExecutionById e).map (g e))
    (hf : ∀ e i r, NodeWrite now r (f e i r)) (hg : ∀ e x, ExecutionWrite now x (g e x)) : RowWrites now db db' := by
  refine ⟨fun e i r hr => ?_, fun e i r' hnone hr' => ?_, fun e x hx => ?_, fun e x' hnone hx' => ?_⟩
  · exact ⟨f e i r, by rw [hnode, hr]; rfl, hf e i r⟩
  · rw [hnode, hnone] at hr'
    cases hr'
  · exact ⟨g e x, by rw [hexecution, hx]; rfl, hg e x⟩
  · rw [hexecution, hnone] at hx'
    cases hx'

theorem RowWrites.of_same (hn : db'.nodeExecutions = db.nodeExecutions)
    (hx : db'.workflowExecutions = db.workflowExecutions) :
    RowWrites now db db' := by
  refine .of_maps (f := fun _ _ => id) (g := fun _ => id) (fun e i => ?_) (fun e => ?_) (fun _ _ _ => .kept) fun _ _ =>
    .kept
  · rw [Database.node, Database.node, hn, Option.map_id]
    rfl
  · rw [getExecutionById, getExecutionById, hx, Option.map_id]
    rfl

/-- Pending nodes may be written. -/
def WritesPending (now : Time) (db db' : Database) : Prop :=
  ∃ f : Uuid → String → NodeExecutionRecord → NodeExecutionRecord, (∀ e i, db'.node e i = (db.node e i).map (f e i)) ∧
    ∀ e i r, f e i r = r ∨ (r.status = .pending ∧ NodeWrite now r (f e i r))

/-- Executions may be written. -/
def WritesExecutions (now : Time) (db db' : Database) : Prop :=
  ∃ g : Uuid → WorkflowExecutionRecord → WorkflowExecutionRecord,
    (∀ e, db'.getExecutionById e = (db.getExecutionById e).map (g e)) ∧ ∀ e x, ExecutionWrite now x (g e x)

theorem WritesPending.of_eq (h : ∀ e i, db'.node e i = db.node e i) : WritesPending now db db' :=
  ⟨fun _ _ => id, fun e i => by rw [h, Option.map_id]; rfl, fun _ _ _ => .inl rfl⟩

theorem WritesExecutions.of_eq (h : ∀ e, db'.getExecutionById e = db.getExecutionById e) :
    WritesExecutions now db db' :=
  ⟨fun _ => id, fun e => by rw [h, Option.map_id]; rfl, fun _ _ => .kept⟩

theorem RowWrites.of_parts (hn : WritesPending now db db') (hx : WritesExecutions now db db') :
    RowWrites now db db' := by
  obtain ⟨f, hnode, hf⟩ := hn
  obtain ⟨g, hexecution, hg⟩ := hx
  refine .of_maps hnode hexecution (fun e i r => ?_) hg
  rcases hf e i r with hsame | ⟨-, hwrite⟩
  · rw [hsame]
    exact .kept
  · exact hwrite

theorem failPendingNodes_writes {ids : List String} {reason : String} :
    WritesPending now db (db.failPendingNodes e ids reason now).2 := by
  refine ⟨_, fun e' i' => node_failPendingNodes, fun e' i' r => ?_⟩
  split
  · rename_i hpending
    exact .inr ⟨hpending.2.2, .blocked hpending.2.2 reason⟩
  · exact .inl rfl

theorem claimPendingNodes_writes {ids : List String} : WritesPending now db (db.claimPendingNodes e ids now).2 := by
  refine ⟨_, fun e' i' => node_claimPendingNodes, fun e' i' r => ?_⟩
  split
  · rename_i hpending
    exact .inr ⟨hpending.2.2, .claimed hpending.2.2⟩
  · exact .inl rfl

theorem finalizeAs_writes {correlationId : Uuid} {new : WorkflowExecutionStatus} {messageType : MessageType}
    (hnew : new = .completed ∨ new = .failed) (h : finalizeAs e correlationId new messageType now db = .ok db') :
    db'.nodeExecutions = db.nodeExecutions ∧ WritesExecutions now db db' := by
  unfold finalizeAs at h
  dsimp only at h
  split at h
  · obtain rfl := addMessage_ok h
    refine ⟨rfl, _, fun e' => getExecutionById_updateExecutionIfCurrent, fun e' x' => ?_⟩
    split
    · rename_i hrunning
      exact .ended hrunning.2 hnew
    · exact .kept
  · rename_i hfalse
    rw [Bool.not_eq_true] at hfalse
    cases h
    rw [updateExecutionIfCurrent_false hfalse]
    exact ⟨rfl, .of_eq fun _ => rfl⟩

theorem evaluateFinalization_writes {correlationId : Uuid}
    (h : evaluateFinalization e x correlationId now db = .ok db') :
    db'.nodeExecutions = db.nodeExecutions ∧ WritesExecutions now db db' := by
  simp only [evaluateFinalization] at h
  split at h
  · exact finalizeAs_writes (.inr rfl) h
  · split at h
    · cases h
    · split at h
      · exact finalizeAs_writes (.inl rfl) h
      · cases h
        exact ⟨rfl, .of_eq fun _ => rfl⟩

theorem propagateFailure_writes {event : TaskCompletionEvent} {rows : List NodeExecutionRecord}
    (h : propagateFailure event x rows now db = .ok db') :
    WritesPending now db db' ∧ ∀ e, db'.getExecutionById e = db.getExecutionById e := by
  unfold propagateFailure at h
  split at h
  · cases h
  · obtain ⟨blocked, -, h⟩ := Except.bind_eq_ok.1 h
    obtain rfl := announceFailures_ok _ h
    refine ⟨failPendingNodes_writes, fun e => ?_⟩
    have hsame := (failPendingNodes_fields db event.executionId blocked (dependencyReason event.nodeId) now).1
    exact congrArg (Table.lookup WorkflowExecutionRecord.executionId e) hsame.executions.symm

theorem afterUpdate_writes {event : TaskCompletionEvent} {rows : List NodeExecutionRecord}
    {decision : TaskCompletionDecision} (h : afterUpdate event x rows now db = .ok (decision, db')) :
    WritesPending now db db' ∧ WritesExecutions now db db' := by
  obtain ⟨db₁, db₂, h₁, h₂, h₃⟩ := afterUpdate_steps h
  obtain ⟨⟨f, hnode, hwrites⟩, hexecutions⟩ :
      WritesPending now db db₁ ∧ ∀ e, db₁.getExecutionById e = db.getExecutionById e := by
    rcases h₁ with ⟨-, h₁⟩ | rfl
    · exact propagateFailure_writes h₁
    · exact ⟨.of_eq fun _ _ => rfl, fun _ => rfl⟩
  obtain rfl := addMessage_ok h₂
  obtain ⟨hnodes, g, hget, hg⟩ := evaluateFinalization_writes h₃
  refine ⟨⟨f, fun e i => ?_, hwrites⟩, g, fun e => ?_, hg⟩
  · rw [← hnode]
    exact congrArg (Table.lookup nodeKey (e, i)) hnodes
  · rw [hget, ← hexecutions]
    rfl

/-! ## The transactions -/

variable (db e i now) in
/-- The end of a running node; its row is not pending afterwards. -/
theorem updateNodeIfCurrent_writes {target : NodeExecutionStatus} (htarget : target = .completed ∨ target = .failed)
    (output : Option Json) (errorMessage errorType : Option String) :
    ∃ u : Uuid → String → NodeExecutionRecord → NodeExecutionRecord,
      (∀ e' i', (db.updateNodeIfCurrent e i .running target output errorMessage errorType none (some now)).2.node e'
        i' = (db.node e' i').map (u e' i')) ∧
      ∀ e' i' r, NodeWrite now r (u e' i' r) ∧ (u e' i' r = r ∨ (u e' i' r).status ≠ .pending) := by
  refine ⟨_, fun e' i' => node_updateNodeIfCurrent, fun e' i' r => ?_⟩
  split
  · rename_i hrunning
    refine ⟨.ended _ _ _ hrunning.2.2 htarget, .inr ?_⟩
    rcases htarget with rfl | rfl <;> simp
  · exact ⟨.kept, .inl rfl⟩

/-- A running node ends; what is then written was pending, so no row is written twice. -/
theorem completeNode_writes {event : TaskCompletionEvent} {rows : List NodeExecutionRecord}
    {existing : NodeExecutionRecord} {decision : TaskCompletionDecision}
    (h : completeNode event x rows existing now db = .ok (decision, db')) :
    RowWrites now db db' := by
  rcases completeNode_steps h with rfl | ⟨output, errorMessage, errorType, -, h⟩
  · exact .of_same rfl rfl
  · obtain ⟨⟨f, hnode, hf⟩, g, hexecution, hg⟩ := afterUpdate_writes h
    obtain ⟨u, hu, hended⟩ := updateNodeIfCurrent_writes db event.executionId event.nodeId now
      event.status.nodeStatus_terminal output errorMessage errorType
    refine .of_maps (f := fun e' i' r => f e' i' (u e' i' r)) (fun e' i' => ?_) hexecution (fun e' i' r => ?_) hg
    · rw [hnode, hu, Option.map_map]
      rfl
    · obtain ⟨hwrite, hopen⟩ := hended e' i' r
      rcases hf e' i' (u e' i' r) with hsame | ⟨hpending, hthen⟩
      · rw [hsame]
        exact hwrite
      · rcases hopen with heq | hne
        · rw [heq] at hthen ⊢
          exact hthen
        · exact absurd hpending hne

theorem process_writes {policy : RetryPolicy} {event : TaskCompletionEvent} {next : Uuid}
    {decision : TaskCompletionDecision} (h : process policy event next now db = .ok (decision, db')) :
    RowWrites now db db' := by
  obtain ⟨db₁, hsame, rfl | ⟨x, rows, existing, h⟩⟩ := process_steps h
  · exact .of_same hsame.nodes hsame.executions
  · obtain ⟨hnode, hnew, hexecution, hnewExecution⟩ := completeNode_writes h
    exact ⟨fun e i r hr => hnode e i r (hsame.node ▸ hr), fun e i r' hr => hnew e i r' (hsame.node ▸ hr),
      fun e x hx => hexecution e x (hsame.getExecutionById ▸ hx),
      fun e x' hx => hnewExecution e x' (hsame.getExecutionById ▸ hx)⟩

theorem triggerCommit_writes {input : Option (Dict Json)} {messageId : Uuid}
    (h : triggerCommit x input messageId now db = .ok db') : RowWrites now db db' := by
  unfold triggerCommit at h
  dsimp only at h
  split at h
  · obtain rfl := addMessage_ok h
    refine .of_parts (.of_eq fun _ _ => rfl) ⟨_, fun e => getExecutionById_updateExecutionIfCurrent, fun e x' => ?_⟩
    split
    · rename_i hpending
      exact .triggered _ hpending.2
    · exact .kept
  · cases h

theorem dispatch_writes {strFloat : Rat → String} {n : WorkflowNode} {attemptId : Uuid} {result : DispatchResult}
    (h : dispatch strFloat x n attemptId now db = .ok (result, db')) : RowWrites now db db' := by
  have hclaim :
      ∀ {db₁ : Database}, db₁.nodeExecutions = (db.claimPendingNodes x.executionId [n.id] now).2.nodeExecutions →
      db₁.workflowExecutions = db.workflowExecutions → RowWrites now db db₁ := by
    intro db₁ hnodes hexecutions
    obtain ⟨u, hu, hclaimed⟩ := @claimPendingNodes_writes db x.executionId now [n.id]
    refine .of_parts ⟨u, fun e i => ?_, hclaimed⟩ (.of_eq fun e => ?_)
    · exact (congrArg (Table.lookup nodeKey (e, i)) hnodes).trans (hu e i)
    · exact congrArg (Table.lookup WorkflowExecutionRecord.executionId e) hexecutions
  unfold dispatch at h
  dsimp only at h
  split at h
  · cases h
  · split at h
    · cases h
      refine .of_parts failPendingNodes_writes (.of_eq fun e => ?_)
      exact congrArg (Table.lookup WorkflowExecutionRecord.executionId e)
        (failPendingNodes_fields db x.executionId [n.id] "A required dependency failed." now).1.executions.symm
    · obtain ⟨input, -, h⟩ := Except.bind_eq_ok.1 h
      split at h
      · cases h
        exact hclaim rfl rfl
      · obtain ⟨db₁, h₁, h⟩ := Except.bind_eq_ok.1 h
        cases h
        obtain ⟨-, hexecutions, hnodes, -⟩ := registerTask_frame h₁
        exact hclaim hnodes hexecutions

theorem submit_writes {env : ValidationEnv} {definition : Dict Json} {workflowId : Uuid}
    (hs : db.Sound) (h : submit env definition workflowId e now db = .ok db') : RowWrites now db db' := by
  obtain ⟨w, -, -, -, hnone, rfl⟩ := submit_ok hs h
  refine ⟨fun e' i r hr => ?_, fun e' i r' hr hr' => ?_, fun e' x hx => ?_, fun e' x' hx hx' => ?_⟩
  · exact ⟨r, Table.lookup_append_of_some hr, .kept⟩
  · have hmem := (node_some hr').1
    rcases List.mem_append.1 hmem with hmem | hmem
    · exact absurd (node_some hr').2 fun hkey => Table.lookup_none.1 hr r' hmem (Prod.ext hkey.1 hkey.2)
    · obtain ⟨n, -, rfl⟩ := List.mem_map.1 hmem
      obtain ⟨-, he, -⟩ := node_some hr'
      exact ⟨n, by rw [← he]; rfl⟩
  · exact ⟨x, Table.lookup_append_of_some hx, .kept⟩
  · rw [submitted_getExecutionById hnone] at hx'
    split at hx'
    · rename_i he
      cases hx'
      exact ⟨w.workflowId, by rw [he]⟩
    · rw [hx] at hx'
      cases hx'

/-! ## The order of the instants -/

theorem NodeWrite.started {a : Time} (h : NodeWrite now r r') (ha : r'.startedAt = some a) :
    r.startedAt = some a ∨ (a = now ∧ r'.status = .running) := by
  cases h with
  | claimed =>
    cases ha
    exact .inr ⟨rfl, rfl⟩
  | _ => exact .inl ha

theorem RowWrites.moves (h : RowWrites now db db') : Moves db db' := by
  refine ⟨fun e i r hr => ?_, fun e i r' hnone hr' => ?_, fun e x hx => ?_, fun e x' hnone hx' => ?_⟩
  · obtain ⟨r', hr', hwrite⟩ := h.node e i r hr
    exact ⟨r', hr', hwrite.moves⟩
  · obtain ⟨n, rfl⟩ := h.newNode e i r' hnone hr'
    rfl
  · obtain ⟨x', hx', hwrite⟩ := h.execution e x hx
    exact ⟨x', hx', hwrite.moves⟩
  · obtain ⟨workflowId, rfl⟩ := h.newExecution e x' hnone hx'
    rfl

/-- The instants in the tables, of each row and between rows. -/
structure Clocked (db : Database) (now : Time) : Prop where
  nodes : ∀ e i r, db.node e i = some r → r.span.Ordered now ∧ r.Marked
  executions : ∀ e x, db.getExecutionById e = some x → x.span.Ordered now ∧ x.Marked
  dependencies :
    ∀ e x w n r a, db.getExecutionById e = some x → db.getWorkflowById x.workflowId = some w → n ∈ w.nodes →
    db.node e n.id = some r → r.startedAt = some a → ∀ d ∈ n.dependencies, ∃ r' b, db.node e d = some r' ∧
      r'.status = .completed ∧ r'.completedAt = some b ∧ b ≤ a
  begun : ∀ e i r a, db.node e i = some r → r.startedAt = some a →
    ∃ x c, db.getExecutionById e = some x ∧ x.startedAt = some c ∧ c ≤ a
  completed : ∀ e x b, db.getExecutionById e = some x → x.status = .completed → x.completedAt = some b →
    ∀ i r, db.node e i = some r → ∃ c, r.completedAt = some c ∧ c ≤ b
  failed : ∀ e x b, db.getExecutionById e = some x → x.status = .failed → x.completedAt = some b →
    ∃ i r c, db.node e i = some r ∧ r.status = .failed ∧ r.completedAt = some c ∧ c ≤ b

theorem clocked_empty (now : Time) : Clocked .empty now := by
  have hnode : ∀ e i, Database.empty.node e i = none := fun _ _ => rfl
  have hexecution : ∀ e, Database.empty.getExecutionById e = none := fun _ => rfl
  refine ⟨?_, ?_, ?_, ?_, ?_, ?_⟩ <;> simp [hnode, hexecution]

theorem Clocked.mono {later : Time} (h : Clocked db now) (hle : now ≤ later) : Clocked db later where
  nodes := fun e i r hr => (h.nodes e i r hr).imp_left (·.mono hle)
  executions := fun e x hx => (h.executions e x hx).imp_left (·.mono hle)
  dependencies := h.dependencies
  begun := h.begun
  completed := h.completed
  failed := h.failed

theorem Clocked.step_nodes (h : Clocked db now) (hw : RowWrites now db db') (hr' : db'.node e i = some r') :
    r'.span.Ordered now ∧ r'.Marked := by
  cases hr : db.node e i with
  | none =>
    obtain ⟨n, rfl⟩ := hw.newNode e i r' hr hr'
    have hfresh : (pendingNodeExecution e now n).span.Fresh := ⟨rfl, rfl⟩
    exact ⟨hfresh.ordered le_rfl, hfresh⟩
  | some r =>
    obtain ⟨r₁, hr₁, hwrite⟩ := hw.node e i r hr
    cases hr'.symm.trans hr₁
    obtain ⟨hordered, hmarked⟩ := h.nodes e i r hr
    exact hwrite.timed hordered hmarked

theorem Clocked.step_executions (h : Clocked db now) (hw : RowWrites now db db')
    (hx' : db'.getExecutionById e = some x') :
    x'.span.Ordered now ∧ x'.Marked := by
  cases hx : db.getExecutionById e with
  | none =>
    obtain ⟨workflowId, rfl⟩ := hw.newExecution e x' hx hx'
    have hfresh : (pendingExecution e workflowId now).span.Fresh := ⟨rfl, rfl⟩
    exact ⟨hfresh.ordered le_rfl, hfresh⟩
  | some x =>
    obtain ⟨x₁, hx₁, hwrite⟩ := hw.execution e x hx
    cases hx'.symm.trans hx₁
    obtain ⟨hordered, hmarked⟩ := h.executions e x hx
    exact hwrite.timed hordered hmarked

/-- A node that has started was submitted before, with an execution of the same workflow. -/
theorem RowWrites.started_before {a : Time} (hw : RowWrites now db db') (hs : db.Sound) (hr' : db'.node e i = some r')
    (ha : r'.startedAt = some a) :
    ∃ r x, db.node e i = some r ∧ NodeWrite now r r' ∧ db.getExecutionById e = some x := by
  cases hr : db.node e i with
  | none =>
    obtain ⟨n, rfl⟩ := hw.newNode e i r' hr hr'
    cases ha
  | some r =>
    obtain ⟨r₁, hr₁, hwrite⟩ := hw.node e i r hr
    cases hr'.symm.trans hr₁
    obtain ⟨hmem, rfl, -⟩ := node_some hr
    obtain ⟨x, hx⟩ := hs.node_execution r hmem
    exact ⟨r, x, rfl, hwrite, hx⟩

/-- An execution keeps its workflow. -/
theorem Later.same_workflow (h : Later db db') (hs : db.Sound) (hx : db.getExecutionById e = some x)
    (hx' : db'.getExecutionById e = some x') (hw : db'.getWorkflowById x'.workflowId = some w) :
    db.getWorkflowById x.workflowId = some w := by
  obtain ⟨w₀, hw₀, -⟩ := hs.workflow e x hx
  obtain ⟨x₁, hx₁, hid, -⟩ := h.execution e x hx
  cases hx'.symm.trans hx₁
  rw [hid, h.workflow _ _ hw₀] at hw
  cases hw
  exact hw₀

/-- An execution that has ended did so before, or in the transaction at `now`. -/
theorem RowWrites.ended_before {b : Time} (hw : RowWrites now db db') (hx' : db'.getExecutionById e = some x')
    (hst : x'.status = .completed ∨ x'.status = .failed) (hb : x'.completedAt = some b) :
    db.getExecutionById e = some x' ∨ b = now := by
  cases hx : db.getExecutionById e with
  | none =>
    obtain ⟨workflowId, rfl⟩ := hw.newExecution e x' hx hx'
    cases hb
  | some x =>
    obtain ⟨x₁, hx₁, hwrite⟩ := hw.execution e x hx
    cases hx'.symm.trans hx₁
    cases hwrite with
    | kept => exact .inl rfl
    | triggered => rcases hst with hst | hst <;> cases hst
    | ended =>
      cases hb
      exact .inr rfl

/-- What a reader of the tables can rely on later: rows stay, a status moves along its edges only,
and every instant that has been noted stays. -/
structure Follows (db db' : Database) : Prop where
  node : ∀ e i r, db.node e i = some r → ∃ r', db'.node e i = some r' ∧ r.span.Extends r'.span ∧
    Relation.ReflTransGen (fun a b => b ∈ NODE_TRANSITIONS a) r.status r'.status
  execution :
    ∀ e x, db.getExecutionById e = some x → ∃ x', db'.getExecutionById e = some x' ∧ x'.workflowId = x.workflowId ∧
    x.span.Extends x'.span ∧ Relation.ReflTransGen (fun a b => b ∈ WORKFLOW_TRANSITIONS a) x.status x'.status ∧
    (x.status ≠ .pending → x'.inputData = x.inputData)

/-- Nothing becomes pending again. -/
theorem not_pending_of_moves {a b : WorkflowExecutionStatus} (ha : a ≠ .pending)
    (h : Relation.ReflTransGen (fun a b => b ∈ WORKFLOW_TRANSITIONS a) a b) : b ≠ .pending := by
  induction h with
  | refl => exact ha
  | @tail c d _ hedge =>
    rintro rfl
    cases c <;> simp [WORKFLOW_TRANSITIONS] at hedge

theorem Follows.refl (db : Database) : Follows db db :=
  ⟨fun _ _ r hr => ⟨r, hr, .refl _, .refl⟩, fun _ x hx => ⟨x, hx, rfl, .refl _, .refl, fun _ => rfl⟩⟩

theorem Follows.trans (h : Follows db db₁) (h' : Follows db₁ db') : Follows db db' := by
  refine ⟨fun e i r hr => ?_, fun e x hx => ?_⟩
  · obtain ⟨r₁, hr₁, hextends, hmoves⟩ := h.node e i r hr
    obtain ⟨r', hr', hextends', hmoves'⟩ := h'.node e i r₁ hr₁
    exact ⟨r', hr', hextends.trans hextends', hmoves.trans hmoves'⟩
  · obtain ⟨x₁, hx₁, hid, hextends, hmoves, hinput⟩ := h.execution e x hx
    obtain ⟨x', hx', hid', hextends', hmoves', hinput'⟩ := h'.execution e x₁ hx₁
    exact ⟨x', hx', hid'.trans hid, hextends.trans hextends', hmoves.trans hmoves',
      fun hne => (hinput' (not_pending_of_moves hne hmoves)).trans (hinput hne)⟩

theorem Clocked.follows (h : Clocked db now) (hw : RowWrites now db db') : Follows db db' := by
  refine ⟨fun e i r hr => ?_, fun e x hx => ?_⟩
  · obtain ⟨r', hr', hwrite⟩ := hw.node e i r hr
    refine ⟨r', hr', hwrite.extends (h.nodes e i r hr).2, ?_⟩
    rcases hwrite.moves with heq | hedge
    · rw [heq]
    · exact .single hedge
  · obtain ⟨x', hx', hwrite⟩ := hw.execution e x hx
    refine ⟨x', hx', ?_, hwrite.extends (h.executions e x hx).2, ?_, fun hne => ?_⟩
    · cases hwrite <;> rfl
    · rcases hwrite.moves with heq | hedge
      · rw [heq]
      · exact .single hedge
    · cases hwrite with
      | triggered _ pending => exact absurd pending hne
      | _ => rfl

/-- One committed transaction keeps the order: what starts has all that it needs, and what is
settled has its nodes. -/
theorem Clocked.step (h : Clocked db now) (hw : RowWrites now db db') (hs : db.Sound) (hadv : Advances db db')
    (hc : db'.Consistent) : Clocked db' now := by
  have hs' := hadv.sound
  have hkeeps := hw.moves.keepsTerminal
  have hnodes : ∀ e i r', db'.node e i = some r' → r'.span.Ordered now ∧ r'.Marked := fun _ _ _ => h.step_nodes hw
  have hexecutions : ∀ e x', db'.getExecutionById e = some x' → x'.span.Ordered now ∧ x'.Marked :=
    fun _ _ => h.step_executions hw
  have hend : ∀ e i, db'.status e i = .completed ∨ db'.status e i = .failed → ∃ r' c, db'.node e i = some r' ∧
      r'.status = db'.status e i ∧ r'.completedAt = some c ∧ c ≤ now := by
    intro e i hst
    obtain ⟨r', hr'⟩ :=
      exists_node_of_started (show db'.status e i ≠ .pending by rcases hst with hst | hst <;> simp [hst])
    obtain ⟨hordered, hmarked⟩ := hnodes e i r' hr'
    obtain ⟨c, hcompleted⟩ := hmarked.completed (status_of_node hr' ▸ hst)
    exact ⟨r', c, hr', (status_of_node hr').symm, hcompleted, (hordered.completed c hcompleted).2⟩
  refine ⟨hnodes, hexecutions, fun e x' w n r' a hx' hw' hn hr' ha d hd => ?_, fun e i r' a hr' ha => ?_,
    fun e x' b hx' hst hb i r' hr' => ?_, fun e x' b hx' hst hb => ?_⟩
  · obtain ⟨r, x, hr, hwrite, hx⟩ := hw.started_before hs hr' ha
    have hworkflow := hadv.later.same_workflow hs hx hx' hw'
    rcases hwrite.started ha with ha | ⟨rfl, hrunning⟩
    · obtain ⟨r₁, b, hr₁, hcompleted, hb, hle⟩ := h.dependencies e x w n r a hx hworkflow hn hr ha d hd
      exact ⟨r₁, b, hkeeps.node e d r₁ hr₁ (.inl hcompleted), hcompleted, hb, hle⟩
    · have hdep : db'.status e d = .completed :=
        (hc e x' w hx' hw').started n.id d ⟨n, hn, rfl, hd⟩ (.inl ((status_of_node hr').trans hrunning))
      obtain ⟨r₁, b, hr₁, hst, hb, hle⟩ := hend e d (.inl hdep)
      exact ⟨r₁, b, hr₁, hst.trans hdep, hb, hle⟩
  · obtain ⟨r, x, hr, hwrite, hx⟩ := hw.started_before hs hr' ha
    obtain ⟨x', hx', -, hextends, -⟩ := (h.follows hw).execution e x hx
    rcases hwrite.started ha with ha | ⟨rfl, hrunning⟩
    · obtain ⟨x₁, c, hx₁, hc₁, hle⟩ := h.begun e i r a hr ha
      cases hx.symm.trans hx₁
      exact ⟨x', c, hx', hextends.started c hc₁, hle⟩
    · obtain ⟨w, hw', -⟩ := hs'.workflow e x' hx'
      have htriggered : x'.status ≠ .pending := by
        intro hpending
        have hnode := (hc e x' w hx' hw').untriggered (by simp [Database.run, hx', hpending]) i
        have hstatus : db'.status e i = .pending := hnode
        rw [status_of_node hr', hrunning] at hstatus
        cases hstatus
      obtain ⟨hordered, hmarked⟩ := hexecutions e x' hx'
      obtain ⟨c, hstarted⟩ := hmarked.started htriggered
      exact ⟨x', c, hx', hstarted, (hordered.started c hstarted).2⟩
  · obtain ⟨w, hw', -⟩ := hs'.workflow e x' hx'
    have hi : i ∈ w.nodeIds := (hs'.mem_nodeIds hx' hw').2 ⟨r', hr'⟩
    rcases hw.ended_before hx' (.inl hst) hb with hx | rfl
    · have hworkflow := hadv.later.same_workflow hs hx hx' hw'
      obtain ⟨r, hr⟩ := (hs.mem_nodeIds hx hworkflow).1 hi
      obtain ⟨c, hc₁, hle⟩ := h.completed e x' b hx hst hb i r hr
      obtain ⟨r₁, hr₁, hextends, -⟩ := (h.follows hw).node e i r hr
      cases hr'.symm.trans hr₁
      exact ⟨c, hextends.completed c hc₁, hle⟩
    · have hcompleted : db'.status e i = .completed :=
        (hc e x' w hx' hw').completed_sound (by simp [Database.run, hx', hst]) i hi
      obtain ⟨r₁, c, hr₁, -, hc₁, hle⟩ := hend e i (.inl hcompleted)
      cases hr'.symm.trans hr₁
      exact ⟨c, hc₁, hle⟩
  · obtain ⟨w, hw', -⟩ := hs'.workflow e x' hx'
    rcases hw.ended_before hx' (.inr hst) hb with hx | rfl
    · obtain ⟨i, r, c, hr, hfailed, hc₁, hle⟩ := h.failed e x' b hx hst hb
      exact ⟨i, r, c, hkeeps.node e i r hr (.inr hfailed), hfailed, hc₁, hle⟩
    · obtain ⟨i, -, hfailed⟩ := (hc e x' w hx' hw').failed_sound (by simp [Database.run, hx', hst])
      have hstatus : db'.status e i = .failed := hfailed
      obtain ⟨r₁, c, hr₁, hst₁, hc₁, hle⟩ := hend e i (.inr hstatus)
      exact ⟨i, r₁, c, hr₁, hst₁.trans hstatus, hc₁, hle⟩

end Database

namespace System

variable {cfg : Config} {s t : System} {a : Action}

/-- Each step of the system writes its rows at the instant of the clock. -/
theorem step_writes (hs : s.db.Sound) (h : step cfg s a = some t) : RowWrites s.now s.db t.db := by
  cases step_effect h with
  | submit commit => exact submit_writes hs commit
  | trigger _ commit => exact triggerCommit_writes commit
  | dispatch _ _ _ dispatched => exact dispatch_writes dispatched
  | process _ _ _ processed => exact process_writes processed
  | markRetry => exact .of_same markRetryPublished_sameRuns.nodes markRetryPublished_sameRuns.executions
  | _ => exact .of_same rfl rfl

theorem step_now (h : step cfg s a = some t) : s.now ≤ t.now := by
  cases step_effect h with
  | tick => exact Int.le_add_of_nonneg_right (Int.natCast_nonneg _)
  | _ => exact le_rfl

end System

namespace OpenSystem

open WorkflowEngine.System (Upheld)

variable {cfg : Config} {intake : Intake} {s t : OpenSystem} {a : Action} {e : Uuid} {i : String}

theorem step_clocked (h : Upheld cfg s.system) (ht : Clocked s.system.db s.system.now)
    (hstep : step cfg intake s a = some t) :
    RowWrites s.system.now s.system.db t.system.db ∧ Clocked t.system.db t.system.now := by
  rcases step_cases hstep with ⟨b, hb⟩ | heq | ⟨event, -, heq⟩
  · have hsound := h.consistent.sound
    have hwrites := System.step_writes hsound hb
    have hadv := (System.step_kind hsound hb).advances h.consistent
    exact ⟨hwrites, (ht.step hwrites hsound hadv (h.step hb).consistent.runs).mono (System.step_now hb)⟩
  · rw [heq]
    exact ⟨.of_same rfl rfl, ht⟩
  · rw [heq]
    exact ⟨.of_same rfl rfl, ht⟩

theorem later_clocked (h : Upheld cfg s.system) (ht : Clocked s.system.db s.system.now)
    (hlater : Later cfg intake s t) :
    Clocked t.system.db t.system.now := by
  induction hlater with
  | start => exact ht
  | next _ hs _ hstep ih => exact (step_clocked (later_upheld h hs) ih hstep).2

theorem reachable_clocked (h : Reachable cfg intake s) : Clocked s.system.db s.system.now :=
  later_clocked System.upheld_init (clocked_empty 0) h

theorem later_follows (h : Upheld cfg s.system) (ht : Clocked s.system.db s.system.now)
    (hlater : Later cfg intake s t) :
    Follows s.system.db t.system.db := by
  induction hlater with
  | start => exact .refl _
  | next _ hs _ hstep ih =>
    have hclocked := later_clocked h ht hs
    exact ih.trans (hclocked.follows (step_clocked (later_upheld h hs) hclocked hstep).1)

/-- In every run, whoever publishes completions: the instants of each row are those of its status
and in their order, no node starts before its execution and before the completion of all it depends
on, an execution completes after all of its nodes and fails after one that has failed, and what has
once been noted is what every later state shows. -/
theorem timestamps_causal (hs : Reachable cfg intake s) (hlater : Later cfg intake s t) :
    Clocked s.system.db s.system.now ∧ Follows s.system.db t.system.db :=
  ⟨reachable_clocked hs, later_follows (later_upheld System.upheld_init hs) (reachable_clocked hs) hlater⟩

/-- The chain with the clock running: `fetch` is started at 3 and completed at 7. -/
def chainTimed : List System.Action :=
  ([.submit System.chain, .tick 1, .readTrigger (.v4 1) none, .commitTrigger 0, .publishRow (.v4 2),
    .deliverEvent "orchestrator", .handle 0, .readReady 0, .tick 2, .dispatchNode 0 0, .finishDispatch 0,
    .acknowledge 0,
    .publishRow (createTaskId (.v4 1) "fetch"), .deliverTask "worker", .tick 4] : List System.Action) ++
  List.replicate 7 (System.Action.work 0 (.success .null)) ++
  ([.deliverCompletion "orchestrator", .handle 0, .readReady 0, .tick 8, .dispatchNode 0 0] : List System.Action)

/-- `report` has just been started. -/
def reportStarted : OpenSystem := ⟨System.reached System.sampleConfig chainTimed, []⟩

theorem timestamps_causal_chain :
    ∃ t r r' b, step System.sampleConfig sampleIntake reportStarted (.own (.tick 16)) = some t ∧
      reportStarted.system.db.node (.v4 1) "report" = some r ∧ r.startedAt = some 15 ∧
      reportStarted.system.db.node (.v4 1) "fetch" = some r' ∧ r'.completedAt = some b ∧ b ≤ 15 ∧
      ∃ r'', t.system.db.node (.v4 1) "report" = some r'' ∧ r.span.Extends r''.span := by
  obtain ⟨t, ht⟩ : ∃ t, step System.sampleConfig sampleIntake reportStarted (.own (.tick 16)) = some t :=
    Option.isSome_iff_exists.1 (by decide +kernel)
  have hreachable : Reachable System.sampleConfig sampleIntake reportStarted :=
    later_own (s := init) (System.reachable_reached _ _)
  obtain ⟨hclocked, hfollows⟩ := timestamps_causal hreachable (.next _ .start trivial ht)
  have hx : reportStarted.system.db.getExecutionById (.v4 1) = some ⟨.v4 1, .v4 0, .running, [], 0, some 1, none⟩ := by
    decide +kernel
  obtain ⟨w, n, hw, hn, hid, hdep⟩ : ∃ w n, reportStarted.system.db.getWorkflowById (.v4 0) = some w ∧ n ∈ w.nodes ∧
      n.id = "report" ∧ "fetch" ∈ n.dependencies :=
    ⟨⟨.v4 0, "sample", [⟨"fetch", "input", [], []⟩, ⟨"report", "output", ["fetch"], []⟩]⟩,
      ⟨"report", "output", ["fetch"], []⟩, by decide +kernel, by decide, rfl, by decide⟩
  have hr : reportStarted.system.db.node (.v4 1) n.id =
      some ⟨.v4 1, "report", .running, .obj [], none, none, 0, some 15, none⟩ := by
    rw [hid]
    decide +kernel
  obtain ⟨r', b, hr', -, hb, hle⟩ := hclocked.dependencies _ _ w n _ 15 hx hw hn hr rfl "fetch" hdep
  obtain ⟨r'', hr'', hextends, -⟩ := hfollows.node _ _ _ hr
  exact ⟨t, _, r', b, ht, hid ▸ hr, rfl, hr', hb, hle, r'', hid ▸ hr'', hextends⟩

end OpenSystem

end WorkflowEngine
