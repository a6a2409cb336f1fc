import Mathlib.Logic.Relation
import WorkflowEngine.Consistency

/-!
# The declared state machines

No service asks `validate_node_transition` or `validate_workflow_transition`: every write is a
conditional update from one status. So a transaction leaves a row alone or moves it along an
edge, whatever the other transactions do, and a terminal row is never written again.
-/
namespace WorkflowEngine

open Database

def WORKFLOW_TRANSITIONS : WorkflowExecutionStatus → List WorkflowExecutionStatus
  | .pending => [.running]
  | .running => [.completed, .failed]
  | .completed => []
  | .failed => []

def NODE_TRANSITIONS : NodeExecutionStatus → List NodeExecutionStatus
  | .pending => [.running, .failed]
  | .running => [.completed, .failed]
  | .completed => []
  | .failed => []

namespace Database

variable {db db' db₁ : Database} {e : Uuid} {x : WorkflowExecutionRecord} {now : Time}

/-- The row is as it was, or its status has moved along an edge. -/
def NodeMoves (r r' : NodeExecutionRecord) : Prop := r' = r ∨ r'.status ∈ NODE_TRANSITIONS r.status

def ExecutionMoves (x x' : WorkflowExecutionRecord) : Prop := x' = x ∨ x'.status ∈ WORKFLOW_TRANSITIONS x.status

/-- One committed transaction, row by row; rows that are new are pending. -/
structure Moves (db db' : Database) : Prop where
  node : ∀ e i r, db.node e i = some r → ∃ r', db'.node e i = some r' ∧ NodeMoves r r'
  newNode : ∀ e i r', db.node e i = none → db'.node e i = some r' → r'.status = .pending
  execution : ∀ e x, db.getExecutionById e = some x → ∃ x', db'.getExecutionById e = some x' ∧ ExecutionMoves x x'
  newExecution : ∀ e x', db.getExecutionById e = none → db'.getExecutionById e = some x' → x'.status = .pending

/-- Rows of nodes and executions, updated one by one. -/
theorem Moves.of_maps {f : Uuid → String → NodeExecutionRecord → NodeExecutionRecord}
    {g : Uuid → WorkflowExecutionRecord → WorkflowExecutionRecord}
    (hnode : ∀ e i, db'.node e i = (db.node e i).map (f e i))
    (hexecution : ∀ e, db'.getExecutionById e = (db.getExecutionById e).map (g e))
    (hf : ∀ e i r, NodeMoves r (f e i r)) (hg : ∀ e x, ExecutionMoves x (g e x)) : Moves db db' := by
  refine ⟨fun e i r hr => ?_, fun e i r' hnone hr' => ?_, fun e x hx => ?_, fun e x' hnone hx' => ?_⟩
  · exact ⟨f e i r, by rw [hnode, hr]; rfl, hf e i r⟩
  · rw [hnode, hnone] at hr'
    cases hr'
  · exact ⟨g e x, by rw [hexecution, hx]; rfl, hg e x⟩
  · rw [hexecution, hnone] at hx'
    cases hx'

theorem Moves.of_same (hn : db'.nodeExecutions = db.nodeExecutions)
    (hx : db'.workflowExecutions = db.workflowExecutions) :
    Moves db db' := by
  refine .of_maps (f := fun _ _ => id) (g := fun _ => id) (fun e i => ?_) (fun e => ?_) (fun _ _ _ => .inl rfl)
    fun _ _ => .inl rfl
  · rw [Database.node, Database.node, hn, Option.map_id]
    rfl
  · rw [getExecutionById, getExecutionById, hx, Option.map_id]
    rfl

/-- A terminal row is never written. -/
structure KeepsTerminal (db db' : Database) : Prop where
  node : ∀ e i r, db.node e i = some r → r.status = .completed ∨ r.status = .failed → db'.node e i = some r
  execution : ∀ e x, db.getExecutionById e = some x → x.status = .completed ∨ x.status = .failed →
    db'.getExecutionById e = some x

theorem Moves.keepsTerminal (h : Moves db db') : KeepsTerminal db db' := by
  refine ⟨fun e i r hr hst => ?_, fun e x hx hst => ?_⟩
  · obtain ⟨r', hr', rfl | hedge⟩ := h.node e i r hr
    · exact hr'
    · rcases hst with hst | hst <;> simp [hst, NODE_TRANSITIONS] at hedge
  · obtain ⟨x', hx', rfl | hedge⟩ := h.execution e x hx
    · exact hx'
    · rcases hst with hst | hst <;> simp [hst, WORKFLOW_TRANSITIONS] at hedge

theorem KeepsTerminal.trans (h : KeepsTerminal db db₁) (h' : KeepsTerminal db₁ db') : KeepsTerminal db db' :=
  ⟨fun e i r hr hst => h'.node e i r (h.node e i r hr hst) hst,
    fun e x hx hst => h'.execution e x (h.execution e x hx hst) hst⟩

/-! ## The writes -/

/-- Pending nodes may fail. -/
def FailsPending (db db' : Database) : Prop :=
  ∃ f : Uuid → String → NodeExecutionRecord → NodeExecutionRecord, (∀ e i, db'.node e i = (db.node e i).map (f e i)) ∧
    ∀ e i r, f e i r = r ∨ (r.status = .pending ∧ (f e i r).status = .failed)

/-- Running executions may end. -/
def EndsRunning (db db' : Database) : Prop :=
  ∃ g : Uuid → WorkflowExecutionRecord → WorkflowExecutionRecord,
    (∀ e, db'.getExecutionById e = (db.getExecutionById e).map (g e)) ∧ ∀ e x, ExecutionMoves x (g e x)

theorem FailsPending.of_eq (h : ∀ e i, db'.node e i = db.node e i) : FailsPending db db' :=
  ⟨fun _ _ => id, fun e i => by rw [h, Option.map_id]; rfl, fun _ _ _ => .inl rfl⟩

theorem EndsRunning.of_eq (h : ∀ e, db'.getExecutionById e = db.getExecutionById e) : EndsRunning db db' :=
  ⟨fun _ => id, fun e => by rw [h, Option.map_id]; rfl, fun _ _ => .inl rfl⟩

theorem failPendingNodes_fails {ids : List String} {reason : String} :
    FailsPending db (db.failPendingNodes e ids reason now).2 := by
  refine ⟨_, fun e' i' => node_failPendingNodes, fun e' i' r => ?_⟩
  split
  · rename_i hpending
    exact .inr ⟨hpending.2.2, rfl⟩
  · exact .inl rfl

theorem claimPendingNodes_claims {ids : List String} :
    ∃ u : Uuid → String → NodeExecutionRecord → NodeExecutionRecord,
      (∀ e' i', (db.claimPendingNodes e ids now).2.node e' i' = (db.node e' i').map (u e' i')) ∧
      ∀ e' i' r, u e' i' r = r ∨ (r.status = .pending ∧ (u e' i' r).status = .running) := by
  refine ⟨_, fun e' i' => node_claimPendingNodes, fun e' i' r => ?_⟩
  split
  · rename_i hpending
    exact .inr ⟨hpending.2.2, rfl⟩
  · exact .inl rfl

theorem finalizeAs_ends {correlationId : Uuid} {new : WorkflowExecutionStatus} {messageType : MessageType}
    (hnew : new = .completed ∨ new = .failed) (h : finalizeAs e correlationId new messageType now db = .ok db') :
    db'.nodeExecutions = db.nodeExecutions ∧ EndsRunning db db' := by
  unfold finalizeAs at h
  dsimp only at h
  split at h
  · obtain rfl := addMessage_ok h
    refine ⟨rfl, ?_⟩
    refine ⟨_, fun e' => getExecutionById_updateExecutionIfCurrent, fun e' x' => ?_⟩
    split
    · rename_i hrunning
      refine .inr ?_
      rcases hnew with rfl | rfl <;> simp [hrunning.2, WORKFLOW_TRANSITIONS]
    · exact .inl rfl
  · rename_i hfalse
    rw [Bool.not_eq_true] at hfalse
    cases h
    rw [updateExecutionIfCurrent_false hfalse]
    exact ⟨rfl, .of_eq fun _ => rfl⟩

theorem evaluateFinalization_ends {correlationId : Uuid}
    (h : evaluateFinalization e x correlationId now db = .ok db') :
    db'.nodeExecutions = db.nodeExecutions ∧ EndsRunning db db' := by
  simp only [evaluateFinalization] at h
  split at h
  · exact finalizeAs_ends (.inr rfl) h
  · split at h
    · cases h
    · split at h
      · exact finalizeAs_ends (.inl rfl) h
      · cases h
        exact ⟨rfl, .of_eq fun _ => rfl⟩

theorem propagateFailure_fails {event : TaskCompletionEvent} {rows : List NodeExecutionRecord}
    (h : propagateFailure event x rows now db = .ok db') :
    FailsPending db db' ∧ ∀ e, db'.getExecutionById e = db.getExecutionById e := by
  unfold propagateFailure at h
  split at h
  · cases h
  · obtain ⟨blocked, -, h⟩ := Except.bind_eq_ok.1 h
    obtain rfl := announceFailures_ok _ h
    refine ⟨failPendingNodes_fails, fun e => ?_⟩
    have hsame := (failPendingNodes_fields db event.executionId blocked (dependencyReason event.nodeId) now).1
    exact congrArg (Table.lookup WorkflowExecutionRecord.executionId e) hsame.executions.symm

theorem afterUpdate_moves {event : TaskCompletionEvent} {rows : List NodeExecutionRecord}
    {decision : TaskCompletionDecision} (h : afterUpdate event x rows now db = .ok (decision, db')) :
    FailsPending db db' ∧ EndsRunning db db' := by
  obtain ⟨db₁, db₂, h₁, h₂, h₃⟩ := afterUpdate_steps h
  obtain ⟨⟨f, hnode, hfails⟩, hexecutions⟩ :
      FailsPending db db₁ ∧ ∀ e, db₁.getExecutionById e = db.getExecutionById e := by
    rcases h₁ with ⟨-, h₁⟩ | rfl
    · exact propagateFailure_fails h₁
    · exact ⟨.of_eq fun _ _ => rfl, fun _ => rfl⟩
  obtain rfl := addMessage_ok h₂
  obtain ⟨hnodes, g, hget, hmoves⟩ := evaluateFinalization_ends h₃
  refine ⟨⟨f, fun e i => ?_, hfails⟩, g, fun e => ?_, hmoves⟩
  · rw [← hnode]
    exact congrArg (Table.lookup nodeKey (e, i)) hnodes
  · rw [hget, ← hexecutions]
    rfl

/-! ## The transactions -/

/-- A running node ends; what then fails was pending, so no row moves twice. -/
theorem ended_moves {i : String} {target : NodeExecutionStatus} {output : Option Json}
    {errorMessage errorType : Option String} {startedAt completedAt : Option Time}
    (htarget : target = .completed ∨ target = .failed)
    (hdb : db₁ = (db.updateNodeIfCurrent e i .running target output errorMessage errorType startedAt completedAt).2)
    (h : FailsPending db₁ db' ∧ EndsRunning db₁ db') : Moves db db' := by
  subst hdb
  obtain ⟨u, hu, hended⟩ : ∃ u : Uuid → String → NodeExecutionRecord → NodeExecutionRecord,
      (∀ e' i', (db.updateNodeIfCurrent e i .running target output errorMessage errorType startedAt completedAt).2.node
        e' i' = (db.node e' i').map (u e' i')) ∧
      ∀ e' i' r, u e' i' r = r ∨ (r.status = .running ∧ (u e' i' r).status = target) := by
    refine ⟨_, fun e' i' => node_updateNodeIfCurrent, fun e' i' r => ?_⟩
    split
    · rename_i hrunning
      exact .inr ⟨hrunning.2.2, rfl⟩
    · exact .inl rfl
  obtain ⟨⟨f, hnode, hfails⟩, g, hget, hmoves⟩ := h
  refine .of_maps (f := fun e' i' r => f e' i' (u e' i' r)) (fun e' i' => ?_) (fun e' => hget e')
    (fun e' i' r => ?_) hmoves
  · rw [hnode, hu, Option.map_map]
    rfl
  · rcases hended e' i' r with hsame | ⟨hrunning, hst⟩
    · rw [hsame]
      rcases hfails e' i' r with hsame | ⟨hpending, hfailed⟩
      · exact .inl hsame
      · exact .inr (by simp [hpending, hfailed, NODE_TRANSITIONS])
    · rcases hfails e' i' (u e' i' r) with hsame | ⟨hpending, -⟩
      · rw [hsame]
        exact .inr (by rcases htarget with rfl | rfl <;> simp [hrunning, hst, NODE_TRANSITIONS])
      · rw [hst] at hpending
        rcases htarget with rfl | rfl <;> cases hpending

theorem completeNode_moves {event : TaskCompletionEvent} {rows : List NodeExecutionRecord}
    {existing : NodeExecutionRecord} {decision : TaskCompletionDecision}
    (h : completeNode event x rows existing now db = .ok (decision, db')) :
    Moves db db' := by
  rcases completeNode_steps h with rfl | ⟨output, errorMessage, errorType, -, h⟩
  · exact .of_same rfl rfl
  · refine ended_moves ?_ rfl (afterUpdate_moves h)
    cases event.status
    · exact .inl rfl
    · exact .inr rfl

theorem process_moves {policy : RetryPolicy} {event : TaskCompletionEvent} {next : Uuid}
    {decision : TaskCompletionDecision} (h : process policy event next now db = .ok (decision, db')) :
    Moves db db' := by
  obtain ⟨db₁, hsame, rfl | ⟨x, rows, existing, h⟩⟩ := process_steps h
  · exact .of_same hsame.nodes hsame.executions
  · obtain ⟨hnode, hnew, hexecution, hnewExecution⟩ := completeNode_moves h
    exact ⟨fun e i r hr => hnode e i r (hsame.node ▸ hr), fun e i r' hr => hnew e i r' (hsame.node ▸ hr),
      fun e x hx => hexecution e x (hsame.getExecutionById ▸ hx),
      fun e x' hx => hnewExecution e x' (hsame.getExecutionById ▸ hx)⟩

theorem triggerCommit_moves {input : Option (Dict Json)} {messageId : Uuid}
    (h : triggerCommit x input messageId now db = .ok db') : Moves db db' := by
  unfold triggerCommit at h
  dsimp only at h
  split at h
  · obtain rfl := addMessage_ok h
    refine .of_maps (f := fun _ _ => id) (fun e i => ?_) (fun e => getExecutionById_updateExecutionIfCurrent)
      (fun _ _ _ => .inl rfl) fun e x' => ?_
    · rw [Option.map_id]
      rfl
    · split
      · rename_i hpending
        exact .inr (by simp [hpending.2, WORKFLOW_TRANSITIONS])
      · exact .inl rfl
  · cases h

theorem dispatch_moves {strFloat : Rat → String} {n : WorkflowNode} {attemptId : Uuid} {result : DispatchResult}
    (h : dispatch strFloat x n attemptId now db = .ok (result, db')) : Moves db db' := by
  have hclaim :
      ∀ {db₁ : Database}, db₁.nodeExecutions = (db.claimPendingNodes x.executionId [n.id] now).2.nodeExecutions →
      db₁.workflowExecutions = db.workflowExecutions → Moves db db₁ := by
    intro db₁ hnodes hexecutions
    obtain ⟨u, hu, hclaimed⟩ := @claimPendingNodes_claims db x.executionId now [n.id]
    refine .of_maps (f := u) (g := fun _ => id) (fun e i => ?_) (fun e => ?_) (fun e i r => ?_) fun _ _ => .inl rfl
    · exact (congrArg (Table.lookup nodeKey (e, i)) hnodes).trans (hu e i)
    · rw [Option.map_id]
      exact congrArg (Table.lookup WorkflowExecutionRecord.executionId e) hexecutions
    · rcases hclaimed e i r with hsame | ⟨hpending, hrunning⟩
      · exact .inl hsame
      · exact .inr (by simp [hpending, hrunning, NODE_TRANSITIONS])
  unfold dispatch at h
  dsimp only at h
  split at h
  · cases h
  · split at h
    · cases h
      obtain ⟨f, hnode, hfails⟩ := @failPendingNodes_fails db x.executionId now [n.id] "A required dependency failed."
      refine .of_maps (g := fun _ => id) hnode (fun e => ?_) (fun e i r => ?_) fun _ _ => .inl rfl
      · rw [Option.map_id]
        exact congrArg (Table.lookup WorkflowExecutionRecord.executionId e)
          (failPendingNodes_fields db x.executionId [n.id] "A required dependency failed." now).1.executions.symm
      · rcases hfails e i r with hsame | ⟨hpending, hfailed⟩
        · exact .inl hsame
        · exact .inr (by simp [hpending, hfailed, NODE_TRANSITIONS])
    · obtain ⟨input, -, h⟩ := Except.bind_eq_ok.1 h
      split at h
      · cases h
        exact hclaim rfl rfl
      · obtain ⟨db₁, h₁, h⟩ := Except.bind_eq_ok.1 h
        cases h
        obtain ⟨-, hexecutions, hnodes, -⟩ := registerTask_frame h₁
        exact hclaim hnodes hexecutions

theorem submit_moves {env : ValidationEnv} {definition : Dict Json} {workflowId : Uuid}
    (hfresh : ∀ r ∈ db.nodeExecutions, r.workflowExecutionId ≠ e)
    (h : submit env definition workflowId e now db = .ok db') :
    Moves db db' := by
  obtain ⟨w, -, -, -, hnone, rfl⟩ := submit_fresh (fun _ => hfresh) h
  refine ⟨fun e' i r hr => ?_, fun e' i r' hr hr' => ?_, fun e' x hx => ?_, fun e' x' hx hx' => ?_⟩
  · exact ⟨r, Table.lookup_append_of_some hr, .inl rfl⟩
  · have hmem := (node_some hr').1
    rcases List.mem_append.1 hmem with hmem | hmem
    · exact absurd (node_some hr').2 fun hkey => Table.lookup_none.1 hr r' hmem (Prod.ext hkey.1 hkey.2)
    · obtain ⟨n, -, rfl⟩ := List.mem_map.1 hmem
      rfl
  · exact ⟨x, Table.lookup_append_of_some hx, .inl rfl⟩
  · rw [submitted_getExecutionById hnone] at hx'
    split at hx'
    · cases hx'
      rfl
    · rw [hx] at hx'
      cases hx'

/-! ## Runs of transactions -/

/-- The transactions that may commit on `db`, in whatever order they come. A submission draws an
execution id that no row has; everything else the processes commit leaves both tables alone. -/
inductive Commit (cfg : Config) (db : Database) : Database → Prop where
  | submit {definition : Dict Json} {workflowId executionId : Uuid} {now : Time} {db' : Database}
      (fresh : ∀ r ∈ db.nodeExecutions, r.workflowExecutionId ≠ executionId)
      (commit : submit cfg.validation definition workflowId executionId now db = .ok db') : Commit cfg db db'
  | trigger {x : WorkflowExecutionRecord} {input : Option (Dict Json)} {messageId : Uuid} {now : Time} {db' : Database}
      (commit : triggerCommit x input messageId now db = .ok db') : Commit cfg db db'
  | dispatch {x : WorkflowExecutionRecord} {n : WorkflowNode} {attemptId : Uuid} {now : Time} {result : DispatchResult}
      {db' : Database} (commit : dispatch cfg.strFloat x n attemptId now db = .ok (result, db')) : Commit cfg db db'
  | process {event : TaskCompletionEvent} {next : Uuid} {now : Time} {decision : TaskCompletionDecision}
      {db' : Database}
      (commit : process cfg.policy event next now db = .ok (decision, db')) : Commit cfg db db'
  | finalize {executionId correlationId : Uuid} {x : WorkflowExecutionRecord} {now : Time} {db' : Database}
      (commit : evaluateFinalization executionId x correlationId now db = .ok db') : Commit cfg db db'
  | other {db' : Database} (nodes : db'.nodeExecutions = db.nodeExecutions)
      (executions : db'.workflowExecutions = db.workflowExecutions) : Commit cfg db db'

theorem Commit.moves {cfg : Config} (h : Commit cfg db db') : Moves db db' := by
  cases h with
  | submit fresh commit => exact submit_moves fresh commit
  | trigger commit => exact triggerCommit_moves commit
  | dispatch commit => exact dispatch_moves commit
  | process commit => exact process_moves commit
  | finalize commit =>
    obtain ⟨hnodes, g, hget, hmoves⟩ := evaluateFinalization_ends commit
    refine .of_maps (f := fun _ _ => id) (fun e i => ?_) hget (fun _ _ _ => .inl rfl) hmoves
    rw [Option.map_id]
    exact congrArg (Table.lookup nodeKey (e, i)) hnodes
  | other nodes executions => exact .of_same nodes executions

/-- From any state of the tables, over any sequence of commits. -/
theorem Commit.keepsTerminal {cfg : Config} (h : Relation.ReflTransGen (Commit cfg) db db') :
    KeepsTerminal db db' := by
  induction h with
  | refl => exact ⟨fun _ _ _ hr _ => hr, fun _ _ hx _ => hx⟩
  | tail _ hcommit ih => exact ih.trans hcommit.moves.keepsTerminal

end Database

namespace System

variable {cfg : Config} {s t : System} {a : Action}

/-- Each step of the system commits one of the transactions. -/
theorem step_commit (hs : s.db.Sound) (h : step cfg s a = some t) : Commit cfg s.db t.db := by
  cases step_effect h with
  | submit commit =>
    obtain ⟨-, -, -, -, hnone, -⟩ := submit_ok hs commit
    refine .submit (fun r hr he => ?_) commit
    obtain ⟨x, hx⟩ := hs.node_execution r hr
    rw [he, hnone] at hx
    cases hx
  | trigger _ commit => exact .trigger commit
  | dispatch _ _ _ dispatched => exact .dispatch dispatched
  | process _ _ _ processed => exact .process processed
  | markRetry => exact .other markRetryPublished_sameRuns.nodes markRetryPublished_sameRuns.executions
  | _ => exact .other rfl rfl

/-- No transaction asks the declared state machines, and each keeps to them: a committed change
of a status is an edge, and a terminal row stays as it is over every later run. -/
theorem rows_follow_state_machines (cfg : Config) :
    (∀ db db', Commit cfg db db' → Moves db db') ∧
    (∀ db db', Relation.ReflTransGen (Commit cfg) db db' → KeepsTerminal db db') ∧
    ∀ s a t, Reachable cfg anyStep s → step cfg s a = some t → Commit cfg s.db t.db :=
  ⟨fun _ _ h => h.moves, fun _ _ h => Commit.keepsTerminal h,
    fun _ _ _ hs h => step_commit (reachable_consistent hs).sound h⟩

end System

end WorkflowEngine
