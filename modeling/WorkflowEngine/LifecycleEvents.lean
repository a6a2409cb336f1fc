import WorkflowEngine.Deliveries
import WorkflowEngine.Guarantees

/-!
# Lifecycle events and state changes

A completion transaction moves rows first and announces the moves later, from three places.
`Reported` is the balance at each point in between: the announcements inserted so far, with
the ones still owed, are the rows that have ended. Every transaction starts and commits with
nothing owed.
-/
namespace WorkflowEngine

open Database

/-- The node a lifecycle row is about. -/
def OutboxPayload.nodeId : OutboxPayload → Option String
  | .node event => some event.nodeId
  | .dependencyFailed _ nodeId _ => some nodeId
  | .execution _ => none
  | .executionStatus _ _ => none
  | .task _ => none

namespace TaskCompletionStatus

def executionStatus : TaskCompletionStatus → WorkflowExecutionStatus
  | .completed => .completed
  | .failed => .failed

def executionMessageType : TaskCompletionStatus → MessageType
  | .completed => .executionCompleted
  | .failed => .executionFailed

end TaskCompletionStatus

namespace Database

variable {db db' db₁ : Database} {e : Uuid} {i : String} {x : WorkflowExecutionRecord} {now : Time}

/-- The rows of one type inserted so far for an execution. -/
def announcements (type : MessageType) (e : Uuid) (db : Database) : List OutboxEventRecord :=
  db.outboxInserted.filter fun row => decide (row.messageType = type ∧ row.aggregateId = e)

/-- The nodes of an execution in one status. -/
def nodesIn (status : NodeExecutionStatus) (e : Uuid) (db : Database) : List String :=
  Table.returning (fun r => decide (r.workflowExecutionId = e ∧ r.status = status)) (·.nodeId) db.nodeExecutions

def executionsIn (status : WorkflowExecutionStatus) (e : Uuid) (db : Database) : List WorkflowExecutionRecord :=
  db.workflowExecutions.filter fun x => decide (x.executionId = e ∧ x.status = status)

/-- Nodes that have ended and whose row is not yet inserted, by status and execution. -/
abbrev Owed := TaskCompletionStatus → Uuid → List String

def Owed.nothing : Owed := fun _ _ => []

def Owed.add (st : TaskCompletionStatus) (e : Uuid) (ids : List String) (owed : Owed) : Owed :=
  fun st' e' => if st' = st ∧ e' = e then ids ++ owed st' e' else owed st' e'

@[simp] theorem Owed.add_nil {st : TaskCompletionStatus} {owed : Owed} : owed.add st e [] = owed := by
  funext st' e'
  simp [Owed.add]

structure Reported (owed : Owed) (db : Database) : Prop where
  node : ∀ (st : TaskCompletionStatus) (e : Uuid),
    ((db.announcements st.messageType e).map (·.payload.nodeId) ++ (owed st e).map some).Perm
      ((db.nodesIn st.nodeStatus e).map some)
  execution : ∀ (st : TaskCompletionStatus) (e : Uuid),
    (db.announcements st.executionMessageType e).length = (db.executionsIn st.executionStatus e).length
  rows_keyed : Table.Keyed (·.messageId) db.outboxEvents
  executions_keyed : Table.Keyed (·.executionId) db.workflowExecutions

variable {owed : Owed}

theorem Reported.of_same (h : Reported owed db) (hnodes : db'.nodeExecutions = db.nodeExecutions)
    (hexecutions : db'.workflowExecutions = db.workflowExecutions) (hrows : db'.outboxEvents = db.outboxEvents)
    (hinserted : db'.outboxInserted = db.outboxInserted) : Reported owed db' := by
  refine ⟨fun st e => ?_, fun st e => ?_, hrows ▸ h.rows_keyed, hexecutions ▸ h.executions_keyed⟩
  · rw [announcements, nodesIn, hinserted, hnodes]
    exact h.node st e
  · rw [announcements, executionsIn, hinserted, hexecutions]
    exact h.execution st e

/-! ## Rows that are inserted -/

theorem addMessage_fresh {messageId aggregateId : Uuid} {messageType : MessageType} {targetStream : StreamName}
    {payload : OutboxPayload}
    (h : db.addMessage messageId messageType targetStream aggregateId payload now = .ok db') :
    ∀ row ∈ db.outboxEvents, row.messageId ≠ messageId := by
  unfold addMessage at h
  split at h
  · cases h
  · rename_i hnew
    intro row hrow hid
    exact hnew (List.any_eq_true.2 ⟨row, hrow, decide_eq_true hid⟩)

theorem announcements_push {row : OutboxEventRecord} {type : MessageType} :
    (db.pushOutbox [row]).announcements type e = db.announcements type e ++
      if row.messageType = type ∧ row.aggregateId = e then [row] else [] := by
  simp only [announcements, pushOutbox, List.filter_append]
  congr 1
  by_cases hrow : row.messageType = type ∧ row.aggregateId = e <;> simp [hrow]

/-- The row of a node that has ended pays what is owed for it. -/
theorem Reported.pay (st : TaskCompletionStatus) {ids : List String} {messageId : Uuid} {payload : OutboxPayload}
    (h : Reported (owed.add st e (i :: ids)) db) (hpayload : payload.nodeId = some i)
    (hadd : db.addMessage messageId st.messageType .events e payload now = .ok db') :
    Reported (owed.add st e ids) db' := by
  have hfresh := addMessage_fresh hadd
  obtain rfl := addMessage_ok hadd
  refine ⟨fun st' e' => ?_, fun st' e' => ?_, h.rows_keyed.append hfresh, h.executions_keyed⟩
  · have hnode := h.node st' e'
    rw [announcements_push]
    by_cases hsame : st' = st ∧ e' = e
    · obtain ⟨rfl, rfl⟩ := hsame
      simp only [Owed.add, and_self, if_true, outboxRow, List.map_append, List.map_cons, List.map_nil,
        List.cons_append, List.nil_append, List.append_assoc, hpayload] at hnode ⊢
      exact hnode
    · have hother : ¬(st.messageType = st'.messageType ∧ e = e') := by
        rintro ⟨htype, rfl⟩
        cases st <;> cases st' <;> simp_all [TaskCompletionStatus.messageType]
      simp only [Owed.add, hsame, if_false, outboxRow, hother, List.append_nil] at hnode ⊢
      exact hnode
  · have hother : ¬(st.messageType = st'.executionMessageType ∧ e = e') := by
      rintro ⟨htype, -⟩
      cases st <;> cases st' <;> cases htype
    rw [announcements_push]
    simp only [outboxRow, hother, if_false, List.append_nil]
    exact h.execution st' e'

/-- A row that announces no end. -/
theorem Reported.push (h : Reported owed db) (row : OutboxEventRecord)
    (htype : row.messageType = .executionTriggered ∨ row.messageType = .task)
    (hfresh : ∀ row' ∈ db.outboxEvents, row'.messageId ≠ row.messageId) : Reported owed (db.pushOutbox [row]) := by
  refine ⟨fun st e => ?_, fun st e => ?_, h.rows_keyed.append hfresh, h.executions_keyed⟩
  · have hother : ¬(row.messageType = st.messageType ∧ row.aggregateId = e) := by
      rintro ⟨hst, -⟩
      rw [hst] at htype
      cases st <;> rcases htype with htype | htype <;> cases htype
    rw [announcements_push, if_neg hother, List.append_nil]
    exact h.node st e
  · have hother : ¬(row.messageType = st.executionMessageType ∧ row.aggregateId = e) := by
      rintro ⟨hst, -⟩
      rw [hst] at htype
      cases st <;> rcases htype with htype | htype <;> cases htype
    rw [announcements_push, if_neg hother, List.append_nil]
    exact h.execution st e

/-! ## Rows that end -/

/-- The selected rows of an execution end in one status: each is owed its row. -/
theorem Reported.ended (st : TaskCompletionStatus) {p : NodeExecutionRecord → Bool}
    {f : NodeExecutionRecord → NodeExecutionRecord} (h : Reported owed db)
    (hp : ∀ r, p r = true → r.workflowExecutionId = e ∧ (r.status = .pending ∨ r.status = .running))
    (hf : ∀ r, (f r).workflowExecutionId = r.workflowExecutionId ∧ (f r).nodeId = r.nodeId ∧
      (f r).status = st.nodeStatus) :
    Reported (owed.add st e (Table.returning p (·.nodeId) db.nodeExecutions))
      { db with nodeExecutions := Table.updateWhere p f db.nodeExecutions } := by
  refine ⟨fun st' e' => ?_, h.execution, h.rows_keyed, h.executions_keyed⟩
  have hnode := h.node st' e'
  have hopen : ∀ r, p r = true → ¬(r.workflowExecutionId = e' ∧ r.status = st'.nodeStatus) := by
    rintro r hpr ⟨-, hst⟩
    rcases (hp r hpr).2 with hopen | hopen <;> rw [hopen] at hst <;> cases st' <;> cases hst
  by_cases hsame : st' = st ∧ e' = e
  · obtain ⟨rfl, rfl⟩ := hsame
    have hends : ((Table.updateWhere p f db.nodeExecutions).filter
        fun r => decide (r.workflowExecutionId = e' ∧ r.status = st'.nodeStatus)).Perm
        (db.nodeExecutions.filter (fun r => decide (r.workflowExecutionId = e' ∧ r.status = st'.nodeStatus)) ++
          (db.nodeExecutions.filter p).map f) := by
      refine Table.filter_updateWhere_perm fun r hpr =>
        ⟨decide_eq_false (hopen r hpr), decide_eq_true ⟨?_, (hf r).2.2⟩⟩
      rw [(hf r).1, (hp r hpr).1]
    have hids :
        ((db.nodeExecutions.filter p).map f).map (·.nodeId) = Table.returning p (·.nodeId) db.nodeExecutions := by
      rw [Table.returning, List.map_map]
      exact List.map_congr_left fun r _ => (hf r).2.1
    have hadded := (hends.map (·.nodeId)).trans (by rw [List.map_append, hids])
    simp only [Owed.add, and_self, if_true, List.map_append]
    refine List.Perm.trans ?_ (hadded.map some).symm
    rw [List.map_append]
    refine (List.perm_append_left_iff _ |>.2 List.perm_append_comm).trans ?_
    rw [← List.append_assoc]
    exact hnode.append_right _
  · simp only [Owed.add, hsame, if_false]
    have hstays : (Table.updateWhere p f db.nodeExecutions).filter
        (fun r => decide (r.workflowExecutionId = e' ∧ r.status = st'.nodeStatus)) =
        db.nodeExecutions.filter fun r => decide (r.workflowExecutionId = e' ∧ r.status = st'.nodeStatus) := by
      refine Table.filter_updateWhere_of_not fun r hpr => ⟨decide_eq_false (hopen r hpr), decide_eq_false ?_⟩
      rintro ⟨he, hst⟩
      refine hsame ⟨?_, ?_⟩
      · rw [(hf r).2.2] at hst
        cases st <;> cases st' <;> first | rfl | cases hst
      · rw [← he, (hf r).1, (hp r hpr).1]
    rw [nodesIn, Table.returning, hstays]
    exact hnode

/-- Rows that change without ending. -/
theorem Reported.started {p : NodeExecutionRecord → Bool} {f : NodeExecutionRecord → NodeExecutionRecord}
    (h : Reported owed db) (hp : ∀ r, p r = true → r.status = .pending) (hf : ∀ r, (f r).status = .running) :
    Reported owed { db with nodeExecutions := Table.updateWhere p f db.nodeExecutions } := by
  refine ⟨fun st e => ?_, h.execution, h.rows_keyed, h.executions_keyed⟩
  rw [nodesIn, Table.returning, Table.filter_updateWhere_of_not]
  · exact h.node st e
  · intro r hpr
    refine ⟨decide_eq_false ?_, decide_eq_false ?_⟩
    · rintro ⟨-, hst⟩
      rw [hp r hpr] at hst
      cases st <;> cases hst
    · rintro ⟨-, hst⟩
      rw [hf r] at hst
      cases st <;> cases hst

/-! ## The transactions -/

section transactions

variable {event : TaskCompletionEvent} {rows : List NodeExecutionRecord} {decision : TaskCompletionDecision}

theorem announceFailures_reported (ids : List String) : ∀ {db : Database},
    Reported (owed.add .failed event.executionId ids) db → announceFailures event now ids db = .ok db' →
      Reported owed db' := by
  induction ids with
  | nil =>
    intro db h hannounce
    cases hannounce
    rwa [Owed.add_nil] at h
  | cons i ids ih =>
    intro db h hannounce
    obtain ⟨db₁, h₁, hrest⟩ := Except.bind_eq_ok.1 hannounce
    exact ih (h.pay .failed rfl h₁) hrest

theorem failPendingNodes_reported {ids : List String} {reason : String} (h : Reported owed db) :
    Reported (owed.add .failed e (db.failPendingNodes e ids reason now).1)
      (db.failPendingNodes e ids reason now).2 := by
  unfold failPendingNodes
  split
  · rw [Owed.add_nil]
    exact h
  · refine h.ended .failed (fun r hr => ?_) fun r => ⟨rfl, rfl, rfl⟩
    have hpending := of_decide_eq_true hr
    exact ⟨hpending.1, .inl hpending.2.2⟩

theorem propagateFailure_reported (h : Reported owed db) (hp : propagateFailure event x rows now db = .ok db') :
    Reported owed db' := by
  unfold propagateFailure at hp
  split at hp
  · cases hp
  · obtain ⟨blocked, -, hp⟩ := Except.bind_eq_ok.1 hp
    exact announceFailures_reported _ (failPendingNodes_reported h) hp

theorem executionsIn_ended {st st' : TaskCompletionStatus} {e' : Uuid}
    (hkeyed : Table.Keyed (·.executionId) db.workflowExecutions)
    (hx : db.getExecutionById e = some x) (hrunning : x.status = .running) :
    ((db.updateExecutionIfCurrent e .running st.executionStatus none (some now) none).2.executionsIn
      st'.executionStatus e').length =
      (db.executionsIn st'.executionStatus e').length + if st' = st ∧ e' = e then 1 else 0 := by
  have hopen : ∀ r : WorkflowExecutionRecord, decide (r.executionId = e ∧ r.status = .running) = true →
      decide (r.executionId = e' ∧ r.status = st'.executionStatus) = false := by
    intro r hr
    refine decide_eq_false ?_
    rintro ⟨-, hst⟩
    rw [(of_decide_eq_true hr).2] at hst
    cases st' <;> cases hst
  by_cases hsame : st' = st ∧ e' = e
  · obtain ⟨rfl, rfl⟩ := hsame
    have hone := hkeyed.filter_perm hx (p := fun r => decide (r.executionId = e' ∧ r.status = .running))
      (fun r hr => (of_decide_eq_true hr).1) (decide_eq_true ⟨(execution_some hx).2, hrunning⟩)
    refine (Table.filter_updateWhere_perm fun r hr => ⟨hopen r hr, ?_⟩).length_eq.trans ?_
    · exact decide_eq_true ⟨(of_decide_eq_true hr).1, rfl⟩
    · rw [List.length_append, List.length_map, hone.length_eq, if_pos ⟨rfl, rfl⟩]
      rfl
  · rw [if_neg hsame, Nat.add_zero]
    refine congrArg List.length (Table.filter_updateWhere_of_not fun r hr => ⟨hopen r hr, decide_eq_false ?_⟩)
    rintro ⟨he, hst⟩
    refine hsame ⟨?_, he.symm.trans (of_decide_eq_true hr).1⟩
    cases st <;> cases st' <;> first | rfl | cases hst

/-- The execution's row is inserted exactly when the conditional update has hit. -/
theorem finalizeAs_reported (st : TaskCompletionStatus) {correlationId : Uuid} (h : Reported owed db)
    (hf : finalizeAs e correlationId st.executionStatus st.executionMessageType now db = .ok db') :
    Reported owed db' := by
  unfold finalizeAs at hf
  dsimp only at hf
  split at hf
  · rename_i hupdated
    have hfresh := addMessage_fresh hf
    obtain rfl := addMessage_ok hf
    obtain ⟨x, hx, hrunning⟩ := (h.executions_keyed.any_iff (k := e) (by simp +contextual)).1 hupdated
    refine ⟨fun st' e' => ?_, fun st' e' => ?_, h.rows_keyed.append hfresh,
      h.executions_keyed.updateWhere fun _ => rfl⟩
    · have hother : ¬(st.executionMessageType = st'.messageType ∧ e = e') := by
        rintro ⟨htype, -⟩
        cases st <;> cases st' <;> cases htype
      rw [announcements_push]
      simp only [outboxRow, hother, if_false, List.append_nil]
      exact h.node st' e'
    · have htype : st.executionMessageType = st'.executionMessageType ∧ e = e' ↔ st' = st ∧ e' = e := by
        constructor
        · rintro ⟨htype, rfl⟩
          cases st <;> cases st' <;> simp_all [TaskCompletionStatus.executionMessageType]
        · rintro ⟨rfl, rfl⟩
          exact ⟨rfl, rfl⟩
      refine Eq.trans ?_ (executionsIn_ended h.executions_keyed hx (of_decide_eq_true hrunning).2).symm
      rw [announcements_push, List.length_append, ← h.execution st' e']
      simp only [outboxRow, htype]
      split <;> rfl
  · rename_i hfalse
    cases hf
    rw [updateExecutionIfCurrent_false (Bool.eq_false_iff.2 hfalse)]
    exact h

theorem evaluateFinalization_reported {correlationId : Uuid} (h : Reported owed db)
    (hf : evaluateFinalization e x correlationId now db = .ok db') : Reported owed db' := by
  simp only [evaluateFinalization] at hf
  split at hf
  · exact finalizeAs_reported .failed h hf
  · split at hf
    · cases hf
    · split at hf
      · exact finalizeAs_reported .completed h hf
      · cases hf
        exact h

theorem afterUpdate_reported (h : Reported (owed.add event.status event.executionId [event.nodeId]) db)
    (hu : afterUpdate event x rows now db = .ok (decision, db')) : Reported owed db' := by
  obtain ⟨db₁, db₂, h₁, h₂, h₃⟩ := afterUpdate_steps hu
  have hpropagated : Reported (owed.add event.status event.executionId [event.nodeId]) db₁ := by
    rcases h₁ with ⟨-, h₁⟩ | rfl
    · exact propagateFailure_reported h h₁
    · exact h
  have hpaid := hpropagated.pay _ rfl h₂
  rw [Owed.add_nil] at hpaid
  exact evaluateFinalization_reported hpaid h₃

theorem completeNode_reported (hs : db.Sound) {existing : NodeExecutionRecord} (h : Reported owed db)
    (hc : completeNode event x rows existing now db = .ok (decision, db')) : Reported owed db' := by
  rcases completeNode_steps hc with rfl | ⟨output, errorMessage, errorType, hupdated, hu⟩
  · exact h
  · obtain ⟨r, hr, hrunning⟩ := (updateNodeIfCurrent_fst hs).1 hupdated
    obtain ⟨-, he, hi⟩ := node_some hr
    have hone := hs.nodes_keyed.filter_perm hr
      (p := fun r => decide (r.workflowExecutionId = event.executionId ∧ r.nodeId = event.nodeId ∧
        r.status = .running))
      (fun r' hr' => Prod.ext (of_decide_eq_true hr').1 (of_decide_eq_true hr').2.1)
        (decide_eq_true ⟨he, hi, hrunning⟩)
    have hended : Reported (owed.add event.status event.executionId (Table.returning (fun r =>
        decide (r.workflowExecutionId = event.executionId ∧ r.nodeId = event.nodeId ∧ r.status = .running)) (·.nodeId)
        db.nodeExecutions)) (db.updateNodeIfCurrent event.executionId event.nodeId .running
          event.status.nodeStatus output errorMessage errorType none (some now)).2 :=
      h.ended event.status (fun r' hr' => ⟨(of_decide_eq_true hr').1, .inr (of_decide_eq_true hr').2.2⟩)
        fun r' => ⟨rfl, rfl, rfl⟩
    rw [Table.returning, List.perm_singleton.1 hone, List.map_cons, List.map_nil, hi] at hended
    exact afterUpdate_reported hended hu

theorem process_reported {policy : RetryPolicy} {next : Uuid} (hs : db.Sound) (h : Reported owed db)
    (hp : process policy event next now db = .ok (decision, db')) : Reported owed db' := by
  obtain ⟨db₁, hsame, hp⟩ := process_steps hp
  have h₁ := h.of_same hsame.nodes hsame.executions hsame.outbox hsame.inserted
  rcases hp with rfl | ⟨x, rows, existing, hp⟩
  · exact h₁
  · exact completeNode_reported (hsame.evolves.sound hs) h₁ hp

end transactions

/-- Submitted rows are pending. -/
theorem submitted_reported {w : Workflow} (h : Reported owed db) (hnone : db.getExecutionById e = none) :
    Reported owed (submitted w e now db) := by
  refine ⟨fun st e' => ?_, fun st e' => ?_, h.rows_keyed, h.executions_keyed.append ?_⟩
  · have hnew : (w.nodes.map (pendingNodeExecution e now)).filter
        (fun r => decide (r.workflowExecutionId = e' ∧ r.status = st.nodeStatus)) = [] := by
      refine List.filter_eq_nil_iff.2 fun r hr hst => ?_
      obtain ⟨n, -, rfl⟩ := List.mem_map.1 hr
      have hpending := (of_decide_eq_true hst).2
      cases st <;> cases hpending
    have hnodes : (submitted w e now db).nodesIn st.nodeStatus e' = db.nodesIn st.nodeStatus e' := by
      simp only [nodesIn, submitted, Table.returning, List.filter_append, hnew, List.append_nil]
    rw [hnodes]
    exact h.node st e'
  · have hnew : [pendingExecution e w.workflowId now].filter
        (fun x => decide (x.executionId = e' ∧ x.status = st.executionStatus)) = [] := by
      refine List.filter_eq_nil_iff.2 fun x hx hst => ?_
      rw [List.mem_singleton.1 hx] at hst
      have hpending := (of_decide_eq_true hst).2
      cases st <;> cases hpending
    have hexecutions :
        (submitted w e now db).executionsIn st.executionStatus e' = db.executionsIn st.executionStatus e' := by
      simp only [executionsIn, submitted, List.filter_append, hnew, List.append_nil]
    rw [hexecutions]
    exact h.execution st e'
  · exact fun x hx => Table.lookup_none.1 hnone x hx

theorem triggerCommit_reported {input : Option (Dict Json)} {messageId : Uuid} (h : Reported owed db)
    (ht : triggerCommit x input messageId now db = .ok db') : Reported owed db' := by
  unfold triggerCommit at ht
  dsimp only at ht
  split at ht
  · have hfresh := addMessage_fresh ht
    obtain rfl := addMessage_ok ht
    have hstarted :
        Reported owed (db.updateExecutionIfCurrent x.executionId .pending .running (some now) none input).2 := by
      refine ⟨h.node, fun st e => ?_, h.rows_keyed, h.executions_keyed.updateWhere fun _ => rfl⟩
      rw [executionsIn, updateExecutionIfCurrent, Table.filter_updateWhere_of_not]
      · exact h.execution st e
      · intro r hr
        refine ⟨decide_eq_false ?_, decide_eq_false ?_⟩
        · rintro ⟨-, hst⟩
          rw [(of_decide_eq_true hr).2] at hst
          cases st <;> cases hst
        · rintro ⟨-, hst⟩
          cases st <;> cases hst
    exact hstarted.push _ (.inl rfl) hfresh
  · cases ht

theorem registered_reported {n : WorkflowNode} {input : Dict Json} {attemptId : Uuid} (h : Reported owed db)
    (hfresh : Fresh (createTaskId x.executionId n.id) db) :
    Reported owed (registered x n input attemptId now (db.claimPendingNodes x.executionId [n.id] now).2) := by
  have hclaimed : Reported owed (db.claimPendingNodes x.executionId [n.id] now).2 :=
    h.started (fun r hr => (of_decide_eq_true hr).2.2) fun r => rfl
  exact (hclaimed.push (taskRow x n input attemptId now) (.inr rfl) hfresh).of_same rfl rfl rfl rfl

end Database

namespace System

variable {cfg : Config} {s t : System} {a : Action}

/-- The message id of a node that is about to be dispatched. -/
theorem task_fresh (h : Reachable cfg anyStep s) {x : WorkflowExecutionRecord} {n : WorkflowNode}
    {r : NodeExecutionRecord} (hnode : s.db.node x.executionId n.id = some r) (hpending : r.status = .pending) :
    ∀ row ∈ s.db.outboxInserted, row.messageId ≠ createTaskId x.executionId n.id := by
  refine (reachable_identifiers h).task_unused fun hclaimed => ?_
  rcases (reachable_dispatches h).node x.executionId n.id with ⟨-, -, hst⟩ | ⟨hno, -⟩
  · exact hst (by rw [status_of_node hnode, hpending])
  · exact hno hclaimed

theorem step_reported (h : Reachable cfg anyStep s) (hstep : step cfg s a = some t) (hs : Reported .nothing s.db) :
    Reported .nothing t.db := by
  have hc := reachable_consistent h
  cases step_effect hstep with
  | submit commit =>
    obtain ⟨w, -, -, -, hnone, rfl⟩ := submit_ok hc.sound commit
    exact submitted_reported hs hnone
  | trigger _ commit => exact triggerCommit_reported hs commit
  | process _ _ _ processed => exact process_reported hc.sound hs processed
  | dispatch handling toDispatch node dispatched =>
    rcases dispatch_cases hc (reachable_dispatches h) handling toDispatch node dispatched with
      ⟨rfl, -⟩ | ⟨r, input, hnode, hpending, -, -, rfl⟩
    · exact hs
    · exact registered_reported hs ((reachable_identifiers h).fresh (task_fresh h hnode hpending))
  | markRow => exact ⟨hs.node, hs.execution, hs.rows_keyed.updateWhere fun _ => rfl, hs.executions_keyed⟩
  | cleanRow => exact ⟨hs.node, hs.execution, hs.rows_keyed.sublist (List.filter_sublist.map _), hs.executions_keyed⟩
  | markRetry =>
    have hsame := @markRetryPublished_sameRuns s.db
    exact hs.of_same hsame.nodes hsame.executions hsame.outbox hsame.inserted
  | _ => exact hs.of_same rfl rfl rfl rfl

theorem reachable_reported (h : Reachable cfg anyStep s) : Reported .nothing s.db := by
  refine Transition.Reachable.invariant ?_ (fun _ _ _ hr hs _ ht => step_reported hr ht hs) h
  exact ⟨fun _ _ => .refl _, fun _ _ => rfl, List.nodup_nil, List.nodup_nil⟩

/-! ## Message ids -/

/-- A completion inserts rows only while its node is running. -/
theorem processed_rows_or_same {policy : RetryPolicy} {event : TaskCompletionEvent} {next : Uuid} {now : Time}
    {decision : TaskCompletionDecision} {db db' : Database} (h : Processed policy event next now db decision db') :
    db'.outboxInserted = db.outboxInserted ∨ db.status event.executionId event.nodeId = .running := by
  cases h with
  | early _ consult => exact .inl consult.sameRuns.inserted
  | late _ _ consult => exact .inl consult.sameRuns.inserted
  | completed node running => exact .inr (by rw [status_of_node node, running])
  | failed node running => exact .inr (by rw [status_of_node node, running])

theorem step_distinct (h : Reachable cfg anyStep s) (hstep : step cfg s a = some t)
    (hs : Table.Keyed (·.messageId) s.db.outboxInserted) : Table.Keyed (·.messageId) t.db.outboxInserted := by
  have hc := reachable_consistent h
  have hkeyed := (step_reported h hstep (reachable_reported h)).rows_keyed
  cases step_effect hstep with
  | submit commit =>
    obtain ⟨w, -, -, -, -, rfl⟩ := submit_ok hc.sound commit
    exact hs
  | trigger _ commit =>
    obtain ⟨-, rfl⟩ := triggerCommit_ok hc.sound commit
    exact hs.append (reachable_identifiers h).draw_unused
  | dispatch handling toDispatch node dispatched =>
    rcases dispatch_cases hc (reachable_dispatches h) handling toDispatch node dispatched with
      ⟨rfl, -⟩ | ⟨r, input, hnode, hpending, -, -, rfl⟩
    · exact hs
    · exact hs.append (task_fresh h hnode hpending)
  | process handling entry _ processed =>
    have hp := (process_ok hc.sound hc.runs processed).2
    obtain ⟨rows, hevents, hinserted, hrows⟩ := hp.outbox
    rcases processed_rows_or_same hp with hsame | hrunning
    · exact hsame ▸ hs
    · show ((_ : List OutboxEventRecord).map _).Nodup
      rw [Table.Keyed, hevents, List.map_append] at hkeyed
      rw [hinserted, List.map_append]
      refine List.nodup_append'.2 ⟨hs, hkeyed.of_append_right, fun id hid hid' => ?_⟩
      obtain ⟨row₀, hrow₀, rfl⟩ := List.mem_map.1 hid
      obtain ⟨row, hrow, hsame⟩ := List.mem_map.1 hid'
      have hderived := (hrows row hrow).2.2.2.2
      exact event_unused h (List.mem_of_getElem? entry) hrunning hderived row₀ hrow₀ hsame.symm
  | markRetry =>
    rw [(@markRetryPublished_sameRuns s.db).inserted]
    exact hs
  | _ => exact hs

theorem reachable_distinct (h : Reachable cfg anyStep s) : Table.Keyed (·.messageId) s.db.outboxInserted := by
  refine Transition.Reachable.invariant (P := fun s : System => Table.Keyed (·.messageId) s.db.outboxInserted) ?_
    (fun _ _ _ hr hs _ ht => step_distinct hr ht hs) h
  exact List.nodup_nil

/-- No transaction stops at an insert: what a completion or a dispatch can still raise comes from
the retry instant or from the node's templates. -/
structure InsertsSucceed (cfg : Config) (s : System) : Prop where
  process : ∀ event ∈ s.completions.entries,
    (∃ result, process cfg.policy event (.v4 s.draws) s.now s.db = .ok result) ∨
      (event.status = .failed ∧ ∃ error, retryAt cfg.policy s.now event.attemptNumber = .error error)
  dispatch : ∀ h ∈ s.handlings, ∀ x nodes, h.phase.toDispatch = some (x, nodes) → ∀ n ∈ nodes,
    (∃ result, dispatch cfg.strFloat x n (.v4 s.draws) s.now s.db = .ok result) ∨
      ∃ error, NodeInputResolver.resolve cfg.strFloat n x.inputData (completedDependencyOutputs x.executionId n
        (s.db.getNodeExecutionsForExecution x.executionId)) = .error error
  trigger : ∀ x input, triggerCommit x input (.v4 s.draws) s.now s.db ≠ .error .persistence

theorem reachable_insertsSucceed (h : Reachable cfg anyStep s) : InsertsSucceed cfg s := by
  refine ⟨fun event hevent => ?_, fun g hg x nodes hd n hn => ?_, fun x input ht => ?_⟩
  · by_cases hst : event.status = .failed
    · cases hretry : retryAt cfg.policy s.now event.attemptNumber with
      | error error => exact .inr ⟨hst, error, rfl⟩
      | ok at' => exact .inl (process_returns h hevent fun _ => ⟨at', hretry⟩)
    · exact .inl (process_returns h hevent fun hfailed => absurd hfailed hst)
  · have hstart := (((reachable_consistent h).supports g hg).toDispatch x nodes hd).2 n hn
    cases hresolve : NodeInputResolver.resolve cfg.strFloat n x.inputData (completedDependencyOutputs x.executionId n
        (s.db.getNodeExecutionsForExecution x.executionId)) with
    | error error => exact .inr ⟨error, rfl⟩
    | ok input =>
      obtain ⟨result, db, hok, -⟩ := dispatch_returns h hstart hresolve
      exact .inl ⟨_, hok⟩
  · unfold triggerCommit at ht
    dsimp only at ht
    split at ht
    · have hfresh : Fresh (.v4 s.draws)
          (s.db.updateExecutionIfCurrent x.executionId .pending .running (some s.now) none input).2 :=
        (reachable_identifiers h).fresh (reachable_identifiers h).draw_unused
      rw [addMessage_total hfresh] at ht
      cases ht
    · cases ht

/-! ## One announcement for each end -/

theorem executionsIn_length {db : Database} {e : Uuid} {status : WorkflowExecutionStatus}
    (hkeyed : Table.Keyed (·.executionId) db.workflowExecutions) :
    (db.executionsIn status e).length = if (db.getExecutionById e).map (·.status) = some status then 1 else 0 := by
  split
  · rename_i hst
    obtain ⟨x, hx, hstatus⟩ := Option.map_eq_some_iff.1 hst
    exact (hkeyed.filter_perm hx (fun r hr => (of_decide_eq_true hr).1)
      (decide_eq_true ⟨(execution_some hx).2, hstatus⟩)).length_eq
  · rename_i hst
    refine List.length_eq_zero_iff.2 (List.filter_eq_nil_iff.2 fun x hx hp => hst ?_)
    obtain ⟨he, hstatus⟩ := of_decide_eq_true hp
    have hlookup : db.getExecutionById e = some x := hkeyed.lookup_iff.2 ⟨hx, he⟩
    rw [hlookup, ← hstatus]
    rfl

/-- The lifecycle rows inserted for an execution, against its rows: the nodes that the node events
name are, each once, the nodes that have ended that way, and the execution has one event for the
terminal status it is in. -/
structure EndsAnnounced (db : Database) (e : Uuid) : Prop where
  completed : ((db.announcements .nodeCompleted e).map (·.payload.nodeId)).Perm ((db.nodesIn .completed e).map some)
  failed : ((db.announcements .nodeFailed e).map (·.payload.nodeId)).Perm ((db.nodesIn .failed e).map some)
  once : (db.nodesIn .completed e ++ db.nodesIn .failed e).Nodup
  executionCompleted : (db.announcements .executionCompleted e).length =
    if (db.getExecutionById e).map (·.status) = some .completed then 1 else 0
  executionFailed : (db.announcements .executionFailed e).length =
    if (db.getExecutionById e).map (·.status) = some .failed then 1 else 0

theorem nodesIn_nodup {db : Database} {e : Uuid} (hs : db.Sound) :
    (db.nodesIn .completed e ++ db.nodesIn .failed e).Nodup := by
  have hids : ∀ {i : String} {status : NodeExecutionStatus}, i ∈ db.nodesIn status e →
      ∃ r, db.node e i = some r ∧ r.status = status := by
    intro i status hi
    obtain ⟨r, hr, rfl⟩ := List.mem_map.1 hi
    obtain ⟨hmem, hp⟩ := List.mem_filter.1 hr
    obtain ⟨he, hst⟩ := of_decide_eq_true hp
    exact ⟨r, hs.nodes_keyed.lookup_iff.2 ⟨hmem, by rw [nodeKey, he]⟩, hst⟩
  have hnodup : ∀ status, (db.nodesIn status e).Nodup := by
    intro status
    refine List.Nodup.map_on (fun r hr r' hr' hid => ?_) (hs.nodes_keyed.of_map.filter _)
    have he := (of_decide_eq_true (List.mem_filter.1 hr).2).1
    have he' := (of_decide_eq_true (List.mem_filter.1 hr').2).1
    refine hs.nodes_keyed.ext (List.mem_filter.1 hr).1 (List.mem_filter.1 hr').1 ?_
    rw [nodeKey, nodeKey, he, he', hid]
  refine List.nodup_append'.2 ⟨hnodup _, hnodup _, fun i hi hi' => ?_⟩
  obtain ⟨r, hr, hst⟩ := hids hi
  obtain ⟨r', hr', hst'⟩ := hids hi'
  rw [hr] at hr'
  cases hr'
  rw [hst] at hst'
  cases hst'

/-- In every state of every run the lifecycle events match the state changes one to one, and no
two rows that were ever inserted share a message id. -/
theorem lifecycle_events (h : Reachable cfg anyStep s) :
    (∀ e, EndsAnnounced s.db e) ∧ (s.db.outboxInserted.map (·.messageId)).Nodup ∧ InsertsSucceed cfg s := by
  have hr := reachable_reported h
  refine ⟨fun e => ⟨?_, ?_, nodesIn_nodup (reachable_consistent h).sound, ?_, ?_⟩, reachable_distinct h,
    reachable_insertsSucceed h⟩
  · simpa [Owed.nothing, TaskCompletionStatus.messageType, TaskCompletionStatus.nodeStatus] using hr.node .completed e
  · simpa [Owed.nothing, TaskCompletionStatus.messageType, TaskCompletionStatus.nodeStatus] using hr.node .failed e
  · exact (hr.execution .completed e).trans (executionsIn_length hr.executions_keyed)
  · exact (hr.execution .failed e).trans (executionsIn_length hr.executions_keyed)

/-- The failure of `fetch` ends both nodes and the execution, with an event for each. -/
theorem lifecycle_events_failed :
    chainFailed.db.nodesIn .failed (.v4 1) = ["fetch", "report"] ∧
      ((chainFailed.db.announcements .nodeFailed (.v4 1)).map (·.payload.nodeId)).Perm [some "fetch", some "report"] ∧
      (chainFailed.db.announcements .executionFailed (.v4 1)).length = 1 := by
  have hann := (lifecycle_events (reachable_reached sampleConfig (fetched (.failure "boom" "RuntimeError")))).1 (.v4 1)
  have hnodes : chainFailed.db.nodesIn .failed (.v4 1) = ["fetch", "report"] := by decide +kernel
  have hfailed : (chainFailed.db.getExecutionById (.v4 1)).map (·.status) = some .failed := by decide +kernel
  refine ⟨hnodes, ?_, ?_⟩
  · have hperm := hann.failed
    rw [show (reached sampleConfig _).db.nodesIn .failed (.v4 1) = _ from hnodes] at hperm
    exact hperm
  · exact hann.executionFailed.trans (if_pos hfailed)

end System

end WorkflowEngine
