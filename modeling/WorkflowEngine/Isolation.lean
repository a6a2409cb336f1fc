import Mathlib.Data.String.Basic
import WorkflowEngine.Substitution
import WorkflowEngine.TaskMessages

/-!
# What a dispatch reads

A dispatch reads the status of its node, the rows of the declared dependencies and the trigger
input, and nothing else of the database. What it looks up goes into the task as it is: text
inside a value is never parsed.
-/
namespace WorkflowEngine

open Database

/-! ## Dicts in another order -/

namespace Json

theorem insertMember_comm {k l : String} (h : k ≠ l) (u v : Json) (d : Dict Json) :
    insertMember (k, u) (insertMember (l, v) d) = insertMember (l, v) (insertMember (k, u) d) := by
  induction d with
  | nil =>
    simp only [insertMember]
    rcases lt_or_gt_of_ne h with hlt | hlt
    · simp [hlt, not_lt_of_gt hlt]
    · simp [hlt, not_lt_of_gt hlt]
  | cons p d ih =>
    simp only [insertMember]
    by_cases hl : p.1 < l
    · by_cases hk : p.1 < k
      · simp [insertMember, hl, hk, ih]
      · have hkl : k < l := lt_of_le_of_lt (not_lt.1 hk) hl
        simp [insertMember, hl, hk, hkl]
    · by_cases hk : p.1 < k
      · have hlk : l < k := lt_of_le_of_lt (not_lt.1 hl) hk
        simp [insertMember, hl, hk, hlk]
      · rcases lt_or_gt_of_ne h with hlt | hlt
        · simp [insertMember, hl, hk, hlt, not_lt_of_gt hlt]
        · simp [insertMember, hl, hk, hlt, not_lt_of_gt hlt]

/-- The order of the members does not matter. -/
theorem sameDict_of_perm {d d' : Dict Json} (h : d.Perm d') : (d.map (·.1)).Nodup → SameDict d d' := by
  unfold SameDict
  induction h with
  | nil => exact fun _ => rfl
  | cons m _ ih =>
    intro hnodup
    rw [sortMembers, sortMembers, ih (List.nodup_cons.1 hnodup).2]
  | swap m n d =>
    intro hnodup
    have hne : m.1 ≠ n.1 := by
      intro heq
      simp [heq] at hnodup
    simp only [sortMembers]
    exact insertMember_comm hne.symm _ _ _
  | trans h _ ih ih' =>
    intro hnodup
    exact (ih hnodup).trans (ih' ((h.map _).nodup_iff.1 hnodup))

theorem SameDict.refl (d : Dict Json) : SameDict d d := rfl

end Json

theorem Dict.get?_of_mem {ν : Type} {d : Dict ν} (h : (d.map (·.1)).Nodup) {key : String} {v : ν} :
    d.get? key = some v ↔ (key, v) ∈ d := by
  induction d with
  | nil => simp [Dict.get?]
  | cons m d ih =>
    obtain ⟨k, u⟩ := m
    obtain ⟨hk, hd⟩ := List.nodup_cons.1 h
    by_cases heq : k = key
    · subst heq
      have hnot : (k, v) ∉ d := fun hmem => hk (List.mem_map.2 ⟨_, hmem, rfl⟩)
      simp [Dict.get?, hnot, eq_comm]
    · have htail : Dict.get? ((k, u) :: d) key = Dict.get? d key := by simp [Dict.get?, heq]
      rw [htail, ih hd]
      simp [Ne.symm heq]

theorem Dict.get?_perm {ν : Type} {d d' : Dict ν} (h : d.Perm d') (hnodup : (d.map (·.1)).Nodup) (key : String) :
    d.get? key = d'.get? key := by
  ext v
  rw [Dict.get?_of_mem hnodup, Dict.get?_of_mem ((h.map _).nodup_iff.1 hnodup), h.mem_iff]

/-! ## The resolver reads the outputs by key -/

namespace NodeInputResolver

variable {strFloat : Rat → String} {outputs outputs' : Dict Json}

theorem lookup_congr (h : ∀ key, outputs.get? key = outputs'.get? key) (r : TemplateReference) :
    lookup r outputs = lookup r outputs' := by
  rw [lookup, lookup, h]

theorem interpolateSegments_congr (h : ∀ key, outputs.get? key = outputs'.get? key) (segments : List TemplateSegment) :
    interpolateSegments strFloat outputs segments = interpolateSegments strFloat outputs' segments := by
  induction segments with
  | nil => rfl
  | cons x segments ih =>
    cases x with
    | literal s => rw [interpolateSegments, interpolateSegments, ih]
    | reference r => rw [interpolateSegments, interpolateSegments, ih, interpolate, interpolate, lookup_congr h]

theorem resolveString_congr (h : ∀ key, outputs.get? key = outputs'.get? key) (s : String) :
    resolveString strFloat s outputs = resolveString strFloat s outputs' := by
  simp only [resolveString, lookup_congr h, interpolateSegments_congr h]

mutual

theorem resolveValue_congr (h : ∀ key, outputs.get? key = outputs'.get? key) :
    ∀ j, resolveValue strFloat outputs j = resolveValue strFloat outputs' j
  | .str s => by rw [resolveValue, resolveValue, resolveString_congr h]
  | .arr items => by rw [resolveValue, resolveValue, resolveItems_congr h items]
  | .obj members => by rw [resolveValue, resolveValue, resolveObject_congr h members]
  | .null => rfl
  | .bool _ => rfl
  | .int _ => rfl
  | .float _ => rfl
  | .nonFinite _ => rfl

theorem resolveItems_congr (h : ∀ key, outputs.get? key = outputs'.get? key) :
    ∀ items, resolveItems strFloat outputs items = resolveItems strFloat outputs' items
  | [] => rfl
  | x :: xs => by rw [resolveItems, resolveItems, resolveValue_congr h x, resolveItems_congr h xs]

theorem resolveObject_congr (h : ∀ key, outputs.get? key = outputs'.get? key) :
    ∀ members, resolveObject strFloat outputs members = resolveObject strFloat outputs' members
  | [] => rfl
  | (key, x) :: xs => by rw [resolveObject, resolveObject, resolveValue_congr h x, resolveObject_congr h xs]

end

/-- A copy that is made is the value itself. -/
theorem copyJsonValue_ok {j j' : Json} (h : copyJsonValue j = .ok j') : j' = j := by
  rw [copyJsonValue_eq] at h
  split at h
  · exact (Except.ok.inj h).symm
  · cases h

theorem copyObject_ok {d d' : Dict Json} (h : copyObject d = .ok d') : d' = d := by
  rw [copyObject_eq] at h
  split at h
  · exact (Except.ok.inj h).symm
  · cases h

theorem finiteMembers_eq_all (d : Dict Json) : finiteMembers d = d.all fun m => finite m.2 := by
  induction d with
  | nil => rfl
  | cons m d ih => rw [finiteMembers, List.all_cons, ih]

/-- The same exception, or inputs that are equal as dicts. -/
inductive SameInput : Except PyError (Dict Json) → Except PyError (Dict Json) → Prop where
  | error {e : PyError} : SameInput (.error e) (.error e)
  | ok {d d' : Dict Json} (same : Json.SameDict d d') : SameInput (.ok d) (.ok d')

theorem SameInput.refl (r : Except PyError (Dict Json)) : SameInput r r := by
  cases r with
  | error e => exact .error
  | ok d => exact .ok (.refl d)

/-- Resolution does not depend on the order in which the outputs were read. -/
theorem resolve_perm (node : WorkflowNode) (executionInput : Dict Json) (h : outputs.Perm outputs')
    (hnodup : (outputs.map (·.1)).Nodup) :
    SameInput (resolve strFloat node executionInput outputs) (resolve strFloat node executionInput outputs') := by
  unfold resolve
  split
  · exact .refl _
  · split
    · have hfinite : finiteMembers outputs = finiteMembers outputs' := by
        rw [finiteMembers_eq_all, finiteMembers_eq_all, h.all_eq]
      rw [copyObject_eq, copyObject_eq, hfinite]
      split
      · exact .ok (Json.sameDict_of_perm h hnodup)
      · exact .error
    · rw [resolveObject_congr (Dict.get?_perm h hnodup)]
      exact .refl _

end NodeInputResolver

/-! ## The rows a dispatch reads -/

namespace Database

variable {db db' : Database} {e : Uuid} {node : WorkflowNode}

theorem mem_completedDependencyOutputs (hk : Table.Keyed nodeKey db.nodeExecutions) {i : String} {v : Json} :
    (i, v) ∈ completedDependencyOutputs e node (db.getNodeExecutionsForExecution e) ↔
      i ∈ node.dependencies ∧ (db.node e i).map (fun r => (r.status, r.outputData)) = some (.completed, v) := by
  simp only [completedDependencyOutputs, getNodeExecutionsForExecution, List.mem_map, List.mem_filter,
    decide_eq_true_eq, Prod.mk.injEq, Option.map_eq_some_iff]
  constructor
  · rintro ⟨r, ⟨⟨hr, rfl⟩, -, hdep, hst⟩, rfl, rfl⟩
    exact ⟨hdep, r, hk.lookup_iff.2 ⟨hr, rfl⟩, hst, rfl⟩
  · rintro ⟨hdep, r, hr, hst, rfl⟩
    obtain ⟨hmem, rfl, rfl⟩ := node_some hr
    exact ⟨r, ⟨⟨hmem, rfl⟩, rfl, hdep, hst⟩, rfl, rfl⟩

theorem completedDependencyOutputs_nodup (hk : Table.Keyed nodeKey db.nodeExecutions) :
    ((completedDependencyOutputs e node (db.getNodeExecutionsForExecution e)).map (·.1)).Nodup := by
  rw [completedDependencyOutputs, getNodeExecutionsForExecution, List.filter_filter, List.map_map]
  have hsub := (List.filter_sublist (p := fun r => decide (r.workflowExecutionId = e ∧ r.nodeId ∈ node.dependencies ∧
    r.status = .completed) && decide (r.workflowExecutionId = e)) (l := db.nodeExecutions)).map nodeKey
  refine List.Nodup.of_map (fun i => (e, i)) ?_
  rw [List.map_map]
  refine (List.map_congr_left fun r hr => ?_) ▸ hsub.nodup hk
  simp only [List.mem_filter, Bool.and_eq_true, decide_eq_true_eq] at hr
  simp [nodeKey, hr.2.2]

/-- What two executions and their databases have in common for a dispatch of the node. -/
structure SameView (x x' : WorkflowExecutionRecord) (node : WorkflowNode) (db db' : Database) : Prop where
  executionId : x'.executionId = x.executionId
  inputData : x'.inputData = x.inputData
  execution : (db.getExecutionById x.executionId).isSome = true
  execution' : (db'.getExecutionById x.executionId).isSome = true
  own : (db.node x.executionId node.id).map (·.status) = (db'.node x.executionId node.id).map (·.status)
  dependencies : ∀ d ∈ node.dependencies, (db.node x.executionId d).map (fun r => (r.status, r.outputData)) =
    (db'.node x.executionId d).map fun r => (r.status, r.outputData)

variable {x x' : WorkflowExecutionRecord}

theorem SameView.outputs (h : SameView x x' node db db') (hk : Table.Keyed nodeKey db.nodeExecutions)
    (hk' : Table.Keyed nodeKey db'.nodeExecutions) :
    (completedDependencyOutputs x.executionId node (db.getNodeExecutionsForExecution x.executionId)).Perm
      (completedDependencyOutputs x.executionId node (db'.getNodeExecutionsForExecution x.executionId)) := by
  refine (List.perm_ext_iff_of_nodup (completedDependencyOutputs_nodup hk).of_map
    (completedDependencyOutputs_nodup hk').of_map).2 ?_
  rintro ⟨i, v⟩
  rw [mem_completedDependencyOutputs hk, mem_completedDependencyOutputs hk']
  refine and_congr_right fun hdep => ?_
  rw [h.dependencies i hdep]

theorem SameView.failed (h : SameView x x' node db db') :
    (node.dependencies.any fun d =>
        decide (statusMap (db.getNodeExecutionsForExecution x.executionId) d = some .failed)) =
      node.dependencies.any fun d =>
        decide (statusMap (db'.getNodeExecutionsForExecution x.executionId) d = some .failed) := by
  rw [Bool.eq_iff_iff, List.any_eq_true, List.any_eq_true]
  refine exists_congr fun d => and_congr_right fun hdep => ?_
  have hstatus : (db.node x.executionId d).map (·.status) = (db'.node x.executionId d).map (·.status) := by
    simpa [Function.comp_def] using congrArg (Option.map Prod.fst) (h.dependencies d hdep)
  rw [statusMap_node, statusMap_node, hstatus]

theorem nothingClaimed_iff (hk : Table.Keyed nodeKey db.nodeExecutions) {i : String} {now : Time} :
    (db.claimPendingNodes e [i] now).1.isEmpty = true ↔ (db.node e i).map (·.status) ≠ some .pending := by
  rw [claimPendingNodes_isEmpty hk]
  simp [Option.map_eq_some_iff]

theorem SameView.claims (h : SameView x x' node db db') (hk : Table.Keyed nodeKey db.nodeExecutions)
    (hk' : Table.Keyed nodeKey db'.nodeExecutions) (now now' : Time) :
    (db.claimPendingNodes x.executionId [node.id] now).1.isEmpty =
      (db'.claimPendingNodes x.executionId [node.id] now').1.isEmpty := by
  rw [Bool.eq_iff_iff, nothingClaimed_iff hk, nothingClaimed_iff hk', h.own]

/-! ## The rows a dispatch writes -/

/-- An insert of the node's task, of its first attempt or of its message violates a key. -/
def registrationFails (e : Uuid) (i : String) (attemptId : Uuid) (db : Database) : Bool :=
  ((db.getLogicalTask (createTaskId e i)).isNone &&
      db.logicalTasks.any fun r => decide (r.executionId = e ∧ r.nodeId = i)) ||
    ((db.taskAttempts.find? fun r => decide (r.taskId = createTaskId e i ∧ r.attemptNumber = 1)).isNone &&
      db.taskAttempts.any fun r => decide (r.attemptId = attemptId)) ||
    db.outboxEvents.any fun r => decide (r.messageId = createTaskId e i)

theorem insertLogicalTask_eq (row : LogicalTaskRecord) (db : Database) : insertLogicalTask row db =
    if (db.getLogicalTask row.taskId).isNone &&
        db.logicalTasks.any fun r => decide (r.executionId = row.executionId ∧ r.nodeId = row.nodeId) then
      .error .persistence
    else .ok { db with
      logicalTasks := if (db.getLogicalTask row.taskId).isNone then db.logicalTasks ++ [row]
        else db.logicalTasks } := by
  unfold insertLogicalTask
  cases db.getLogicalTask row.taskId with
  | none => simp
  | some r => simp

theorem insertAttempt_eq (row : TaskAttemptRecord) (db : Database)
    (hfirst : (db.taskAttempts.find? fun r =>
      decide (r.taskId = row.taskId ∧ r.attemptNumber = row.attemptNumber)) = none) :
    insertAttempt row db =
      if db.taskAttempts.any fun r => decide (r.attemptId = row.attemptId) then .error .persistence
      else .ok { db with taskAttempts := db.taskAttempts ++ [row] } := by
  have hany : (db.taskAttempts.any fun r => decide (r.attemptId = row.attemptId ∨
      (r.taskId = row.taskId ∧ r.attemptNumber = row.attemptNumber))) =
      db.taskAttempts.any fun r => decide (r.attemptId = row.attemptId) := by
    rw [List.find?_eq_none] at hfirst
    rw [Bool.eq_iff_iff, List.any_eq_true, List.any_eq_true]
    refine exists_congr fun r => and_congr_right fun hr => ?_
    have hne := hfirst r hr
    rw [decide_eq_true_eq] at hne
    simp [hne]
  rw [insertAttempt, hany]

/-- Whether the registration of a claimed node succeeds does not depend on the input. -/
theorem registerTask_outcome (x : WorkflowExecutionRecord) (n : WorkflowNode) (input : Dict Json) (attemptId : Uuid)
    (now : Time) (db : Database) : if registrationFails x.executionId n.id attemptId db then
      registerTask x n input attemptId now db = .error .persistence
    else ∃ db', registerTask x n input attemptId now db = .ok db' := by
  rw [registerTask, registerInitialTask, insertLogicalTask_eq, registrationFails]
  cases htask : (db.getLogicalTask (createTaskId x.executionId n.id)).isNone &&
      db.logicalTasks.any fun r => decide (r.executionId = x.executionId ∧ r.nodeId = n.id) with
  | true => simp [bind, Except.bind]
  | false =>
    simp only [bind, Except.bind, Bool.false_or, Bool.false_eq_true, if_false]
    cases hfirst :
      db.taskAttempts.find? fun r => decide (r.taskId = createTaskId x.executionId n.id ∧ r.attemptNumber = 1) with
    | some r =>
      simp only [pure, Except.pure, addTask, addMessage, Option.isNone_some, Bool.false_and, Bool.false_or]
      cases db.outboxEvents.any fun r => decide (r.messageId = createTaskId x.executionId n.id) with
      | true => simp
      | false => simp
    | none =>
      cases hid : db.taskAttempts.any fun r => decide (r.attemptId = attemptId) with
      | true =>
        have hinsert : ∀ tasks, insertAttempt (initialAttempt attemptId (createTaskId x.executionId n.id) now)
            { db with logicalTasks := tasks } = .error .persistence :=
          fun tasks => (insertAttempt_eq _ _ hfirst).trans (if_pos hid)
        simp [hinsert]
      | false =>
        have hinsert : ∀ tasks, insertAttempt (initialAttempt attemptId (createTaskId x.executionId n.id) now)
            { db with logicalTasks := tasks } = .ok { db with
              logicalTasks := tasks
              taskAttempts := db.taskAttempts ++ [initialAttempt attemptId (createTaskId x.executionId n.id) now] } :=
          fun tasks => (insertAttempt_eq _ _ hfirst).trans (if_neg (Bool.eq_false_iff.1 hid))
        simp only [hinsert, pure, Except.pure, addTask, addMessage, Bool.and_false, Bool.false_or]
        cases db.outboxEvents.any fun r => decide (r.messageId = createTaskId x.executionId n.id) with
        | true => simp
        | false => simp

/-- The node's own task is registered in both databases or in neither, and the drawn attempt ids are new. -/
structure SameTaskRows (e : Uuid) (i : String) (attemptId attemptId' : Uuid) (db db' : Database) : Prop where
  task : (db.getLogicalTask (createTaskId e i)).isNone = (db'.getLogicalTask (createTaskId e i)).isNone
  slot : (db.logicalTasks.any fun r => decide (r.executionId = e ∧ r.nodeId = i)) =
    db'.logicalTasks.any fun r => decide (r.executionId = e ∧ r.nodeId = i)
  message : (db.outboxEvents.any fun r => decide (r.messageId = createTaskId e i)) =
    db'.outboxEvents.any fun r => decide (r.messageId = createTaskId e i)
  fresh : ∀ r ∈ db.taskAttempts, r.attemptId ≠ attemptId
  fresh' : ∀ r ∈ db'.taskAttempts, r.attemptId ≠ attemptId'

theorem SameTaskRows.registrationFails {i : String} {attemptId attemptId' : Uuid}
    (h : SameTaskRows e i attemptId attemptId' db db') :
    registrationFails e i attemptId db = registrationFails e i attemptId' db' := by
  have hnew : ∀ {db : Database} {a : Uuid}, (∀ r ∈ db.taskAttempts, r.attemptId ≠ a) →
      (db.taskAttempts.any fun r => decide (r.attemptId = a)) = false := by
    intro db a h
    simpa [List.any_eq_false] using h
  rw [Database.registrationFails, Database.registrationFails, hnew h.fresh, hnew h.fresh', h.task, h.slot, h.message]
  simp

/-- Two dispatches with the same outcome, from the messages there were: the same exception, the same
result without a task, or the same result with tasks that differ in their attempts at most. -/
inductive SameDispatch (outbox outbox' : List OutboxEventRecord) :
    Except PyError (DispatchResult × Database) → Except PyError (DispatchResult × Database) → Prop where
  | raised {e : PyError} : SameDispatch outbox outbox' (.error e) (.error e)
  | quiet {result : DispatchResult} {db db' : Database} (outcome : result.outcome ≠ .dispatched)
      (written : db.outboxEvents = outbox) (written' : db'.outboxEvents = outbox') :
      SameDispatch outbox outbox' (.ok (result, db)) (.ok (result, db'))
  | dispatched {result : DispatchResult} {db db' : Database} {row row' : OutboxEventRecord} {m m' : NodeTaskMessage}
      (outcome : result.outcome = .dispatched) (written : db.outboxEvents = outbox ++ [row])
      (written' : db'.outboxEvents = outbox' ++ [row']) (task : row.payload = .task m)
        (task' : row'.payload = .task m')
      (handler : m.handler = m'.handler) (handlerConfig : m.handlerConfig = m'.handlerConfig)
      (resolvedInput : Json.SameDict m.resolvedInput m'.resolvedInput) :
      SameDispatch outbox outbox' (.ok (result, db)) (.ok (result, db'))

/-- The registrations of a claimed node, from databases in which they succeed or fail together. -/
theorem registerTask_same {input input' : Dict Json} {attemptId attemptId' : Uuid} {now now' : Time}
    {result : DispatchResult} (hid : x'.executionId = x.executionId) (houtcome : result.outcome = .dispatched)
    (hfails : registrationFails x.executionId node.id attemptId db =
      registrationFails x.executionId node.id attemptId' db')
    (hsame : Json.SameDict input input') : SameDispatch db.outboxEvents db'.outboxEvents
      (registerTask x node input attemptId now db >>= fun c => .ok (result, c))
      (registerTask x' node input' attemptId' now' db' >>= fun c => .ok (result, c)) := by
  have hout := registerTask_outcome x node input attemptId now db
  have hout' := registerTask_outcome x' node input' attemptId' now' db'
  rw [hid, ← hfails] at hout'
  split at hout
  · rename_i hf
    rw [if_pos hf] at hout'
    rw [hout, hout']
    exact .raised
  · rename_i hf
    rw [if_neg hf] at hout'
    obtain ⟨c, hc⟩ := hout
    obtain ⟨c', hc'⟩ := hout'
    rw [hc, hc']
    obtain ⟨-, -, -, a, hwritten, -⟩ := registerTask_frame hc
    obtain ⟨-, -, -, a', hwritten', -⟩ := registerTask_frame hc'
    exact .dispatched houtcome hwritten hwritten' rfl rfl rfl rfl hsame

/-- Dispatches with the same view have the same outcome. -/
theorem SameView.dispatch {strFloat : Rat → String} {attemptId attemptId' : Uuid} {now now' : Time}
    (h : SameView x x' node db db') (hk : Table.Keyed nodeKey db.nodeExecutions)
    (hk' : Table.Keyed nodeKey db'.nodeExecutions)
    (hrows : (db.node x.executionId node.id).map (·.status) = some .pending →
      SameTaskRows x.executionId node.id attemptId attemptId' db db') :
    SameDispatch db.outboxEvents db'.outboxEvents (dispatch strFloat x node attemptId now db)
      (dispatch strFloat x' node attemptId' now' db') := by
  have hsome : ¬ (db.getExecutionById x.executionId).isNone = true := by simp [Option.isSome_iff_ne_none.1 h.execution]
  have hsome' :
      ¬ (db'.getExecutionById x.executionId).isNone = true := by simp [Option.isSome_iff_ne_none.1 h.execution']
  unfold WorkflowEngine.dispatch
  dsimp only
  rw [h.executionId, h.inputData, if_neg hsome, if_neg hsome', ← h.failed]
  split
  · refine .quiet (by simp) ?_ ?_
    · exact (failPendingNodes_fields db x.executionId [node.id] "A required dependency failed." now).1.outbox.symm
    · exact (failPendingNodes_fields db' x.executionId [node.id] "A required dependency failed." now').1.outbox.symm
  · have hinput := @NodeInputResolver.resolve_perm strFloat _ _ node x.inputData (h.outputs hk hk')
      (completedDependencyOutputs_nodup hk)
    revert hinput
    generalize NodeInputResolver.resolve strFloat node x.inputData (completedDependencyOutputs x.executionId node
      (db.getNodeExecutionsForExecution x.executionId)) = resolved
    generalize NodeInputResolver.resolve strFloat node x.inputData (completedDependencyOutputs x.executionId node
      (db'.getNodeExecutionsForExecution x.executionId)) = resolved'
    rintro (_ | ⟨hsame⟩)
    · exact .raised
    · simp only [Except.bind, bind]
      rw [← h.claims hk hk' now now']
      split
      · exact .quiet (by simp) rfl rfl
      · rename_i hclaimed
        have hpending := Classical.not_not.1 (mt (nothingClaimed_iff hk).2 hclaimed)
        have hfails :
            registrationFails x.executionId node.id attemptId (db.claimPendingNodes x.executionId [node.id] now).2 =
              registrationFails x.executionId node.id attemptId'
                (db'.claimPendingNodes x.executionId [node.id] now').2 :=
          (hrows hpending).registrationFails
        exact registerTask_same h.executionId rfl hfails hsame

end Database

namespace System

variable {cfg cfg' : Config} {s s' : System} {e : Uuid} {i : String}

/-- In a state that a run reaches, a pending node has no task yet. -/
theorem pending_unregistered (h : Reachable cfg anyStep s)
    (hpending : (s.db.node e i).map (·.status) = some .pending) :
    (s.db.getLogicalTask (createTaskId e i)).isNone = true ∧
      (s.db.logicalTasks.any fun r => decide (r.executionId = e ∧ r.nodeId = i)) = false ∧
      (s.db.outboxEvents.any fun r => decide (r.messageId = createTaskId e i)) = false := by
  have hstatus : s.db.status e i = .pending := by rw [status, hpending]; rfl
  rcases (reachable_dispatches h).node e i with ⟨-, -, hst⟩ | ⟨hno, hnone, -⟩
  · exact absurd hstatus hst
  · have hfresh := (reachable_identifiers h).fresh ((reachable_identifiers h).task_unused hno)
    refine ⟨by simp [hnone.getLogicalTask (reachable_dispatches h).ids], ?_, ?_⟩
    · rw [List.any_eq_false]
      intro r hr hp
      have hmem : r ∈ s.db.tasksOf e i := List.mem_filter.2 ⟨hr, hp⟩
      rw [hnone.1] at hmem
      cases hmem
    · rw [List.any_eq_false]
      intro row hrow hid
      exact hfresh row hrow (of_decide_eq_true hid)

theorem reachable_sameTaskRows (h : Reachable cfg anyStep s) (h' : Reachable cfg' anyStep s')
    (hpending : (s.db.node e i).map (·.status) = some .pending)
    (hpending' : (s'.db.node e i).map (·.status) = some .pending) :
    SameTaskRows e i (.v4 s.draws) (.v4 s'.draws) s.db s'.db := by
  obtain ⟨htask, hslot, hmessage⟩ := pending_unregistered h hpending
  obtain ⟨htask', hslot', hmessage'⟩ := pending_unregistered h' hpending'
  exact ⟨htask.trans htask'.symm, hslot.trans hslot'.symm, hmessage.trans hmessage'.symm,
    (reachable_attemptIds h).unused, (reachable_attemptIds h').unused⟩

end System

/-! ## Text inside looked-up values -/

/-- The text stands in a string of the value or in a key. -/
inductive Json.Mentions (t : List Char) : Json → Prop where
  | str {s : String} (occurs : t <:+: s.toList) : Mentions t (.str s)
  | item {items : List Json} {v : Json} (mem : v ∈ items) (more : Mentions t v) : Mentions t (.arr items)
  | key {members : Dict Json} {key : String} {v : Json} (mem : (key, v) ∈ members) (occurs : t <:+: key.toList) :
      Mentions t (.obj members)
  | member {members : Dict Json} {key : String} {v : Json} (mem : (key, v) ∈ members) (more : Mentions t v) :
      Mentions t (.obj members)

namespace NodeInputResolver

open Json (Mentions)

variable {strFloat : Rat → String} {outputs : Dict Json} {t : List Char} {r : TemplateReference} {v : Json}

def Check.reference : Check → Option TemplateReference
  | .malformed _ => none
  | .whole r => some r
  | .embedded r => some r

theorem interpolate_mentions {text : String} (hlook : lookup r outputs = .ok v) (hv : Mentions t v)
    (h : interpolate strFloat r outputs = .ok text) : t <:+: text.toList := by
  rw [interpolate, hlook] at h
  cases hv with
  | str occurs =>
    cases h
    exact occurs
  | item _ _ => cases h
  | key _ _ => cases h
  | member _ _ => cases h

theorem interpolateSegments_mentions (hlook : lookup r outputs = .ok v) (hv : Mentions t v)
    (segments : List TemplateSegment) :
    ∀ {text : String}, .reference r ∈ segments → interpolateSegments strFloat outputs segments = .ok text →
      t <:+: text.toList := by
  induction segments with
  | nil => exact fun hmem => by cases hmem
  | cons x segments ih =>
    intro text hmem h
    cases x with
    | literal s =>
      obtain ⟨rest, hrest, h⟩ := Except.bind_eq_ok.1 h
      cases h
      rw [String.toList_append]
      exact (ih (by simpa using hmem) hrest).trans (List.suffix_append _ _).isInfix
    | reference r' =>
      obtain ⟨first, hfirst, h⟩ := Except.bind_eq_ok.1 h
      obtain ⟨rest, hrest, h⟩ := Except.bind_eq_ok.1 h
      cases h
      rw [String.toList_append]
      rcases List.mem_cons.1 hmem with heq | hmem
      · cases heq
        exact (interpolate_mentions hlook hv hfirst).trans (List.prefix_append _ _).isInfix
      · exact (ih hmem hrest).trans (List.suffix_append _ _).isInfix

theorem resolveString_mentions {s : String} {j : Json} {c : Check} (hlook : lookup r outputs = .ok v)
    (hv : Mentions t v) (hc : c ∈ leafChecks s) (hr : c.reference = some r)
    (h : resolveString strFloat s outputs = .ok j) : Mentions t j := by
  obtain ⟨parsed, hp, h⟩ := Except.bind_eq_ok.1 h
  rw [leafChecks, hp] at hc
  cases parsed with
  | text text => cases hc
  | reference r' =>
    rw [List.mem_singleton] at hc
    subst hc
    cases hr
    obtain ⟨u, hu, hcopy⟩ := Except.bind_eq_ok.1 h
    cases hlook.symm.trans hu
    rwa [copyJsonValue_ok hcopy]
  | segments segments =>
    obtain ⟨segment, hsegment, hcheck⟩ := List.mem_filterMap.1 hc
    obtain ⟨text, htext, h⟩ := Except.bind_eq_ok.1 h
    cases h
    cases segment with
    | literal s => cases hcheck
    | reference r' =>
      cases hcheck
      cases hr
      exact .str (interpolateSegments_mentions hlook hv segments hsegment htext)

mutual

theorem resolveValue_mentions (hlook : lookup r outputs = .ok v) (hv : Mentions t v) {c : Check}
    (hr : c.reference = some r) :
    ∀ (j : Json) {j' : Json}, c ∈ checks j → resolveValue strFloat outputs j = .ok j' → Mentions t j'
  | .str s, j', hc, h => resolveString_mentions hlook hv hc hr h
  | .arr items, j', hc, h => by
    obtain ⟨items', hitems, h⟩ := Except.bind_eq_ok.1 h
    cases h
    obtain ⟨u, hmem, hu⟩ := resolveItems_mentions hlook hv hr items hc hitems
    exact .item hmem hu
  | .obj members, j', hc, h => by
    obtain ⟨members', hmembers, h⟩ := Except.bind_eq_ok.1 h
    cases h
    obtain ⟨key, u, hmem, hu⟩ := resolveObject_mentions hlook hv hr members hc hmembers
    exact .member hmem hu
  | .null, _, hc, _ => by cases hc
  | .bool _, _, hc, _ => by cases hc
  | .int _, _, hc, _ => by cases hc
  | .float _, _, hc, _ => by cases hc
  | .nonFinite _, _, hc, _ => by cases hc

theorem resolveItems_mentions (hlook : lookup r outputs = .ok v) (hv : Mentions t v) {c : Check}
    (hr : c.reference = some r) :
    ∀ (items : List Json) {items' : List Json}, c ∈ itemChecks items →
      resolveItems strFloat outputs items = .ok items' → ∃ u ∈ items', Mentions t u
  | [], _, hc, _ => by cases hc
  | x :: xs, _, hc, h => by
    obtain ⟨y, hy, h⟩ := Except.bind_eq_ok.1 h
    obtain ⟨ys, hys, h⟩ := Except.bind_eq_ok.1 h
    cases h
    rcases List.mem_append.1 hc with hc | hc
    · exact ⟨y, by simp, resolveValue_mentions hlook hv hr x hc hy⟩
    · obtain ⟨u, hmem, hu⟩ := resolveItems_mentions hlook hv hr xs hc hys
      exact ⟨u, by simp [hmem], hu⟩

theorem resolveObject_mentions (hlook : lookup r outputs = .ok v) (hv : Mentions t v) {c : Check}
    (hr : c.reference = some r) :
    ∀ (members : List (String × Json)) {members' : List (String × Json)}, c ∈ objectChecks members →
      resolveObject strFloat outputs members = .ok members' → ∃ key u, (key, u) ∈ members' ∧ Mentions t u
  | [], _, hc, _ => by cases hc
  | (key, x) :: xs, _, hc, h => by
    obtain ⟨y, hy, h⟩ := Except.bind_eq_ok.1 h
    obtain ⟨ys, hys, h⟩ := Except.bind_eq_ok.1 h
    cases h
    rcases List.mem_append.1 hc with hc | hc
    · exact ⟨key, y, by simp, resolveValue_mentions hlook hv hr x hc hy⟩
    · obtain ⟨key', u, hmem, hu⟩ := resolveObject_mentions hlook hv hr xs hc hys
      exact ⟨key', u, by simp [hmem], hu⟩

end

/-- The values that go into the input of a node, with the dependency they come from. -/
inductive LooksUp (node : WorkflowNode) (executionInput outputs : Dict Json) : Option String → Json → Prop where
  | trigger (handler : node.handler = "input") : LooksUp node executionInput outputs none (.obj executionInput)
  | output (handler : node.handler = "output") {i : String} {v : Json} (mem : (i, v) ∈ outputs) :
      LooksUp node executionInput outputs (some i) v
  | reference (input : node.handler ≠ "input") (output : node.handler ≠ "output") {c : Check}
      {r : TemplateReference} {v : Json}
      (mem : c ∈ objectChecks node.config) (reference : c.reference = some r) (found : lookup r outputs = .ok v) :
      LooksUp node executionInput outputs (some r.nodeId) v

/-- Whatever text stands in a looked-up value stands in the resolved input. -/
theorem resolve_mentions {node : WorkflowNode} {executionInput resolved : Dict Json} {source : Option String}
    (h : resolve strFloat node executionInput outputs = .ok resolved)
    (hlook : LooksUp node executionInput outputs source v) (hv : Mentions t v) : Mentions t (.obj resolved) := by
  unfold resolve at h
  cases hlook with
  | trigger handler =>
    rw [if_pos handler] at h
    rwa [copyObject_ok h]
  | output handler mem =>
    have hne : node.handler ≠ "input" := by
      rw [handler]
      decide
    rw [if_neg hne, if_pos handler] at h
    rw [copyObject_ok h]
    exact .member mem hv
  | reference input output mem reference found =>
    rw [if_neg input, if_neg output] at h
    obtain ⟨key, u, hmem, hu⟩ := resolveObject_mentions found hv reference node.config mem h
    exact .member hmem hu

mutual

theorem finite_of_resolveValue : ∀ (j : Json) {j' : Json}, resolveValue strFloat outputs j = .ok j' → finite j = true
  | .arr items, _, h => by
    obtain ⟨items', hitems, -⟩ := Except.bind_eq_ok.1 h
    exact finite_of_resolveItems items hitems
  | .obj members, _, h => by
    obtain ⟨members', hmembers, -⟩ := Except.bind_eq_ok.1 h
    exact finite_of_resolveObject members hmembers
  | .nonFinite _, _, h => by cases h
  | .str _, _, _ => rfl
  | .null, _, _ => rfl
  | .bool _, _, _ => rfl
  | .int _, _, _ => rfl
  | .float _, _, _ => rfl

theorem finite_of_resolveItems :
    ∀ (items : List Json) {items' : List Json}, resolveItems strFloat outputs items = .ok items' →
    finiteItems items = true
  | [], _, _ => rfl
  | x :: xs, _, h => by
    obtain ⟨y, hy, h⟩ := Except.bind_eq_ok.1 h
    obtain ⟨ys, hys, -⟩ := Except.bind_eq_ok.1 h
    rw [finiteItems, finite_of_resolveValue x hy, finite_of_resolveItems xs hys]
    rfl

theorem finite_of_resolveObject : ∀ (members : List (String × Json)) {members' : List (String × Json)},
    resolveObject strFloat outputs members = .ok members' → finiteMembers members = true
  | [], _, _ => rfl
  | (_, x) :: xs, _, h => by
    obtain ⟨y, hy, h⟩ := Except.bind_eq_ok.1 h
    obtain ⟨ys, hys, -⟩ := Except.bind_eq_ok.1 h
    rw [finiteMembers, finite_of_resolveValue x hy, finite_of_resolveObject xs hys]
    rfl

end

/-- The input of a node takes values as they are: the trigger input or the outputs whole, or the
configuration with its references replaced once. -/
structure Verbatim (strFloat : Rat → String) (node : WorkflowNode) (executionInput outputs resolved : Dict Json) :
    Prop where
  input : node.handler = "input" → resolved = executionInput
  output : node.handler = "output" → resolved = outputs
  substituted : node.handler ≠ "input" → node.handler ≠ "output" → finiteMembers outputs = true →
    ObjectSubstituted strFloat outputs node.config resolved
  mentions : ∀ source v t, LooksUp node executionInput outputs source v → Mentions t v → Mentions t (.obj resolved)

theorem resolve_verbatim {node : WorkflowNode} {executionInput resolved : Dict Json}
    (h : resolve strFloat node executionInput outputs = .ok resolved) :
    Verbatim strFloat node executionInput outputs resolved where
  input hi := by
    rw [resolve, if_pos hi] at h
    exact copyObject_ok h
  output ho := by
    have hne : node.handler ≠ "input" := by
      rw [ho]
      decide
    rw [resolve, if_neg hne, if_pos ho] at h
    exact copyObject_ok h
  substituted hi ho hout := by
    rw [resolve, if_neg hi, if_neg ho] at h
    have hspec : Answers strFloat outputs _ _ _ :=
      resolveObject_spec hout node.config (finite_of_resolveObject node.config h)
    rw [h] at hspec
    exact hspec.2
  mentions _ _ _ hlook hv := resolve_mentions h hlook hv

end NodeInputResolver

namespace Database

open NodeInputResolver (LooksUp Verbatim)
open Json (Mentions)

variable {strFloat : Rat → String} {x : WorkflowExecutionRecord} {node : WorkflowNode} {db : Database}
  {m : NodeTaskMessage}

/-- A dispatch of the node adds this task to the outbox. -/
def Writes (strFloat : Rat → String) (x : WorkflowExecutionRecord) (node : WorkflowNode) (db : Database)
    (m : NodeTaskMessage) :
    Prop :=
  ∃ attemptId now row, (dispatch strFloat x node attemptId now db).map (·.2.outboxEvents) =
    .ok (db.outboxEvents ++ [row]) ∧ row.payload = .task m

/-- The outputs that a dispatch reads. -/
def visibleOutputs (x : WorkflowExecutionRecord) (node : WorkflowNode) (db : Database) : Dict Json :=
  completedDependencyOutputs x.executionId node (db.getNodeExecutionsForExecution x.executionId)

theorem Writes.resolved (h : Writes strFloat x node db m) (hk : Table.Keyed nodeKey db.nodeExecutions) :
    NodeInputResolver.resolve strFloat node x.inputData (visibleOutputs x node db) = .ok m.resolvedInput := by
  obtain ⟨attemptId, now, row, hd, htask⟩ := h
  cases hdispatch : dispatch strFloat x node attemptId now db with
  | error e =>
    rw [hdispatch] at hd
    cases hd
  | ok p =>
    obtain ⟨result, db'⟩ := p
    rw [hdispatch] at hd
    have hwritten : db'.outboxEvents = db.outboxEvents ++ [row] := Except.ok.inj hd
    have hdisp := dispatch_ok hk hdispatch
    generalize result.outcome = outcome at hdisp
    cases hdisp with
    | dependencyFailed =>
      have hsame : (db.failPendingNodes x.executionId [node.id] "A required dependency failed." now).2.outboxEvents =
          db.outboxEvents :=
            (failPendingNodes_fields db x.executionId [node.id] "A required dependency failed." now).1.outbox.symm
      simp [hsame] at hwritten
    | alreadyStarted => simp at hwritten
    | dispatched _ _ resolved registers =>
      obtain ⟨-, -, -, a, hrow, -⟩ := registerTask_frame registers
      obtain ⟨-, hrow⟩ := List.append_inj' (hwritten.symm.trans hrow) rfl
      cases hrow
      cases htask
      exact resolved

/-- Tasks that a text has come to, from a looked-up value through any number of dispatches. Between two of
them the handler has put what its input mentions into the output that the next one looks up. -/
inductive Hops (strFloat : Rat → String) (t : List Char) : NodeTaskMessage → Prop where
  | first {x : WorkflowExecutionRecord} {node : WorkflowNode} {db : Database} {m : NodeTaskMessage}
      {source : Option String}
      {v : Json} (keyed : Table.Keyed nodeKey db.nodeExecutions) (written : Writes strFloat x node db m)
      (found : LooksUp node x.inputData (visibleOutputs x node db) source v) (mentioned : Mentions t v) :
      Hops strFloat t m
  | next {m : NodeTaskMessage} {x : WorkflowExecutionRecord} {node : WorkflowNode} {db : Database}
      {m' : NodeTaskMessage}
      {v : Json} (before : Hops strFloat t m) (execution : x.executionId = m.executionId)
      (keyed : Table.Keyed nodeKey db.nodeExecutions) (written : Writes strFloat x node db m')
      (found : LooksUp node x.inputData (visibleOutputs x node db) (some m.nodeId) v)
      (passed : Mentions t (.obj m.resolvedInput) → Mentions t v) : Hops strFloat t m'

theorem Hops.mentions {t : List Char} (h : Hops strFloat t m) : Mentions t (.obj m.resolvedInput) := by
  induction h with
  | first keyed written found mentioned =>
    exact NodeInputResolver.resolve_mentions (written.resolved keyed) found mentioned
  | next _ _ keyed written found passed ih =>
    exact NodeInputResolver.resolve_mentions (written.resolved keyed) found (passed ih)

end Database

open Database

/-- A node sees its declared dependencies and the trigger input only, and text inside of what it
sees is never expanded, however often it is handed on. -/
theorem dispatch_isolated (strFloat : Rat → String) (node : WorkflowNode) :
    (∀ (x x' : WorkflowExecutionRecord) (db db' : Database) (attemptId attemptId' : Uuid) (now now' : Time),
      Table.Keyed nodeKey db.nodeExecutions → Table.Keyed nodeKey db'.nodeExecutions → SameView x x' node db db' →
      ((db.node x.executionId node.id).map (·.status) = some .pending →
        SameTaskRows x.executionId node.id attemptId attemptId' db db') →
      SameDispatch db.outboxEvents db'.outboxEvents (dispatch strFloat x node attemptId now db)
        (dispatch strFloat x' node attemptId' now' db')) ∧
    (∀ (cfg : Config) (s s' : System) (x x' : WorkflowExecutionRecord), System.Reachable cfg System.anyStep s →
      System.Reachable cfg System.anyStep s' → SameView x x' node s.db s'.db →
      SameDispatch s.db.outboxEvents s'.db.outboxEvents (dispatch strFloat x node (.v4 s.draws) s.now s.db)
        (dispatch strFloat x' node (.v4 s'.draws) s'.now s'.db)) ∧
    (∀ (x : WorkflowExecutionRecord) (db : Database) (m : NodeTaskMessage), Table.Keyed nodeKey db.nodeExecutions →
      Writes strFloat x node db m →
      NodeInputResolver.Verbatim strFloat node x.inputData (visibleOutputs x node db) m.resolvedInput) ∧
    ∀ (t : List Char) (m : NodeTaskMessage), Hops strFloat t m → Json.Mentions t (.obj m.resolvedInput) := by
  refine ⟨fun x x' db db' a a' now now' hk hk' hview hrows => hview.dispatch hk hk' hrows, ?_, ?_,
    fun t m h => h.mentions⟩
  · intro cfg s s' x x' h h' hview
    refine hview.dispatch (System.reachable_consistent h).sound.nodes_keyed
      (System.reachable_consistent h').sound.nodes_keyed ?_
    exact fun hpending => System.reachable_sameTaskRows h h' hpending (hview.own ▸ hpending)
  · exact fun x db m hk h => NodeInputResolver.resolve_verbatim (h.resolved hk)

/-- Trigger input that looks like a reference. -/
def injected : String := "\x7b\x7bsecret.key\x7d\x7d"

def injectedExecution : WorkflowExecutionRecord := ⟨.v4 1, .v4 0, .running, [("q", .str injected)], 0, some 0, none⟩

def askNode : WorkflowNode := ⟨"ask", "input", [], []⟩

def echoNode : WorkflowNode := ⟨"echo", "llm_service", ["ask"], [("prompt", .str "Say \x7b\x7b ask.q \x7d\x7d.")]⟩

def injectedRow (i : String) (st : NodeExecutionStatus) (output : Json) : NodeExecutionRecord :=
  ⟨.v4 1, i, st, output, none, none, 0, none, none⟩

/-- The rows while `ask` or `echo` is still to be dispatched, beside another node with an output of its own. -/
def injectedDatabase (ask : NodeExecutionStatus) (output secret : Json) : Database :=
  { Database.empty with
    workflowExecutions := [injectedExecution]
    nodeExecutions := [injectedRow "secret" .completed secret, injectedRow "ask" ask output,
      injectedRow "echo" .pending .null] }

def askTask : NodeTaskMessage := firstMessage injectedExecution askNode injectedExecution.inputData (.v4 7)

def echoTask : NodeTaskMessage :=
  firstMessage injectedExecution echoNode [("prompt", .str "Say \x7b\x7bsecret.key\x7d\x7d.")] (.v4 8)

/-- The database when `echo` is ready. -/
def beforeEcho (secret : String) : Database :=
  injectedDatabase .completed (.obj injectedExecution.inputData) (.obj [("key", .str secret)])

theorem injectedDatabase_keyed (ask : NodeExecutionStatus) (output secret : Json) :
    Table.Keyed nodeKey (injectedDatabase ask output secret).nodeExecutions := by
  show ([(.v4 1, "secret"), (.v4 1, "ask"), (.v4 1, "echo")] : List (Uuid × String)).Nodup
  decide

theorem askTask_written :
    Writes (fun _ => "") injectedExecution askNode (injectedDatabase .pending .null .null) askTask :=
  ⟨.v4 7, 0, taskRow injectedExecution askNode injectedExecution.inputData (.v4 7) 0, by decide +kernel, rfl⟩

theorem echoTask_written : Writes (fun _ => "") injectedExecution echoNode (beforeEcho "k") echoTask :=
  ⟨.v4 8, 0, taskRow injectedExecution echoNode [("prompt", .str "Say \x7b\x7bsecret.key\x7d\x7d.")] (.v4 8) 0,
    by decide +kernel, rfl⟩

theorem beforeEcho_sameView (secret secret' : String) :
    SameView injectedExecution injectedExecution echoNode (beforeEcho secret) (beforeEcho secret') where
  executionId := rfl
  inputData := rfl
  execution := rfl
  execution' := rfl
  own := rfl
  dependencies d hd := by
    rw [List.mem_singleton.1 hd]
    rfl

theorem injected_hops : Hops (fun _ => "") injected.toList echoTask := by
  have hask : Hops (fun _ => "") injected.toList askTask :=
    .first (injectedDatabase_keyed _ _ _) askTask_written (.trigger rfl)
      (.member List.mem_cons_self (.str List.infix_rfl))
  have hcheck : .embedded ⟨"ask", ["q"]⟩ ∈ NodeInputResolver.objectChecks echoNode.config := by decide +kernel
  have hfound : NodeInputResolver.lookup ⟨"ask", ["q"]⟩ (visibleOutputs injectedExecution echoNode (beforeEcho "k")) =
      .ok (.str injected) := by decide +kernel
  exact .next hask rfl (injectedDatabase_keyed _ _ _) echoTask_written
    (.reference (by decide) (by decide) hcheck rfl hfound) fun _ => .str List.infix_rfl

theorem dispatch_isolated_injected :
    SameDispatch [] [] (dispatch (fun _ => "") injectedExecution echoNode (.v4 8) 0 (beforeEcho "k"))
      (dispatch (fun _ => "") injectedExecution echoNode (.v4 9) 5 (beforeEcho "other")) ∧
    Json.Mentions injected.toList (.obj echoTask.resolvedInput) := by
  obtain ⟨hsees, -, -, hhops⟩ := dispatch_isolated (fun _ => "") echoNode
  refine ⟨hsees _ _ (beforeEcho "k") (beforeEcho "other") _ _ _ _ (injectedDatabase_keyed _ _ _)
    (injectedDatabase_keyed _ _ _) (beforeEcho_sameView _ _) fun _ => ?_, hhops _ _ injected_hops⟩
  exact ⟨rfl, rfl, rfl, by decide, by decide⟩

end WorkflowEngine
