import WorkflowEngine.OpenRuns
import WorkflowEngine.Transitions

/-!
# Execution results

The results of an execution are read by two statements, first the execution and then its nodes,
and the orchestrators may commit in between. What is read of a completed execution is final all
the same: all of its nodes are completed, and neither they nor the execution are written again.
-/
namespace WorkflowEngine

/-! ## The services -/

namespace WorkflowExecutionStatusService

/-- A workflow execution and the persisted state of its nodes. -/
structure WorkflowExecutionStatus where
  execution : WorkflowExecutionRecord
  nodeExecutions : List NodeExecutionRecord
  deriving DecidableEq, Repr

/-- `get`: `db` is what the first statement sees, and `nodeExecutions` what the second one returns. -/
def get (executionId : Uuid) (db : Database) (nodeExecutions : List NodeExecutionRecord) :
    Option WorkflowExecutionStatus :=
  match db.getExecutionById executionId with
  | none => none
  | some execution => some ⟨execution, nodeExecutions⟩

end WorkflowExecutionStatusService

structure WorkflowNodeResult where
  nodeId : String
  status : NodeExecutionStatus
  outputData : Json
  errorMessage : Option String
  errorType : Option String
  createdAt : Time
  startedAt : Option Time
  completedAt : Option Time
  deriving DecidableEq, Repr

structure WorkflowExecutionResults where
  execution : WorkflowExecutionRecord
  message : Option String
  results : Option (List WorkflowNodeResult)
  deriving DecidableEq, Repr

namespace WorkflowExecutionResultsService

def inconsistent : String :=
  "Workflow execution state is inconsistent: completed execution contains failed node executions. " ++
    "Final results are not available."

def nodeResult (r : NodeExecutionRecord) : WorkflowNodeResult :=
  ⟨r.nodeId, r.status, r.outputData, r.errorMessage, r.errorType, r.createdAt, r.startedAt, r.completedAt⟩

/-- `get`, with the same two statements. -/
def get (executionId : Uuid) (db : Database) (nodeExecutions : List NodeExecutionRecord) :
    Option WorkflowExecutionResults :=
  match WorkflowExecutionStatusService.get executionId db nodeExecutions with
  | none => none
  | some workflowStatus =>
    let execution := workflowStatus.execution
    match execution.status with
    | .pending => some ⟨execution, some "Workflow execution is pending. Results are not available yet.", none⟩
    | .running => some ⟨execution, some "Workflow execution is running. Results are not available yet.", none⟩
    | .failed => some ⟨execution, some "Workflow execution failed. Final results are not available.", none⟩
    | .completed =>
      if workflowStatus.nodeExecutions.any fun r => decide (r.status = .failed) then
        some ⟨execution, some inconsistent, none⟩
      else
        let completed := workflowStatus.nodeExecutions.filter fun r => decide (r.status = .completed)
        some ⟨execution, none, some (completed.map nodeResult)⟩

variable {db : Database} {e : Uuid} {x : WorkflowExecutionRecord} {rows : List NodeExecutionRecord}
  {answer : WorkflowExecutionResults}

/-- The answer on an execution whose nodes are all completed. -/
theorem get_of_completed (hx : db.getExecutionById e = some x) (hst : x.status = .completed)
    (hrows : ∀ r ∈ rows, r.status = .completed) : get e db rows = some ⟨x, none, some (rows.map nodeResult)⟩ := by
  have hany : rows.any (fun r => decide (r.status = .failed)) = false := by
    refine List.any_eq_false.2 fun r hr => ?_
    simp [hrows r hr]
  have hfilter : rows.filter (fun r => decide (r.status = .completed)) = rows :=
    List.filter_eq_self.2 fun r hr => decide_eq_true (hrows r hr)
  simp [get, WorkflowExecutionStatusService.get, hx, hst, hany, hfilter]

/-- Nothing is published of an execution that is not completed, and no inconsistency is reported. -/
theorem get_of_not_completed (hx : db.getExecutionById e = some x) (hst : x.status ≠ .completed)
    (h : get e db rows = some answer) :
    answer.execution = x ∧ answer.results = none ∧ answer.message ≠ some inconsistent := by
  simp only [get, WorkflowExecutionStatusService.get, hx] at h
  cases hs : x.status with
  | completed => exact absurd hs hst
  | pending | running | failed =>
    rw [hs] at h
    cases h
    exact ⟨rfl, rfl, fun hmessage => absurd (Option.some.inj hmessage) (by decide)⟩

end WorkflowExecutionResultsService

/-! ## Rows that stay -/

namespace Database

variable {db db₁ db' : Database} {e : Uuid} {x : WorkflowExecutionRecord} {w : Workflow} {r : NodeExecutionRecord}

/-- Workflows and terminal rows are as they were. -/
structure Preserves (db db' : Database) : Prop where
  workflow : ∀ id w, db.getWorkflowById id = some w → db'.getWorkflowById id = some w
  terminal : KeepsTerminal db db'

theorem Preserves.refl (db : Database) : Preserves db db :=
  ⟨fun _ _ h => h, fun _ _ _ h _ => h, fun _ _ h _ => h⟩

theorem Preserves.trans (h : Preserves db db₁) (h' : Preserves db₁ db') : Preserves db db' :=
  ⟨fun id w hw => h'.workflow id w (h.workflow id w hw), h.terminal.trans h'.terminal⟩

theorem Sound.node_of_row (hs : db.Sound) (hr : r ∈ db.getNodeExecutionsForExecution e) :
    db.node e r.nodeId = some r := by
  simp only [getNodeExecutionsForExecution, List.mem_filter, decide_eq_true_eq] at hr
  obtain ⟨hmem, rfl⟩ := hr
  exact hs.nodes_keyed.lookup hmem

/-- The rows of an execution are those of its workflow's nodes, in their order. -/
theorem Sound.rows_eq (hs : db.Sound) (hx : db.getExecutionById e = some x)
    (hw : db.getWorkflowById x.workflowId = some w) :
    (db.getNodeExecutionsForExecution e).map some = w.nodeIds.map (db.node e) := by
  obtain ⟨w', hw', -, hids⟩ := hs.workflow e x hx
  rw [hw] at hw'
  cases hw'
  rw [← hids, List.map_map]
  exact List.map_congr_left fun r hr => (hs.node_of_row hr).symm

/-- An execution that is completed, with all nodes of its workflow. -/
structure Completed (db : Database) (e : Uuid) (x : WorkflowExecutionRecord) (w : Workflow) : Prop where
  execution : db.getExecutionById e = some x
  status : x.status = .completed
  workflow : db.getWorkflowById x.workflowId = some w
  nodup : w.nodeIds.Nodup
  rows : (db.getNodeExecutionsForExecution e).map (·.nodeId) = w.nodeIds
  nodes : ∀ i ∈ w.nodeIds, db.status e i = .completed

theorem Completed.row (h : Completed db e x w) (hs : db.Sound) (hr : r ∈ db.getNodeExecutionsForExecution e) :
    db.node e r.nodeId = some r ∧ r.status = .completed := by
  have hnode := hs.node_of_row hr
  have hid : r.nodeId ∈ w.nodeIds := h.rows ▸ List.mem_map_of_mem hr
  exact ⟨hnode, (status_of_node hnode).symm.trans (h.nodes r.nodeId hid)⟩

/-- A completed execution keeps its row and those of its nodes. -/
theorem Completed.preserves (h : Completed db e x w) (hs : db.Sound) (hs' : db'.Sound) (hp : Preserves db db') :
    db'.getExecutionById e = some x ∧ db'.getNodeExecutionsForExecution e = db.getNodeExecutionsForExecution e := by
  have hx := hp.terminal.execution e x h.execution (.inl h.status)
  refine ⟨hx, (List.map_injective_iff.2 (Option.some_injective _)) ?_⟩
  rw [hs'.rows_eq hx (hp.workflow _ _ h.workflow), hs.rows_eq h.execution h.workflow]
  refine List.map_congr_left fun i hi => ?_
  obtain ⟨r, hr⟩ := exists_node_of_started (by rw [h.nodes i hi]; decide)
  rw [hr]
  exact hp.terminal.node e i r hr (.inl ((status_of_node hr).symm.trans (h.nodes i hi)))

end Database

namespace OpenSystem

open Database WorkflowExecutionResultsService
open WorkflowEngine.System (Upheld)

variable {cfg : Config} {intake : Intake} {s s' t : OpenSystem} {a : Action} {e : Uuid} {x : WorkflowExecutionRecord}
  {w : Workflow} {answer : WorkflowExecutionResults}

theorem step_preserves (h : Upheld cfg s.system) (hstep : step cfg intake s a = some t) :
    Preserves s.system.db t.system.db := by
  rcases step_cases hstep with ⟨b, hb⟩ | heq | ⟨event, -, heq⟩
  · have hsound := h.consistent.sound
    have hadvances := (System.step_kind hsound hb).advances h.consistent
    exact ⟨hadvances.later.workflow, (System.step_commit hsound hb).moves.keepsTerminal⟩
  · exact heq ▸ .refl _
  · exact heq ▸ .refl _

theorem later_preserves (h : Upheld cfg s.system) (hlater : Later cfg intake s t) :
    Preserves s.system.db t.system.db := by
  induction hlater with
  | start => exact .refl _
  | next _ hs _ hstep ih => exact ih.trans (step_preserves (later_upheld h hs) hstep)

theorem exists_completed (h : Upheld cfg s.system) (hx : s.system.db.getExecutionById e = some x)
    (hst : x.status = .completed) : ∃ w, Completed s.system.db e x w := by
  obtain ⟨w, hw, hwf, hids⟩ := h.consistent.sound.workflow e x hx
  have hrun := h.consistent.runs e x w hx hw
  exact ⟨w, hx, hst, hw, hwf.nodup, hids, hrun.completed_sound (by simp [Database.run, hx, hst])⟩

/-- A `get` that reads the execution in `s` and its nodes in `t`; these come in any order. -/
structure Gets (cfg : Config) (intake : Intake) (e : Uuid) (s t : OpenSystem)
    (answer : Option WorkflowExecutionResults) :
    Prop where
  later : Later cfg intake s t
  answers : ∃ rows : List NodeExecutionRecord, rows.Perm (t.system.db.getNodeExecutionsForExecution e) ∧
    answer = WorkflowExecutionResultsService.get e s.system.db rows

/-- Every read of a completed execution returns the rows that it has been completed with. -/
theorem Gets.of_completed {read : Option WorkflowExecutionResults} (hget : Gets cfg intake e s' t read)
    (h : Upheld cfg s.system) (hlater : Later cfg intake s s') (hcompleted : Completed s.system.db e x w) :
    ∃ rows : List NodeExecutionRecord,
      rows.Perm (s.system.db.getNodeExecutionsForExecution e) ∧ read = some ⟨x, none, some (rows.map nodeResult)⟩ := by
  obtain ⟨hlater', rows, hrows, hanswer⟩ := hget
  have hsound := h.consistent.sound
  obtain ⟨hx, -⟩ := hcompleted.preserves hsound (later_upheld h hlater).consistent.sound (later_preserves h hlater)
  obtain ⟨-, hsame⟩ := hcompleted.preserves hsound (later_upheld h (hlater.trans hlater')).consistent.sound
    (later_preserves h (hlater.trans hlater'))
  rw [hsame] at hrows
  rw [get_of_completed hx hcompleted.status fun r hr => (hcompleted.row hsound (hrows.mem_iff.1 hr)).2] at hanswer
  exact ⟨rows, hrows, hanswer⟩

/-- What has been published is complete, and it is what every later read publishes. -/
structure Published (cfg : Config) (intake : Intake) (e : Uuid) (s : OpenSystem) (x : WorkflowExecutionRecord)
    (results : List WorkflowNodeResult) : Prop where
  nodes : ∃ w, s.system.db.getWorkflowById x.workflowId = some w ∧ w.nodeIds.Nodup ∧
    (results.map (·.nodeId)).Perm w.nodeIds
  outputs : ∀ entry ∈ results, entry.status = .completed ∧ ∀ u, Later cfg intake s u →
    ∃ r, u.system.db.node e entry.nodeId = some r ∧ r.status = .completed ∧ r.outputData = entry.outputData
  again : ∀ s' t' answer, Later cfg intake s s' → Gets cfg intake e s' t' answer →
    ∃ results', answer = some ⟨x, none, some results'⟩ ∧ results'.Perm results

theorem published_of_completed (h : Upheld cfg s.system) (hcompleted : Completed s.system.db e x w)
    {rows : List NodeExecutionRecord} (hrows : rows.Perm (s.system.db.getNodeExecutionsForExecution e)) :
    Published cfg intake e s x (rows.map nodeResult) := by
  refine ⟨⟨w, hcompleted.workflow, hcompleted.nodup, ?_⟩, fun entry hentry => ?_, fun s' t' answer hlater hget => ?_⟩
  · rw [List.map_map, ← hcompleted.rows]
    exact hrows.map _
  · obtain ⟨r, hr, rfl⟩ := List.mem_map.1 hentry
    obtain ⟨hnode, hst⟩ := hcompleted.row h.consistent.sound (hrows.mem_iff.1 hr)
    exact ⟨hst, fun u hlater => ⟨r, (later_preserves h hlater).terminal.node e _ r hnode (.inl hst), hst, rfl⟩⟩
  · obtain ⟨rows', hrows', hanswer⟩ := hget.of_completed h hlater hcompleted
    exact ⟨rows'.map nodeResult, hanswer, (hrows'.trans hrows.symm).map _⟩

/-- Any read of an execution, at any two points of any run: results are published exactly if the
execution is completed, they are complete and final, and no inconsistency is ever reported. -/
theorem results_final (hs : Reachable cfg intake s) (hget : Gets cfg intake e s t (some answer)) :
    s.system.db.getExecutionById e = some answer.execution ∧ answer.message ≠ some inconsistent ∧
      (answer.results.isSome ↔ answer.execution.status = .completed) ∧
      ∀ results, answer.results = some results → Published cfg intake e s answer.execution results := by
  have h : Upheld cfg s.system := later_upheld System.upheld_init hs
  obtain ⟨x, hx⟩ : ∃ x, s.system.db.getExecutionById e = some x := by
    obtain ⟨-, rows, -, hanswer⟩ := hget
    cases hx : s.system.db.getExecutionById e with
    | none => simp [WorkflowExecutionResultsService.get, WorkflowExecutionStatusService.get, hx] at hanswer
    | some x => exact ⟨x, rfl⟩
  by_cases hst : x.status = .completed
  · obtain ⟨w, hcompleted⟩ := exists_completed h hx hst
    obtain ⟨rows, hrows, hanswer⟩ := hget.of_completed h .start hcompleted
    cases hanswer
    refine ⟨hx, nofun, by simp [hst], fun results hresults => ?_⟩
    cases hresults
    exact published_of_completed h hcompleted hrows
  · obtain ⟨-, rows, -, hanswer⟩ := hget
    obtain ⟨hexecution, hresults, hmessage⟩ := get_of_not_completed hx hst hanswer.symm
    refine ⟨hexecution ▸ hx, hmessage, by simp [hresults, hexecution, hst], fun results hsome => ?_⟩
    rw [hresults] at hsome
    cases hsome

/-- `fetch` and then `report`, both completed. -/
def chainCompleted : OpenSystem :=
  ⟨System.reached System.sampleConfig (System.fetched (.success (.obj [("total", .int 3)])) ++
    ([.readReady 0, .dispatchNode 0 0, .finishDispatch 0, .acknowledge 0, .publishRow (createTaskId (.v4 1) "report"),
      .deliverTask "worker"] : List System.Action) ++
    List.replicate 7 (System.Action.work 0 (.success (.str "3"))) ++
    ([.deliverCompletion "orchestrator", .handle 0] : List System.Action)), []⟩

/-- The nodes are read later, and the last one first. -/
theorem results_final_chain :
    let x : WorkflowExecutionRecord := ⟨.v4 1, .v4 0, .completed, [], 0, some 0, some 0⟩
    let results : List WorkflowNodeResult :=
      [⟨"report", .completed, .str "3", none, none, 0, some 0, some 0⟩,
        ⟨"fetch", .completed, .obj [("total", .int 3)], none, none, 0, some 0, some 0⟩]
    ∃ t, step System.sampleConfig sampleIntake chainCompleted (.own (.tick 5)) = some t ∧
      Gets System.sampleConfig sampleIntake (.v4 1) chainCompleted t (some ⟨x, none, some results⟩) ∧
      Published System.sampleConfig sampleIntake (.v4 1) chainCompleted x results := by
  intro x results
  obtain ⟨t, ht⟩ : ∃ t, step System.sampleConfig sampleIntake chainCompleted (.own (.tick 5)) = some t :=
    Option.isSome_iff_exists.1 (by decide +kernel)
  have hget : Gets System.sampleConfig sampleIntake (.v4 1) chainCompleted t (some ⟨x, none, some results⟩) := by
    refine ⟨.next _ .start trivial ht, _, List.reverse_perm _, ?_⟩
    have hrows : (step System.sampleConfig sampleIntake chainCompleted (.own (.tick 5))).map (fun t =>
        WorkflowExecutionResultsService.get (.v4 1) chainCompleted.system.db
          (t.system.db.getNodeExecutionsForExecution (.v4 1)).reverse) = some (some ⟨x, none, some results⟩) := by
      decide +kernel
    rw [ht] at hrows
    exact (Option.some.inj hrows).symm
  have hreachable : Reachable System.sampleConfig sampleIntake chainCompleted :=
    later_own (s := init) (System.reachable_reached _ _)
  exact ⟨t, ht, hget, (results_final hreachable hget).2.2.2 results rfl⟩

end OpenSystem

end WorkflowEngine
