import WorkflowEngine.RetryChains
import WorkflowEngine.Transitions

/-!
# Outputs and inputs of nodes

Where the output of a node comes from, and what its task was given. An output is written once,
with the completion of its node, so the dependencies' outputs from which an input was resolved
are those in the rows for ever after.
-/
namespace WorkflowEngine

open Database

namespace Database

variable {db db' : Database} {e : Uuid} {i : String}

/-- The output of a completed node. -/
def completedOutput (db : Database) (e : Uuid) (i : String) : Option Json :=
  (db.node e i).bind fun r => if r.status = .completed then some r.outputData else none

/-- The outputs a dispatch reads, in workflow order. -/
theorem dependencyOutputs_eq (hs : db.Sound) {x : WorkflowExecutionRecord} {w : Workflow}
    (hx : db.getExecutionById e = some x) (hw : db.getWorkflowById x.workflowId = some w) (n : WorkflowNode) :
    completedDependencyOutputs e n (db.getNodeExecutionsForExecution e) = w.nodeIds.filterMap fun i =>
      if i ∈ n.dependencies then (db.completedOutput e i).map fun output => (i, output) else none := by
  obtain ⟨w', hw', -, hids⟩ := hs.workflow e x hx
  obtain rfl : w = w' := Option.some.inj (hw.symm.trans hw')
  rw [← hids, completedDependencyOutputs, List.filterMap_map, ← List.filterMap_eq_map, List.filterMap_filter]
  refine List.filterMap_congr fun r hr => ?_
  obtain ⟨hmem, hexecution⟩ := List.mem_filter.1 hr
  have hexecution : r.workflowExecutionId = e := of_decide_eq_true hexecution
  have hnode : db.node e r.nodeId = some r := by
    have := hs.nodes_keyed.lookup hmem
    rwa [nodeKey, hexecution] at this
  by_cases hdep : r.nodeId ∈ n.dependencies
  · by_cases hst : r.status = .completed
    · simp [completedOutput, hnode, hexecution, hdep, hst]
    · simp [completedOutput, hnode, hexecution, hdep, hst]
  · simp [hdep]

/-- How a node's row can change in a step. -/
inductive RowChange (events : List TaskCompletionEvent) (e : Uuid) (i : String) (r r' : NodeExecutionRecord) :
    Prop where
  | same (status : r'.status = r.status) (output : r'.outputData = r.outputData)
  | started (pending : r.status = .pending) (status : r'.status = .running) (output : r'.outputData = r.outputData)
  | completed {event : TaskCompletionEvent} (mem : event ∈ events) (execution : event.executionId = e)
      (node : event.nodeId = i) (reports : event.status = .completed) (running : r.status = .running)
      (status : r'.status = .completed) (output : r'.outputData = event.outputData)
  | failed (running : r.status = .running) (status : r'.status = .failed) (output : r'.outputData = .null)
  | blocked (pending : r.status = .pending) (status : r'.status = .failed) (output : r'.outputData = r.outputData)

theorem processed_rowChange {policy : RetryPolicy} {event : TaskCompletionEvent} {next : Uuid} {now : Time}
    {decision : TaskCompletionDecision} (h : Processed policy event next now db decision db')
    {events : List TaskCompletionEvent} (hmem : event ∈ events) {r' : NodeExecutionRecord}
    (hr' : db'.node e i = some r') :
    ∃ r, db.node e i = some r ∧ RowChange events e i r r' := by
  cases h with
  | early _ consult => exact ⟨r', consult.sameRuns.node ▸ hr', .same rfl rfl⟩
  | late _ _ consult => exact ⟨r', consult.sameRuns.node ▸ hr', .same rfl rfl⟩
  | @completed existing _ db₁ _ x w node running status execution workflow consult ends run =>
    obtain ⟨r, hr, houtput⟩ := ends.output e i r' hr'
    rw [consult.sameRuns.node] at hr
    refine ⟨r, hr, ?_⟩
    by_cases he : e = event.executionId
    · subst he
      have hst : db'.status event.executionId =
          Function.update (db.status event.executionId) event.nodeId .completed :=
        (congrArg DependencyRun.nodes run).trans DependencyRun.settle_nodes
      by_cases hi : i = event.nodeId
      · subst hi
        rw [node] at hr
        cases hr
        refine .completed hmem rfl rfl status running ?_ (by rw [houtput, if_pos ⟨rfl, rfl⟩])
        rw [← status_of_node hr', hst, Function.update_self]
      · refine .same ?_ (by rw [houtput, if_neg (fun h => hi h.2)])
        rw [← status_of_node hr', hst, Function.update_of_ne hi, status_of_node hr]
    · refine .same ?_ (by rw [houtput, if_neg (fun h => he h.1)])
      have hrun : db'.status e = db.status e :=
        congrArg DependencyRun.nodes ((ends.others e he).trans consult.sameRuns.run)
      rw [← status_of_node hr', hrun, status_of_node hr]
  | @failed existing _ db₁ _ x w node running status execution workflow consult ends run =>
    obtain ⟨r, hr, houtput⟩ := ends.output e i r' hr'
    rw [consult.sameRuns.node] at hr
    refine ⟨r, hr, ?_⟩
    by_cases he : e = event.executionId
    · subst he
      have hst : db'.status event.executionId =
          DependencyRun.failFrom w.DependsOn (db.status event.executionId) event.nodeId :=
        (congrArg DependencyRun.nodes run).trans DependencyRun.settle_nodes
      by_cases hi : i = event.nodeId
      · subst hi
        rw [node] at hr
        cases hr
        refine .failed running ?_ (by rw [houtput, if_pos ⟨rfl, rfl⟩])
        rw [← status_of_node hr', hst, DependencyRun.failFrom, if_pos (.inl rfl)]
      · have houtput : r'.outputData = r.outputData := by rw [houtput, if_neg (fun h => hi h.2)]
        by_cases hfailed : r'.status = .failed
        · have hfrom := hfailed
          rw [← status_of_node hr', hst] at hfrom
          rcases DependencyRun.failFrom_failed hfrom with hself | hdown | hold
          · exact absurd hself hi
          · exact .blocked ((status_of_node hr).symm.trans hdown.pending) hfailed houtput
          · exact .same (hfailed.trans (hold.symm.trans (status_of_node hr))) houtput
        · refine .same ?_ houtput
          have hne : DependencyRun.failFrom w.DependsOn (db.status event.executionId) event.nodeId i ≠ .failed := by
            rw [← hst, status_of_node hr']
            exact hfailed
          rw [← status_of_node hr', hst, (DependencyRun.failFrom_of_ne hne).2.2, status_of_node hr]
    · refine .same ?_ (by rw [houtput, if_neg (fun h => he h.1)])
      have hrun : db'.status e = db.status e :=
        congrArg DependencyRun.nodes ((ends.others e he).trans consult.sameRuns.run)
      rw [← status_of_node hr', hrun, status_of_node hr]

theorem submitted_row {w : Workflow} {now : Time} {e₀ : Uuid} (hs : db.Sound) (he : db.getExecutionById e₀ = none)
    {r' : NodeExecutionRecord} (hr' : (submitted w e₀ now db).node e i = some r') :
    db.node e i = some r' ∨ (db.node e i = none ∧ r'.status = .pending ∧ r'.outputData = .obj []) := by
  by_cases hne : e = e₀
  · subst hne
    have hold : ∀ r ∈ db.nodeExecutions, r.workflowExecutionId ≠ e := by
      intro r hr hre
      obtain ⟨x, hx⟩ := hs.node_execution r hr
      rw [hre, he] at hx
      cases hx
    obtain ⟨hmem, hre, -⟩ := node_some hr'
    rcases List.mem_append.1 hmem with hmem | hmem
    · exact absurd hre (hold r' hmem)
    · obtain ⟨n, -, rfl⟩ := List.mem_map.1 hmem
      refine .inr ⟨Table.lookup_none.2 fun r hr hkey => hold r hr (congrArg Prod.fst hkey), rfl, rfl⟩
  · rw [submitted_node_ne hne] at hr'
    exact .inl hr'

/-! ## Inputs -/

/-- The input is what the node's templates resolve to, from outputs that are all there. -/
def Resolved (strFloat : Rat → String) (db : Database) (e : Uuid) (i : String) (input : Dict Json) : Prop :=
  ∃ x w n, db.getExecutionById e = some x ∧ x.status ≠ .pending ∧ db.getWorkflowById x.workflowId = some w ∧
    n ∈ w.nodes ∧ n.id = i ∧ (∀ d ∈ n.dependencies, db.status e d = .completed) ∧
    NodeInputResolver.resolve strFloat n x.inputData
      (completedDependencyOutputs e n (db.getNodeExecutionsForExecution e)) = .ok input

theorem KeepsTerminal.completedOutput (h : KeepsTerminal db db') (hst : db.status e i = .completed) :
    db'.completedOutput e i = db.completedOutput e i := by
  obtain ⟨r, hr⟩ : ∃ r, db.node e i = some r := exists_node_of_started (by rw [hst]; decide)
  have hr' := h.node e i r hr (.inl ((status_of_node hr).symm.trans hst))
  rw [Database.completedOutput, Database.completedOutput, hr, hr']

theorem Resolved.later {strFloat : Rat → String} {input : Dict Json} (h : Resolved strFloat db e i input)
    (hs : db.Sound) (hs' : db'.Sound) (hlater : Later db db') (hkeeps : KeepsTerminal db db') :
    Resolved strFloat db' e i input := by
  obtain ⟨x, w, n, hx, hp, hw, hmem, rfl, hdeps, hresolve⟩ := h
  obtain ⟨x', hx', hid, hstill⟩ := hlater.execution e x hx
  obtain ⟨hp', hinput⟩ := hstill hp
  have hw' : db'.getWorkflowById x'.workflowId = some w := by
    rw [hid]
    exact hlater.workflow _ _ hw
  refine ⟨x', w, n, hx', hp', hw', hmem, rfl, fun d hd => hlater.completed e d (hdeps d hd), ?_⟩
  have houtputs : completedDependencyOutputs e n (db'.getNodeExecutionsForExecution e) =
      completedDependencyOutputs e n (db.getNodeExecutionsForExecution e) := by
    rw [dependencyOutputs_eq hs' hx' hw', dependencyOutputs_eq hs hx hw]
    refine List.filterMap_congr fun j _ => ?_
    split
    · rename_i hj
      rw [hkeeps.completedOutput (hdeps j hj)]
    · rfl
  rw [houtputs, hinput]
  exact hresolve

end Database

namespace System

variable {cfg : Config} {s t : System} {a : Action} {e : Uuid} {i : String}

theorem Kind.rowChange (hk : Kind cfg s t) (hc : Consistent s) (hd : Dispatches s) {r' : NodeExecutionRecord}
    (hr' : t.db.node e i = some r') :
    (s.db.node e i = none ∧ r'.status = .pending ∧ r'.outputData = .obj []) ∨
      ∃ r, s.db.node e i = some r ∧ RowChange s.completions.entries e i r r' := by
  cases hk with
  | quiet quiet =>
    rw [node, quiet.nodes] at hr'
    exact .inr ⟨r', hr', .same rfl rfl⟩
  | submit _ _ _ newExecution eq =>
    subst eq
    rcases submitted_row hc.sound newExecution hr' with hold | hnew
    · exact .inr ⟨r', hold, .same rfl rfl⟩
    · exact .inl hnew
  | trigger _ commit eq =>
    subst eq
    obtain ⟨-, rfl⟩ := triggerCommit_ok hc.sound commit
    exact .inr ⟨r', hr', .same rfl rfl⟩
  | process _ entry _ processed eq =>
    subst eq
    exact .inr (processed_rowChange (process_ok hc.sound hc.runs processed).2 (List.mem_of_getElem? entry) hr')
  | @dispatch k j h x nodes n phase result db handling toDispatch node dispatched _ eq =>
    subst eq
    rcases dispatch_cases hc hd handling toDispatch node dispatched with ⟨rfl, -⟩ | ⟨r, input, hnode, hp, -, -, rfl⟩
    · exact .inr ⟨r', hr', .same rfl rfl⟩
    · have hclaim : (s.db.claimPendingNodes x.executionId [n.id] s.now).2.node e i = some r' := hr'
      rw [node_claimPendingNodes] at hclaim
      obtain ⟨r₀, hr₀, rfl⟩ := Option.map_eq_some_iff.1 hclaim
      refine .inr ⟨r₀, hr₀, ?_⟩
      split
      · rename_i hsel
        exact .started hsel.2.2 rfl rfl
      · exact .same rfl rfl
  | evaluate _ _ _ eq =>
    subst eq
    exact .inr ⟨r', hr', .same rfl rfl⟩
  | read _ _ _ eq =>
    subst eq
    exact .inr ⟨r', hr', .same rfl rfl⟩

/-- Where the outputs in the rows come from. A claimed node that fails has had its attempts; a
node that fails with a dependency keeps the empty output it was submitted with. -/
structure Outputs (s : System) : Prop where
  fresh : ∀ e i r, s.db.node e i = some r → r.status = .pending ∨ r.status = .running → r.outputData = .obj []
  completed : ∀ e i r, s.db.node e i = some r → r.status = .completed → ∃ event ∈ s.completions.entries,
    event.executionId = e ∧ event.nodeId = i ∧ event.status = .completed ∧ r.outputData = event.outputData
  failed : ∀ e i r, s.db.node e i = some r → r.status = .failed →
    (s.Claimed e i ∧ r.outputData = .null) ∨ (¬ s.Claimed e i ∧ r.outputData = .obj [])

theorem outputs_init : Outputs init := by
  refine ⟨?_, ?_, ?_⟩ <;> simp [init, Database.empty, node, Table.lookup]

theorem Effect.outputs (heffect : Effect cfg s a t) (hr : Reachable cfg anyStep s) (h : Outputs s) : Outputs t := by
  have hc := reachable_consistent hr
  have hd := reachable_dispatches hr
  have hk := heffect.kind hc.sound
  refine ⟨?_, ?_, ?_⟩
  · intro e i r' hr' hst
    rcases hk.rowChange hc hd hr' with ⟨-, -, houtput⟩ | ⟨r, hnode, hchange⟩
    · exact houtput
    · cases hchange with
      | same status output => exact output.trans (h.fresh e i r hnode (status ▸ hst))
      | started pending _ output => exact output.trans (h.fresh e i r hnode (.inl pending))
      | completed _ _ _ _ _ status => rw [status] at hst; rcases hst with hst | hst <;> cases hst
      | failed _ status => rw [status] at hst; rcases hst with hst | hst <;> cases hst
      | blocked _ status => rw [status] at hst; rcases hst with hst | hst <;> cases hst
  · intro e i r' hr' hst
    rcases hk.rowChange hc hd hr' with ⟨-, hpending, -⟩ | ⟨r, hnode, hchange⟩
    · rw [hst] at hpending
      cases hpending
    · cases hchange with
      | same status output =>
        obtain ⟨event, hmem, he, hi, hreports, hout⟩ := h.completed e i r hnode (status.symm.trans hst)
        exact ⟨event, heffect.completion_mono hmem, he, hi, hreports, output.trans hout⟩
      | completed mem execution node reports _ _ output =>
        exact ⟨_, heffect.completion_mono mem, execution, node, reports, output⟩
      | started _ status => rw [hst] at status; cases status
      | failed _ status => rw [hst] at status; cases status
      | blocked _ status => rw [hst] at status; cases status
  · intro e i r' hr' hst
    have hclaimed : t.Claimed e i ↔ s.Claimed e i := by
      constructor
      · intro ht
        rcases hk.claimed ht with hs | hrunning
        · exact hs
        · rw [status_of_node hr', hst] at hrunning
          cases hrunning
      · exact fun hs => history_mono heffect.history hs
    rw [hclaimed]
    rcases hk.rowChange hc hd hr' with ⟨-, hpending, -⟩ | ⟨r, hnode, hchange⟩
    · rw [hst] at hpending
      cases hpending
    · have hstatus := status_of_node hnode
      cases hchange with
      | same status output => exact output ▸ h.failed e i r hnode (status.symm.trans hst)
      | failed running _ output =>
        rcases hd.node e i with ⟨hc, -⟩ | ⟨-, -, hnot⟩
        · exact .inl ⟨hc, output⟩
        · exact absurd (.inl (hstatus.trans running)) hnot
      | blocked pending _ output =>
        rcases hd.node e i with ⟨-, -, hnot⟩ | ⟨hc, -⟩
        · exact absurd (hstatus.trans pending) hnot
        · exact .inr ⟨hc, output.trans (h.fresh e i r hnode (.inl pending))⟩
      | started _ status => rw [hst] at status; cases status
      | completed _ _ _ _ _ status => rw [hst] at status; cases status

theorem reachable_outputs (h : Reachable cfg anyStep s) : Outputs s :=
  Transition.Reachable.invariant outputs_init (fun _ _ _ hr hs _ ht => (step_effect ht).outputs hr hs) h

/-- A task is known, or its input has just been resolved. -/
theorem Kind.task (hk : Kind cfg s t) (hc : Consistent s) (hd : Dispatches s) {task : LogicalTaskRecord}
    (htask : task ∈ t.db.logicalTasks) : (∃ task₀ ∈ s.db.logicalTasks, task₀.identity = task.identity) ∨
      Resolved cfg.strFloat s.db task.executionId task.nodeId task.resolvedInput := by
  cases hk with
  | quiet quiet => exact .inl ⟨task, quiet.tasks ▸ htask, rfl⟩
  | submit _ _ _ _ eq =>
    subst eq
    exact .inl ⟨task, htask, rfl⟩
  | trigger _ commit eq =>
    subst eq
    obtain ⟨-, rfl⟩ := triggerCommit_ok hc.sound commit
    exact .inl ⟨task, htask, rfl⟩
  | process _ _ _ processed eq =>
    subst eq
    have hsame := (processed_slots (process_ok hc.sound hc.runs processed).2).1
    have hmem := List.mem_map_of_mem (f := (·.identity)) htask
    rw [hsame] at hmem
    obtain ⟨task₀, hmem₀, hid⟩ := List.mem_map.1 hmem
    exact .inl ⟨task₀, hmem₀, hid⟩
  | @dispatch k j h x nodes n phase result db handling toDispatch node dispatched _ eq =>
    subst eq
    rcases dispatch_cases hc hd handling toDispatch node dispatched with
      ⟨rfl, -⟩ | ⟨r, input, hnode, hp, -, hresolve, rfl⟩
    · exact .inl ⟨task, htask, rfl⟩
    · have hmem := List.mem_map_of_mem (f := (·.identity)) htask
      rw [(registered_adds s.db x n input (.v4 s.draws) s.now).tasks] at hmem
      rcases List.mem_append.1 hmem with hmem | hmem
      · obtain ⟨task₀, hmem₀, hid⟩ := List.mem_map.1 hmem
        exact .inl ⟨task₀, hmem₀, hid⟩
      · right
        have hid := List.mem_singleton.1 hmem
        simp only [LogicalTaskRecord.identity, taskRecord, Prod.mk.injEq] at hid
        obtain ⟨-, he, hi, -, -, hin⟩ := hid
        obtain ⟨⟨x', hx', -, -, hinput⟩, hstart⟩ :=
          (hc.supports h (List.mem_of_getElem? handling)).toDispatch x nodes toDispatch
        obtain ⟨x'', w, hx'', hp, hw, hmem, hdeps⟩ := hstart n (List.mem_of_getElem? node)
        rw [hx'] at hx''
        cases hx''
        rw [he, hi, hin]
        exact ⟨x', w, n, hx', hp, hw, hmem, rfl, hdeps, hinput ▸ hresolve⟩
  | evaluate _ _ _ eq =>
    subst eq
    exact .inl ⟨task, htask, rfl⟩
  | read _ _ _ eq =>
    subst eq
    exact .inl ⟨task, htask, rfl⟩

/-- The input of every task is what its node's templates resolve to, from the rows as they are now. -/
theorem reachable_inputs (h : Reachable cfg anyStep s) : ∀ task ∈ s.db.logicalTasks,
    Resolved cfg.strFloat s.db task.executionId task.nodeId task.resolvedInput := by
  refine Transition.Reachable.invariant (P := fun s => ∀ task ∈ s.db.logicalTasks,
    Resolved cfg.strFloat s.db task.executionId task.nodeId task.resolvedInput) ?_ (fun s a t hr hs _ ht => ?_) h
  · simp [init, Database.empty]
  · intro task htask
    have hr : Reachable cfg anyStep s := hr.mono fun _ _ _ => trivial
    have hc := reachable_consistent hr
    have hk := step_kind hc.sound ht
    have hadv := hk.advances hc
    have hkeeps := (step_commit hc.sound ht).moves.keepsTerminal
    rcases hk.task hc (reachable_dispatches hr) htask with ⟨task₀, hmem, hid⟩ | hresolved
    · simp only [LogicalTaskRecord.identity, Prod.mk.injEq] at hid
      obtain ⟨-, he, hi, -, -, hin⟩ := hid
      rw [← he, ← hi, ← hin]
      exact (hs task₀ hmem).later hc.sound hadv.sound hadv.later hkeeps
    · exact hresolved.later hc.sound hadv.sound hadv.later hkeeps

end System

end WorkflowEngine
