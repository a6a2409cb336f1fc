import WorkflowEngine.Determinism
import WorkflowEngine.ExecutionResults

/-!
# The sequential interpreter

What a workflow computes, without tables, streams or processes. A node is evaluated after its
dependencies: a failed one takes the node with it, otherwise the templates are resolved and the
handler is called until it succeeds or the attempts are used up. Whatever the orchestrators and
workers have ended, in any state of any run, is what the interpreter says.
-/
namespace WorkflowEngine

open Database

/-- What becomes of a node. A node whose templates do not resolve, and all that wait for it, stay pending. -/
structure NodeOutcome where
  status : NodeExecutionStatus
  outputData : Json
  resolvedInput : Option (Dict Json)
  attempts : Nat
  deriving DecidableEq, Repr

/-- What an execution is computed from. -/
structure Interpreter where
  strFloat : Rat → String
  maxAttempts : Nat
  handler : Handler
  nodes : List WorkflowNode
  inputData : Dict Json

namespace Interpreter

/-- A node that was never started. -/
def unstarted (status : NodeExecutionStatus) : NodeOutcome := ⟨status, .obj [], none, 0⟩

/-- The attempts from `number` on, at most `left` of them: the last one and the output if it succeeds. -/
def attempt (answer : Nat → System.HandlerOutcome) : Nat → Nat → Nat × Option Json
  | 0, number => (number - 1, none)
  | left + 1, number =>
    match answer number with
    | .success output => (number, some output)
    | .failure _ _ => attempt answer left (number + 1)

/-- The outputs of the completed dependencies, in workflow order. -/
def outputs (p : Interpreter) (done : String → NodeOutcome) (n : WorkflowNode) : Dict Json :=
  (p.nodes.map (·.id)).filterMap fun i =>
    if i ∈ n.dependencies then
      if (done i).status = .completed then some (i, (done i).outputData) else none
    else none

/-- One node, from what has become of its dependencies. -/
def evaluate (p : Interpreter) (done : String → NodeOutcome) (n : WorkflowNode) : NodeOutcome :=
  if n.dependencies.any fun d => decide ((done d).status = .failed) then unstarted .failed
  else if n.dependencies.all fun d => decide ((done d).status = .completed) then
    match NodeInputResolver.resolve p.strFloat n p.inputData (p.outputs done n) with
    | .error _ => unstarted .pending
    | .ok input =>
      match attempt (fun number => p.handler n.id number input) p.maxAttempts 1 with
      | (number, some output) => ⟨.completed, output, some input, number⟩
      | (number, none) => ⟨.failed, .null, some input, number⟩
  else unstarted .pending

/-- One round over all nodes. -/
def round (p : Interpreter) (done : String → NodeOutcome) (i : String) : NodeOutcome :=
  match p.nodes.find? fun n => decide (n.id = i) with
  | none => unstarted .pending
  | some n => p.evaluate done n

/-- What becomes of every node, after as many rounds as there are nodes. -/
def result (p : Interpreter) : String → NodeOutcome := p.round^[p.nodes.length] fun _ => unstarted .pending

/-- What becomes of the execution. Nobody ends one without nodes. -/
def status (p : Interpreter) : WorkflowExecutionStatus :=
  if p.nodes.any fun n => decide ((p.result n.id).status = .failed) then .failed
  else if !p.nodes.isEmpty && p.nodes.all fun n => decide ((p.result n.id).status = .completed) then .completed
  else .running

variable {p : Interpreter} {w : Workflow} {n : WorkflowNode} {answer : Nat → System.HandlerOutcome}

/-! ## Attempts -/

theorem attempt_succeeds {output : Json} {k : Nat} (success : answer k = .success output) :
    ∀ left number, number ≤ k → k < number + left → (∀ j, number ≤ j → j < k → (answer j).Fails) →
      attempt answer left number = (k, some output) := by
  intro left
  induction left with
  | zero => intro number hle hlt _; omega
  | succ left ih =>
    intro number hle hlt before
    rcases Nat.lt_or_eq_of_le hle with hlt' | rfl
    · have hfails := before number le_rfl hlt'
      cases hanswer : answer number with
      | success output => rw [hanswer] at hfails; cases hfails
      | failure message type =>
        simp only [attempt, hanswer]
        exact ih (number + 1) hlt' (by omega) fun j hj => before j (by omega)
    · simp only [attempt, success]

theorem attempt_fails : ∀ left number, 1 ≤ number → (∀ j, number ≤ j → j < number + left → (answer j).Fails) →
    attempt answer left number = (number + left - 1, none) := by
  intro left
  induction left with
  | zero => exact fun number _ _ => rfl
  | succ left ih =>
    intro number hpos hall
    have hfails := hall number le_rfl (by omega)
    cases hanswer : answer number with
    | success output => rw [hanswer] at hfails; cases hfails
    | failure message type =>
      simp only [attempt, hanswer]
      rw [ih (number + 1) (by omega) fun j hj hlt => hall j (by omega) (by omega)]
      congr 1
      omega

/-! ## The rounds -/

theorem outputs_congr {f g : String → NodeOutcome} (h : ∀ d ∈ n.dependencies, f d = g d) :
    p.outputs f n = p.outputs g n := by
  refine List.filterMap_congr fun i _ => ?_
  split
  · rename_i hi
    rw [h i hi]
  · rfl

theorem evaluate_congr {f g : String → NodeOutcome} (h : ∀ d ∈ n.dependencies, f d = g d) :
    p.evaluate f n = p.evaluate g n := by
  have hfailed : (n.dependencies.any fun d => decide ((f d).status = .failed)) =
      n.dependencies.any fun d => decide ((g d).status = .failed) := by
    rw [Bool.eq_iff_iff, List.any_eq_true, List.any_eq_true]
    exact exists_congr fun d => and_congr_right fun hd => by rw [h d hd]
  have hcompleted : (n.dependencies.all fun d => decide ((f d).status = .completed)) =
      n.dependencies.all fun d => decide ((g d).status = .completed) := by
    rw [Bool.eq_iff_iff, List.all_eq_true, List.all_eq_true]
    exact forall₂_congr fun d hd => by rw [h d hd]
  rw [evaluate, evaluate, hfailed, hcompleted, outputs_congr h]

theorem find_node (hwell : w.WellFormed) (hn : n ∈ w.nodes) :
    (w.nodes.find? fun m => decide (m.id = n.id)) = some n := by
  cases hfind : w.nodes.find? fun m => decide (m.id = n.id) with
  | none => exact absurd (List.find?_eq_none.1 hfind n hn) (by simp)
  | some m =>
    have hid : m.id = n.id := by simpa using List.find?_some hfind
    rw [hwell.node_ext (List.mem_of_find?_eq_some hfind) hn hid]

theorem round_node (hwell : w.WellFormed) (hnodes : p.nodes = w.nodes) (hn : n ∈ w.nodes)
    (done : String → NodeOutcome) :
    p.round done n.id = p.evaluate done n := by
  simp only [round, hnodes, find_node hwell hn]

/-- The interpreter evaluates every node from what it says about the dependencies. -/
theorem result_node (hwell : w.WellFormed) (hnodes : p.nodes = w.nodes) (hn : n ∈ w.nodes) :
    p.result n.id = p.evaluate p.result n := by
  obtain ⟨rank, hranked⟩ := hwell.ranked
  have hlocal : Ranked.Local w.nodeIds w.DependsOn p.round := by
    intro i hi f g hfg
    obtain ⟨m, hm, rfl⟩ := Workflow.mem_nodeIds.1 hi
    rw [round_node hwell hnodes hm, round_node hwell hnodes hm]
    exact evaluate_congr fun d hd => hfg d ((hwell.dependsOn_iff hm).2 hd)
  have hfixed := hranked.iterate_fixed hlocal (fun _ => unstarted .pending) n.id (Workflow.mem_nodeIds.2 ⟨n, hn, rfl⟩)
  have hlength : w.nodeIds.length = p.nodes.length := by rw [Workflow.nodeIds, List.length_map, hnodes]
  rw [hlength] at hfixed
  exact hfixed.symm.trans (round_node hwell hnodes hn _)

/-- A failed dependency takes the node with it. -/
theorem evaluate_of_failed {done : String → NodeOutcome} {d : String} (hd : d ∈ n.dependencies)
    (hfailed : (done d).status = .failed) : p.evaluate done n = unstarted .failed :=
  if_pos (List.any_eq_true.2 ⟨d, hd, decide_eq_true hfailed⟩)

/-- Completed dependencies give the node its input. -/
theorem evaluate_of_completed {done : String → NodeOutcome} {input : Dict Json}
    (hdeps : ∀ d ∈ n.dependencies, (done d).status = .completed)
    (hresolve : NodeInputResolver.resolve p.strFloat n p.inputData (p.outputs done n) = .ok input) :
    p.evaluate done n = match attempt (fun number => p.handler n.id number input) p.maxAttempts 1 with
      | (number, some output) => ⟨.completed, output, some input, number⟩
      | (number, none) => ⟨.failed, .null, some input, number⟩ := by
  have hnone : (n.dependencies.any fun d => decide ((done d).status = .failed)) = false :=
    List.any_eq_false.2 fun d hd => by simp [hdeps d hd]
  have hall : (n.dependencies.all fun d => decide ((done d).status = .completed)) = true :=
    List.all_eq_true.2 fun d hd => decide_eq_true (hdeps d hd)
  simp only [evaluate, hnone, hall, hresolve, Bool.false_eq_true, if_false, if_true]

end Interpreter

namespace System

variable {cfg : Config} {handler : Handler} {s t : System} {e : Uuid} {i : String} {x : WorkflowExecutionRecord}
  {w : Workflow} {n : WorkflowNode}

/-- The interpreter of an execution. -/
def interpreter (cfg : Config) (handler : Handler) (x : WorkflowExecutionRecord) (w : Workflow) : Interpreter :=
  ⟨cfg.strFloat, cfg.policy.maxAttempts, handler, w.nodes, x.inputData⟩

/-- The rows of the node and of its task say what the interpreter says. -/
structure EndsAs (s : System) (e : Uuid) (i : String) (outcome : NodeOutcome) : Prop where
  status : s.db.status e i = outcome.status
  output : s.db.outputOf e i = some outcome.outputData
  input : s.db.inputOf e i = outcome.resolvedInput
  attempts : s.db.attemptCount e i = outcome.attempts

/-- Where the dependencies have ended as the interpreter says, a dispatch reads its outputs. -/
theorem outputs_eq {done : String → NodeOutcome} (hs : s.db.Sound) (hx : s.db.getExecutionById e = some x)
    (hw : s.db.getWorkflowById x.workflowId = some w) (hdeps : ∀ d ∈ n.dependencies, s.db.status e d = .completed)
    (hdone : ∀ d ∈ n.dependencies, EndsAs s e d (done d)) :
    (interpreter cfg handler x w).outputs done n =
      completedDependencyOutputs e n (s.db.getNodeExecutionsForExecution e) := by
  rw [dependencyOutputs_eq hs hx hw]
  refine List.filterMap_congr fun i _ => ?_
  split
  · rename_i hi
    have hst := (hdone i hi).status.symm.trans (hdeps i hi)
    rw [completedOutput_eq, hdeps i hi, (hdone i hi).output]
    simp [hst]
  · rfl

theorem NodeEnd.endsAs {done : String → NodeOutcome} (h : NodeEnd cfg handler s e x n) (hs : s.db.Sound)
    (hx : s.db.getExecutionById e = some x) (hw : s.db.getWorkflowById x.workflowId = some w)
    (hdone : ∀ d ∈ n.dependencies, s.db.Ended e d → EndsAs s e d (done d)) :
    EndsAs s e n.id ((interpreter cfg handler x w).evaluate done n) := by
  have hinput : ∀ {given : Dict Json}, (∀ d ∈ n.dependencies, s.db.status e d = .completed) →
      inputFor cfg.strFloat s.db e x n = .ok given →
      (∀ d ∈ n.dependencies, (done d).status = .completed) ∧
        NodeInputResolver.resolve cfg.strFloat n x.inputData ((interpreter cfg handler x w).outputs done n) =
        .ok given := by
    intro given deps resolves
    have hends : ∀ d ∈ n.dependencies, EndsAs s e d (done d) := fun d hd => hdone d hd (.inl (deps d hd))
    refine ⟨fun d hd => (hends d hd).status.symm.trans (deps d hd), ?_⟩
    rw [outputs_eq hs hx hw deps hends]
    exact resolves
  cases h with
  | blocked dep dep_failed status output input attempts =>
    rw [Interpreter.evaluate_of_failed dep ((hdone _ dep (.inr dep_failed)).status.symm.trans dep_failed)]
    exact ⟨status, output, input, attempts⟩
  | @succeeded given k result deps resolves bounds before success status output input attempts =>
    obtain ⟨hdeps, hresolve⟩ := hinput deps resolves
    have hattempt :
        Interpreter.attempt (fun number => handler n.id number given) cfg.policy.maxAttempts 1 = (k, some result) :=
      Interpreter.attempt_succeeds success _ _ bounds.1 (by omega) before
    rw [Interpreter.evaluate_of_completed (p := interpreter cfg handler x w) hdeps hresolve]
    simp only [interpreter, hattempt]
    exact ⟨status, output, input, attempts⟩
  | @exhausted given deps resolves fails status output input attempts =>
    obtain ⟨hdeps, hresolve⟩ := hinput deps resolves
    have hattempt : Interpreter.attempt (fun number => handler n.id number given) cfg.policy.maxAttempts 1 =
        (cfg.policy.maxAttempts, none) := by
      rw [Interpreter.attempt_fails _ _ le_rfl fun j hj hlt => fails j hj (by omega)]
      congr 1
      omega
    rw [Interpreter.evaluate_of_completed (p := interpreter cfg handler x w) hdeps hresolve]
    simp only [interpreter, hattempt]
    exact ⟨status, output, input, attempts⟩

/-- Nodes that have ended have ended as the interpreter says, from their dependencies on. -/
theorem Answered.endsAs (h : Answered e handler s) (hr : Reachable cfg anyStep s)
    (hx : s.db.getExecutionById e = some x) (hw : s.db.getWorkflowById x.workflowId = some w) (hwell : w.WellFormed) :
    ∀ n ∈ w.nodes, s.db.Ended e n.id → EndsAs s e n.id ((interpreter cfg handler x w).result n.id) := by
  obtain ⟨rank, hrank⟩ := hwell.acyclic
  suffices hall : ∀ k, ∀ n ∈ w.nodes, rank n.id = k → s.db.Ended e n.id →
      EndsAs s e n.id ((interpreter cfg handler x w).result n.id) from fun n hn => hall _ n hn rfl
  intro k
  induction k using Nat.strong_induction_on with
  | _ k ih =>
    intro n hn hk hended
    rw [Interpreter.result_node hwell rfl hn]
    refine (h.nodeEnd hr hx hw hwell hn hended).endsAs (reachable_consistent hr).sound hx hw fun d hd hdended => ?_
    obtain ⟨m, hm, rfl⟩ := Workflow.mem_nodeIds.1 (hwell.known n hn d hd)
    exact ih (rank m.id) (hk ▸ hrank n hn m.id hd) m hm rfl hdended

/-! ## The execution -/

theorem interpreter_failed (hn : n ∈ w.nodes) (h : ((interpreter cfg handler x w).result n.id).status = .failed) :
    (interpreter cfg handler x w).status = .failed :=
  if_pos (List.any_eq_true.2 ⟨n, hn, decide_eq_true h⟩)

theorem interpreter_completed (h : ∀ n ∈ w.nodes, ((interpreter cfg handler x w).result n.id).status = .completed) :
    (interpreter cfg handler x w).status = if w.nodes = [] then .running else .completed := by
  have hany : (w.nodes.any fun n => decide (((interpreter cfg handler x w).result n.id).status = .failed)) = false :=
    List.any_eq_false.2 fun n hn => by simp [h n hn]
  have hall : (w.nodes.all fun n => decide (((interpreter cfg handler x w).result n.id).status = .completed)) = true :=
    List.all_eq_true.2 fun n hn => decide_eq_true (h n hn)
  have hnodes : (interpreter cfg handler x w).nodes = w.nodes := rfl
  rw [Interpreter.status, hnodes, hany, hall]
  cases w.nodes <;> rfl

/-- What an ended execution has ended with. -/
theorem ended_status (hrun : DependencyRun.Consistent w.nodeIds w.DependsOn (s.db.run e))
    (hx : s.db.getExecutionById e = some x)
    (hends : ∀ n ∈ w.nodes, s.db.Ended e n.id → EndsAs s e n.id ((interpreter cfg handler x w).result n.id))
    (hended : x.status = .completed ∨ x.status = .failed) : (interpreter cfg handler x w).status = x.status := by
  have hst : (s.db.run e).status = x.status := run_status hx
  rcases hended with hcompleted | hfailed
  · have hne := hrun.completed_nonempty (hst.trans hcompleted)
    have hall : ∀ n ∈ w.nodes, s.db.status e n.id = .completed := fun n hn =>
      hrun.completed_sound (hst.trans hcompleted) n.id (Workflow.mem_nodeIds.2 ⟨n, hn, rfl⟩)
    rw [interpreter_completed fun n hn => (hends n hn (.inl (hall n hn))).status.symm.trans (hall n hn), hcompleted,
      if_neg fun hnil => hne (by rw [Workflow.nodeIds, hnil, List.map_nil])]
  · obtain ⟨i, hi, hdown⟩ := hrun.failed_sound (hst.trans hfailed)
    obtain ⟨n, hn, rfl⟩ := Workflow.mem_nodeIds.1 hi
    rw [interpreter_failed hn ((hends n hn (.inr hdown)).status.symm.trans hdown), hfailed]

/-- The results of a completed execution are the outputs of the interpreter. -/
theorem results_as_interpreted {rows : List NodeExecutionRecord} (hs : s.db.Sound) (hcompleted : Completed s.db e x w)
    (hends : ∀ n ∈ w.nodes, s.db.Ended e n.id → EndsAs s e n.id ((interpreter cfg handler x w).result n.id))
    (hrows : rows.Perm (s.db.getNodeExecutionsForExecution e)) :
    ((rows.map WorkflowExecutionResultsService.nodeResult).map fun r => (r.nodeId, r.outputData)).Perm
      (w.nodes.map fun n => (n.id, ((interpreter cfg handler x w).result n.id).outputData)) := by
  have hrow : ∀ r ∈ s.db.getNodeExecutionsForExecution e,
      (r.nodeId, r.outputData) = (r.nodeId, ((interpreter cfg handler x w).result r.nodeId).outputData) := by
    intro r hr
    obtain ⟨hnode, hst⟩ := hcompleted.row hs hr
    obtain ⟨n, hn, hid⟩ := Workflow.mem_nodeIds.1 (hcompleted.rows ▸ List.mem_map_of_mem hr)
    have houtput := (hends n hn (.inl (hid ▸ (status_of_node hnode).trans hst))).output
    rw [hid, outputOf, hnode] at houtput
    exact congrArg (Prod.mk r.nodeId) (Option.some.inj houtput)
  have hmap := congrArg (List.map fun i => (i, ((interpreter cfg handler x w).result i).outputData)) hcompleted.rows
  rw [List.map_map, Workflow.nodeIds, List.map_map] at hmap
  rw [List.map_map]
  exact (hrows.map _).trans (List.Perm.of_eq ((List.map_congr_left hrow).trans hmap))

/-- In every state of every run whose handlers answer the function, whatever crashes, comes late or
is delivered again: a node that has ended has ended as the interpreter says, so has an execution,
and the results that are published are the outputs of the interpreter. -/
theorem engine_refines_interpreter (h : Reachable cfg (fun s a => answers e handler s a = true) s)
    (hx : s.db.getExecutionById e = some x) (hw : s.db.getWorkflowById x.workflowId = some w) :
    (∀ n ∈ w.nodes, s.db.Ended e n.id → EndsAs s e n.id ((interpreter cfg handler x w).result n.id)) ∧
      (x.status = .completed ∨ x.status = .failed → (interpreter cfg handler x w).status = x.status) ∧
      ∀ (rows : List NodeExecutionRecord) answer results, rows.Perm (s.db.getNodeExecutionsForExecution e) →
        WorkflowExecutionResultsService.get e s.db rows = some answer → answer.results = some results →
        (results.map fun r => (r.nodeId, r.outputData)).Perm
          (w.nodes.map fun n => (n.id, ((interpreter cfg handler x w).result n.id).outputData)) := by
  have hr : Reachable cfg anyStep s := h.mono fun _ _ _ => trivial
  have hc := reachable_consistent hr
  obtain ⟨w', hw', hwell, hrun⟩ := hc.workflow hx
  obtain rfl : w = w' := Option.some.inj (hw.symm.trans hw')
  have hends := (reachable_answered h fun _ _ ha => ha).endsAs hr hx hw hwell
  refine ⟨hends, ended_status hrun hx hends, fun rows answer results hrows hanswer hresults => ?_⟩
  by_cases hst : x.status = .completed
  · obtain ⟨w₁, hw₁, -, hids⟩ := hc.sound.workflow e x hx
    cases hw.symm.trans hw₁
    have hcompleted : Completed s.db e x w :=
      ⟨hx, hst, hw, hwell.nodup, hids, hrun.completed_sound ((run_status hx).trans hst)⟩
    rw [WorkflowExecutionResultsService.get_of_completed hx hst
      fun r hr => (hcompleted.row hc.sound (hrows.mem_iff.1 hr)).2] at hanswer
    cases hanswer
    cases hresults
    exact results_as_interpreted hc.sound hcompleted hends hrows
  · have hnone := (WorkflowExecutionResultsService.get_of_not_completed hx hst hanswer).2.1
    rw [hnone] at hresults
    cases hresults

/-- `fetch` answers with a total and `report` with what it has been given. -/
def totals : Handler :=
  fun i _ input => if i = "fetch" then .success (.obj [("total", .int 3)]) else .success (.obj input)

/-- Both nodes have been completed, and the completion of `report` comes once more. -/
def chainReported : System :=
  reachedUnder sampleConfig (answers (.v4 1) totals)
    (fetched (.success (.obj [("total", .int 3)])) ++
      ([.readReady 0, .dispatchNode 0 0, .finishDispatch 0, .acknowledge 0,
        .publishRow (createTaskId (.v4 1) "report"), .deliverTask "worker"] : List Action) ++
      List.replicate 7 (Action.work 0 (.success (.obj [("fetch", .obj [("total", .int 3)])]))) ++
      ([.deliverCompletion "orchestrator", .handle 0, .redeliver .completion 1, .handle 1] : List Action))

theorem engine_refines_interpreter_chain :
    EndsAs chainReported (.v4 1) "report"
      ⟨.completed, .obj [("fetch", .obj [("total", .int 3)])], some [("fetch", .obj [("total", .int 3)])], 1⟩ := by
  let x : WorkflowExecutionRecord := ⟨.v4 1, .v4 0, .completed, [], 0, some 0, some 0⟩
  let report : WorkflowNode := ⟨"report", "output", ["fetch"], []⟩
  let w : Workflow := ⟨.v4 0, "sample", [⟨"fetch", "input", [], []⟩, report]⟩
  have hrun :
      chainReported.db.getExecutionById (.v4 1) = some x ∧ chainReported.db.getWorkflowById x.workflowId = some w ∧
      chainReported.db.Ended (.v4 1) "report" := by
    unfold Ended
    decide +kernel
  have hresult : (interpreter sampleConfig totals x w).result report.id =
      ⟨.completed, .obj [("fetch", .obj [("total", .int 3)])], some [("fetch", .obj [("total", .int 3)])], 1⟩ := by
    decide +kernel
  rw [← hresult]
  exact (engine_refines_interpreter (reachable_reachedUnder _ _ _) hrun.1 hrun.2.1).1 report
    (.tail _ (.head _)) hrun.2.2

/-- At rest, everything has ended, so everything is as the interpreter says. -/
theorem Rests.interpreted (h : Rests cfg handler s e x w) :
    (∀ n ∈ w.nodes, EndsAs s e n.id ((interpreter cfg handler x w).result n.id)) ∧
      (interpreter cfg handler x w).status = x.status := by
  have hanswered : Answered e handler s := reachable_answered h.run fun s a ha => by
    simp only [Bool.and_eq_true] at ha
    exact ha.2.2.2
  have hends := hanswered.endsAs h.reachable h.execution h.workflow h.consistent.1
  refine ⟨fun n hn => hends n hn (h.ended n hn), ?_⟩
  rcases h.status with ⟨hnil, hst⟩ | ⟨-, -, hst⟩ | ⟨-, hst⟩
  · rw [interpreter_completed (by simp [hnil]), if_pos hnil, hst]
  · exact ended_status h.consistent.2 h.execution hends (.inl hst)
  · exact ended_status h.consistent.2 h.execution hends (.inr hst)

end System

end WorkflowEngine
