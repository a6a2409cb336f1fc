import WorkflowEngine.Answers
import WorkflowEngine.NodeData
import WorkflowEngine.Quiescence

/-!
# The outcome of a workflow

At rest, the end of a node is determined by the ends of its dependencies: the input is what the
templates resolve to, the attempts are those up to the first that succeeds, and a node without
the outputs it needs has never been started. Two runs that answer alike therefore end alike,
whatever the order of deliveries, duplicates and retries was.
-/
namespace WorkflowEngine

open Database

/-- The handler raises. -/
def System.HandlerOutcome.Fails : System.HandlerOutcome → Prop
  | .success _ => False
  | .failure _ _ => True

namespace Database

/-- The persisted output of a node. -/
def outputOf (db : Database) (e : Uuid) (i : String) : Option Json := (db.node e i).map (·.outputData)

/-- The resolved input of a node's task. -/
def inputOf (db : Database) (e : Uuid) (i : String) : Option (Dict Json) :=
  (db.getLogicalTask (createTaskId e i)).map (·.resolvedInput)

/-- The number of attempts of a node's task. -/
def attemptCount (db : Database) (e : Uuid) (i : String) : Nat := (db.attemptsOf (createTaskId e i)).length

end Database

namespace System

variable {cfg : Config} {s : System} {e : Uuid} {i : String} {handler : Handler}

/-! ## Attempts of a claimed node -/

/-- A run of the execution's handlers on its task: `k` attempts, all but the last have failed. -/
structure Attempted (cfg : Config) (handler : Handler) (s : System) (e : Uuid) (i : String) (input : Dict Json)
    (k : Nat) : Prop where
  bounds : 1 ≤ k ∧ k ≤ cfg.policy.maxAttempts
  given : s.db.inputOf e i = some input
  resolved : Resolved cfg.strFloat s.db e i input
  count : s.db.attemptCount e i = k
  number : ∀ r ∈ s.db.attemptsOf (createTaskId e i), r.attemptNumber ≤ k
  issued : ∀ r ∈ s.db.attemptsOf (createTaskId e i), ∃ m, s.db.Issued m ∧ m.attemptId = r.attemptId ∧
    m.executionId = e ∧ m.answer handler = handler i r.attemptNumber input
  closed : ∀ r ∈ s.db.attemptsOf (createTaskId e i), r.failureEventId.isSome → (handler i r.attemptNumber input).Fails
  before : ∀ j, 1 ≤ j → j < k → (handler i j input).Fails

theorem Answered.closed_fails (h : Answered e handler s) (hr : Reachable cfg anyStep s) {r : TaskAttemptRecord}
    (hrow : r ∈ s.db.taskAttempts) (hclosed : r.failureEventId.isSome) {m : NodeTaskMessage} (hm : s.db.Issued m)
    (hid : m.attemptId = r.attemptId) (he : m.executionId = e) : (m.answer handler).Fails := by
  obtain ⟨id, hclosed⟩ := Option.isSome_iff_exists.1 hclosed
  obtain ⟨event, hmem, -, hattempt, hfailed⟩ := reachable_failuresReported hr r hrow id hclosed
  have hanswers := h.entries event hmem m hm (hid.trans hattempt.symm) he
  cases hanswer : m.answer handler with
  | success output =>
    rw [hanswer] at hanswers
    rw [hanswers.1] at hfailed
    cases hfailed
  | failure message type => trivial

theorem Answered.attempted (h : Answered e handler s) (hr : Reachable cfg anyStep s) (hclaimed : s.Claimed e i) :
    ∃ input k, Attempted cfg handler s e i input k := by
  have hd := reachable_dispatches hr
  have hids := reachable_attemptIds hr
  have hnumbered := (reachable_sequences hr).numbered
  obtain ⟨first, hfirst, hfirstTask, htracked⟩ : ∃ r ∈ s.db.taskAttempts, r.taskId = createTaskId e i ∧
      s.db.getLogicalTask (createTaskId e i) ≠ none := by
    rcases hd.node e i with ⟨-, ⟨_, attempt, -, -, -, -, hattempts, -⟩, -⟩ | ⟨hno, -⟩
    · have hmem : attempt ∈ s.db.firstAttemptsOf e i := hattempts ▸ List.mem_singleton.2 rfl
      obtain ⟨hrow, hst⟩ := List.mem_filter.1 hmem
      have htask := (of_decide_eq_true hst).1
      exact ⟨attempt, hrow, htask, (hd.tracked hrow htask).1⟩
    · exact absurd hclaimed hno
  obtain ⟨task, htask⟩ := Option.ne_none_iff_exists'.1 htracked
  obtain ⟨hmem, hid⟩ := logicalTask_some htask
  obtain ⟨he, hi⟩ := createTaskId_injective ((hd.ids task hmem).symm.trans hid)
  obtain ⟨k, hbounds, hperm⟩ := hnumbered.interval hids.keyed ⟨first, hfirst, hfirstTask⟩
  have hissued : ∀ r ∈ s.db.attemptsOf (createTaskId e i), ∃ m, s.db.Issued m ∧ m.attemptId = r.attemptId ∧
      m.executionId = e ∧ m.answer handler = handler i r.attemptNumber task.resolvedInput := by
    intro r hrow
    obtain ⟨hrow, hrtask⟩ := mem_attemptsOf.1 hrow
    refine ⟨⟨r.taskId, r.attemptId, r.attemptNumber, e, i, task.handler, task.handlerConfig, task.resolvedInput⟩,
      ⟨List.mem_map.2 ⟨r, hrow, rfl⟩, List.mem_map.2 ⟨task, hmem, ?_⟩⟩, rfl, rfl, rfl⟩
    simp [LogicalTaskRecord.identity, hid, hrtask, he, hi]
  have hclosed : ∀ r ∈ s.db.attemptsOf (createTaskId e i), r.failureEventId.isSome →
      (handler i r.attemptNumber task.resolvedInput).Fails := by
    intro r hrow hc
    obtain ⟨m, hm, hattempt, hexecution, hanswer⟩ := hissued r hrow
    exact hanswer ▸ h.closed_fails hr (mem_attemptsOf.1 hrow).1 hc hm hattempt hexecution
  have hat : ∀ j, 1 ≤ j → j ≤ k → ∃ r ∈ s.db.attemptsOf (createTaskId e i), r.attemptNumber = j := by
    intro j hj hjk
    have hmem : j ∈ (s.db.attemptsOf (createTaskId e i)).map (·.attemptNumber) :=
      hperm.mem_iff.2 (List.mem_range'_1.2 ⟨hj, by omega⟩)
    exact List.mem_map.1 hmem
  refine ⟨task.resolvedInput, k, hbounds, ?_, ?_, ?_, ?_, hissued, hclosed, ?_⟩
  · rw [inputOf, htask]
    rfl
  · rw [← he, ← hi]
    exact reachable_inputs hr task hmem
  · rw [attemptCount, ← List.length_map (f := (·.attemptNumber))]
    exact hperm.length_eq.trans (List.length_range' ..)
  · intro r hrow
    have := (List.mem_range'_1.1 (hperm.mem_iff.1 (List.mem_map_of_mem hrow))).2
    omega
  · intro j hj hjk
    obtain ⟨r, hrow, rfl⟩ := hat j hj (by omega)
    obtain ⟨last, hlast, hlastNumber⟩ := hat k hbounds.1 (le_refl k)
    obtain ⟨hr₁, ht₁⟩ := mem_attemptsOf.1 hrow
    obtain ⟨hr₂, ht₂⟩ := mem_attemptsOf.1 hlast
    exact hclosed r hrow (hnumbered.closed r hr₁ last hr₂ (ht₁.trans ht₂.symm) (by omega))

/-! ## The end of a node -/

/-- What the node's templates resolve to, from the rows of the execution. -/
def inputFor (strFloat : Rat → String) (db : Database) (e : Uuid) (x : WorkflowExecutionRecord) (n : WorkflowNode) :
    Except PyError (Dict Json) :=
  NodeInputResolver.resolve strFloat n x.inputData
    (completedDependencyOutputs e n (db.getNodeExecutionsForExecution e))

/-- How a node ends: it was never started, one of its attempts was the first that succeeded, or all
of them failed. -/
inductive NodeEnd (cfg : Config) (handler : Handler) (s : System) (e : Uuid) (x : WorkflowExecutionRecord)
    (n : WorkflowNode) : Prop where
  | blocked {d : String} (dep : d ∈ n.dependencies) (dep_failed : s.db.status e d = .failed)
      (status : s.db.status e n.id = .failed) (output : s.db.outputOf e n.id = some (.obj []))
      (input : s.db.inputOf e n.id = none) (attempts : s.db.attemptCount e n.id = 0)
  | succeeded {given : Dict Json} {k : Nat} {result : Json} (deps : ∀ d ∈ n.dependencies, s.db.status e d = .completed)
      (resolves : inputFor cfg.strFloat s.db e x n = .ok given) (bounds : 1 ≤ k ∧ k ≤ cfg.policy.maxAttempts)
      (before : ∀ j, 1 ≤ j → j < k → (handler n.id j given).Fails) (success : handler n.id k given = .success result)
      (status : s.db.status e n.id = .completed) (output : s.db.outputOf e n.id = some result)
      (input : s.db.inputOf e n.id = some given) (attempts : s.db.attemptCount e n.id = k)
  | exhausted {given : Dict Json} (deps : ∀ d ∈ n.dependencies, s.db.status e d = .completed)
      (resolves : inputFor cfg.strFloat s.db e x n = .ok given)
      (fails : ∀ j, 1 ≤ j → j ≤ cfg.policy.maxAttempts → (handler n.id j given).Fails)
      (status : s.db.status e n.id = .failed) (output : s.db.outputOf e n.id = some .null)
      (input : s.db.inputOf e n.id = some given) (attempts : s.db.attemptCount e n.id = cfg.policy.maxAttempts)

variable {x : WorkflowExecutionRecord} {w : Workflow} {n : WorkflowNode} {input : Dict Json} {k : Nat}

theorem Attempted.resolves (h : Attempted cfg handler s e n.id input k) (hx : s.db.getExecutionById e = some x)
    (hw : s.db.getWorkflowById x.workflowId = some w) (hwell : w.WellFormed) (hn : n ∈ w.nodes) :
    (∀ d ∈ n.dependencies, s.db.status e d = .completed) ∧ inputFor cfg.strFloat s.db e x n = .ok input := by
  obtain ⟨x', w', n', hx', -, hw', hn', hid, hdeps, hresolve⟩ := h.resolved
  obtain rfl : x = x' := Option.some.inj (hx.symm.trans hx')
  obtain rfl : w = w' := Option.some.inj (hw.symm.trans hw')
  obtain rfl := hwell.node_ext hn' hn hid
  exact ⟨hdeps, hresolve⟩

/-- The attempt whose success was taken is the last one. -/
theorem Attempted.success (h : Attempted cfg handler s e i input k) (hanswered : Answered e handler s)
    (hr : Reachable cfg anyStep s) {row : NodeExecutionRecord} (hrow : s.db.node e i = some row)
    (hcompleted : row.status = .completed) : handler i k input = .success row.outputData := by
  obtain ⟨event, hmem, rfl, rfl, hstatus, houtput⟩ := (reachable_outputs hr).completed e i row hrow hcompleted
  obtain ⟨r, hnames⟩ := published_names hr hmem
  obtain ⟨hr', hid⟩ := attempt_some hnames.attempt
  have hattempt : r ∈ s.db.attemptsOf (createTaskId event.executionId event.nodeId) :=
    mem_attemptsOf.2 ⟨hr', hnames.task.trans hnames.id⟩
  obtain ⟨m, hm, hmid, hexecution, hanswer⟩ := h.issued r hattempt
  have hevent := hanswered.entries event hmem m hm (hmid.trans hid) hexecution
  rw [hanswer] at hevent
  cases hout : handler event.nodeId r.attemptNumber input with
  | failure message type =>
    rw [hout] at hevent
    rw [show event.status = .failed from hevent] at hstatus
    cases hstatus
  | success output =>
    rw [hout] at hevent
    rcases Nat.lt_or_eq_of_le (h.number r hattempt) with hlt | heq
    · have hfails := h.before r.attemptNumber ((reachable_dispatches hr).numbers r hr') hlt
      rw [hout] at hfails
      cases hfails
    · rw [← heq, hout, houtput, hevent.2]

/-- A claimed node that has failed has had all its attempts, and all of them failed. -/
theorem Attempted.exhausted (h : Attempted cfg handler s e i input k)
    (hex : Exhausted cfg.policy.maxAttempts s.db e i) :
    k = cfg.policy.maxAttempts ∧ ∀ j, 1 ≤ j → j ≤ k → (handler i j input).Fails := by
  obtain ⟨r, hr, htask, hmax, hclosed⟩ := hex
  have hrow : r ∈ s.db.attemptsOf (createTaskId e i) := mem_attemptsOf.2 ⟨hr, htask⟩
  have hle := h.number r hrow
  have hk : k = cfg.policy.maxAttempts := le_antisymm h.bounds.2 (hmax.trans hle)
  refine ⟨hk, fun j hj hjk => ?_⟩
  rcases Nat.lt_or_eq_of_le hjk with hlt | rfl
  · exact h.before j hj hlt
  · obtain rfl : r.attemptNumber = j := le_antisymm hle (hk ▸ hmax)
    exact h.closed r hrow hclosed

/-- A node that was never claimed has no task and no attempts. -/
theorem unclaimed_data (hr : Reachable cfg anyStep s) (hno : ¬ s.Claimed e i) :
    s.db.inputOf e i = none ∧ s.db.attemptCount e i = 0 := by
  have hd := reachable_dispatches hr
  rcases hd.node e i with ⟨hclaimed, -⟩ | ⟨-, ⟨htasks, hattempts, -⟩, -⟩
  · exact absurd hclaimed hno
  · constructor
    · cases htask : s.db.getLogicalTask (createTaskId e i) with
      | none => simp [inputOf, htask]
      | some task =>
        obtain ⟨hmem, hid⟩ := logicalTask_some htask
        obtain ⟨he, hi⟩ := createTaskId_injective ((hd.ids task hmem).symm.trans hid)
        have hmem' : task ∈ s.db.tasksOf e i := List.mem_filter.2 ⟨hmem, by simp [he, hi]⟩
        rw [htasks] at hmem'
        cases hmem'
    · rw [attemptCount, attemptsOf, List.filter_eq_nil_iff.2 fun r hr => by simpa using hattempts r hr]
      rfl

theorem Answered.nodeEnd (h : Answered e handler s) (hr : Reachable cfg anyStep s)
    (hx : s.db.getExecutionById e = some x) (hw : s.db.getWorkflowById x.workflowId = some w) (hwell : w.WellFormed)
    (hn : n ∈ w.nodes) (hended : s.db.Ended e n.id) : NodeEnd cfg handler s e x n := by
  obtain ⟨row, hrow⟩ : ∃ row, s.db.node e n.id = some row :=
    exists_node_of_started (by rcases hended with hst | hst <;> rw [hst] <;> decide)
  have hrowst := status_of_node hrow
  have houtput : s.db.outputOf e n.id = some row.outputData := by simp [outputOf, hrow]
  rcases hended with hst | hst
  · rcases (reachable_dispatches hr).node e n.id with ⟨hclaimed, -⟩ | ⟨-, -, hnot⟩
    · obtain ⟨input, k, hattempted⟩ := h.attempted hr hclaimed
      obtain ⟨hdeps, hresolves⟩ := hattempted.resolves hx hw hwell hn
      exact .succeeded hdeps hresolves hattempted.bounds hattempted.before
        (hattempted.success h hr hrow (hrowst.symm.trans hst)) hst houtput hattempted.given hattempted.count
    · exact absurd (.inr hst) hnot
  · rcases (reachable_outputs hr).failed e n.id row hrow (hrowst.symm.trans hst) with ⟨hclaimed, hout⟩ | ⟨hno, hout⟩
    · obtain ⟨input, k, hattempted⟩ := h.attempted hr hclaimed
      obtain ⟨hdeps, hresolves⟩ := hattempted.resolves hx hw hwell hn
      obtain ⟨rfl, hfails⟩ := hattempted.exhausted (reachable_ownFailures hr e n.id hclaimed hst)
      exact .exhausted hdeps hresolves hfails hst (hout ▸ houtput) hattempted.given hattempted.count
    · obtain ⟨hinput, hcount⟩ := unclaimed_data hr hno
      rcases reachable_failuresExplained hr e n.id hst with ⟨r, hr', htask, -⟩ | ⟨x', w', d, hx', hw', hdep, hfailed⟩
      · rcases (reachable_dispatches hr).node e n.id with ⟨hclaimed, -⟩ | ⟨-, ⟨-, hattempts, -⟩, -⟩
        · exact absurd hclaimed hno
        · exact absurd htask (hattempts r hr')
      · obtain rfl : x = x' := Option.some.inj (hx.symm.trans hx')
        obtain rfl : w = w' := Option.some.inj (hw.symm.trans hw')
        exact .blocked ((hwell.dependsOn_iff hn).1 hdep) hfailed hst (hout ▸ houtput) hinput hcount

/-- A node is completed exactly when its dependencies are and one of its attempts succeeds. -/
theorem NodeEnd.completed_iff (h : NodeEnd cfg handler s e x n) : s.db.status e n.id = .completed ↔
    (∀ d ∈ n.dependencies, s.db.status e d = .completed) ∧ ∃ input k, inputFor cfg.strFloat s.db e x n = .ok input ∧
      (1 ≤ k ∧ k ≤ cfg.policy.maxAttempts) ∧ ∃ output, handler n.id k input = .success output := by
  cases h with
  | blocked dep dep_failed status =>
    rw [status]
    refine ⟨fun h => (by cases h), fun h => ?_⟩
    rw [h.1 _ dep] at dep_failed
    cases dep_failed
  | succeeded deps resolves bounds _ success status =>
    exact ⟨fun _ => ⟨deps, _, _, resolves, bounds, _, success⟩, fun _ => status⟩
  | exhausted _ resolves fails status =>
    rw [status]
    refine ⟨fun h => (by cases h), ?_⟩
    rintro ⟨-, input, k, hinput, ⟨hk, hmax⟩, output, hsuccess⟩
    cases resolves.symm.trans hinput
    have hfails := fails k hk hmax
    rw [hsuccess] at hfails
    cases hfails

/-! ## Two runs -/

/-- Two executions have ended alike at a node. -/
structure Agrees (s₁ s₂ : System) (e₁ e₂ : Uuid) (i : String) : Prop where
  status : s₁.db.status e₁ i = s₂.db.status e₂ i
  output : s₁.db.outputOf e₁ i = s₂.db.outputOf e₂ i
  input : s₁.db.inputOf e₁ i = s₂.db.inputOf e₂ i
  attempts : s₁.db.attemptCount e₁ i = s₂.db.attemptCount e₂ i

variable {cfg₁ cfg₂ : Config} {s₁ s₂ : System} {e₁ e₂ : Uuid} {x₁ x₂ : WorkflowExecutionRecord} {w₁ w₂ : Workflow}

/-- The first success comes before no other success. -/
theorem first_success_le {outcome : Nat → HandlerOutcome} {j k : Nat} {output : Json} (hk : 1 ≤ k)
    (before : ∀ i, 1 ≤ i → i < j → (outcome i).Fails) (success : outcome k = .success output) : j ≤ k := by
  by_contra hlt
  have hfails := before k hk (by omega)
  rw [success] at hfails
  cases hfails

theorem NodeEnd.agrees (h₁ : NodeEnd cfg₁ handler s₁ e₁ x₁ n) (h₂ : NodeEnd cfg₂ handler s₂ e₂ x₂ n)
    (hmax : cfg₁.policy.maxAttempts = cfg₂.policy.maxAttempts)
    (hdeps : ∀ d ∈ n.dependencies, s₁.db.status e₁ d = s₂.db.status e₂ d)
    (hinput : inputFor cfg₁.strFloat s₁.db e₁ x₁ n = inputFor cfg₂.strFloat s₂.db e₂ x₂ n) :
    Agrees s₁ s₂ e₁ e₂ n.id := by
  have hblocked : ∀ {d : String}, d ∈ n.dependencies → ∀ {st₁ st₂ : NodeExecutionStatus}, st₁ ≠ st₂ →
      s₁.db.status e₁ d = st₁ → s₂.db.status e₂ d = st₂ → False :=
    fun hd _ _ hne hst₁ hst₂ => hne (hst₁.symm.trans ((hdeps _ hd).trans hst₂))
  cases h₁ with
  | blocked dep dep_failed status output input attempts =>
    cases h₂ with
    | blocked _ _ status' output' input' attempts' =>
      exact ⟨status.trans status'.symm, output.trans output'.symm, input.trans input'.symm,
        attempts.trans attempts'.symm⟩
    | succeeded deps => exact (hblocked dep (by decide) dep_failed (deps _ dep)).elim
    | exhausted deps => exact (hblocked dep (by decide) dep_failed (deps _ dep)).elim
  | succeeded deps resolves bounds before success status output input attempts =>
    cases h₂ with
    | blocked dep dep_failed => exact (hblocked dep (by decide) (deps _ dep) dep_failed).elim
    | succeeded _ resolves' bounds' before' success' status' output' input' attempts' =>
      cases resolves.symm.trans (hinput.trans resolves')
      obtain rfl :=
        le_antisymm (first_success_le bounds'.1 before success') (first_success_le bounds.1 before' success)
      cases success.symm.trans success'
      exact ⟨status.trans status'.symm, output.trans output'.symm, input.trans input'.symm,
        attempts.trans attempts'.symm⟩
    | exhausted _ resolves' fails' =>
      cases resolves.symm.trans (hinput.trans resolves')
      have hfails := fails' _ bounds.1 (hmax ▸ bounds.2)
      rw [success] at hfails
      cases hfails
  | exhausted deps resolves fails status output input attempts =>
    cases h₂ with
    | blocked dep dep_failed => exact (hblocked dep (by decide) (deps _ dep) dep_failed).elim
    | succeeded _ resolves' bounds' _ success' =>
      cases resolves.symm.trans (hinput.trans resolves')
      have hfails := fails _ bounds'.1 (hmax ▸ bounds'.2)
      rw [success'] at hfails
      cases hfails
    | exhausted _ resolves' _ status' output' input' attempts' =>
      cases resolves.symm.trans (hinput.trans resolves')
      exact ⟨status.trans status'.symm, output.trans output'.symm, input.trans input'.symm,
        attempts.trans (hmax.trans attempts'.symm)⟩

theorem completedOutput_eq {db : Database} : db.completedOutput e i =
    if db.status e i = .completed then db.outputOf e i else none := by
  cases hrow : db.node e i with
  | none => simp [completedOutput, status, hrow]
  | some r => simp [completedOutput, status, outputOf, hrow]

theorem Agrees.completedOutput (h : Agrees s₁ s₂ e₁ e₂ i) :
    s₁.db.completedOutput e₁ i = s₂.db.completedOutput e₂ i := by
  rw [completedOutput_eq, completedOutput_eq, h.status, h.output]

/-- Equal outputs of the dependencies give equal inputs. -/
theorem inputFor_eq {db₁ db₂ : Database} (hs₁ : db₁.Sound) (hs₂ : db₂.Sound) (hx₁ : db₁.getExecutionById e₁ = some x₁)
    (hx₂ : db₂.getExecutionById e₂ = some x₂) (hw₁ : db₁.getWorkflowById x₁.workflowId = some w₁)
    (hw₂ : db₂.getWorkflowById x₂.workflowId = some w₂) (hnodes : w₁.nodes = w₂.nodes)
    (hinput : x₁.inputData = x₂.inputData) {strFloat : Rat → String}
    (hdeps : ∀ d ∈ n.dependencies, db₁.completedOutput e₁ d = db₂.completedOutput e₂ d) :
    inputFor strFloat db₁ e₁ x₁ n = inputFor strFloat db₂ e₂ x₂ n := by
  have houtputs : completedDependencyOutputs e₁ n (db₁.getNodeExecutionsForExecution e₁) =
      completedDependencyOutputs e₂ n (db₂.getNodeExecutionsForExecution e₂) := by
    rw [dependencyOutputs_eq hs₁ hx₁ hw₁, dependencyOutputs_eq hs₂ hx₂ hw₂, Workflow.nodeIds, hnodes,
      ← Workflow.nodeIds]
    refine List.filterMap_congr fun i _ => ?_
    split
    · rename_i hi
      rw [hdeps i hi]
    · rfl
  rw [inputFor, inputFor, houtputs, hinput]

/-- A run of a triggered execution that has come to rest. Nothing crashes, no dispatch raises, every
completion that is handled is accepted, and the handlers answer the function. -/
structure Rests (cfg : Config) (handler : Handler) (s : System) (e : Uuid) (x : WorkflowExecutionRecord)
    (w : Workflow) :
    Prop where
  run : Reachable cfg (fun s a => (dispatchReturns cfg s a && (crashFree s a && (completionAccepted cfg s a &&
    answers e handler s a))) = true) s
  quiescent : Quiescent s
  execution : s.db.getExecutionById e = some x
  triggered : x.status ≠ .pending
  workflow : s.db.getWorkflowById x.workflowId = some w

theorem Rests.reachable (h : Rests cfg handler s e x w) : Reachable cfg anyStep s := h.run.mono fun _ _ _ => trivial

theorem Rests.ended (h : Rests cfg handler s e x w) : ∀ n ∈ w.nodes, s.db.Ended e n.id := by
  have hsteps : ∀ s a, Reachable cfg anyStep s → (dispatchReturns cfg s a && (crashFree s a &&
      (completionAccepted cfg s a && answers e handler s a))) = true → Attends cfg s a := by
    intro s a _ ha
    simp only [Bool.and_eq_true] at ha
    exact ⟨ha.1, ha.2.1, ha.2.2.1⟩
  have hwakes : Wakes s := reachable_wakes h.run fun s a hr ha =>
    ⟨(hsteps s a hr ha).1, crashFree_keepsReadySets (hsteps s a hr ha).2.1⟩
  exact h.quiescent.ended h.reachable (reachable_attended h.run hsteps) hwakes h.execution h.triggered h.workflow

theorem Rests.consistent (h : Rests cfg handler s e x w) :
    w.WellFormed ∧ DependencyRun.Consistent w.nodeIds w.DependsOn (s.db.run e) := by
  obtain ⟨w', hw', hwell, hrun⟩ := (reachable_consistent h.reachable).workflow h.execution
  obtain rfl : w = w' := Option.some.inj (h.workflow.symm.trans hw')
  exact ⟨hwell, hrun⟩

theorem Rests.nodeEnd (h : Rests cfg handler s e x w) (hn : n ∈ w.nodes) : NodeEnd cfg handler s e x n := by
  have hanswered : Answered e handler s := reachable_answered h.run fun s a ha => by
    simp only [Bool.and_eq_true] at ha
    exact ha.2.2.2
  exact hanswered.nodeEnd h.reachable h.execution h.workflow h.consistent.1 hn (h.ended n hn)

/-- Nodes agree from their dependencies on, so all of them do. -/
theorem Rests.agrees (h₁ : Rests cfg₁ handler s₁ e₁ x₁ w₁) (h₂ : Rests cfg₂ handler s₂ e₂ x₂ w₂)
    (hmax : cfg₁.policy.maxAttempts = cfg₂.policy.maxAttempts) (hfloat : cfg₁.strFloat = cfg₂.strFloat)
    (hnodes : w₁.nodes = w₂.nodes) (hinput : x₁.inputData = x₂.inputData) :
    ∀ n ∈ w₁.nodes, Agrees s₁ s₂ e₁ e₂ n.id := by
  have hwell := h₁.consistent.1
  obtain ⟨rank, hrank⟩ := hwell.acyclic
  suffices hall : ∀ k, ∀ n ∈ w₁.nodes, rank n.id = k → Agrees s₁ s₂ e₁ e₂ n.id from fun n hn => hall _ n hn rfl
  intro k
  induction k using Nat.strong_induction_on with
  | _ k ih =>
    intro n hn hk
    have hdeps : ∀ d ∈ n.dependencies, Agrees s₁ s₂ e₁ e₂ d := by
      intro d hd
      obtain ⟨m, hm, rfl⟩ := Workflow.mem_nodeIds.1 (hwell.known n hn d hd)
      exact ih (rank m.id) (hk ▸ hrank n hn m.id hd) m hm rfl
    refine (h₁.nodeEnd hn).agrees (h₂.nodeEnd (hnodes ▸ hn)) hmax (fun d hd => (hdeps d hd).status) ?_
    rw [hfloat]
    exact inputFor_eq (reachable_consistent h₁.reachable).sound (reachable_consistent h₂.reachable).sound h₁.execution
      h₂.execution h₁.workflow h₂.workflow hnodes hinput fun d hd => (hdeps d hd).completedOutput

/-- The status of the execution is read off its nodes. -/
theorem Rests.status (h : Rests cfg handler s e x w) :
    (w.nodes = [] ∧ x.status = .running) ∨ (w.nodes ≠ [] ∧ (∀ n ∈ w.nodes, s.db.status e n.id = .completed) ∧
      x.status = .completed) ∨ ((∃ n ∈ w.nodes, s.db.status e n.id = .failed) ∧ x.status = .failed) := by
  have hrun := h.consistent.2
  have hst : (s.db.run e).status = x.status := run_status h.execution
  cases hs : x.status with
  | pending => exact absurd hs h.triggered
  | completed =>
    refine .inr (.inl ⟨fun hnil => hrun.completed_nonempty (hst.trans hs) (by simp [Workflow.nodeIds, hnil]), ?_, rfl⟩)
    exact fun n hn => hrun.completed_sound (hst.trans hs) n.id (Workflow.mem_nodeIds.2 ⟨n, hn, rfl⟩)
  | failed =>
    obtain ⟨i, hi, hfailed⟩ := hrun.failed_sound (hst.trans hs)
    obtain ⟨n, hn, rfl⟩ := Workflow.mem_nodeIds.1 hi
    exact .inr (.inr ⟨⟨n, hn, hfailed⟩, rfl⟩)
  | running =>
    refine .inl ⟨?_, rfl⟩
    by_contra hne
    exact ended_not_running h.reachable h.execution h.workflow h.ended hne hs

/-- Everything a completed node rests on is completed. -/
theorem Rests.ancestors (h : Rests cfg handler s e x w) {d : String} (hd : Relation.TransGen w.DependsOn i d)
    (hi : s.db.status e i = .completed) : s.db.status e d = .completed := by
  have hstarted := h.consistent.2.started
  induction hd with
  | single hdep => exact hstarted _ _ hdep (.inr hi)
  | tail _ hdep ih => exact hstarted _ _ hdep (.inr ih)

/-- Two runs of one workflow on one input, with handlers that answer alike, end alike: every node with
the same status, output, resolved input and number of attempts, and the execution with the same
status. A node is completed exactly when everything it rests on is and one of its first
`maxAttempts` attempts succeeds, and failed otherwise. -/
theorem outcome_independent_of_schedule (h₁ : Rests cfg₁ handler s₁ e₁ x₁ w₁) (h₂ : Rests cfg₂ handler s₂ e₂ x₂ w₂)
    (policy : cfg₁.policy = cfg₂.policy) (strFloat : cfg₁.strFloat = cfg₂.strFloat) (nodes : w₁.nodes = w₂.nodes)
    (inputData : x₁.inputData = x₂.inputData) :
    (∀ n ∈ w₁.nodes, Agrees s₁ s₂ e₁ e₂ n.id) ∧ x₁.status = x₂.status ∧
      ∀ n ∈ w₁.nodes, (s₁.db.status e₁ n.id = .completed ↔
          (∀ d, Relation.TransGen w₁.DependsOn n.id d → s₁.db.status e₁ d = .completed) ∧
            ∃ input k, inputFor cfg₁.strFloat s₁.db e₁ x₁ n = .ok input ∧ (1 ≤ k ∧ k ≤ cfg₁.policy.maxAttempts) ∧
              ∃ output, handler n.id k input = .success output) ∧
        (s₁.db.status e₁ n.id ≠ .completed → s₁.db.status e₁ n.id = .failed) := by
  have hagrees := h₁.agrees h₂ (congrArg RetryPolicy.maxAttempts policy) strFloat nodes inputData
  refine ⟨hagrees, ?_, fun n hn => ⟨?_, fun hne => (h₁.ended n hn).resolve_left hne⟩⟩
  · rcases h₁.status with ⟨hnil, hst₁⟩ | ⟨hne, hall, hst₁⟩ | ⟨⟨n, hn, hfailed⟩, hst₁⟩ <;>
      rcases h₂.status with ⟨hnil', hst₂⟩ | ⟨hne', hall', hst₂⟩ | ⟨⟨m, hm, hfailed'⟩, hst₂⟩ <;> rw [hst₁, hst₂]
    · exact absurd (nodes ▸ hnil) hne'
    · rw [← nodes, hnil] at hm
      cases hm
    · exact absurd (nodes.trans hnil') hne
    · rw [← (hagrees m (nodes ▸ hm)).status, hall m (nodes ▸ hm)] at hfailed'
      cases hfailed'
    · rw [nodes, hnil'] at hn
      cases hn
    · rw [(hagrees n hn).status, hall' n (nodes ▸ hn)] at hfailed
      cases hfailed
  · rw [(h₁.nodeEnd hn).completed_iff]
    constructor
    · rintro ⟨hdeps, hsucceeds⟩
      have hcompleted := (h₁.nodeEnd hn).completed_iff.2 ⟨hdeps, hsucceeds⟩
      exact ⟨fun d hd => h₁.ancestors hd hcompleted, hsucceeds⟩
    · rintro ⟨hall, hsucceeds⟩
      exact ⟨fun d hd => hall d (.single ((h₁.consistent.1.dependsOn_iff hn).2 hd)), hsucceeds⟩

/-- Every attempt ends like this. -/
def always (outcome : HandlerOutcome) : Handler := fun _ _ _ => outcome

/-- The same end as in `chainFinished`, where the completion comes `copies` more times. -/
def chainRests (copies : Nat) : System :=
  reachedUnder sampleConfig (fun s a => dispatchReturns sampleConfig s a && (crashFree s a &&
      (completionAccepted sampleConfig s a && answers (.v4 1) (always (.failure "boom" "RuntimeError")) s a)))
    (fetched (.failure "boom" "RuntimeError") ++ ([.readReady 0, .acknowledge 0] : List Action) ++
      (List.replicate copies ([.redeliver .completion 0, .handle 0, .readReady 0,
        .acknowledge 0] : List Action)).flatten ++
      ([.markRow (.v4 2), .markRow (createTaskId (.v4 1) "fetch")] : List Action) ++
      settleRow (.v5 (.v4 4) "node:" (.v4 1) "report:failed") ++ settleRow (.v4 4) ++
      settleRow (.v5 (.v4 4) "workflow:" (.v4 1) "failed"))

theorem chainRests_rests {copies : Nat} {x : WorkflowExecutionRecord} {w : Workflow}
    (h : Quiescent (chainRests copies) ∧ (chainRests copies).db.getExecutionById (.v4 1) = some x ∧
      (chainRests copies).db.getWorkflowById x.workflowId = some w) (triggered : x.status ≠ .pending) :
    Rests sampleConfig (always (.failure "boom" "RuntimeError")) (chainRests copies) (.v4 1) x w :=
  ⟨reachable_reachedUnder _ _ _, h.1, h.2.1, triggered, h.2.2⟩

theorem outcome_independent_of_schedule_chain :
    Agrees (chainRests 0) (chainRests 1) (.v4 1) (.v4 1) "report" ∧
      (chainRests 0).db.status (.v4 1) "report" = .failed := by
  let x : WorkflowExecutionRecord := ⟨.v4 1, .v4 0, .failed, [], 0, some 0, some 0⟩
  let report : WorkflowNode := ⟨"report", "output", ["fetch"], []⟩
  let w : Workflow := ⟨.v4 0, "sample", [⟨"fetch", "input", [], []⟩, report]⟩
  have h₀ : Quiescent (chainRests 0) ∧ (chainRests 0).db.getExecutionById (.v4 1) = some x ∧
      (chainRests 0).db.getWorkflowById x.workflowId = some w := by
    decide +kernel
  have h₁ : Quiescent (chainRests 1) ∧ (chainRests 1).db.getExecutionById (.v4 1) = some x ∧
      (chainRests 1).db.getWorkflowById x.workflowId = some w := by
    decide +kernel
  obtain ⟨hagrees, -, hends⟩ := outcome_independent_of_schedule (chainRests_rests h₀ (by decide))
    (chainRests_rests h₁ (by decide)) rfl rfl rfl rfl
  have hreport : report ∈ w.nodes := .tail _ (.head _)
  refine ⟨hagrees report hreport, (hends report hreport).2 fun hcompleted => ?_⟩
  obtain ⟨-, input, k, -, -, output, hsuccess⟩ := (hends report hreport).1.1 hcompleted
  cases hsuccess

/-- `fetch` has raised without a text. -/
def unreadable : System :=
  reachedUnder sampleConfig (fun s a => dispatchReturns sampleConfig s a && (crashFree s a &&
      answers (.v4 1) (always (.failure "" "ValueError")) s a))
    (fetched (.failure "" "ValueError") ++ ([.markRow (.v4 2), .markRow (createTaskId (.v4 1) "fetch")] : List Action))

theorem outcome_independent_of_schedule_counterexample :
    Reachable sampleConfig (fun s a => (dispatchReturns sampleConfig s a && (crashFree s a &&
      answers (.v4 1) (always (.failure "" "ValueError")) s a)) = true) unreadable ∧
      Quiescent unreadable ∧ (∃ x, unreadable.db.getExecutionById (.v4 1) = some x ∧ x.status = .running) ∧
      unreadable.db.status (.v4 1) "fetch" = .running := by
  have hrun : Quiescent unreadable ∧ (unreadable.db.getExecutionById (.v4 1)).map (·.status) = some .running ∧
      unreadable.db.status (.v4 1) "fetch" = .running := by
    decide +kernel
  exact ⟨reachable_reachedUnder _ _ _, hrun.1, Option.map_eq_some_iff.1 hrun.2.1, hrun.2.2⟩

end System

end WorkflowEngine
