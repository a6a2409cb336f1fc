import WorkflowEngine.Exhaustion

/-!
# What every run guarantees about an execution

Dependency consistency, one logical dispatch for each node, the agreement of the execution's
status with its nodes, and the work left in a running execution. Each is read off the
invariants of all runs, for any number of orchestrators and workers.
-/
namespace WorkflowEngine

open Database

namespace System

variable {cfg : Config} {s : System} {e : Uuid} {x : WorkflowExecutionRecord} {w : Workflow}

/-! ## Concrete runs -/

/-- One attempt for each task, a lease of 30 and a reclaim idle time of 60 seconds. -/
def sampleConfig : Config where
  validation := ⟨false, fun _ => "", fun _ => none, fun _ => false⟩
  strFloat := fun _ => ""
  policy := ⟨1, 1, 2, none, by decide, by decide +kernel, by decide +kernel, by simp⟩
  lease := 30000000
  reclaimIdle := 60000000
  lease_pos := by decide
  lease_lt_reclaimIdle := by decide

/-- The same with retries. -/
def sampleRetries (retries : Nat) : Config :=
  { sampleConfig with
    policy := ⟨retries + 1, 1, 2, none, Nat.le_add_left 1 retries, by decide +kernel, by decide +kernel, by simp⟩ }

def sampleNode (id handler : String) (dependencies : List String) (config : Dict Json) : Json :=
  .obj [("id", .str id), ("handler", .str handler), ("dependencies", .arr (dependencies.map .str)),
    ("config", .obj config)]

def sampleDefinition (nodes : List Json) : Dict Json :=
  [("name", .str "sample"), ("dag", .obj [("nodes", .arr nodes)])]

/-- `fetch` and then `report`. -/
def chain : Dict Json :=
  sampleDefinition [sampleNode "fetch" "input" [] [], sampleNode "report" "output" ["fetch"] []]

/-- The state after these labels, from the empty system. -/
def reached (cfg : Config) (labels : List Action) : System := (Transition.run (step cfg) init labels).getD init

theorem reachable_run {t : System} {labels : List Action} (h : Transition.run (step cfg) s labels = some t) :
    Transition.Reachable (step cfg) anyStep s t :=
  Transition.Reachable.of_run (fun _ _ => true) (fun _ _ _ => trivial) labels .start (by simpa using h)

theorem reachable_reached (cfg : Config) (labels : List Action) : Reachable cfg anyStep (reached cfg labels) := by
  unfold reached
  cases h : Transition.run (step cfg) init labels with
  | none => exact .start
  | some t => exact reachable_run h

/-- The same, where every label has to pass a check. -/
def reachedUnder (cfg : Config) (check : System → Action → Bool) (labels : List Action) : System :=
  (Transition.run (fun s a => if check s a then step cfg s a else none) init labels).getD init

theorem reachable_reachedUnder (cfg : Config) (check : System → Action → Bool) (labels : List Action) :
    Reachable cfg (fun s a => check s a = true) (reachedUnder cfg check labels) := by
  unfold reachedUnder
  cases h : Transition.run (fun s a => if check s a then step cfg s a else none) init labels with
  | none => exact .start
  | some t => exact Transition.Reachable.of_run check (fun _ _ h => h) labels .start h

/-- Submission and trigger of a definition, up to the evaluated trigger event. The execution is
`.v4 1` and its trigger message `.v4 2`. -/
def triggered (definition : Dict Json) : List Action :=
  [.submit definition, .readTrigger (.v4 1) none, .commitTrigger 0, .publishRow (.v4 2), .deliverEvent "orchestrator",
    .handle 0]

/-- The root node of `chain` dispatched, delivered to a worker and ended there with `outcome`. -/
def fetched (outcome : HandlerOutcome) : List Action :=
  triggered chain ++ ([.readReady 0, .dispatchNode 0 0, .finishDispatch 0, .acknowledge 0,
    .publishRow (createTaskId (.v4 1) "fetch"), .deliverTask "worker", .work 0 outcome, .work 0 outcome,
    .work 0 outcome, .work 0 outcome, .work 0 outcome, .work 0 outcome, .work 0 outcome,
    .deliverCompletion "orchestrator",
    .handle 0] : List Action)

/-! ## Dependency consistency -/

/-- One execution of `w` in one committed state. -/
structure DependencyConsistent (cfg : Config) (s : System) (e : Uuid) (w : Workflow) : Prop where
  started : ∀ n ∈ w.nodes, s.db.status e n.id = .running ∨ s.db.status e n.id = .completed →
    ∀ d ∈ n.dependencies, s.db.status e d = .completed
  waiting : ∀ n ∈ w.nodes, s.db.status e n.id = .pending → ∀ d ∈ n.dependencies, s.db.status e d ≠ .failed
  failed : ∀ n ∈ w.nodes, s.db.status e n.id = .failed →
    Exhausted cfg.policy.maxAttempts s.db e n.id ∨ ∃ d ∈ n.dependencies, s.db.status e d = .failed
  untriggered : s.triggersOf e = [] → ∀ n ∈ w.nodes, s.db.status e n.id = .pending

/-- The test for a failed dependency at the start of `dispatch`. -/
def dependencyFailed (db : Database) (x : WorkflowExecutionRecord) (n : WorkflowNode) : Bool :=
  n.dependencies.any fun d => decide (statusMap (db.getNodeExecutionsForExecution x.executionId) d = some .failed)

theorem Consistent.workflow (hc : Consistent s) (hx : s.db.getExecutionById e = some x) :
    ∃ w, s.db.getWorkflowById x.workflowId = some w ∧ w.WellFormed ∧
      DependencyRun.Consistent w.nodeIds w.DependsOn (s.db.run e) := by
  obtain ⟨w, hw, hwf, -⟩ := hc.sound.workflow e x hx
  exact ⟨w, hw, hwf, hc.runs e x w hx hw⟩

theorem TriggerState.pending_of_nil (h : TriggerState s e) (ht : s.triggersOf e = [])
    (hx : s.db.getExecutionById e = some x) : x.status = .pending := by
  cases h with
  | missing execution => rw [hx] at execution; cases execution
  | pending execution status =>
    rw [hx] at execution
    cases execution
    exact status
  | triggered _ _ _ triggers => rw [ht] at triggers; cases triggers

theorem TriggerState.triggers_ne_nil (h : TriggerState s e) (hx : s.db.getExecutionById e = some x)
    (hp : x.status ≠ .pending) : s.triggersOf e ≠ [] :=
  fun ht => hp (h.pending_of_nil ht hx)

/-- Dependency consistency holds in every state of every run, and no dispatch that an
orchestrator still has to make finds a failed dependency. -/
theorem dependency_consistency (h : Reachable cfg anyStep s) :
    (∀ e x, s.db.getExecutionById e = some x → ∃ w, s.db.getWorkflowById x.workflowId = some w ∧
      DependencyConsistent cfg s e w) ∧
    ∀ g ∈ s.handlings, ∀ x nodes, g.phase.toDispatch = some (x, nodes) → ∀ n ∈ nodes,
      dependencyFailed s.db x n = false := by
  have hc := reachable_consistent h
  refine ⟨fun e x hx => ?_, fun g hg x nodes hd n hn => ?_⟩
  · obtain ⟨w, hw, hwf, hrun⟩ := hc.workflow hx
    refine ⟨w, hw, ⟨?_, ?_, ?_, ?_⟩⟩
    · exact fun n hn hst d hd => hrun.started n.id d ((hwf.dependsOn_iff hn).2 hd) hst
    · exact fun n hn hst d hd => hrun.waiting n.id d ((hwf.dependsOn_iff hn).2 hd) hst
    · intro n hn hst
      rcases reachable_failuresExplained h e n.id hst with hex | ⟨x', w', d, hx', hw', hdep, hf⟩
      · exact .inl hex
      · rw [hx] at hx'
        cases hx'
        rw [hw] at hw'
        cases hw'
        exact .inr ⟨d, (hwf.dependsOn_iff hn).1 hdep, hf⟩
    · intro ht n _
      have hp := (reachable_triggerState h e).pending_of_nil ht hx
      exact hrun.untriggered (by simpa [Database.run, hx] using hp) n.id
  · have hstart := ((hc.supports g hg).toDispatch x nodes hd).2 n hn
    rw [dependencyFailed, List.any_eq_false]
    exact fun d hd hf => hstart.no_failed hd (of_decide_eq_true hf)

/-- The only attempt of `fetch` has failed. -/
def chainFailed : System := reached sampleConfig (fetched (.failure "boom" "RuntimeError"))

/-- `fetch` has completed, and the orchestrator knows that `report` is ready. -/
def chainFetched : System := reached sampleConfig (fetched (.success (.obj [("total", .int 3)])))

/-- In the failed run `report` has failed with the node it depends on. -/
theorem dependency_consistency_chain :
    chainFailed.db.nodeExecutions.map (·.status) = [.failed, .failed] ∧
      ∃ w, DependencyConsistent sampleConfig chainFailed (.v4 1) w ∧ w.nodeIds = ["fetch", "report"] := by
  refine ⟨by decide +kernel, ?_⟩
  obtain ⟨x, hx⟩ : ∃ x, chainFailed.db.getExecutionById (.v4 1) = some x :=
    Option.isSome_iff_exists.1 (by decide +kernel)
  obtain ⟨w, hw, hdep⟩ := (dependency_consistency (reachable_reached sampleConfig _)).1 (.v4 1) x hx
  refine ⟨w, hdep, ?_⟩
  have hids : ((chainFailed.db.getExecutionById (.v4 1)).bind fun x =>
      (chainFailed.db.getWorkflowById x.workflowId).map (·.nodeIds)) = some ["fetch", "report"] := by
    decide +kernel
  simpa [hx, show chainFailed.db.getWorkflowById x.workflowId = some w from hw] using hids

/-! ## One logical dispatch for each node -/

/-- The trigger messages of an execution and the input it has stored. -/
structure TriggeredOnce (s : System) (e : Uuid) (x : WorkflowExecutionRecord) : Prop where
  at_most_one : (s.db.triggerInsertionsOf e).length ≤ 1
  present_iff : s.db.triggerInsertionsOf e ≠ [] ↔ x.status ≠ .pending
  winner : x.status ≠ .pending → ∃ input, s.triggersOf e = [input] ∧ x.inputData = input.getD []

theorem TriggerState.triggeredOnce (h : TriggerState s e) (hx : s.db.getExecutionById e = some x) :
    TriggeredOnce s e x := by
  cases h with
  | missing execution => rw [hx] at execution; cases execution
  | pending execution status _ insertions =>
    rw [hx] at execution
    cases execution
    exact ⟨by simp [insertions], by simp [insertions, status], fun hp => absurd status hp⟩
  | triggered execution status insertions triggers stored =>
    rw [hx] at execution
    cases execution
    exact ⟨by simp [insertions], by simp [insertions, status], fun _ => ⟨_, triggers, stored⟩⟩

/-- A node that was ever claimed has exactly one task, one first attempt and one task message,
and a node that was not has none; it is claimed at most once. -/
theorem one_logical_dispatch (h : Reachable cfg anyStep s) :
    (∀ e x, s.db.getExecutionById e = some x → TriggeredOnce s e x) ∧
    ∀ e i, (s.Claimed e i → OneTask s.db e i) ∧ (¬ s.Claimed e i → NoTask s.db e i) ∧
      s.history.count (.nodeClaimed e i) ≤ 1 := by
  refine ⟨fun e x hx => (reachable_triggerState h e).triggeredOnce hx, fun e i => ⟨fun hcl => ?_, fun hcl => ?_, ?_⟩⟩
  · rcases (reachable_dispatches h).node e i with ⟨-, hone, -⟩ | ⟨hno, -, -⟩
    · exact hone
    · exact absurd hcl hno
  · rcases (reachable_dispatches h).node e i with ⟨hyes, -, -⟩ | ⟨-, hno, -⟩
    · exact absurd hyes hcl
    · exact hno
  · exact (reachable_dispatches h).once e i

/-- Once `fetch` has completed it has its task, and `report`, known to be ready, has none. -/
theorem one_logical_dispatch_chain :
    chainFetched.Claimed (.v4 1) "fetch" ∧ ¬ chainFetched.Claimed (.v4 1) "report" ∧
      OneTask chainFetched.db (.v4 1) "fetch" ∧ NoTask chainFetched.db (.v4 1) "report" := by
  have hyes : Milestone.nodeClaimed (.v4 1) "fetch" ∈ chainFetched.history := by decide +kernel
  have hno : Milestone.nodeClaimed (.v4 1) "report" ∉ chainFetched.history := by decide +kernel
  have h := (one_logical_dispatch (reachable_reached sampleConfig (fetched (.success (.obj [("total", .int 3)]))))).2
  exact ⟨hyes, hno, (h (.v4 1) "fetch").1 hyes, (h (.v4 1) "report").2.1 hno⟩

/-! ## The status of the execution -/

/-- The status of an execution says what its nodes say. -/
structure StatusAgrees (s : System) (e : Uuid) (x : WorkflowExecutionRecord) (w : Workflow) : Prop where
  completed : x.status = .completed → ∀ n ∈ w.nodes, s.db.status e n.id = .completed
  failed : x.status = .failed ↔ s.triggersOf e ≠ [] ∧ ∃ n ∈ w.nodes, s.db.status e n.id = .failed
  running : x.status = .running → ∀ n ∈ w.nodes, s.db.status e n.id ≠ .failed
  pending : x.status = .pending → ∀ n ∈ w.nodes, s.db.status e n.id = .pending
  settled : x.status = .running → w.nodes ≠ [] → ∃ n ∈ w.nodes, s.db.status e n.id ≠ .completed

theorem run_status {db : Database} (hx : db.getExecutionById e = some x) : (db.run e).status = x.status := by
  simp [Database.run, hx]

theorem status_agreement (h : Reachable cfg anyStep s) (hx : s.db.getExecutionById e = some x) :
    ∃ w, s.db.getWorkflowById x.workflowId = some w ∧ StatusAgrees s e x w := by
  obtain ⟨w, hw, hwf, hrun⟩ := (reachable_consistent h).workflow hx
  have hst := run_status hx
  refine ⟨w, hw, ⟨?_, ⟨?_, ?_⟩, ?_, ?_, ?_⟩⟩
  · exact fun hs n hn => hrun.completed_sound (hst.trans hs) n.id (Workflow.mem_nodeIds.2 ⟨n, hn, rfl⟩)
  · intro hs
    refine ⟨(reachable_triggerState h e).triggers_ne_nil hx (by simp [hs]), ?_⟩
    obtain ⟨i, hi, hf⟩ := hrun.failed_sound (hst.trans hs)
    obtain ⟨n, hn, rfl⟩ := Workflow.mem_nodeIds.1 hi
    exact ⟨n, hn, hf⟩
  · rintro ⟨-, n, hn, hf⟩
    -- with a failed node the execution is neither pending, nor running, nor completed
    cases hs : x.status with
    | failed => rfl
    | pending =>
      have := hrun.untriggered (hst.trans hs) n.id
      rw [show (s.db.run e).nodes n.id = .failed from hf] at this
      cases this
    | running => exact absurd hf (hrun.running_sound (hst.trans hs) n.id)
    | completed =>
      have := hrun.completed_sound (hst.trans hs) n.id (Workflow.mem_nodeIds.2 ⟨n, hn, rfl⟩)
      rw [show (s.db.run e).nodes n.id = .failed from hf] at this
      cases this
  · exact fun hs n _ => hrun.running_sound (hst.trans hs) n.id
  · exact fun hs n _ => hrun.untriggered (hst.trans hs) n.id
  · intro hs hne
    obtain ⟨i, hi, hopen⟩ := hrun.running_open (hst.trans hs) (by simpa [Workflow.nodeIds] using hne)
    obtain ⟨n, hn, rfl⟩ := Workflow.mem_nodeIds.1 hi
    exact ⟨n, hn, hopen⟩

/-- The failed run of `chain` is a failed execution. -/
theorem status_agreement_chain :
    ∃ x w, chainFailed.db.getExecutionById (.v4 1) = some x ∧ x.status = .failed ∧
      StatusAgrees chainFailed (.v4 1) x w := by
  obtain ⟨x, hx⟩ : ∃ x, chainFailed.db.getExecutionById (.v4 1) = some x :=
    Option.isSome_iff_exists.1 (by decide +kernel)
  have hst : (chainFailed.db.getExecutionById (.v4 1)).map (·.status) = some .failed := by decide +kernel
  obtain ⟨w, -, hagrees⟩ := status_agreement (reachable_reached sampleConfig _) hx
  exact ⟨x, w, hx, by simpa [hx] using hst, hagrees⟩

/-! ## Work left -/

/-- In every state of every run: a running execution has a pending or running node, and an
execution with only terminal nodes is completed or failed, exactly when the workflow has a
node at all. Validation lets an empty node list through, and finalization is only evaluated
when a node completes. -/
theorem work_left_iff (h : Reachable cfg anyStep s) (hx : s.db.getExecutionById e = some x)
    (hw : s.db.getWorkflowById x.workflowId = some w) :
    (x.status = .running →
      ((∃ n ∈ w.nodes, s.db.status e n.id = .pending ∨ s.db.status e n.id = .running) ↔ w.nodes ≠ [])) ∧
    (((∀ n ∈ w.nodes, s.db.status e n.id = .completed ∨ s.db.status e n.id = .failed) →
      x.status = .completed ∨ x.status = .failed) ↔ w.nodes ≠ []) := by
  obtain ⟨w', hw', hwf, hrun⟩ := (reachable_consistent h).workflow hx
  rw [hw] at hw'
  cases hw'
  have hst := run_status hx
  have hids : w.nodeIds ≠ [] ↔ w.nodes ≠ [] := by simp [Workflow.nodeIds]
  have hopen : x.status = .running → w.nodes ≠ [] →
      ∃ n ∈ w.nodes, s.db.status e n.id = .pending ∨ s.db.status e n.id = .running := by
    intro hs hne
    obtain ⟨i, hi, hnc⟩ := hrun.running_open (hst.trans hs) (hids.2 hne)
    obtain ⟨n, hn, rfl⟩ := Workflow.mem_nodeIds.1 hi
    refine ⟨n, hn, ?_⟩
    have hnf := hrun.running_sound (hst.trans hs) n.id
    cases hstn : s.db.status e n.id with
    | pending => exact .inl rfl
    | running => exact .inr rfl
    | completed => exact absurd hstn hnc
    | failed => exact absurd hstn hnf
  refine ⟨fun hs => ⟨?_, hopen hs⟩, ?_, ?_⟩
  · rintro ⟨n, hn, -⟩
    exact List.ne_nil_of_mem hn
  · rintro hterm hnil
    rcases hterm (by simp [hnil]) with hs | hs
    · exact hids.1 (hrun.completed_nonempty (hst.trans hs)) hnil
    · obtain ⟨i, hi, -⟩ := hrun.failed_sound (hst.trans hs)
      exact hids.1 (List.ne_nil_of_mem hi) hnil
  · intro hne hterm
    cases hs : x.status with
    | completed => exact .inl rfl
    | failed => exact .inr rfl
    | pending =>
      obtain ⟨n, hn⟩ := List.exists_mem_of_ne_nil _ hne
      have hp : s.db.status e n.id = .pending := hrun.untriggered (hst.trans hs) n.id
      rcases hterm n hn with ht | ht <;> rw [hp] at ht <;> cases ht
    | running =>
      obtain ⟨n, hn, ho⟩ := hopen hs hne
      rcases ho with ho | ho <;> rcases hterm n hn with ht | ht <;> rw [ho] at ht <;> cases ht

/-- An accepted definition without nodes, its trigger event handled and acknowledged. -/
def emptyTriggered : System :=
  reached sampleConfig (triggered (sampleDefinition []) ++ ([.readReady 0, .acknowledge 0] : List Action))

theorem work_left_empty :
    ∃ x w, Reachable sampleConfig anyStep emptyTriggered ∧ emptyTriggered.db.getExecutionById (.v4 1) = some x ∧
      x.status = .running ∧ emptyTriggered.db.getWorkflowById x.workflowId = some w ∧
      emptyTriggered.events.lastDelivered = 1 ∧ emptyTriggered.events.pending = [] ∧ emptyTriggered.handlings = [] ∧
      ¬ (∃ n ∈ w.nodes, emptyTriggered.db.status (.v4 1) n.id = .pending ∨
        emptyTriggered.db.status (.v4 1) n.id = .running) := by
  have hrun : ((emptyTriggered.db.getExecutionById (.v4 1)).bind fun x =>
      (emptyTriggered.db.getWorkflowById x.workflowId).map fun w => (x.status, w.nodes)) =
      some (.running, []) := by
    decide +kernel
  obtain ⟨x, hx, hrun⟩ := Option.bind_eq_some_iff.1 hrun
  obtain ⟨w, hw, hrun⟩ := Option.map_eq_some_iff.1 hrun
  simp only [Prod.mk.injEq] at hrun
  exact ⟨x, w, reachable_reached sampleConfig _, hx, hrun.1, hw, by decide +kernel, by decide +kernel,
    by decide +kernel, by simp [hrun.2]⟩

/-- The running execution of `chain` has work left: `report`. -/
theorem work_left_chain :
    ∃ x w, chainFetched.db.getExecutionById (.v4 1) = some x ∧ x.status = .running ∧
      chainFetched.db.getWorkflowById x.workflowId = some w ∧ w.nodes ≠ [] ∧
      ∃ n ∈ w.nodes, chainFetched.db.status (.v4 1) n.id = .pending ∨
        chainFetched.db.status (.v4 1) n.id = .running := by
  have hrun : ((chainFetched.db.getExecutionById (.v4 1)).bind fun x =>
      (chainFetched.db.getWorkflowById x.workflowId).map fun w => (x.status, w.nodes.isEmpty)) =
      some (.running, false) := by
    decide +kernel
  obtain ⟨x, hx, hrun⟩ := Option.bind_eq_some_iff.1 hrun
  obtain ⟨w, hw, hrun⟩ := Option.map_eq_some_iff.1 hrun
  simp only [Prod.mk.injEq, List.isEmpty_eq_false_iff] at hrun
  have h := work_left_iff (reachable_reached sampleConfig _) hx hw
  exact ⟨x, w, hx, hrun.1, hw, hrun.2, (h.1 hrun.1).2 hrun.2⟩

end System

end WorkflowEngine
