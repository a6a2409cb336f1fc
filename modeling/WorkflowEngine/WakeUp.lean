import WorkflowEngine.Deliveries
import WorkflowEngine.Guarantees

/-!
# Wake-ups

A pending node whose dependencies are all completed is waiting for a dispatch. What will
dispatch it is either in an orchestrator's memory or in an entry that is still to be handled.
A trigger entry evaluates readiness anew each time it is handled, so it may be handled by an
orchestrator that stops anywhere. A completion evaluates readiness once, in the transaction
that completes its node: the ready set is then held by one handling only.
-/
namespace WorkflowEngine

open Database

/-- The nodes that a handling has still to dispatch. -/
def HandlingPhase.held : HandlingPhase → List (Uuid × String)
  | evaluated e ready => ready.map fun i => (e, i)
  | dispatching x nodes => nodes.map fun n => (x.executionId, n.id)
  | raised x nodes => nodes.map fun n => (x.executionId, n.id)
  | _ => []

theorem mem_held_evaluated {e e' : Uuid} {ready : List String} {i : String} :
    (e', i) ∈ (HandlingPhase.evaluated e ready).held ↔ e' = e ∧ i ∈ ready := by
  simp only [HandlingPhase.held, List.mem_map, Prod.mk.injEq]
  constructor
  · rintro ⟨j, hj, rfl, rfl⟩
    exact ⟨rfl, hj⟩
  · rintro ⟨rfl, hi⟩
    exact ⟨i, hi, rfl, rfl⟩

theorem held_of_toDispatch {phase : HandlingPhase} {x : WorkflowExecutionRecord} {nodes : List WorkflowNode}
    (h : phase.toDispatch = some (x, nodes)) : phase.held = nodes.map fun n => (x.executionId, n.id) := by
  cases phase with
  | dispatching => cases h; rfl
  | raised => cases h; rfl
  | _ => cases h

namespace Database

variable {db db' : Database} {e : Uuid} {n : WorkflowNode}

/-- A pending node of a triggered execution whose dependencies are all completed. -/
def Waiting (db : Database) (e : Uuid) (n : WorkflowNode) : Prop := db.Startable e n ∧ db.status e n.id = .pending

theorem triggered_iff_run : db.Triggered e ↔ (db.run e).status ≠ .pending := by
  cases hx : db.getExecutionById e <;> simp [Triggered, run, hx]

/-- A node that waits now has waited before, unless the execution was triggered or one of its
nodes completed in between. -/
theorem Later.waiting (h : Later db db') (hs : db.Sound) (ht : db.Triggered e)
    (hdone : ∀ i, db'.status e i = .completed → db.status e i = .completed)
    (hpending : ∀ i, db'.status e i = .pending → db.status e i = .pending) (hw : db'.Waiting e n) :
    db.Waiting e n := by
  obtain ⟨⟨x', w', hx', -, hw', hmem, hdeps⟩, hp⟩ := hw
  obtain ⟨x, hx, hxp⟩ := ht
  obtain ⟨w, hwf, -⟩ := hs.workflow e x hx
  obtain ⟨x'', hx'', hid, -⟩ := h.execution e x hx
  rw [hx'] at hx''
  cases hx''
  rw [hid, h.workflow _ _ hwf] at hw'
  cases hw'
  exact ⟨⟨x, _, hx, hxp, hwf, hmem, fun d hd => hdone d (hdeps d hd)⟩, hpending _ hp⟩

theorem Waiting.triggered (h : db.Waiting e n) : db.Triggered e := by
  obtain ⟨⟨x, -, hx, hp, -⟩, -⟩ := h
  exact ⟨x, hx, hp⟩

theorem Later.waiting_of_run (h : Later db db') (hs : db.Sound) (hrun : db'.run e = db.run e) (hw : db'.Waiting e n) :
    db.Waiting e n := by
  have ht := triggered_iff_run.1 hw.triggered
  rw [hrun] at ht
  have hst : db'.status e = db.status e := congrArg DependencyRun.nodes hrun
  exact h.waiting hs (triggered_iff_run.2 ht) (fun i hi => hst ▸ hi) (fun i hi => hst ▸ hi) hw

/-- After a processed completion a node waits if it has waited before or is in the ready set. -/
theorem processed_waiting {policy : RetryPolicy} {event : TaskCompletionEvent} {next : Uuid} {now : Time}
    {decision : TaskCompletionDecision} (hs : db.Sound) (hc : db.Consistent)
    (h : Processed policy event next now db decision db') (hw : db'.Waiting e n) :
    db.Waiting e n ∨ (e = event.executionId ∧ n.id ∈ decision.readyNodeIds) := by
  have hlater := (processed_advances hs h).later
  cases h with
  | early _ consult => exact .inl (hlater.waiting_of_run hs consult.sameRuns.run hw)
  | late _ _ consult => exact .inl (hlater.waiting_of_run hs consult.sameRuns.run hw)
  | @completed existing _ db₁ _ x w node running status execution workflow consult ends run _ ready =>
    by_cases he : e = event.executionId
    · subst he
      obtain ⟨⟨x', w', hx', -, hw', hmem, hdeps⟩, hp⟩ := hw
      obtain ⟨x'', hx'', hid, -⟩ := hlater.execution _ x execution
      rw [hx'] at hx''
      cases hx''
      rw [hid, hlater.workflow _ _ workflow] at hw'
      cases hw'
      exact .inr ⟨rfl, (ready n.id).2 ⟨n, hmem, rfl, hp, hdeps⟩⟩
    · refine .inl (hlater.waiting_of_run hs ?_ hw)
      exact (ends.others e he).trans consult.sameRuns.run
  | @failed existing _ db₁ _ x w node running status execution workflow consult ends run _ ready =>
    left
    by_cases he : e = event.executionId
    · subst he
      have hst : db'.status event.executionId =
          DependencyRun.failFrom w.DependsOn (db.status event.executionId) event.nodeId :=
        (congrArg DependencyRun.nodes run).trans DependencyRun.settle_nodes
      have hold : ∀ i, db'.status event.executionId i ≠ .failed →
          db'.status event.executionId i = db.status event.executionId i := by
        intro i hi
        rw [hst] at hi ⊢
        exact (DependencyRun.failFrom_of_ne hi).2.2
      have hrunning : (db.run event.executionId).nodes event.nodeId ≠ .pending := by
        rw [show (db.run event.executionId).nodes event.nodeId = .running from (status_of_node node).trans running]
        decide
      have ht := (hc _ x w execution workflow).triggered hrunning
      refine hlater.waiting hs (triggered_iff_run.2 ht) ?_ ?_ hw
      · intro i hi
        rw [← hold i (by rw [hi]; decide), hi]
      · intro i hi
        rw [← hold i (by rw [hi]; decide), hi]
    · exact hlater.waiting_of_run hs ((ends.others e he).trans consult.sameRuns.run) hw

end Database

namespace System

variable {cfg : Config} {s t : System} {a : Action} {e : Uuid} {n : WorkflowNode}

/-- A completion handling has the node in its ready set and has still to dispatch it. -/
def HeldByCompletion (s : System) (e : Uuid) (i : String) : Prop :=
  ∃ h ∈ s.handlings, h.source = .completion ∧ (e, i) ∈ h.phase.held

/-- The templates of every node that can be started resolve. -/
def templatesResolve (cfg : Config) (s : System) : Bool :=
  s.db.workflowExecutions.all fun x => decide (x.status = .pending) ||
    match s.db.getWorkflowById x.workflowId with
    | none => true
    | some w => w.nodes.all fun n =>
      !(n.dependencies.all fun d => decide (s.db.status x.executionId d = .completed)) ||
        (NodeInputResolver.resolve cfg.strFloat n x.inputData (completedDependencyOutputs x.executionId n
          (s.db.getNodeExecutionsForExecution x.executionId))).isOk

theorem templatesResolve_startable (h : templatesResolve cfg s = true) (hstart : s.db.Startable e n)
    {x : WorkflowExecutionRecord} (hx : s.db.getExecutionById e = some x) :
    ∃ input, NodeInputResolver.resolve cfg.strFloat n x.inputData (completedDependencyOutputs e n
      (s.db.getNodeExecutionsForExecution e)) = .ok input := by
  obtain ⟨x', w, hx', hp, hw, hmem, hdeps⟩ := hstart
  rw [hx] at hx'
  cases hx'
  obtain ⟨hxmem, rfl⟩ := execution_some hx
  have hx := List.all_eq_true.1 h x hxmem
  rw [hw, decide_eq_false hp, Bool.false_or] at hx
  have hn := List.all_eq_true.1 hx n hmem
  rw [List.all_eq_true.2 fun d hd => decide_eq_true (hdeps d hd), Bool.not_true, Bool.false_or] at hn
  cases hr : NodeInputResolver.resolve cfg.strFloat n x.inputData (completedDependencyOutputs x.executionId n
      (s.db.getNodeExecutionsForExecution x.executionId)) with
  | ok input => exact ⟨input, rfl⟩
  | error error =>
    rw [hr] at hn
    cases hn

/-- The step is no dispatch that raises. -/
def dispatchReturns (cfg : Config) (s : System) : Action → Bool
  | .dispatchNode k j => (s.handlings[k]?).all fun h => (h.phase.toDispatch).all fun (x, nodes) =>
      (nodes[j]?).all fun n => (dispatch cfg.strFloat x n (.v4 s.draws) s.now s.db).isOk
  | _ => true

/-- No orchestrator stops between the commit of a completion and the dispatch of the nodes that
this completion has made ready. -/
def keepsReadySets (s : System) : Action → Bool
  | .abandon k => (s.handlings[k]?).all fun h => decide (h.source = .trigger) ||
      h.phase.held.all fun p => decide (s.db.status p.1 p.2 ≠ .pending)
  | _ => true

/-! ## One step -/

theorem Kind.eventsFrom (hk : Kind cfg s t) : EventsFrom s t := by
  cases hk with
  | quiet quiet => exact quiet.events
  | submit _ _ _ _ eq => exact .of_eq (by rw [eq])
  | trigger _ _ eq => exact .of_eq (by rw [eq])
  | process _ _ _ _ eq => exact .of_eq (by rw [eq])
  | dispatch _ _ _ _ _ eq => exact .of_eq (by rw [eq])
  | evaluate _ _ _ eq => exact .of_eq (by rw [eq])
  | read _ _ _ eq => exact .of_eq (by rw [eq])

/-- No trigger entry of an execution appears before the step after its trigger. -/
theorem Kind.no_trigger (hk : Kind cfg s t) (hc : Consistent s) (ht : ¬ s.db.Triggered e) {entry : LifecycleEvent}
    (hentry : entry ∈ t.events.entries) : ¬ IsTrigger e entry := by
  rintro ⟨htype, hpayload⟩
  rcases hk.eventsFrom entry hentry with hold | ⟨row, hrow, -, rfl⟩
  · exact ht (hc.triggerEntry entry hold e htype hpayload)
  · obtain ⟨e', he', htriggered⟩ := hc.triggerRow row hrow htype
    cases hpayload.symm.trans he'
    exact ht htriggered

/-- A node starts to wait when its execution is triggered or in the ready set of a completion. -/
theorem Kind.waiting (hk : Kind cfg s t) (hc : Consistent s) (hw : t.db.Waiting e n) :
    s.db.Waiting e n ∨ ¬ s.db.Triggered e ∨ t.HeldByCompletion e n.id := by
  have hlater := (hk.advances hc).later
  cases hk with
  | quiet quiet =>
    refine .inl (hlater.waiting_of_run hc.sound ?_ hw)
    rw [run, run, getExecutionById, getExecutionById, quiet.executions]
    congr 1
    funext i
    rw [status, status, node, node, quiet.nodes]
  | @submit w _ _ _ _ newExecution eq =>
    subst eq
    by_cases he : e = .v4 (s.draws + 1)
    · subst he
      refine .inr (.inl ?_)
      rintro ⟨x, hx, -⟩
      rw [newExecution] at hx
      cases hx
    · refine .inl (hlater.waiting_of_run hc.sound ?_ hw)
      rw [run, run, submitted_getExecutionById newExecution, if_neg he]
      congr 1
      funext i
      rw [status, status, submitted_node_ne he]
  | @trigger k request _ db commit eq =>
    subst eq
    obtain ⟨⟨r, hr, hp⟩, rfl⟩ := triggerCommit_ok hc.sound commit
    by_cases he : e = request.execution.executionId
    · subst he
      refine .inr (.inl ?_)
      rintro ⟨x, hx, hxp⟩
      rw [hr] at hx
      cases hx
      exact hxp hp
    · refine .inl (hlater.waiting_of_run hc.sound ?_ hw)
      rw [pushOutbox_run, run, run, getExecutionById_updateExecutionIfCurrent]
      simp [he]
      rfl
  | @process k index event decision db handling _ _ processed eq =>
    subst eq
    obtain ⟨-, hproc⟩ := process_ok hc.sound hc.runs processed
    rcases processed_waiting hc.sound hc.runs hproc hw with hwaiting | hheld
    · exact .inl hwaiting
    · exact .inr (.inr ⟨_, mem_set_self handling, rfl, mem_held_evaluated.2 hheld⟩)
  | @dispatch k j h x nodes n₀ phase result db handling toDispatch node dispatched _ eq =>
    subst eq
    have hstart := ((hc.supports h (List.mem_of_getElem? handling)).toDispatch x nodes toDispatch).2 n₀
      (List.mem_of_getElem? node)
    left
    rcases dispatched_starts hstart (dispatch_ok hc.sound.nodes_keyed dispatched) with ⟨rfl, -⟩ | ⟨-, hget, -, hst⟩
    · exact hw
    · have ht : s.db.Triggered e := by
        obtain ⟨x, hx, hp⟩ := hw.triggered
        exact ⟨x, (hget e).symm.trans hx, hp⟩
      have hne : ∀ {i : String}, db.status e i ≠ .running → db.status e i = s.db.status e i := by
        intro i hi
        rw [hst] at hi ⊢
        by_cases he : e = x.executionId
        · rw [if_pos he] at hi ⊢
          by_cases hin : i = n₀.id
          · simp [hin] at hi
          · rw [Function.update_of_ne hin]
        · rw [if_neg he]
      refine hlater.waiting hc.sound ht ?_ ?_ hw
      · intro i hi
        rw [← hne (by rw [hi]; decide), hi]
      · intro i hi
        rw [← hne (by rw [hi]; decide), hi]
  | evaluate _ _ _ eq =>
    subst eq
    exact .inl hw
  | read _ _ _ eq =>
    subst eq
    exact .inl hw

/-- `g` goes on where `h` was, with every node of `h` that is still pending. -/
structure Succeeds (t : System) (h g : Handling) : Prop where
  source : g.source = h.source
  index : g.index = h.index
  begun : h.phase ≠ .received → g.phase ≠ .received
  held : ∀ p ∈ h.phase.held, t.db.status p.1 p.2 = .pending → p ∈ g.phase.held

theorem Succeeds.refl (t : System) (h : Handling) : Succeeds t h h :=
  ⟨rfl, rfl, id, fun _ hp _ => hp⟩

/-- The handling has every waiting node of the executions its entry triggers. -/
def HoldsWaiting (t : System) (g : Handling) : Prop :=
  ∀ entry, t.events.entries[g.index]? = some entry → ∀ e, IsTrigger e entry → ∀ n, t.db.Waiting e n →
    (e, n.id) ∈ g.phase.held

/-- What becomes of the handlings in a step. A completion handling ends with no pending node
left, a trigger handling may end anywhere. -/
structure Continues (s t : System) : Prop where
  completion : ∀ h ∈ s.handlings, h.source = .completion → (∃ g ∈ t.handlings, Succeeds t h g) ∨
    ∀ p ∈ h.phase.held, t.db.status p.1 p.2 ≠ .pending
  trigger : ∀ g ∈ t.handlings, g.source = .trigger → g.phase ≠ .received →
    (∃ h ∈ s.handlings, h.phase ≠ .received ∧ Succeeds t h g) ∨ HoldsWaiting t g

theorem Continues.of_eq (heq : t.handlings = s.handlings) : Continues s t :=
  ⟨fun h hh _ => .inl ⟨h, heq ▸ hh, .refl t h⟩, fun g hg _ hr => .inl ⟨g, heq ▸ hg, hr, .refl t g⟩⟩

theorem Continues.of_received {source : Source} {index : Nat}
    (heq : t.handlings = s.handlings ++ [⟨source, index, .received⟩]) :
    Continues s t := by
  refine ⟨fun h hh _ => .inl ⟨h, ?_, .refl t h⟩, fun g hg _ hr => .inl ⟨g, ?_, hr, .refl t g⟩⟩
  · rw [heq]
    exact List.mem_append_left _ hh
  · rw [heq] at hg
    rcases List.mem_append.1 hg with hg | hg
    · exact hg
    · rw [List.mem_singleton.1 hg] at hr
      exact absurd rfl hr

theorem Continues.of_set {k : Nat} {h g : Handling} (hk : s.handlings[k]? = some h)
    (heq : t.handlings = s.handlings.set k g) (hsucc : Succeeds t h g)
    (hholds : h.phase = .received → g.source = .trigger → HoldsWaiting t g) : Continues s t := by
  constructor
  · intro h' hh' _
    left
    rcases eq_or_mem_set hk hh' with rfl | hmem
    · exact ⟨g, heq ▸ mem_set_self hk, hsucc⟩
    · exact ⟨h', heq ▸ hmem, .refl t h'⟩
  · intro g' hg' hsource hr
    rw [heq] at hg'
    rcases mem_set_cases hg' with hg' | rfl
    · exact .inl ⟨g', hg', hr, .refl t g'⟩
    · by_cases hrec : h.phase = .received
      · exact .inr (hholds hrec hsource)
      · exact .inl ⟨h, List.mem_of_getElem? hk, hrec, hsucc⟩

theorem Continues.of_erase {k : Nat} (heq : t.handlings = s.handlings.eraseIdx k)
    (hleft : ∀ h, s.handlings[k]? = some h → h.source = .completion →
      ∀ p ∈ h.phase.held, t.db.status p.1 p.2 ≠ .pending) : Continues s t := by
  constructor
  · intro h hh hsource
    rcases eq_or_mem_eraseIdx hh with hk | hmem
    · exact .inr (hleft h hk hsource)
    · exact .inl ⟨h, heq ▸ hmem, .refl t h⟩
  · intro g hg _ hr
    rw [heq] at hg
    exact .inl ⟨g, List.mem_of_mem_eraseIdx hg, hr, .refl t g⟩

/-- A handling that evaluates readiness holds every waiting node. -/
theorem holdsWaiting_evaluate {index : Nat} {eventId : Uuid} {ready : List String}
    (entry : s.events.entries[index]? = some ⟨eventId, .executionTriggered, .execution e⟩)
    (evaluated : evaluateReadiness e s.db = .ok ready) (hdb : t.db = s.db) (hevents : t.events = s.events) :
    HoldsWaiting t ⟨.trigger, index, .evaluated e ready⟩ := by
  intro entry' hentry e' he' n hn
  rw [hevents, entry] at hentry
  cases hentry
  obtain ⟨-, hpayload⟩ := he'
  cases hpayload
  rw [hdb] at hn
  obtain ⟨⟨x, w, hx, -, hw, hmem, hdeps⟩, hp⟩ := hn
  rw [evaluateReadiness, hx] at evaluated
  exact mem_held_evaluated.2 ⟨rfl, (evaluateReadinessFor_ok hw evaluated).2 ⟨n, hmem, rfl, hp, hdeps⟩⟩

/-- `dispatch_ready` reads every node of the ready set. -/
theorem succeeds_read {k index : Nat} {source : Source} {ready : List String} {x : WorkflowExecutionRecord}
    {nodes : List WorkflowNode} (hr : Reachable cfg anyStep s)
    (handling : s.handlings[k]? = some ⟨source, index, .evaluated e ready⟩)
    (reads : readyNodes e ready s.db = .ok (x, nodes)) :
    Succeeds t ⟨source, index, .evaluated e ready⟩ ⟨source, index, .dispatching x nodes⟩ := by
  refine ⟨rfl, rfl, fun _ => by simp, fun p hp _ => ?_⟩
  obtain ⟨he, hi⟩ := mem_held_evaluated.1 hp
  obtain ⟨n, hn, hstart⟩ :=
    ((reachable_consistent hr).supports _ (List.mem_of_getElem? handling)).ready e ready rfl _ hi
  obtain ⟨x', w, hx', -, hw, hmem, -⟩ := hstart
  obtain ⟨w', hw', hreads⟩ := readyNodes_returns hr hx' ready
  rw [hw] at hw'
  cases hw'
  rw [reads] at hreads
  cases hreads
  refine List.mem_map.2 ⟨n, List.mem_filter.2 ⟨hmem, by simpa [hn] using hi⟩, ?_⟩
  rw [(execution_some hx').2, hn, ← he]

theorem readReady_returns {k index : Nat} {source : Source} {ready : List String} (hr : Reachable cfg anyStep s)
    (handling : s.handlings[k]? = some ⟨source, index, .evaluated e ready⟩) (hne : ready ≠ []) :
    ∃ result, readyNodes e ready s.db = .ok result := by
  obtain ⟨i, hi⟩ := List.exists_mem_of_ne_nil _ hne
  obtain ⟨n, -, hstart⟩ :=
    ((reachable_consistent hr).supports _ (List.mem_of_getElem? handling)).ready e ready rfl _ hi
  obtain ⟨x, -, hx, -⟩ := hstart
  obtain ⟨w, -, hreads⟩ := readyNodes_returns hr hx ready
  exact ⟨_, hreads⟩

/-- A dispatched node is no longer pending. -/
theorem succeeds_dispatch {j : Nat} {h : Handling} {x : WorkflowExecutionRecord} {nodes : List WorkflowNode}
    {phase : HandlingPhase} {result : DispatchResult} {attemptId : Uuid} (hc : Consistent s) (hh : h ∈ s.handlings)
    (toDispatch : h.phase.toDispatch = some (x, nodes)) (node : nodes[j]? = some n)
    (dispatched : dispatch cfg.strFloat x n attemptId s.now s.db = .ok (result, t.db))
    (phase_eq : (h.phase = .dispatching x nodes ∧ phase = .dispatching x (nodes.eraseIdx j)) ∨
      (h.phase = .raised x nodes ∧ phase = .raised x (nodes.eraseIdx j))) :
    Succeeds t h { h with phase := phase } := by
  have hphase : phase.toDispatch = some (x, nodes.eraseIdx j) := by
    rcases phase_eq with ⟨-, rfl⟩ | ⟨-, rfl⟩ <;> rfl
  refine ⟨rfl, rfl, fun _ => ?_, fun p hp hpending => ?_⟩
  · rcases phase_eq with ⟨-, rfl⟩ | ⟨-, rfl⟩ <;> simp
  · rw [held_of_toDispatch toDispatch] at hp
    obtain ⟨n', hn', rfl⟩ := List.mem_map.1 hp
    obtain ⟨m, hm⟩ := List.mem_iff_getElem?.1 hn'
    have hstart := ((hc.supports h hh).toDispatch x nodes toDispatch).2 n (List.mem_of_getElem? node)
    by_cases hmj : m = j
    · subst hmj
      obtain rfl : n = n' := Option.some.inj (node.symm.trans hm)
      rcases dispatched_starts hstart (dispatch_ok hc.sound.nodes_keyed dispatched) with ⟨hdb, hnot⟩ | ⟨-, -, -, hst⟩
      · rw [hdb] at hpending
        obtain ⟨x', w, hx', -, hw, hmem, -⟩ := hstart
        obtain ⟨r, hr⟩ := (hc.sound.mem_nodeIds hx' hw).1 (Workflow.mem_nodeIds.2 ⟨n, hmem, rfl⟩)
        exact absurd ((status_of_node hr).symm.trans hpending) (hnot r hr)
      · rw [hst] at hpending
        simp at hpending
    · rw [held_of_toDispatch hphase]
      exact List.mem_map.2 ⟨n', List.mem_eraseIdx_iff_getElem?.2 ⟨m, hmj, hm⟩, rfl⟩

/-- Where templates resolve, no dispatch raises. -/
theorem dispatchReturns_of_resolve (hr : Reachable cfg anyStep s)
    (hresolve : templatesResolve cfg s = true) (a : Action) :
    dispatchReturns cfg s a = true := by
  cases a with
  | dispatchNode k j =>
    simp only [dispatchReturns, Option.all_eq_true]
    rintro h hk ⟨x, nodes⟩ hphase n hn
    obtain ⟨⟨x', hx', -, -, hinput⟩, hnodes⟩ :=
      ((reachable_consistent hr).supports h (List.mem_of_getElem? hk)).toDispatch x nodes hphase
    have hstart := hnodes n (List.mem_of_getElem? hn)
    obtain ⟨input, hok⟩ := templatesResolve_startable hresolve hstart hx'
    rw [hinput] at hok
    obtain ⟨result, db, hdispatch, -⟩ := dispatch_returns hr hstart hok
    rw [hdispatch]
    rfl
  | _ => rfl

theorem Effect.continues (heffect : Effect cfg s a t) (hr : Reachable cfg anyStep s)
    (hreturns : dispatchReturns cfg s a = true) (hkeeps : keepsReadySets s a = true) : Continues s t := by
  have hc := reachable_consistent hr
  cases heffect with
  | evaluate handling entry evaluated =>
    exact .of_set handling rfl ⟨rfl, rfl, fun _ => by simp, fun p hp _ => by cases hp⟩ fun _ _ =>
      holdsWaiting_evaluate entry evaluated rfl rfl
  | @skip k index entry handling entry_eq other =>
    refine .of_set handling rfl ⟨rfl, rfl, fun _ => by simp, fun p hp _ => by cases hp⟩ fun _ _ => ?_
    intro entry' hentry e he
    obtain rfl : entry = entry' := Option.some.inj (entry_eq.symm.trans hentry)
    exact absurd he (other e)
  | process handling =>
    exact .of_set handling rfl ⟨rfl, rfl, fun _ => by simp, fun p hp _ => by cases hp⟩ fun _ hsource =>
      by cases hsource
  | readEmpty handling =>
    exact .of_set handling rfl ⟨rfl, rfl, fun _ => by simp, fun p hp _ => by cases hp⟩ fun hrec => by cases hrec
  | read handling nonempty reads =>
    exact .of_set handling rfl (succeeds_read hr handling reads) fun hrec => by cases hrec
  | readRaised handling nonempty raised =>
    obtain ⟨result, hreads⟩ := readReady_returns hr handling nonempty
    rw [raised] at hreads
    cases hreads
  | @dispatch k j h x nodes n phase result db handling toDispatch node dispatched phase_eq =>
    refine .of_set handling rfl
      (succeeds_dispatch hc (List.mem_of_getElem? handling) toDispatch node dispatched phase_eq) fun hrec => ?_
    rw [hrec] at toDispatch
    cases toDispatch
  | dispatchRaised handling toDispatch node raised =>
    simp only [dispatchReturns, handling, toDispatch, node, raised, Option.all_some] at hreturns
    cases hreturns
  | finishDispatch handling =>
    exact .of_set handling rfl ⟨rfl, rfl, fun _ => by simp, fun p hp _ => by cases hp⟩ fun hrec => by cases hrec
  | evaluateRaised handling =>
    refine .of_erase rfl fun h hh hsource => ?_
    rw [handling] at hh
    cases hh
    cases hsource
  | processRaised handling | acknowledgeCompletion handling | acknowledgeEvent handling =>
    refine .of_erase rfl fun h hh _ p hp => ?_
    rw [handling] at hh
    cases hh
    cases hp
  | @abandon k =>
    refine .of_erase rfl fun h hh hsource p hp => ?_
    rw [keepsReadySets, hh, Option.all_some, hsource] at hkeeps
    exact of_decide_eq_true (List.all_eq_true.1 hkeeps p hp)
  | deliverEvent | deliverCompletion | redeliverEvent | redeliverCompletion => exact .of_received rfl
  | _ => exact .of_eq rfl

/-- A trigger entry is acknowledged by a handling that has dispatched. -/
theorem Effect.eventAcknowledged (heffect : Effect cfg s a t)
    (hdelivered : s.events.lastDelivered ≤ s.events.entries.length)
    {i : Nat} {entry : LifecycleEvent} (hentry : t.events.entries[i]? = some entry) :
    t.events.Unacknowledged i ∨ ⟨.trigger, i, .dispatched⟩ ∈ s.handlings ∨
      (s.events.entries[i]? = some entry ∧ ¬ s.events.Unacknowledged i) := by
  cases heffect with
  | publishEventRow => exact (s.events.unacknowledged_xadd_or hdelivered hentry).imp_right .inr
  | deliverEvent =>
    by_cases hu : s.events.Unacknowledged i
    · exact .inl hu.deliver
    · exact .inr (.inr ⟨hentry, hu⟩)
  | @acknowledgeEvent k index handling =>
    by_cases hi : i = index
    · subst hi
      exact .inr (.inl (List.mem_of_getElem? handling))
    · by_cases hu : s.events.Unacknowledged i
      · exact .inl (hu.xack hi)
      · exact .inr (.inr ⟨hentry, hu⟩)
  | _ =>
    by_cases hu : s.events.Unacknowledged i
    · exact .inl hu
    · exact .inr (.inr ⟨hentry, hu⟩)

theorem Effect.eventsDelivered (heffect : Effect cfg s a t) (h : s.events.lastDelivered ≤ s.events.entries.length) :
    t.events.lastDelivered ≤ t.events.entries.length := by
  cases heffect with
  | publishEventRow =>
    simp only [GroupStream.xadd, List.length_append]
    omega
  | deliverEvent next => exact (List.getElem?_eq_some_iff.1 next).1
  | _ => exact h

/-- Handlings come from delivered entries. -/
theorem Effect.handlingEntry (heffect : Effect cfg s a t)
    (hdelivered : s.events.lastDelivered ≤ s.events.entries.length)
    {g : Handling} (hg : g ∈ t.handlings) (hsource : g.source = .trigger) :
    (∃ h ∈ s.handlings, h.source = .trigger ∧ h.index = g.index) ∨ g.index < s.events.entries.length := by
  have hset : ∀ {k : Nat} {h g' : Handling}, s.handlings[k]? = some h → t.handlings = s.handlings.set k g' →
      g'.source = h.source → g'.index = h.index → ∃ h ∈ s.handlings, h.source = .trigger ∧ h.index = g.index := by
    intro k h g' hk heq hsource' hindex
    rw [heq] at hg
    rcases mem_set_cases hg with hg | rfl
    · exact ⟨g, hg, hsource, rfl⟩
    · exact ⟨h, List.mem_of_getElem? hk, hsource'.symm.trans hsource, hindex.symm⟩
  have herase : ∀ {k : Nat}, t.handlings = s.handlings.eraseIdx k →
      ∃ h ∈ s.handlings, h.source = .trigger ∧ h.index = g.index := by
    intro k heq
    rw [heq] at hg
    exact ⟨g, List.mem_of_mem_eraseIdx hg, hsource, rfl⟩
  have hreceived : ∀ {source : Source} {index : Nat}, t.handlings = s.handlings ++ [⟨source, index, .received⟩] →
      (source = .trigger → index < s.events.entries.length) →
      (∃ h ∈ s.handlings, h.source = .trigger ∧ h.index = g.index) ∨ g.index < s.events.entries.length := by
    intro source index heq hindex
    rw [heq] at hg
    rcases List.mem_append.1 hg with hg | hg
    · exact .inl ⟨g, hg, hsource, rfl⟩
    · obtain rfl := List.mem_singleton.1 hg
      exact .inr (hindex hsource)
  cases heffect with
  | evaluate handling | skip handling | process handling | readEmpty handling | read handling
  | finishDispatch handling =>
    exact .inl (hset handling rfl rfl rfl)
  | dispatch handling | dispatchRaised handling => exact .inl (hset handling rfl rfl rfl)
  | evaluateRaised | processRaised | readRaised | acknowledgeCompletion | acknowledgeEvent | abandon =>
    exact .inl (herase rfl)
  | deliverEvent next => exact hreceived rfl fun _ => (List.getElem?_eq_some_iff.1 next).1
  | redeliverEvent delivered => exact hreceived rfl fun _ => Nat.lt_of_lt_of_le delivered hdelivered
  | deliverCompletion | redeliverCompletion => exact hreceived rfl fun h => by cases h
  | _ => exact .inl ⟨g, hg, hsource, rfl⟩

/-! ## The invariant -/

/-- Once a trigger entry has been evaluated, every waiting node of its execution is held by the
handling that did so or by a completion; once it is acknowledged, by a completion. -/
structure Wakes (s : System) : Prop where
  delivered : s.events.lastDelivered ≤ s.events.entries.length
  index : ∀ h ∈ s.handlings, h.source = .trigger → h.index < s.events.entries.length
  evaluated : ∀ h ∈ s.handlings, h.source = .trigger → h.phase ≠ .received → ∀ entry,
    s.events.entries[h.index]? = some entry → ∀ e, IsTrigger e entry → ∀ n, s.db.Waiting e n →
      (e, n.id) ∈ h.phase.held ∨ s.HeldByCompletion e n.id
  acknowledged : ∀ (i : Nat) entry, s.events.entries[i]? = some entry → ¬ s.events.Unacknowledged i →
    ∀ e, IsTrigger e entry → ∀ n, s.db.Waiting e n → s.HeldByCompletion e n.id

theorem wakes_init : Wakes init := by
  refine ⟨Nat.le_refl _, ?_, ?_, ?_⟩ <;> simp [init, GroupStream.empty]

theorem Continues.heldByCompletion (h : Continues s t) (hp : t.db.status e n.id = .pending)
    (hheld : s.HeldByCompletion e n.id) : t.HeldByCompletion e n.id := by
  obtain ⟨g, hg, hsource, hmem⟩ := hheld
  rcases h.completion g hg hsource with ⟨g', hg', hsucc⟩ | hnone
  · exact ⟨g', hg', hsucc.source.trans hsource, hsucc.held _ hmem hp⟩
  · exact absurd hp (hnone _ hmem)

theorem Effect.wakes (heffect : Effect cfg s a t) (hr : Reachable cfg anyStep s)
    (hreturns : dispatchReturns cfg s a = true) (hkeeps : keepsReadySets s a = true) (h : Wakes s) : Wakes t := by
  have hc := reachable_consistent hr
  have hk := heffect.kind hc.sound
  have hcont := heffect.continues hr hreturns hkeeps
  obtain ⟨l, hentries⟩ := heffect.eventEntries
  refine ⟨heffect.eventsDelivered h.delivered, ?_, ?_, ?_⟩
  · intro g hg hsource
    rw [hentries, List.length_append]
    rcases heffect.handlingEntry h.delivered hg hsource with ⟨h₀, hh₀, hs₀, hi₀⟩ | hlt
    · have := h.index h₀ hh₀ hs₀
      omega
    · omega
  · intro g hg hsource hbegun entry hentry e he n hn
    rcases hcont.trigger g hg hsource hbegun with ⟨h₀, hh₀, hbegun₀, hsucc⟩ | hholds
    · have hs₀ : h₀.source = .trigger := hsucc.source.symm.trans hsource
      have hentry₀ : s.events.entries[h₀.index]? = some entry := by
        rw [← hentry, hentries, hsucc.index, List.getElem?_append_left (h.index h₀ hh₀ hs₀)]
      rcases hk.waiting hc hn with hn₀ | hnot | hheld
      · rcases h.evaluated h₀ hh₀ hs₀ hbegun₀ entry hentry₀ e he n hn₀ with hmem | hheld
        · exact .inl (hsucc.held _ hmem hn.2)
        · exact .inr (hcont.heldByCompletion hn.2 hheld)
      · exact absurd he (hk.no_trigger hc hnot (List.mem_of_getElem? hentry))
      · exact .inr hheld
    · exact .inl (hholds entry hentry e he n hn)
  · intro i entry hentry hacked e he n hn
    rcases hk.waiting hc hn with hn₀ | hnot | hheld
    · rcases heffect.eventAcknowledged h.delivered hentry with hu | hmem | ⟨hentry₀, hacked₀⟩
      · exact absurd hu hacked
      · have hlt := h.index _ hmem rfl
        have hentry₀ : s.events.entries[i]? = some entry := by
          rw [← hentry, hentries, List.getElem?_append_left hlt]
        rcases h.evaluated _ hmem rfl (by simp) entry hentry₀ e he n hn₀ with hmem' | hheld
        · cases hmem'
        · exact hcont.heldByCompletion hn.2 hheld
      · exact hcont.heldByCompletion hn.2 (h.acknowledged i entry hentry₀ hacked₀ e he n hn₀)
    · exact absurd he (hk.no_trigger hc hnot (List.mem_of_getElem? hentry))
    · exact hheld

theorem reachable_wakes {allowed : System → Action → Prop} (h : Reachable cfg allowed s)
    (hallowed : ∀ s a, Reachable cfg anyStep s → allowed s a → dispatchReturns cfg s a = true ∧
      keepsReadySets s a = true) :
    Wakes s := by
  refine Transition.Reachable.invariant wakes_init (fun s a t hr hs ha ht => ?_) h
  have hr : Reachable cfg anyStep s := hr.mono fun _ _ _ => trivial
  obtain ⟨hreturns, hkeeps⟩ := hallowed s a hr ha
  exact (step_effect ht).wakes hr hreturns hkeeps hs

/-- What will dispatch a waiting node. Before the trigger event is an entry of its stream it is a
row of the outbox. -/
inductive WokenUp (cfg : Config) (s : System) (x : WorkflowExecutionRecord) (n : WorkflowNode) : Prop where
  | inProgress {h : Handling} (mem : h ∈ s.handlings) (held : (x.executionId, n.id) ∈ h.phase.held)
  | trigger {i : Nat} {entry : LifecycleEvent} {ready : List String} {result : DispatchResult} {db : Database}
      (entry_eq : s.events.entries[i]? = some entry) (unacknowledged : s.events.Unacknowledged i)
      (isTrigger : IsTrigger x.executionId entry) (evaluated : evaluateReadiness x.executionId s.db = .ok ready)
      (mem : n.id ∈ ready) (dispatched : dispatch cfg.strFloat x n (.v4 s.draws) s.now s.db = .ok (result, db))
      (outcome : result.outcome = .dispatched)
  | completion {i : Nat} {event : TaskCompletionEvent} {decision : TaskCompletionDecision} {result : DispatchResult}
      {db db' : Database} (entry_eq : s.completions.entries[i]? = some event)
      (unacknowledged : s.completions.Unacknowledged i) (execution : event.executionId = x.executionId)
      (readable : readable event = true)
      (processed : process cfg.policy event (.v4 s.draws) s.now s.db = .ok (decision, db))
      (mem : n.id ∈ decision.readyNodeIds)
      (dispatched : dispatch cfg.strFloat x n (.v4 (s.draws + 1)) s.now db = .ok (result, db'))
      (outcome : result.outcome = .dispatched)
  | unpublished {row : OutboxEventRecord} (mem : row ∈ s.db.outboxEvents) (pending : row.status = .pending)
      (type : row.messageType = .executionTriggered) (payload : row.payload = .execution x.executionId)

/-- In every run in which templates resolve and no orchestrator stops with a completion's ready set
in memory, each waiting node will be dispatched: what evaluates a trigger entry may stop anywhere. -/
theorem no_wake_up_lost {x : WorkflowExecutionRecord} {w : Workflow}
    (h : Reachable cfg (fun s a => (templatesResolve cfg s && keepsReadySets s a) = true) s)
    (hresolve : templatesResolve cfg s = true) (hx : s.db.getExecutionById e = some x)
    (triggered : x.status ≠ .pending) (hw : s.db.getWorkflowById x.workflowId = some w) (hn : n ∈ w.nodes)
    (pending : s.db.status e n.id = .pending) (completed : ∀ d ∈ n.dependencies, s.db.status e d = .completed) :
    WokenUp cfg s x n := by
  have hr : Reachable cfg anyStep s := h.mono fun _ _ _ => trivial
  have hc := reachable_consistent hr
  have hstart : s.db.Startable e n := ⟨x, w, hx, triggered, hw, hn, completed⟩
  obtain rfl := (execution_some hx).2
  rcases trigger_kept hr ⟨x, hx, triggered⟩ with ⟨entry, hentry, hisTrigger⟩ | ⟨row, hrow, hpending, htype, hpayload⟩
  · obtain ⟨i, hi⟩ := List.mem_iff_getElem?.1 hentry
    by_cases hu : s.events.Unacknowledged i
    · have hready := evaluateReadiness_total hx hw
      have heval := hready
      rw [evaluateReadiness, hx] at heval
      obtain ⟨input, hinput⟩ := templatesResolve_startable hresolve hstart hx
      obtain ⟨result, db, hdispatch, houtcome⟩ := dispatch_returns hr hstart hinput
      obtain ⟨r, hnode⟩ := (hc.sound.mem_nodeIds hx hw).1 (Workflow.mem_nodeIds.2 ⟨n, hn, rfl⟩)
      exact .trigger hi hu hisTrigger hready
        ((evaluateReadinessFor_ok hw heval).2 ⟨n, hn, rfl, pending, completed⟩) hdispatch
        (houtcome r hnode ((status_of_node hnode).symm.trans pending))
    · have hwakes : Wakes s := reachable_wakes h fun s a hr ha => by
        obtain ⟨hresolve, hkeeps⟩ := (Bool.and_eq_true _ _).mp ha
        exact ⟨dispatchReturns_of_resolve hr hresolve a, hkeeps⟩
      obtain ⟨g, hg, -, hheld⟩ := hwakes.acknowledged i entry hi hu _ hisTrigger n ⟨hstart, pending⟩
      exact .inProgress hg hheld
  · exact .unpublished hrow hpending htype hpayload

/-- The orchestrator that has evaluated the trigger of `chain` stops before it dispatches. -/
def evaluatedAndStopped : System :=
  reachedUnder sampleConfig (fun s a => templatesResolve sampleConfig s && keepsReadySets s a)
    (triggered chain ++ ([.markRow (.v4 2), .abandon 0] : List Action))

theorem no_wake_up_lost_trigger : evaluatedAndStopped.handlings = [] ∧
    ∃ x n, evaluatedAndStopped.db.getExecutionById (.v4 1) = some x ∧ n.id = "fetch" ∧
      WokenUp sampleConfig evaluatedAndStopped x n := by
  have hrun : ((evaluatedAndStopped.db.getExecutionById (.v4 1)).bind fun x =>
      (evaluatedAndStopped.db.getWorkflowById x.workflowId).bind fun w =>
        (w.nodes[0]?).map fun n => (x.status, n.id, n.dependencies)) = some (.running, "fetch", []) := by
    decide +kernel
  obtain ⟨x, hx, hrun⟩ := Option.bind_eq_some_iff.1 hrun
  obtain ⟨w, hw, hrun⟩ := Option.bind_eq_some_iff.1 hrun
  obtain ⟨n, hn, hrun⟩ := Option.map_eq_some_iff.1 hrun
  simp only [Prod.mk.injEq] at hrun
  obtain ⟨hstatus, hid, hdeps⟩ := hrun
  refine ⟨by decide +kernel, x, n, hx, hid, no_wake_up_lost (reachable_reachedUnder sampleConfig _ _)
    (by decide +kernel) hx (by rw [hstatus]; decide) hw (List.mem_of_getElem? hn) ?_ ?_⟩
  · rw [hid]
    decide +kernel
  · rw [hdeps]
    simp

/-- `fetch` is completed and its ready set, `report`, is lost with the orchestrator. -/
def lostWakeUp : System :=
  reachedUnder sampleConfig (fun s _ => templatesResolve sampleConfig s)
    (fetched (.success (.obj [("total", .int 3)])) ++ ([.markRow (.v4 2), .abandon 0] : List Action))

theorem lostWakeUp_idle : lostWakeUp.handlings = [] ∧ lostWakeUp.events.entries.length = 1 ∧
    lostWakeUp.events.lastDelivered = 1 ∧ lostWakeUp.events.pending = [] ∧
    (lostWakeUp.db.outboxEvents.all fun row => decide (row.status = .pending →
      row.messageType ≠ .executionTriggered)) = true ∧
    (lostWakeUp.completions.entries.all fun event =>
      match process sampleConfig.policy event (.v4 lostWakeUp.draws) lostWakeUp.now lostWakeUp.db with
      | .ok (decision, _) => decision.readyNodeIds.isEmpty
      | .error _ => true) = true := by
  decide +kernel

theorem no_wake_up_lost_counterexample :
    Reachable sampleConfig (fun s _ => templatesResolve sampleConfig s = true) lostWakeUp ∧
      templatesResolve sampleConfig lostWakeUp = true ∧
      ∃ x w n, lostWakeUp.db.getExecutionById (.v4 1) = some x ∧ x.status ≠ .pending ∧
        lostWakeUp.db.getWorkflowById x.workflowId = some w ∧ n ∈ w.nodes ∧
        lostWakeUp.db.status (.v4 1) n.id = .pending ∧
        (∀ d ∈ n.dependencies, lostWakeUp.db.status (.v4 1) d = .completed) ∧
        ¬ WokenUp sampleConfig lostWakeUp x n := by
  obtain ⟨hhandlings, hlength, hdelivered, hacked, houtbox, hprocess⟩ := lostWakeUp_idle
  have hrun : ((lostWakeUp.db.getExecutionById (.v4 1)).bind fun x =>
      (lostWakeUp.db.getWorkflowById x.workflowId).bind fun w =>
        (w.nodes[1]?).map fun n => (x.status, n.id, n.dependencies)) = some (.running, "report", ["fetch"]) := by
    decide +kernel
  obtain ⟨x, hx, hrun⟩ := Option.bind_eq_some_iff.1 hrun
  obtain ⟨w, hw, hrun⟩ := Option.bind_eq_some_iff.1 hrun
  obtain ⟨n, hn, hrun⟩ := Option.map_eq_some_iff.1 hrun
  simp only [Prod.mk.injEq] at hrun
  obtain ⟨hstatus, hid, hdeps⟩ := hrun
  refine ⟨reachable_reachedUnder sampleConfig _ _, by decide +kernel, x, w, n, hx, by rw [hstatus]; decide, hw,
    List.mem_of_getElem? hn, ?_, ?_, ?_⟩
  · rw [hid]
    decide +kernel
  · rw [hdeps]
    decide +kernel
  · intro hwoken
    cases hwoken with
    | inProgress mem =>
      rw [hhandlings] at mem
      cases mem
    | trigger _ unacknowledged =>
      obtain ⟨hlt, hle | ⟨p, hp, -⟩⟩ := unacknowledged
      · omega
      · rw [hacked] at hp
        cases hp
    | completion entry_eq _ _ _ processed mem =>
      have h := List.all_eq_true.1 hprocess _ (List.mem_of_getElem? entry_eq)
      rw [processed] at h
      rw [List.isEmpty_iff.1 h] at mem
      cases mem
    | unpublished mem pending type _ => exact of_decide_eq_true (List.all_eq_true.1 houtbox _ mem) pending type

end System

end WorkflowEngine
