import WorkflowEngine.Steps

/-!
# Executions are dependency-ordered runs

Every committed state of an execution is a state of a dependency-ordered run, and every step
of the system moves it by one step of that run or not at all. What orchestrators hold in
memory stays right because a completed node stays completed: a node in an old ready set
still has all its dependencies completed when its dispatch commits.
-/
namespace WorkflowEngine

open Database

namespace Database

variable {db db' : Database} {e : Uuid} {x : WorkflowExecutionRecord} {w : Workflow}

/-- The execution exists and its trigger has been committed. -/
def Triggered (db : Database) (e : Uuid) : Prop := ∃ x, db.getExecutionById e = some x ∧ x.status ≠ .pending

/-- `n` is a node of the triggered execution, and everything it depends on is completed. -/
def Startable (db : Database) (e : Uuid) (n : WorkflowNode) : Prop :=
  ∃ x w, db.getExecutionById e = some x ∧ x.status ≠ .pending ∧ db.getWorkflowById x.workflowId = some w ∧
    n ∈ w.nodes ∧ ∀ d ∈ n.dependencies, db.status e d = .completed

/-- What is settled in `db` is settled the same way in `db'`. -/
structure Later (db db' : Database) : Prop where
  workflow : ∀ id w, db.getWorkflowById id = some w → db'.getWorkflowById id = some w
  execution : ∀ e x, db.getExecutionById e = some x → ∃ x', db'.getExecutionById e = some x' ∧
    x'.workflowId = x.workflowId ∧ (x.status ≠ .pending → x'.status ≠ .pending ∧ x'.inputData = x.inputData)
  completed : ∀ e i, db.status e i = .completed → db'.status e i = .completed

theorem Later.triggered (h : Later db db') (ht : db.Triggered e) : db'.Triggered e := by
  obtain ⟨x, hx, hp⟩ := ht
  obtain ⟨x', hx', -, hp'⟩ := h.execution e x hx
  exact ⟨x', hx', (hp' hp).1⟩

theorem Later.startable (h : Later db db') {n : WorkflowNode} (hn : db.Startable e n) : db'.Startable e n := by
  obtain ⟨x, w, hx, hp, hw, hmem, hdeps⟩ := hn
  obtain ⟨x', hx', hid, hp'⟩ := h.execution e x hx
  exact ⟨x', w, hx', (hp' hp).1, hid ▸ h.workflow _ _ hw, hmem, fun d hd => h.completed e d (hdeps d hd)⟩

/-- Every execution moves by at most one step of its run, and a new one starts from the start. -/
structure Refines (db db' : Database) : Prop where
  old : ∀ e x w, db.getExecutionById e = some x → db.getWorkflowById x.workflowId = some w →
    db'.run e = db.run e ∨ DependencyRun.Step w.nodeIds w.DependsOn (db.run e) (db'.run e)
  new : ∀ e, db.getExecutionById e = none → ∀ x, db'.getExecutionById e = some x → db'.run e = .start

/-- Every execution is in a consistent state of its run. -/
def Consistent (db : Database) : Prop :=
  ∀ e x w, db.getExecutionById e = some x → db.getWorkflowById x.workflowId = some w →
    DependencyRun.Consistent w.nodeIds w.DependsOn (db.run e)

/-- One committed transaction, seen from its executions. -/
structure Advances (db db' : Database) : Prop where
  sound : db'.Sound
  later : Later db db'
  refines : Refines db db'

theorem Advances.consistent (h : Advances db db') (hs : db.Sound) (hc : db.Consistent) : db'.Consistent := by
  intro e x' w hx' hw
  cases hx : db.getExecutionById e with
  | none => rw [h.refines.new e hx x' hx']; exact DependencyRun.consistent_start
  | some x =>
    obtain ⟨w₀, hw₀, -⟩ := hs.workflow e x hx
    obtain ⟨x'', hx'', hid, -⟩ := h.later.execution e x hx
    rw [hx'] at hx''
    cases hx''
    rw [hid, h.later.workflow _ _ hw₀] at hw
    cases hw
    rcases h.refines.old e x w hx hw₀ with hrun | hstep
    · rw [hrun]
      exact hc e x w hx hw₀
    · exact hstep.consistent (fun _ _ hd => hd.mem) (hc e x w hx hw₀)

theorem Advances.of_same (hs : db.Sound) (hw : db'.workflows = db.workflows)
    (hx : db'.workflowExecutions = db.workflowExecutions) (hn : db'.nodeExecutions = db.nodeExecutions) :
    Advances db db' := by
  have hget : ∀ e, db'.getExecutionById e = db.getExecutionById e := fun e => by
    rw [getExecutionById, getExecutionById, hx]
  have hst : ∀ e, db'.status e = db.status e := fun e => funext fun i => by rw [status, status, node, node, hn]
  have hev : Evolves db db' := ⟨hw, by rw [hx], by rw [hn]⟩
  refine ⟨hev.sound hs, ⟨fun id w h => by rw [hev.getWorkflowById, h], ?_, fun e i h => by rw [hst, h]⟩, ?_⟩
  · intro e x h
    exact ⟨x, by rw [hget, h], rfl, fun hp => ⟨hp, rfl⟩⟩
  · refine ⟨fun e x w _ _ => .inl (by rw [run, run, hget, hst]), fun e hnone x' hx' => ?_⟩
    rw [hget, hnone] at hx'
    cases hx'

/-- A transaction that keeps the rows: it is enough to follow the runs and the inputs. -/
theorem Advances.of_evolves (hs : db.Sound) (hev : Evolves db db')
    (hinput : ∀ e x x', db.getExecutionById e = some x → db'.getExecutionById e = some x' → x.status ≠ .pending →
      x'.inputData = x.inputData)
    (hrun : ∀ e x w, db.getExecutionById e = some x → db.getWorkflowById x.workflowId = some w →
      db'.run e = db.run e ∨ DependencyRun.Step w.nodeIds w.DependsOn (db.run e) (db'.run e)) :
    Advances db db' := by
  have hs' := hev.sound hs
  refine ⟨hs', ⟨fun id w h => by rw [hev.getWorkflowById, h], ?_, ?_⟩, hrun, ?_⟩
  · intro e x hx
    obtain ⟨x', hx', hid⟩ := hev.execution hs.executions_keyed hx
    obtain ⟨w, hw, -⟩ := hs.workflow e x hx
    refine ⟨x', hx', hid, fun hp => ⟨?_, hinput e x x' hx hx' hp⟩⟩
    have hst : (db.run e).status = x.status := by simp [run, hx]
    have hst' : (db'.run e).status = x'.status := by simp [run, hx']
    rw [← hst']
    rcases hrun e x w hx hw with hsame | hstep
    · rw [hsame, hst]
      exact hp
    · exact hstep.triggered (by rw [hst]; exact hp)
  · intro e i hi
    cases hn : db.node e i with
    | none => simp [status, hn] at hi
    | some r =>
      obtain ⟨hmem, rfl, -⟩ := node_some hn
      obtain ⟨x, hx⟩ := hs.node_execution r hmem
      obtain ⟨w, hw, -⟩ := hs.workflow _ x hx
      rcases hrun _ x w hx hw with hsame | hstep
      · exact (congrFun (congrArg DependencyRun.nodes hsame) i).trans hi
      · exact hstep.completed hi
  · intro e hnone x' hx'
    obtain ⟨x, hx, -⟩ := hev.symm.execution hs'.executions_keyed hx'
    rw [hnone] at hx
    cases hx

theorem submitted_advances {now : Time} (hs : db.Sound) (hwf : w.WellFormed)
    (hw : db.getWorkflowById w.workflowId = none) (he : db.getExecutionById e = none) :
    Advances db (submitted w e now db) := by
  have hne : ∀ e' x, db.getExecutionById e' = some x → e' ≠ e := by
    rintro e' x hx rfl
    rw [he] at hx
    cases hx
  have hrun : ∀ e', e' ≠ e → (submitted w e now db).run e' = db.run e' := by
    intro e' hne
    have hst : (submitted w e now db).status e' = db.status e' := funext fun i => by
      rw [status, status, submitted_node_ne hne]
    rw [run, run, hst, submitted_getExecutionById he, if_neg hne]
  refine ⟨submitted_sound hs hwf hw he, ⟨fun id w' h => Table.lookup_append_of_some h, ?_, ?_⟩, ?_, ?_⟩
  · intro e' x hx
    exact ⟨x, Table.lookup_append_of_some hx, rfl, fun hp => ⟨hp, rfl⟩⟩
  · intro e' i hi
    by_cases hee : e' = e
    · subst hee
      cases hn : db.node e' i with
      | none => simp [status, hn] at hi
      | some r =>
        obtain ⟨hmem, hre, -⟩ := node_some hn
        obtain ⟨x, hx⟩ := hs.node_execution r hmem
        rw [hre, he] at hx
        cases hx
    · rwa [status, submitted_node_ne hee]
  · intro e' x w' hx _
    exact .inl (hrun e' (hne e' x hx))
  · intro e' hnone x hx
    rw [submitted_getExecutionById he] at hx
    split at hx
    · rename_i hee
      subst hee
      rw [run, submitted_getExecutionById he, if_pos rfl]
      have hst : (submitted w e' now db).status e' = fun _ => .pending := funext fun i => submitted_status hs he
      rw [hst]
      rfl
    · rw [hnone] at hx
      cases hx

theorem triggerCommit_advances {now : Time} {input : Option (Dict Json)} {messageId : Uuid} (hs : db.Sound)
    (h : triggerCommit x input messageId now db = .ok db') : Advances db db' := by
  obtain ⟨⟨r, hr, hp⟩, rfl⟩ := triggerCommit_ok hs h
  refine .of_evolves hs (updateExecutionIfCurrent_evolves.trans pushOutbox_evolves) ?_ ?_
  · intro e x₀ x' hx₀ hx' hnp
    rw [pushOutbox_getExecutionById, getExecutionById_updateExecutionIfCurrent, hx₀] at hx'
    simp only [Option.map_some, hnp, and_false, if_false, Option.some.injEq] at hx'
    rw [← hx']
  · intro e x₀ w hx₀ _
    rw [pushOutbox_run]
    have hst : (db.updateExecutionIfCurrent x.executionId .pending .running (some now) none input).2.status e =
        db.status e := rfl
    by_cases he : e = x.executionId
    · subst he
      right
      have hrun : (db.updateExecutionIfCurrent x.executionId .pending .running (some now) none input).2.run
          x.executionId = { db.run x.executionId with status := .running } := by
        rw [run, run, hst, getExecutionById_updateExecutionIfCurrent, hr]
        simp [hp]
      rw [hrun]
      exact .trigger (by simp [run, hr, hp])
    · left
      rw [run, run, hst, getExecutionById_updateExecutionIfCurrent]
      simp [he]

theorem Ends.advances {event : TaskCompletionEvent} {output : Json} {db₁ : Database} (hs : db.Sound)
    (hsame : SameRuns db db₁) (h : Ends event output db₁ db')
    (hstep : ∀ x w, db.getExecutionById event.executionId = some x → db.getWorkflowById x.workflowId = some w →
      DependencyRun.Step w.nodeIds w.DependsOn (db.run event.executionId) (db'.run event.executionId)) :
    Advances db db' := by
  refine .of_evolves hs (hsame.evolves.trans h.evolves) ?_ ?_
  · intro e x x' hx hx' _
    obtain ⟨x₁, hx₁, hi⟩ := h.input e x' hx'
    rw [hsame.getExecutionById, hx] at hx₁
    cases hx₁
    exact hi.symm
  · intro e x w hx hw
    by_cases he : e = event.executionId
    · subst he
      exact .inr (hstep x w hx hw)
    · exact .inl ((h.others e he).trans hsame.run)

theorem processed_advances {policy : RetryPolicy} {event : TaskCompletionEvent} {next : Uuid} {now : Time}
    {decision : TaskCompletionDecision} (hs : db.Sound) (h : Processed policy event next now db decision db') :
    Advances db db' := by
  cases h with
  | early _ consult =>
    have hsame := consult.sameRuns
    exact .of_same hs hsame.workflows hsame.executions hsame.nodes
  | late _ _ consult =>
    have hsame := consult.sameRuns
    exact .of_same hs hsame.workflows hsame.executions hsame.nodes
  | completed node running _ execution workflow consult ends run _ _ =>
    refine Ends.advances hs consult.sameRuns ends fun x w hx hw => ?_
    rw [execution] at hx
    cases hx
    rw [workflow] at hw
    cases hw
    rw [run]
    exact .complete ((hs.mem_nodeIds execution workflow).2 ⟨_, node⟩) (by rw [← running]; exact status_of_node node)
  | failed node running _ execution workflow consult ends run _ _ =>
    refine Ends.advances hs consult.sameRuns ends fun x w hx hw => ?_
    rw [execution] at hx
    cases hx
    rw [workflow] at hw
    cases hw
    rw [run]
    exact .fail ((hs.mem_nodeIds execution workflow).2 ⟨_, node⟩) (by rw [← running]; exact status_of_node node)

/-- What `registerTask` writes, whether or not the task was known. -/
theorem registerTask_frame {n : WorkflowNode} {input : Dict Json} {attemptId : Uuid} {now : Time}
    (h : registerTask x n input attemptId now db = .ok db') :
    db'.workflows = db.workflows ∧ db'.workflowExecutions = db.workflowExecutions ∧
      db'.nodeExecutions = db.nodeExecutions ∧ ∃ a, db'.outboxEvents = db.outboxEvents ++ [taskRow x n input a now] ∧
        db'.outboxInserted = db.outboxInserted ++ [taskRow x n input a now] := by
  obtain ⟨⟨a, db₁⟩, h₁, h⟩ := Except.bind_eq_ok.1 h
  obtain ⟨db₂, h₂, h₁⟩ := Except.bind_eq_ok.1 h₁
  have hsame : SameRuns db db₂ := by
    unfold insertLogicalTask at h₂
    split at h₂
    · cases h₂
      exact .refl db
    · split at h₂ <;> cases h₂
      exact ⟨rfl, rfl, rfl, rfl, rfl⟩
  have hsame₁ : SameRuns db₂ db₁ := by
    split at h₁
    · cases h₁
      exact .refl _
    · obtain ⟨db₃, h₃, h₁⟩ := Except.bind_eq_ok.1 h₁
      cases h₁
      unfold insertAttempt at h₃
      split at h₃ <;> cases h₃
      exact ⟨rfl, rfl, rfl, rfl, rfl⟩
  obtain rfl : db' = db₁.pushOutbox [taskRow x n input a now] := addMessage_ok h
  refine ⟨hsame₁.workflows.trans hsame.workflows, hsame₁.executions.trans hsame.executions,
    hsame₁.nodes.trans hsame.nodes, a, ?_, ?_⟩
  · exact congrArg (· ++ _) (hsame₁.outbox.trans hsame.outbox)
  · exact congrArg (· ++ _) (hsame₁.inserted.trans hsame.inserted)

theorem Startable.no_failed {n : WorkflowNode} (h : db.Startable e n) {d : String}
    (hd : d ∈ n.dependencies) : statusMap (db.getNodeExecutionsForExecution e) d ≠ some .failed := by
  obtain ⟨x, w, -, -, -, -, hdeps⟩ := h
  have := hdeps d hd
  rw [statusMap_node]
  intro hf
  rw [status, hf] at this
  cases this

theorem dispatched_outbox {strFloat : Rat → String} {n : WorkflowNode} {attemptId : Uuid} {now : Time}
    {outcome : DispatchOutcome} (h : Dispatched strFloat x n attemptId now db outcome db') :
    ∃ rows, db'.outboxEvents = db.outboxEvents ++ rows ∧ db'.outboxInserted = db.outboxInserted ++ rows ∧
      ∀ row ∈ rows, row.messageType = .task := by
  cases h with
  | dependencyFailed =>
    have hsame := (failPendingNodes_fields db x.executionId [n.id] "A required dependency failed." now).1
    exact ⟨[], by simpa using hsame.outbox.symm, by simpa using hsame.inserted.symm, by simp⟩
  | alreadyStarted => exact ⟨[], by simp, by simp, by simp⟩
  | dispatched _ _ _ registers =>
    obtain ⟨-, -, -, a, h₁, h₂⟩ := registerTask_frame registers
    exact ⟨[_], h₁, h₂, by simp [taskRow, outboxRow]⟩

/-- A dispatch that finds no failed dependency starts a pending node or changes nothing. -/
theorem dispatched_starts {strFloat : Rat → String} {n : WorkflowNode} {attemptId : Uuid} {now : Time}
    {outcome : DispatchOutcome} (hn : db.Startable x.executionId n)
    (h : Dispatched strFloat x n attemptId now db outcome db') :
    (db' = db ∧ ∀ r, db.node x.executionId n.id = some r → r.status ≠ .pending) ∨
      (Evolves db db' ∧ (∀ e, db'.getExecutionById e = db.getExecutionById e) ∧
        db.status x.executionId n.id = .pending ∧ ∀ e, db'.status e = if e = x.executionId then
          Function.update (db.status e) n.id .running else db.status e) := by
  cases h with
  | dependencyFailed dep failed => exact absurd failed (hn.no_failed dep)
  | alreadyStarted started => exact .inl ⟨rfl, started⟩
  | @dispatched r input _ node pending _ registers =>
    obtain ⟨hw, hx, hnodes, -⟩ := registerTask_frame registers
    refine .inr ⟨claimPendingNodes_evolves.trans ⟨hw, by rw [hx], by rw [hnodes]⟩, ?_,
      (status_of_node node).trans pending, ?_⟩
    · intro e
      rw [getExecutionById, hx]
      unfold claimPendingNodes
      rfl
    · intro e
      funext i
      have hnode : db'.node e i = (db.claimPendingNodes x.executionId [n.id] now).2.node e i := by
        rw [Database.node, Database.node, hnodes]
      rw [status, hnode, node_claimPendingNodes]
      by_cases he : e = x.executionId
      · subst he
        by_cases hi : i = n.id
        · subst hi
          simp [node, pending]
        · simp [hi, status]
      · simp [he, status]

theorem dispatched_advances {strFloat : Rat → String} {n : WorkflowNode} {attemptId : Uuid} {now : Time}
    {outcome : DispatchOutcome} (hs : db.Sound) (hn : db.Startable x.executionId n)
    (h : Dispatched strFloat x n attemptId now db outcome db') : Advances db db' := by
  rcases dispatched_starts hn h with ⟨rfl, -⟩ | ⟨hev, hget, hpending, hst⟩
  · exact .of_same hs rfl rfl rfl
  · refine .of_evolves hs hev ?_ ?_
    · intro e x₀ x' hx₀ hx' _
      rw [hget, hx₀] at hx'
      cases hx'
      rfl
    · intro e x₀ w hx₀ hw₀
      by_cases he : e = x.executionId
      · subst he
        right
        obtain ⟨x₁, w₁, hx₁, hp, hw₁, hmem, hdeps⟩ := hn
        rw [hx₀] at hx₁
        cases hx₁
        rw [hw₀] at hw₁
        cases hw₁
        obtain ⟨w₂, hw₂, hwf, -⟩ := hs.workflow _ _ hx₀
        rw [hw₀] at hw₂
        cases hw₂
        have hrun : db'.run x.executionId =
            { db.run x.executionId with nodes := Function.update (db.run x.executionId).nodes n.id .running } := by
          rw [run, run, hget, hst, if_pos rfl]
        rw [hrun]
        refine .start (Workflow.mem_nodeIds.2 ⟨n, hmem, rfl⟩) (by simp [run, hx₀, hp]) ?_ ?_
        · exact hpending
        · intro d hd
          exact hdeps d ((hwf.dependsOn_iff hmem).1 hd)
      · left
        rw [run, run, hget, hst, if_neg he]

/-- What an orchestrator holds in memory is right about `db`. -/
structure Supports (db : Database) (phase : HandlingPhase) : Prop where
  ready : ∀ e ids, phase.ready = some (e, ids) → ∀ i ∈ ids, ∃ n, n.id = i ∧ db.Startable e n
  toDispatch : ∀ x nodes, phase.toDispatch = some (x, nodes) →
    (∃ x', db.getExecutionById x.executionId = some x' ∧ x'.status ≠ .pending ∧ x'.workflowId = x.workflowId ∧
      x'.inputData = x.inputData) ∧ ∀ n ∈ nodes, db.Startable x.executionId n

theorem Later.supports (h : Later db db') {phase : HandlingPhase} (hp : db.Supports phase) : db'.Supports phase := by
  refine ⟨fun e ids hr i hi => ?_, fun x nodes hd => ?_⟩
  · obtain ⟨n, hn, hst⟩ := hp.ready e ids hr i hi
    exact ⟨n, hn, h.startable hst⟩
  · obtain ⟨⟨x', hx', hnp, hid, hin⟩, hnodes⟩ := hp.toDispatch x nodes hd
    obtain ⟨x'', hx'', hid', hst⟩ := h.execution _ x' hx'
    exact ⟨⟨x'', hx'', (hst hnp).1, hid'.trans hid, (hst hnp).2.trans hin⟩, fun n hn => h.startable (hnodes n hn)⟩

end Database

namespace System

variable {cfg : Config} {s t : System}

/-- The invariant of all runs: executions are consistent, trigger events name triggered
executions, and every ready set still in memory is right. -/
structure Consistent (s : System) : Prop where
  sound : s.db.Sound
  runs : s.db.Consistent
  triggerRow : ∀ row ∈ s.db.outboxEvents, row.messageType = .executionTriggered →
    ∃ e, row.payload = .execution e ∧ s.db.Triggered e
  triggerEntry : ∀ entry ∈ s.events.entries, ∀ e, entry.eventType = .executionTriggered →
    entry.payload = .execution e → s.db.Triggered e
  supports : ∀ h ∈ s.handlings, s.db.Supports h.phase

theorem consistent_init : Consistent init := by
  refine ⟨⟨?_, ?_, ?_, ?_⟩, ?_, ?_, ?_, ?_⟩
  · simp [init, Database.empty, Table.Keyed]
  · simp [init, Database.empty, Table.Keyed]
  · simp [init, Database.empty]
  · intro e x hx
    simp [init, Database.empty, getExecutionById, Table.lookup] at hx
  · intro e x w hx
    simp [init, Database.empty, getExecutionById, Table.lookup] at hx
  · simp [init, Database.empty]
  · simp [init, GroupStream.empty]
  · simp [init]

/-- The common part of every step. -/
theorem Consistent.carry (h : Consistent s) (hadv : Advances s.db t.db)
    (houtbox : ∀ row ∈ t.db.outboxEvents, row.messageType = .executionTriggered →
      (∃ row₀ ∈ s.db.outboxEvents, row.content = row₀.content) ∨
        ∃ e, row.payload = .execution e ∧ t.db.Triggered e)
    (hevents : EventsFrom s t)
    (hhandlings : ∀ g ∈ t.handlings, g ∈ s.handlings ∨ t.db.Supports g.phase) : Consistent t := by
  refine ⟨hadv.sound, hadv.consistent h.sound h.runs, ?_, ?_, ?_⟩
  · intro row hrow htype
    rcases houtbox row hrow htype with ⟨row₀, hrow₀, hcontent⟩ | hnew
    · simp only [OutboxEventRecord.content, Prod.mk.injEq] at hcontent
      obtain ⟨e, hpayload, htrig⟩ := h.triggerRow row₀ hrow₀ (hcontent.2.1 ▸ htype)
      exact ⟨e, hcontent.2.2.2.2.trans hpayload, hadv.later.triggered htrig⟩
    · exact hnew
  · intro entry hentry e htype hpayload
    rcases hevents entry hentry with hold | ⟨row, hrow, -, rfl⟩
    · exact hadv.later.triggered (h.triggerEntry entry hold e htype hpayload)
    · obtain ⟨e', hp', htrig⟩ := h.triggerRow row hrow htype
      dsimp only at hpayload
      rw [hpayload] at hp'
      cases hp'
      exact hadv.later.triggered htrig
  · intro g hg
    rcases hhandlings g hg with hold | hnew
    · exact hadv.later.supports (h.supports g hold)
    · exact hnew

theorem EventsFrom.of_eq (h : t.events.entries = s.events.entries) : EventsFrom s t :=
  fun _ he => .inl (h ▸ he)

theorem Quiet.advances (h : Quiet s t) (hs : s.db.Sound) : Advances s.db t.db :=
  .of_same hs h.workflows h.executions h.nodes

theorem Quiet.consistent (hq : Quiet s t) (h : Consistent s) : Consistent t := by
  have hadv := hq.advances h.sound
  refine h.carry hadv (fun row hrow _ => .inl (hq.outbox row hrow)) hq.events fun g hg => .inr ?_
  obtain ⟨hdisp, hready⟩ := hq.handlings g hg
  refine ⟨fun e ids he i hi => ?_, fun x nodes hx => ?_⟩
  · obtain ⟨g₀, hg₀, he₀⟩ := hready e ids he
    exact (hadv.later.supports (h.supports g₀ hg₀)).ready e ids he₀ i hi
  · obtain ⟨g₀, hg₀, nodes₀, hx₀, hsub⟩ := hdisp x nodes hx
    obtain ⟨hexec, hnodes⟩ := (hadv.later.supports (h.supports g₀ hg₀)).toDispatch x nodes₀ hx₀
    exact ⟨hexec, fun n hn => hnodes n (hsub n hn)⟩

/-- A set at one position of the handlings leaves the others alone. -/
theorem handlings_set {k : Nat} {g : Handling} (P : Handling → Prop) (hg : P g) :
    ∀ h ∈ s.handlings.set k g, h ∈ s.handlings ∨ P h := by
  intro h hh
  rcases mem_set_cases hh with hh | rfl
  · exact .inl hh
  · exact .inr hg

theorem ready_startable {db : Database} {e : Uuid} {x : WorkflowExecutionRecord} {w : Workflow}
    (hx : db.getExecutionById e = some x) (hp : x.status ≠ .pending) (hw : db.getWorkflowById x.workflowId = some w)
    {ids : List String} (hids : ∀ i, i ∈ ids → ∃ n ∈ w.nodes, n.id = i ∧ db.status e i = .pending ∧
      ∀ d ∈ n.dependencies, db.status e d = .completed) {source : Source} {index : Nat} :
    db.Supports (Handling.mk source index (.evaluated e ids)).phase := by
  refine ⟨fun e' ids' hr i hi => ?_, fun x nodes hd => by simp [HandlingPhase.toDispatch] at hd⟩
  cases hr
  obtain ⟨n, hn, hid, -, hdeps⟩ := hids i hi
  exact ⟨n, hid, x, w, hx, hp, hw, hn, hdeps⟩

theorem Kind.advances (hk : Kind cfg s t) (h : Consistent s) : Advances s.db t.db := by
  cases hk with
  | submit _ wellFormed newWorkflow newExecution eq =>
    subst eq
    exact submitted_advances h.sound wellFormed newWorkflow newExecution
  | trigger _ commit eq =>
    subst eq
    exact triggerCommit_advances h.sound commit
  | process _ _ _ processed eq =>
    subst eq
    exact processed_advances h.sound (process_ok h.sound h.runs processed).2
  | @dispatch k j g x nodes n _ _ _ handling toDispatch node dispatched _ eq =>
    subst eq
    have hsup := (h.supports g (List.mem_of_getElem? handling)).toDispatch x nodes toDispatch
    exact dispatched_advances h.sound (hsup.2 n (List.mem_of_getElem? node))
      (dispatch_ok h.sound.nodes_keyed dispatched)
  | evaluate _ _ _ eq =>
    subst eq
    exact .of_same h.sound rfl rfl rfl
  | read _ _ _ eq =>
    subst eq
    exact .of_same h.sound rfl rfl rfl
  | quiet hq => exact hq.advances h.sound

theorem processed_supports {policy : RetryPolicy} {event : TaskCompletionEvent} {next : Uuid} {now : Time}
    {decision : TaskCompletionDecision} {db : Database} (h : Consistent s) (hadv : Advances s.db db)
    (hproc : Processed policy event next now s.db decision db) {source : Source} {index : Nat} :
    db.Supports (Handling.mk source index (.evaluated event.executionId decision.readyNodeIds)).phase := by
  have hnil : ∀ {ids : List String}, ids = [] →
      db.Supports (Handling.mk source index (.evaluated event.executionId ids)).phase := by
    rintro ids rfl
    refine ⟨fun e ids hr => ?_, fun x nodes hx => by simp [HandlingPhase.toDispatch] at hx⟩
    cases hr
    simp
  cases hproc with
  | early _ consult => exact hnil consult.early
  | late => exact hnil rfl
  | @completed r _ _ _ x w node running _ execution workflow _ _ _ _ ready =>
    have htrig : (s.db.run event.executionId).status ≠ .pending :=
      (h.runs _ x w execution workflow).triggered (n := event.nodeId) (by
        show s.db.status event.executionId event.nodeId ≠ .pending
        rw [status_of_node node, running]
        simp)
    have hp : x.status ≠ .pending := by simpa [Database.run, execution] using htrig
    obtain ⟨x', hx', hid, hp'⟩ := hadv.later.execution _ x execution
    exact ready_startable hx' (hp' hp).1 (hid ▸ hadv.later.workflow _ _ workflow) fun i hi => (ready i).1 hi
  | failed _ _ _ _ _ _ _ _ _ ready => exact hnil ready

theorem readyNodes_supports {db : Database} (hs : db.Sound) {e : Uuid} {ids : List String}
    {x : WorkflowExecutionRecord} {nodes : List WorkflowNode} {source : Source} {index : Nat}
    (h : db.Supports (.evaluated e ids)) (hne : ids ≠ []) (hreads : readyNodes e ids db = .ok (x, nodes)) :
    db.Supports (Handling.mk source index (.dispatching x nodes)).phase := by
  unfold readyNodes at hreads
  split at hreads
  · cases hreads
  · rename_i x₀ hx₀
    split at hreads
    · cases hreads
    · rename_i w hw
      cases hreads
      obtain ⟨w', hw', hwf, -⟩ := hs.workflow e x hx₀
      rw [hw] at hw'
      cases hw'
      have he := (execution_some hx₀).2
      refine ⟨fun e' ids' hr => by simp [HandlingPhase.ready] at hr, fun x' nodes' hd => ?_⟩
      cases hd
      rw [he]
      refine ⟨⟨x, hx₀, ?_, rfl, rfl⟩, fun n hn => ?_⟩
      · obtain ⟨i, hi⟩ := List.exists_mem_of_ne_nil ids hne
        obtain ⟨n, -, x₁, w₁, hx₁, hp, -⟩ := h.ready e ids rfl i hi
        rw [hx₀] at hx₁
        cases hx₁
        exact hp
      · obtain ⟨hmem, hid⟩ := List.mem_filter.1 hn
        obtain ⟨m, hm, x₁, w₁, hx₁, hp, hw₁, hmw, hdeps⟩ := h.ready e ids rfl n.id (by simpa using hid)
        rw [hx₀] at hx₁
        cases hx₁
        rw [hw] at hw₁
        cases hw₁
        rw [hwf.node_ext hmw hmem hm] at hdeps
        exact ⟨x, w, hx₀, hp, hw, hmem, hdeps⟩

theorem Kind.consistent (hk : Kind cfg s t) (h : Consistent s) : Consistent t := by
  have hadv := hk.advances h
  cases hk with
  | submit _ wellFormed newWorkflow newExecution eq =>
    subst eq
    exact h.carry hadv (fun row hrow _ => .inl ⟨row, hrow, rfl⟩) (.of_eq rfl) fun g hg => .inl hg
  | @trigger k request _ db commit eq =>
    subst eq
    obtain ⟨⟨r, hr, hp⟩, rfl⟩ := triggerCommit_ok h.sound commit
    refine h.carry hadv (fun row hrow _ => ?_) (.of_eq rfl) fun g hg => .inl hg
    rcases List.mem_append.1 hrow with hrow | hrow
    · exact .inl ⟨row, hrow, rfl⟩
    · rw [List.mem_singleton.1 hrow]
      refine .inr ⟨request.execution.executionId, rfl, ?_⟩
      refine ⟨_, getExecutionById_updateExecutionIfCurrent.trans
        (by rw [hr]; rfl), ?_⟩
      simp [hp]
  | @process k index event decision db handling entry _ processed eq =>
    subst eq
    have hproc := (process_ok h.sound h.runs processed).2
    refine h.carry hadv (fun row hrow htype => ?_) (.of_eq rfl)
      (handlings_set (fun g => db.Supports g.phase) ?_)
    · obtain ⟨rows, hrows, -, hann⟩ := hproc.outbox
      rw [hrows] at hrow
      rcases List.mem_append.1 hrow with hrow | hrow
      · exact .inl ⟨row, hrow, rfl⟩
      · exact absurd htype (hann row hrow).1
    · exact processed_supports h hadv hproc
  | @dispatch k j g x nodes n phase result db handling toDispatch node dispatched phase_eq eq =>
    subst eq
    refine h.carry hadv (fun row hrow htype => ?_) (.of_eq rfl)
      (handlings_set (fun g => db.Supports g.phase) ?_)
    · obtain ⟨rows, hrows, -, htask⟩ := dispatched_outbox (dispatch_ok h.sound.nodes_keyed dispatched)
      rw [hrows] at hrow
      rcases List.mem_append.1 hrow with hrow | hrow
      · exact .inl ⟨row, hrow, rfl⟩
      · rw [htask row hrow] at htype
        cases htype
    · have hold := hadv.later.supports (h.supports g (List.mem_of_getElem? handling))
      obtain ⟨hexec, hnodes⟩ := hold.toDispatch x nodes toDispatch
      refine ⟨fun e ids hr => ?_, fun x' nodes' hx' => ?_⟩
      · rcases phase_eq with ⟨-, rfl⟩ | ⟨-, rfl⟩ <;> simp [HandlingPhase.ready] at hr
      · have heq : some (x, nodes.eraseIdx j) = some (x', nodes') := by
          rw [← hx']
          rcases phase_eq with ⟨-, rfl⟩ | ⟨-, rfl⟩ <;> rfl
        cases heq
        exact ⟨hexec, fun m hm => hnodes m (List.mem_of_mem_eraseIdx hm)⟩
  | @evaluate k index e ready eventId handling entry evaluated eq =>
    subst eq
    refine h.carry hadv (fun row hrow _ => .inl ⟨row, hrow, rfl⟩) (.of_eq rfl)
      (handlings_set (fun g => s.db.Supports g.phase) ?_)
    obtain ⟨x, hx, hp⟩ := h.triggerEntry _ (List.mem_of_getElem? entry) e rfl rfl
    obtain ⟨w, hw, -⟩ := h.sound.workflow e x hx
    simp only [evaluateReadiness, hx] at evaluated
    exact ready_startable hx hp hw fun i hi => (evaluateReadinessFor_ok hw evaluated).1 hi
  | @read k index source e ready x nodes handling nonempty reads eq =>
    subst eq
    refine h.carry hadv (fun row hrow _ => .inl ⟨row, hrow, rfl⟩) (.of_eq rfl)
      (handlings_set (fun g => s.db.Supports g.phase) ?_)
    exact readyNodes_supports h.sound (h.supports _ (List.mem_of_getElem? handling)) nonempty reads
  | quiet hq => exact hq.consistent h

theorem reachable_consistent (h : Reachable cfg anyStep s) : Consistent s :=
  Transition.Reachable.invariant consistent_init (fun _ _ _ _ hs _ ht => (step_kind hs.sound ht).consistent hs) h

end System

end WorkflowEngine
