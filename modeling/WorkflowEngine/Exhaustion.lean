import WorkflowEngine.Tasks

/-!
# Why a node has failed

A failed node has used up its own attempts, or something it depends on has failed. What an
attempt has recorded about its failure is never taken back, and a running node fails only in
the transaction that records the failure of its last attempt.
-/
namespace WorkflowEngine

open Database

namespace Database

variable {db db' : Database} {e : Uuid} {i : String}

/-- The node's own task has a failed attempt that was allowed no successor. -/
def Exhausted (maxAttempts : Nat) (db : Database) (e : Uuid) (i : String) : Prop :=
  ∃ r ∈ db.taskAttempts, r.taskId = createTaskId e i ∧ maxAttempts ≤ r.attemptNumber ∧ r.failureEventId.isSome

/-- Attempts stay where they are, and what has failed stays failed. -/
def KeepsFailures (db db' : Database) : Prop :=
  ∀ r ∈ db.taskAttempts, ∃ r' ∈ db'.taskAttempts, r'.slot = r.slot ∧
    (r.failureEventId.isSome → r'.failureEventId.isSome)

theorem KeepsFailures.of_eq (h : db'.taskAttempts = db.taskAttempts) : KeepsFailures db db' :=
  fun r hr => ⟨r, h ▸ hr, rfl, fun hf => hf⟩

theorem KeepsFailures.exhausted (h : KeepsFailures db db') {maxAttempts : Nat} (hx : Exhausted maxAttempts db e i) :
    Exhausted maxAttempts db' e i := by
  obtain ⟨r, hr, htask, hmax, hf⟩ := hx
  obtain ⟨r', hr', hslot, hf'⟩ := h r hr
  simp only [TaskAttemptRecord.slot, Prod.mk.injEq] at hslot
  exact ⟨r', hr', hslot.2.1.trans htask, hslot.2.2 ▸ hmax, hf' hf⟩

/-- Rows stay, and so do the events that they hold. -/
def KeepsEvents (db db' : Database) : Prop :=
  ∀ r ∈ db.taskAttempts, ∃ r' ∈ db'.taskAttempts, r'.slot = r.slot ∧
    (r.failureEventId.isSome → r'.failureEventId.isSome) ∧ (r.completionEventId.isSome → r'.completionEventId.isSome)

theorem KeepsEvents.of_eq (h : db'.taskAttempts = db.taskAttempts) : KeepsEvents db db' :=
  fun r hr => ⟨r, h ▸ hr, rfl, id, id⟩

theorem KeepsEvents.of_update {p : TaskAttemptRecord → Bool} {f : TaskAttemptRecord → TaskAttemptRecord}
    {l : List TaskAttemptRecord} (h : db'.taskAttempts = Table.updateWhere p f db.taskAttempts ++ l)
    (hslot : ∀ r, (f r).slot = r.slot) (hfailure : ∀ r, r.failureEventId.isSome → (f r).failureEventId.isSome)
    (hcompletion : ∀ r, r.completionEventId.isSome → (f r).completionEventId.isSome) : KeepsEvents db db' := by
  intro r hr
  refine ⟨if p r then f r else r, ?_, ?_⟩
  · rw [h]
    exact List.mem_append_left _ (List.mem_map_of_mem hr)
  · split
    · exact ⟨hslot r, hfailure r, hcompletion r⟩
    · exact ⟨rfl, id, id⟩

theorem consulted_keepsEvents {policy : RetryPolicy} {event : TaskCompletionEvent}
    {existing : NodeExecutionRecord} {next : Uuid} {now : Time} {early : Option TaskCompletionDecision}
    (h : Consulted policy event existing next now db early db') : KeepsEvents db db' := by
  cases h with
  | success =>
    exact .of_update (l := []) (List.append_nil _).symm (fun _ => rfl) (fun _ h => h) fun _ _ => rfl
  | exhausted =>
    exact .of_update (l := []) (List.append_nil _).symm (fun _ => rfl) (fun _ _ => rfl) fun _ h => h
  | retry => exact .of_update rfl (fun _ => rfl) (fun _ _ => rfl) fun _ h => h
  | _ => exact .of_eq rfl

theorem processed_keepsEvents {policy : RetryPolicy} {event : TaskCompletionEvent} {next : Uuid} {now : Time}
    {decision : TaskCompletionDecision} (h : Processed policy event next now db decision db') :
    KeepsEvents db db' := by
  obtain ⟨_, _, db₁, consult, -, hattempts, -⟩ := h.consulted
  intro r hr
  rw [hattempts]
  exact consulted_keepsEvents consult r hr

theorem KeepsEvents.failures (h : KeepsEvents db db') : KeepsFailures db db' := by
  intro r hr
  obtain ⟨r', hr', hslot, hfailure, -⟩ := h r hr
  exact ⟨r', hr', hslot, hfailure⟩

/-- The one transaction that fails a running node: its last attempt is recorded as failed. -/
theorem processed_exhausted {policy : RetryPolicy} {event : TaskCompletionEvent} {next : Uuid} {now : Time}
    {decision : TaskCompletionDecision} (h : Processed policy event next now db decision db')
    (hid : event.taskId = createTaskId event.executionId event.nodeId)
    (htask : db.status event.executionId event.nodeId = .running → db.getLogicalTask event.taskId ≠ none)
    (hold : db.status e i = .running) (hnew : db'.status e i = .failed) : Exhausted policy.maxAttempts db' e i := by
  have hrun : ∀ {db₁ : Database}, db₁.run e = db.run e → db₁.status e i ≠ .failed := by
    intro db₁ hr
    rw [show db₁.status e i = db.status e i from congrFun (congrArg DependencyRun.nodes hr) i, hold]
    simp
  cases h with
  | early _ consult => exact absurd hnew (hrun consult.sameRuns.run)
  | late _ _ consult => exact absurd hnew (hrun consult.sameRuns.run)
  | completed node running _ _ _ consult ends run _ _ =>
    by_cases he : e = event.executionId
    · subst he
      have hst : db'.status event.executionId i =
          Function.update (db.status event.executionId) event.nodeId .completed i :=
        congrFun ((congrArg DependencyRun.nodes run).trans DependencyRun.settle_nodes) i
      rw [hst] at hnew
      by_cases hi : i = event.nodeId
      · simp [hi] at hnew
      · simp [hi, hold] at hnew
    · exact absurd hnew (hrun ((ends.others e he).trans consult.sameRuns.run))
  | @failed existing _ db₁ _ x w node running status _ _ consult ends run _ _ =>
    by_cases he : e = event.executionId
    · subst he
      have hst : db'.status event.executionId i =
          DependencyRun.failFrom w.DependsOn (db.status event.executionId) event.nodeId i :=
        congrFun ((congrArg DependencyRun.nodes run).trans DependencyRun.settle_nodes) i
      have hi : i = event.nodeId := by
        by_contra hi
        rw [hst, DependencyRun.failFrom_of_not_pending hi (by simp [hold]), hold] at hnew
        cases hnew
      subst hi
      generalize hearly : (none : Option TaskCompletionDecision) = early at consult
      cases consult with
      | failureUntracked _ task => exact absurd task (htask hold)
      | @exhausted r _ _ _ _ _ counts last =>
        have hmem := (attempt_some counts.attempt).1
        have hida := (attempt_some counts.attempt).2
        refine ⟨_, by rw [ends.attempts]; exact Table.mem_updateWhere.2 ⟨r, hmem, rfl⟩, ?_⟩
        simp [hida, failedWith, counts.task, hid, last]
      | successUntracked status' => rw [status] at status'; cases status'
      | successKnown status' => rw [status] at status'; cases status'
      | success status' => rw [status] at status'; cases status'
      | failureDuplicate => cases hearly
      | retry => cases hearly
    · exact absurd hnew (hrun ((ends.others e he).trans consult.sameRuns.run))

end Database

namespace System

variable {cfg : Config} {s t : System} {e : Uuid} {i : String}

/-- Every failed node has a reason. -/
def FailuresExplained (cfg : Config) (s : System) : Prop :=
  ∀ e i, s.db.status e i = .failed → Exhausted cfg.policy.maxAttempts s.db e i ∨
    ∃ x w d, s.db.getExecutionById e = some x ∧ s.db.getWorkflowById x.workflowId = some w ∧ w.DependsOn i d ∧
      s.db.status e d = .failed

theorem Dispatches.getLogicalTask (h : Dispatches s)
    (hst : s.db.status e i = .running ∨ s.db.status e i = .completed) :
    s.db.getLogicalTask (createTaskId e i) ≠ none := by
  obtain ⟨-, ⟨task, -, -, -, htask, hid, -⟩, -⟩ := (h.node e i).resolve_right fun hr => hr.2.2 hst
  have hmem : task ∈ s.db.tasksOf e i := by simp [htask]
  intro hnone
  exact Table.lookup_none.1 hnone task (List.mem_filter.1 hmem).1 hid

theorem Kind.keepsFailures (hk : Kind cfg s t) (hc : Consistent s) (hd : Dispatches s) : KeepsFailures s.db t.db := by
  cases hk with
  | submit _ _ _ _ eq => subst eq; exact .of_eq rfl
  | trigger _ commit eq =>
    subst eq
    obtain ⟨-, rfl⟩ := triggerCommit_ok hc.sound commit
    exact .of_eq rfl
  | process _ _ _ processed eq =>
    subst eq
    exact (processed_keepsEvents (process_ok hc.sound hc.runs processed).2).failures
  | dispatch handling toDispatch node dispatched _ eq =>
    subst eq
    rcases dispatch_cases hc hd handling toDispatch node dispatched with ⟨rfl, -⟩ | ⟨_, _, -, -, -, -, rfl⟩
    · exact .of_eq rfl
    · exact fun r hr => ⟨r, List.mem_append_left _ hr, rfl, fun hf => hf⟩
  | evaluate _ _ _ eq => subst eq; exact .of_eq rfl
  | read _ _ _ eq => subst eq; exact .of_eq rfl
  | quiet hq =>
    intro r hr
    have hmem : r.identity ∈ t.db.taskAttempts.map (·.identity) := hq.attempts ▸ List.mem_map_of_mem hr
    obtain ⟨r', hr', he⟩ := List.mem_map.1 hmem
    simp only [TaskAttemptRecord.identity, Prod.mk.injEq] at he
    exact ⟨r', hr', by simp [TaskAttemptRecord.slot, he], by simp [he]⟩

/-- A running node that a step fails has just exhausted its attempts. -/
theorem Kind.exhausts (hk : Kind cfg s t) (hc : Consistent s) (hd : Dispatches s)
    (hold : s.db.status e i = .running) (hnew : t.db.status e i = .failed) :
    Exhausted cfg.policy.maxAttempts t.db e i := by
  have hsame : t.db.status e i = s.db.status e i → False := by
    intro hst
    rw [hst, hold] at hnew
    cases hnew
  cases hk with
  | submit _ _ _ newExecution eq =>
    subst eq
    exact (hsame (submitted_status_eq hc.sound newExecution)).elim
  | trigger _ commit eq =>
    subst eq
    obtain ⟨-, rfl⟩ := triggerCommit_ok hc.sound commit
    exact (hsame rfl).elim
  | process _ _ _ processed eq =>
    subst eq
    obtain ⟨hid, hproc⟩ := process_ok hc.sound hc.runs processed
    exact processed_exhausted hproc hid (fun hr => hid ▸ hd.getLogicalTask (.inl hr)) hold hnew
  | dispatch handling toDispatch node dispatched _ eq =>
    subst eq
    rcases dispatch_cases hc hd handling toDispatch node dispatched with
      ⟨rfl, -⟩ | ⟨r, input, hnode, pending, -, -, rfl⟩
    · exact (hsame rfl).elim
    · simp only [registered_status _ _ _ hnode pending] at hnew
      split at hnew
      · cases hnew
      · rw [hold] at hnew
        cases hnew
  | evaluate _ _ _ eq => subst eq; exact (hsame rfl).elim
  | read _ _ _ eq => subst eq; exact (hsame rfl).elim
  | quiet hq => exact (hsame (status_of_nodes hq.nodes e i)).elim

theorem Kind.failuresExplained (hk : Kind cfg s t) (hc : Consistent s) (hd : Dispatches s)
    (h : FailuresExplained cfg s) : FailuresExplained cfg t := by
  have hadv := hk.advances hc
  intro e i hnew
  cases hn : t.db.node e i with
  | none => simp [status, hn] at hnew
  | some r =>
    obtain ⟨hmem, rfl, -⟩ := node_some hn
    obtain ⟨x', hx'⟩ := hadv.sound.node_execution r hmem
    cases hx : s.db.getExecutionById r.workflowExecutionId with
    | none =>
      have hstart := hadv.refines.new _ hx x' hx'
      have : (t.db.run r.workflowExecutionId).nodes i = .failed := hnew
      rw [hstart] at this
      cases this
    | some x =>
      obtain ⟨w, hw, -⟩ := hc.sound.workflow _ x hx
      obtain ⟨x'', hx'', hid, -⟩ := hadv.later.execution _ x hx
      have hw' := hid ▸ hadv.later.workflow _ _ hw
      have hstays : ∀ d, s.db.status r.workflowExecutionId d = .failed →
          t.db.status r.workflowExecutionId d = .failed := by
        intro d hf
        rcases hadv.refines.old _ x w hx hw with hrun | hstep
        · exact (congrFun (congrArg DependencyRun.nodes hrun) d).trans hf
        · exact hstep.failed (n := d) hf
      -- a reason found before the step is still one after it
      have hkeep : s.db.status r.workflowExecutionId i = .failed →
          Exhausted cfg.policy.maxAttempts t.db r.workflowExecutionId i ∨
            ∃ x w d, t.db.getExecutionById r.workflowExecutionId = some x ∧
              t.db.getWorkflowById x.workflowId = some w ∧ w.DependsOn i d ∧
              t.db.status r.workflowExecutionId d = .failed := by
        intro hold
        rcases h _ i hold with hex | ⟨x₁, w₁, d, hx₁, hw₁, hdep, hf⟩
        · exact .inl ((hk.keepsFailures hc hd).exhausted hex)
        · rw [hx] at hx₁
          cases hx₁
          rw [hw] at hw₁
          cases hw₁
          exact .inr ⟨x'', w, d, hx'', hw', hdep, hstays d hf⟩
      rcases hadv.refines.old _ x w hx hw with hrun | hstep
      · exact hkeep ((congrFun (congrArg DependencyRun.nodes hrun) i).symm.trans hnew)
      · rcases hstep.newly_failed (n := i) hnew with hold | hrunning | ⟨d, hdep, hf⟩
        · exact hkeep hold
        · exact .inl (hk.exhausts hc hd hrunning hnew)
        · exact .inr ⟨x'', w, d, hx'', hw', hdep, hf⟩

theorem reachable_failuresExplained (h : Reachable cfg anyStep s) : FailuresExplained cfg s := by
  refine Transition.Reachable.invariant ?_ (fun _ _ _ hr hs _ ht =>
    (step_kind (reachable_consistent hr).sound ht).failuresExplained (reachable_consistent hr)
      (reachable_dispatches hr) hs) h
  intro e i hf
  simp [status, node, Table.lookup, init, Database.empty] at hf

end System

end WorkflowEngine
