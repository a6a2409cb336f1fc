import WorkflowEngine.Identifiers

/-!
# The attempts of a task

They are numbered from one up to the limit, and only the last one may not have failed; a
running node has such an attempt. So a failure that counts is the failure of the last
attempt, and its successor is not there yet.
-/
namespace WorkflowEngine

open Database

/-- Attempts are numbered without gaps, and all but the last of a task have failed. -/
structure Numbered (maxAttempts : Nat) (l : List TaskAttemptRecord) : Prop where
  unique : ∀ r ∈ l, ∀ r' ∈ l, r.taskId = r'.taskId → r.attemptNumber = r'.attemptNumber → r.attemptId = r'.attemptId
  closed : ∀ r ∈ l, ∀ r' ∈ l, r.taskId = r'.taskId → r.attemptNumber < r'.attemptNumber → r.failureEventId.isSome
  previous : ∀ r ∈ l, 1 < r.attemptNumber → ∃ r' ∈ l, r'.taskId = r.taskId ∧ r'.attemptNumber + 1 = r.attemptNumber
  bounded : ∀ r ∈ l, 1 ≤ r.attemptNumber ∧ r.attemptNumber ≤ maxAttempts

namespace Numbered

variable {maxAttempts : Nat} {l l' : List TaskAttemptRecord}

/-- The attempts stay, and what has failed stays failed. -/
theorem carry (h : Numbered maxAttempts l)
    (hfrom : ∀ r' ∈ l', ∃ r ∈ l, r'.slot = r.slot ∧ (r.failureEventId.isSome → r'.failureEventId.isSome))
    (hto : ∀ r ∈ l, ∃ r' ∈ l', r'.slot = r.slot) : Numbered maxAttempts l' := by
  simp only [TaskAttemptRecord.slot, Prod.mk.injEq] at hfrom hto
  refine ⟨fun r hr r' hr' htask hnumber => ?_, fun r hr r' hr' htask hlt => ?_, fun r hr hlt => ?_, fun r hr => ?_⟩
  · obtain ⟨q, hq, ⟨h₁, h₂, h₃⟩, -⟩ := hfrom r hr
    obtain ⟨q', hq', ⟨h₁', h₂', h₃'⟩, -⟩ := hfrom r' hr'
    rw [h₁, h₁']
    exact h.unique q hq q' hq' (h₂ ▸ h₂' ▸ htask) (h₃ ▸ h₃' ▸ hnumber)
  · obtain ⟨q, hq, ⟨h₁, h₂, h₃⟩, hfail⟩ := hfrom r hr
    obtain ⟨q', hq', ⟨h₁', h₂', h₃'⟩, -⟩ := hfrom r' hr'
    exact hfail (h.closed q hq q' hq' (h₂ ▸ h₂' ▸ htask) (h₃ ▸ h₃' ▸ hlt))
  · obtain ⟨q, hq, ⟨-, h₂, h₃⟩, -⟩ := hfrom r hr
    obtain ⟨p, hp, htask, hnumber⟩ := h.previous q hq (h₃ ▸ hlt)
    obtain ⟨p', hp', -, h₂', h₃'⟩ := hto p hp
    exact ⟨p', hp', h₂'.trans (htask.trans h₂.symm), by rw [h₃', hnumber, h₃]⟩
  · obtain ⟨q, hq, ⟨-, -, h₃⟩, -⟩ := hfrom r hr
    rw [h₃]
    exact h.bounded q hq

theorem of_identity (h : Numbered maxAttempts l) (heq : l'.map (·.identity) = l.map (·.identity)) :
    Numbered maxAttempts l' := by
  have hmem : ∀ {l₁ l₂ : List TaskAttemptRecord}, l₁.map (·.identity) = l₂.map (·.identity) → ∀ r ∈ l₁, ∃ r' ∈ l₂,
      r.slot = r'.slot ∧ r.failureEventId = r'.failureEventId := by
    intro l₁ l₂ heq r hr
    have hr' : r.identity ∈ l₂.map (·.identity) := heq ▸ List.mem_map_of_mem hr
    obtain ⟨r', hr', he⟩ := List.mem_map.1 hr'
    simp only [TaskAttemptRecord.identity, Prod.mk.injEq] at he
    exact ⟨r', hr', by simp [TaskAttemptRecord.slot, he], he.2.2.2.symm⟩
  refine h.carry (fun r' hr' => ?_) fun r hr => ?_
  · obtain ⟨r, hr, hslot, hfail⟩ := hmem heq r' hr'
    exact ⟨r, hr, hslot, fun hf => by rw [hfail]; exact hf⟩
  · obtain ⟨r', hr', hslot, -⟩ := hmem heq.symm r hr
    exact ⟨r', hr', hslot.symm⟩

/-- The next attempt of a task, or the first one. -/
theorem append (h : Numbered maxAttempts l) {r : TaskAttemptRecord}
    (hbelow : ∀ p ∈ l, p.taskId = r.taskId → p.attemptNumber < r.attemptNumber ∧ p.failureEventId.isSome)
    (hprevious : 1 < r.attemptNumber → ∃ p ∈ l, p.taskId = r.taskId ∧ p.attemptNumber + 1 = r.attemptNumber)
    (hbounded : 1 ≤ r.attemptNumber ∧ r.attemptNumber ≤ maxAttempts) : Numbered maxAttempts (l ++ [r]) := by
  have hmem : ∀ {p : TaskAttemptRecord}, p ∈ l ++ [r] → p ∈ l ∨ p = r := by
    intro p hp
    simpa using hp
  refine ⟨fun p hp q hq htask hnumber => ?_, fun p hp q hq htask hlt => ?_, fun p hp hlt => ?_, fun p hp => ?_⟩
  · rcases hmem hp with hpl | rfl <;> rcases hmem hq with hql | rfl
    · exact h.unique p hpl q hql htask hnumber
    · have := (hbelow p hpl htask).1
      omega
    · have := (hbelow q hql htask.symm).1
      omega
    · rfl
  · rcases hmem hp with hpl | rfl <;> rcases hmem hq with hql | rfl
    · exact h.closed p hpl q hql htask hlt
    · exact (hbelow p hpl htask).2
    · have := (hbelow q hql htask.symm).1
      omega
    · omega
  · rcases hmem hp with hpl | rfl
    · obtain ⟨q, hq, hrest⟩ := h.previous p hpl hlt
      exact ⟨q, List.mem_append_left _ hq, hrest⟩
    · obtain ⟨q, hq, hrest⟩ := hprevious hlt
      exact ⟨q, List.mem_append_left _ hq, hrest⟩
  · rcases hmem hp with hpl | rfl
    · exact h.bounded p hpl
    · exact hbounded

end Numbered

namespace Database

variable {db db' : Database}

/-- A failure that counts closes the last attempt. -/
theorem FailureCounts.last {maxAttempts : Nat} (h : Numbered maxAttempts db.taskAttempts)
    {taskId attemptId eventId : Uuid} {r : TaskAttemptRecord} (hr : FailureCounts taskId attemptId eventId db r)
    {p : TaskAttemptRecord} (hp : p ∈ db.taskAttempts) (htask : p.taskId = r.taskId) :
    p.attemptNumber ≤ r.attemptNumber := by
  by_contra hlt
  have := h.closed r (attempt_some hr.attempt).1 p hp htask.symm (by omega)
  rw [hr.open'] at this
  cases this

theorem updateAttempt_failedWith {a eventId : Uuid} {errorMessage errorType : String} {now : Time} :
    (∀ r' ∈ (db.updateAttempt a (failedWith eventId errorMessage errorType now)).taskAttempts, ∃ r ∈ db.taskAttempts,
      r'.slot = r.slot ∧ (r.failureEventId.isSome → r'.failureEventId.isSome) ∧
        (r.attemptId = a → r'.failureEventId.isSome)) ∧
    ∀ r ∈ db.taskAttempts, ∃ r' ∈ (db.updateAttempt a (failedWith eventId errorMessage errorType now)).taskAttempts,
      r'.slot = r.slot ∧ (r.attemptId ≠ a → r' = r) := by
  refine ⟨fun r' hr' => ?_, fun r hr => ⟨_, Table.mem_updateWhere.2 ⟨r, hr, rfl⟩, ?_, fun hne => by simp [hne]⟩⟩
  · obtain ⟨r, hr, rfl⟩ := Table.mem_updateWhere.1 hr'
    refine ⟨r, hr, ?_, fun hf => ?_, fun hid => by simp [hid, failedWith]⟩
    · split <;> rfl
    · split
      · rfl
      · exact hf
  · split <;> rfl

theorem consulted_numbered {policy : RetryPolicy} {event : TaskCompletionEvent} {existing : NodeExecutionRecord}
    {next : Uuid} {now : Time} {early : Option TaskCompletionDecision}
    (h : Consulted policy event existing next now db early db') (hn : Numbered policy.maxAttempts db.taskAttempts) :
    Numbered policy.maxAttempts db'.taskAttempts := by
  have hclose : ∀ {errorMessage errorType : String}, Numbered policy.maxAttempts
      (db.updateAttempt event.attemptId (failedWith event.eventId errorMessage errorType now)).taskAttempts := by
    intro errorMessage errorType
    refine hn.carry (fun r' hr' => ?_) fun r hr => ?_
    · obtain ⟨r, hr, hslot, hfail, -⟩ := updateAttempt_failedWith.1 r' hr'
      exact ⟨r, hr, hslot, hfail⟩
    · obtain ⟨r', hr', hslot, -⟩ := updateAttempt_failedWith.2 r hr
      exact ⟨r', hr', hslot⟩
  cases h with
  | success => exact hn.of_identity (System.map_identity_updateWhere fun _ => rfl)
  | exhausted => exact hclose
  | @retry r errorMessage errorType at' _ _ _ counts more =>
    obtain ⟨hmem, hid⟩ := attempt_some counts.attempt
    refine hclose.append (r := scheduledAttempt next event.taskId (r.attemptNumber + 1) at') (fun p hp htask => ?_)
      (fun _ => ?_) ⟨Nat.succ_le_succ (Nat.zero_le _), more⟩
    · obtain ⟨p₀, hp₀, hslot, hfail, hclosed⟩ := updateAttempt_failedWith.1 p hp
      simp only [TaskAttemptRecord.slot, Prod.mk.injEq] at hslot
      have htask₀ : p₀.taskId = r.taskId := hslot.2.1.symm.trans (htask.trans counts.task.symm)
      have hle := counts.last hn hp₀ htask₀
      refine ⟨?_, ?_⟩
      · rw [hslot.2.2]
        exact Nat.lt_succ_of_le hle
      · rcases Nat.lt_or_eq_of_le hle with hlt | heq
        · exact hfail (hn.closed p₀ hp₀ r hmem htask₀ hlt)
        · exact hclosed ((hn.unique p₀ hp₀ r hmem htask₀ heq).trans hid)
    · obtain ⟨r', hr', hslot, -⟩ := (updateAttempt_failedWith (a := event.attemptId)).2 r hmem
      simp only [TaskAttemptRecord.slot, Prod.mk.injEq] at hslot
      exact ⟨r', hr', hslot.2.1.trans counts.task, by rw [hslot.2.2]; rfl⟩
  | _ => exact hn

theorem processed_numbered {policy : RetryPolicy} {event : TaskCompletionEvent} {next : Uuid} {now : Time}
    {decision : TaskCompletionDecision} (h : Processed policy event next now db decision db')
    (hn : Numbered policy.maxAttempts db.taskAttempts) : Numbered policy.maxAttempts db'.taskAttempts := by
  obtain ⟨_, _, db₁, consult, -, hattempts, -⟩ := h.consulted
  rw [hattempts]
  exact consulted_numbered consult hn

/-- The node's task has an attempt that has not failed. -/
def Open (db : Database) (e : Uuid) (i : String) : Prop :=
  ∃ r ∈ db.taskAttempts, r.taskId = createTaskId e i ∧ r.failureEventId = none

theorem Open.of_identity {e : Uuid} {i : String} (h : db.Open e i)
    (heq : db'.taskAttempts.map (·.identity) = db.taskAttempts.map (·.identity)) : db'.Open e i := by
  obtain ⟨r, hr, htask, hopen⟩ := h
  have hr' : r.identity ∈ db'.taskAttempts.map (·.identity) := heq ▸ List.mem_map_of_mem hr
  obtain ⟨r', hr', he⟩ := List.mem_map.1 hr'
  simp only [TaskAttemptRecord.identity, Prod.mk.injEq] at he
  exact ⟨r', hr', he.2.1.trans htask, he.2.2.2.trans hopen⟩

/-- Only the failure of the node's last attempt takes its open attempt away. -/
theorem consulted_open {policy : RetryPolicy} {event : TaskCompletionEvent} {existing : NodeExecutionRecord}
    {next : Uuid} {now : Time} {early : Option TaskCompletionDecision}
    (h : Consulted policy event existing next now db early db') (hkeyed : Table.Keyed (·.attemptId) db.taskAttempts)
    (hid : event.taskId = createTaskId event.executionId event.nodeId) {e : Uuid} {i : String} (ho : db.Open e i) :
    db'.Open e i ∨ (event.status = .failed ∧ early = none ∧ e = event.executionId ∧ i = event.nodeId) := by
  -- closing an attempt of another task leaves the open one alone
  have hclose : ∀ {r₀ : TaskAttemptRecord} {errorMessage errorType : String},
      FailureCounts event.taskId event.attemptId event.eventId db r₀ → ¬(e = event.executionId ∧ i = event.nodeId) →
      (db.updateAttempt event.attemptId (failedWith event.eventId errorMessage errorType now)).Open e i := by
    intro r₀ errorMessage errorType counts hne
    obtain ⟨r, hr, htask, hopen⟩ := ho
    obtain ⟨r', hr', -, hsame⟩ := updateAttempt_failedWith.2 r hr
    have ha : r.attemptId ≠ event.attemptId := by
      intro ha
      obtain ⟨hr₀, ha₀⟩ := attempt_some counts.attempt
      rw [hkeyed.ext hr hr₀ (ha.trans ha₀.symm), counts.task, hid] at htask
      obtain ⟨he, hi⟩ := createTaskId_injective htask
      exact hne ⟨he.symm, hi.symm⟩
    exact ⟨r', hr', by rw [hsame ha, htask], by rw [hsame ha, hopen]⟩
  by_cases hei : e = event.executionId ∧ i = event.nodeId
  · cases h with
    | success => exact .inl (ho.of_identity (System.map_identity_updateWhere fun _ => rfl))
    | exhausted status => exact .inr ⟨status, rfl, hei⟩
    | retry =>
      refine .inl ⟨_, List.mem_append_right _ (List.mem_singleton.2 rfl), ?_, rfl⟩
      rw [hei.1, hei.2]
      exact hid
    | _ => exact .inl ho
  · refine .inl ?_
    cases h with
    | success => exact ho.of_identity (System.map_identity_updateWhere fun _ => rfl)
    | exhausted _ _ _ counts => exact hclose counts hei
    | retry _ _ _ counts =>
      obtain ⟨r, hr, hrest⟩ := hclose counts hei
      exact ⟨r, List.mem_append_left _ hr, hrest⟩
    | _ => exact ho

theorem processed_open {policy : RetryPolicy} {event : TaskCompletionEvent} {next : Uuid} {now : Time}
    {decision : TaskCompletionDecision} (h : Processed policy event next now db decision db')
    (hkeyed : Table.Keyed (·.attemptId) db.taskAttempts)
    (hid : event.taskId = createTaskId event.executionId event.nodeId) {e : Uuid} {i : String}
    (hrunning : db'.status e i = .running) (ho : db.Open e i) : db'.Open e i := by
  cases h with
  | early _ consult => exact (consulted_open consult hkeyed hid ho).resolve_right fun hr => by cases hr.2.1
  | late node ended consult =>
    refine (consulted_open consult hkeyed hid ho).resolve_right fun ⟨_, _, he, hi⟩ => ?_
    have hst : db'.status e i = _ := status_of_node (consult.sameRuns.node.trans (he ▸ hi ▸ node))
    rw [hrunning] at hst
    rw [← hst] at ended
    simp at ended
  | completed _ _ status _ _ consult ends _ _ _ =>
    have ho' := (consulted_open consult hkeyed hid ho).resolve_right fun hr => by
      rw [status] at hr
      cases hr.1
    exact ho'.of_identity (by rw [ends.attempts])
  | failed _ _ _ _ _ consult ends run _ _ =>
    rcases consulted_open consult hkeyed hid ho with ho' | ⟨-, -, rfl, rfl⟩
    · exact ho'.of_identity (by rw [ends.attempts])
    · have := congrFun ((congrArg DependencyRun.nodes run).trans DependencyRun.settle_nodes) event.nodeId
      rw [show (db'.run event.executionId).nodes event.nodeId = _ from hrunning] at this
      simp [DependencyRun.failFrom] at this

/-- A retry is scheduled together with its attempt. -/
theorem consulted_retries {policy : RetryPolicy} {event : TaskCompletionEvent} {existing : NodeExecutionRecord}
    {next : Uuid} {now : Time} {early : Option TaskCompletionDecision}
    (h : Consulted policy event existing next now db early db') :
    (db'.taskRetryDispatches = db.taskRetryDispatches ∧ db'.taskAttempts.map (·.slot) = db.taskAttempts.map (·.slot)) ∨
      ∃ r ∈ db.taskAttempts, ∃ at', db'.taskRetryDispatches = db.taskRetryDispatches ++ [⟨next, at', .pending, none⟩] ∧
        db'.taskAttempts.map (·.slot) = db.taskAttempts.map (·.slot) ++ [(next, r.taskId, r.attemptNumber + 1)] := by
  cases h with
  | success => exact .inl ⟨rfl, updateAttempt_slot fun _ => rfl⟩
  | exhausted => exact .inl ⟨rfl, updateAttempt_slot fun _ => rfl⟩
  | @retry r _ _ at' _ _ _ counts _ =>
    refine .inr ⟨r, (attempt_some counts.attempt).1, at', rfl, ?_⟩
    simp only [scheduleRetry, updateLogicalTask, List.map_append, List.map_cons, List.map_nil, counts.task]
    exact congrArg (· ++ _) (updateAttempt_slot fun _ => rfl)
  | _ => exact .inl ⟨rfl, rfl⟩

theorem processed_retries {policy : RetryPolicy} {event : TaskCompletionEvent} {next : Uuid} {now : Time}
    {decision : TaskCompletionDecision} (h : Processed policy event next now db decision db') :
    (db'.taskRetryDispatches = db.taskRetryDispatches ∧ db'.taskAttempts.map (·.slot) = db.taskAttempts.map (·.slot)) ∨
      ∃ r ∈ db.taskAttempts, ∃ at', db'.taskRetryDispatches = db.taskRetryDispatches ++ [⟨next, at', .pending, none⟩] ∧
        db'.taskAttempts.map (·.slot) = db.taskAttempts.map (·.slot) ++ [(next, r.taskId, r.attemptNumber + 1)] := by
  obtain ⟨_, _, db₁, consult, -, hattempts, hretries⟩ := h.consulted
  rw [hretries, hattempts]
  exact consulted_retries consult

end Database

namespace System

variable {cfg : Config} {s t : System} {a : Action}

structure Sequences (cfg : Config) (s : System) : Prop where
  numbered : Numbered cfg.policy.maxAttempts s.db.taskAttempts
  failed : ∀ r ∈ s.db.taskAttempts, r.status = .failed → r.failureEventId.isSome
  running : ∀ e i, s.db.status e i = .running → s.db.Open e i
  retries : ∀ d ∈ s.db.taskRetryDispatches, ∃ n < s.draws, d.attemptId = .v4 n

theorem sequences_init : Sequences cfg init := by
  refine ⟨⟨?_, ?_, ?_, ?_⟩, ?_, fun e i hr => ?_, ?_⟩
  · simp [init, Database.empty]
  · simp [init, Database.empty]
  · simp [init, Database.empty]
  · simp [init, Database.empty]
  · simp [init, Database.empty]
  · simp [status, node, Table.lookup, init, Database.empty] at hr
  · simp [init, Database.empty]

theorem Kind.numbered (hk : Kind cfg s t) (hc : Consistent s) (hd : Dispatches s)
    (h : Numbered cfg.policy.maxAttempts s.db.taskAttempts) : Numbered cfg.policy.maxAttempts t.db.taskAttempts := by
  cases hk with
  | submit _ _ _ _ eq => subst eq; exact h
  | trigger _ commit eq =>
    subst eq
    obtain ⟨-, rfl⟩ := triggerCommit_ok hc.sound commit
    exact h
  | process _ _ _ processed eq =>
    subst eq
    exact processed_numbered (process_ok hc.sound hc.runs processed).2 h
  | dispatch handling toDispatch node dispatched _ eq =>
    subst eq
    rcases dispatch_cases hc hd handling toDispatch node dispatched with ⟨rfl, -⟩ | ⟨_, _, -, -, hno, -, rfl⟩
    · exact h
    · refine h.append (fun p hp htask => absurd htask (hno.2.1 p hp)) (fun hlt => absurd hlt (lt_irrefl _))
        ⟨le_rfl, cfg.policy.maxAttempts_pos⟩
  | evaluate _ _ _ eq => subst eq; exact h
  | read _ _ _ eq => subst eq; exact h
  | quiet hq => exact h.of_identity hq.attempts

/-- A node runs with an open attempt: its first one, or the one that follows a failure. -/
theorem Kind.open (hk : Kind cfg s t) (hc : Consistent s) (hd : Dispatches s)
    (hkeyed : Table.Keyed (·.attemptId) s.db.taskAttempts) (h : ∀ e i, s.db.status e i = .running → s.db.Open e i)
    (e : Uuid) (i : String) (hrunning : t.db.status e i = .running) : t.db.Open e i := by
  have hadv := hk.advances hc
  cases hk with
  | submit _ _ _ newExecution eq =>
    subst eq
    exact h e i ((submitted_status_eq hc.sound newExecution).symm.trans hrunning)
  | trigger _ commit eq =>
    subst eq
    obtain ⟨-, rfl⟩ := triggerCommit_ok hc.sound commit
    exact h e i hrunning
  | process _ _ _ processed eq =>
    subst eq
    obtain ⟨hid, hproc⟩ := process_ok hc.sound hc.runs processed
    refine processed_open hproc hkeyed hid hrunning (h e i ?_)
    refine ((processed_status hproc e i).2 (.inl hrunning)).resolve_right fun hcompleted => ?_
    rw [show _ = _ from hadv.later.completed e i hcompleted] at hrunning
    cases hrunning
  | dispatch handling toDispatch node dispatched _ eq =>
    subst eq
    rcases dispatch_cases hc hd handling toDispatch node dispatched with ⟨rfl, -⟩ | ⟨_, _, hnode, pending, -, -, rfl⟩
    · exact h e i hrunning
    · rw [show _ = _ from registered_status _ _ _ hnode pending e i] at hrunning
      split at hrunning
      · rename_i hei
        exact ⟨_, List.mem_append_right _ (List.mem_singleton.2 rfl), by rw [hei.1, hei.2]; rfl, rfl⟩
      · obtain ⟨r, hr, hrest⟩ := h e i hrunning
        exact ⟨r, List.mem_append_left _ hr, hrest⟩
  | evaluate _ _ _ eq => subst eq; exact h e i hrunning
  | read _ _ _ eq => subst eq; exact h e i hrunning
  | quiet hq => exact (h e i ((status_of_nodes hq.nodes e i).symm.trans hrunning)).of_identity hq.attempts

theorem AttemptsStep.failed (hstep : AttemptsStep cfg s a t)
    (h : ∀ r ∈ s.db.taskAttempts, r.status = .failed → r.failureEventId.isSome) :
    ∀ r ∈ t.db.taskAttempts, r.status = .failed → r.failureEventId.isSome := by
  intro r hr hst
  rcases hstep.mem hr with ⟨r₀, hr₀, hchange⟩ | hnew
  · cases hchange with
    | same => exact h r hr₀ hst
    | failed => rfl
    | renewed _ _ _ status => rw [status] at hst; cases hst
    | _ => cases hst
  · cases hnew <;> cases hst

/-- What a step does to the retries: a retry comes with its attempt, and is marked once its
message was sent. -/
inductive RetriesStep (s : System) (a : Action) (t : System) : Prop where
  | same {new : List (Uuid × Uuid × Nat)} (retries : t.db.taskRetryDispatches = s.db.taskRetryDispatches)
      (slots : t.db.taskAttempts.map (·.slot) = s.db.taskAttempts.map (·.slot) ++ new) (first : ∀ p ∈ new, p.2.2 = 1)
      (task : ∀ p ∈ new, ∃ task ∈ t.db.logicalTasks, task.taskId = p.2.1)
  | scheduled {r : TaskAttemptRecord} {at' : Time} (mem : r ∈ s.db.taskAttempts) (draws : s.draws < t.draws)
      (retries : t.db.taskRetryDispatches = s.db.taskRetryDispatches ++ [⟨.v4 s.draws, at', .pending, none⟩])
      (slots : t.db.taskAttempts.map (·.slot) =
        s.db.taskAttempts.map (·.slot) ++ [(.v4 s.draws, r.taskId, r.attemptNumber + 1)])
  | marked {attemptId : Uuid} (action : a = .markRetry attemptId) (sent : attemptId ∈ s.retriesSent)
      (retries : t.db.taskRetryDispatches = Table.updateWhere
        (fun r => decide (r.attemptId = attemptId ∧ r.status = .pending))
        (fun r => { r with status := .published, publishedAt := some s.now }) s.db.taskRetryDispatches)
      (slots : t.db.taskAttempts.map (·.slot) = s.db.taskAttempts.map (·.slot))

theorem RetriesStep.of_slots (hr : t.db.taskRetryDispatches = s.db.taskRetryDispatches)
    (hs : t.db.taskAttempts.map (·.slot) = s.db.taskAttempts.map (·.slot)) : RetriesStep s a t :=
  @RetriesStep.same s a t [] hr (by rw [hs, List.append_nil]) (by simp) (by simp)

theorem Effect.retriesStep (heffect : Effect cfg s a t) (hc : Consistent s) (hd : Dispatches s) :
    RetriesStep s a t := by
  cases heffect with
  | submit commit =>
    obtain ⟨w, -, -, -, -, rfl⟩ := submit_ok hc.sound commit
    exact .of_slots rfl rfl
  | trigger _ commit =>
    obtain ⟨-, rfl⟩ := triggerCommit_ok hc.sound commit
    exact .of_slots rfl rfl
  | process _ _ _ processed =>
    rcases processed_retries (process_ok hc.sound hc.runs processed).2 with ⟨hr, hs⟩ | ⟨r, hmem, at', hr, hs⟩
    · exact .of_slots hr hs
    · exact .scheduled hmem (Nat.lt_succ_self _) hr hs
  | @dispatch k j g x nodes n phase result db handling toDispatch node dispatched =>
    rcases dispatch_cases hc hd handling toDispatch node dispatched with ⟨rfl, -⟩ | ⟨_, input, -, -, -, -, rfl⟩
    · exact .of_slots rfl rfl
    · refine .same rfl (registered_adds s.db x n input (.v4 s.draws) s.now).slots (by simp) fun p hp => ?_
      rw [List.mem_singleton.1 hp]
      exact ⟨taskRecord x n input, List.mem_append_right _ (List.mem_singleton.2 rfl), rfl⟩
  | @markRetry attemptId sent =>
    by_cases hany : s.db.taskRetryDispatches.any
        (fun r : TaskRetryDispatchRecord => decide (r.attemptId = attemptId ∧ r.status = .pending)) = true
    · refine .marked rfl sent ?_ ?_
      · simp only [markRetryPublished, hany, if_true]
      · simp only [markRetryPublished, hany, if_true]
        exact Table.map_updateWhere fun _ _ _ => rfl
    · refine .of_slots ?_ ?_ <;> simp only [markRetryPublished, hany, if_false, Bool.false_eq_true]
  | claim | mark | renew | record => exact .of_slots rfl (Table.map_updateWhere fun _ _ _ => rfl)
  | _ => exact .of_slots rfl rfl

theorem RetriesStep.drawn (h : RetriesStep s a t) (hdraws : s.draws ≤ t.draws)
    (hs : ∀ d ∈ s.db.taskRetryDispatches, ∃ n < s.draws, d.attemptId = .v4 n) :
    ∀ d ∈ t.db.taskRetryDispatches, ∃ n < t.draws, d.attemptId = .v4 n := by
  intro d hmem
  have hold : ∀ {d₀ : TaskRetryDispatchRecord}, d₀ ∈ s.db.taskRetryDispatches → d.attemptId = d₀.attemptId →
      ∃ n < t.draws, d.attemptId = .v4 n := by
    intro d₀ hd₀ hid
    obtain ⟨n, hn, he⟩ := hs d₀ hd₀
    exact ⟨n, hn.trans_le hdraws, hid.trans he⟩
  cases h with
  | same retries => exact hold (retries ▸ hmem) rfl
  | scheduled _ draws retries =>
    rw [retries] at hmem
    rcases List.mem_append.1 hmem with hmem | hmem
    · exact hold hmem rfl
    · rw [List.mem_singleton.1 hmem]
      exact ⟨s.draws, draws, rfl⟩
  | marked _ _ retries =>
    rw [retries] at hmem
    obtain ⟨d₀, hd₀, rfl⟩ := Table.mem_updateWhere.1 hmem
    exact hold hd₀ (by split <;> rfl)

theorem reachable_sequences (h : Reachable cfg anyStep s) : Sequences cfg s := by
  refine Transition.Reachable.invariant sequences_init (fun _ _ _ hr hs _ ht => ?_) h
  have hc := reachable_consistent hr
  have hd := reachable_dispatches hr
  have hk := step_kind hc.sound ht
  exact ⟨hk.numbered hc hd hs.numbered, (reachable_attemptsStep hr (step_effect ht)).failed hs.failed,
    hk.open hc hd (reachable_attemptIds hr).keyed hs.running,
    ((step_effect ht).retriesStep hc hd).drawn (step_effect ht).draws hs.retries⟩

end System

end WorkflowEngine
