import WorkflowEngine.Exhaustion

/-!
# The rows of the attempts

Orchestrators and workers write the same rows with two vocabularies. Here is, once, every
change a step can make to a row and every row a step can add; what workers and orchestrators
guarantee each other is proved from this list.
-/
namespace WorkflowEngine

open Database

namespace System

variable {cfg : Config} {s t : System} {a : Action}

/-- The ways in which a step can change the row of an attempt. -/
inductive AttemptChange (cfg : Config) (s : System) : Action → TaskAttemptRecord → TaskAttemptRecord → Prop where
  | same {a : Action} {r : TaskAttemptRecord} : AttemptChange cfg s a r r
  | succeeded {k index : Nat} {event : TaskCompletionEvent} {r : TaskAttemptRecord}
      (handling : s.handlings[k]? = some ⟨.completion, index, .received⟩)
      (entry : s.completions.entries[index]? = some event) (status : event.status = .completed)
      (id : r.attemptId = event.attemptId) (task : r.taskId = event.taskId)
      (unknown : r.completionEventId ≠ some event.eventId)
      (open' : ¬((r.status = .completed ∨ r.status = .failed) ∧ r.completionEventId.isSome)) :
      AttemptChange cfg s (.handle k) r (succeeded event.eventId s.now r)
  | failed {k index : Nat} {event : TaskCompletionEvent} {errorMessage errorType : String} {r : TaskAttemptRecord}
      (handling : s.handlings[k]? = some ⟨.completion, index, .received⟩)
      (entry : s.completions.entries[index]? = some event) (status : event.status = .failed)
      (message : event.errorMessage = some errorMessage) (type : event.errorType = some errorType)
      (id : r.attemptId = event.attemptId) (counts : FailureCounts event.taskId event.attemptId event.eventId s.db r) :
      AttemptChange cfg s (.handle k) r (failedWith event.eventId errorMessage errorType s.now r)
  | queued {attemptId : Uuid} {r : TaskAttemptRecord} (sent : attemptId ∈ s.retriesSent) (id : r.attemptId = attemptId)
      (scheduled : r.status = .scheduled) :
      AttemptChange cfg s (.markRetry attemptId) r { r with status := .queued }
  | claimed {k : Nat} {outcome : HandlerOutcome} {f : InFlight} {r : TaskAttemptRecord}
      (task : s.inFlight[k]? = some f) (phase : f.phase = .received) (id : r.attemptId = f.task.attemptId)
      (open' : r.status ≠ .completed ∧ r.status ≠ .resultRecorded) (free : heldAt r s.now = false) :
      AttemptChange cfg s (.work k outcome) r (claimedBy f.worker s.now (s.now + cfg.lease) r)
  | renewed {k : Nat} {f : InFlight} {r : TaskAttemptRecord} (task : s.inFlight[k]? = some f)
      (phase : f.phase = .executing false) (id : r.attemptId = f.task.attemptId) (status : r.status = .claimed)
      (holder : r.claimedBy = some f.worker) :
      AttemptChange cfg s (.renew k) r { r with claimExpiresAt := some (s.now + cfg.lease) }
  | recorded {k : Nat} {outcome : HandlerOutcome} {f : InFlight} {event : TaskCompletionEvent} {r : TaskAttemptRecord}
      (task : s.inFlight[k]? = some f) (phase : f.phase = .executed event) (id : r.attemptId = event.attemptId)
      (status : r.status = .claimed) : AttemptChange cfg s (.work k outcome) r (resultOf event r)
  | marked {k : Nat} {outcome : HandlerOutcome} {f : InFlight} {event : TaskCompletionEvent} {r : TaskAttemptRecord}
      (task : s.inFlight[k]? = some f) (phase : f.phase = .published event) (id : r.attemptId = event.attemptId)
      (status : r.status = .resultRecorded) : AttemptChange cfg s (.work k outcome) r (markedCompleted s.now r)

/-- The rows a step can add: a first attempt by a dispatch, a next attempt by a failure. -/
inductive NewAttempt (s : System) : TaskAttemptRecord → Prop where
  | first {taskId : Uuid} : NewAttempt s (initialAttempt (.v4 s.draws) taskId s.now)
  | retry {r : TaskAttemptRecord} {at' : Time} (mem : r ∈ s.db.taskAttempts) :
      NewAttempt s (scheduledAttempt (.v4 s.draws) r.taskId (r.attemptNumber + 1) at')

theorem AttemptChange.slot {r r' : TaskAttemptRecord} (h : AttemptChange cfg s a r r') : r'.slot = r.slot := by
  cases h <;> rfl

theorem AttemptChange.id {r r' : TaskAttemptRecord} (h : AttemptChange cfg s a r r') : r'.attemptId = r.attemptId :=
  congrArg Prod.fst h.slot

/-- How the table of attempts after a step comes from the table before it. -/
def AttemptsStep (cfg : Config) (s : System) (a : Action) (t : System) : Prop :=
  ∃ (g : TaskAttemptRecord → TaskAttemptRecord) (new : List TaskAttemptRecord),
    t.db.taskAttempts = s.db.taskAttempts.map g ++ new ∧
    (∀ r ∈ s.db.taskAttempts, AttemptChange cfg s a r (g r)) ∧
    (new = [] ∨ ∃ r, new = [r] ∧ NewAttempt s r ∧ s.draws < t.draws)

theorem AttemptsStep.of_eq (h : t.db.taskAttempts = s.db.taskAttempts) : AttemptsStep cfg s a t :=
  ⟨id, [], by simp [h], fun _ _ => .same, .inl rfl⟩

/-- A step that updates the selected rows. -/
theorem AttemptsStep.of_update {p : TaskAttemptRecord → Bool} {f : TaskAttemptRecord → TaskAttemptRecord}
    (h : t.db.taskAttempts = Table.updateWhere p f s.db.taskAttempts)
    (hf : ∀ r ∈ s.db.taskAttempts, p r = true → AttemptChange cfg s a r (f r)) : AttemptsStep cfg s a t := by
  refine ⟨fun r => if p r then f r else r, [], by rw [h, List.append_nil]; rfl, fun r hr => ?_, .inl rfl⟩
  by_cases hp : p r = true
  · simpa [hp] using hf r hr hp
  · simpa [hp] using .same

theorem process_attemptsStep {k index : Nat} {event : TaskCompletionEvent} {decision : TaskCompletionDecision}
    {db : Database} (hkeyed : Table.Keyed (·.attemptId) s.db.taskAttempts)
    (handling : s.handlings[k]? = some ⟨.completion, index, .received⟩)
    (entry : s.completions.entries[index]? = some event)
    (h : Processed cfg.policy event (.v4 s.draws) s.now s.db decision db) (hdb : t.db = db)
    (hdraws : s.draws < t.draws) : AttemptsStep cfg s (.handle k) t := by
  have hrow : ∀ {r r₀ : TaskAttemptRecord}, s.db.getAttempt event.attemptId = some r₀ → r ∈ s.db.taskAttempts →
      r.attemptId = event.attemptId → r = r₀ := by
    intro r r₀ hr₀ hr hid
    exact hkeyed.ext hr (attempt_some hr₀).1 (hid.trans (attempt_some hr₀).2.symm)
  -- the retry repository decides; what follows it writes no attempt
  obtain ⟨existing, early, db₁, consult, -, hattempts, -⟩ := h.consulted
  have heq : t.db.taskAttempts = db₁.taskAttempts := by rw [hdb, hattempts]
  cases consult with
  | @success r₀ status attempt task unknown open' =>
    refine .of_update heq fun r hr hp => ?_
    have hid : r.attemptId = event.attemptId := by simpa using hp
    obtain rfl := hrow attempt hr hid
    exact .succeeded handling entry status hid task unknown open'
  | @exhausted r₀ errorMessage errorType status message type counts _ =>
    refine .of_update heq fun r hr hp => ?_
    have hid : r.attemptId = event.attemptId := by simpa using hp
    obtain rfl := hrow counts.attempt hr hid
    exact .failed handling entry status message type hid counts
  | @retry r₀ errorMessage errorType at' status message type counts _ =>
    refine ⟨fun r =>
        if r.attemptId = event.attemptId then failedWith event.eventId errorMessage errorType s.now r else r,
      [scheduledAttempt (.v4 s.draws) event.taskId (r₀.attemptNumber + 1) at'], ?_, fun r hr => ?_,
      .inr ⟨_, rfl, ?_, hdraws⟩⟩
    · rw [heq]
      simp [scheduleRetry, updateLogicalTask, updateAttempt, Table.updateWhere]
    · dsimp only
      by_cases hid : r.attemptId = event.attemptId
      · obtain rfl := hrow counts.attempt hr hid
        rw [if_pos hid]
        exact .failed handling entry status message type hid counts
      · rw [if_neg hid]
        exact .same
    · rw [← counts.task]
      exact .retry (attempt_some counts.attempt).1
  | _ => exact .of_eq heq

theorem Effect.attemptsStep (hc : Consistent s) (hd : Dispatches s)
    (hkeyed : Table.Keyed (·.attemptId) s.db.taskAttempts) (h : Effect cfg s a t) : AttemptsStep cfg s a t := by
  cases h with
  | submit commit =>
    obtain ⟨w, -, -, -, -, rfl⟩ := submit_ok hc.sound commit
    exact .of_eq rfl
  | trigger _ commit =>
    obtain ⟨-, rfl⟩ := triggerCommit_ok hc.sound commit
    exact .of_eq rfl
  | process handling entry _ processed =>
    exact process_attemptsStep hkeyed handling entry (process_ok hc.sound hc.runs processed).2 rfl
      (Nat.lt_succ_self _)
  | @dispatch k j h x nodes n phase result db handling toDispatch node dispatched =>
    rcases dispatch_cases hc hd handling toDispatch node dispatched with ⟨rfl, -⟩ | ⟨r, input, -, -, -, -, rfl⟩
    · exact .of_eq rfl
    · refine ⟨id, [initialAttempt (.v4 s.draws) (createTaskId x.executionId n.id) s.now],
        by simp [registered, pushOutbox, claimPendingNodes], fun _ _ => .same,
        .inr ⟨_, rfl, .first, Nat.lt_succ_self _⟩⟩
  | @markRetry attemptId sent =>
    unfold markRetryPublished
    dsimp only
    split
    · refine .of_update rfl fun r _ hp => ?_
      exact .queued sent (of_decide_eq_true hp).1 (of_decide_eq_true hp).2
    · exact .of_eq rfl
  | @claim k outcome f r₀ task phase attempt open' free =>
    refine .of_update rfl fun r hr hp => ?_
    have hid : r.attemptId = f.task.attemptId := by simpa using hp
    obtain rfl := hkeyed.ext hr (attempt_some attempt).1 (hid.trans (attempt_some attempt).2.symm)
    exact .claimed task phase hid open' free
  | record task phase =>
    refine .of_update rfl fun r _ hp => ?_
    exact .recorded task phase (of_decide_eq_true hp).1 (of_decide_eq_true hp).2
  | mark task phase =>
    refine .of_update rfl fun r _ hp => ?_
    exact .marked task phase (of_decide_eq_true hp).1 (of_decide_eq_true hp).2
  | renew task phase =>
    refine .of_update rfl fun r _ hp => ?_
    exact .renewed task phase (of_decide_eq_true hp).1 (of_decide_eq_true hp).2.1 (of_decide_eq_true hp).2.2
  | _ => exact .of_eq rfl

/-! ## Identifiers -/

/-- Attempts are identified by draws that are not used again. -/
structure AttemptIds (s : System) : Prop where
  keyed : Table.Keyed (·.attemptId) s.db.taskAttempts
  drawn : ∀ r ∈ s.db.taskAttempts, ∃ d < s.draws, r.attemptId = .v4 d

theorem AttemptIds.getAttempt (h : AttemptIds s) {r : TaskAttemptRecord} {attemptId : Uuid}
    (hr : r ∈ s.db.taskAttempts) (hid : r.attemptId = attemptId) : s.db.getAttempt attemptId = some r :=
  h.keyed.lookup_iff.2 ⟨hr, hid⟩

theorem NewAttempt.id {r : TaskAttemptRecord} (h : NewAttempt s r) : r.attemptId = .v4 s.draws := by
  cases h <;> rfl

theorem Effect.draws (h : Effect cfg s a t) : s.draws ≤ t.draws := by
  cases h <;> first | exact le_rfl | exact Nat.le_add_right _ _

theorem AttemptsStep.ids (h : AttemptsStep cfg s a t) (hdraws : s.draws ≤ t.draws) (hids : AttemptIds s) :
    AttemptIds t := by
  obtain ⟨g, new, heq, hchange, hnew⟩ := h
  have hmap : (s.db.taskAttempts.map g).map (·.attemptId) = s.db.taskAttempts.map (·.attemptId) := by
    rw [List.map_map]
    exact List.map_congr_left fun r hr => (hchange r hr).id
  have hold : ∀ r ∈ s.db.taskAttempts.map g, ∃ d < s.draws, r.attemptId = .v4 d := by
    intro r hr
    obtain ⟨r₀, hr₀, rfl⟩ := List.mem_map.1 hr
    rw [(hchange r₀ hr₀).id]
    exact hids.drawn r₀ hr₀
  have hkeyed : Table.Keyed (·.attemptId) (s.db.taskAttempts.map g) := by
    rw [Table.Keyed, hmap]
    exact hids.keyed
  rcases hnew with rfl | ⟨r, rfl, hr, hlt⟩
  · rw [List.append_nil] at heq
    refine ⟨heq ▸ hkeyed, fun r hr => ?_⟩
    obtain ⟨d, hd, he⟩ := hold r (heq ▸ hr)
    exact ⟨d, hd.trans_le hdraws, he⟩
  · refine ⟨heq ▸ hkeyed.append fun r' hr' hid => ?_, fun r' hr' => ?_⟩
    · obtain ⟨d, hd, he⟩ := hold r' hr'
      rw [he, hr.id] at hid
      cases hid
      exact lt_irrefl _ hd
    · rw [heq] at hr'
      rcases List.mem_append.1 hr' with hr' | hr'
      · obtain ⟨d, hd, he⟩ := hold r' hr'
        exact ⟨d, hd.trans_le hdraws, he⟩
      · rw [List.mem_singleton.1 hr', hr.id]
        exact ⟨s.draws, hlt, rfl⟩

theorem reachable_attemptIds (h : Reachable cfg anyStep s) : AttemptIds s := by
  refine Transition.Reachable.invariant ⟨by simp [Table.Keyed, init, Database.empty], by simp [init, Database.empty]⟩
    (fun _ _ _ hr hids _ ht => ?_) h
  have heffect := step_effect ht
  exact (heffect.attemptsStep (reachable_consistent hr) (reachable_dispatches hr) hids.keyed).ids heffect.draws hids

/-- The list of changes, in every reachable state. -/
theorem reachable_attemptsStep (h : Reachable cfg anyStep s) (hstep : Effect cfg s a t) : AttemptsStep cfg s a t :=
  hstep.attemptsStep (reachable_consistent h) (reachable_dispatches h) (reachable_attemptIds h).keyed

/-- A row after a step is new or comes from a row before it. -/
theorem AttemptsStep.mem (h : AttemptsStep cfg s a t) {r : TaskAttemptRecord} (hr : r ∈ t.db.taskAttempts) :
    (∃ r₀ ∈ s.db.taskAttempts, AttemptChange cfg s a r₀ r) ∨ NewAttempt s r := by
  obtain ⟨g, new, heq, hchange, hnew⟩ := h
  rw [heq] at hr
  rcases List.mem_append.1 hr with hr | hr
  · obtain ⟨r₀, hr₀, rfl⟩ := List.mem_map.1 hr
    exact .inl ⟨r₀, hr₀, hchange r₀ hr₀⟩
  · rcases hnew with rfl | ⟨r', rfl, hr', -⟩
    · cases hr
    · rw [List.mem_singleton.1 hr]
      exact .inr hr'

/-- No row goes away. -/
theorem AttemptsStep.old (h : AttemptsStep cfg s a t) {r : TaskAttemptRecord} (hr : r ∈ s.db.taskAttempts) :
    ∃ r' ∈ t.db.taskAttempts, AttemptChange cfg s a r r' := by
  obtain ⟨g, new, heq, hchange, -⟩ := h
  exact ⟨g r, by rw [heq]; exact List.mem_append_left _ (List.mem_map_of_mem hr), hchange r hr⟩

end System

end WorkflowEngine
