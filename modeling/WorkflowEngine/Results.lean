import WorkflowEngine.Acknowledgement

/-!
# Recorded results

A result is recorded in the row of its attempt, under the identifier of its completion event,
and replayed from there. It is final as long as the row stays closed to another claim. Two
steps open it again: a failure processed before the worker has marked the attempt completed,
and a result recorded under a claim that another worker has already taken over.
-/
namespace WorkflowEngine

open Database

namespace System

variable {cfg : Config} {s t : System} {a : Action}

/-- The step neither records a result while another worker has claimed the attempt and not yet
started its handler, nor processes a failure whose attempt is still marked `result_recorded`. -/
def keepsResults (s : System) : Action → Bool
  | .work k _ =>
    match s.inFlight[k]? with
    | some f =>
      match f.phase with
      | .executed event => (s.db.getAttempt event.attemptId).all (fun r => decide (r.status ≠ .claimed)) ||
          !(s.inFlight.any fun g => decide (g.phase = .claimed ∧ g.task.attemptId = event.attemptId))
      | _ => true
    | none => true
  | .handle k =>
    match s.handlings[k]? with
    | some ⟨.completion, index, .received⟩ =>
      match s.completions.entries[index]? with
      | some event => decide (event.status = .completed) ||
          (s.db.getAttempt event.attemptId).all fun r => decide (r.status ≠ .resultRecorded)
      | none => true
    | _ => true
  | _ => true

def Recorded (s : System) (event : TaskCompletionEvent) : Prop := Milestone.resultRecorded event ∈ s.history

/-- The row holds the recorded result and is closed to another claim. -/
structure Keeps (event : TaskCompletionEvent) (r : TaskAttemptRecord) : Prop where
  id : r.attemptId = event.attemptId
  eventId : r.completionEventId = some event.eventId
  output : r.resultData = event.outputData
  message : r.errorMessage = event.errorMessage
  type : r.errorType = event.errorType
  holder : r.claimedBy.isSome = true
  closed : r.status = .resultRecorded ∨ ((r.status = .completed ∨ r.status = .failed) ∧ r.claimExpiresAt = none)

theorem Keeps.not_claimed {event : TaskCompletionEvent} {r : TaskAttemptRecord} (h : Keeps event r) :
    r.status ≠ .claimed := by
  rcases h.closed with hst | ⟨hst | hst, -⟩ <;> simp [hst]

/-- A closed row cannot be claimed. -/
theorem Keeps.not_free {event : TaskCompletionEvent} {r : TaskAttemptRecord} {now : Time} (h : Keeps event r)
    (open' : r.status ≠ .completed ∧ r.status ≠ .resultRecorded) : heldAt r now = true := by
  rcases h.closed with hst | ⟨-, hexp⟩
  · exact absurd hst open'.2
  · simp [heldAt, h.holder, hexp]

/-- The event says what was recorded for its attempt. -/
def Faithful (s : System) (event : TaskCompletionEvent) : Prop :=
  ∃ event₀, s.Recorded event₀ ∧ event₀.attemptId = event.attemptId ∧ event.result = event₀.result

structure Results (s : System) : Prop where
  built : ∀ event, s.Recorded event → event.Built
  keeps : ∀ event, s.Recorded event → ∃ r ∈ s.db.taskAttempts, Keeps event r
  unique : ∀ event event', s.Recorded event → s.Recorded event' → event.attemptId = event'.attemptId → event = event'
  claimed : ∀ r ∈ s.db.taskAttempts, r.status = .claimed → r.claimedBy.isSome = true
  recorded :
    ∀ r ∈ s.db.taskAttempts, r.status = .resultRecorded → ∃ event, s.Recorded event ∧ event.attemptId = r.attemptId
  waiting : ∀ f ∈ s.inFlight, f.phase = .claimed → ∀ event, s.Recorded event → event.attemptId ≠ f.task.attemptId
  replaying : ∀ f ∈ s.inFlight, f.phase = .replaying → ∃ event, s.Recorded event ∧ event.attemptId = f.task.attemptId
  holds : ∀ f ∈ s.inFlight, ∀ event, f.phase = .recorded event → s.Faithful event
  published : ∀ event, Milestone.completionPublished event ∈ s.history → s.Faithful event
  order : s.history.Pairwise fun m m' => ∀ event, m = .resultRecorded event → m' ≠ .handlerInvoked event.attemptId

theorem results_init : Results init := by
  refine ⟨?_, ?_, ?_, ?_, ?_, ?_, ?_, ?_, ?_, ?_⟩ <;> simp [init, Recorded, Database.empty]

theorem Results.keeps_of_id (h : Results s) (hids : AttemptIds s) {event : TaskCompletionEvent}
    (hev : s.Recorded event) {r : TaskAttemptRecord} (hr : r ∈ s.db.taskAttempts)
    (hid : r.attemptId = event.attemptId) : Keeps event r := by
  obtain ⟨r₀, hr₀, hk⟩ := h.keeps event hev
  rw [hids.keyed.ext hr hr₀ (hid.trans hk.id.symm)]
  exact hk

/-- What a row keeps survives every change the condition allows. -/
theorem Results.change (h : Results s) (hw : Workers s) (hallowed : keepsResults s a = true)
    {event : TaskCompletionEvent} (hev : s.Recorded event) {r r' : TaskAttemptRecord} (hk : Keeps event r)
    (hchange : AttemptChange cfg s a r r') : Keeps event r' := by
  -- a published event of this attempt is the recorded one
  have hsame : ∀ {index : Nat} {event' : TaskCompletionEvent}, s.completions.entries[index]? = some event' →
      r.attemptId = event'.attemptId → event'.result = event.result := by
    intro index event' hentry hid
    obtain ⟨event₀, hev₀, hid₀, hres⟩ :=
      h.published event' (hw.completions event' (List.mem_of_getElem? hentry)).published
    rw [hres, h.unique event₀ event hev₀ hev (hid₀.trans (hid.symm.trans hk.id))]
  cases hchange with
  | same => exact hk
  | succeeded _ entry _ id _ unknown _ =>
    have := congrArg Prod.fst (hsame entry id)
    exact absurd (hk.eventId.trans (congrArg some this.symm)) unknown
  | @failed k index event' errorMessage errorType _ handling entry status message type id counts =>
    have hres := hsame entry id
    simp only [TaskCompletionEvent.result, Prod.mk.injEq] at hres
    have hst : r.status ≠ .resultRecorded := by
      have hget : s.db.getAttempt event'.attemptId = some r := counts.attempt
      simpa [keepsResults, handling, entry, status, hget] using hallowed
    have hclosed := hk.closed.resolve_left hst
    exact ⟨hk.id, hk.eventId, hk.output, message.symm.trans hres.2.2.2.1, type.symm.trans hres.2.2.2.2, hk.holder,
      .inr ⟨.inr rfl, hclosed.2⟩⟩
  | queued _ _ scheduled =>
    rcases hk.closed with hst | ⟨hst | hst, -⟩ <;> rw [hst] at scheduled <;> cases scheduled
  | claimed _ _ _ open' free =>
    rw [hk.not_free open'] at free
    cases free
  | renewed _ _ _ status => exact absurd status hk.not_claimed
  | recorded _ _ _ status => exact absurd status hk.not_claimed
  | marked => exact ⟨hk.id, hk.eventId, hk.output, hk.message, hk.type, hk.holder, .inr ⟨.inl rfl, rfl⟩⟩

/-- Rows after a step: claims have a holder, and a recorded result was recorded. -/
theorem Results.rows (h : Results s) (hstep : AttemptsStep cfg s a t) :
    (∀ r ∈ t.db.taskAttempts, r.status = .claimed → r.claimedBy.isSome = true) ∧
    ∀ r ∈ t.db.taskAttempts, r.status = .resultRecorded → (∃ event, s.Recorded event ∧ event.attemptId = r.attemptId) ∨
      ∃ k outcome f event, a = .work k outcome ∧ s.inFlight[k]? = some f ∧ f.phase = .executed event ∧
        r.attemptId = event.attemptId := by
  refine ⟨fun r hr hst => ?_, fun r hr hst => ?_⟩
  · rcases hstep.mem hr with ⟨r₀, hr₀, hchange⟩ | hnew
    · cases hchange with
      | same => exact h.claimed r hr₀ hst
      | claimed => rfl
      | renewed _ _ _ _ holder => simp [holder]
      | _ => cases hst
    · cases hnew <;> cases hst
  · rcases hstep.mem hr with ⟨r₀, hr₀, hchange⟩ | hnew
    · cases hchange with
      | same => exact .inl (h.recorded r hr₀ hst)
      | renewed _ _ _ status => rw [status] at hst; cases hst
      | recorded task phase id => exact .inr ⟨_, _, _, _, rfl, task, phase, id⟩
      | _ => cases hst
    · cases hnew <;> cases hst

/-- A step that records nothing. -/
theorem Results.carry (h : Results s) (hw : Workers s) (hallowed : keepsResults s a = true)
    (hstep : AttemptsStep cfg s a t) {l : List Milestone} (hhist : t.history = s.history ++ l)
    (hrec : ∀ event, Milestone.resultRecorded event ∉ l)
    (hinv : ∀ attemptId, Milestone.handlerInvoked attemptId ∈ l → ∀ event, s.Recorded event →
      event.attemptId ≠ attemptId)
    (hpub : ∀ event, Milestone.completionPublished event ∈ l → s.Faithful event)
    (hnew : ∀ r ∈ t.db.taskAttempts, r.status = .resultRecorded → ∃ event, s.Recorded event ∧
      event.attemptId = r.attemptId)
    (hflight : ∀ f ∈ t.inFlight, f ∈ s.inFlight ∨
      ((f.phase = .claimed → ∀ event, s.Recorded event → event.attemptId ≠ f.task.attemptId) ∧
        (f.phase = .replaying → ∃ event, s.Recorded event ∧ event.attemptId = f.task.attemptId) ∧
        ∀ event, f.phase = .recorded event → s.Faithful event)) : Results t := by
  have hiff : ∀ event, t.Recorded event ↔ s.Recorded event := by
    intro event
    rw [Recorded, hhist, List.mem_append, or_iff_left (hrec event)]
    rfl
  have hfaithful : ∀ event, s.Faithful event → t.Faithful event := by
    rintro event ⟨event₀, hev, hrest⟩
    exact ⟨event₀, (hiff event₀).2 hev, hrest⟩
  refine ⟨fun event hev => h.built event ((hiff event).1 hev), fun event hev => ?_, fun event event' hev hev' =>
    h.unique event event' ((hiff _).1 hev) ((hiff _).1 hev'), (h.rows hstep).1, fun r hr hst =>
      ?_, fun f hf hp event hev => ?_,
    fun f hf hp => ?_, fun f hf event hp => ?_, fun event hm => ?_, ?_⟩
  · obtain ⟨r, hr, hk⟩ := h.keeps event ((hiff event).1 hev)
    obtain ⟨r', hr', hchange⟩ := hstep.old hr
    exact ⟨r', hr', h.change hw hallowed ((hiff event).1 hev) hk hchange⟩
  · obtain ⟨event, hev, hid⟩ := hnew r hr hst
    exact ⟨event, (hiff event).2 hev, hid⟩
  · rcases hflight f hf with hold | ⟨hc, -, -⟩
    · exact h.waiting f hold hp event ((hiff event).1 hev)
    · exact hc hp event ((hiff event).1 hev)
  · obtain ⟨event, hev, hid⟩ : ∃ event, s.Recorded event ∧ event.attemptId = f.task.attemptId := by
      rcases hflight f hf with hold | ⟨-, hr, -⟩
      · exact h.replaying f hold hp
      · exact hr hp
    exact ⟨event, (hiff event).2 hev, hid⟩
  · rcases hflight f hf with hold | ⟨-, -, hh⟩
    · exact hfaithful event (h.holds f hold event hp)
    · exact hfaithful event (hh event hp)
  · rw [hhist] at hm
    rcases List.mem_append.1 hm with hm | hm
    · exact hfaithful event (h.published event hm)
    · exact hfaithful event (hpub event hm)
  · rw [hhist, List.pairwise_append]
    refine ⟨h.order, ?_, fun m hm m' hm' event he hinvoked => ?_⟩
    · refine List.Pairwise.imp_of_mem (fun {m m'} hm _ _ event he => absurd (he ▸ hm) (hrec event))
        (l.pairwise_of_forall fun _ _ => trivial)
    · subst he hinvoked
      exact hinv event.attemptId hm' event hm rfl

/-- The step that records a result. -/
theorem Results.record (h : Results s) (hw : Workers s) (hids : AttemptIds s) {k : Nat} {outcome : HandlerOutcome}
    {f : InFlight} {event : TaskCompletionEvent} {r : TaskAttemptRecord}
    (hallowed : keepsResults s (.work k outcome) = true) (hstep : AttemptsStep cfg s (.work k outcome) t)
    (task : s.inFlight[k]? = some f) (phase : f.phase = .executed event) (attempt : r ∈ s.db.taskAttempts)
    (attempt_id : r.attemptId = event.attemptId) (status : r.status = .claimed)
    (hhist : t.history = s.history ++ [.resultRecorded event])
    (hrow : resultOf event r ∈ t.db.taskAttempts)
    (hflight : t.inFlight = s.inFlight.set k { f with phase := .recorded event }) : Results t := by
  have hiff : ∀ event', t.Recorded event' ↔ s.Recorded event' ∨ event' = event := by
    intro event'
    rw [Recorded, hhist, List.mem_append, List.mem_singleton]
    simp [Recorded]
  have hfaithful : ∀ event', s.Faithful event' → t.Faithful event' := by
    rintro event' ⟨event₀, hev, hrest⟩
    exact ⟨event₀, (hiff event₀).2 (.inl hev), hrest⟩
  have hfresh : ∀ event', s.Recorded event' → event'.attemptId ≠ event.attemptId := by
    intro event' hev hid
    exact (h.keeps_of_id hids hev attempt (attempt_id.trans hid.symm)).not_claimed status
  -- the condition: nobody is about to start the handler of this attempt
  have hnobody : ∀ g ∈ s.inFlight, g.phase = .claimed → g.task.attemptId ≠ event.attemptId := by
    have hget : s.db.getAttempt event.attemptId = some r := hids.getAttempt attempt attempt_id
    have hc : ∀ g ∈ s.inFlight, ¬(g.phase = .claimed ∧ g.task.attemptId = event.attemptId) := by
      simpa [keepsResults, task, phase, hget, status] using hallowed
    exact fun g hg hp hid => hc g hg ⟨hp, hid⟩
  have hold : ∀ g ∈ t.inFlight, g ∈ s.inFlight ∨ g.phase = .recorded event := by
    intro g hg
    rw [hflight] at hg
    rcases mem_set_cases hg with hg | rfl
    · exact .inl hg
    · exact .inr rfl
  obtain ⟨hreports, hbuilt⟩ := (hw.carries f (List.mem_of_getElem? task)).event event (by rw [phase]; rfl)
  refine ⟨fun event' hev => ?_, fun event' hev => ?_, fun event₁ event₂ h₁ h₂ hid => ?_, (h.rows hstep).1,
    fun r' hr' hst => ?_, fun g hg hp event' hev => ?_, fun g hg hp => ?_, fun g hg event' hp => ?_,
    fun event' hm => ?_, ?_⟩
  · rcases (hiff event').1 hev with hev | rfl
    · exact h.built event' hev
    · exact hbuilt
  · rcases (hiff event').1 hev with hev | rfl
    · obtain ⟨r₀, hr₀, hk⟩ := h.keeps event' hev
      obtain ⟨r', hr', hchange⟩ := hstep.old hr₀
      exact ⟨r', hr', h.change hw hallowed hev hk hchange⟩
    · exact ⟨_, hrow, attempt_id, rfl, rfl, rfl, rfl, h.claimed r attempt status, .inl rfl⟩
  · rcases (hiff event₁).1 h₁ with h₁ | rfl <;> rcases (hiff event₂).1 h₂ with h₂ | rfl
    · exact h.unique event₁ event₂ h₁ h₂ hid
    · exact absurd hid (hfresh event₁ h₁)
    · exact absurd hid.symm (hfresh event₂ h₂)
    · rfl
  · rcases (h.rows hstep).2 r' hr' hst with ⟨event', hev, hid⟩ | ⟨k', _, f', event', ha, hf', hp', hid⟩
    · exact ⟨event', (hiff event').2 (.inl hev), hid⟩
    · cases ha
      obtain rfl := Option.some.inj (task.symm.trans hf')
      obtain rfl := TaskPhase.executed.inj (phase.symm.trans hp')
      exact ⟨event, (hiff event).2 (.inr rfl), hid.symm⟩
  · rcases hold g hg with hg | hg
    · rcases (hiff event').1 hev with hev | rfl
      · exact h.waiting g hg hp event' hev
      · exact (hnobody g hg hp).symm
    · rw [hg] at hp
      cases hp
  · rcases hold g hg with hg | hg
    · obtain ⟨event', hev, hid⟩ := h.replaying g hg hp
      exact ⟨event', (hiff event').2 (.inl hev), hid⟩
    · rw [hg] at hp
      cases hp
  · rcases hold g hg with hg | hg
    · exact hfaithful event' (h.holds g hg event' hp)
    · obtain rfl := TaskPhase.recorded.inj (hg.symm.trans hp)
      exact ⟨event, (hiff event).2 (.inr rfl), rfl, rfl⟩
  · rw [hhist] at hm
    rcases List.mem_append.1 hm with hm | hm
    · exact hfaithful event' (h.published event' hm)
    · cases List.mem_singleton.1 hm
  · rw [hhist, List.pairwise_append]
    refine ⟨h.order, List.pairwise_singleton _ _, fun m _ m' hm' event' _ hinvoked => ?_⟩
    rw [List.mem_singleton.1 hm'] at hinvoked
    cases hinvoked

/-- A replayed event is the recorded one. -/
theorem Results.replayed (h : Results s) (hids : AttemptIds s) {f : InFlight} {event : TaskCompletionEvent}
    (hf : f ∈ s.inFlight) (phase : f.phase = .replaying)
    (result : (s.db.getResult f.task.attemptId).bind (eventFromResult f.task) = .ok event) : s.Faithful event := by
  obtain ⟨event₀, hev, hid⟩ := h.replaying f hf phase
  obtain ⟨r, eventId, outcome, attempt, hevent, rfl, hout⟩ := replayed_ok result
  have hk := h.keeps_of_id hids hev (attempt_some attempt).1 ((attempt_some attempt).2.trans hid.symm)
  obtain rfl : event₀.eventId = eventId := Option.some.inj (hk.eventId.symm.trans hevent)
  have hmessage := hk.message
  have htype := hk.type
  have houtput := hk.output
  refine ⟨event₀, hev, ?_, ?_⟩
  · rw [completionEvent_reports.attemptId, hid]
  · rcases hout with ⟨hm, ht, rfl⟩ | ⟨message, type, hm, ht, rfl⟩
    · rw [hm] at hmessage
      rw [ht] at htype
      cases h.built event₀ hev with
      | completed status => simp [TaskCompletionEvent.result, completionEvent, status, houtput, ← hmessage, ← htype]
      | failed _ _ message_eq => rw [← hmessage] at message_eq; cases message_eq
    · rw [hm] at hmessage
      rw [ht] at htype
      cases h.built event₀ hev with
      | completed _ message_eq => rw [← hmessage] at message_eq; cases message_eq
      | failed status output => simp [TaskCompletionEvent.result, completionEvent, status, output, ← hmessage, ← htype]

/-- A step that records nothing leaves no new row in `result_recorded`. -/
theorem Results.recorded_rows (h : Results s) (hstep : AttemptsStep cfg s a t)
    (hno : ∀ k outcome f event, a = .work k outcome → s.inFlight[k]? = some f → f.phase ≠ .executed event) :
    ∀ r ∈ t.db.taskAttempts, r.status = .resultRecorded → ∃ event, s.Recorded event ∧
      event.attemptId = r.attemptId := by
  intro r hr hst
  rcases (h.rows hstep).2 r hr hst with hold | ⟨k, outcome, f, event, ha, hf, hp, -⟩
  · exact hold
  · exact absurd hp (hno k outcome f event ha hf)

/-- A worker goes from one phase to another. -/
theorem Results.moves (h : Results s) (hw : Workers s) {k : Nat} {outcome : HandlerOutcome} {f : InFlight}
    {phase : TaskPhase} {l : List Milestone} (hallowed : keepsResults s (.work k outcome) = true)
    (hstep : AttemptsStep cfg s (.work k outcome) t) (task : s.inFlight[k]? = some f)
    (hne : ∀ event, f.phase ≠ .executed event) (hflight : t.inFlight = s.inFlight.set k { f with phase := phase })
    (hhist : t.history = s.history ++ l) (hrec : ∀ event, Milestone.resultRecorded event ∉ l)
    (hinv : ∀ attemptId, Milestone.handlerInvoked attemptId ∈ l → ∀ event, s.Recorded event →
      event.attemptId ≠ attemptId)
    (hpub : ∀ event, Milestone.completionPublished event ∈ l → s.Faithful event)
    (hclaimed : phase = .claimed → ∀ event, s.Recorded event → event.attemptId ≠ f.task.attemptId)
    (hreplaying : phase = .replaying → ∃ event, s.Recorded event ∧ event.attemptId = f.task.attemptId)
    (hrecorded : ∀ event, phase = .recorded event → s.Faithful event) : Results t := by
  refine h.carry hw hallowed hstep hhist hrec hinv hpub (h.recorded_rows hstep ?_) fun g hg => ?_
  · intro k' outcome' f' event ha task' hp
    cases ha
    obtain rfl := Option.some.inj (task.symm.trans task')
    exact hne event hp
  · rw [hflight] at hg
    rcases mem_set_cases hg with hg | rfl
    · exact .inl hg
    · exact .inr ⟨hclaimed, hreplaying, hrecorded⟩

/-- Nothing happens to recorded results, and no worker comes to hold one. -/
theorem Results.idle (h : Results s) (hw : Workers s) (hallowed : keepsResults s a = true)
    (hstep : AttemptsStep cfg s a t) {l : List Milestone}
    (hno : ∀ k outcome f event, a = .work k outcome → s.inFlight[k]? = some f → f.phase ≠ .executed event)
    (hhist : t.history = s.history ++ l)
    (hl : ∀ m ∈ l, (∃ e input, m = .triggered e input) ∨ ∃ e n, m = .nodeClaimed e n)
    (hflight : ∀ f ∈ t.inFlight, f ∈ s.inFlight ∨ f.phase = .received ∨ ∃ b, f.phase = .executing b) : Results t := by
  refine h.carry hw hallowed hstep hhist ?_ ?_ ?_ (h.recorded_rows hstep hno) fun f hf => ?_
  · intro event hm
    rcases hl _ hm with ⟨_, _, he⟩ | ⟨_, _, he⟩ <;> cases he
  · intro attemptId hm
    rcases hl _ hm with ⟨_, _, he⟩ | ⟨_, _, he⟩ <;> cases he
  · intro event hm
    rcases hl _ hm with ⟨_, _, he⟩ | ⟨_, _, he⟩ <;> cases he
  · rcases hflight f hf with hf | hf | ⟨b, hf⟩
    · exact .inl hf
    · exact .inr ⟨by simp [hf], by simp [hf], by simp [hf]⟩
    · exact .inr ⟨by simp [hf], by simp [hf], by simp [hf]⟩

theorem Effect.results (heffect : Effect cfg s a t) (hstep : AttemptsStep cfg s a t) (hw : Workers s)
    (hids : AttemptIds s) (hallowed : keepsResults s a = true) (h : Results s) : Results t := by
  have hnil : s.history = s.history ++ [] := (List.append_nil _).symm
  have hdrop :
      ∀ {k : Nat}, ∀ f ∈ s.inFlight.eraseIdx k, f ∈ s.inFlight ∨ f.phase = .received ∨ ∃ b, f.phase = .executing b :=
    fun f hf => .inl (List.mem_of_mem_eraseIdx hf)
  have hadd :
      ∀ {worker : String} {index : Nat} {m : NodeTaskMessage}, ∀ f ∈ s.inFlight ++ [⟨worker, index, m, .received⟩],
      f ∈ s.inFlight ∨ f.phase = .received ∨ ∃ b, f.phase = .executing b := by
    intro worker index m f hf
    rcases List.mem_append.1 hf with hf | hf
    · exact .inl hf
    · rw [List.mem_singleton.1 hf]
      exact .inr (.inl rfl)
  cases heffect with
  | record task phase attempt attempt_id claimed =>
    refine h.record hw hids hallowed hstep task phase attempt attempt_id claimed rfl ?_ rfl
    exact Table.mem_updateWhere.2 ⟨_, attempt, by rw [if_pos (decide_eq_true ⟨attempt_id, claimed⟩)]⟩
  | @claim k outcome f r task phase attempt open' free =>
    refine h.moves hw hallowed hstep task (by simp [phase]) rfl hnil (by simp) (by simp) (by simp)
      (fun _ event hev hid => ?_) (by simp) (by simp)
    have hk := h.keeps_of_id hids hev (attempt_some attempt).1 ((attempt_some attempt).2.trans hid.symm)
    rw [hk.not_free open'] at free
    cases free
  | replay task phase attempt recorded =>
    refine h.moves hw hallowed hstep task (by simp [phase]) rfl hnil (by simp) (by simp) (by simp) (by simp)
      (fun _ => ?_) (by simp)
    obtain ⟨event, hev, hid⟩ := h.recorded _ (attempt_some attempt).1 recorded
    exact ⟨event, hev, hid.trans (attempt_some attempt).2⟩
  | invoke task phase =>
    refine h.moves hw hallowed hstep task (by simp [phase]) rfl rfl (by simp) (fun attemptId hm => ?_) (by simp)
      (by simp) (by simp) (by simp)
    cases List.mem_singleton.1 hm
    exact h.waiting _ (List.mem_of_getElem? task) phase
  | replayed task phase result =>
    refine h.moves hw hallowed hstep task (by simp [phase]) rfl hnil (by simp) (by simp) (by simp) (by simp) (by simp)
      fun event he => ?_
    cases he
    exact h.replayed hids (List.mem_of_getElem? task) phase result
  | publish task phase =>
    refine h.moves hw hallowed hstep task (by simp [phase]) rfl rfl (by simp) (by simp) (fun event hm => ?_) (by simp)
      (by simp) (by simp)
    cases List.mem_singleton.1 hm
    exact h.holds _ (List.mem_of_getElem? task) _ phase
  | alreadyCompleted task phase | busy task phase | finish task phase | mark task phase =>
    exact h.moves hw hallowed hstep task (by simp [phase]) rfl hnil (by simp) (by simp) (by simp) (by simp)
      (by simp) (by simp)
  | @recordRaised k outcome f event task phase =>
    exact h.carry hw hallowed hstep hnil (by simp) (by simp) (by simp) h.recorded fun g hg =>
      .inl (List.mem_of_mem_eraseIdx hg)
  | claimRaised task phase | leaseLost task phase | replayRaised task phase | markRaised task phase
  | acknowledgeTask task phase =>
    refine h.idle hw hallowed hstep (fun k outcome f event ha hf hp => ?_) hnil (by simp) hdrop
    cases ha
    obtain rfl := Option.some.inj (task.symm.trans hf)
    rw [phase] at hp
    cases hp
  | dropTask => exact h.idle hw hallowed hstep (by simp) hnil (by simp) hdrop
  | deliverTask | reclaimTask => exact h.idle hw hallowed hstep (by simp) hnil (by simp) hadd
  | renew =>
    refine h.idle hw hallowed hstep (by simp) hnil (by simp) fun f hf => ?_
    rcases mem_set_cases hf with hf | rfl
    · exact .inl hf
    · exact .inr (.inr ⟨_, rfl⟩)
  | trigger =>
    exact h.idle hw hallowed hstep (by simp) rfl (fun m hm => .inl ⟨_, _, List.mem_singleton.1 hm⟩) fun f hf => .inl hf
  | dispatch =>
    refine h.idle hw hallowed hstep (by simp) rfl (fun m hm => .inr ?_) fun f hf => .inl hf
    split at hm
    · exact ⟨_, _, List.mem_singleton.1 hm⟩
    · cases hm
  | _ => exact h.idle hw hallowed hstep (by simp) hnil (by simp) fun f hf => .inl hf

theorem reachable_results (h : Reachable cfg (fun s a => keepsResults s a = true) s) : Results s :=
  Transition.Reachable.invariant results_init (fun _ _ _ hr hs ha ht =>
    have hany := hr.mono fun _ _ _ => trivial
    (step_effect ht).results (reachable_attemptsStep hany (step_effect ht)) (reachable_workers hany)
      (reachable_attemptIds hany) ha hs) h

/-- In every run that meets the condition, once a result was recorded the handler is not invoked
again for the attempt, and whatever is ever published for it is the recorded result. -/
theorem recorded_result_final (h : Reachable cfg (fun s a => keepsResults s a = true) s) {event : TaskCompletionEvent}
    {before after : List Milestone} (recorded : s.history = before ++ .resultRecorded event :: after) :
    .handlerInvoked event.attemptId ∉ after ∧
      ∀ event', .completionPublished event' ∈ s.history → event'.attemptId = event.attemptId →
        event'.result = event.result := by
  have hr := reachable_results h
  refine ⟨fun hm => ?_, fun event' hm hid => ?_⟩
  · have horder := hr.order
    rw [recorded, List.pairwise_append, List.pairwise_cons] at horder
    exact horder.2.1.1 _ hm event rfl rfl
  · obtain ⟨event₀, hev₀, hid₀, hres⟩ := hr.published event' hm
    have hev : s.Recorded event := by
      rw [Recorded, recorded]
      exact List.mem_append_right _ List.mem_cons_self
    rw [hres, hr.unique event₀ event hev₀ hev (hid₀.trans hid)]

/-- The failure of the only attempt of `fetch`, under the execution `.v4 1`. -/
def boom : TaskCompletionEvent :=
  ⟨.v4 4, createTaskId (.v4 1) "fetch", .v4 3, 1, .v4 1, "fetch", .failed, .null, some "boom", some "RuntimeError"⟩

def boomRecorded : List Action :=
  started ++ ([.work 0 (.failure "boom" "RuntimeError"), .work 0 (.success .null)] : List Action)

/-- The worker stops with a recorded result; a second one replays and publishes it. -/
def replayedFailure : System :=
  reachedUnder sampleConfig keepsResults (boomRecorded ++ ([.dropTask 0, .tick 60000000, .reclaimTask "second" 0,
    .work 0 (.success .null), .work 0 (.success .null), .work 0 (.success .null)] : List Action))

theorem recorded_result_final_replayed :
    .completionPublished boom ∈ replayedFailure.history ∧
      ∃ before after, replayedFailure.history = before ++ .resultRecorded boom :: after ∧
        .handlerInvoked boom.attemptId ∉ after := by
  have recorded : replayedFailure.history =
      replayedFailure.history.take 3 ++ .resultRecorded boom :: replayedFailure.history.drop 4 := by decide +kernel
  exact ⟨by decide +kernel, _, _, recorded,
    (recorded_result_final (reachable_reachedUnder sampleConfig keepsResults _) recorded).1⟩

/-- The failure is processed before the worker marks the attempt completed. Marking then raises,
the entry stays unacknowledged, and a second worker runs the handler again. -/
def reopened : System :=
  reached sampleConfig (boomRecorded ++ ([.work 0 (.success .null), .deliverCompletion "orchestrator", .handle 0,
    .work 0 (.success .null), .tick 60000000, .reclaimTask "second" 0, .work 0 (.success .null),
    .work 0 (.success .null)] : List Action))

theorem recorded_result_final_counterexample :
    Reachable sampleConfig anyStep reopened ∧
      ∃ before after, reopened.history = before ++ .resultRecorded boom :: after ∧
        .handlerInvoked boom.attemptId ∈ after := by
  refine ⟨reachable_reached sampleConfig _, reopened.history.take 3, reopened.history.drop 4, ?_, ?_⟩ <;>
    decide +kernel

end System

end WorkflowEngine
