import WorkflowEngine.Sequences

/-!
# Events and the rows of their attempts

A worker records a result before it publishes the event, and records only while the attempt
is claimed. So an event that is out is the one its attempt's row holds, or it is the failure
of an attempt that was closed before. A published success is therefore always known to the
row when the orchestrator consults it.
-/
namespace WorkflowEngine

open Database

namespace TaskCompletionEvent

/-- The row holds the event's result. -/
structure Matches (event : TaskCompletionEvent) (r : TaskAttemptRecord) : Prop where
  id : r.completionEventId = some event.eventId
  status : r.status = .resultRecorded ∨ r.status = .completed
  message : r.errorMessage = event.errorMessage
  output : event.status = .completed → r.resultData = event.outputData

/-- A failure of an attempt that was closed. -/
def Stale (event : TaskCompletionEvent) (r : TaskAttemptRecord) : Prop :=
  event.status = .failed ∧ r.failureEventId.isSome

theorem Built.failed_of_message {event : TaskCompletionEvent} (h : event.Built) (hm : event.errorMessage.isSome) :
    event.status = .failed := by
  cases h with
  | completed _ message => rw [message] at hm; cases hm
  | failed status => exact status

end TaskCompletionEvent

/-- No worker has claimed the attempt yet. -/
def TaskAttemptRecord.Untouched (r : TaskAttemptRecord) : Prop :=
  r.status = .running ∨ r.status = .scheduled ∨ r.status = .queued

namespace System

variable {cfg : Config} {s t : System} {a : Action}

/-- The event is recorded and about to be published, or published. -/
inductive Out (s : System) (event : TaskCompletionEvent) : Prop where
  | recorded {f : InFlight} (mem : f ∈ s.inFlight) (phase : f.phase = .recorded event)
  | published (mem : event ∈ s.completions.entries)

structure Outcomes (s : System) : Prop where
  out : ∀ event, Out s event → ∀ r ∈ s.db.taskAttempts, r.attemptId = event.attemptId → event.Matches r ∨ event.Stale r
  untouched : ∀ r ∈ s.db.taskAttempts, r.Untouched → r.failureEventId = none ∧ r.claimedBy = none
  closed : ∀ r ∈ s.db.taskAttempts, r.status = .failed ∨ (r.status = .claimed ∧ r.failureEventId.isSome) →
    r.errorMessage.isSome
  replaying : ∀ f ∈ s.inFlight, f.phase = .replaying → ∀ r ∈ s.db.taskAttempts, r.attemptId = f.task.attemptId →
    (r.status = .resultRecorded ∨ r.status = .completed) ∨
      (r.failureEventId.isSome ∧ (r.status = .failed ∨ r.status = .claimed))

theorem outcomes_init : Outcomes init := by
  constructor <;> simp [init, Database.empty]

theorem Out.built (hw : Workers s) {event : TaskCompletionEvent} (h : Out s event) : event.Built := by
  cases h with
  | recorded mem phase => exact ((hw.carries _ mem).event event (by rw [phase]; rfl)).2
  | published mem => exact (hw.completions event mem).built

/-- The event's attempt is in the table. -/
theorem Out.attempt (hw : Workers s) (hm : Messages s) {event : TaskCompletionEvent} (h : Out s event) :
    ∃ r ∈ s.db.taskAttempts, r.attemptId = event.attemptId := by
  have hissued : ∀ {m : NodeTaskMessage}, m ∈ s.tasks.entries → event.Reports m →
      ∃ r ∈ s.db.taskAttempts, r.attemptId = event.attemptId := by
    intro m hmem hreports
    obtain ⟨r, hr, hslot⟩ := List.mem_map.1 (hm.entries m hmem).1
    exact ⟨r, hr, (congrArg Prod.fst hslot).trans hreports.attemptId.symm⟩
  cases h with
  | recorded mem phase =>
    have hcarries := hw.carries _ mem
    exact hissued (List.mem_of_getElem? hcarries.entry) (hcarries.event event (by rw [phase]; rfl)).1
  | published mem =>
    obtain ⟨m, hmem, hreports⟩ := (hw.completions event mem).task
    exact hissued hmem hreports

/-- The events that are out after a step: the old ones, a recorded one, a replayed one. -/
theorem Effect.out (heffect : Effect cfg s a t) {event : TaskCompletionEvent} (h : Out t event) : Out s event ∨
    (∃ k outcome f, a = .work k outcome ∧ s.inFlight[k]? = some f ∧ f.phase = .executed event ∧
      (∃ r ∈ s.db.taskAttempts, r.attemptId = event.attemptId ∧ r.status = .claimed) ∧
      t.db = s.db.updateAttemptIn event.attemptId .claimed (resultOf event)) ∨
    (t.db = s.db ∧ ∃ f ∈ s.inFlight, f.phase = .replaying ∧
      (s.db.getResult f.task.attemptId).bind (eventFromResult f.task) = .ok event) := by
  cases h with
  | published mem =>
    rcases heffect.completions with heq | ⟨k, f, event', task, phase, heq, -⟩
    · exact .inl (.published (heq ▸ mem))
    · rw [heq] at mem
      rcases List.mem_append.1 mem with mem | mem
      · exact .inl (.published mem)
      · rw [List.mem_singleton.1 mem]
        exact .inl (.recorded (List.mem_of_getElem? task) phase)
  | @recorded f mem phase =>
    have hset :
        ∀ {k : Nat} {g : InFlight} {phase' : TaskPhase}, t.inFlight = s.inFlight.set k { g with phase := phase' } →
        phase' ≠ .recorded event → Out s event := by
      intro k g phase' heq hne
      rw [heq] at mem
      rcases mem_set_cases mem with mem | rfl
      · exact .recorded mem phase
      · exact absurd phase hne
    cases heffect with
    | @record k outcome g event' r task executed attempt attempt_id claimed =>
      rcases mem_set_cases mem with mem | rfl
      · exact .inl (.recorded mem phase)
      · obtain rfl := TaskPhase.recorded.inj phase
        exact .inr (.inl ⟨_, _, g, rfl, task, executed, ⟨r, attempt, attempt_id, claimed⟩, rfl⟩)
    | @replayed k outcome g event' task replaying result =>
      rcases mem_set_cases mem with mem | rfl
      · exact .inl (.recorded mem phase)
      · obtain rfl := TaskPhase.recorded.inj phase
        exact .inr (.inr ⟨rfl, g, List.mem_of_getElem? task, replaying, result⟩)
    | claim | replay | alreadyCompleted | busy | invoke | finish | publish | mark | renew =>
      exact .inl (hset rfl (by simp))
    | deliverTask | reclaimTask =>
      rcases List.mem_append.1 mem with mem | mem
      · exact .inl (.recorded mem phase)
      · rw [List.mem_singleton.1 mem] at phase
        cases phase
    | claimRaised | leaseLost | recordRaised | replayRaised | markRaised | dropTask | acknowledgeTask =>
      exact .inl (.recorded (List.mem_of_mem_eraseIdx mem) phase)
    | _ => exact .inl (.recorded mem phase)

/-- What the row of a claimed attempt holds of the event a worker records. -/
theorem resultOf_matches {event : TaskCompletionEvent} {r : TaskAttemptRecord} : event.Matches (resultOf event r) :=
  ⟨rfl, .inl rfl, rfl, fun _ => rfl⟩

/-- No event of an attempt is out that is not claimed yet or claimed again, except old failures. -/
theorem Outcomes.stale (h : Outcomes s) {event : TaskCompletionEvent} (hout : Out s event) {r : TaskAttemptRecord}
    (hr : r ∈ s.db.taskAttempts) (hid : r.attemptId = event.attemptId)
    (hst : r.status ≠ .resultRecorded ∧ r.status ≠ .completed) : event.Stale r := by
  rcases h.out event hout r hr hid with hmatches | hstale
  · rcases hmatches.status with hs | hs
    · exact absurd hs hst.1
    · exact absurd hs hst.2
  · exact hstale

/-- A published success is the result its attempt's row holds. -/
theorem Outcomes.success (h : Outcomes s) {event : TaskCompletionEvent} (hmem : event ∈ s.completions.entries)
    (hcompleted : event.status = .completed) {r : TaskAttemptRecord} (hr : r ∈ s.db.taskAttempts)
    (hid : r.attemptId = event.attemptId) : event.Matches r := by
  rcases h.out event (.published hmem) r hr hid with hmatches | ⟨hfailed, -⟩
  · exact hmatches
  · rw [hcompleted] at hfailed
    cases hfailed

/-- An event that was out stays the one its row holds, or gets stale. -/
theorem Outcomes.change (h : Outcomes s) (hw : Workers s) {event : TaskCompletionEvent} (hout : Out s event)
    {r r' : TaskAttemptRecord} (hr : r ∈ s.db.taskAttempts) (hid : r.attemptId = event.attemptId)
    (hchange : AttemptChange cfg s a r r') : event.Matches r' ∨ event.Stale r' := by
  have hold : r'.failureEventId = r.failureEventId → r.status ≠ .resultRecorded ∧ r.status ≠ .completed →
      event.Matches r' ∨ event.Stale r' := by
    intro heq hst
    obtain ⟨hfailed, hclosed⟩ := h.stale hout hr hid hst
    exact .inr ⟨hfailed, heq ▸ hclosed⟩
  cases hchange with
  | same => exact h.out event hout r hr hid
  | succeeded _ entry status id _ unknown =>
    exact absurd (h.success (List.mem_of_getElem? entry) status hr id).id unknown
  | @failed k index event' errorMessage errorType _ handling entry status message type id counts =>
    -- both events are the one of the open attempt's row, so both are failures
    have hopen : ∀ {event : TaskCompletionEvent}, ¬ event.Stale r := by
      rintro event ⟨-, hclosed⟩
      rw [counts.open'] at hclosed
      cases hclosed
    have hmatches := (h.out event hout r hr hid).resolve_right hopen
    have hmatches' := (h.out event' (.published (List.mem_of_getElem? entry)) r hr id).resolve_right hopen
    refine .inr ⟨(hout.built hw).failed_of_message ?_, rfl⟩
    rw [← hmatches.message, hmatches'.message, message]
    rfl
  | queued _ _ scheduled => exact hold rfl (by simp [scheduled])
  | claimed _ _ _ open' => exact hold rfl ⟨open'.2, open'.1⟩
  | renewed _ _ _ status => exact hold rfl (by simp [status])
  | recorded _ _ _ status => exact hold rfl (by simp [status])
  | marked _ _ _ status =>
    rcases h.out event hout r hr hid with hmatches | hstale
    · exact .inl ⟨hmatches.id, .inr rfl, hmatches.message, hmatches.output⟩
    · exact .inr hstale

/-- A replayed event is the one the row holds, or a failure of a closed attempt. -/
theorem Outcomes.replayed (h : Outcomes s) (hids : AttemptIds s) {f : InFlight} {event : TaskCompletionEvent}
    (hf : f ∈ s.inFlight) (phase : f.phase = .replaying)
    (result : (s.db.getResult f.task.attemptId).bind (eventFromResult f.task) = .ok event) {r : TaskAttemptRecord}
    (hr : r ∈ s.db.taskAttempts) (hid : r.attemptId = event.attemptId) : event.Matches r ∨ event.Stale r := by
  obtain ⟨r', eventId, outcome, attempt, hevent, rfl, hout⟩ := replayed_ok result
  rw [completionEvent_reports.attemptId] at hid
  obtain rfl := hids.keyed.ext hr (attempt_some attempt).1 (hid.trans (attempt_some attempt).2.symm)
  rcases h.replaying f hf phase r hr hid with hst | ⟨hclosed, hst⟩
  · rcases hout with ⟨hm, -, rfl⟩ | ⟨message, type, hm, -, rfl⟩
    · exact .inl ⟨hevent, hst, hm, fun _ => rfl⟩
    · exact .inl ⟨hevent, hst, hm, fun hc => by cases hc⟩
  · have hmessage := h.closed r hr (hst.imp_right fun hc => ⟨hc, hclosed⟩)
    rcases hout with ⟨hm, -, rfl⟩ | ⟨message, type, hm, -, rfl⟩
    · rw [hm] at hmessage
      cases hmessage
    · exact .inr ⟨rfl, hclosed⟩

theorem AttemptChange.untouched {r r' : TaskAttemptRecord} (hchange : AttemptChange cfg s a r r')
    (h : r.Untouched → r.failureEventId = none ∧ r.claimedBy = none) :
    r'.Untouched → r'.failureEventId = none ∧ r'.claimedBy = none := by
  intro hr'
  cases hchange with
  | same => exact h hr'
  | queued _ _ scheduled => exact h (.inr (.inl scheduled))
  | renewed _ _ _ status => rcases hr' with hs | hs | hs <;> rw [status] at hs <;> cases hs
  | _ => rcases hr' with hs | hs | hs <;> cases hs

theorem AttemptChange.closed {r r' : TaskAttemptRecord} (hchange : AttemptChange cfg s a r r')
    (huntouched : r.Untouched → r.failureEventId = none ∧ r.claimedBy = none)
    (h : r.status = .failed ∨ (r.status = .claimed ∧ r.failureEventId.isSome) → r.errorMessage.isSome) :
    r'.status = .failed ∨ (r'.status = .claimed ∧ r'.failureEventId.isSome) → r'.errorMessage.isSome := by
  intro hr'
  cases hchange with
  | same => exact h hr'
  | failed => rfl
  | renewed => exact h hr'
  | claimed _ _ _ open' =>
    rcases hr' with hs | ⟨-, hclosed⟩
    · cases hs
    · have hclosed : r.failureEventId.isSome := hclosed
      have hno : ¬ r.Untouched := fun hu => by
        rw [(huntouched hu).1] at hclosed
        cases hclosed
      refine h ?_
      cases hst : r.status with
      | failed => exact .inl rfl
      | claimed => exact .inr ⟨rfl, hclosed⟩
      | completed => exact absurd hst open'.1
      | resultRecorded => exact absurd hst open'.2
      | running => exact absurd (.inl hst) hno
      | scheduled => exact absurd (.inr (.inl hst)) hno
      | queued => exact absurd (.inr (.inr hst)) hno
  | _ => rcases hr' with hs | ⟨hs, -⟩ <;> cases hs

/-- An attempt whose result is replayed stays recorded, or was closed. -/
theorem AttemptChange.replaying {r r' : TaskAttemptRecord} (hchange : AttemptChange cfg s a r r')
    (h : (r.status = .resultRecorded ∨ r.status = .completed) ∨
      (r.failureEventId.isSome ∧ (r.status = .failed ∨ r.status = .claimed))) :
    (r'.status = .resultRecorded ∨ r'.status = .completed) ∨
      (r'.failureEventId.isSome ∧ (r'.status = .failed ∨ r'.status = .claimed)) := by
  cases hchange with
  | same => exact h
  | succeeded => exact .inl (.inr rfl)
  | failed => exact .inr ⟨rfl, .inl rfl⟩
  | queued _ _ scheduled => rcases h with (hs | hs) | ⟨-, hs | hs⟩ <;> rw [scheduled] at hs <;> cases hs
  | claimed _ _ _ open' =>
    rcases h with (hs | hs) | ⟨hclosed, -⟩
    · exact absurd hs open'.2
    · exact absurd hs open'.1
    · exact .inr ⟨hclosed, .inr rfl⟩
  | renewed => exact h
  | recorded => exact .inl (.inl rfl)
  | marked => exact .inl (.inr rfl)

/-- The tasks that replay a result after a step. -/
theorem Effect.replaying (heffect : Effect cfg s a t) {f : InFlight} (hf : f ∈ t.inFlight)
    (phase : f.phase = .replaying) :
    f ∈ s.inFlight ∨ (t.db = s.db ∧ ∃ r, s.db.getAttempt f.task.attemptId = some r ∧ r.status = .resultRecorded) := by
  have hset :
      ∀ {k : Nat} {g : InFlight} {phase' : TaskPhase}, t.inFlight = s.inFlight.set k { g with phase := phase' } →
      phase' ≠ .replaying → f ∈ s.inFlight := by
    intro k g phase' heq hne
    rw [heq] at hf
    rcases mem_set_cases hf with hf | rfl
    · exact hf
    · exact absurd phase hne
  cases heffect with
  | @replay k outcome g r task _ attempt recorded =>
    rcases mem_set_cases hf with hf | rfl
    · exact .inl hf
    · exact .inr ⟨rfl, r, attempt, recorded⟩
  | claim | alreadyCompleted | busy | invoke | finish | record | replayed | publish | mark | renew =>
    exact .inl (hset rfl (by simp))
  | deliverTask | reclaimTask =>
    rcases List.mem_append.1 hf with hf | hf
    · exact .inl hf
    · rw [List.mem_singleton.1 hf] at phase
      cases phase
  | claimRaised | leaseLost | recordRaised | replayRaised | markRaised | dropTask | acknowledgeTask =>
    exact .inl (List.mem_of_mem_eraseIdx hf)
  | _ => exact .inl hf

/-- What holds of the rows a step adds: no event of theirs is out. -/
theorem NewAttempt.untouched {r : TaskAttemptRecord} (h : NewAttempt s r) :
    r.Untouched ∧ r.failureEventId = none ∧ r.claimedBy = none := by
  cases h with
  | first => exact ⟨.inl rfl, rfl, rfl⟩
  | retry => exact ⟨.inr (.inl rfl), rfl, rfl⟩

theorem AttemptIds.not_new (hids : AttemptIds s) {r r₀ : TaskAttemptRecord} (hr : NewAttempt s r)
    (hr₀ : r₀ ∈ s.db.taskAttempts) : r₀.attemptId ≠ r.attemptId := by
  intro heq
  obtain ⟨d, hd, he⟩ := hids.drawn r₀ hr₀
  rw [he, hr.id] at heq
  cases heq
  exact lt_irrefl _ hd

/-- An event that is out after a step is the one its row then holds, or is stale. -/
theorem Effect.outcomes_out (heffect : Effect cfg s a t) (hstep : AttemptsStep cfg s a t) (hw : Workers s)
    (hm : Messages s) (hids : AttemptIds s) (h : Outcomes s) {event : TaskCompletionEvent} (hout : Out t event)
    {r : TaskAttemptRecord} (hr : r ∈ t.db.taskAttempts) (hid : r.attemptId = event.attemptId) :
    event.Matches r ∨ event.Stale r := by
  rcases heffect.out hout with
    hout | ⟨k, outcome, f, -, -, -, ⟨r₁, hr₁, hid₁, hclaimed⟩, hdb⟩ | ⟨hdb, f, hf, phase, result⟩
  · rcases hstep.mem hr with ⟨r₀, hr₀, hchange⟩ | hnew
    · exact h.change hw hout hr₀ (hchange.id.symm.trans hid) hchange
    · obtain ⟨r₀, hr₀, hid₀⟩ := hout.attempt hw hm
      exact absurd (hid₀.trans hid.symm) (hids.not_new hnew hr₀)
  · -- the attempt was claimed, so its row now holds this result
    rw [hdb] at hr
    obtain ⟨r₀, hr₀, rfl⟩ := List.mem_map.1 hr
    by_cases hp : r₀.attemptId = event.attemptId ∧ r₀.status = .claimed
    · simp only [hp, and_self, decide_true, if_true]
      exact .inl resultOf_matches
    · simp only [hp, decide_false, Bool.false_eq_true, if_false] at hid
      obtain rfl := hids.keyed.ext hr₀ hr₁ (hid.trans hid₁.symm)
      exact absurd ⟨hid, hclaimed⟩ hp
  · rw [hdb] at hr
    exact h.replayed hids hf phase result hr hid

theorem Effect.outcomes (heffect : Effect cfg s a t) (hstep : AttemptsStep cfg s a t) (hw : Workers s)
    (hm : Messages s) (hids : AttemptIds s) (h : Outcomes s) : Outcomes t where
  out event hout r hr hid := heffect.outcomes_out hstep hw hm hids h hout hr hid
  untouched r hr := by
    rcases hstep.mem hr with ⟨r₀, hr₀, hchange⟩ | hnew
    · exact hchange.untouched (h.untouched r₀ hr₀)
    · exact fun _ => hnew.untouched.2
  closed r hr hclosed := by
    rcases hstep.mem hr with ⟨r₀, hr₀, hchange⟩ | hnew
    · exact hchange.closed (h.untouched r₀ hr₀) (h.closed r₀ hr₀) hclosed
    · cases hnew with
      | first => rcases hclosed with hs | ⟨hs, -⟩ <;> cases hs
      | retry => rcases hclosed with hs | ⟨hs, -⟩ <;> cases hs
  replaying f hf phase r hr hid := by
    rcases heffect.replaying hf phase with hf | ⟨hdb, r₁, hr₁, hrecorded⟩
    · rcases hstep.mem hr with ⟨r₀, hr₀, hchange⟩ | hnew
      · exact hchange.replaying (h.replaying f hf phase r₀ hr₀ (hchange.id.symm.trans hid))
      · obtain ⟨r₀, hr₀, hslot⟩ := List.mem_map.1
          (hm.entries f.task (List.mem_of_getElem? (hw.carries f hf).entry)).1
        exact absurd ((congrArg Prod.fst hslot).trans hid.symm) (hids.not_new hnew hr₀)
    · rw [hdb] at hr
      obtain rfl := hids.keyed.ext hr (attempt_some hr₁).1 (hid.trans (attempt_some hr₁).2.symm)
      exact .inl (.inl hrecorded)

theorem reachable_outcomes (h : Reachable cfg anyStep s) : Outcomes s :=
  Transition.Reachable.invariant outcomes_init (fun _ _ _ hr hout _ ht =>
    (step_effect ht).outcomes (reachable_attemptsStep hr (step_effect ht)) (reachable_workers hr)
      (reachable_messages hr) (reachable_attemptIds hr) hout) h

end System

end WorkflowEngine
