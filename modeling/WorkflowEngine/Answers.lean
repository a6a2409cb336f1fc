import WorkflowEngine.Duplicates
import WorkflowEngine.RetryChains

/-!
# What handlers answer

The handlers of one execution answer a function of the node, the number of the attempt and the
resolved input. An attempt may be executed more than once and its result may be replayed from
its row: whatever is recorded or published for the attempt is what the function says.
-/
namespace WorkflowEngine

open Database

/-- What the handler of a node does on an attempt, given its resolved input. -/
abbrev Handler := String → Nat → Dict Json → System.HandlerOutcome

def NodeTaskMessage.answer (handler : Handler) (m : NodeTaskMessage) : System.HandlerOutcome :=
  handler m.nodeId m.attemptNumber m.resolvedInput

/-- The event reports the answer. -/
def TaskCompletionEvent.Answers (event : TaskCompletionEvent) : System.HandlerOutcome → Prop
  | .success output => event.status = .completed ∧ event.outputData = output
  | .failure _ _ => event.status = .failed

/-- The row keeps the answer, in the form in which it is replayed. -/
def TaskAttemptRecord.Answers (r : TaskAttemptRecord) : System.HandlerOutcome → Prop
  | .success output => r.errorMessage = none ∧ r.errorType = none ∧ r.resultData = output
  | .failure _ _ => r.errorMessage.isSome

namespace System

variable {cfg : Config} {s t : System} {a : Action} {e : Uuid} {m m' : NodeTaskMessage}
  {event : TaskCompletionEvent} {handler : Handler}

/-- A handler of the execution that ends here ends as the function says. -/
def answers (e : Uuid) (handler : Handler) (s : System) : Action → Bool
  | .work k outcome => (s.inFlight[k]?).all fun f =>
      decide (f.phase = .executing false → f.task.executionId = e → outcome = f.task.answer handler)
  | _ => true

/-- Two messages of one attempt are the same. -/
theorem issued_unique (handler : Handler) (h : Reachable cfg anyStep s) (hm : s.db.Issued m) (hm' : s.db.Issued m')
    (hid : m.attemptId = m'.attemptId) : m.executionId = m'.executionId ∧ m.answer handler = m'.answer handler := by
  have hd := reachable_dispatches h
  obtain ⟨r, hr, htask, hnumber⟩ := (reachable_attemptIds h).issued hm
  obtain ⟨r', hr', htask', hnumber'⟩ := (reachable_attemptIds h).issued hm'
  rw [← hid, hr] at hr'
  cases hr'
  have htasks : m.taskId = m'.taskId := htask.symm.trans htask'
  obtain ⟨task, hmem, heq⟩ := List.mem_map.1 hm.2
  obtain ⟨task', hmem', heq'⟩ := List.mem_map.1 hm'.2
  simp only [LogicalTaskRecord.identity, Prod.mk.injEq] at heq heq'
  obtain ⟨hid₁, he, hi, -, -, hin⟩ := heq
  obtain ⟨hid₂, he', hi', -, -, hin'⟩ := heq'
  have hnode := createTaskId_injective ((hd.ids task hmem).symm.trans
    ((hid₁.trans (htasks.trans hid₂.symm)).trans (hd.ids task' hmem')))
  have hsame : task = task' := by
    have h₁ : task ∈ s.db.tasksOf task.executionId task.nodeId := List.mem_filter.2 ⟨hmem, by simp⟩
    have h₂ : task' ∈ s.db.tasksOf task.executionId task.nodeId :=
      List.mem_filter.2 ⟨hmem', by simp [hnode.1, hnode.2]⟩
    rcases hd.node task.executionId task.nodeId with ⟨-, ⟨_, -, -, -, hone, -⟩, -⟩ | ⟨-, ⟨hno, -⟩, -⟩
    · rw [hone] at h₁ h₂
      exact (List.mem_singleton.1 h₁).trans (List.mem_singleton.1 h₂).symm
    · rw [hno] at h₁
      cases h₁
  subst hsame
  refine ⟨he.symm.trans he', ?_⟩
  rw [NodeTaskMessage.answer, NodeTaskMessage.answer, ← hi, ← hi', ← hin, ← hin', ← hnumber, ← hnumber']

/-- Every attempt has its message, before and after a step. -/
theorem issued_before (handler : Handler) (h : Reachable cfg anyStep s) (ht : step cfg s a = some t)
    {r : TaskAttemptRecord} (hr : r ∈ s.db.taskAttempts) (hm : t.db.Issued m) (hid : m.attemptId = r.attemptId) :
    ∃ m₀, s.db.Issued m₀ ∧ m₀.attemptId = r.attemptId ∧ m₀.executionId = m.executionId ∧
      m₀.answer handler = m.answer handler := by
  obtain ⟨task, htask, htaskId⟩ := (reachable_retries h).task r hr
  have hissued : s.db.Issued ⟨r.taskId, r.attemptId, r.attemptNumber, task.executionId, task.nodeId, task.handler,
      task.handlerConfig, task.resolvedInput⟩ :=
    ⟨List.mem_map.2 ⟨r, hr, rfl⟩, List.mem_map.2 ⟨task, htask, by simp [LogicalTaskRecord.identity, htaskId]⟩⟩
  have htr : Reachable cfg anyStep t := .next a h trivial ht
  obtain ⟨hexecution, hanswer⟩ := issued_unique handler htr ((reachable_grows h ht).issued hissued) hm hid.symm
  exact ⟨_, hissued, rfl, hexecution, hanswer⟩

/-- Whatever is known of an attempt of the execution is what the function says. -/
structure Answered (e : Uuid) (handler : Handler) (s : System) : Prop where
  flights : ∀ f ∈ s.inFlight, f.task.executionId = e → ∀ event, f.phase.event = some event →
    event.Answers (f.task.answer handler)
  rows : ∀ r ∈ s.db.taskAttempts, r.completionEventId.isSome → ∀ m, s.db.Issued m → m.attemptId = r.attemptId →
    m.executionId = e → r.Answers (m.answer handler)
  entries : ∀ event ∈ s.completions.entries, ∀ m, s.db.Issued m → m.attemptId = event.attemptId →
    m.executionId = e → event.Answers (m.answer handler)

theorem answered_init : Answered e handler init := by
  refine ⟨?_, ?_, ?_⟩ <;> simp [init, GroupStream.empty, Database.empty]

theorem completionEvent_answers {eventId : Uuid} {outcome : HandlerOutcome} :
    (completionEvent m eventId outcome).Answers outcome := by
  cases outcome with
  | success output => exact ⟨rfl, rfl⟩
  | failure message type => rfl

theorem resultOf_answers {r : TaskAttemptRecord} {outcome : HandlerOutcome} (hbuilt : event.Built)
    (h : event.Answers outcome) : (resultOf event r).Answers outcome := by
  cases outcome with
  | success output =>
    cases hbuilt with
    | completed _ message type => exact ⟨message, type, h.2⟩
    | failed status => rw [h.1] at status; cases status
  | failure message type =>
    cases hbuilt with
    | completed status => rw [show event.status = .failed from h] at status; cases status
    | failed _ _ message_eq => exact Option.isSome_iff_exists.2 ⟨_, message_eq⟩

/-- A message in flight was issued. -/
theorem flight_issued (h : Reachable cfg anyStep s) {f : InFlight} (hf : f ∈ s.inFlight) : s.db.Issued f.task :=
  (reachable_messages h).entries _ (List.mem_of_getElem? ((reachable_workers h).carries f hf).entry)

/-- A replayed result is the one in the row. -/
theorem Answered.replayed (h : Answered e handler s) (hr : Reachable cfg anyStep s) {f : InFlight}
    (hf : f ∈ s.inFlight) (he : f.task.executionId = e)
    (result : (s.db.getResult f.task.attemptId).bind (eventFromResult f.task) = .ok event) :
    event.Answers (f.task.answer handler) := by
  obtain ⟨r, eventId, outcome, hattempt, hid, rfl, hrow⟩ := replayed_ok result
  obtain ⟨hmem, hattemptId⟩ := attempt_some hattempt
  have hanswers := h.rows r hmem (Option.isSome_iff_exists.2 ⟨_, hid⟩) f.task (flight_issued hr hf) hattemptId.symm he
  cases hanswer : f.task.answer handler with
  | success output =>
    rw [hanswer] at hanswers
    rcases hrow with ⟨-, -, rfl⟩ | ⟨message, type, hmessage, -⟩
    · exact ⟨rfl, hanswers.2.2⟩
    · rw [hanswers.1] at hmessage
      cases hmessage
  | failure message type =>
    rw [hanswer] at hanswers
    rcases hrow with ⟨hmessage, -⟩ | ⟨message', type', -, -, rfl⟩
    · simp [TaskAttemptRecord.Answers, hmessage] at hanswers
    · rfl

theorem Answered.step_flights (h : Answered e handler s) (hr : Reachable cfg anyStep s) (heffect : Effect cfg s a t)
    (hanswers : answers e handler s a = true) {f : InFlight} (hf : f ∈ t.inFlight) (he : f.task.executionId = e)
    (hevent : f.phase.event = some event) : event.Answers (f.task.answer handler) := by
  have hset : ∀ {k : Nat} {g : InFlight} {phase : TaskPhase}, t.inFlight = s.inFlight.set k { g with phase := phase } →
      (g.task.executionId = e → phase.event = some event → event.Answers (g.task.answer handler)) →
      event.Answers (f.task.answer handler) := by
    intro k g phase heq hg
    rw [heq] at hf
    rcases mem_set_cases hf with hf | rfl
    · exact h.flights f hf he event hevent
    · exact hg he hevent
  have hkeep : ∀ {k : Nat} {g : InFlight} {event' : TaskCompletionEvent} {phase : TaskPhase}, s.inFlight[k]? = some g →
      g.phase.event = some event' → phase.event = some event' →
        t.inFlight = s.inFlight.set k { g with phase := phase } →
      event.Answers (f.task.answer handler) := by
    intro k g event' phase hk hold hnew heq
    refine hset heq fun hge hevent => ?_
    rw [hnew] at hevent
    cases hevent
    exact h.flights g (List.mem_of_getElem? hk) hge _ hold
  cases heffect with
  | @finish k outcome g task phase =>
    refine hset rfl fun hge hevent => ?_
    cases hevent
    have hout : outcome = g.task.answer handler := by
      rw [answers, task, Option.all_some] at hanswers
      exact of_decide_eq_true hanswers phase hge
    rw [← hout]
    exact completionEvent_answers
  | replayed task phase result =>
    refine hset rfl fun hge hevent => ?_
    cases hevent
    exact h.replayed hr (List.mem_of_getElem? task) hge result
  | record task phase => exact hkeep task (by rw [phase]; rfl) rfl rfl
  | publish task phase => exact hkeep task (by rw [phase]; rfl) rfl rfl
  | claim | replay | alreadyCompleted | busy | invoke | mark | renew => exact hset rfl fun _ hevent => by cases hevent
  | deliverTask | reclaimTask =>
    rcases List.mem_append.1 hf with hf | hf
    · exact h.flights f hf he event hevent
    · rw [List.mem_singleton.1 hf] at hevent
      cases hevent
  | claimRaised | leaseLost | recordRaised | replayRaised | markRaised | dropTask | acknowledgeTask =>
    exact h.flights f (List.mem_of_mem_eraseIdx hf) he event hevent
  | _ => exact h.flights f hf he event hevent

theorem Answered.step_rows (h : Answered e handler s) (hr : Reachable cfg anyStep s) (ht : step cfg s a = some t)
    {r : TaskAttemptRecord} (hrow : r ∈ t.db.taskAttempts) (hsome : r.completionEventId.isSome) (hm : t.db.Issued m)
    (hid : m.attemptId = r.attemptId) (he : m.executionId = e) : r.Answers (m.answer handler) := by
  rcases (reachable_attemptsStep hr (step_effect ht)).mem hrow with ⟨r₀, hr₀, hchange⟩ | hnew
  · obtain ⟨m₀, hm₀, hid₀, he₀, hanswer⟩ := issued_before handler hr ht hr₀ hm (hid.trans hchange.id)
    rw [← hanswer]
    have hold : ∀ {r' : TaskAttemptRecord}, r'.completionEventId = r₀.completionEventId → r'.completionEventId.isSome →
        r₀.Answers (m₀.answer handler) :=
      fun heq hsome => h.rows r₀ hr₀ (heq ▸ hsome) m₀ hm₀ hid₀ (he₀.trans he)
    cases hchange with
    | same | queued | claimed | renewed | marked => exact hold rfl hsome
    | succeeded _ entry status id _ unknown =>
      exact absurd ((reachable_outcomes hr).success (List.mem_of_getElem? entry) status hr₀ id).id unknown
    | failed _ entry status _ _ id =>
      have hevent := h.entries _ (List.mem_of_getElem? entry) m₀ hm₀ (hid₀.trans id) (he₀.trans he)
      cases hout : m₀.answer handler with
      | success output =>
        rw [hout] at hevent
        rw [hevent.1] at status
        cases status
      | failure message type => rfl
    | recorded task phase id =>
      have hmem := List.mem_of_getElem? task
      have hcarries := ((reachable_workers hr).carries _ hmem).event _ (by rw [phase]; rfl)
      obtain ⟨hexecution, hsame⟩ := issued_unique handler hr (flight_issued hr hmem) hm₀
        (hcarries.1.attemptId.symm.trans (id.symm.trans hid₀.symm))
      rw [← hsame]
      exact resultOf_answers hcarries.2
        (h.flights _ hmem (hexecution.trans (he₀.trans he)) _ (by rw [phase]; rfl))
  · cases hnew <;> cases hsome

theorem Answered.step_entries (h : Answered e handler s) (hr : Reachable cfg anyStep s) (ht : step cfg s a = some t)
    (hmem : event ∈ t.completions.entries) (hm : t.db.Issued m) (hid : m.attemptId = event.attemptId)
    (he : m.executionId = e) : event.Answers (m.answer handler) := by
  have hbefore : ∀ {r : TaskAttemptRecord}, r ∈ s.db.taskAttempts → r.attemptId = event.attemptId →
      ∃ m₀, s.db.Issued m₀ ∧ m₀.attemptId = event.attemptId ∧ m₀.executionId = e ∧
        m₀.answer handler = m.answer handler := by
    intro r hrow hrid
    obtain ⟨m₀, hm₀, hid₀, he₀, hanswer⟩ := issued_before handler hr ht hrow hm (hid.trans hrid.symm)
    exact ⟨m₀, hm₀, hid₀.trans hrid, he₀.trans he, hanswer⟩
  have hold : event ∈ s.completions.entries → event.Answers (m.answer handler) := by
    intro hmem
    obtain ⟨r, hnames⟩ := published_names hr hmem
    obtain ⟨hrow, hrid⟩ := attempt_some hnames.attempt
    obtain ⟨m₀, hm₀, hid₀, he₀, hanswer⟩ := hbefore hrow hrid
    exact hanswer ▸ h.entries event hmem m₀ hm₀ hid₀ he₀
  rcases (step_effect ht).completions with heq | ⟨k, f, event', hk, hphase, heq, -⟩
  · exact hold (heq ▸ hmem)
  · rw [heq] at hmem
    rcases List.mem_append.1 hmem with hmem | hmem
    · exact hold hmem
    · obtain rfl := List.mem_singleton.1 hmem
      have hf := List.mem_of_getElem? hk
      have hissued := flight_issued hr hf
      have hreports := (((reachable_workers hr).carries f hf).event event (by rw [hphase]; rfl)).1
      obtain ⟨r, hattempt, -⟩ := (reachable_attemptIds hr).issued hissued
      obtain ⟨hrow, hrid⟩ := attempt_some hattempt
      obtain ⟨m₀, hm₀, hid₀, he₀, hanswer⟩ := hbefore hrow (hrid.trans hreports.attemptId.symm)
      obtain ⟨hexecution, hsame⟩ := issued_unique handler hr hissued hm₀ (hreports.attemptId.symm.trans hid₀.symm)
      rw [← hanswer, ← hsame]
      exact h.flights f hf (hexecution.trans he₀) event (by rw [hphase]; rfl)

theorem reachable_answered {allowed : System → Action → Prop} (h : Reachable cfg allowed s)
    (hallowed : ∀ s a, allowed s a → answers e handler s a = true) : Answered e handler s := by
  refine Transition.Reachable.invariant answered_init (fun s a t hr hs ha ht => ?_) h
  have hr : Reachable cfg anyStep s := hr.mono fun _ _ _ => trivial
  refine ⟨?_, ?_, ?_⟩
  · exact fun f hf he event hevent => hs.step_flights hr (step_effect ht) (hallowed s a ha) hf he hevent
  · exact fun r hrow hsome m hm hid he => hs.step_rows hr ht hrow hsome hm hid he
  · exact fun event hmem m hm hid he => hs.step_entries hr ht hmem hm hid he

end System

end WorkflowEngine
