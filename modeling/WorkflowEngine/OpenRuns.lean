import WorkflowEngine.Acknowledgement
import WorkflowEngine.Backoff
import WorkflowEngine.MalformedTasks
import WorkflowEngine.RoundTrip
import WorkflowEngine.Totality

/-!
# Runs with malformed messages

Anybody may write to the task stream. A worker that reads what it cannot decode reports it, and
the orchestrators process such a report like any other completion, beside everything else that
goes on. The invariants of the system do not depend on who has published a completion.
-/
namespace WorkflowEngine

open Database

structure OpenSystem where
  system : System
  deadLetters : List (Dict String)
  deriving DecidableEq, Repr

namespace OpenSystem

def init : OpenSystem := ⟨.init, []⟩

/-- A worker handles a message that was rejected with `failure`. -/
def reportMalformed (intake : Intake) (s : OpenSystem) (stream messageId : String) (fields : Dict String)
    (failure : PyError) : OpenSystem :=
  match malformedEvent intake fields failure (.v4 s.system.draws) with
  | .error identityError =>
    { s with deadLetters := s.deadLetters ++ [deadLetter intake stream messageId fields failure identityError] }
  | .ok event =>
    { s with system := { s.system with
      completions := s.system.completions.xadd event
      draws := s.system.draws + 1 } }

inductive Action where
  | own (a : System.Action)
  | malformed (stream messageId : String) (fields : Dict String)
  deriving DecidableEq, Repr

def step (cfg : Config) (intake : Intake) (s : OpenSystem) : Action → Option OpenSystem
  | .own a => (System.step cfg s.system a).map fun t => { s with system := t }
  | .malformed stream messageId fields =>
    match NodeTaskMessage.fromStreamFields intake.validator fields with
    | .ok _ => none
    | .error failure => some (s.reportMalformed intake stream messageId fields failure)

/-- The states of all runs that continue `s`. -/
abbrev Later (cfg : Config) (intake : Intake) (s t : OpenSystem) : Prop :=
  Transition.Reachable (step cfg intake) (fun _ _ => True) s t

abbrev Reachable (cfg : Config) (intake : Intake) (s : OpenSystem) : Prop := Later cfg intake init s

end OpenSystem

namespace System

variable {cfg : Config} {s t : System} {a : Action} {event : TaskCompletionEvent}

/-- The system with a report that was published from outside. -/
def withReport (s : System) (event : TaskCompletionEvent) : System :=
  { s with
    completions := s.completions.xadd event
    draws := s.draws + 1 }

/-- What holds of the system whoever publishes completions. -/
structure Upheld (cfg : Config) (s : System) : Prop where
  consistent : Consistent s
  dispatches : Dispatches s
  attemptIds : AttemptIds s
  sequences : Sequences cfg s
  identifiers : Identifiers s

theorem upheld_init : Upheld cfg init :=
  have h : Reachable cfg anyStep init := .start
  ⟨reachable_consistent h, reachable_dispatches h, reachable_attemptIds h, reachable_sequences h,
    reachable_identifiers h⟩

theorem Upheld.attemptsStep (h : Upheld cfg s) (hstep : step cfg s a = some t) : AttemptsStep cfg s a t :=
  (step_effect hstep).attemptsStep h.consistent h.dispatches h.attemptIds.keyed

theorem Upheld.step (h : Upheld cfg s) (hstep : step cfg s a = some t) : Upheld cfg t := by
  have heffect := step_effect hstep
  have hkind := step_kind h.consistent.sound hstep
  have hattempts := h.attemptsStep hstep
  have hdispatches := hkind.dispatches h.consistent h.dispatches
  refine ⟨hkind.consistent h.consistent, hdispatches, hattempts.ids heffect.draws h.attemptIds, ⟨?_, ?_, ?_, ?_⟩, ?_⟩
  · exact hkind.numbered h.consistent h.dispatches h.sequences.numbered
  · exact hattempts.failed h.sequences.failed
  · exact hkind.open h.consistent h.dispatches h.attemptIds.keyed h.sequences.running
  · exact (heffect.retriesStep h.consistent h.dispatches).drawn heffect.draws h.sequences.retries
  · exact heffect.identifiers hattempts (hkind.advances h.consistent) h.consistent h.dispatches
      hdispatches h.identifiers

theorem quiet_withReport (s : System) (event : TaskCompletionEvent) : Quiet s (s.withReport event) :=
  .of_db_eq rfl rfl rfl ⟨[], by simp [withReport], by simp⟩ (Nat.le_succ _)

theorem Holds.of_withReport {eventId attemptId : Uuid} (h : Holds (s.withReport event) eventId attemptId) :
    Holds s eventId attemptId := by
  cases h with
  | flight mem phase => exact .flight mem phase
  | row mem id => exact .row mem id

/-- An event of a report is known by the report alone. -/
theorem knows_withReport {eventId attemptId : Uuid} (h : Knows (s.withReport event) eventId attemptId) :
    Knows s eventId attemptId ∨ (eventId = event.eventId ∧ attemptId = event.attemptId) := by
  cases h with
  | held mem phase => exact .inl (.held mem phase)
  | stored mem id => exact .inl (.stored mem id)
  | published mem =>
    rcases List.mem_append.1 mem with mem | mem
    · exact .inl (.published mem)
    · rw [List.mem_singleton.1 mem]
      exact .inr ⟨rfl, rfl⟩

theorem Identifiers.not_drawn (h : Identifiers s) {eventId attemptId : Uuid} (hknows : Knows s eventId attemptId) :
    eventId ≠ .v4 s.draws := by
  rintro rfl
  obtain ⟨d, hlt, he⟩ := h.drawn _ _ hknows
  cases he
  exact lt_irrefl _ hlt

theorem Named.withReport {row : OutboxEventRecord} (h : Named s row) (hid : event.eventId = .v4 s.draws) :
    Named (s.withReport event) row := by
  cases h with
  | trigger type id drawn unknown =>
    refine .trigger type id (drawn.trans (Nat.lt_succ_self _)) fun attemptId hknows => ?_
    rcases knows_withReport hknows with hold | ⟨hnew, -⟩
    · exact unknown attemptId hold
    · have hdraw := id.symm.trans (hnew.trans hid)
      cases hdraw
      exact lt_irrefl _ drawn
  | task type id claimed => exact .task type id claimed
  | event type mem id ended => exact .event type (List.mem_append_left _ mem) id ended

theorem Upheld.withReport (h : Upheld cfg s) (hid : event.eventId = .v4 s.draws) :
    Upheld cfg (s.withReport event) := by
  have hquiet := quiet_withReport s event
  have hnew : ∀ {eventId attemptId}, Knows s eventId attemptId → eventId ≠ event.eventId := fun hknows he =>
    h.identifiers.not_drawn hknows (he.trans hid)
  refine ⟨hquiet.consistent h.consistent, hquiet.dispatches h.dispatches, ⟨h.attemptIds.keyed, fun r hr => ?_⟩,
    ⟨h.sequences.numbered, h.sequences.failed, h.sequences.running, fun d hd => ?_⟩,
    ⟨fun eventId attemptId hknows => ?_, fun eventId attemptId attemptId' hknows hknows' => ?_,
    fun row hrow => (h.identifiers.named row hrow).withReport hid, h.identifiers.stored⟩⟩
  · obtain ⟨d, hlt, hd⟩ := h.attemptIds.drawn r hr
    exact ⟨d, hlt.trans (Nat.lt_succ_self _), hd⟩
  · obtain ⟨n, hlt, hn⟩ := h.sequences.retries d hd
    exact ⟨n, hlt.trans (Nat.lt_succ_self _), hn⟩
  · rcases knows_withReport hknows with hold | ⟨rfl, -⟩
    · obtain ⟨d, hlt, hd⟩ := h.identifiers.drawn _ _ hold
      exact ⟨d, hlt.trans (Nat.lt_succ_self _), hd⟩
    · exact ⟨s.draws, Nat.lt_succ_self _, hid⟩
  · rcases knows_withReport hknows with hold | ⟨he, ha⟩ <;> rcases knows_withReport hknows' with hold' | ⟨he', ha'⟩
    · exact h.identifiers.unique _ _ _ hold hold'
    · exact absurd he' (hnew hold)
    · exact absurd he (hnew hold')
    · exact ha.trans ha'.symm

/-! ## A report under way -/

/-- The event of a report: nothing else has its identifier. -/
structure Reported (s : System) (event : TaskCompletionEvent) : Prop where
  failed : event.status = .failed
  drawn : ∃ d < s.draws, event.eventId = .v4 d
  entry : event ∈ s.completions.entries
  only : ∀ event' ∈ s.completions.entries, event'.eventId = event.eventId → event' = event
  apart : ∀ attemptId, ¬ Holds s event.eventId attemptId

theorem Upheld.reported (h : Upheld cfg s) (hid : event.eventId = .v4 s.draws) (hfailed : event.status = .failed) :
    Reported (s.withReport event) event := by
  refine ⟨hfailed, ⟨s.draws, Nat.lt_succ_self _, hid⟩, List.mem_append_right _ (List.mem_singleton.2 rfl),
    fun event' hmem he => ?_, fun attemptId hholds => ?_⟩
  · rcases List.mem_append.1 hmem with hmem | hmem
    · exact absurd (he.trans hid) (h.identifiers.not_drawn (.published hmem))
    · exact List.mem_singleton.1 hmem
  · exact h.identifiers.not_drawn hholds.of_withReport.knows hid

theorem Reported.step (h : Reported s event) (heffect : Effect cfg s a t) (hstep : AttemptsStep cfg s a t) :
    Reported t event := by
  obtain ⟨d, hlt, hd⟩ := h.drawn
  refine ⟨h.failed, ⟨d, hlt.trans_le heffect.draws, hd⟩, heffect.completion_mono h.entry, fun event' hmem he => ?_,
    fun attemptId hholds => ?_⟩
  · rcases heffect.completions with heq | ⟨k, f, event'', task, phase, heq, -⟩
    · exact h.only event' (heq ▸ hmem) he
    · rw [heq] at hmem
      rcases List.mem_append.1 hmem with hmem | hmem
      · exact h.only event' hmem he
      · rw [List.mem_singleton.1 hmem] at he
        exact absurd (he ▸ .flight (List.mem_of_getElem? task) (by rw [phase]; rfl)) (h.apart event''.attemptId)
  · rcases heffect.holds hstep hholds with hold | hnew | ⟨event', hmem, hcompleted, hid, -⟩
    · exact h.apart attemptId hold
    · have hdraw := hd.symm.trans hnew.id
      cases hdraw
      exact lt_irrefl _ hlt
    · rw [h.only event' hmem hid, h.failed] at hcompleted
      cases hcompleted

theorem Reported.withReport {other : TaskCompletionEvent} (h : Reported s event) (hid : other.eventId = .v4 s.draws) :
    Reported (s.withReport other) event := by
  obtain ⟨d, hlt, hd⟩ := h.drawn
  refine ⟨h.failed, ⟨d, hlt.trans (Nat.lt_succ_self _), hd⟩, List.mem_append_left _ h.entry, fun event' hmem he => ?_,
    fun attemptId hholds => h.apart attemptId hholds.of_withReport⟩
  rcases List.mem_append.1 hmem with hmem | hmem
  · exact h.only event' hmem he
  · rw [List.mem_singleton.1 hmem] at he
    have hdraw := hd.symm.trans (he.symm.trans hid)
    cases hdraw
    exact absurd hlt (lt_irrefl _)

/-- The event names an existing attempt of a running node. -/
structure Targets (db : Database) (event : TaskCompletionEvent) : Prop where
  attempt : ∃ r ∈ db.taskAttempts, r.attemptId = event.attemptId ∧ r.taskId = event.taskId
  task : ∃ r ∈ db.logicalTasks, r.taskId = event.taskId ∧ r.executionId = event.executionId ∧ r.nodeId = event.nodeId
  running : db.status event.executionId event.nodeId = .running

theorem Targets.taskId (h : Targets s.db event) (hd : Dispatches s) :
    event.taskId = createTaskId event.executionId event.nodeId := by
  obtain ⟨r, hr, htask, he, hi⟩ := h.task
  rw [← htask, ← he, ← hi]
  exact hd.ids r hr

/-- While the node of a report runs, no row of the outbox is named after the report. -/
theorem Reported.freshFor (h : Reported s event) (hu : Upheld cfg s)
    (hrunning : s.db.status event.executionId event.nodeId = .running) : FreshFor event s.db := by
  intro id hderived
  refine hu.identifiers.fresh fun row hrow hid => ?_
  obtain ⟨event', mem, heq, ended⟩ := hu.identifiers.event_row h.entry hrow (hid ▸ hderived)
  rw [h.only event' mem heq] at ended
  exact ended.not_running hrunning

/-- A report of a running node's attempt is processed if the next retry has an instant. -/
theorem Reported.processed (h : Reported s event) (hu : Upheld cfg s) (htargets : Targets s.db event)
    {message type : String} (hmessage : event.errorMessage = some message) (htype : event.errorType = some type)
    {at' : Time} (hat : retryAt cfg.policy s.now event.attemptNumber = .ok at') :
    ∃ result, process cfg.policy event (.v4 s.draws) s.now s.db = .ok result := by
  obtain ⟨d, -, hd⟩ := h.drawn
  obtain ⟨r, hr, hid, htask⟩ := htargets.attempt
  exact process_total hu.consistent.sound
    { task := htargets.taskId hu.dispatches
      drawn := ⟨d, hd⟩
      attempt := ⟨r, hu.attemptIds.getAttempt hr hid, htask⟩
      started := by simp [htargets.running]
      failed := fun _ => ⟨message, type, at', hmessage, htype, hat⟩
      numbered := hu.sequences.numbered
      unused := hu.attemptIds.unused
      retry := hu.sequences.retry_unused
      fresh := h.freshFor hu }

end System

/-- A failure is only processed with the instant of its next retry. -/
theorem process_retryAt {policy : RetryPolicy} {event : TaskCompletionEvent} {next : Uuid} {now : Time} {db : Database}
    {result : TaskCompletionDecision × Database} (hfailed : event.status = .failed)
    (h : process policy event next now db = .ok result) : ∃ at', retryAt policy now event.attemptNumber = .ok at' := by
  unfold process at h
  split at h
  · cases h
  · split at h
    · cases h
    · dsimp only at h
      split at h
      · cases h
      · obtain ⟨early, hconsult, -⟩ := Except.bind_eq_ok.1 h
        simp only [consultRetries, hfailed] at hconsult
        split at hconsult
        · obtain ⟨at', hat, -⟩ := Except.bind_eq_ok.1 hconsult
          exact ⟨at', hat⟩
        · cases hconsult

namespace OpenSystem

open WorkflowEngine.System (Upheld Reported Targets)

variable {cfg : Config} {intake : Intake} {s t u : OpenSystem} {a : Action} {stream messageId : String}
  {fields : Dict String} {failure : PyError} {event : TaskCompletionEvent}

theorem reportMalformed_event (h : malformedEvent intake fields failure (.v4 s.system.draws) = .ok event) :
    (s.reportMalformed intake stream messageId fields failure).system = s.system.withReport event := by
  simp only [reportMalformed, h, System.withReport]

/-- An open system takes a step of the system, loses an identity or gets a report. -/
theorem step_cases (h : step cfg intake s a = some t) :
    (∃ b, System.step cfg s.system b = some t.system) ∨ t.system = s.system ∨
      ∃ event, event.eventId = .v4 s.system.draws ∧ t.system = s.system.withReport event := by
  cases a with
  | own b =>
    obtain ⟨t', ht, rfl⟩ := Option.map_eq_some_iff.1 h
    exact .inl ⟨b, ht⟩
  | malformed stream messageId fields =>
    simp only [step] at h
    split at h
    · cases h
    · rename_i failure _
      cases h
      cases hevent : malformedEvent intake fields failure (.v4 s.system.draws) with
      | error identityError => exact .inr (.inl (by simp only [reportMalformed, hevent]))
      | ok event => exact .inr (.inr ⟨event, (malformedEvent_ok hevent).2.1, reportMalformed_event hevent⟩)

theorem step_upheld (h : Upheld cfg s.system) (hstep : step cfg intake s a = some t) : Upheld cfg t.system := by
  rcases step_cases hstep with ⟨b, hb⟩ | heq | ⟨event, hid, heq⟩
  · exact h.step hb
  · exact heq ▸ h
  · exact heq ▸ h.withReport hid

theorem later_upheld (h : Upheld cfg s.system) (hlater : Later cfg intake s t) : Upheld cfg t.system := by
  induction hlater with
  | start => exact h
  | next _ _ _ hstep ih => exact step_upheld ih hstep

theorem step_reported (hu : Upheld cfg s.system) (h : Reported s.system event) (hstep : step cfg intake s a = some t) :
    Reported t.system event := by
  rcases step_cases hstep with ⟨b, hb⟩ | heq | ⟨event, hid, heq⟩
  · exact h.step (System.step_effect hb) (hu.attemptsStep hb)
  · exact heq ▸ h
  · exact heq ▸ h.withReport hid

theorem later_reported (hu : Upheld cfg s.system) (h : Reported s.system event) (hlater : Later cfg intake s t) :
    Reported t.system event := by
  induction hlater with
  | start => exact h
  | next _ hs _ hstep ih => exact step_reported (later_upheld hu hs) ih hstep

theorem step_malformed (hfails : NodeTaskMessage.fromStreamFields intake.validator fields = .error failure) :
    step cfg intake s (.malformed stream messageId fields) =
      some (s.reportMalformed intake stream messageId fields failure) := by
  simp only [step, hfails]

/-- A malformed message, handled in `s`, becomes something that the orchestrators settle in `u`. -/
structure Settles (cfg : Config) (intake : Intake) (stream messageId : String) (fields : Dict String)
    (failure : PyError) (s u : OpenSystem) : Prop where
  deadLettered : (¬ ∃ event, Recovers intake.text fields event) → ∃ letter,
    processMalformed intake stream messageId fields failure (.v4 s.system.draws) =
      .ok [.publish workflowTaskDeadLetterStream letter, .ack stream workflowTasksGroup messageId]
  reported : (∃ event, Recovers intake.text fields event) → ∃ event message,
    malformedEvent intake fields failure (.v4 s.system.draws) = .ok event ∧ Recovers intake.text fields event ∧
      event.status = .failed ∧ event.toStreamFields intake.text = .ok message ∧
      processMalformed intake stream messageId fields failure (.v4 s.system.draws) =
        .ok [.publish workflowTaskCompletionsStream message, .ack stream workflowTasksGroup messageId]
  settled : ∀ event, malformedEvent intake fields failure (.v4 s.system.draws) = .ok event →
    Targets u.system.db event →
      (event.toStreamFields intake.text).bind (TaskCompletionEvent.fromStreamFields intake.text) = .ok event ∧
      ∃ decision db, process cfg.policy event (.v4 u.system.draws) u.system.now u.system.db = .ok (decision, db)

/-- In any later state the report of a running node's attempt is processed if the next retry has an instant. -/
theorem report_decided (h : Upheld cfg s.system)
    (hevent : malformedEvent intake fields failure (.v4 s.system.draws) = .ok event)
    (hlater : Later cfg intake (s.reportMalformed intake stream messageId fields failure) u)
    (htargets : Targets u.system.db event) (hschedulable : cfg.policy.Schedulable u.system.now event.attemptNumber) :
    ∃ decision db, process cfg.policy event (.v4 u.system.draws) u.system.now u.system.db = .ok (decision, db) := by
  obtain ⟨-, hid, hfailed, -, hmessage, htype⟩ := malformedEvent_ok hevent
  have hsystem : (s.reportMalformed intake stream messageId fields failure).system = s.system.withReport event :=
    reportMalformed_event hevent
  have hupheld : Upheld cfg u.system := later_upheld (hsystem ▸ h.withReport hid) hlater
  have hreported : Reported u.system event :=
    later_reported (hsystem ▸ h.withReport hid) (hsystem ▸ h.reported hid hfailed) hlater
  obtain ⟨at', hat⟩ := RetryPolicy.retryAt_ok_iff.2 hschedulable
  obtain ⟨⟨decision, db⟩, hprocess⟩ := hreported.processed hupheld htargets hmessage htype hat
  exact ⟨decision, db, hprocess⟩

/-- A report comes back from its stream fields if its task is that of its execution and node. -/
theorem report_decoded (hfails : NodeTaskMessage.fromStreamFields intake.validator fields = .error failure)
    (hevent : malformedEvent intake fields failure (.v4 s.system.draws) = .ok event)
    (htask : event.taskId = createTaskId event.executionId event.nodeId) (hlossless : event.Lossless intake.text) :
    (event.toStreamFields intake.text).bind (TaskCompletionEvent.fromStreamFields intake.text) = .ok event := by
  have hbuilt := malformedEvent_built hevent
  obtain ⟨event', hdecoded, hsame⟩ := (TaskCompletionEvent.fromStreamFields_toStreamFields hbuilt htask hlossless).2
    (malformedEvent_readable hfails hevent)
  obtain ⟨-, -, hfailed, -⟩ := malformedEvent_ok hevent
  have hnull : event.outputData = .null := by
    cases hbuilt with
    | completed status => cases status.symm.trans hfailed
    | failed _ output => exact output
  exact hsame.eq_of_null hnull ▸ hdecoded

/-- Any message that `from_stream_fields` rejects, in any run, is settled exactly if the attempt
number it names has an instant for the next retry, where it names an attempt of a running node. -/
theorem malformed_settled_iff (hs : Reachable cfg intake s)
    (hfails : NodeTaskMessage.fromStreamFields intake.validator fields = .error failure)
    (hlater : Later cfg intake (s.reportMalformed intake stream messageId fields failure) u)
    (hlossless : ∀ event, malformedEvent intake fields failure (.v4 s.system.draws) = .ok event →
      event.Lossless intake.text) :
    Settles cfg intake stream messageId fields failure s u ↔
      ∀ event, malformedEvent intake fields failure (.v4 s.system.draws) = .ok event → Targets u.system.db event →
        cfg.policy.Schedulable u.system.now event.attemptNumber := by
  have hus : Upheld cfg s.system := later_upheld System.upheld_init hs
  constructor
  · intro h event hevent htargets
    obtain ⟨-, decision, db, hprocess⟩ := h.settled event hevent htargets
    exact RetryPolicy.retryAt_ok_iff.1 (process_retryAt (malformedEvent_ok hevent).2.2.1 hprocess)
  · intro h
    refine ⟨fun hlost => ?_, fun ⟨event, hrecovers⟩ => ?_, fun event hevent htargets => ?_⟩
    · cases hevent : malformedEvent intake fields failure (.v4 s.system.draws) with
      | ok event => exact absurd ⟨event, (malformedEvent_ok hevent).1⟩ hlost
      | error identityError => exact ⟨_, processMalformed_lost hevent⟩
    · obtain ⟨event, hevent⟩ := malformedEvent_of_recovers hrecovers
      obtain ⟨hrecovers, -, hfailed, -⟩ := malformedEvent_ok hevent
      obtain ⟨message, hsent, hprocess⟩ := processMalformed_reported hevent
      exact ⟨event, message, hevent, hrecovers, hfailed, hsent, hprocess⟩
    · have hupheld : Upheld cfg u.system :=
        later_upheld hus ((Transition.Reachable.next _ .start trivial (step_malformed hfails)).trans hlater)
      exact ⟨report_decoded hfails hevent (htargets.taskId hupheld.dispatches) (hlossless event hevent),
        report_decided hus hevent hlater htargets (h event hevent htargets)⟩

/-- The runs of the system are among those of the open one. -/
theorem later_own {s' : System} (h : Transition.Reachable (System.step cfg) System.anyStep s.system s') :
    Later cfg intake s { s with system := s' } := by
  induction h with
  | start => exact .start
  | next a _ _ hstep ih => exact .next (.own a) ih trivial (by simp [step, hstep])

/-- The text conversions on the values of these messages. -/
def malformedText : Text :=
  { System.wireText with
    int := fun value => if value = "0" then some 0 else System.wireText.int value
    loads := fun value => if value = "\x7b\x7d" then some (.obj []) else System.wireText.loads value }

def sampleIntake : Intake where
  text := malformedText
  validator := malformedText
  errorText
    | .valueError message => message
    | _ => ""
  errorType _ := "ValueError"
  errorText_not_blank := fun _ h => h
  errorType_not_blank := fun _ => by decide

/-- A task of `fetch` that runs. -/
def fetchFields (attemptNumber handlerConfig : String) : Dict String :=
  [("task_id", malformedText.str (createTaskId (.v4 1) "fetch")), ("attempt_id", malformedText.str (.v4 3)),
    ("attempt_number", attemptNumber), ("execution_id", malformedText.str (.v4 1)), ("node_id", "fetch"),
    ("handler", "input"), ("handler_config", handlerConfig), ("resolved_input", "\x7b\x7d")]

/-- The report of a message that was rejected with `failure`. -/
def fetchReport (attemptNumber : Int) (failure : PyError) : TaskCompletionEvent :=
  ⟨.v4 4, createTaskId (.v4 1) "fetch", .v4 3, attemptNumber, .v4 1, "fetch", .failed, .null,
    some (sampleIntake.errorText failure), some "ValueError"⟩

def fetchRuns : OpenSystem := ⟨System.reached System.sampleConfig System.started, []⟩

theorem fetchRuns_reachable : Reachable System.sampleConfig sampleIntake fetchRuns :=
  later_own (s := init) (System.reachable_reached _ _)

theorem fetchRuns_draws : fetchRuns.system.draws = 4 := by decide +kernel

theorem fetchReport_targets (attemptNumber : Int) (failure : PyError) :
    Targets fetchRuns.system.db (fetchReport attemptNumber failure) where
  attempt := by
    change ∃ r ∈ fetchRuns.system.db.taskAttempts, r.attemptId = .v4 3 ∧ r.taskId = createTaskId (.v4 1) "fetch"
    decide +kernel
  task := by
    change ∃ r ∈ fetchRuns.system.db.logicalTasks,
      r.taskId = createTaskId (.v4 1) "fetch" ∧ r.executionId = .v4 1 ∧ r.nodeId = "fetch"
    decide +kernel
  running := by
    change fetchRuns.system.db.status (.v4 1) "fetch" = .running
    decide +kernel

def notAnObject : PyError := .valueError "Task message field 'handler_config' must contain a JSON object."

theorem fetchReport_lossless {attemptNumber : Int} (failure : PyError) (h : attemptNumber = 0 ∨ attemptNumber = 1) :
    (fetchReport attemptNumber failure).Lossless sampleIntake.text :=
  have hraised := System.raisedWith_lossless (sampleIntake.errorText failure)
  { uuid := hraised.uuid
    str := hraised.str
    int := by
      change malformedText.int (toString attemptNumber) = some attemptNumber
      rcases h with rfl | rfl <;> decide +kernel
    number := by
      change blank (toString attemptNumber) = false
      rcases h with rfl | rfl <;> decide +kernel
    loads := by
      change ∃ v, malformedText.loads (malformedText.dumps .null) = some v ∧ Json.Same v .null
      exact ⟨.null, by decide +kernel, rfl⟩
    dumps := hraised.dumps }

/-- A task whose configuration is no object has failed, and the report of it is settled. -/
theorem malformed_settled_iff_fetch :
    let s := fetchRuns.reportMalformed sampleIntake workflowTasksStream "1-0" (fetchFields "1" "null") notAnObject
    malformedEvent sampleIntake (fetchFields "1" "null") notAnObject (.v4 fetchRuns.system.draws) =
        .ok (fetchReport 1 notAnObject) ∧ Targets s.system.db (fetchReport 1 notAnObject) ∧
      Settles System.sampleConfig sampleIntake workflowTasksStream "1-0" (fetchFields "1" "null") notAnObject
        fetchRuns s := by
  intro s
  have hevent : malformedEvent sampleIntake (fetchFields "1" "null") notAnObject (.v4 fetchRuns.system.draws) =
      .ok (fetchReport 1 notAnObject) := by
    rw [fetchRuns_draws]
    decide +kernel
  have hsystem : s.system = fetchRuns.system.withReport (fetchReport 1 notAnObject) := reportMalformed_event hevent
  refine ⟨hevent, hsystem ▸ fetchReport_targets 1 notAnObject,
    (malformed_settled_iff fetchRuns_reachable (by decide +kernel) .start
    fun event h => ?_).2 fun event h _ => ?_⟩
  · cases hevent.symm.trans h
    exact fetchReport_lossless notAnObject (.inr rfl)
  · cases hevent.symm.trans h
    exact RetryPolicy.retryAt_ok_iff.1 ⟨fetchRuns.system.now + 1000000, by decide +kernel⟩

def lessThanOne : PyError := .valueError "Input should be greater than or equal to 1"

/-- A task numbered zero is no task message, and no decision is made on the report of it. -/
theorem malformed_settled_counterexample :
    let s := fetchRuns.reportMalformed sampleIntake workflowTasksStream "1-0" (fetchFields "0" "\x7b\x7d") lessThanOne
    let event := fetchReport 0 lessThanOne
    Reachable System.sampleConfig sampleIntake fetchRuns ∧
      NodeTaskMessage.fromStreamFields sampleIntake.validator (fetchFields "0" "\x7b\x7d") = .error lessThanOne ∧
      malformedEvent sampleIntake (fetchFields "0" "\x7b\x7d") lessThanOne (.v4 fetchRuns.system.draws) = .ok event ∧
      event.Lossless sampleIntake.text ∧ Targets s.system.db event ∧
      (event.toStreamFields sampleIntake.text).bind (TaskCompletionEvent.fromStreamFields sampleIntake.text) =
        .ok event ∧
      process System.sampleConfig.policy event (.v4 s.system.draws) s.system.now s.system.db =
        .error (.valueError "attempt_number must be at least one.") ∧
      ¬ Settles System.sampleConfig sampleIntake workflowTasksStream "1-0" (fetchFields "0" "\x7b\x7d") lessThanOne
        fetchRuns s := by
  intro s event
  have hevent : malformedEvent sampleIntake (fetchFields "0" "\x7b\x7d") lessThanOne (.v4 fetchRuns.system.draws) =
      .ok (fetchReport 0 lessThanOne) := by
    rw [fetchRuns_draws]
    decide +kernel
  have hsystem : s.system = fetchRuns.system.withReport (fetchReport 0 lessThanOne) := reportMalformed_event hevent
  have htargets : Targets s.system.db event := hsystem ▸ fetchReport_targets 0 lessThanOne
  have hraises : process System.sampleConfig.policy event (.v4 s.system.draws) s.system.now s.system.db =
      .error (.valueError "attempt_number must be at least one.") := by
    rw [hsystem]
    decide +kernel
  refine ⟨fetchRuns_reachable, by decide +kernel, hevent, fetchReport_lossless lessThanOne (.inl rfl), htargets,
    by decide +kernel, hraises, fun h => ?_⟩
  obtain ⟨-, decision, db, hprocess⟩ := h.settled event hevent htargets
  cases hraises.symm.trans hprocess

end OpenSystem

end WorkflowEngine
