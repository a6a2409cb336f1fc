import WorkflowEngine.TaskMessages
import WorkflowEngine.WorkerRuntime

/-!
# Malformed task messages

An entry of the task stream that `from_stream_fields` rejects is reported: as a failed
completion where its identity can be read, as a dead letter otherwise. The identity is read by
other conversions than those that have rejected the message, so it may hold values that no
task message can hold.
-/
namespace WorkflowEngine

theorem blank_append_left {a b : String} (h : blank a = false) : blank (a ++ b) = false := by
  simp only [blank, String.toList_append, List.all_append, Bool.and_eq_false_iff] at h ⊢
  exact .inl h

theorem blank_append_right {a b : String} (h : blank b = false) : blank (a ++ b) = false := by
  simp only [blank, String.toList_append, List.all_append, Bool.and_eq_false_iff] at h ⊢
  exact .inr h

/-! ## How decoding fails -/

/-- Whatever this raises is a `ValueError` with a text. -/
def FailsReadably {α : Type} (x : Except PyError α) : Prop :=
  ∀ e, x = .error e → ∃ message, e = .valueError message ∧ blank message = false

namespace FailsReadably

variable {α β : Type}

theorem ok {a : α} : FailsReadably (.ok a) := by
  intro e h
  cases h

theorem error {message : String} (h : blank message = false) :
    FailsReadably (.error (.valueError message) : Except PyError α) := by
  intro e he
  cases he
  exact ⟨message, rfl, h⟩

theorem bind {x : Except PyError α} {f : α → Except PyError β} (hx : FailsReadably x) (hf : ∀ a, FailsReadably (f a)) :
    FailsReadably (x >>= f) := by
  cases x with
  | ok a => exact hf a
  | error e =>
    intro e' he
    cases he
    exact hx e rfl

theorem requiredField {fields : Dict String} {fieldName messageType : String} :
    FailsReadably (requiredField fields fieldName messageType) := by
  unfold WorkflowEngine.requiredField
  split
  · exact .error (blank_append_right (by decide))
  · split
    · exact .error (blank_append_right (by decide))
    · exact .ok

theorem jsonObjectField {text : Text} {fields : Dict String} {fieldName messageType : String} :
    FailsReadably (jsonObjectField text fields fieldName messageType) := by
  refine .bind (.bind .requiredField fun serialized => ?_) fun value => ?_
  · split
    · exact .error (blank_append_right (by decide))
    · exact .ok
  · split
    · exact .ok
    · exact .error (blank_append_right (by decide))

theorem parseUuid {text : Text} {value : String} : FailsReadably (text.parseUuid value) := by
  unfold Text.parseUuid
  split
  · exact .error (by decide)
  · exact .ok

theorem parseInt {text : Text} {value : String} : FailsReadably (text.parseInt value) := by
  unfold Text.parseInt
  split
  · exact .error (blank_append_left (blank_append_left (by decide)))
  · exact .ok

theorem parseAttemptNumber {text : Text} {value : String} :
    FailsReadably (NodeTaskMessage.parseAttemptNumber text value) := by
  refine .bind .parseInt fun n => ?_
  split
  · exact .error (by decide)
  · exact .ok

end FailsReadably

theorem NodeTaskMessage.fromStreamFields_fails {text : Text} {fields : Dict String} :
    FailsReadably (NodeTaskMessage.fromStreamFields text fields) := by
  have hmessageId : FailsReadably ((fields.get? "message_id").mapM text.parseUuid) := by
    cases fields.get? "message_id" with
    | none => exact .ok
    | some value => exact .bind .parseUuid fun _ => .ok
  refine .bind .requiredField fun taskId => .bind .requiredField fun attemptId =>
    .bind .requiredField fun attemptNumber =>
    .bind .requiredField fun executionId => .bind .requiredField fun nodeId => .bind .requiredField fun handler =>
    .bind .jsonObjectField fun handlerConfig => .bind .jsonObjectField fun resolvedInput =>
      .bind hmessageId fun messageId =>
    .bind .parseUuid fun attemptId => .bind .parseAttemptNumber fun attemptNumber =>
      .bind .parseUuid fun executionId => .ok

/-! ## The report -/

/-- What the worker reads messages and exceptions with: Python's conversions, those of the
validated model, and the two texts of an exception. -/
structure Intake where
  text : Text
  validator : Text
  errorText : PyError → String
  errorType : PyError → String
  errorText_not_blank : ∀ message, blank message = false → blank (errorText (.valueError message)) = false
  errorType_not_blank : ∀ error, blank (errorType error) = false

/-- What a worker sends to Redis, in order. -/
inductive WorkerCommand where
  | publish (stream : String) (fields : Dict String)
  | ack (stream group messageId : String)
  deriving DecidableEq, Repr

def workflowTaskCompletionsStream : String := "workflow.task-completions"

def workflowTaskDeadLetterStream : String := "workflow.task-dead-letter"

/-- The event of `process_malformed`, or the exception with which the identity is lost. -/
def malformedEvent (intake : Intake) (fields : Dict String) (failure : PyError) (eventId : Uuid) :
    Except PyError TaskCompletionEvent := do
  let taskId ← requiredField fields "task_id" NodeTaskMessage.messageType
  let attemptId ← intake.text.parseUuid (← requiredField fields "attempt_id" NodeTaskMessage.messageType)
  let attemptNumber ← intake.text.parseInt (← requiredField fields "attempt_number" NodeTaskMessage.messageType)
  let executionId ← intake.text.parseUuid (← requiredField fields "execution_id" NodeTaskMessage.messageType)
  let nodeId ← requiredField fields "node_id" NodeTaskMessage.messageType
  return ⟨eventId, taskIdOf intake.text executionId nodeId taskId, attemptId, attemptNumber, executionId,
    nodeId, .failed, .null, some (intake.errorText failure), some (intake.errorType failure)⟩

def deadLetter (intake : Intake) (stream messageId : String) (fields : Dict String) (failure identityError : PyError) :
    Dict String :=
  [("source_stream", stream), ("source_message_id", messageId),
    ("raw_fields", intake.text.dumps (.obj (fields.map fun p => (p.1, .str p.2)))),
    ("error_message", intake.errorText failure), ("error_type", intake.errorType failure),
    ("identity_error", intake.errorText identityError)]

/-- `process_malformed`, with the commands of `_publish_and_ack` or `_publish_dead_letter_and_ack`. -/
def processMalformed (intake : Intake) (stream messageId : String) (fields : Dict String) (failure : PyError)
    (eventId : Uuid) :
    Except PyError (List WorkerCommand) :=
  match malformedEvent intake fields failure eventId with
  | .error identityError => .ok
    [.publish workflowTaskDeadLetterStream (deadLetter intake stream messageId fields failure identityError),
      .ack stream workflowTasksGroup messageId]
  | .ok event => do
    let message ← event.toStreamFields intake.text
    return [.publish workflowTaskCompletionsStream message, .ack stream workflowTasksGroup messageId]

/-- The five fields of the identity can be read, as those of the event. -/
structure Recovers (text : Text) (fields : Dict String) (event : TaskCompletionEvent) : Prop where
  taskId : ∃ value, requiredField fields "task_id" NodeTaskMessage.messageType = .ok value ∧
    event.taskId = taskIdOf text event.executionId event.nodeId value
  attemptId : ∃ value, requiredField fields "attempt_id" NodeTaskMessage.messageType = .ok value ∧
    text.uuid value = some event.attemptId
  attemptNumber : ∃ value, requiredField fields "attempt_number" NodeTaskMessage.messageType = .ok value ∧
    text.int value = some event.attemptNumber
  executionId : ∃ value, requiredField fields "execution_id" NodeTaskMessage.messageType = .ok value ∧
    text.uuid value = some event.executionId
  nodeId : requiredField fields "node_id" NodeTaskMessage.messageType = .ok event.nodeId

variable {intake : Intake} {stream messageId : String} {fields : Dict String} {failure identityError : PyError}
  {eventId : Uuid}
  {event : TaskCompletionEvent}

theorem parseUuid_ok {text : Text} {value : String} {u : Uuid} :
    text.parseUuid value = .ok u ↔ text.uuid value = some u := by
  unfold Text.parseUuid
  cases text.uuid value <;> simp

theorem parseInt_ok {text : Text} {value : String} {n : Int} :
    text.parseInt value = .ok n ↔ text.int value = some n := by
  unfold Text.parseInt
  cases text.int value <;> simp

theorem malformedEvent_ok (h : malformedEvent intake fields failure eventId = .ok event) :
    Recovers intake.text fields event ∧ event.eventId = eventId ∧ event.status = .failed ∧ event.outputData = .null ∧
      event.errorMessage = some (intake.errorText failure) ∧ event.errorType = some (intake.errorType failure) := by
  obtain ⟨taskId, htask, h⟩ := Except.bind_eq_ok.1 h
  obtain ⟨attempt, hattempt, h⟩ := Except.bind_eq_ok.1 h
  obtain ⟨attemptId, hattemptId, h⟩ := Except.bind_eq_ok.1 h
  obtain ⟨number, hnumber, h⟩ := Except.bind_eq_ok.1 h
  obtain ⟨attemptNumber, hattemptNumber, h⟩ := Except.bind_eq_ok.1 h
  obtain ⟨execution, hexecution, h⟩ := Except.bind_eq_ok.1 h
  obtain ⟨executionId, hexecutionId, h⟩ := Except.bind_eq_ok.1 h
  obtain ⟨nodeId, hnode, h⟩ := Except.bind_eq_ok.1 h
  cases h
  exact ⟨⟨⟨taskId, htask, rfl⟩, ⟨attempt, hattempt, parseUuid_ok.1 hattemptId⟩,
    ⟨number, hnumber, parseInt_ok.1 hattemptNumber⟩, ⟨execution, hexecution, parseUuid_ok.1 hexecutionId⟩, hnode⟩, rfl,
    rfl, rfl, rfl, rfl⟩

/-- The identity is lost only if it cannot be read. -/
theorem malformedEvent_of_recovers (h : Recovers intake.text fields event) :
    ∃ event, malformedEvent intake fields failure eventId = .ok event := by
  obtain ⟨taskId, htask, -⟩ := h.taskId
  obtain ⟨attempt, hattempt, hattemptId⟩ := h.attemptId
  obtain ⟨number, hnumber, hattemptNumber⟩ := h.attemptNumber
  obtain ⟨execution, hexecution, hexecutionId⟩ := h.executionId
  refine ⟨_, Except.bind_eq_ok.2 ⟨_, htask,
    Except.bind_eq_ok.2 ⟨_, hattempt, Except.bind_eq_ok.2 ⟨_, parseUuid_ok.2 hattemptId,
    Except.bind_eq_ok.2 ⟨_, hnumber, Except.bind_eq_ok.2 ⟨_, parseInt_ok.2 hattemptNumber,
      Except.bind_eq_ok.2 ⟨_, hexecution,
    Except.bind_eq_ok.2 ⟨_, parseUuid_ok.2 hexecutionId, Except.bind_eq_ok.2 ⟨_, h.nodeId, rfl⟩⟩⟩⟩⟩⟩⟩⟩⟩

/-- The event of a rejected message is one that its readers can read. -/
theorem malformedEvent_readable (hfails : NodeTaskMessage.fromStreamFields intake.validator fields = .error failure)
    (h : malformedEvent intake fields failure eventId = .ok event) : System.readable event = true := by
  obtain ⟨hrecovers, -, hstatus, -, hmessage, htype⟩ := malformedEvent_ok h
  obtain ⟨message, rfl, hblank⟩ := NodeTaskMessage.fromStreamFields_fails failure hfails
  have hnode : blank event.nodeId = false := by
    have hnode := hrecovers.nodeId
    unfold requiredField at hnode
    split at hnode
    · cases hnode
    · split at hnode
      · cases hnode
      · rename_i hnot
        cases hnode
        exact Bool.eq_false_iff.2 hnot
  simp [System.readable, hnode, hstatus, hmessage, htype, intake.errorText_not_blank message hblank,
    intake.errorType_not_blank]

theorem processMalformed_lost (h : malformedEvent intake fields failure eventId = .error identityError) :
    processMalformed intake stream messageId fields failure eventId =
      .ok [.publish workflowTaskDeadLetterStream (deadLetter intake stream messageId fields failure identityError),
        .ack stream workflowTasksGroup messageId] := by
  rw [processMalformed, h]

theorem processMalformed_reported (h : malformedEvent intake fields failure eventId = .ok event) :
    ∃ message, event.toStreamFields intake.text = .ok message ∧
      processMalformed intake stream messageId fields failure eventId =
        .ok [.publish workflowTaskCompletionsStream message, .ack stream workflowTasksGroup messageId] := by
  obtain ⟨-, -, hstatus, -, hmessage, htype⟩ := malformedEvent_ok h
  obtain ⟨message, hsent⟩ : ∃ message, event.toStreamFields intake.text = .ok message := by
    simp only [TaskCompletionEvent.toStreamFields, hstatus, hmessage, htype]
    exact ⟨_, rfl⟩
  refine ⟨message, hsent, ?_⟩
  rw [processMalformed, h]
  dsimp only
  rw [hsent]
  rfl

theorem malformedEvent_built (h : malformedEvent intake fields failure eventId = .ok event) : event.Built := by
  obtain ⟨-, -, hstatus, houtput, hmessage, htype⟩ := malformedEvent_ok h
  exact .failed hstatus houtput hmessage htype

end WorkflowEngine
