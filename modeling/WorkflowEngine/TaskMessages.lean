import WorkflowEngine.Definitions
import WorkflowEngine.OutboxPublisher
import WorkflowEngine.RoundTrip

/-!
# Task messages on the stream

A first attempt travels as the payload of its outbox row, flattened by the publisher; a retry
travels through `to_stream_fields`. One decoder reads both. `json.dumps` sorts the keys of
objects, so what comes back is equal as a Python value: the same members in whatever order.
-/
namespace WorkflowEngine

theorem blank_toString (n : Nat) : blank (toString n) = false := by
  have hlist : (toString n).toList = Nat.toDigits 10 n := Nat.toList_repr
  rw [blank, hlist]
  cases hd : Nat.toDigits 10 n with
  | nil => exact absurd hd Nat.toDigits_ne_nil
  | cons c cs =>
    have hdigit := Nat.isDigit_of_mem_toDigits (n := n) (b := 10) (c := c) (by decide) (by decide) (by simp [hd])
    have hspace : isSpace c = false := by
      simp only [Char.isDigit, Bool.and_eq_true, decide_eq_true_eq, ge_iff_le, UInt32.le_iff_toNat_le] at hdigit
      have hlow : 48 ≤ c.toNat := hdigit.1
      have hhigh : c.toNat ≤ 57 := hdigit.2
      simp only [isSpace, Bool.or_eq_false_iff, Bool.and_eq_false_iff, decide_eq_false_iff_not, beq_eq_false_iff_ne]
      omega
    simp [hspace]

namespace NodeTaskMessage

def messageType : String := "Task message"

/-- `to_stream_fields`; `messageId` is the message's own field. -/
def toStreamFields (text : Text) (messageId : Option Uuid) (m : NodeTaskMessage) : Dict String :=
  [("task_id", text.str m.taskId), ("attempt_id", text.str m.attemptId), ("attempt_number", toString m.attemptNumber),
    ("execution_id", text.str m.executionId), ("node_id", m.nodeId), ("handler", m.handler),
    ("handler_config", text.dumps (.obj m.handlerConfig)), ("resolved_input", text.dumps (.obj m.resolvedInput))] ++
  match messageId with
  | none => []
  | some u => [("message_id", text.str u)]

/-- `attempt_number: int` with `ge=1`. -/
def parseAttemptNumber (text : Text) (value : String) : Except PyError Nat := do
  let n ← text.parseInt value
  if n < 1 then .error (.valueError "Input should be greater than or equal to 1") else return n.toNat

/-- `from_stream_fields`: the required fields first, then their conversions. -/
def fromStreamFields (text : Text) (fields : Dict String) : Except PyError (Option Uuid × NodeTaskMessage) := do
  let taskId ← requiredField fields "task_id" messageType
  let attemptId ← requiredField fields "attempt_id" messageType
  let attemptNumber ← requiredField fields "attempt_number" messageType
  let executionId ← requiredField fields "execution_id" messageType
  let nodeId ← requiredField fields "node_id" messageType
  let handler ← requiredField fields "handler" messageType
  let handlerConfig ← jsonObjectField text fields "handler_config" messageType
  let resolvedInput ← jsonObjectField text fields "resolved_input" messageType
  let messageId ← (fields.get? "message_id").mapM text.parseUuid
  let attemptId ← text.parseUuid attemptId
  let attemptNumber ← parseAttemptNumber text attemptNumber
  let executionId ← text.parseUuid executionId
  return (messageId, ⟨taskIdOf text executionId nodeId taskId, attemptId, attemptNumber, executionId, nodeId, handler,
    handlerConfig, resolvedInput⟩)

/-- The same task, its two objects equal as dicts. -/
structure SameTask (m m' : NodeTaskMessage) : Prop where
  taskId : m.taskId = m'.taskId
  attemptId : m.attemptId = m'.attemptId
  attemptNumber : m.attemptNumber = m'.attemptNumber
  executionId : m.executionId = m'.executionId
  nodeId : m.nodeId = m'.nodeId
  handler : m.handler = m'.handler
  handlerConfig : Json.SameDict m.handlerConfig m'.handlerConfig
  resolvedInput : Json.SameDict m.resolvedInput m'.resolvedInput

/-- What the two paths rely on for the values of a message: identifiers and the attempt number are read
back from their texts, and objects come back from `dumps` as equal dicts. -/
structure Lossless (text : Text) (messageId : Uuid) (m : NodeTaskMessage) : Prop where
  uuid : ∀ u ∈ [messageId, m.attemptId, m.executionId], text.uuid (text.str u) = some u
  str : ∀ u ∈ [m.taskId, m.attemptId, m.executionId], blank (text.str u) = false
  int : text.int (toString m.attemptNumber) = some (m.attemptNumber : Int)
  decimal : text.dumps (.int m.attemptNumber) = toString m.attemptNumber
  objects : ∀ d ∈ [m.handlerConfig, m.resolvedInput], blank (text.dumps (.obj d)) = false ∧
    ∃ d', text.loads (text.dumps (.obj d)) = some (.obj d') ∧ Json.SameDict d' d

/-- What validation and the dispatcher guarantee about a task. -/
structure Issued (env : ValidationEnv) (m : NodeTaskMessage) : Prop where
  taskId : m.taskId = createTaskId m.executionId m.nodeId
  nodeId : isIdentifier m.nodeId = true
  handler : m.handler ∈ Validation.allowedHandlers env
  attemptNumber : 1 ≤ m.attemptNumber

/-- What `dispatch` hands to the outbox for a validated node. -/
theorem firstMessage_issued {env : ValidationEnv} {x : WorkflowExecutionRecord} {n : WorkflowNode} {input : Dict Json}
    {attemptId : Uuid} (hid : isIdentifier n.id = true) (hhandler : n.handler ∈ Validation.allowedHandlers env) :
    Issued env (firstMessage x n input attemptId) :=
  ⟨rfl, hid, hhandler, le_refl 1⟩

/-- The fields of a message, whatever else stands beside them. -/
structure Carries (text : Text) (fields : Dict String) (messageId : Option Uuid) (m : NodeTaskMessage) : Prop where
  messageId : fields.get? "message_id" = messageId.map text.str
  taskId : fields.get? "task_id" = some (text.str m.taskId)
  attemptId : fields.get? "attempt_id" = some (text.str m.attemptId)
  attemptNumber : fields.get? "attempt_number" = some (toString m.attemptNumber)
  executionId : fields.get? "execution_id" = some (text.str m.executionId)
  nodeId : fields.get? "node_id" = some m.nodeId
  handler : fields.get? "handler" = some m.handler
  handlerConfig : fields.get? "handler_config" = some (text.dumps (.obj m.handlerConfig))
  resolvedInput : fields.get? "resolved_input" = some (text.dumps (.obj m.resolvedInput))

theorem toStreamFields_carries (text : Text) (messageId : Option Uuid) (m : NodeTaskMessage) :
    Carries text (m.toStreamFields text messageId) messageId m := by
  cases messageId with
  | none => constructor <;> rfl
  | some u => constructor <;> rfl

theorem streamFields_carries {text : Text} {row : OutboxEventRecord} {m : NodeTaskMessage}
    (hstream : row.targetStream = .tasks) (hpayload : row.payload = .task m)
    (hdecimal : text.dumps (.int m.attemptNumber) = toString m.attemptNumber) :
    Carries text (OutboxPublisher.streamFields text row) (some row.messageId) m := by
  have hfields : OutboxPublisher.streamFields text row =
      [("message_id", text.str row.messageId), ("message_type", row.messageType.text), ("task_id", text.str m.taskId),
        ("attempt_id", text.str m.attemptId), ("attempt_number", toString m.attemptNumber),
        ("execution_id", text.str m.executionId), ("node_id", m.nodeId), ("handler", m.handler),
        ("handler_config", text.dumps (.obj m.handlerConfig)),
        ("resolved_input", text.dumps (.obj m.resolvedInput))] := by
    rw [OutboxPublisher.streamFields, hstream, hpayload, ← hdecimal]
    simp [OutboxPayload.dict, OutboxPublisher.redisFieldValue, Dict.set, Dict.has]
  rw [hfields]
  constructor <;> simp [Dict.get?]

theorem requiredField_eq {fields : Dict String} {fieldName value : String} (h : fields.get? fieldName = some value)
    (hblank : blank value = false) : requiredField fields fieldName messageType = .ok value := by
  simp [requiredField, h, hblank]

theorem jsonObjectField_eq {text : Text} {fields : Dict String} {fieldName value : String} {d : Dict Json}
    (h : fields.get? fieldName = some value) (hblank : blank value = false)
    (hloads : text.loads value = some (.obj d)) :
    jsonObjectField text fields fieldName messageType = .ok d := by
  simp [jsonObjectField, jsonValueField, requiredField_eq h hblank, hloads, bind, Except.bind, pure, Except.pure]

theorem allowedHandlers_not_blank {env : ValidationEnv} {handler : String}
    (h : handler ∈ Validation.allowedHandlers env) :
    blank handler = false := by
  have hall : ∀ b, ∀ h ∈ Validation.allowedHandlers ⟨b, fun _ => "", fun _ => none, fun _ => false⟩,
      blank h = false := by decide
  exact hall env.integrationTest handler h

/-- The decoder reads any fields that carry an issued message. -/
theorem fromStreamFields_of_carries {env : ValidationEnv} {text : Text} {fields : Dict String} {messageId : Uuid}
    {m : NodeTaskMessage} (hissued : Issued env m) (h : Lossless text messageId m) {sent : Option Uuid}
    (hsent : ∀ u ∈ sent, u = messageId) (hc : Carries text fields sent m) :
    ∃ m', fromStreamFields text fields = .ok (sent, m') ∧ SameTask m' m := by
  have huuid := h.uuid
  have hstr := h.str
  simp only [List.mem_cons, List.not_mem_nil, or_false, forall_eq_or_imp, forall_eq] at huuid hstr
  obtain ⟨hmessage, hattempt, hexecution⟩ := huuid
  obtain ⟨hbtask, hbattempt, hbexecution⟩ := hstr
  obtain ⟨hbconfig, config, hconfig, hsameConfig⟩ := h.objects m.handlerConfig (by simp)
  obtain ⟨hbinput, input, hinput, hsameInput⟩ := h.objects m.resolvedInput (by simp)
  have hid : (fields.get? "message_id").mapM text.parseUuid = .ok sent := by
    rw [hc.messageId]
    cases sent with
    | none => rfl
    | some u =>
      obtain rfl := hsent u rfl
      simp [Text.parseUuid, hmessage]
  have hnumber : parseAttemptNumber text (toString m.attemptNumber) = .ok m.attemptNumber := by
    have hone := hissued.attemptNumber
    have hnot : ¬ (m.attemptNumber : Int) < 1 := by omega
    simp only [parseAttemptNumber, Text.parseInt, h.int, hnot, bind, Except.bind, pure, Except.pure, if_false,
      Int.toNat_natCast]
  refine ⟨⟨m.taskId, m.attemptId, m.attemptNumber, m.executionId, m.nodeId, m.handler, config, input⟩, ?_,
    ⟨rfl, rfl, rfl, rfl, rfl, rfl, hsameConfig, hsameInput⟩⟩
  rw [fromStreamFields, requiredField_eq hc.taskId hbtask, requiredField_eq hc.attemptId hbattempt,
    requiredField_eq hc.attemptNumber (blank_toString _), requiredField_eq hc.executionId hbexecution,
    requiredField_eq hc.nodeId (isIdentifier_not_blank hissued.nodeId),
    requiredField_eq hc.handler (allowedHandlers_not_blank hissued.handler),
    jsonObjectField_eq hc.handlerConfig hbconfig hconfig, jsonObjectField_eq hc.resolvedInput hbinput hinput, hid]
  simp only [bind, Except.bind, pure, Except.pure, hnumber, Text.parseUuid, hattempt, hexecution, taskIdOf,
    hissued.taskId]
  simp

/-- Both encoders agree with the decoder: from the outbox row of a task, and from the fields of a retry, the
same task comes back, with the row's identifier or none as its message id. -/
theorem task_encoders_agree {env : ValidationEnv} {text : Text} {row : OutboxEventRecord} {m : NodeTaskMessage}
    (hstream : row.targetStream = .tasks) (hpayload : row.payload = .task m) (hissued : Issued env m)
    (h : Lossless text row.messageId m) :
    (∃ m₁, fromStreamFields text (OutboxPublisher.streamFields text row) = .ok (some row.messageId, m₁) ∧
      SameTask m₁ m) ∧
      ∃ m₂, fromStreamFields text (m.toStreamFields text none) = .ok (none, m₂) ∧ SameTask m₂ m := by
  constructor
  · refine fromStreamFields_of_carries hissued h ?_ (streamFields_carries hstream hpayload h.decimal)
    rintro u ⟨⟩
    rfl
  · refine fromStreamFields_of_carries hissued h ?_ (toStreamFields_carries text none m)
    rintro u ⟨⟩

def fetchNode : WorkflowNode :=
  ⟨"fetch", "call_external_service", [],
    [("url", .str "https://host/a"), ("headers", .obj [("b", .null), ("a", .bool true)])]⟩

def fetchExecution : WorkflowExecutionRecord := ⟨.v4 1, .v4 0, .running, [], 0, some 0, none⟩

/-- The outbox row of a task with an input that looks like JSON, and members that are not sorted. -/
def fetchRow : OutboxEventRecord := taskRow fetchExecution fetchNode [("body", .str "[1, null]")] (.v4 3) 0

def fetchTask : NodeTaskMessage := firstMessage fetchExecution fetchNode [("body", .str "[1, null]")] (.v4 3)

/-- The objects of this task with their compact texts, and what these are read back as. -/
def wireObjects : List (Json × String × Json) :=
  [(.obj fetchTask.handlerConfig,
    "\x7b\"headers\":\x7b\"a\":true,\"b\":null\x7d,\"url\":\"https://host/a\"\x7d",
    .obj [("headers", .obj [("a", .bool true), ("b", .null)]), ("url", .str "https://host/a")]),
  (.obj fetchTask.resolvedInput, "\x7b\"body\":\"[1, null]\"\x7d", .obj fetchTask.resolvedInput),
  (.int 1, "1", .int 1)]

/-- The text conversions on the values of this task. -/
def taskText : Text :=
  { System.wireText with
    loads := fun value => (wireObjects.find? fun p => decide (p.2.1 = value)).map (·.2.2)
    dumps := fun v => ((wireObjects.find? fun p => decide (p.1 = v)).map (·.2.1)).getD "null" }

theorem fetchTask_lossless : Lossless taskText fetchRow.messageId fetchTask where
  uuid := by decide +kernel
  str := by decide +kernel
  int := by decide +kernel
  decimal := by decide +kernel
  objects := by
    simp only [List.mem_cons, List.not_mem_nil, or_false, forall_eq_or_imp, forall_eq]
    refine ⟨⟨by decide +kernel,
        [("headers", .obj [("a", .bool true), ("b", .null)]), ("url", .str "https://host/a")], ?_, ?_⟩,
      by decide +kernel, fetchTask.resolvedInput, ?_, rfl⟩
    · decide +kernel
    · unfold Json.SameDict
      decide +kernel
    · decide +kernel

theorem fetchTask_issued : Issued System.sampleConfig.validation fetchTask :=
  firstMessage_issued (by decide) (by decide)

theorem task_encoders_agree_fetch :
    (∃ m₁, fromStreamFields taskText (OutboxPublisher.streamFields taskText fetchRow) =
      .ok (some fetchRow.messageId, m₁) ∧ SameTask m₁ fetchTask) ∧
      ∃ m₂, fromStreamFields taskText (fetchTask.toStreamFields taskText none) = .ok (none, m₂) ∧
      SameTask m₂ fetchTask :=
  task_encoders_agree rfl rfl fetchTask_issued fetchTask_lossless

end NodeTaskMessage

end WorkflowEngine
