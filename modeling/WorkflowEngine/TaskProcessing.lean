import WorkflowEngine.Lib.WriteOnce
import WorkflowEngine.Workers

/-!
# Processing by task

Where the unit of work knows no attempts, a worker keeps one row for each task. A claim is three
statements, an insertion, a read and a conditional update, and other transactions may commit in
between. Any number of workers, redeliveries of anything that is not acknowledged, lost leases and
crashes at any point: a task gets one result, and all that is ever published for it is this result.
-/
namespace WorkflowEngine

open Database (TaskClaimOutcome TaskProcessingResult)
open WorkflowEngine.System (HandlerOutcome completionEvent eventFromResult)

inductive TaskProcessingStatus where
  | claimed | resultRecorded | completed
  deriving DecidableEq, Repr

structure TaskProcessingRecord where
  taskId : Uuid
  executionId : Uuid
  nodeId : String
  status : TaskProcessingStatus
  claimedBy : Option String
  claimedAt : Time
  claimExpiresAt : Option Time
  resultData : Json
  errorMessage : Option String
  errorType : Option String
  completionEventId : Option Uuid
  completionPublishedAt : Option Time
  completedAt : Option Time
  deriving DecidableEq, Repr

/-! ## The repository -/

namespace TaskProcessingRepository

abbrev Rows := List TaskProcessingRecord

def get? (rows : Rows) (taskId : Uuid) : Option TaskProcessingRecord := Table.lookup (·.taskId) taskId rows

/-- The row `claim_task` inserts. -/
def claimedRow (task : NodeTaskMessage) (workerId : String) (claimedAt claimExpiresAt : Time) : TaskProcessingRecord :=
  ⟨task.taskId, task.executionId, task.nodeId, .claimed, some workerId, claimedAt, some claimExpiresAt, .null,
    none, none, none, none, none⟩

/-- `insert .. on conflict (task_id) do nothing .. returning task_id`. -/
def insertClaim (row : TaskProcessingRecord) (rows : Rows) : Bool × Rows :=
  if rows.any fun r => decide (r.taskId = row.taskId) then (false, rows) else (true, rows ++ [row])

def identityMismatch (taskId : Uuid) : PyError :=
  .valueError ("Task '" ++ taskId.str ++ "' does not match its existing execution and node identity.")

/-- What the row that is there already decides; `none` is a claim that may be taken over. -/
def existingOutcome (task : NodeTaskMessage) (existing : TaskProcessingRecord) :
    Except PyError (Option TaskClaimOutcome) :=
  if existing.executionId ≠ task.executionId ∨ existing.nodeId ≠ task.nodeId then .error (identityMismatch task.taskId)
  else if existing.status = .completed then .ok (some .alreadyCompleted)
  else if existing.status = .resultRecorded then .ok (some .resultRecorded)
  else .ok none

/-- The claims `claim_task` takes over: their lease has run out at `claimedAt`. -/
def expiredClaim (taskId : Uuid) (claimedAt : Time) (r : TaskProcessingRecord) : Bool :=
  decide (r.taskId = taskId ∧ r.status ≠ .completed ∧ r.status = .claimed) &&
    r.claimExpiresAt.any fun expires => decide (expires ≤ claimedAt)

def reclaim (task : NodeTaskMessage) (workerId : String) (claimedAt claimExpiresAt : Time) (rows : Rows) :
    Bool × Rows :=
  (rows.any (expiredClaim task.taskId claimedAt), Table.updateWhere (expiredClaim task.taskId claimedAt) (fun r =>
    { r with
      executionId := task.executionId
      nodeId := task.nodeId
      claimedBy := some workerId
      claimedAt := claimedAt
      claimExpiresAt := some claimExpiresAt }) rows)

/-- The row of a task in one status. -/
def taskIn (taskId : Uuid) (status : TaskProcessingStatus) (r : TaskProcessingRecord) : Bool :=
  decide (r.taskId = taskId ∧ r.status = status)

def notAvailable (taskId : Uuid) (purpose : String) : PyError :=
  .valueError ("Task '" ++ taskId.str ++ "' is not available to " ++ purpose ++ ".")

def recordResult (taskId eventId : Uuid) (resultData : Json) (errorMessage errorType : Option String) (rows : Rows) :
    Except PyError Rows :=
  if rows.any (taskIn taskId .claimed) then
    .ok (Table.updateWhere (taskIn taskId .claimed) (fun r =>
      { r with
        status := .resultRecorded
        resultData := resultData
        errorMessage := errorMessage
        errorType := errorType
        completionEventId := some eventId }) rows)
  else .error (notAvailable taskId "record a result")

def getResult (taskId : Uuid) (rows : Rows) : Except PyError TaskProcessingResult :=
  match get? rows taskId with
  | none => .error .persistence
  | some record =>
    match record.completionEventId with
    | none => .error (.valueError ("Task '" ++ taskId.str ++ "' has no completion event to replay."))
    | some eventId => .ok ⟨eventId, record.resultData, record.errorMessage, record.errorType⟩

def markCompleted (taskId : Uuid) (completedAt : Time) (rows : Rows) : Except PyError Rows :=
  if rows.any (taskIn taskId .resultRecorded) then
    .ok (Table.updateWhere (taskIn taskId .resultRecorded) (fun r =>
      { r with
        status := .completed
        completedAt := some completedAt
        completionPublishedAt := some completedAt
        claimExpiresAt := none }) rows)
  else .error (notAvailable taskId "mark completed")

def renewClaim (taskId : Uuid) (workerId : String) (claimExpiresAt : Time) (rows : Rows) : Bool × Rows :=
  let selected := fun r : TaskProcessingRecord =>
    decide (r.taskId = taskId ∧ r.status = .claimed ∧ r.claimedBy = some workerId)
  (rows.any selected, Table.updateWhere selected (fun r => { r with claimExpiresAt := some claimExpiresAt }) rows)

end TaskProcessingRepository

/-! ## The workers -/

open TaskProcessingRepository

/-- How far `_renew_claim_until_complete` has come beside a running handler. It reads the clock before it
begins the transaction that renews. -/
inductive Renewal where
  | sleeping
  | renewing (readAt : Time)
  | failed
  deriving DecidableEq, Repr

/-- How far a worker has come with one delivery. The claim reads the clock once, before its transaction. -/
inductive DeliveryPhase where
  | received
  | inserting (claimedAt : Time)
  | selecting (claimedAt : Time)
  | reclaiming (claimedAt : Time)
  | claimed
  | executing (renewal : Renewal)
  | executed (event : TaskCompletionEvent)
  | replaying
  | recorded (event : TaskCompletionEvent)
  | published (event : TaskCompletionEvent)
  | acknowledging
  deriving DecidableEq, Repr

/-- The worker has claimed the task and has not recorded a result yet. -/
def DeliveryPhase.holdsClaim : DeliveryPhase → Bool
  | .claimed => true
  | .executing _ => true
  | .executed _ => true
  | _ => false

/-- The clock as the claim or the renewal has read it that is under way. -/
def DeliveryPhase.readAt : DeliveryPhase → Option Time
  | .inserting claimedAt => some claimedAt
  | .selecting claimedAt => some claimedAt
  | .reclaiming claimedAt => some claimedAt
  | .executing (.renewing readAt) => some readAt
  | _ => none

structure Delivery where
  worker : String
  index : Nat
  task : NodeTaskMessage
  phase : DeliveryPhase
  deriving DecidableEq, Repr

/-- The table, the streams and the workers. `ran` remembers the handlers that have ended. -/
structure TaskProcessing where
  rows : Rows
  now : Time
  draws : Nat
  tasks : List NodeTaskMessage
  acknowledged : List Nat
  deliveries : List Delivery
  completions : List TaskCompletionEvent
  ran : List (NodeTaskMessage × HandlerOutcome)
  deriving DecidableEq, Repr

namespace TaskProcessing

def init : TaskProcessing := ⟨[], 0, 0, [], [], [], [], []⟩

def setPhase (s : TaskProcessing) (k : Nat) (f : Delivery) (phase : DeliveryPhase) : TaskProcessing :=
  { s with deliveries := s.deliveries.set k { f with phase := phase } }

def drop (s : TaskProcessing) (k : Nat) : TaskProcessing := { s with deliveries := s.deliveries.eraseIdx k }

def insertStep (lease : Time) (s : TaskProcessing) (k : Nat) (f : Delivery) (claimedAt : Time) : TaskProcessing :=
  let r := insertClaim (claimedRow f.task f.worker claimedAt (claimedAt + lease)) s.rows
  { s with rows := r.2 }.setPhase k f (if r.1 then .claimed else .selecting claimedAt)

def selectStep (s : TaskProcessing) (k : Nat) (f : Delivery) (claimedAt : Time) : TaskProcessing :=
  match get? s.rows f.task.taskId with
  | none => s.drop k
  | some existing =>
    match existingOutcome f.task existing with
    | .error _ => s.drop k
    | .ok none => s.setPhase k f (.reclaiming claimedAt)
    | .ok (some .resultRecorded) => s.setPhase k f .replaying
    | .ok (some _) => s.setPhase k f .acknowledging

def reclaimStep (lease : Time) (s : TaskProcessing) (k : Nat) (f : Delivery) (claimedAt : Time) : TaskProcessing :=
  let r := reclaim f.task f.worker claimedAt (claimedAt + lease) s.rows
  { s with rows := r.2 }.setPhase k f (if r.1 then .claimed else .acknowledging)

/-- The handler ends. A renewal that has failed raises here, before anything is recorded; any other one is
cancelled. -/
def finishStep (s : TaskProcessing) (k : Nat) (f : Delivery) (renewal : Renewal) (outcome : HandlerOutcome) :
    TaskProcessing :=
  if renewal = .failed then s.drop k
  else { s with draws := s.draws + 1, ran := s.ran ++ [(f.task, outcome)] }.setPhase k f
    (.executed (completionEvent f.task (.v4 s.draws) outcome))

def recordStep (s : TaskProcessing) (k : Nat) (f : Delivery) (event : TaskCompletionEvent) : TaskProcessing :=
  match recordResult event.taskId event.eventId event.outputData event.errorMessage event.errorType s.rows with
  | .ok rows => { s with rows := rows }.setPhase k f (.recorded event)
  | .error _ => s.drop k

def replayStep (s : TaskProcessing) (k : Nat) (f : Delivery) : TaskProcessing :=
  match (getResult f.task.taskId s.rows).bind (eventFromResult f.task) with
  | .ok event => s.setPhase k f (.recorded event)
  | .error _ => s.drop k

def publishStep (s : TaskProcessing) (k : Nat) (f : Delivery) (event : TaskCompletionEvent) : TaskProcessing :=
  { s with completions := s.completions ++ [event] }.setPhase k f (.published event)

def markStep (s : TaskProcessing) (k : Nat) (f : Delivery) (event : TaskCompletionEvent) : TaskProcessing :=
  match markCompleted event.taskId s.now s.rows with
  | .ok rows => { s with rows := rows }.setPhase k f .acknowledging
  | .error _ => s.drop k

/-- The next step of the coroutine that processes the `k`-th delivery. -/
def work (lease : Time) (s : TaskProcessing) (k : Nat) (outcome : HandlerOutcome) : Option TaskProcessing :=
  (s.deliveries[k]?).map fun f =>
    match f.phase with
    | .received => s.setPhase k f (.inserting s.now)
    | .inserting claimedAt => s.insertStep lease k f claimedAt
    | .selecting claimedAt => s.selectStep k f claimedAt
    | .reclaiming claimedAt => s.reclaimStep lease k f claimedAt
    | .claimed => s.setPhase k f (.executing .sleeping)
    | .executing renewal => s.finishStep k f renewal outcome
    | .executed event => s.recordStep k f event
    | .replaying => s.replayStep k f
    | .recorded event => s.publishStep k f event
    | .published event => s.markStep k f event
    | .acknowledging => { s with acknowledged := s.acknowledged ++ [f.index] }.drop k

def renewStep (lease : Time) (s : TaskProcessing) (k : Nat) (f : Delivery) (readAt : Time) : TaskProcessing :=
  let r := renewClaim f.task.taskId f.worker (readAt + lease) s.rows
  { s with rows := r.2 }.setPhase k f (.executing (if r.1 then .sleeping else .failed))

/-- The next step of `_renew_claim_until_complete` beside a running handler. -/
def renew (lease : Time) (s : TaskProcessing) (k : Nat) : Option TaskProcessing :=
  match s.deliveries[k]? with
  | none => none
  | some f =>
    match f.phase with
    | .executing .sleeping => some (s.setPhase k f (.executing (.renewing s.now)))
    | .executing (.renewing readAt) => some (s.renewStep lease k f readAt)
    | _ => none

inductive Action where
  | publish (task : NodeTaskMessage)
  | deliver (worker : String) (index : Nat)
  | work (k : Nat) (outcome : HandlerOutcome)
  | renew (k : Nat)
  | crash (k : Nat)
  | tick (elapsed : Nat)
  deriving DecidableEq, Repr

/-- An entry that is not acknowledged may be delivered at any time, to anybody and again. -/
def step (lease : Time) (s : TaskProcessing) : Action → Option TaskProcessing
  | .publish task => some { s with tasks := s.tasks ++ [task] }
  | .deliver worker index =>
    match s.tasks[index]? with
    | none => none
    | some task =>
      if index ∈ s.acknowledged then none
      else some { s with deliveries := s.deliveries ++ [⟨worker, index, task, .received⟩] }
  | .work k outcome => s.work lease k outcome
  | .renew k => s.renew lease k
  | .crash k => if k < s.deliveries.length then some (s.drop k) else none
  | .tick elapsed => some { s with now := s.now + elapsed }

/-- What may come after `s`. -/
abbrev Later (lease : Time) (s t : TaskProcessing) : Prop := Transition.Reachable (step lease) (fun _ _ => True) s t

abbrev Reachable (lease : Time) (s : TaskProcessing) : Prop := Later lease init s

/-- Execute the actions, or none of them where one is not possible. -/
def after (s : TaskProcessing) (lease : Time) (actions : List Action) : TaskProcessing :=
  (Transition.run (step lease) s actions).getD s

theorem later_after (lease : Time) (s : TaskProcessing) (actions : List Action) :
    Later lease s (s.after lease actions) := by
  unfold after
  cases h : Transition.run (step lease) s actions with
  | none => exact .start
  | some t =>
    exact Transition.Reachable.of_run (fun _ _ => true) (fun _ _ _ => trivial) actions .start (by simpa using h)

end TaskProcessing

/-! ## Decisions -/

/-- A result, whichever attempt of the task it is published for. -/
structure TaskDecision where
  executionId : Uuid
  nodeId : String
  eventId : Uuid
  status : TaskCompletionStatus
  outputData : Json
  errorMessage : Option String
  errorType : Option String
  deriving DecidableEq, Repr

def TaskCompletionEvent.decision (event : TaskCompletionEvent) : TaskDecision :=
  ⟨event.executionId, event.nodeId, event.eventId, event.status, event.outputData, event.errorMessage, event.errorType⟩

/-- A row that is no longer claimed keeps the result. -/
def TaskProcessingRecord.decision? (r : TaskProcessingRecord) : Option TaskDecision :=
  if r.status = .claimed then none
  else r.completionEventId.map fun eventId => ⟨r.executionId, r.nodeId, eventId,
    if r.errorMessage.isSome then .failed else .completed, r.resultData, r.errorMessage, r.errorType⟩

namespace TaskProcessingRepository

variable {rows rows' : Rows} {task : NodeTaskMessage} {taskId eventId : Uuid} {workerId : String}
  {claimedAt expires now : Time} {r : TaskProcessingRecord}

/-- A row keeps its execution and node, and its result once it has one. -/
structure Keeps (r r' : TaskProcessingRecord) : Prop where
  executionId : r'.executionId = r.executionId
  nodeId : r'.nodeId = r.nodeId
  decided : r.status ≠ .claimed → r'.status ≠ .claimed ∧ r'.decision? = r.decision?

theorem Keeps.refl (r : TaskProcessingRecord) : Keeps r r := ⟨rfl, rfl, fun h => ⟨h, rfl⟩⟩

def Grows (rows rows' : Rows) : Prop := ∀ id r, get? rows id = some r → ∃ r', get? rows' id = some r' ∧ Keeps r r'

theorem Grows.refl (rows : Rows) : Grows rows rows := fun _ r h => ⟨r, h, .refl r⟩

theorem get?_id (h : get? rows taskId = some r) : r.taskId = taskId := (Table.lookup_some h).2

theorem get?_updateWhere {p : TaskProcessingRecord → Bool} {f : TaskProcessingRecord → TaskProcessingRecord}
    (hf : ∀ r, (f r).taskId = r.taskId) :
    get? (Table.updateWhere p f rows) taskId = (get? rows taskId).map fun r => if p r then f r else r :=
  Table.lookup_updateWhere hf

theorem Grows.of_update {p : TaskProcessingRecord → Bool} {f : TaskProcessingRecord → TaskProcessingRecord}
    (hf : ∀ r, (f r).taskId = r.taskId) (hkeeps : ∀ id r, get? rows id = some r → p r = true → Keeps r (f r)) :
    Grows rows (Table.updateWhere p f rows) := by
  intro id r hr
  refine ⟨if p r then f r else r, by rw [get?_updateWhere hf, hr]; rfl, ?_⟩
  split
  · rename_i hp
    exact hkeeps id r hr hp
  · exact .refl r

theorem insertClaim_cases (row : TaskProcessingRecord) (rows : Rows) :
    (∃ r, get? rows row.taskId = some r ∧ insertClaim row rows = (false, rows)) ∨
      (∀ r ∈ rows, r.taskId ≠ row.taskId) ∧ insertClaim row rows = (true, rows ++ [row]) := by
  cases hany : rows.any fun r => decide (r.taskId = row.taskId) with
  | true =>
    left
    obtain ⟨r, hr⟩ : ∃ r, get? rows row.taskId = some r := by
      obtain ⟨r, hr, hid⟩ := List.any_eq_true.1 hany
      cases hget : get? rows row.taskId with
      | none => exact absurd (of_decide_eq_true hid) (Table.lookup_none.1 hget r hr)
      | some r => exact ⟨r, rfl⟩
    exact ⟨r, hr, if_pos hany⟩
  | false =>
    refine .inr ⟨fun r hr hid => ?_, if_neg (by simp [hany])⟩
    exact absurd (decide_eq_true hid) (List.any_eq_false.1 hany r hr)

theorem grows_append {row : TaskProcessingRecord} : Grows rows (rows ++ [row]) :=
  fun _ r hr => ⟨r, Table.lookup_append_of_some hr, .refl r⟩

theorem expiredClaim_iff : expiredClaim taskId claimedAt r = true ↔
    r.taskId = taskId ∧ r.status = .claimed ∧ ∃ expires, r.claimExpiresAt = some expires ∧ expires ≤ claimedAt := by
  simp only [expiredClaim, Bool.and_eq_true, decide_eq_true_eq, Option.any_eq_true]
  constructor
  · rintro ⟨⟨hid, -, hst⟩, hexpired⟩
    exact ⟨hid, hst, hexpired⟩
  · rintro ⟨hid, hst, hexpired⟩
    exact ⟨⟨hid, by rw [hst]; decide, hst⟩, hexpired⟩

/-- The row is that of the task's execution and node. -/
def Matches (rows : Rows) (task : NodeTaskMessage) : Prop :=
  ∃ r, get? rows task.taskId = some r ∧ r.executionId = task.executionId ∧ r.nodeId = task.nodeId

theorem Matches.grows (h : Matches rows task) (hgrows : Grows rows rows') : Matches rows' task := by
  obtain ⟨r, hr, he, hn⟩ := h
  obtain ⟨r', hr', hkeeps⟩ := hgrows _ r hr
  exact ⟨r', hr', hkeeps.executionId.trans he, hkeeps.nodeId.trans hn⟩

/-- The answer says in which status the row is. -/
theorem existingOutcome_ok {found : Option TaskClaimOutcome} (h : existingOutcome task r = .ok found) :
    r.executionId = task.executionId ∧ r.nodeId = task.nodeId ∧ match found with
      | none => r.status = .claimed
      | some .resultRecorded => r.status = .resultRecorded
      | some .alreadyCompleted => r.status = .completed
      | some _ => False := by
  unfold existingOutcome at h
  split at h
  · cases h
  · rename_i hidentity
    obtain ⟨he, hn⟩ := not_or.1 hidentity
    refine ⟨not_not.1 he, not_not.1 hn, ?_⟩
    cases hst : r.status with
    | claimed =>
      simp only [hst, reduceCtorEq, if_false] at h
      cases h
      trivial
    | resultRecorded =>
      simp only [hst, reduceCtorEq, if_false, if_true] at h
      cases h
      trivial
    | completed =>
      simp only [hst, if_true] at h
      cases h
      trivial

theorem reclaim_grows (h : Matches rows task) : Grows rows (reclaim task workerId claimedAt expires rows).2 := by
  refine .of_update (fun _ => rfl) fun id r hr hp => ?_
  obtain ⟨hid, hst, -⟩ := expiredClaim_iff.1 hp
  obtain ⟨r', hr', he, hn⟩ := h
  obtain rfl : r = r' := Option.some.inj (hr.symm.trans (((get?_id hr).symm.trans hid) ▸ hr'))
  exact ⟨he.symm, hn.symm, fun hne => absurd hst hne⟩

theorem renewClaim_grows : Grows rows (renewClaim taskId workerId expires rows).2 :=
  .of_update (fun _ => rfl) fun _ _ _ hp => ⟨rfl, rfl, fun hne => absurd (of_decide_eq_true hp).2.1 hne⟩

/-- The row with the result of the event. -/
def recordedRow (event : TaskCompletionEvent) (r : TaskProcessingRecord) : TaskProcessingRecord :=
  { r with
    status := .resultRecorded
    resultData := event.outputData
    errorMessage := event.errorMessage
    errorType := event.errorType
    completionEventId := some event.eventId }

theorem recordResult_ok {event : TaskCompletionEvent} (hkeyed : Table.Keyed (·.taskId) rows)
    (h : recordResult event.taskId event.eventId event.outputData event.errorMessage event.errorType
      rows = .ok rows') :
    Grows rows rows' ∧ Table.Keyed (·.taskId) rows' ∧ (∃ r, get? rows event.taskId = some r ∧ r.status = .claimed ∧
      get? rows' event.taskId = some (recordedRow event r)) ∧
      ∀ id, id ≠ event.taskId → get? rows' id = get? rows id := by
  unfold recordResult at h
  split at h
  · rename_i hany
    cases h
    refine ⟨.of_update (fun _ => rfl) fun _ _ _ hp => ⟨rfl, rfl, fun hne => absurd (of_decide_eq_true hp).2 hne⟩,
      hkeyed.updateWhere fun _ => rfl, ?_, fun id hid => ?_⟩
    · obtain ⟨r, hr, hp⟩ := (hkeyed.any_iff fun r hp => (of_decide_eq_true hp).1).1 hany
      refine ⟨r, hr, (of_decide_eq_true hp).2, (get?_updateWhere (f := recordedRow event) fun _ => rfl).trans ?_⟩
      rw [get?, hr, Option.map_some, if_pos hp]
    · refine (get?_updateWhere (f := recordedRow event) fun _ => rfl).trans ?_
      cases hget : get? rows id with
      | none => rfl
      | some r =>
        have hno : taskIn event.taskId .claimed r = false :=
          decide_eq_false fun hp => hid ((get?_id hget).symm.trans hp.1)
        rw [Option.map_some, hno]
        rfl
  · cases h

theorem markCompleted_ok (h : markCompleted taskId now rows = .ok rows') : Grows rows rows' ∧
    (Table.Keyed (·.taskId) rows → Table.Keyed (·.taskId) rows') := by
  unfold markCompleted at h
  split at h
  · cases h
    refine ⟨.of_update (fun _ => rfl) fun _ r _ hp => ⟨rfl, rfl, fun _ => ⟨by simp, ?_⟩⟩,
      fun hk => hk.updateWhere fun _ => rfl⟩
    have hst : r.status = .resultRecorded := (of_decide_eq_true hp).2
    simp [TaskProcessingRecord.decision?, hst]
  · cases h

/-- The result of a task. -/
def decision? (rows : Rows) (taskId : Uuid) : Option TaskDecision := (get? rows taskId).bind (·.decision?)

theorem Grows.decision (h : Grows rows rows') {d : TaskDecision} (hd : decision? rows taskId = some d) :
    decision? rows' taskId = some d := by
  obtain ⟨r, hr, hd⟩ := Option.bind_eq_some_iff.1 hd
  obtain ⟨r', hr', hkeeps⟩ := h _ r hr
  have hst : r.status ≠ .claimed := fun hst => by simp [TaskProcessingRecord.decision?, hst] at hd
  rw [decision?, hr', Option.bind_some, (hkeeps.decided hst).2, hd]

/-- Updates that do not touch results. -/
theorem decision?_updateWhere {p : TaskProcessingRecord → Bool} {f : TaskProcessingRecord → TaskProcessingRecord}
    (hf : ∀ r, (f r).taskId = r.taskId) (hsame : ∀ r, p r = true → (f r).decision? = r.decision?) :
    decision? (Table.updateWhere p f rows) taskId = decision? rows taskId := by
  rw [decision?, get?_updateWhere hf, decision?]
  cases get? rows taskId with
  | none => rfl
  | some r =>
    simp only [Option.map_some, Option.bind_some]
    split
    · rename_i hp
      exact hsame r hp
    · rfl

theorem decision?_of_claimed (h : r.status = .claimed) : r.decision? = none := if_pos h

theorem decision?_reclaim :
    decision? (reclaim task workerId claimedAt expires rows).2 taskId = decision? rows taskId := by
  refine decision?_updateWhere (fun _ => rfl) fun r hp => ?_
  have hst := (expiredClaim_iff.1 hp).2.1
  rw [decision?_of_claimed hst, decision?_of_claimed (by exact hst)]

theorem decision?_renewClaim {id : Uuid} :
    decision? (renewClaim taskId workerId expires rows).2 id = decision? rows id := by
  refine decision?_updateWhere (fun _ => rfl) fun r hp => ?_
  have hst := (of_decide_eq_true hp).2.1
  rw [decision?_of_claimed hst, decision?_of_claimed (by exact hst)]

theorem decision?_markCompleted {id : Uuid} (h : markCompleted taskId now rows = .ok rows') :
    decision? rows' id = decision? rows id := by
  unfold markCompleted at h
  split at h
  · cases h
    refine decision?_updateWhere (fun _ => rfl) fun r hp => ?_
    have hst : r.status = .resultRecorded := (of_decide_eq_true hp).2
    simp [TaskProcessingRecord.decision?, hst]
  · cases h

theorem decision?_append {row : TaskProcessingRecord} (hst : row.status = .claimed) :
    decision? (rows ++ [row]) taskId = decision? rows taskId := by
  rw [decision?, get?, Table.lookup_append, Table.lookup_single, decision?, get?]
  cases Table.lookup (·.taskId) taskId rows with
  | some r => rfl
  | none =>
    rw [Option.none_or]
    split
    · exact decision?_of_claimed hst
    · rfl

end TaskProcessingRepository

namespace TaskProcessing

variable {lease : Time} {s t : TaskProcessing} {a : Action} {k : Nat} {f g : Delivery} {event : TaskCompletionEvent}
  {outcome : HandlerOutcome} {taskId : Uuid} {d : TaskDecision}

/-- What has been published, by task. -/
def publications (s : TaskProcessing) : List (Uuid × TaskDecision) :=
  s.completions.map fun event => (event.taskId, event.decision)

/-- The result is that of a handler that was run for the task. -/
def Computed (s : TaskProcessing) (taskId : Uuid) (d : TaskDecision) : Prop :=
  ∃ m outcome, (m, outcome) ∈ s.ran ∧ m.taskId = taskId ∧ d = (completionEvent m d.eventId outcome).decision

/-- What a worker knows of the task it processes. -/
def Backed (s : TaskProcessing) (f : Delivery) : Prop :=
  match f.phase with
  | .received | .inserting _ | .selecting _ | .acknowledging => True
  | .reclaiming _ | .claimed | .executing _ => Matches s.rows f.task
  | .executed event => Matches s.rows f.task ∧
      ∃ outcome, (f.task, outcome) ∈ s.ran ∧ event = completionEvent f.task event.eventId outcome
  | .replaying => Matches s.rows f.task ∧ ∃ r, get? s.rows f.task.taskId = some r ∧ r.status ≠ .claimed
  | .recorded event | .published event =>
    event.taskId = f.task.taskId ∧ decision? s.rows event.taskId = some event.decision

structure Sound (s : TaskProcessing) : Prop where
  keyed : Table.Keyed (·.taskId) s.rows
  computed : ∀ taskId d, decision? s.rows taskId = some d → s.Computed taskId d
  backed : ∀ f ∈ s.deliveries, s.Backed f

/-- Nothing that is known is lost. -/
structure Progress (s t : TaskProcessing) : Prop where
  grows : Grows s.rows t.rows
  ran : ∀ x ∈ s.ran, x ∈ t.ran

theorem Computed.progress (h : s.Computed taskId d) (hp : Progress s t) : t.Computed taskId d := by
  obtain ⟨m, outcome, hran, hid, hd⟩ := h
  exact ⟨m, outcome, hp.ran _ hran, hid, hd⟩

theorem Backed.progress (h : s.Backed f) (hp : Progress s t) : t.Backed f := by
  unfold Backed at h ⊢
  cases hphase : f.phase with
  | received | inserting claimedAt | selecting claimedAt | acknowledging => trivial
  | reclaiming claimedAt | claimed | executing renewal =>
    rw [hphase] at h
    exact h.grows hp.grows
  | executed event =>
    rw [hphase] at h
    obtain ⟨hmatches, outcome, hran, hevent⟩ := h
    exact ⟨hmatches.grows hp.grows, outcome, hp.ran _ hran, hevent⟩
  | replaying =>
    rw [hphase] at h
    obtain ⟨hmatches, r, hr, hst⟩ := h
    obtain ⟨r', hr', hkeeps⟩ := hp.grows _ r hr
    exact ⟨hmatches.grows hp.grows, r', hr', (hkeeps.decided hst).1⟩
  | recorded event | published event =>
    rw [hphase] at h
    exact ⟨h.1, hp.grows.decision h.2⟩

/-- What a step keeps. -/
structure Carries (s t : TaskProcessing) : Prop where
  sound : Sound t
  progress : Progress s t

/-- A step that leaves every result alone. -/
theorem Sound.carry (h : Sound s) (hp : Progress s t) (hkeyed : Table.Keyed (·.taskId) t.rows)
    (hsame : ∀ id, decision? t.rows id = decision? s.rows id)
    (hdeliveries : ∀ f ∈ t.deliveries, f ∈ s.deliveries ∨ t.Backed f) : Carries s t := by
  refine ⟨⟨hkeyed, fun id d hd => ?_, fun f hf => ?_⟩, hp⟩
  · exact (h.computed id d (hsame id ▸ hd)).progress hp
  · rcases hdeliveries f hf with hold | hnew
    · exact (h.backed f hold).progress hp
    · exact hnew

theorem Sound.drop (h : Sound s) : Carries s (s.drop k) :=
  h.carry ⟨.refl _, fun _ hx => hx⟩ h.keyed (fun _ => rfl) fun _ hf => .inl (List.mem_of_mem_eraseIdx hf)

/-- One delivery moves on, with an update of the rows that leaves every result alone. -/
theorem Sound.move {rows : Rows} {phase : DeliveryPhase} (h : Sound s) (hgrows : Grows s.rows rows)
    (hkeyed : Table.Keyed (·.taskId) rows) (hsame : ∀ id, decision? rows id = decision? s.rows id)
    (hbacked : Backed { s with rows := rows } { f with phase := phase }) :
    Carries s ({ s with rows := rows }.setPhase k f phase) := by
  refine h.carry ⟨hgrows, fun _ hx => hx⟩ hkeyed hsame fun g hg => ?_
  rcases System.mem_set_cases hg with hg | rfl
  · exact .inl hg
  · exact .inr hbacked

theorem Sound.setPhase {phase : DeliveryPhase} (h : Sound s) (hbacked : s.Backed { f with phase := phase }) :
    Carries s (s.setPhase k f phase) :=
  h.move (.refl _) h.keyed (fun _ => rfl) hbacked

theorem insertStep_carries {claimedAt : Time} (h : Sound s) : Carries s (s.insertStep lease k f claimedAt) := by
  unfold insertStep
  rcases insertClaim_cases (claimedRow f.task f.worker claimedAt (claimedAt + lease)) s.rows with
    ⟨-, -, heq⟩ | ⟨hfresh, heq⟩
  · rw [heq]
    exact h.setPhase trivial
  · rw [heq]
    refine h.move grows_append (h.keyed.append hfresh) (fun _ => decision?_append rfl) ?_
    refine ⟨claimedRow f.task f.worker claimedAt (claimedAt + lease), ?_, rfl, rfl⟩
    have hnone : Table.lookup (·.taskId) f.task.taskId s.rows = none := Table.lookup_none.2 hfresh
    rw [get?, Table.lookup_append, hnone, Option.none_or]
    exact Table.lookup_single.trans (if_pos rfl)

theorem selectStep_carries {claimedAt : Time} (h : Sound s) : Carries s (s.selectStep k f claimedAt) := by
  unfold selectStep
  cases hget : get? s.rows f.task.taskId with
  | none => exact h.drop
  | some existing =>
    dsimp only
    cases hout : existingOutcome f.task existing with
    | error e => exact h.drop
    | ok found =>
      obtain ⟨he, hn, hst⟩ := existingOutcome_ok hout
      have hmatches : Matches s.rows f.task := ⟨existing, hget, he, hn⟩
      cases found with
      | none => exact h.setPhase hmatches
      | some outcome =>
        cases outcome with
        | resultRecorded => exact h.setPhase ⟨hmatches, existing, hget, by rw [hst]; decide⟩
        | alreadyCompleted | claimed | currentlyClaimed => exact h.setPhase trivial

theorem reclaimStep_carries {claimedAt : Time} (h : Sound s) (hmatches : Matches s.rows f.task) :
    Carries s (s.reclaimStep lease k f claimedAt) := by
  have hgrows : Grows s.rows (reclaim f.task f.worker claimedAt (claimedAt + lease) s.rows).2 := reclaim_grows hmatches
  refine h.move hgrows (h.keyed.updateWhere fun _ => rfl) (fun _ => decision?_reclaim) ?_
  split
  · exact hmatches.grows hgrows
  · trivial

theorem finishStep_carries {renewal : Renewal} (h : Sound s) (hmatches : Matches s.rows f.task) :
    Carries s (s.finishStep k f renewal outcome) := by
  unfold finishStep
  split
  · exact h.drop
  · refine h.carry ⟨.refl _, fun _ hx => List.mem_append_left _ hx⟩ h.keyed (fun _ => rfl) fun g hg => ?_
    rcases System.mem_set_cases hg with hg | rfl
    · exact .inl hg
    · refine .inr ⟨hmatches, outcome, List.mem_append_right _ (List.mem_singleton.2 rfl), ?_⟩
      cases outcome <;> rfl

/-- A recorded row keeps the result of its event. -/
theorem recordedRow_decision {r : TaskProcessingRecord} (hbuilt : event.Built) (he : r.executionId = event.executionId)
    (hn : r.nodeId = event.nodeId) : (recordedRow event r).decision? = some event.decision := by
  cases hbuilt with
  | completed status message type =>
    simp [TaskProcessingRecord.decision?, recordedRow, TaskCompletionEvent.decision, status, message, type, he, hn]
  | failed status output message type =>
    simp [TaskProcessingRecord.decision?, recordedRow, TaskCompletionEvent.decision, status, message, type,
      output, he, hn]

theorem recordStep_carries (h : Sound s) (hmatches : Matches s.rows f.task)
    (hran : ∃ outcome, (f.task, outcome) ∈ s.ran ∧ event = completionEvent f.task event.eventId outcome) :
    Carries s (s.recordStep k f event) := by
  unfold recordStep
  split
  · rename_i rows hrows
    obtain ⟨outcome, hran, hevent⟩ := hran
    have hreports : event.Reports f.task := hevent ▸ System.completionEvent_reports
    have hbuilt : event.Built := hevent ▸ System.completionEvent_built
    obtain ⟨hgrows, hkeyed, ⟨r, hr, -, hrecorded⟩, hothers⟩ := recordResult_ok h.keyed hrows
    have hdecision : decision? rows event.taskId = some event.decision := by
      obtain ⟨r', hr', he, hn⟩ := hmatches
      rw [hreports.taskId] at hr
      obtain rfl : r = r' := Option.some.inj (hr.symm.trans hr')
      rw [decision?, hrecorded, Option.bind_some]
      exact recordedRow_decision hbuilt (he.trans hreports.executionId.symm) (hn.trans hreports.nodeId.symm)
    refine ⟨⟨hkeyed, fun id d hd => ?_, fun g hg => ?_⟩, hgrows, fun _ hx => hx⟩
    · by_cases hid : id = event.taskId
      · subst hid
        obtain rfl := Option.some.inj (hdecision.symm.trans hd)
        exact ⟨f.task, outcome, hran, hreports.taskId.symm, congrArg TaskCompletionEvent.decision hevent⟩
      · have hsame : decision? rows id = decision? s.rows id := by rw [decision?, hothers id hid, decision?]
        exact (h.computed id d (hsame.symm.trans hd)).progress ⟨hgrows, fun _ hx => hx⟩
    · rcases System.mem_set_cases hg with hg | rfl
      · exact (h.backed g hg).progress ⟨hgrows, fun _ hx => hx⟩
      · exact ⟨hreports.taskId, hdecision⟩
  · exact h.drop

theorem replayStep_carries (h : Sound s) (hmatches : Matches s.rows f.task)
    (hrecorded : ∃ r, get? s.rows f.task.taskId = some r ∧ r.status ≠ .claimed) : Carries s (s.replayStep k f) := by
  unfold replayStep
  split
  · rename_i event hevent
    obtain ⟨r, hr, hst⟩ := hrecorded
    obtain ⟨r', hr', he, hn⟩ := hmatches
    obtain rfl : r = r' := Option.some.inj (hr.symm.trans hr')
    obtain ⟨result, hresult, hevent⟩ := Except.bind_eq_ok.1 hevent
    rw [getResult, hr] at hresult
    cases hid : r.completionEventId with
    | none => simp [hid] at hresult
    | some eventId =>
      simp only [hid, Except.ok.injEq] at hresult
      subst hresult
      have hd : decision? s.rows f.task.taskId = some ⟨r.executionId, r.nodeId, eventId,
          if r.errorMessage.isSome then .failed else .completed, r.resultData, r.errorMessage, r.errorType⟩ := by
        rw [decision?, hr, Option.bind_some, TaskProcessingRecord.decision?, if_neg hst, hid, Option.map_some]
      obtain ⟨m, outcome, -, -, hcomputed⟩ := h.computed _ _ hd
      refine h.setPhase ?_
      unfold eventFromResult at hevent
      cases outcome with
      | success output =>
        simp only [completionEvent, TaskCompletionEvent.decision, TaskDecision.mk.injEq] at hcomputed
        obtain ⟨-, -, -, -, -, hmessage, htype⟩ := hcomputed
        simp only [hmessage, htype, Except.ok.injEq] at hevent
        subst hevent
        refine ⟨rfl, hd.trans ?_⟩
        simp [completionEvent, TaskCompletionEvent.decision, hmessage, htype, he, hn]
      | failure message type =>
        simp only [completionEvent, TaskCompletionEvent.decision, TaskDecision.mk.injEq] at hcomputed
        obtain ⟨-, -, -, -, hdata, hmessage, htype⟩ := hcomputed
        simp only [hmessage, htype, Except.ok.injEq] at hevent
        subst hevent
        refine ⟨rfl, hd.trans ?_⟩
        simp [completionEvent, TaskCompletionEvent.decision, hmessage, htype, hdata, he, hn]
  · exact h.drop

theorem markStep_carries (h : Sound s) : Carries s (s.markStep k f event) := by
  unfold markStep
  split
  · rename_i rows hrows
    obtain ⟨hgrows, hkeyed⟩ := markCompleted_ok hrows
    exact h.move hgrows (hkeyed h.keyed) (fun _ => decision?_markCompleted hrows) trivial
  · exact h.drop

theorem work_carries (h : Sound s) (hstep : s.work lease k outcome = some t) : Carries s t := by
  obtain ⟨f, hf, rfl⟩ := Option.map_eq_some_iff.1 hstep
  have hbacked := h.backed f (List.mem_of_getElem? hf)
  unfold Backed at hbacked
  cases hphase : f.phase with
  | received => exact h.setPhase trivial
  | inserting claimedAt => exact insertStep_carries h
  | selecting claimedAt => exact selectStep_carries h
  | reclaiming claimedAt =>
    rw [hphase] at hbacked
    exact reclaimStep_carries h hbacked
  | claimed =>
    rw [hphase] at hbacked
    exact h.setPhase hbacked
  | executing renewal =>
    rw [hphase] at hbacked
    exact finishStep_carries h hbacked
  | executed event =>
    rw [hphase] at hbacked
    exact recordStep_carries h hbacked.1 hbacked.2
  | replaying =>
    rw [hphase] at hbacked
    exact replayStep_carries h hbacked.1 hbacked.2
  | recorded event =>
    rw [hphase] at hbacked
    refine h.carry ⟨.refl _, fun _ hx => hx⟩ h.keyed (fun _ => rfl) fun g hg => ?_
    rcases System.mem_set_cases hg with hg | rfl
    · exact .inl hg
    · exact .inr hbacked
  | published event => exact markStep_carries h
  | acknowledging =>
    exact h.carry ⟨.refl _, fun _ hx => hx⟩ h.keyed (fun _ => rfl) fun _ hf => .inl (List.mem_of_mem_eraseIdx hf)

/-- A renewal reads the clock, or it updates the row. -/
theorem renew_cases (hstep : s.renew lease k = some t) : ∃ f, s.deliveries[k]? = some f ∧
    ((f.phase = .executing .sleeping ∧ t = s.setPhase k f (.executing (.renewing s.now))) ∨
      ∃ readAt, f.phase = .executing (.renewing readAt) ∧ t = s.renewStep lease k f readAt) := by
  unfold renew at hstep
  split at hstep
  · cases hstep
  · rename_i f hf
    split at hstep
    · rename_i hphase
      cases hstep
      exact ⟨f, hf, .inl ⟨hphase, rfl⟩⟩
    · rename_i readAt hphase
      cases hstep
      exact ⟨f, hf, .inr ⟨readAt, hphase, rfl⟩⟩
    · cases hstep

theorem renew_carries (h : Sound s) (hstep : s.renew lease k = some t) : Carries s t := by
  obtain ⟨f, hf, hcases⟩ := renew_cases hstep
  have hbacked := h.backed f (List.mem_of_getElem? hf)
  rcases hcases with ⟨hphase, rfl⟩ | ⟨readAt, hphase, rfl⟩
  · rw [Backed, hphase] at hbacked
    exact h.setPhase hbacked
  · rw [Backed, hphase] at hbacked
    exact h.move renewClaim_grows (h.keyed.updateWhere fun _ => rfl) (fun _ => decision?_renewClaim)
      (hbacked.grows renewClaim_grows)

theorem step_carries (h : Sound s) (hstep : step lease s a = some t) : Carries s t := by
  cases a with
  | publish task =>
    cases hstep
    exact h.carry ⟨.refl _, fun _ hx => hx⟩ h.keyed (fun _ => rfl) fun _ hf => .inl hf
  | deliver worker index =>
    simp only [step] at hstep
    split at hstep
    · cases hstep
    · split at hstep
      · cases hstep
      · cases hstep
        refine h.carry ⟨.refl _, fun _ hx => hx⟩ h.keyed (fun _ => rfl) fun g hg => ?_
        rcases List.mem_append.1 hg with hg | hg
        · exact .inl hg
        · obtain rfl := List.mem_singleton.1 hg
          exact .inr trivial
  | work k outcome => exact work_carries h hstep
  | renew k => exact renew_carries h hstep
  | crash k =>
    obtain ⟨-, heq⟩ := Option.ite_none_right_eq_some.1 hstep
    cases heq
    exact h.drop
  | tick elapsed =>
    cases hstep
    exact h.carry ⟨.refl _, fun _ hx => hx⟩ h.keyed (fun _ => rfl) fun _ hf => .inl hf

theorem sound_init : Sound init := by
  refine ⟨List.nodup_nil, fun _ _ hd => ?_, fun _ hf => ?_⟩
  · cases hd
  · cases hf

theorem reachable_sound (h : Reachable lease s) : Sound s :=
  Transition.Reachable.invariant sound_init (fun _ _ _ _ hs _ ht => (step_carries hs ht).sound) h

/-! ## One result -/

/-- Only the publication step publishes, and what it publishes has been recorded. -/
theorem work_completions (hstep : s.work lease k outcome = some t) : t.completions = s.completions ∨
    ∃ f event, s.deliveries[k]? = some f ∧ f.phase = .recorded event ∧ t.completions = s.completions ++ [event] := by
  obtain ⟨f, hf, rfl⟩ := Option.map_eq_some_iff.1 hstep
  cases hphase : f.phase with
  | recorded event => exact .inr ⟨f, event, hf, hphase, rfl⟩
  | received | inserting claimedAt | reclaiming claimedAt | claimed | acknowledging => exact .inl rfl
  | selecting claimedAt =>
    left
    dsimp only [selectStep]
    split
    · rfl
    · split <;> rfl
  | executing renewal =>
    left
    dsimp only [finishStep]
    split <;> rfl
  | executed event =>
    left
    dsimp only [recordStep]
    split <;> rfl
  | replaying =>
    left
    dsimp only [replayStep]
    split <;> rfl
  | published event =>
    left
    dsimp only [markStep]
    split <;> rfl

theorem step_completions (hstep : step lease s a = some t) : t.completions = s.completions ∨
    ∃ (k : Nat) (f : Delivery) (event : TaskCompletionEvent), s.deliveries[k]? = some f ∧ f.phase = .recorded event ∧
      t.completions = s.completions ++ [event] := by
  cases a with
  | work k outcome =>
    rcases work_completions hstep with heq | ⟨f, event, hf, hphase, heq⟩
    · exact .inl heq
    · exact .inr ⟨k, f, event, hf, hphase, heq⟩
  | publish task =>
    cases hstep
    exact .inl rfl
  | deliver worker index =>
    simp only [step] at hstep
    split at hstep
    · cases hstep
    · split at hstep
      · cases hstep
      · cases hstep
        exact .inl rfl
  | renew k =>
    obtain ⟨f, -, ⟨-, rfl⟩ | ⟨readAt, -, rfl⟩⟩ := renew_cases hstep
    · exact .inl rfl
    · exact .inl rfl
  | crash k =>
    obtain ⟨-, heq⟩ := Option.ite_none_right_eq_some.1 hstep
    cases heq
    exact .inl rfl
  | tick elapsed =>
    cases hstep
    exact .inl rfl

/-- The rows are write-once registers of results, and a publication reads one of them. -/
theorem registers (lease : Time) :
    WriteOnce.Registers (step lease) (fun _ _ => True) init (fun s => decision? s.rows) publications where
  start := rfl
  keeps s a t hs _ ht := fun _ _ hd => (step_carries (reachable_sound hs) ht).progress.grows.decision hd
  observes s a t hs _ ht o ho := by
    have hsound := reachable_sound hs
    rcases step_completions ht with heq | ⟨k, f, event, hf, hphase, heq⟩
    · exact .inl (by rwa [publications, heq] at ho)
    · rw [publications, heq, List.map_append, List.mem_append] at ho
      refine ho.imp id fun ho => ?_
      obtain rfl := List.mem_singleton.1 ho
      have hbacked := hsound.backed f (List.mem_of_getElem? hf)
      rw [Backed, hphase] at hbacked
      exact (step_carries hsound ht).progress.grows.decision hbacked.2

/-- A task has one result. Whatever is published for it, in this state or later, by any worker and
for any of its attempts, is the result in its row, and this is the outcome of a handler that was
run for the task. -/
theorem one_result_per_task (h : Reachable lease s) (hpublished : event ∈ s.completions) :
    s.Computed event.taskId event.decision ∧ ∀ t, Later lease s t →
      decision? t.rows event.taskId = some event.decision ∧
        ∀ event' ∈ t.completions, event'.taskId = event.taskId → event'.decision = event.decision := by
  have hvalue : decision? s.rows event.taskId = some event.decision :=
    (registers lease).holds h _ (List.mem_map_of_mem (f := fun event => (event.taskId, event.decision)) hpublished)
  refine ⟨(reachable_sound h).computed _ _ hvalue, fun t ht => ⟨(registers lease).extends h ht _ _ hvalue, ?_⟩⟩
  intro event' hevent' hid
  exact (registers lease).final h hvalue ht (List.mem_map.2 ⟨event', hevent', by rw [hid]⟩)

/-- Two workers execute the task: the lease of the first one runs out, and the second one is the
first to record a result. -/
def takenOver : TaskProcessing :=
  init.after 300 (([.publish ⟨.v4 1, .v4 2, 1, .v4 3, "fetch", "input", [], []⟩, .deliver "first" 0,
      .work 0 (.success .null), .work 0 (.success .null), .work 0 (.success .null), .tick 400,
      .deliver "second" 0] : List Action) ++
    List.replicate 8 (Action.work 1 (.success (.int 2))) ++ List.replicate 2 (Action.work 0 (.success (.int 1))))

/-- The second one crashes before it acknowledges, and the entry of a later attempt comes as well. -/
def replayed : TaskProcessing :=
  takenOver.after 300 (([.crash 0, .publish ⟨.v4 1, .v4 4, 2, .v4 3, "fetch", "input", [], []⟩,
    .deliver "third" 1] : List Action) ++
    List.replicate 7 (Action.work 0 (.success (.int 3))))

theorem one_result_per_task_replayed : replayed.completions.length = 2 ∧
    ∀ event ∈ replayed.completions, event.taskId = .v4 1 →
      event.decision = ⟨.v4 3, "fetch", .v4 0, .completed, .int 2, none, none⟩ :=
  ⟨by decide +kernel,
    ((@one_result_per_task 300 takenOver ⟨.v4 0, .v4 1, .v4 2, 1, .v4 3, "fetch", .completed, .int 2, none, none⟩
      (later_after 300 init _) (by decide +kernel)).2 replayed (later_after 300 takenOver _)).2⟩

/-! ## The claim -/

/-- Nobody is between a claim of the task and its result. -/
def Idle (s : TaskProcessing) (taskId : Uuid) : Prop :=
  ∀ f ∈ s.deliveries, f.task.taskId = taskId → f.phase.holdsClaim = false

/-- How often a handler of the task has ended. -/
def executions (s : TaskProcessing) (taskId : Uuid) : Nat := s.ran.countP fun m => decide (m.1.taskId = taskId)

/-- A step after which the task is still idle and no handler of it has ended. -/
structure Rests (s t : TaskProcessing) (taskId : Uuid) : Prop where
  idle : t.Idle taskId
  executions : t.executions taskId = s.executions taskId

theorem Idle.erase (h : s.Idle taskId) : (s.drop k).Idle taskId :=
  fun f hf => h f (List.mem_of_mem_eraseIdx hf)

theorem Idle.set {phase : DeliveryPhase} (h : s.Idle taskId)
    (hphase : f.task.taskId = taskId → phase.holdsClaim = false) : (s.setPhase k f phase).Idle taskId := by
  intro g hg hid
  rcases System.mem_set_cases hg with hg | rfl
  · exact h g hg hid
  · exact hphase hid

/-- A task with a result is not claimed. -/
theorem reclaim_decided (hkeyed : Table.Keyed (·.taskId) s.rows) (hdecided : decision? s.rows taskId = some d)
    {worker : String} {claimedAt expires : Time} (hid : f.task.taskId = taskId) :
    (reclaim f.task worker claimedAt expires s.rows).1 = false := by
  refine Bool.eq_false_iff.2 fun hany => ?_
  obtain ⟨r, hr, hp⟩ := (hkeyed.any_iff fun r hp => (expiredClaim_iff.1 hp).1).1 hany
  rw [decision?, ← hid, show get? s.rows f.task.taskId = some r from hr, Option.bind_some,
    decision?_of_claimed (expiredClaim_iff.1 hp).2.1] at hdecided
  cases hdecided

theorem work_rests (h : Sound s) (hdecided : decision? s.rows taskId = some d) (hidle : s.Idle taskId)
    (hstep : s.work lease k outcome = some t) : Rests s t taskId := by
  obtain ⟨f, hf, rfl⟩ := Option.map_eq_some_iff.1 hstep
  have hclaim := hidle f (List.mem_of_getElem? hf)
  cases hphase : f.phase with
  | received => exact ⟨hidle.set fun _ => rfl, rfl⟩
  | inserting claimedAt =>
    refine ⟨?_, rfl⟩
    dsimp only [insertStep]
    rcases insertClaim_cases (claimedRow f.task f.worker claimedAt (claimedAt + lease)) s.rows with
      ⟨-, -, heq⟩ | ⟨hfresh, heq⟩
    · rw [heq]
      exact Idle.set (s := { s with rows := s.rows }) hidle fun _ => rfl
    · rw [heq]
      refine Idle.set (s := { s with rows := s.rows ++ [_] }) hidle fun hid => ?_
      obtain ⟨r, hr, -⟩ := Option.bind_eq_some_iff.1 hdecided
      exact absurd ((get?_id hr).trans hid.symm) (hfresh r (Table.lookup_some hr).1)
  | selecting claimedAt =>
    dsimp only [selectStep]
    split
    · exact ⟨hidle.erase, rfl⟩
    · split
      · exact ⟨hidle.erase, rfl⟩
      · exact ⟨hidle.set fun _ => rfl, rfl⟩
      · exact ⟨hidle.set fun _ => rfl, rfl⟩
      · exact ⟨hidle.set fun _ => rfl, rfl⟩
  | reclaiming claimedAt =>
    refine ⟨?_, rfl⟩
    dsimp only [reclaimStep]
    refine Idle.set (s := { s with rows := _ }) hidle fun hid => ?_
    rw [reclaim_decided h.keyed hdecided hid]
    rfl
  | claimed =>
    rw [hphase] at hclaim
    exact ⟨hidle.set fun hid => absurd (hclaim hid) (by decide), rfl⟩
  | executing renewal =>
    rw [hphase] at hclaim
    dsimp only [finishStep]
    split
    · exact ⟨hidle.erase, rfl⟩
    · refine ⟨Idle.set (s := { s with draws := _, ran := _ }) hidle fun hid =>
        absurd (hclaim hid) (by simp [DeliveryPhase.holdsClaim]), ?_⟩
      have hother : ¬ f.task.taskId = taskId := fun hid => absurd (hclaim hid) (by simp [DeliveryPhase.holdsClaim])
      simp [executions, setPhase, List.countP_append, hother]
  | executed event =>
    dsimp only [recordStep]
    split
    · exact ⟨Idle.set (s := { s with rows := _ }) hidle fun _ => rfl, rfl⟩
    · exact ⟨hidle.erase, rfl⟩
  | replaying =>
    dsimp only [replayStep]
    split
    · exact ⟨hidle.set fun _ => rfl, rfl⟩
    · exact ⟨hidle.erase, rfl⟩
  | recorded event => exact ⟨Idle.set (s := { s with completions := _ }) hidle fun _ => rfl, rfl⟩
  | published event =>
    dsimp only [markStep]
    split
    · exact ⟨Idle.set (s := { s with rows := _ }) hidle fun _ => rfl, rfl⟩
    · exact ⟨hidle.erase, rfl⟩
  | acknowledging => exact ⟨Idle.erase (s := { s with acknowledged := _ }) hidle, rfl⟩

theorem step_rests (h : Sound s) (hdecided : decision? s.rows taskId = some d) (hidle : s.Idle taskId)
    (hstep : step lease s a = some t) : Rests s t taskId := by
  cases a with
  | work k outcome => exact work_rests h hdecided hidle hstep
  | publish task =>
    cases hstep
    exact ⟨hidle, rfl⟩
  | deliver worker index =>
    simp only [step] at hstep
    split at hstep
    · cases hstep
    · split at hstep
      · cases hstep
      · cases hstep
        refine ⟨fun g hg hid => ?_, rfl⟩
        rcases List.mem_append.1 hg with hg | hg
        · exact hidle g hg hid
        · rw [List.mem_singleton.1 hg]
          rfl
  | renew k =>
    obtain ⟨f, hf, hcases⟩ := renew_cases hstep
    have hclaim := hidle f (List.mem_of_getElem? hf)
    rcases hcases with ⟨hphase, rfl⟩ | ⟨readAt, hphase, rfl⟩
    · rw [hphase] at hclaim
      exact ⟨hidle.set hclaim, rfl⟩
    · rw [hphase] at hclaim
      exact ⟨Idle.set (s := { s with rows := _ }) hidle hclaim, rfl⟩
  | crash k =>
    obtain ⟨-, heq⟩ := Option.ite_none_right_eq_some.1 hstep
    cases heq
    exact ⟨hidle.erase, rfl⟩
  | tick elapsed =>
    cases hstep
    exact ⟨hidle, rfl⟩

/-- Once a task has its result and nobody is between a claim and a result any more, no handler of
it is ever started again, whatever is delivered: another entry of the same attempt, or the entry
of a later attempt of the task. -/
theorem decided_task_rests (h : Reachable lease s) (hdecided : decision? s.rows taskId = some d)
    (hidle : s.Idle taskId) (hlater : Later lease s t) : Rests s t taskId := by
  induction hlater with
  | start => exact ⟨hidle, rfl⟩
  | next a hu _ hstep ih =>
    have hreached := h.trans hu
    have hstill := (registers lease).extends h hu taskId d hdecided
    obtain ⟨hidle', hsame⟩ := step_rests (reachable_sound hreached) hstill ih.idle hstep
    exact ⟨hidle', hsame.trans ih.executions⟩

theorem decided_task_rests_replayed : Rests takenOver replayed (.v4 1) :=
  decided_task_rests (d := ⟨.v4 3, "fetch", .v4 0, .completed, .int 2, none, none⟩) (later_after 300 init _)
    (by decide +kernel) (by unfold Idle; decide +kernel) (later_after 300 takenOver _)

/-! ## Leases -/

/-- How a step changes the rows. -/
inductive RowsStep (lease : Time) (s : TaskProcessing) : Rows → Prop where
  | same : RowsStep lease s s.rows
  | insert {f : Delivery} {claimedAt : Time} (delivery : f ∈ s.deliveries) (phase : f.phase = .inserting claimedAt)
      (fresh : ∀ r ∈ s.rows, r.taskId ≠ f.task.taskId) :
      RowsStep lease s (s.rows ++ [claimedRow f.task f.worker claimedAt (claimedAt + lease)])
  | reclaim {f : Delivery} {claimedAt : Time} (delivery : f ∈ s.deliveries) (phase : f.phase = .reclaiming claimedAt) :
      RowsStep lease s (TaskProcessingRepository.reclaim f.task f.worker claimedAt (claimedAt + lease) s.rows).2
  | record {event : TaskCompletionEvent} {rows : Rows}
      (recorded : recordResult event.taskId event.eventId event.outputData event.errorMessage event.errorType s.rows =
        .ok rows) :
      RowsStep lease s rows
  | mark {taskId : Uuid} {rows : Rows} (marked : markCompleted taskId s.now s.rows = .ok rows) : RowsStep lease s rows
  | renew {f : Delivery} {readAt : Time} (delivery : f ∈ s.deliveries)
      (phase : f.phase = .executing (.renewing readAt)) :
      RowsStep lease s (renewClaim f.task.taskId f.worker (readAt + lease) s.rows).2

/-- What a delivery after a step of `s` knows of the clock: nothing, the present, or what a claim has read. -/
inductive Reads (s : TaskProcessing) (g : Delivery) : Prop where
  | kept (delivery : g ∈ s.deliveries)
  | nothing (phase : g.phase.readAt = none)
  | present (phase : g.phase.readAt = some s.now)
  | claim {f : Delivery} {claimedAt : Time} (delivery : f ∈ s.deliveries) (read : f.phase.readAt = some claimedAt)
      (phase : g.phase = .selecting claimedAt ∨ g.phase = .reclaiming claimedAt)

structure Effect (lease : Time) (s t : TaskProcessing) : Prop where
  rows : RowsStep lease s t.rows
  now : s.now ≤ t.now
  reads : ∀ g ∈ t.deliveries, Reads s g

/-- One delivery moves on. -/
theorem Effect.move (rows : RowsStep lease s t.rows) (now : t.now = s.now)
    (deliveries : t.deliveries = s.deliveries.set k f) (h : Reads s f) : Effect lease s t := by
  refine ⟨rows, now.ge, fun g hg => ?_⟩
  rw [deliveries] at hg
  rcases System.mem_set_cases hg with hg | rfl
  · exact .kept hg
  · exact h

theorem Effect.drop : Effect lease s (s.drop k) :=
  ⟨.same, le_rfl, fun _ hg => .kept (List.mem_of_mem_eraseIdx hg)⟩

theorem Effect.set {phase : DeliveryPhase} (h : Reads s { f with phase := phase }) :
    Effect lease s (s.setPhase k f phase) :=
  .move .same rfl rfl h

theorem insertStep_effect {claimedAt : Time} (hmem : f ∈ s.deliveries) (hphase : f.phase = .inserting claimedAt) :
    Effect lease s (s.insertStep lease k f claimedAt) := by
  unfold insertStep
  rcases insertClaim_cases (claimedRow f.task f.worker claimedAt (claimedAt + lease)) s.rows with
    ⟨-, -, heq⟩ | ⟨hfresh, heq⟩
  · rw [heq]
    exact .set (.claim hmem (by rw [hphase]; rfl) (.inl rfl))
  · rw [heq]
    exact .move (.insert hmem hphase hfresh) rfl rfl (.nothing rfl)

theorem work_effect (hstep : s.work lease k outcome = some t) : Effect lease s t := by
  obtain ⟨f, hf, rfl⟩ := Option.map_eq_some_iff.1 hstep
  have hmem := List.mem_of_getElem? hf
  cases hphase : f.phase with
  | received => exact .set (.present rfl)
  | inserting claimedAt => exact insertStep_effect hmem hphase
  | selecting claimedAt =>
    dsimp only [selectStep]
    split
    · exact .drop
    · split
      · exact .drop
      · exact .set (.claim hmem (by rw [hphase]; rfl) (.inr rfl))
      · exact .set (.nothing rfl)
      · exact .set (.nothing rfl)
  | reclaiming claimedAt =>
    dsimp only [reclaimStep]
    refine .move (.reclaim hmem hphase) rfl rfl (.nothing ?_)
    dsimp only
    split <;> rfl
  | claimed => exact .set (.nothing rfl)
  | executing renewal =>
    dsimp only [finishStep]
    split
    · exact .drop
    · exact .move .same rfl rfl (.nothing rfl)
  | executed event =>
    dsimp only [recordStep]
    split
    · exact .move (.record ‹_›) rfl rfl (.nothing rfl)
    · exact .drop
  | replaying =>
    dsimp only [replayStep]
    split
    · exact .set (.nothing rfl)
    · exact .drop
  | recorded event => exact .move .same rfl rfl (.nothing rfl)
  | published event =>
    dsimp only [markStep]
    split
    · exact .move (.mark ‹_›) rfl rfl (.nothing rfl)
    · exact .drop
  | acknowledging => exact ⟨.same, le_rfl, fun _ hg => .kept (List.mem_of_mem_eraseIdx hg)⟩

theorem renew_effect (hstep : s.renew lease k = some t) : Effect lease s t := by
  obtain ⟨f, hf, ⟨-, rfl⟩ | ⟨readAt, hphase, rfl⟩⟩ := renew_cases hstep
  · exact .set (.present rfl)
  · refine .move (.renew (List.mem_of_getElem? hf) hphase) rfl rfl (.nothing ?_)
    dsimp only
    split <;> rfl

theorem step_effect (hstep : step lease s a = some t) : Effect lease s t := by
  cases a with
  | work k outcome => exact work_effect hstep
  | publish task =>
    cases hstep
    exact ⟨.same, le_rfl, fun _ hg => .kept hg⟩
  | deliver worker index =>
    simp only [step] at hstep
    split at hstep
    · cases hstep
    · split at hstep
      · cases hstep
      · cases hstep
        refine ⟨.same, le_rfl, fun g hg => ?_⟩
        rcases List.mem_append.1 hg with hg | hg
        · exact .kept hg
        · exact .nothing (by rw [List.mem_singleton.1 hg]; rfl)
  | renew k => exact renew_effect hstep
  | crash k =>
    obtain ⟨-, heq⟩ := Option.ite_none_right_eq_some.1 hstep
    cases heq
    exact .drop
  | tick elapsed =>
    cases hstep
    exact ⟨.same, by simp, fun _ hg => .kept hg⟩

/-- The clock was read, and leases were given, in the past. -/
structure Timed (lease : Time) (s : TaskProcessing) : Prop where
  reads : ∀ f ∈ s.deliveries, ∀ readAt, f.phase.readAt = some readAt → readAt ≤ s.now
  leases : ∀ r ∈ s.rows, ∀ expires, r.claimExpiresAt = some expires → expires ≤ s.now + lease

/-- The lease of a row is the one it had, or one from an instant that a claim or a renewal has read. -/
theorem Effect.expires (h : Effect lease s t) {r : TaskProcessingRecord} (hr : r ∈ t.rows) {expires : Time}
    (hexpires : r.claimExpiresAt = some expires) : (∃ r₀ ∈ s.rows, r₀.claimExpiresAt = some expires) ∨
      ∃ f ∈ s.deliveries, ∃ readAt, f.phase.readAt = some readAt ∧ expires = readAt + lease := by
  have hupdate : ∀ {p : TaskProcessingRecord → Bool} {g : TaskProcessingRecord → TaskProcessingRecord},
      r ∈ Table.updateWhere p g s.rows → (∃ r₀ ∈ s.rows, r₀.claimExpiresAt = some expires) ∨
        ∃ r₀ ∈ s.rows, (g r₀).claimExpiresAt = some expires := by
    intro p g hr
    obtain ⟨r₀, hr₀, heq⟩ := Table.mem_updateWhere.1 hr
    split at heq
    · exact .inr ⟨r₀, hr₀, heq ▸ hexpires⟩
    · exact .inl ⟨r₀, hr₀, heq ▸ hexpires⟩
  have hrows := h.rows
  generalize t.rows = rows at hrows hr
  cases hrows with
  | same => exact .inl ⟨r, hr, hexpires⟩
  | @insert f claimedAt delivery phase =>
    rcases List.mem_append.1 hr with hr | hr
    · exact .inl ⟨r, hr, hexpires⟩
    · rw [List.mem_singleton.1 hr] at hexpires
      exact .inr ⟨f, delivery, claimedAt, by rw [phase]; rfl, (Option.some.inj hexpires).symm⟩
  | @reclaim f claimedAt delivery phase =>
    rcases hupdate hr with hold | ⟨r₀, -, hnew⟩
    · exact .inl hold
    · exact .inr ⟨f, delivery, claimedAt, by rw [phase]; rfl, (Option.some.inj hnew).symm⟩
  | record recorded =>
    unfold recordResult at recorded
    split at recorded
    · cases recorded
      exact .inl ((hupdate hr).elim id id)
    · cases recorded
  | mark marked =>
    unfold markCompleted at marked
    split at marked
    · cases marked
      rcases hupdate hr with hold | ⟨r₀, -, hnew⟩
      · exact .inl hold
      · cases hnew
    · cases marked
  | @renew f readAt delivery phase =>
    rcases hupdate hr with hold | ⟨r₀, -, hnew⟩
    · exact .inl hold
    · exact .inr ⟨f, delivery, readAt, by rw [phase]; rfl, (Option.some.inj hnew).symm⟩

theorem Reads.past (h : Reads s g) (hs : Timed lease s) {readAt : Time} (hread : g.phase.readAt = some readAt) :
    readAt ≤ s.now := by
  cases h with
  | kept delivery => exact hs.reads g delivery readAt hread
  | nothing phase =>
    rw [phase] at hread
    cases hread
  | present phase =>
    rw [phase] at hread
    cases hread
    exact le_rfl
  | claim delivery read phase =>
    rcases phase with phase | phase <;>
      · rw [phase] at hread
        cases hread
        exact hs.reads _ delivery _ read

theorem Effect.timed (h : Effect lease s t) (hs : Timed lease s) : Timed lease t := by
  have hnow := h.now
  refine ⟨fun g hg readAt hread => ((h.reads g hg).past hs hread).trans hnow, fun r hr expires hexpires => ?_⟩
  rcases h.expires hr hexpires with ⟨r₀, hr₀, hold⟩ | ⟨f, hf, readAt, hread, rfl⟩
  · exact (hs.leases r₀ hr₀ expires hold).trans (Int.add_le_add_right hnow lease)
  · exact Int.add_le_add_right ((hs.reads f hf readAt hread).trans hnow) lease

theorem reachable_timed (h : Reachable lease s) : Timed lease s :=
  Transition.Reachable.invariant ⟨fun _ hf => (by cases hf), fun _ hr => (by cases hr)⟩
    (fun _ _ _ _ hs _ ht => (step_effect ht).timed hs) h

/-- The row is the worker's claim, at least until then. -/
def ClaimedUntil (r : TaskProcessingRecord) (worker : String) (expires : Time) : Prop :=
  r.claimedBy = some worker ∧ ∃ expires', r.claimExpiresAt = some expires' ∧ expires ≤ expires'

/-- No renewal of the worker's for the task that has read the clock gives a lease that ends sooner. -/
def RenewsUntil (lease : Time) (s : TaskProcessing) (taskId : Uuid) (worker : String) (expires : Time) : Prop :=
  ∀ f ∈ s.deliveries, f.worker = worker → f.task.taskId = taskId →
    ∀ readAt, f.phase = .executing (.renewing readAt) → expires ≤ readAt + lease

/-- As long as the task is claimed, it is claimed by this worker, at least until then, and no renewal that
is under way shortens this. -/
def HeldBy (lease : Time) (s : TaskProcessing) (taskId : Uuid) (worker : String) (expires : Time) : Prop :=
  ∃ r, get? s.rows taskId = some r ∧
    (r.status = .claimed → ClaimedUntil r worker expires ∧ s.RenewsUntil lease taskId worker expires)

section HeldBy

variable {worker : String} {expires : Time} {r : TaskProcessingRecord}

/-- The row of the task afterwards is as good a claim as before. -/
def StillClaimed (t : TaskProcessing) (r : TaskProcessingRecord) (taskId : Uuid) (worker : String) (expires : Time) :
    Prop :=
  ∃ r', get? t.rows taskId = some r' ∧ (r'.status = .claimed → r.status = .claimed ∧ ClaimedUntil r' worker expires)

theorem StillClaimed.of_update {p : TaskProcessingRecord → Bool} {g : TaskProcessingRecord → TaskProcessingRecord}
    (hr : get? s.rows taskId = some r) (hclaim : r.status = .claimed → ClaimedUntil r worker expires)
    (ht : t.rows = Table.updateWhere p g s.rows) (hg : ∀ r, (g r).taskId = r.taskId)
    (hkeeps : p r = true → (g r).status = .claimed → r.status = .claimed ∧ ClaimedUntil (g r) worker expires) :
    t.StillClaimed r taskId worker expires := by
  refine ⟨if p r then g r else r, by rw [ht, get?_updateWhere hg, hr]; rfl, ?_⟩
  split
  · rename_i hp
    exact hkeeps hp
  · exact fun hst => ⟨hst, hclaim hst⟩

/-- Nobody takes a claim over whose lease has not run out, and no renewal shortens it. -/
theorem Effect.stillClaimed (h : Effect lease s t) (hs : Timed lease s) (hr : get? s.rows taskId = some r)
    (hheld : r.status = .claimed → ClaimedUntil r worker expires ∧ s.RenewsUntil lease taskId worker expires)
    (hnow : s.now < expires) : t.StillClaimed r taskId worker expires := by
  have hclaim : r.status = .claimed → ClaimedUntil r worker expires := fun hst => (hheld hst).1
  have hrows := h.rows
  generalize heq : t.rows = rows at hrows
  cases hrows with
  | same => exact ⟨r, heq ▸ hr, fun hst => ⟨hst, hclaim hst⟩⟩
  | insert => exact ⟨r, heq ▸ Table.lookup_append_of_some hr, fun hst => ⟨hst, hclaim hst⟩⟩
  | @reclaim f claimedAt delivery phase =>
    refine .of_update (g := fun r => { r with
      executionId := f.task.executionId, nodeId := f.task.nodeId, claimedBy := some f.worker, claimedAt := claimedAt
      claimExpiresAt := some (claimedAt + lease) }) hr hclaim heq (fun _ => rfl) fun hp _ => ?_
    obtain ⟨-, hst, expires', hexpires, hle⟩ := expiredClaim_iff.1 hp
    obtain ⟨-, expires'', hexpires', hle'⟩ := hclaim hst
    obtain rfl := Option.some.inj (hexpires.symm.trans hexpires')
    -- the claim has read the clock in the past, so the lease it found expired has run out by now
    have hpast := hs.reads f delivery claimedAt (by rw [phase]; rfl)
    exact absurd ((hle'.trans hle).trans hpast) (not_le_of_gt hnow)
  | @record event _ recorded =>
    unfold recordResult at recorded
    split at recorded
    · cases recorded
      exact .of_update (g := recordedRow event) hr hclaim heq (fun _ => rfl) fun _ hst => by cases hst
    · cases recorded
  | mark marked =>
    unfold markCompleted at marked
    split at marked
    · cases marked
      exact .of_update (g := fun r => { r with
        status := .completed, completedAt := some s.now, completionPublishedAt := some s.now, claimExpiresAt := none })
        hr hclaim heq (fun _ => rfl) fun _ hst => by cases hst
    · cases marked
  | @renew f readAt delivery phase =>
    refine .of_update (g := fun r => { r with claimExpiresAt := some (readAt + lease) }) hr hclaim heq (fun _ => rfl)
      fun hp hst => ?_
    obtain ⟨hid, -, hby⟩ := of_decide_eq_true hp
    obtain ⟨⟨hby', -⟩, hrenews⟩ := hheld hst
    have hworker : f.worker = worker := Option.some.inj (hby.symm.trans hby')
    exact ⟨hst, hby', _, rfl, hrenews f delivery hworker (hid.symm.trans (get?_id hr)) readAt phase⟩

/-- A renewal that reads the clock now gives a lease that is no shorter than any there is. -/
theorem Effect.renewsUntil (h : Effect lease s t) (hs : Timed lease s) (hr : get? s.rows taskId = some r)
    (hclaim : ClaimedUntil r worker expires) (hrenews : s.RenewsUntil lease taskId worker expires) :
    t.RenewsUntil lease taskId worker expires := by
  intro g hg hworker hid readAt hphase
  cases h.reads g hg with
  | kept delivery => exact hrenews g delivery hworker hid readAt hphase
  | nothing phase =>
    rw [hphase] at phase
    cases phase
  | present phase =>
    rw [hphase] at phase
    obtain rfl : readAt = s.now := Option.some.inj phase
    obtain ⟨-, expires', hexpires, hle⟩ := hclaim
    exact hle.trans (hs.leases r (Table.lookup_some hr).1 expires' hexpires)
  | claim _ _ phase => rcases phase with phase | phase <;> cases hphase.symm.trans phase

theorem Effect.heldBy (h : Effect lease s t) (hs : Timed lease s) (hheld : s.HeldBy lease taskId worker expires)
    (hnow : s.now < expires) : t.HeldBy lease taskId worker expires := by
  obtain ⟨r, hr, hclaim⟩ := hheld
  obtain ⟨r', hr', hstill⟩ := h.stillClaimed hs hr hclaim hnow
  refine ⟨r', hr', fun hst => ?_⟩
  obtain ⟨hclaimed, hclaim'⟩ := hstill hst
  exact ⟨hclaim', h.renewsUntil hs hr (hclaim hclaimed).1 (hclaim hclaimed).2⟩

/-- A claim is the worker's until its lease has run out: nobody else takes the task over before, whatever
is delivered to whom. A renewal counts from the instant at which it has read the clock. -/
theorem lease_respected (h : Reachable lease s) (hheld : s.HeldBy lease taskId worker expires)
    (hlater : Later lease s t) (hnow : t.now < expires) : t.HeldBy lease taskId worker expires := by
  induction hlater with
  | start => exact hheld
  | next a hu _ hstep ih =>
    have heffect := step_effect hstep
    have hbefore := heffect.now.trans_lt hnow
    exact heffect.heldBy (reachable_timed (h.trans hu)) (ih hbefore) hbefore

end HeldBy

/-- The first worker executes the task. -/
def executing : TaskProcessing :=
  init.after 300 ([.publish ⟨.v4 1, .v4 2, 1, .v4 3, "fetch", "input", [], []⟩, .deliver "first" 0] ++
    List.replicate 3 (Action.work 0 (.success .null)))

/-- Its renewal has read the clock after 100 ticks, and somebody else gets the entry as well. -/
def competing : TaskProcessing :=
  executing.after 300 ([.tick 100, .renew 0, .tick 199, .deliver "second" 0] ++
    List.replicate 4 (Action.work 1 (.success .null)))

theorem lease_respected_competing : competing.HeldBy 300 (.v4 1) "first" 300 := by
  have hsleeps : ∀ f ∈ executing.deliveries, f.phase = .executing .sleeping := by decide +kernel
  have hrenews : executing.RenewsUntil 300 (.v4 1) "first" 300 := by
    intro f hf _ _ readAt hphase
    rw [hsleeps f hf] at hphase
    cases hphase
  exact @lease_respected 300 executing _ _ _ _ (later_after 300 init _)
    ⟨claimedRow ⟨.v4 1, .v4 2, 1, .v4 3, "fetch", "input", [], []⟩ "first" 0 300, by decide +kernel,
      fun _ => ⟨⟨rfl, 300, rfl, le_rfl⟩, hrenews⟩⟩ (later_after 300 executing _) (by decide +kernel)

/-- The renewal of an execution that has lost its claim shortens the lease of the same worker's next one:
that was to last until 601, and is taken over at 450. -/
example :
    let s := executing.after 300 ([.tick 100, .renew 0, .tick 201, .deliver "first" 0] ++
      List.replicate 4 (Action.work 1 (.success .null)))
    let t := s.after 300 ([.renew 0, .tick 149, .deliver "second" 0] ++
        List.replicate 4 (Action.work 2 (.success .null)))
    (s.rows.map fun r => (r.claimedBy, r.claimExpiresAt)) = [(some "first", some 601)] ∧
      t.now = 450 ∧ (t.rows.map fun r => (r.claimedBy, r.claimExpiresAt)) = [(some "second", some 750)] := by
  decide +kernel

end TaskProcessing

end WorkflowEngine
