import WorkflowEngine.Batches
import WorkflowEngine.Steps

/-!
# The outbox publisher

`publish_pending` and `cleanup_published`, statement by statement. An open transaction holds
the rows it has locked and the objects it has changed; nothing of it is in the table before
it commits, and a crash discards it. Redis is outside the transaction: an entry that it has
accepted stays, whatever becomes of the rows.
-/
namespace WorkflowEngine

/-! ## Stream fields of a row -/

def optionalText : Option String → Json
  | none => .null
  | some value => .str value

/-- The dict that the services hand to `add_message`. -/
def OutboxPayload.dict (text : Text) : OutboxPayload → Dict Json
  | .execution executionId => [("execution_id", .str (text.str executionId))]
  | .executionStatus executionId status => [("execution_id", .str (text.str executionId)), ("status", .str status)]
  | .task m =>
    [("task_id", .str (text.str m.taskId)), ("attempt_id", .str (text.str m.attemptId)),
      ("attempt_number", .int m.attemptNumber), ("execution_id", .str (text.str m.executionId)),
      ("node_id", .str m.nodeId), ("handler", .str m.handler), ("handler_config", .obj m.handlerConfig),
      ("resolved_input", .obj m.resolvedInput)]
  | .node event =>
    [("execution_id", .str (text.str event.executionId)), ("node_id", .str event.nodeId),
      ("status", .str event.status.value), ("task_id", .str (text.str event.taskId)),
      ("attempt_id", .str (text.str event.attemptId)), ("attempt_number", .int event.attemptNumber),
      ("output_data", event.outputData), ("error_message", optionalText event.errorMessage),
      ("error_type", optionalText event.errorType)]
  | .dependencyFailed executionId nodeId reason =>
    [("execution_id", .str (text.str executionId)), ("node_id", .str nodeId), ("status", .str "failed"),
      ("reason", .str reason)]

namespace OutboxPublisher

/-- `_redis_field_value`. -/
def redisFieldValue (text : Text) : Json → String
  | .str value => value
  | value => text.dumps value

/-- `_stream_fields`; every row has a target stream and an aggregate. -/
def streamFields (text : Text) (row : OutboxEventRecord) : Dict String :=
  match row.targetStream with
  | .events =>
    [("message_id", text.str row.messageId), ("event_id", text.str row.messageId),
      ("event_type", row.messageType.text), ("payload", text.dumps (.obj (row.payload.dict text))),
      ("aggregate_id", text.str row.aggregateId)]
  | _ =>
    (row.payload.dict text).foldl (fun fields m => fields.set m.1 (redisFieldValue text m.2))
      [("message_id", text.str row.messageId), ("message_type", row.messageType.text)]

/-- The stream entry of a row. -/
def entry (text : Text) (row : OutboxEventRecord) : StreamName × Dict String :=
  (row.targetStream, streamFields text row)

/-! ## Transactions -/

/-- An open transaction. A publisher has its batch, the times at which the first rows of it were
published, and the text of the `RedisError` that has ended its loop. -/
inductive Session where
  | publishing (batch : List OutboxEventRecord) (publishedAt : List Time) (error : Option String)
  | cleaning (messageIds : List Uuid)
  deriving DecidableEq, Repr

def Session.locked : Session → List Uuid
  | .publishing batch _ _ => batch.map (·.messageId)
  | .cleaning messageIds => messageIds

/-- The table as committed, every row ever committed to it, everything Redis has accepted. -/
structure State where
  rows : List OutboxEventRecord
  inserted : List OutboxEventRecord
  streamed : List (StreamName × Dict String)
  sessions : List Session
  deriving DecidableEq, Repr

namespace State

def init : State := ⟨[], [], [], []⟩

def locked (s : State) : List Uuid := s.sessions.flatMap Session.locked

end State

def markPublished (now : Time) (r : OutboxEventRecord) : OutboxEventRecord :=
  { r with
    status := .published
    publishedAt := some now
    publishAttempts := r.publishAttempts + 1
    lastError := none }

def markFailed (error : String) (r : OutboxEventRecord) : OutboxEventRecord :=
  { r with
    publishAttempts := r.publishAttempts + 1
    lastError := some error }

/-- The objects of a batch as the loop has left them. -/
def objects (error : Option String) : List OutboxEventRecord → List Time → List OutboxEventRecord
  | [], _ => []
  | r :: batch, now :: publishedAt => markPublished now r :: objects error batch publishedAt
  | r :: batch, [] =>
    match error with
    | some text => markFailed text r :: batch
    | none => r :: batch

/-- The updates of a commit, each by primary key. -/
def write (changed rows : List OutboxEventRecord) : List OutboxEventRecord :=
  rows.map fun r => (Table.lookup (·.messageId) r.messageId changed).getD r

/-- What becomes of one `XADD`. The reply may be lost after Redis has accepted the entry. -/
inductive PublishOutcome where
  | accepted
  | acceptedThenRaised (error : String)
  | raised (error : String)
  deriving DecidableEq, Repr

/-- `add_message`, committed by the transaction it belongs to. -/
def insert (s : State) (messageId : Uuid) (messageType : MessageType) (targetStream : StreamName) (aggregateId : Uuid)
    (payload : OutboxPayload) (now : Time) : Option State :=
  let row : OutboxEventRecord :=
    ⟨messageId, messageType, targetStream, aggregateId, payload, .pending, 0, none, now, none⟩
  if s.rows.any fun r => decide (r.messageId = messageId) then none
  else some { s with rows := s.rows ++ [row], inserted := s.inserted ++ [row] }

/-- The select of `publish_pending`: up to a hundred pending rows that no transaction has locked,
oldest first. -/
def selectPending (s : State) (batch : List OutboxEventRecord) : Option State :=
  if batch.length ≤ 100 ∧ (batch.map (·.messageId)).Nodup ∧ batch.Pairwise (fun r r' => r.createdAt ≤ r'.createdAt) ∧
      ∀ r ∈ batch, r ∈ s.rows ∧ r.status = .pending ∧ r.messageId ∉ s.locked then
    some { s with sessions := s.sessions ++ [.publishing batch [] none] }
  else none

/-- One turn of the loop. -/
def publish (text : Text) (s : State) (k : Nat) (now : Time) (outcome : PublishOutcome) : Option State :=
  match s.sessions[k]? with
  | some (.publishing batch publishedAt none) =>
    match batch[publishedAt.length]? with
    | none => none
    | some row =>
      match outcome with
      | .accepted => some
          { s with
            streamed := s.streamed ++ [entry text row]
            sessions := s.sessions.set k (.publishing batch (publishedAt ++ [now]) none) }
      | .acceptedThenRaised error => some
          { s with
            streamed := s.streamed ++ [entry text row]
            sessions := s.sessions.set k (.publishing batch publishedAt (some error)) }
      | .raised error => some { s with sessions := s.sessions.set k (.publishing batch publishedAt (some error)) }
  | _ => none

/-- The select of `cleanup_published`, after the checks of its arguments. -/
def selectPublished (s : State) (retention : Time) (batchSize : Int) (now : Time) (batch : List OutboxEventRecord) :
    Option State :=
  if retention < 0 then none
  else if batchSize < 1 then none
  else if batch.length ≤ batchSize ∧ (batch.map (·.messageId)).Nodup ∧
      batch.Pairwise (fun r r' => ∀ t ∈ r.publishedAt, ∀ t' ∈ r'.publishedAt, t ≤ t') ∧
      ∀ r ∈ batch, r ∈ s.rows ∧ r.status = .published ∧
      (r.publishedAt.any fun t => decide (t ≤ now - retention)) = true ∧
        r.messageId ∉ s.locked then
    some { s with sessions := s.sessions ++ [.cleaning (batch.map (·.messageId))] }
  else none

/-- A publisher commits after its loop or after the error; a cleaner after its delete. -/
def commit (s : State) (k : Nat) : Option State :=
  match s.sessions[k]? with
  | none => none
  | some (.publishing batch publishedAt error) =>
    if error.isSome ∨ publishedAt.length = batch.length then
      some { s with rows := write (objects error batch publishedAt) s.rows, sessions := s.sessions.eraseIdx k }
    else none
  | some (.cleaning messageIds) => some
      { s with
        rows := s.rows.filter fun r => decide (r.messageId ∉ messageIds)
        sessions := s.sessions.eraseIdx k }

/-- The process stops, or another exception leaves the session: it is rolled back. -/
def crash (s : State) (k : Nat) : Option State :=
  if k < s.sessions.length then some { s with sessions := s.sessions.eraseIdx k } else none

inductive Action where
  | insert (messageId : Uuid) (messageType : MessageType) (targetStream : StreamName) (aggregateId : Uuid)
      (payload : OutboxPayload) (now : Time)
  | selectPending (batch : List OutboxEventRecord)
  | publish (k : Nat) (now : Time) (outcome : PublishOutcome)
  | selectPublished (retention : Time) (batchSize : Int) (now : Time) (batch : List OutboxEventRecord)
  | commit (k : Nat)
  | crash (k : Nat)
  deriving DecidableEq, Repr

def step (text : Text) (s : State) : Action → Option State
  | .insert messageId messageType targetStream aggregateId payload now =>
    insert s messageId messageType targetStream aggregateId payload now
  | .selectPending batch => selectPending s batch
  | .publish k now outcome => publish text s k now outcome
  | .selectPublished retention batchSize now batch => selectPublished s retention batchSize now batch
  | .commit k => commit s k
  | .crash k => crash s k

/-- Any number of publishers and cleaners, in any order. -/
abbrev Reachable (text : Text) (s : State) : Prop := Transition.Reachable (step text) (fun _ _ => True) .init s

/-! ## What a commit writes -/

section commit

variable {batch rows changed : List OutboxEventRecord} {publishedAt : List Time} {error : Option String}
  {r o : OutboxEventRecord} {text : Text}

theorem entry_of_content {r r' : OutboxEventRecord} (h : r'.content = r.content) : entry text r' = entry text r := by
  obtain ⟨id, type, stream, aggregate, payload, _⟩ := r
  obtain ⟨id', type', stream', aggregate', payload', _⟩ := r'
  obtain ⟨rfl, rfl, rfl, rfl, rfl⟩ : id' = id ∧ type' = type ∧ stream' = stream ∧ aggregate' = aggregate ∧
      payload' = payload := by simpa [OutboxEventRecord.content] using h
  rfl

/-- Rows before the failing one are published, that one has failed, and the others are as selected. -/
inductive Changed (error : Option String) (publishedAt : List Time) (j : Nat) (r : OutboxEventRecord) :
    OutboxEventRecord → Prop where
  | published {now : Time} (time : publishedAt[j]? = some now) : Changed error publishedAt j r (markPublished now r)
  | failed {message : String} (here : j = publishedAt.length) (raised : error = some message) :
      Changed error publishedAt j r (markFailed message r)
  | unchanged (after : publishedAt.length ≤ j) (other : j = publishedAt.length → error = none) :
      Changed error publishedAt j r r

theorem objects_spec : ∀ {batch : List OutboxEventRecord} {publishedAt : List Time} {j : Nat},
    batch[j]? = some r → ∃ o, (objects error batch publishedAt)[j]? = some o ∧ Changed error publishedAt j r o := by
  intro batch
  induction batch with
  | nil =>
    intro publishedAt j h
    cases h
  | cons r₀ batch ih =>
    intro publishedAt j h
    cases publishedAt with
    | nil =>
      cases error with
      | none => exact ⟨r, h, .unchanged (Nat.zero_le _) fun _ => rfl⟩
      | some message =>
        cases j with
        | zero =>
          cases h
          exact ⟨_, rfl, .failed rfl rfl⟩
        | succ j => exact ⟨r, h, .unchanged (Nat.zero_le _) fun hj => by simp at hj⟩
    | cons now publishedAt =>
      cases j with
      | zero =>
        cases h
        exact ⟨_, rfl, .published rfl⟩
      | succ j =>
        obtain ⟨o, ho, hchanged⟩ := @ih publishedAt j h
        refine ⟨o, ho, ?_⟩
        cases hchanged with
        | published time => exact .published time
        | failed here raised => exact .failed (by simpa using here) raised
        | unchanged after other => exact .unchanged (by simpa using after) fun hj => other (by simpa using hj)

theorem objects_ids : ∀ {batch : List OutboxEventRecord} {publishedAt : List Time},
    (objects error batch publishedAt).map (·.messageId) = batch.map (·.messageId) := by
  intro batch
  induction batch with
  | nil => intro publishedAt; rfl
  | cons r batch ih =>
    intro publishedAt
    cases publishedAt with
    | nil => cases error <;> rfl
    | cons now publishedAt => exact congrArg (r.messageId :: ·) ih

theorem objects_length : (objects error batch publishedAt).length = batch.length := by
  simpa using congrArg List.length (@objects_ids error batch publishedAt)

theorem objects_mem (h : o ∈ objects error batch publishedAt) :
    ∃ j r, batch[j]? = some r ∧ Changed error publishedAt j r o := by
  obtain ⟨j, hj⟩ := List.mem_iff_getElem?.1 h
  have hlt : j < batch.length := by
    rw [← @objects_length batch publishedAt error]
    exact (List.getElem?_eq_some_iff.1 hj).1
  obtain ⟨o', ho', hchanged⟩ := @objects_spec error batch[j] batch publishedAt j (List.getElem?_eq_getElem hlt)
  rw [hj] at ho'
  cases ho'
  exact ⟨j, _, List.getElem?_eq_getElem hlt, hchanged⟩

theorem Changed.content {j : Nat} (h : Changed error publishedAt j r o) : o.content = r.content := by
  cases h <;> rfl

theorem write_ids : (write changed rows).map (·.messageId) = rows.map (·.messageId) := by
  rw [write, List.map_map]
  refine List.map_congr_left fun r _ => ?_
  cases h : Table.lookup (·.messageId) r.messageId changed with
  | none => simp [h]
  | some o => simpa [h] using (Table.lookup_some h).2

theorem mem_write_of_changed (hkeyed : Table.Keyed (·.messageId) changed) (ho : o ∈ changed) (hr : r ∈ rows)
    (hid : o.messageId = r.messageId) : o ∈ write changed rows := by
  refine List.mem_map.2 ⟨r, hr, ?_⟩
  rw [← hid, hkeyed.lookup ho]
  rfl

theorem mem_write_of_other (hr : r ∈ rows) (hid : r.messageId ∉ changed.map (·.messageId)) :
    r ∈ write changed rows := by
  refine List.mem_map.2 ⟨r, hr, ?_⟩
  rw [Table.lookup_none.2 fun o ho he => hid (List.mem_map.2 ⟨o, ho, he⟩)]
  rfl

theorem mem_write (h : r ∈ write changed rows) :
    r ∈ changed ∨ (r ∈ rows ∧ r.messageId ∉ changed.map (·.messageId)) := by
  obtain ⟨r₀, hr₀, heq⟩ := List.mem_map.1 h
  cases hlookup : Table.lookup (·.messageId) r₀.messageId changed with
  | none =>
    rw [hlookup] at heq
    cases heq
    refine .inr ⟨hr₀, fun hid => ?_⟩
    obtain ⟨o, ho, he⟩ := List.mem_map.1 hid
    exact Table.lookup_none.1 hlookup o ho he
  | some o =>
    rw [hlookup] at heq
    cases heq
    exact .inl (Table.lookup_some hlookup).1

end commit

/-! ## The invariant -/

variable {text : Text} {s t : State}

/-- What a transaction relies on between its statements: the rows it has locked are as it has
read them. -/
def Holds (text : Text) (s : State) : Session → Prop
  | .publishing batch publishedAt error =>
    (batch.map (·.messageId)).Nodup ∧ (∀ r ∈ batch, r ∈ s.rows ∧ r.status = .pending) ∧
      publishedAt.length ≤ batch.length ∧ (error.isSome → publishedAt.length < batch.length) ∧
      ∀ (j : Nat) (r : OutboxEventRecord), j < publishedAt.length → batch[j]? = some r → entry text r ∈ s.streamed
  | .cleaning messageIds => ∀ id ∈ messageIds, ∃ r ∈ s.rows, r.messageId = id ∧ r.status = .published

structure Safe (text : Text) (s : State) : Prop where
  keyed : Table.Keyed (·.messageId) s.rows
  kept : ∀ row ∈ s.inserted, (∃ r ∈ s.rows, r.content = row.content ∧ r.status = .pending) ∨
    entry text row ∈ s.streamed
  published : ∀ r ∈ s.rows, r.status = .published → entry text r ∈ s.streamed
  disjoint : (s.sessions.map Session.locked).Pairwise List.Disjoint
  held : ∀ session ∈ s.sessions, Holds text s session

theorem Holds.mono {session : Session} (h : Holds text s session)
    (hrows : ∀ r ∈ s.rows, r.messageId ∈ session.locked → r ∈ t.rows) (hstreamed : ∀ x ∈ s.streamed, x ∈ t.streamed) :
    Holds text t session := by
  cases session with
  | publishing batch publishedAt error =>
    obtain ⟨hnodup, hbatch, hle, hlt, hsent⟩ := h
    refine ⟨hnodup, fun r hr => ?_, hle, hlt, fun j r hj hr => hstreamed _ (hsent j r hj hr)⟩
    exact ⟨hrows r (hbatch r hr).1 (List.mem_map_of_mem hr), (hbatch r hr).2⟩
  | cleaning messageIds =>
    intro id hid
    obtain ⟨r, hr, rfl, hst⟩ := h id hid
    exact ⟨r, hrows r hr hid, rfl, hst⟩

/-- A transaction shares no row with the others. -/
theorem Safe.apart (h : Safe text s) {k : Nat} {session other : Session} (hk : s.sessions[k]? = some session)
    (hother : other ∈ s.sessions.eraseIdx k) : session.locked.Disjoint other.locked := by
  obtain ⟨i, hne, hi⟩ := List.mem_eraseIdx_iff_getElem?.1 hother
  obtain ⟨hklt, rfl⟩ := List.getElem?_eq_some_iff.1 hk
  obtain ⟨hilt, rfl⟩ := List.getElem?_eq_some_iff.1 hi
  have hpairwise := List.pairwise_iff_getElem.1 h.disjoint
  rcases Nat.lt_or_gt_of_ne hne with hlt | hlt
  · have hdisjoint := hpairwise i k (by simpa using hilt) (by simpa using hklt) hlt
    rw [List.getElem_map, List.getElem_map] at hdisjoint
    exact List.disjoint_comm.1 hdisjoint
  · have hdisjoint := hpairwise k i (by simpa using hklt) (by simpa using hilt) hlt
    rwa [List.getElem_map, List.getElem_map] at hdisjoint

theorem safe_init : Safe text .init :=
  ⟨List.nodup_nil, by simp [State.init], by simp [State.init], .nil, by simp [State.init]⟩

theorem insert_safe {messageId aggregateId : Uuid} {messageType : MessageType} {targetStream : StreamName}
    {payload : OutboxPayload} {now : Time} (h : Safe text s)
    (hi : insert s messageId messageType targetStream aggregateId payload now = some t) : Safe text t := by
  unfold insert at hi
  dsimp only at hi
  split at hi
  · cases hi
  · rename_i hnew
    cases hi
    refine ⟨h.keyed.append fun r hr hid => ?_, fun row hrow => ?_, fun r hr hst => ?_, h.disjoint,
      fun session hsession => ?_⟩
    · exact hnew (List.any_eq_true.2 ⟨r, hr, decide_eq_true hid⟩)
    · rcases List.mem_append.1 hrow with hrow | hrow
      · refine (h.kept row hrow).imp_left ?_
        rintro ⟨r, hr, hpending⟩
        exact ⟨r, List.mem_append_left _ hr, hpending⟩
      · rw [List.mem_singleton.1 hrow]
        exact .inl ⟨_, List.mem_append_right _ (List.mem_singleton.2 rfl), rfl, rfl⟩
    · rcases List.mem_append.1 hr with hr | hr
      · exact h.published r hr hst
      · rw [List.mem_singleton.1 hr] at hst
        cases hst
    · exact (h.held session hsession).mono (fun r hr _ => List.mem_append_left _ hr) fun _ hx => hx

/-- A new transaction locks rows that nobody has locked. -/
theorem Safe.opens {session : Session} (h : Safe text s) (hfree : ∀ id ∈ session.locked, id ∉ s.locked)
    (hholds : Holds text s session) : Safe text { s with sessions := s.sessions ++ [session] } := by
  refine ⟨h.keyed, h.kept, h.published, ?_, fun other hother => ?_⟩
  · rw [List.map_append, List.pairwise_append]
    refine ⟨h.disjoint, List.pairwise_singleton _ _, fun ids hids ids' hids' => ?_⟩
    obtain ⟨other, hother, rfl⟩ := List.mem_map.1 hids
    rw [List.map_singleton, List.mem_singleton] at hids'
    subst hids'
    exact fun id hid hid' => hfree id hid' (List.mem_flatMap.2 ⟨other, hother, hid⟩)
  · rcases List.mem_append.1 hother with hother | hother
    · exact h.held other hother
    · rw [List.mem_singleton.1 hother]
      exact hholds

theorem selectPending_safe {batch : List OutboxEventRecord} (h : Safe text s) (hs : selectPending s batch = some t) :
    Safe text t := by
  unfold selectPending at hs
  split at hs
  · rename_i hselected
    obtain ⟨-, hnodup, -, hbatch⟩ := hselected
    cases hs
    refine h.opens (fun id hid => ?_) ⟨hnodup, fun r hr => ⟨(hbatch r hr).1, (hbatch r hr).2.1⟩,
      Nat.zero_le _, by simp, fun j r hj _ => by cases hj⟩
    obtain ⟨r, hr, rfl⟩ := List.mem_map.1 hid
    exact (hbatch r hr).2.2
  · cases hs

theorem selectPublished_safe {retention now : Time} {batchSize : Int} {batch : List OutboxEventRecord}
    (h : Safe text s) (hs : selectPublished s retention batchSize now batch = some t) : Safe text t := by
  unfold selectPublished at hs
  split at hs
  · cases hs
  · split at hs
    · cases hs
    · split at hs
      · rename_i hselected
        obtain ⟨-, -, -, hbatch⟩ := hselected
        cases hs
        refine h.opens (fun id hid => ?_) fun id hid => ?_
        · obtain ⟨r, hr, rfl⟩ := List.mem_map.1 hid
          exact (hbatch r hr).2.2.2
        · obtain ⟨r, hr, rfl⟩ := List.mem_map.1 hid
          exact ⟨r, (hbatch r hr).1, rfl, (hbatch r hr).2.1⟩
      · cases hs

/-- A transaction goes on with the rows it has locked. -/
theorem Safe.goesOn {k : Nat} {session session' : Session} {streamed : List (StreamName × Dict String)}
    (h : Safe text s) (hk : s.sessions[k]? = some session) (hlocked : session'.locked = session.locked)
    (hstreamed : ∀ x ∈ s.streamed, x ∈ streamed)
    (hholds : Holds text { s with streamed := streamed, sessions := s.sessions.set k session' } session') :
    Safe text { s with streamed := streamed, sessions := s.sessions.set k session' } := by
  refine ⟨h.keyed, fun row hrow => ?_, fun r hr hst => hstreamed _ (h.published r hr hst), ?_, fun other hother => ?_⟩
  · exact (h.kept row hrow).imp_right (hstreamed _)
  · have hsame : (s.sessions.set k session').map Session.locked = s.sessions.map Session.locked := by
      rw [List.map_set, hlocked]
      obtain ⟨hlt, rfl⟩ := List.getElem?_eq_some_iff.1 hk
      rw [← List.getElem_map Session.locked (h := by simpa using hlt)]
      exact List.set_getElem_self _
    rw [hsame]
    exact h.disjoint
  · rcases List.mem_or_eq_of_mem_set hother with hother | rfl
    · exact (h.held other hother).mono (fun r hr _ => hr) hstreamed
    · exact hholds

theorem publish_safe {k : Nat} {now : Time} {outcome : PublishOutcome} (h : Safe text s)
    (hp : publish text s k now outcome = some t) : Safe text t := by
  unfold publish at hp
  split at hp
  · rename_i batch publishedAt hk
    split at hp
    · cases hp
    · rename_i row hrow
      have hlt : publishedAt.length < batch.length := (List.getElem?_eq_some_iff.1 hrow).1
      obtain ⟨hnodup, hbatch, -, -, hsent⟩ := h.held _ (List.mem_of_getElem? hk)
      cases outcome with
      | accepted =>
        cases hp
        refine h.goesOn hk rfl (fun x hx => List.mem_append_left _ hx) ⟨hnodup, hbatch, ?_, by simp,
          fun j r hj hr => ?_⟩
        · rw [List.length_append]
          exact hlt
        · rw [List.length_append, List.length_singleton] at hj
          rcases Nat.lt_or_eq_of_le (Nat.le_of_lt_succ hj) with hj | rfl
          · exact List.mem_append_left _ (hsent j r hj hr)
          · rw [hrow] at hr
            cases hr
            exact List.mem_append_right _ (List.mem_singleton.2 rfl)
      | acceptedThenRaised error =>
        cases hp
        exact h.goesOn hk rfl (fun x hx => List.mem_append_left _ hx)
          ⟨hnodup, hbatch, hlt.le, fun _ => hlt, fun j r hj hr => List.mem_append_left _ (hsent j r hj hr)⟩
      | raised error =>
        cases hp
        exact h.goesOn hk rfl (fun x hx => hx) ⟨hnodup, hbatch, hlt.le, fun _ => hlt, hsent⟩
  · cases hp

/-- A transaction ends, and the rows that others have locked stay. -/
theorem Safe.ends {k : Nat} {session : Session} {rows : List OutboxEventRecord} (h : Safe text s)
    (hk : s.sessions[k]? = some session) (hkeyed : Table.Keyed (·.messageId) rows)
    (hrows : ∀ r ∈ s.rows, r.messageId ∉ session.locked → r ∈ rows)
    (hpending : ∀ r ∈ s.rows, r.status = .pending → (∃ r' ∈ rows, r'.content = r.content ∧ r'.status = .pending) ∨
      entry text r ∈ s.streamed)
    (hpublished : ∀ r ∈ rows, r.status = .published → entry text r ∈ s.streamed) :
    Safe text { s with rows := rows, sessions := s.sessions.eraseIdx k } := by
  refine ⟨hkeyed, fun row hrow => ?_, hpublished, ?_, fun other hother => ?_⟩
  · rcases h.kept row hrow with ⟨r, hr, hcontent, hst⟩ | hsent
    · rcases hpending r hr hst with ⟨r', hr', hcontent', hst'⟩ | hsent
      · exact .inl ⟨r', hr', hcontent'.trans hcontent, hst'⟩
      · rw [entry_of_content hcontent] at hsent
        exact .inr hsent
    · exact .inr hsent
  · exact h.disjoint.sublist ((List.eraseIdx_sublist _ _).map _)
  · refine (h.held other (List.mem_of_mem_eraseIdx hother)).mono (fun r hr hlocked => ?_) fun _ hx => hx
    exact hrows r hr fun hid => h.apart hk hother hid hlocked

theorem commit_safe {k : Nat} (h : Safe text s) (hc : commit s k = some t) : Safe text t := by
  unfold commit at hc
  split at hc
  · cases hc
  · rename_i batch publishedAt error hk
    obtain ⟨hnodup, hbatch, -, -, hsent⟩ := h.held _ (List.mem_of_getElem? hk)
    split at hc
    · cases hc
      have hids := @objects_ids error batch publishedAt
      have hkeyed : Table.Keyed (·.messageId) (objects error batch publishedAt) := by
        rw [Table.Keyed, hids]
        exact hnodup
      refine h.ends hk ?_ (fun r hr hid => ?_) (fun r hr hst => ?_) fun r hr hst => ?_
      · rw [Table.Keyed, write_ids]
        exact h.keyed
      · exact mem_write_of_other hr (by rw [hids]; exact hid)
      · by_cases hid : r.messageId ∈ batch.map (·.messageId)
        · obtain ⟨r₀, hr₀, he⟩ := List.mem_map.1 hid
          obtain rfl := h.keyed.ext (hbatch r₀ hr₀).1 hr he
          obtain ⟨j, hj⟩ := List.mem_iff_getElem?.1 hr₀
          obtain ⟨o, ho, hchanged⟩ := @objects_spec error r₀ batch publishedAt j hj
          have hmem := mem_write_of_changed hkeyed (List.mem_of_getElem? ho) hr (congrArg (·.1) hchanged.content)
          cases hchanged with
          | published time => exact .inr (hsent j r₀ (List.getElem?_eq_some_iff.1 time).1 hj)
          | failed => exact .inl ⟨_, hmem, rfl, hst⟩
          | unchanged => exact .inl ⟨_, hmem, rfl, hst⟩
        · exact .inl ⟨r, mem_write_of_other hr (by rw [hids]; exact hid), rfl, hst⟩
      · rcases mem_write hr with hr | ⟨hr, -⟩
        · obtain ⟨j, r₀, hj, hchanged⟩ := objects_mem hr
          have hst₀ := (hbatch r₀ (List.mem_of_getElem? hj)).2
          rw [entry_of_content hchanged.content]
          cases hchanged with
          | published time => exact hsent j r₀ (List.getElem?_eq_some_iff.1 time).1 hj
          | failed => exact absurd (hst₀.symm.trans hst) (by simp)
          | unchanged => exact absurd (hst₀.symm.trans hst) (by simp)
        · exact h.published r hr hst
    · cases hc
  · rename_i messageIds hk
    have hheld := h.held _ (List.mem_of_getElem? hk)
    cases hc
    refine h.ends hk (h.keyed.sublist (List.filter_sublist.map _)) (fun r hr hid => ?_) (fun r hr hst => ?_)
      fun r hr hst => ?_
    · exact List.mem_filter.2 ⟨hr, decide_eq_true hid⟩
    · refine .inl ⟨r, List.mem_filter.2 ⟨hr, decide_eq_true fun hid => ?_⟩, rfl, hst⟩
      obtain ⟨r', hr', he, hst'⟩ := hheld _ hid
      rw [h.keyed.ext hr' hr he, hst] at hst'
      cases hst'
    · exact h.published r (List.mem_filter.1 hr).1 hst

theorem crash_safe {k : Nat} (h : Safe text s) (hc : crash s k = some t) : Safe text t := by
  unfold crash at hc
  split at hc
  · rename_i hlt
    cases hc
    exact h.ends (List.getElem?_eq_getElem hlt) h.keyed (fun r hr _ => hr)
      (fun r hr hst => .inl ⟨r, hr, rfl, hst⟩) h.published
  · cases hc

theorem step_safe {a : Action} (h : Safe text s) (hstep : step text s a = some t) : Safe text t := by
  cases a with
  | insert => exact insert_safe h hstep
  | selectPending => exact selectPending_safe h hstep
  | publish => exact publish_safe h hstep
  | selectPublished => exact selectPublished_safe h hstep
  | commit => exact commit_safe h hstep
  | crash => exact crash_safe h hstep

theorem reachable_safe (h : Reachable text s) : Safe text s :=
  Transition.Reachable.invariant safe_init (fun _ _ _ _ hs _ ht => step_safe hs ht) h

/-! ## Nothing is lost -/

/-- A step that takes a row out of the table is a cleaner's commit, and the row is published. -/
theorem deleted_published {a : Action} (h : Safe text s) (hstep : step text s a = some t) {r : OutboxEventRecord}
    (hr : r ∈ s.rows) (hgone : r.messageId ∉ t.rows.map (·.messageId)) : r.status = .published := by
  have hsame : t.rows.map (·.messageId) = s.rows.map (·.messageId) → r.status = .published := fun hids =>
    absurd (hids ▸ List.mem_map_of_mem hr) hgone
  cases a with
  | insert =>
    simp only [step, insert] at hstep
    split at hstep
    · cases hstep
    · cases hstep
      refine absurd ?_ hgone
      rw [List.map_append]
      exact List.mem_append_left _ (List.mem_map_of_mem hr)
  | selectPending =>
    simp only [step, selectPending] at hstep
    split at hstep <;> cases hstep
    exact hsame rfl
  | publish =>
    simp only [step, publish] at hstep
    split at hstep
    · split at hstep
      · cases hstep
      · split at hstep <;> cases hstep <;> exact hsame rfl
    · cases hstep
  | selectPublished =>
    simp only [step, selectPublished] at hstep
    split at hstep
    · cases hstep
    · split at hstep
      · cases hstep
      · split at hstep <;> cases hstep
        exact hsame rfl
  | commit k =>
    simp only [step, commit] at hstep
    split at hstep
    · cases hstep
    · split at hstep <;> cases hstep
      exact hsame write_ids
    · rename_i messageIds hk
      cases hstep
      by_cases hid : r.messageId ∈ messageIds
      · obtain ⟨r', hr', he, hst⟩ := h.held _ (List.mem_of_getElem? hk) _ hid
        rwa [← h.keyed.ext hr' hr he]
      · exact absurd (List.mem_map_of_mem (List.mem_filter.2 ⟨hr, decide_eq_true hid⟩)) hgone
  | crash =>
    simp only [step, crash] at hstep
    split at hstep <;> cases hstep
    exact hsame rfl

/-- The commit of a publisher whose `XADD` of row `i` has raised. -/
structure ErrorCommitted (s t : State) (batch : List OutboxEventRecord) (i : Nat) (error : String) : Prop where
  before : ∀ (j : Nat) (r : OutboxEventRecord), j < i → batch[j]? = some r → r ∈ s.rows ∧
    ∃ now, markPublished now r ∈ t.rows
  failing : ∃ r, batch[i]? = some r ∧ r ∈ s.rows ∧ r.status = .pending ∧ markFailed error r ∈ t.rows
  after : ∀ (j : Nat) (r : OutboxEventRecord), i < j → batch[j]? = some r → r ∈ s.rows ∧ r ∈ t.rows
  others : ∀ r ∈ s.rows, r.messageId ∉ batch.map (·.messageId) → r ∈ t.rows
  ids : t.rows.map (·.messageId) = s.rows.map (·.messageId)

theorem Safe.errorCommitted (h : Safe text s) {k : Nat} {batch : List OutboxEventRecord} {publishedAt : List Time}
    {error : String} (hk : s.sessions[k]? = some (.publishing batch publishedAt (some error))) :
    ∃ t, step text s (.commit k) = some t ∧ ErrorCommitted s t batch publishedAt.length error := by
  obtain ⟨hnodup, hbatch, -, hlt, -⟩ := h.held _ (List.mem_of_getElem? hk)
  have hkeyed : Table.Keyed (·.messageId) (objects (some error) batch publishedAt) := by
    rw [Table.Keyed, objects_ids]
    exact hnodup
  have hwritten : ∀ {j : Nat} {r : OutboxEventRecord}, batch[j]? = some r →
      ∃ o ∈ write (objects (some error) batch publishedAt) s.rows, Changed (some error) publishedAt j r o := by
    intro j r hj
    obtain ⟨o, ho, hchanged⟩ := @objects_spec (some error) r batch publishedAt j hj
    exact ⟨o, mem_write_of_changed hkeyed (List.mem_of_getElem? ho) (hbatch r (List.mem_of_getElem? hj)).1
      (congrArg (·.1) hchanged.content), hchanged⟩
  refine ⟨{ s with rows := write (objects (some error) batch publishedAt) s.rows, sessions := s.sessions.eraseIdx k },
    by simp only [step, commit, hk, Option.isSome_some, true_or, if_true], ?_, ?_, ?_, ?_, write_ids⟩
  · intro j r hj hr
    refine ⟨(hbatch r (List.mem_of_getElem? hr)).1, ?_⟩
    obtain ⟨o, ho, hchanged⟩ := hwritten hr
    cases hchanged with
    | published time => exact ⟨_, ho⟩
    | failed here => exact absurd here hj.ne
    | unchanged after => exact absurd after (Nat.not_le.2 hj)
  · have hi := List.getElem?_eq_getElem (hlt rfl)
    obtain ⟨hr, hst⟩ := hbatch _ (List.mem_of_getElem? hi)
    refine ⟨_, hi, hr, hst, ?_⟩
    obtain ⟨o, ho, hchanged⟩ := hwritten hi
    cases hchanged with
    | published time => exact absurd (List.getElem?_eq_some_iff.1 time).1 (lt_irrefl _)
    | failed here raised =>
      cases raised
      exact ho
    | unchanged after other => exact absurd (other rfl) (by simp)
  · intro j r hj hr
    refine ⟨(hbatch r (List.mem_of_getElem? hr)).1, ?_⟩
    obtain ⟨o, ho, hchanged⟩ := hwritten hr
    cases hchanged with
    | published time => exact absurd (List.getElem?_eq_some_iff.1 time).1 (Nat.not_lt.2 hj.le)
    | failed here => exact absurd here hj.ne'
    | unchanged => exact ho
  · intro r hr hid
    exact mem_write_of_other hr (by rw [objects_ids]; exact hid)

/-- The outbox loses nothing, in any state that publishers, cleaners, Redis errors and crashes can
reach. -/
theorem outbox_loses_nothing (h : Reachable text s) :
    (∀ row ∈ s.inserted, (∃ r ∈ s.rows, r.content = row.content ∧ r.status = .pending) ∨ entry text row ∈ s.streamed) ∧
    (∀ a t, step text s a = some t → ∀ r ∈ s.rows, r.messageId ∉ t.rows.map (·.messageId) →
      r.status = .published ∧ entry text r ∈ s.streamed) ∧
    (∀ (k l : Nat) (session other : Session), k ≠ l → s.sessions[k]? = some session → s.sessions[l]? = some other →
      session.locked.Disjoint other.locked) ∧
    ∀ k batch publishedAt error, s.sessions[k]? = some (.publishing batch publishedAt (some error)) →
      ∃ t, step text s (.commit k) = some t ∧ ErrorCommitted s t batch publishedAt.length error := by
  have hs := reachable_safe h
  refine ⟨hs.kept, fun a t hstep r hr hgone => ?_, fun k l session other hne hk hl => ?_,
    fun k batch publishedAt error hk => ?_⟩
  · have hpublished := deleted_published hs hstep hr hgone
    exact ⟨hpublished, hs.published r hr hpublished⟩
  · exact hs.apart hk (List.mem_eraseIdx_iff_getElem?.2 ⟨l, hne.symm, hl⟩)
  · exact hs.errorCommitted hk

/-- The text conversions on the rows below. -/
def streamText : Text where
  str
    | .v4 0 => "7a0c0f5e-1d5b-4c35-8c0a-2f3f5f6d7e80"
    | .v4 1 => "c5b6a7d8-9e0f-4a1b-8c2d-3e4f5a6b7c8d"
    | _ => "9d8c7b6a-5f4e-4d3c-9b2a-1f0e9d8c7b6a"
  uuid _ := none
  int _ := none
  loads _ := none
  dumps _ := "\x7b\"execution_id\":\"9d8c7b6a-5f4e-4d3c-9b2a-1f0e9d8c7b6a\"\x7d"

/-- A trigger message as it is inserted. -/
def triggerRow (n : Nat) : OutboxEventRecord :=
  ⟨.v4 n, .executionTriggered, .events, .v4 2, .execution (.v4 2), .pending, 0, none, n, none⟩

/-- Redis accepts the first of two rows and is then unavailable. -/
def redisUnavailable : State :=
  (Transition.run (step streamText) .init
    [.insert (.v4 0) .executionTriggered .events (.v4 2) (.execution (.v4 2)) 0,
      .insert (.v4 1) .executionTriggered .events (.v4 2) (.execution (.v4 2)) 1,
      .selectPending [triggerRow 0, triggerRow 1], .publish 0 2 .accepted,
      .publish 0 3 (.raised "Redis unavailable")]).getD .init

theorem outbox_loses_nothing_unavailable :
    redisUnavailable.streamed = [entry streamText (triggerRow 0)] ∧
      ∃ t, step streamText redisUnavailable (.commit 0) = some t ∧
        ErrorCommitted redisUnavailable t [triggerRow 0, triggerRow 1] 1 "Redis unavailable" := by
  have hrun : Transition.run (step streamText) .init
      [.insert (.v4 0) .executionTriggered .events (.v4 2) (.execution (.v4 2)) 0,
        .insert (.v4 1) .executionTriggered .events (.v4 2) (.execution (.v4 2)) 1,
        .selectPending [triggerRow 0, triggerRow 1], .publish 0 2 .accepted,
        .publish 0 3 (.raised "Redis unavailable")] =
      some redisUnavailable := by decide +kernel
  have hreachable : Reachable streamText redisUnavailable :=
    Transition.Reachable.of_run (fun _ _ => true) (fun _ _ _ => trivial) _ .start (by simpa using hrun)
  have hsession : redisUnavailable.sessions[0]? =
      some (.publishing [triggerRow 0, triggerRow 1] [2] (some "Redis unavailable")) := by decide +kernel
  exact ⟨by decide +kernel, (outbox_loses_nothing hreachable).2.2.2 0 _ [2] _ hsession⟩

end OutboxPublisher

end WorkflowEngine
