import WorkflowEngine.Totality

/-!
# Messages on their way

A trigger or a task is written to the outbox once and stays there, pending, until it is in
its stream: the publisher marks a row only after it has sent it. A retry likewise stays
pending until its message has been sent. So every attempt has a source: its row, its retry,
or an entry of the task stream.
-/
namespace WorkflowEngine

open Database

/-- The row carries work on: a trigger or a task. -/
def OutboxEventRecord.Carries (row : OutboxEventRecord) : Prop :=
  row.messageType = .executionTriggered ∨ row.messageType = .task

namespace System

variable {cfg : Config} {s t : System} {a : Action}

/-- The row's message is in its stream. -/
structure Delivered (s : System) (row : OutboxEventRecord) : Prop where
  task : row.targetStream = .tasks → ∀ m, row.payload = .task m → m ∈ s.tasks.entries
  event : row.targetStream = .events → ⟨row.messageId, row.messageType, row.payload⟩ ∈ s.events.entries

theorem Effect.eventEntries (h : Effect cfg s a t) : ∃ l, t.events.entries = s.events.entries ++ l := by
  cases h with
  | publishEventRow => exact ⟨_, rfl⟩
  | _ => exact ⟨[], by simp [setPhase, dropInFlight, renewTask, GroupStream.deliver, GroupStream.xack]⟩

theorem Delivered.mono {row row' : OutboxEventRecord} (h : Delivered s row) (hcontent : row'.content = row.content)
    (htasks : ∃ l, t.tasks.entries = s.tasks.entries ++ l) (hevents : ∃ l, t.events.entries = s.events.entries ++ l) :
    Delivered t row' := by
  obtain ⟨l, hl⟩ := htasks
  obtain ⟨l', hl'⟩ := hevents
  simp only [OutboxEventRecord.content, Prod.mk.injEq] at hcontent
  obtain ⟨hid, htype, hstream, -, hpayload⟩ := hcontent
  refine ⟨fun hs m hm => ?_, fun hs => ?_⟩
  · rw [hl]
    exact List.mem_append_left _ (h.task (hstream ▸ hs) m (hpayload ▸ hm))
  · rw [hl', hid, htype, hpayload]
    exact List.mem_append_left _ (h.event (hstream ▸ hs))

/-! ## The outbox -/

/-- The publisher sends a pending row, or sends nothing. -/
inductive Sending (s t : System) : Prop where
  | nothing (eq : t.outboxSent = s.outboxSent)
  | sends {row : OutboxEventRecord} (mem : row ∈ s.db.outboxEvents) (db : t.db = s.db)
      (eq : t.outboxSent = s.outboxSent ++ [row.messageId]) (delivered : Delivered t row)

theorem Effect.sending (h : Effect cfg s a t) : Sending s t := by
  cases h with
  | publishTaskRow mem _ stream payload =>
    refine .sends mem rfl rfl ⟨fun _ m hm => ?_, fun hs => ?_⟩
    · rw [payload] at hm
      cases hm
      exact List.mem_append_right _ (List.mem_singleton.2 rfl)
    · rw [stream] at hs
      cases hs
  | publishEventRow mem _ stream =>
    refine .sends mem rfl rfl ⟨fun hs => ?_, fun _ => List.mem_append_right _ (List.mem_singleton.2 rfl)⟩
    rw [stream] at hs
    cases hs
  | publishOtherRow mem _ stream payload =>
    exact .sends mem rfl rfl ⟨fun hs m hm => absurd hm (payload hs m), fun hs => absurd hs stream⟩
  | _ => exact .nothing rfl

/-- A row that carries work on is inserted alone, under a name that no row has had. -/
inductive Inserting (s t : System) : Prop where
  | announced {rows : List OutboxEventRecord}
      (events : ∀ row ∈ s.db.outboxEvents, row.status = .pending → row ∈ t.db.outboxEvents)
      (inserted : t.db.outboxInserted = s.db.outboxInserted ++ rows)
      (unused : ∀ row ∈ rows, ¬ row.Carries ∧ ∀ row₀ ∈ s.db.outboxInserted, row₀.Carries →
        row₀.messageId ≠ row.messageId)
  | carried {row : OutboxEventRecord} (events : t.db.outboxEvents = s.db.outboxEvents ++ [row])
      (inserted : t.db.outboxInserted = s.db.outboxInserted ++ [row]) (pending : row.status = .pending)
      (stream : (row.messageType = .task → row.targetStream = .tasks) ∧
        (row.messageType = .executionTriggered → row.targetStream = .events ∧
          row.payload = .execution row.aggregateId))
      (unused : ∀ row₀ ∈ s.db.outboxInserted, row₀.messageId ≠ row.messageId)
  | marked {messageId : Uuid} (sent : messageId ∈ s.outboxSent)
      (events : ∀ row ∈ s.db.outboxEvents, row.status = .pending → row.messageId ≠ messageId → row ∈ t.db.outboxEvents)
      (inserted : t.db.outboxInserted = s.db.outboxInserted)

theorem Inserting.of_eq (h : t.db.outboxEvents = s.db.outboxEvents) (h' : t.db.outboxInserted = s.db.outboxInserted) :
    Inserting s t :=
  @Inserting.announced s t [] (fun row hrow _ => h ▸ hrow) (by rw [h', List.append_nil]) (by simp)

/-- An announcement is never named like a trigger or a task. -/
theorem Identifiers.announcement_unused (h : Identifiers s) {event : TaskCompletionEvent}
    (hmem : event ∈ s.completions.entries) {row row₀ : OutboxEventRecord} (hrow : row.Announces event.eventId)
    (hrow₀ : row₀ ∈ s.db.outboxInserted) (hcarries : row₀.Carries) : row₀.messageId ≠ row.messageId := by
  intro heq
  obtain ⟨d, -, hd⟩ := h.drawn _ _ (.published hmem)
  obtain ⟨-, -, -, -, hder⟩ := hrow
  cases h.named row₀ hrow₀ with
  | trigger _ id _ unknown =>
    rcases hder with hid | ⟨label, e, suffix, hid⟩
    · refine unknown event.attemptId ?_
      rw [heq, hid]
      exact .published hmem
    · rw [← heq, id] at hid
      cases hid
  | task _ id =>
    rcases hder with hid | ⟨label, e, suffix, hid⟩ <;> rw [← heq, id, hd] at hid <;> cases hid
  | event type =>
    rcases hcarries with hc | hc
    · exact type.1 hc
    · exact type.2 hc

/-- A trigger's identifier is drawn for it. -/
theorem Identifiers.draw_unused (h : Identifiers s) : ∀ row ∈ s.db.outboxInserted, row.messageId ≠ .v4 s.draws := by
  intro row hrow hid
  cases h.named row hrow with
  | trigger _ id drawn =>
    rw [id] at hid
    cases hid
    exact lt_irrefl _ drawn
  | task _ id =>
    rw [id] at hid
    cases hid
  | event _ mem derived =>
    obtain ⟨d, hlt, hd⟩ := h.drawn _ _ (.published mem)
    rcases derived with he | ⟨label, e', suffix, he⟩
    · rw [hid, hd] at he
      cases he
      exact lt_irrefl _ hlt
    · rw [hid] at he
      cases he

theorem Effect.inserting (heffect : Effect cfg s a t) (hc : Consistent s) (hd : Dispatches s) (hids : Identifiers s) :
    Inserting s t := by
  cases heffect with
  | submit commit =>
    obtain ⟨w, -, -, -, -, rfl⟩ := submit_ok hc.sound commit
    exact .of_eq rfl rfl
  | trigger _ commit =>
    obtain ⟨-, rfl⟩ := triggerCommit_ok hc.sound commit
    exact .carried rfl rfl rfl ⟨by simp [outboxRow], fun _ => ⟨rfl, rfl⟩⟩ hids.draw_unused
  | process _ entry _ processed =>
    obtain ⟨rows, hevents, hinserted, hann⟩ := (process_ok hc.sound hc.runs processed).2.outbox
    refine .announced (fun row hrow _ => ?_) hinserted fun row hrow => ⟨?_, fun row₀ hrow₀ hcarries => ?_⟩
    · dsimp only
      rw [hevents]
      exact List.mem_append_left _ hrow
    · exact fun hcarries => hcarries.elim (hann row hrow).1 (hann row hrow).2.1
    · exact hids.announcement_unused (List.mem_of_getElem? entry) (hann row hrow) hrow₀ hcarries
  | @dispatch k j g x nodes n phase result db handling toDispatch node dispatched =>
    rcases dispatch_cases hc hd handling toDispatch node dispatched with
      ⟨rfl, -⟩ | ⟨r, input, hnode, pending, -, -, rfl⟩
    · exact .of_eq rfl rfl
    · refine .carried rfl rfl rfl ⟨fun _ => rfl, by simp [outboxRow, taskRow]⟩ ?_
      refine hids.task_unused fun hclaimed => ?_
      rcases hd.node x.executionId n.id with ⟨-, -, hst⟩ | ⟨hno, -⟩
      · exact hst ((status_of_node hnode).trans pending)
      · exact hno hclaimed
  | @markRow messageId sent =>
    refine .marked sent (fun row hrow _ hne => ?_) rfl
    refine Table.mem_updateWhere.2 ⟨row, hrow, ?_⟩
    simp [hne]
  | cleanRow =>
    refine @Inserting.announced _ _ [] (fun row hrow hpending => ?_) (by simp) (by simp)
    exact List.mem_filter.2 ⟨hrow, by simp [hpending]⟩
  | markRetry => exact .of_eq markRetryPublished_sameRuns.outbox markRetryPublished_sameRuns.inserted
  | _ => exact .of_eq rfl rfl

structure Outbox (s : System) : Prop where
  unique : ∀ row ∈ s.db.outboxInserted, ∀ row' ∈ s.db.outboxInserted, row.Carries → row.messageId = row'.messageId →
    row.content = row'.content
  stream : ∀ row ∈ s.db.outboxInserted, (row.messageType = .task → row.targetStream = .tasks) ∧
    (row.messageType = .executionTriggered → row.targetStream = .events ∧ row.payload = .execution row.aggregateId)
  known : ∀ id ∈ s.outboxSent, ∃ row ∈ s.db.outboxInserted, row.messageId = id
  sent : ∀ row ∈ s.db.outboxInserted, row.Carries → row.messageId ∈ s.outboxSent → Delivered s row
  kept : ∀ row ∈ s.db.outboxInserted, row.Carries → Delivered s row ∨
    ∃ row' ∈ s.db.outboxEvents, row'.content = row.content ∧ row'.status = .pending

theorem outbox_init : Outbox init := by
  constructor <;> simp [init, Database.empty]

theorem content_id {row row' : OutboxEventRecord} (h : row'.content = row.content) : row'.messageId = row.messageId :=
  congrArg Prod.fst h

theorem Inserting.unique (h : Inserting s t) (hs : Outbox s) :
    ∀ row ∈ t.db.outboxInserted, ∀ row' ∈ t.db.outboxInserted,
    row.Carries → row.messageId = row'.messageId → row.content = row'.content := by
  intro row hrow row' hrow' hcarries hid
  cases h with
  | announced _ inserted unused =>
    rw [inserted] at hrow hrow'
    rcases List.mem_append.1 hrow with hrow | hrow
    · rcases List.mem_append.1 hrow' with hrow' | hrow'
      · exact hs.unique row hrow row' hrow' hcarries hid
      · exact absurd hid ((unused row' hrow').2 row hrow hcarries)
    · exact absurd hcarries (unused row hrow).1
  | carried _ inserted _ _ unused =>
    rw [inserted] at hrow hrow'
    rcases List.mem_append.1 hrow with hrow | hrow <;> rcases List.mem_append.1 hrow' with hrow' | hrow'
    · exact hs.unique row hrow row' hrow' hcarries hid
    · exact absurd (List.mem_singleton.1 hrow' ▸ hid) (unused row hrow)
    · exact absurd (List.mem_singleton.1 hrow ▸ hid.symm) (unused row' hrow')
    · rw [List.mem_singleton.1 hrow, List.mem_singleton.1 hrow']
  | marked _ _ inserted =>
    rw [inserted] at hrow hrow'
    exact hs.unique row hrow row' hrow' hcarries hid

theorem Inserting.mono (h : Inserting s t) {row : OutboxEventRecord} (hrow : row ∈ s.db.outboxInserted) :
    row ∈ t.db.outboxInserted := by
  cases h with
  | announced _ inserted => exact inserted ▸ List.mem_append_left _ hrow
  | carried _ inserted => exact inserted ▸ List.mem_append_left _ hrow
  | marked _ _ inserted => exact inserted ▸ hrow

/-- An inserted row that carries work on is an old one, or it waits in the outbox under a name
that was never sent. -/
theorem Inserting.cases (h : Inserting s t) (hs : Outbox s) {row : OutboxEventRecord}
    (hrow : row ∈ t.db.outboxInserted) (hcarries : row.Carries) : row ∈ s.db.outboxInserted ∨
      (row ∈ t.db.outboxEvents ∧ row.status = .pending ∧ row.messageId ∉ s.outboxSent) := by
  cases h with
  | announced _ inserted unused =>
    rw [inserted] at hrow
    rcases List.mem_append.1 hrow with hrow | hrow
    · exact .inl hrow
    · exact absurd hcarries (unused row hrow).1
  | carried events inserted pending _ unused =>
    rw [inserted] at hrow
    rcases List.mem_append.1 hrow with hrow | hrow
    · exact .inl hrow
    · obtain rfl := List.mem_singleton.1 hrow
      refine .inr ⟨events ▸ List.mem_append_right _ (List.mem_singleton.2 rfl), pending, fun hsent => ?_⟩
      obtain ⟨row₀, hrow₀, hid⟩ := hs.known _ hsent
      exact unused row₀ hrow₀ hid
  | marked _ _ inserted => exact .inl (inserted ▸ hrow)

/-- A pending row stays, unless it is marked after it was sent. -/
theorem Inserting.pending (h : Inserting s t) {row : OutboxEventRecord} (hrow : row ∈ s.db.outboxEvents)
    (hpending : row.status = .pending) : row ∈ t.db.outboxEvents ∨ row.messageId ∈ s.outboxSent := by
  cases h with
  | announced events => exact .inl (events row hrow hpending)
  | carried events => exact .inl (events ▸ List.mem_append_left _ hrow)
  | @marked messageId sent events =>
    by_cases hid : row.messageId = messageId
    · exact .inr (hid ▸ sent)
    · exact .inl (events row hrow hpending hid)

theorem Effect.outbox (heffect : Effect cfg s a t) (hinsert : Inserting s t) (hids : Identifiers s) (h : Outbox s) :
    Outbox t := by
  have hmono : ∀ {row row' : OutboxEventRecord}, Delivered s row → row'.content = row.content → Delivered t row' :=
    fun hd hcontent => hd.mono hcontent heffect.taskEntries heffect.eventEntries
  refine ⟨hinsert.unique h, fun row hrow => ?_, fun id hid => ?_, fun row hrow hcarries hsent => ?_,
    fun row hrow hcarries => ?_⟩
  · cases hinsert with
    | announced _ inserted unused =>
      rw [inserted] at hrow
      rcases List.mem_append.1 hrow with hrow | hrow
      · exact h.stream row hrow
      · exact ⟨fun hm => absurd (.inr hm) (unused row hrow).1, fun hm => absurd (.inl hm) (unused row hrow).1⟩
    | carried _ inserted _ stream =>
      rw [inserted] at hrow
      rcases List.mem_append.1 hrow with hrow | hrow
      · exact h.stream row hrow
      · exact List.mem_singleton.1 hrow ▸ stream
    | marked _ _ inserted => exact h.stream row (inserted ▸ hrow)
  · have hold : ∀ id ∈ s.outboxSent, ∃ row ∈ t.db.outboxInserted, row.messageId = id := by
      intro id hid
      obtain ⟨row, hrow, hrid⟩ := h.known id hid
      exact ⟨row, hinsert.mono hrow, hrid⟩
    cases heffect.sending with
    | nothing eq => exact hold id (eq ▸ hid)
    | sends mem db eq =>
      rw [eq] at hid
      rcases List.mem_append.1 hid with hid | hid
      · exact hold id hid
      · obtain ⟨row₀, hrow₀, hcontent⟩ := hids.stored _ mem
        exact ⟨row₀, hinsert.mono hrow₀, (content_id hcontent).symm.trans (List.mem_singleton.1 hid).symm⟩
  · cases heffect.sending with
    | nothing eq =>
      rw [eq] at hsent
      rcases hinsert.cases h hrow hcarries with hold | ⟨-, -, hno⟩
      · exact hmono (h.sent row hold hcarries hsent) rfl
      · exact absurd hsent hno
    | sends mem db eq delivered =>
      rw [db] at hrow
      rw [eq] at hsent
      rcases List.mem_append.1 hsent with hsent | hsent
      · exact hmono (h.sent row hrow hcarries hsent) rfl
      · obtain ⟨row₀, hrow₀, hcontent⟩ := hids.stored _ mem
        refine delivered.mono (t := t) ?_ ⟨[], by simp⟩ ⟨[], by simp⟩
        rw [hcontent]
        exact h.unique row hrow row₀ hrow₀ hcarries ((List.mem_singleton.1 hsent).trans (content_id hcontent))
  · rcases hinsert.cases h hrow hcarries with hold | ⟨hmem, hpending, -⟩
    · rcases h.kept row hold hcarries with hdelivered | ⟨row', hrow', hcontent, hpending⟩
      · exact .inl (hmono hdelivered rfl)
      · rcases hinsert.pending hrow' hpending with hstays | hsent
        · exact .inr ⟨row', hstays, hcontent, hpending⟩
        · rw [content_id hcontent] at hsent
          exact .inl (hmono (h.sent row hold hcarries hsent) rfl)
    · exact .inr ⟨row, hmem, rfl, hpending⟩

theorem reachable_outbox (h : Reachable cfg anyStep s) : Outbox s :=
  Transition.Reachable.invariant outbox_init (fun _ _ _ hr hs _ ht =>
    (step_effect ht).outbox
      ((step_effect ht).inserting (reachable_consistent hr) (reachable_dispatches hr) (reachable_identifiers hr))
      (reachable_identifiers hr) hs) h

/-! ## Triggers and attempts -/

/-- The entry of the execution's trigger. -/
def IsTrigger (e : Uuid) (entry : LifecycleEvent) : Prop :=
  entry.eventType = .executionTriggered ∧ entry.payload = .execution e

/-- A trigger that is not in the stream yet waits in the outbox. -/
theorem trigger_kept (h : Reachable cfg anyStep s) {e : Uuid} (ht : s.db.Triggered e) :
    (∃ entry ∈ s.events.entries, IsTrigger e entry) ∨ ∃ row ∈ s.db.outboxEvents, row.status = .pending ∧
      row.messageType = .executionTriggered ∧ row.payload = .execution e := by
  obtain ⟨x, hx, hp⟩ := ht
  obtain ⟨row, hrow⟩ : ∃ row, row ∈ s.db.triggerInsertionsOf e := by
    cases reachable_triggerState h e with
    | missing execution => rw [hx] at execution; cases execution
    | pending execution status => rw [hx] at execution; cases execution; exact absurd status hp
    | @triggered _ row _ _ _ insertions => exact ⟨row, insertions ▸ List.mem_singleton.2 rfl⟩
  obtain ⟨hmem, hrow⟩ := List.mem_filter.1 hrow
  obtain ⟨htype, he⟩ := of_decide_eq_true hrow
  obtain ⟨hstream, hpayload⟩ := ((reachable_outbox h).stream row hmem).2 htype
  rw [he] at hpayload
  rcases (reachable_outbox h).kept row hmem (.inl htype) with hdelivered | ⟨row', hrow', hcontent, hpending⟩
  · exact .inl ⟨_, hdelivered.event hstream, htype, hpayload⟩
  · simp only [OutboxEventRecord.content, Prod.mk.injEq] at hcontent
    exact .inr ⟨row', hrow', hpending, hcontent.2.1.trans htype, hcontent.2.2.2.2.trans hpayload⟩

/-- The retries of the later attempts, in the order of these, and what has been sent of them. -/
structure Retries (s : System) : Prop where
  rows : s.db.taskRetryDispatches.map (·.attemptId) =
    ((s.db.taskAttempts.map (·.slot)).filter fun p => decide (1 < p.2.2)).map (·.1)
  sent : ∀ id ∈ s.retriesSent, ∃ m ∈ s.tasks.entries, m.attemptId = id
  published : ∀ d ∈ s.db.taskRetryDispatches, d.status = .published → ∃ m ∈ s.tasks.entries, m.attemptId = d.attemptId
  scheduled : ∀ r ∈ s.db.taskAttempts, 1 < r.attemptNumber → r.status = .scheduled ∨
    ∃ m ∈ s.tasks.entries, m.attemptId = r.attemptId
  task : ∀ r ∈ s.db.taskAttempts, ∃ task ∈ s.db.logicalTasks, task.taskId = r.taskId

theorem retries_init : Retries init := by
  constructor <;> simp [init, Database.empty]

theorem taskEntry_mem_mono (h : ∃ l, t.tasks.entries = s.tasks.entries ++ l) {m : NodeTaskMessage}
    (hm : m ∈ s.tasks.entries) : m ∈ t.tasks.entries := by
  obtain ⟨l, hl⟩ := h
  exact hl ▸ List.mem_append_left _ hm

theorem RetriesStep.rows (h : RetriesStep s a t) (hs : s.db.taskRetryDispatches.map (·.attemptId) =
    ((s.db.taskAttempts.map (·.slot)).filter fun p => decide (1 < p.2.2)).map (·.1))
    (hnumbers : ∀ r ∈ s.db.taskAttempts, 1 ≤ r.attemptNumber) :
    t.db.taskRetryDispatches.map (·.attemptId) =
      ((t.db.taskAttempts.map (·.slot)).filter fun p => decide (1 < p.2.2)).map (·.1) := by
  cases h with
  | @same new retries slots first =>
    have hnew : (new.filter fun p => decide (1 < p.2.2)) = [] := by
      rw [List.filter_eq_nil_iff]
      intro p hp
      simp [first p hp]
    rw [retries, slots, List.filter_append, hnew, List.append_nil, hs]
  | @scheduled r at' mem _ retries slots =>
    have := hnumbers r mem
    rw [retries, slots, List.filter_append, List.map_append, List.map_append, hs, List.filter_cons,
      if_pos (by simp only [decide_eq_true_eq]; omega)]
    rfl
  | marked _ _ retries slots =>
    rw [retries, slots, ← hs]
    exact Table.map_updateWhere fun _ _ _ => rfl

/-- A message of the attempt is in the stream if a worker or an event has to do with it. -/
theorem AttemptChange.entry {r r' : TaskAttemptRecord} (hchange : AttemptChange cfg s a r r') (hw : Workers s)
    (hs : ∀ id ∈ s.retriesSent, ∃ m ∈ s.tasks.entries, m.attemptId = id) :
    r' = r ∨ ∃ m ∈ s.tasks.entries, m.attemptId = r.attemptId := by
  have hflight : ∀ {k : Nat} {f : InFlight}, s.inFlight[k]? = some f → f.task ∈ s.tasks.entries := fun hf =>
    List.mem_of_getElem? (hw.carries _ (List.mem_of_getElem? hf)).entry
  have hevent : ∀ {k : Nat} {f : InFlight} {event : TaskCompletionEvent}, s.inFlight[k]? = some f →
      f.phase.event = some event → r.attemptId = event.attemptId →
        ∃ m ∈ s.tasks.entries, m.attemptId = r.attemptId := by
    intro k f event hf hp hid
    exact ⟨f.task, hflight hf, by rw [hid, ((hw.carries _ (List.mem_of_getElem? hf)).event event hp).1.attemptId]⟩
  have hprocessed : ∀ {index : Nat} {event : TaskCompletionEvent}, s.completions.entries[index]? = some event →
      r.attemptId = event.attemptId → ∃ m ∈ s.tasks.entries, m.attemptId = r.attemptId := by
    intro index event he hid
    obtain ⟨m, hm, hreports⟩ := (hw.completions event (List.mem_of_getElem? he)).task
    exact ⟨m, hm, by rw [hid, hreports.attemptId]⟩
  cases hchange with
  | same => exact .inl rfl
  | succeeded _ entry _ id => exact .inr (hprocessed entry id)
  | failed _ entry _ _ _ id => exact .inr (hprocessed entry id)
  | queued sent id => exact .inr (id ▸ hs _ sent)
  | claimed task _ id => exact .inr ⟨_, hflight task, id.symm⟩
  | renewed task _ id => exact .inr ⟨_, hflight task, id.symm⟩
  | recorded task phase id => exact .inr (hevent task (by rw [phase]; rfl) id)
  | marked task phase id => exact .inr (hevent task (by rw [phase]; rfl) id)

theorem Effect.retriesSent (h : Effect cfg s a t) : t.retriesSent = s.retriesSent ∨ ∃ m ∈ t.tasks.entries,
    t.retriesSent = s.retriesSent ++ [m.attemptId] := by
  cases h with
  | publishRetry => exact .inr ⟨_, List.mem_append_right _ (List.mem_singleton.2 rfl), rfl⟩
  | _ => exact .inl rfl

/-- Every attempt belongs to a task that is there. -/
theorem RetriesStep.task (h : RetriesStep s a t) (hgrows : Grows s.db t.db)
    (hs : ∀ r ∈ s.db.taskAttempts, ∃ task ∈ s.db.logicalTasks, task.taskId = r.taskId) :
    ∀ r ∈ t.db.taskAttempts, ∃ task ∈ t.db.logicalTasks, task.taskId = r.taskId := by
  have hold : ∀ r ∈ s.db.taskAttempts, ∃ task ∈ t.db.logicalTasks, task.taskId = r.taskId := by
    intro r hr
    obtain ⟨task, htask, hid⟩ := hs r hr
    obtain ⟨l, hl⟩ := hgrows.tasks
    have hmem : task.identity ∈ t.db.logicalTasks.map (·.identity) := by
      rw [hl]
      exact List.mem_append_left _ (List.mem_map_of_mem htask)
    obtain ⟨task', htask', heq⟩ := List.mem_map.1 hmem
    exact ⟨task', htask', (congrArg Prod.fst heq).trans hid⟩
  have hslots :
      ∀ {new : List (Uuid × Uuid × Nat)}, t.db.taskAttempts.map (·.slot) = s.db.taskAttempts.map (·.slot) ++ new →
      (∀ p ∈ new, ∃ task ∈ t.db.logicalTasks, task.taskId = p.2.1) →
      ∀ r ∈ t.db.taskAttempts, ∃ task ∈ t.db.logicalTasks, task.taskId = r.taskId := by
    intro new heq hnew r hr
    have hmem := List.mem_map_of_mem (f := (·.slot)) hr
    rw [heq] at hmem
    rcases List.mem_append.1 hmem with hmem | hmem
    · obtain ⟨r₀, hr₀, hslot⟩ := List.mem_map.1 hmem
      obtain ⟨task, htask, hid⟩ := hold r₀ hr₀
      exact ⟨task, htask, hid.trans (congrArg (·.2.1) hslot)⟩
    · exact hnew _ hmem
  cases h with
  | same _ slots _ task => exact hslots slots task
  | scheduled mem _ _ slots =>
    refine hslots slots fun p hp => ?_
    rw [List.mem_singleton.1 hp]
    exact hold _ mem
  | marked _ _ _ slots => exact @hslots [] (by rw [slots, List.append_nil]) (by simp)

theorem Effect.retries (heffect : Effect cfg s a t) (hr : Reachable cfg anyStep s) (hgrows : Grows s.db t.db)
    (h : Retries s) : Retries t := by
  have hretries := heffect.retriesStep (reachable_consistent hr) (reachable_dispatches hr)
  have hstep := reachable_attemptsStep hr heffect
  have hmono : ∀ {id : Uuid}, (∃ m ∈ s.tasks.entries, m.attemptId = id) → ∃ m ∈ t.tasks.entries, m.attemptId = id := by
    rintro id ⟨m, hm, hid⟩
    exact ⟨m, taskEntry_mem_mono heffect.taskEntries hm, hid⟩
  refine ⟨hretries.rows h.rows (reachable_dispatches hr).numbers, fun id hid => ?_, fun d hd hp => ?_,
    fun r hmem hlater => ?_, hretries.task hgrows h.task⟩
  · rcases heffect.retriesSent with heq | ⟨m, hm, heq⟩
    · exact hmono (h.sent id (heq ▸ hid))
    · rw [heq] at hid
      rcases List.mem_append.1 hid with hid | hid
      · exact hmono (h.sent id hid)
      · exact ⟨m, hm, (List.mem_singleton.1 hid).symm⟩
  · cases hretries with
    | same retries => exact hmono (h.published d (retries ▸ hd) hp)
    | scheduled _ _ retries =>
      rw [retries] at hd
      rcases List.mem_append.1 hd with hd | hd
      · exact hmono (h.published d hd hp)
      · rw [List.mem_singleton.1 hd] at hp
        cases hp
    | marked _ sent retries =>
      rw [retries] at hd
      obtain ⟨d₀, hd₀, hif⟩ := Table.mem_updateWhere.1 hd
      split at hif
      · rename_i hmarked
        rw [hif, (of_decide_eq_true hmarked).1]
        exact hmono (h.sent _ sent)
      · exact hmono (h.published d (hif ▸ hd₀) hp)
  · rcases hstep.mem hmem with ⟨r₀, hr₀, hchange⟩ | hnew
    · have hid := hchange.id
      have hnumber : r.attemptNumber = r₀.attemptNumber := congrArg (·.2.2) hchange.slot
      rcases hchange.entry (reachable_workers hr) h.sent with rfl | hentry
      · exact (h.scheduled r hr₀ hlater).imp_right hmono
      · exact .inr (hmono (hid ▸ hentry))
    · cases hnew with
      | first => exact absurd hlater (lt_irrefl _)
      | retry => exact .inl rfl

theorem reachable_retries (h : Reachable cfg anyStep s) : Retries s :=
  Transition.Reachable.invariant retries_init
    (fun _ _ _ hr hs _ ht => (step_effect ht).retries hr (reachable_grows hr ht) hs) h

end System

end WorkflowEngine
