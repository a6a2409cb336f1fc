import WorkflowEngine.Workers

/-!
# Identifiers

An event's identifier is drawn once, by the worker that ends the handler, and stays with its
attempt in memory, in the row and in the stream. The rows of the outbox are named after a
trigger's own draw, after a task, or after an event whose node has ended. So what a
transaction is about to insert is not there yet.
-/
namespace WorkflowEngine

open Database

namespace Database

variable {db db' : Database} {e : Uuid} {i : String}

/-- The node has reached its end. -/
def Ended (db : Database) (e : Uuid) (i : String) : Prop := db.status e i = .completed ∨ db.status e i = .failed

theorem Advances.failed (h : Advances db db') (hs : db.Sound) (hf : db.status e i = .failed) :
    db'.status e i = .failed := by
  cases hn : db.node e i with
  | none => simp [status, hn] at hf
  | some r =>
    obtain ⟨hmem, rfl, -⟩ := node_some hn
    obtain ⟨x, hx⟩ := hs.node_execution r hmem
    obtain ⟨w, hw, -⟩ := hs.workflow _ x hx
    rcases h.refines.old _ x w hx hw with hrun | hstep
    · exact (congrFun (congrArg DependencyRun.nodes hrun) i).trans hf
    · exact hstep.failed (n := i) hf

theorem Advances.ended (h : Advances db db') (hs : db.Sound) (he : db.Ended e i) : db'.Ended e i :=
  he.imp (h.later.completed e i) (h.failed hs)

theorem Ended.not_running (h : db.Ended e i) : db.status e i ≠ .running := by
  rcases h with h | h <;> simp [h]

/-- What a completion announces, it announces of an ended node. -/
theorem processed_ended {policy : RetryPolicy} {event : TaskCompletionEvent} {next : Uuid} {now : Time}
    {decision : TaskCompletionDecision} (h : Processed policy event next now db decision db') :
    db'.outboxEvents = db.outboxEvents ∨ db'.Ended event.executionId event.nodeId := by
  cases h with
  | early _ consult => exact .inl consult.sameRuns.outbox
  | late _ _ consult => exact .inl consult.sameRuns.outbox
  | completed _ _ _ _ _ _ _ run _ _ =>
    refine .inr (.inl ?_)
    have := congrFun ((congrArg DependencyRun.nodes run).trans DependencyRun.settle_nodes) event.nodeId
    exact this.trans (Function.update_self _ _ _)
  | failed _ _ _ _ _ _ _ run _ _ =>
    refine .inr (.inr ?_)
    have := congrFun ((congrArg DependencyRun.nodes run).trans DependencyRun.settle_nodes) event.nodeId
    exact this.trans (by simp [DependencyRun.failFrom])

end Database

namespace System

variable {cfg : Config} {s t : System} {a : Action}

/-! ## Events and their attempts -/

/-- Somewhere the system has the identifier of an event of this attempt. -/
inductive Knows (s : System) : Uuid → Uuid → Prop where
  | held {f : InFlight} {event : TaskCompletionEvent} (mem : f ∈ s.inFlight) (phase : f.phase.event = some event) :
      Knows s event.eventId event.attemptId
  | published {event : TaskCompletionEvent} (mem : event ∈ s.completions.entries) :
      Knows s event.eventId event.attemptId
  | stored {r : TaskAttemptRecord} {eventId : Uuid} (mem : r ∈ s.db.taskAttempts)
      (id : r.completionEventId = some eventId) : Knows s eventId r.attemptId

/-- A worker or a row has the identifier, not only the stream. -/
inductive Holds (s : System) : Uuid → Uuid → Prop where
  | flight {f : InFlight} {event : TaskCompletionEvent} (mem : f ∈ s.inFlight) (phase : f.phase.event = some event) :
      Holds s event.eventId event.attemptId
  | row {r : TaskAttemptRecord} {eventId : Uuid} (mem : r ∈ s.db.taskAttempts)
      (id : r.completionEventId = some eventId) :
      Holds s eventId r.attemptId

theorem Holds.knows {eventId attemptId : Uuid} (h : Holds s eventId attemptId) : Knows s eventId attemptId := by
  cases h with
  | flight mem phase => exact .held mem phase
  | row mem id => exact .stored mem id

/-- The step ends a handler and draws the identifier of its event. -/
structure Draws (s : System) (a : Action) (t : System) (eventId attemptId : Uuid) : Prop where
  id : eventId = .v4 s.draws
  draws : s.draws < t.draws
  db : t.db = s.db
  attempt : ∃ k outcome f, a = .work k outcome ∧ s.inFlight[k]? = some f ∧ f.task.attemptId = attemptId

/-- The event a task in flight has after a step. -/
theorem Effect.held (heffect : Effect cfg s a t) {f : InFlight} (hf : f ∈ t.inFlight) {event : TaskCompletionEvent}
    (hevent : f.phase.event = some event) :
    Holds s event.eventId event.attemptId ∨ Draws s a t event.eventId event.attemptId := by
  have hset : ∀ {k : Nat} {g : InFlight} {phase : TaskPhase}, t.inFlight = s.inFlight.set k { g with phase := phase } →
      (∀ event, phase.event = some event →
        Holds s event.eventId event.attemptId ∨ Draws s a t event.eventId event.attemptId) →
      Holds s event.eventId event.attemptId ∨ Draws s a t event.eventId event.attemptId := by
    intro k g phase heq hphase
    rw [heq] at hf
    rcases mem_set_cases hf with hf | rfl
    · exact .inl (.flight hf hevent)
    · exact hphase event hevent
  cases heffect with
  | finish task =>
    refine hset rfl fun event he => .inr ?_
    cases he
    refine ⟨?_, Nat.lt_succ_self _, rfl, _, _, _, rfl, task, completionEvent_reports.attemptId.symm⟩
    rename_i outcome _ _
    cases outcome <;> rfl
  | replayed task _ result =>
    refine hset rfl fun event he => .inl ?_
    cases he
    obtain ⟨r, eventId, outcome, attempt, hid, rfl, -⟩ := replayed_ok result
    have hholds := Holds.row (attempt_some attempt).1 hid
    rw [(attempt_some attempt).2] at hholds
    cases outcome <;> exact hholds
  | record task phase =>
    exact hset rfl fun event he => .inl (.flight (List.mem_of_getElem? task) (by rw [phase]; exact he))
  | publish task phase =>
    exact hset rfl fun event he => .inl (.flight (List.mem_of_getElem? task) (by rw [phase]; exact he))
  | claim | replay | alreadyCompleted | busy | invoke | mark | renew => exact hset rfl (by simp [TaskPhase.event])
  | deliverTask | reclaimTask =>
    rcases List.mem_append.1 hf with hf | hf
    · exact .inl (.flight hf hevent)
    · rw [List.mem_singleton.1 hf] at hevent
      cases hevent
  | claimRaised | leaseLost | recordRaised | replayRaised | markRaised | dropTask | acknowledgeTask =>
    exact .inl (.flight (List.mem_of_mem_eraseIdx hf) hevent)
  | _ => exact .inl (.flight hf hevent)

/-- What comes to be held is drawn, or it is the identifier of a success in the stream. -/
theorem Effect.holds (heffect : Effect cfg s a t) (hstep : AttemptsStep cfg s a t) {eventId attemptId : Uuid}
    (h : Holds t eventId attemptId) : Holds s eventId attemptId ∨ Draws s a t eventId attemptId ∨
      ∃ event ∈ s.completions.entries, event.status = .completed ∧ event.eventId = eventId ∧
        event.attemptId = attemptId := by
  cases h with
  | flight mem phase => exact (heffect.held mem phase).imp_right .inl
  | row mem id =>
    rcases hstep.mem mem with ⟨r₀, hr₀, hchange⟩ | hnew
    · cases hchange with
      | succeeded _ entry status hid =>
        cases id
        exact .inr (.inr ⟨_, List.mem_of_getElem? entry, status, rfl, hid.symm⟩)
      | recorded task phase hid =>
        cases id
        exact .inl (hid ▸ .flight (List.mem_of_getElem? task) (by rw [phase]; rfl))
      | same => exact .inl (.row hr₀ id)
      | _ => exact .inl (@Holds.row s r₀ _ hr₀ id)
    · cases hnew <;> cases id

/-- What the system knows of events after a step it knew before, or the step has drawn it. -/
theorem Effect.knows (heffect : Effect cfg s a t) (hstep : AttemptsStep cfg s a t) {eventId attemptId : Uuid}
    (h : Knows t eventId attemptId) : Knows s eventId attemptId ∨ Draws s a t eventId attemptId := by
  have hholds : Holds t eventId attemptId → Knows s eventId attemptId ∨ Draws s a t eventId attemptId := by
    intro h
    rcases heffect.holds hstep h with hold | hnew | ⟨event, mem, -, rfl, rfl⟩
    · exact .inl hold.knows
    · exact .inr hnew
    · exact .inl (.published mem)
  cases h with
  | held mem phase => exact hholds (.flight mem phase)
  | stored mem id => exact hholds (.row mem id)
  | published mem =>
    rcases heffect.completions with heq | ⟨k, f, event, task, phase, heq, -⟩
    · exact .inl (.published (heq ▸ mem))
    · rw [heq] at mem
      rcases List.mem_append.1 mem with mem | mem
      · exact .inl (.published mem)
      · rw [List.mem_singleton.1 mem]
        exact .inl (.held (List.mem_of_getElem? task) (by rw [phase]; rfl))

/-! ## Rows of the outbox -/

/-- What the row of a message is named after. -/
inductive Named (s : System) (row : OutboxEventRecord) : Prop where
  | trigger {d : Nat} (type : row.messageType = .executionTriggered) (id : row.messageId = .v4 d) (drawn : d < s.draws)
      (unknown : ∀ attemptId, ¬ Knows s row.messageId attemptId)
  | task {e : Uuid} {i : String} (type : row.messageType = .task) (id : row.messageId = createTaskId e i)
      (claimed : s.Claimed e i)
  | event {event : TaskCompletionEvent} (type : row.messageType ≠ .executionTriggered ∧ row.messageType ≠ .task)
      (mem : event ∈ s.completions.entries) (id : DerivedFrom event.eventId row.messageId)
      (ended : s.db.Ended event.executionId event.nodeId)

structure Identifiers (s : System) : Prop where
  drawn : ∀ eventId attemptId, Knows s eventId attemptId → ∃ d < s.draws, eventId = .v4 d
  unique : ∀ eventId attemptId attemptId', Knows s eventId attemptId → Knows s eventId attemptId' →
    attemptId = attemptId'
  named : ∀ row ∈ s.db.outboxInserted, Named s row
  stored : ∀ row ∈ s.db.outboxEvents, ∃ row₀ ∈ s.db.outboxInserted, row.content = row₀.content

theorem identifiers_init : Identifiers init := by
  refine ⟨fun eventId attemptId h => ?_, fun eventId attemptId attemptId' h => ?_, by simp [init, Database.empty],
    by simp [init, Database.empty]⟩
  · cases h with
    | held mem => cases mem
    | published mem => cases mem
    | stored mem => cases mem
  · cases h with
    | held mem => cases mem
    | published mem => cases mem
    | stored mem => cases mem

theorem Effect.completion_mono (heffect : Effect cfg s a t) {event : TaskCompletionEvent}
    (h : event ∈ s.completions.entries) : event ∈ t.completions.entries := by
  rcases heffect.completions with heq | ⟨_, _, _, _, _, heq, -⟩
  · exact heq ▸ h
  · rw [heq]
    exact List.mem_append_left _ h

theorem Named.mono {row : OutboxEventRecord} (h : Named s row) (heffect : Effect cfg s a t)
    (hstep : AttemptsStep cfg s a t) (hadv : Advances s.db t.db) (hs : s.db.Sound) : Named t row := by
  cases h with
  | trigger type id drawn unknown =>
    refine .trigger type id (drawn.trans_le heffect.draws) fun attemptId hknows => ?_
    rcases heffect.knows hstep hknows with hold | hnew
    · exact unknown attemptId hold
    · have := id.symm.trans hnew.id
      cases this
      exact lt_irrefl _ drawn
  | task type id claimed => exact .task type id (history_mono heffect.history claimed)
  | event type mem id ended => exact .event type (heffect.completion_mono mem) id (hadv.ended hs ended)

/-- What a step does to the outbox: it inserts rows, marks the rows of one message, or deletes them. -/
inductive OutboxStep (s t : System) : Prop where
  | inserted {rows : List OutboxEventRecord} (events : t.db.outboxEvents = s.db.outboxEvents ++ rows)
      (inserted : t.db.outboxInserted = s.db.outboxInserted ++ rows)
  | marked {messageId : Uuid} {f : OutboxEventRecord → OutboxEventRecord} (sent : messageId ∈ s.outboxSent)
      (content : ∀ row, (f row).content = row.content)
      (events : t.db.outboxEvents = Table.updateWhere
        (fun r => decide (r.messageId = messageId ∧ r.status = .pending)) f s.db.outboxEvents)
      (inserted : t.db.outboxInserted = s.db.outboxInserted)
  | cleaned {messageId : Uuid}
      (events : t.db.outboxEvents = s.db.outboxEvents.filter
        fun r => !decide (r.messageId = messageId ∧ r.status = .published))
      (inserted : t.db.outboxInserted = s.db.outboxInserted)

theorem OutboxStep.of_eq (h : t.db.outboxEvents = s.db.outboxEvents) (h' : t.db.outboxInserted = s.db.outboxInserted) :
    OutboxStep s t :=
  @OutboxStep.inserted s t [] (by rw [h, List.append_nil]) (by rw [h', List.append_nil])

theorem Effect.outboxStep (heffect : Effect cfg s a t) (hc : Consistent s) : OutboxStep s t := by
  cases heffect with
  | submit commit =>
    obtain ⟨w, -, -, -, -, rfl⟩ := submit_ok hc.sound commit
    exact .of_eq rfl rfl
  | trigger _ commit =>
    obtain ⟨-, rfl⟩ := triggerCommit_ok hc.sound commit
    exact .inserted rfl rfl
  | process _ _ _ processed =>
    obtain ⟨rows, hevents, hinserted, -⟩ := (process_ok hc.sound hc.runs processed).2.outbox
    exact .inserted hevents hinserted
  | dispatch _ _ _ dispatched =>
    obtain ⟨rows, hevents, hinserted, -⟩ := dispatched_outbox (dispatch_ok hc.sound.nodes_keyed dispatched)
    exact .inserted hevents hinserted
  | markRow sent =>
    refine .marked sent ?_ rfl rfl
    exact fun _ => rfl
  | cleanRow => exact .cleaned rfl rfl
  | markRetry => exact .of_eq markRetryPublished_sameRuns.outbox markRetryPublished_sameRuns.inserted
  | _ => exact .of_eq rfl rfl

/-- The rows a step adds are named after what the step is about. -/
theorem Effect.named (heffect : Effect cfg s a t) (hstep : AttemptsStep cfg s a t) (hadv : Advances s.db t.db)
    (hc : Consistent s) (hd : Dispatches s) (hd' : Dispatches t) (h : Identifiers s) :
    ∀ row ∈ t.db.outboxInserted, Named t row := by
  intro row hrow
  have hold : row ∈ s.db.outboxInserted → Named t row := fun hmem => (h.named _ hmem).mono heffect hstep hadv hc.sound
  cases heffect with
  | submit commit =>
    obtain ⟨w, -, -, -, -, rfl⟩ := submit_ok hc.sound commit
    exact hold hrow
  | trigger request_mem commit =>
    obtain ⟨-, rfl⟩ := triggerCommit_ok hc.sound commit
    rcases List.mem_append.1 hrow with hmem | hmem
    · exact hold hmem
    · rw [List.mem_singleton.1 hmem]
      refine .trigger (d := s.draws) rfl rfl (Nat.lt_succ_self _) fun attemptId hknows => ?_
      rcases (Effect.trigger request_mem commit).knows hstep hknows with hknown | hnew
      · obtain ⟨d, hlt, he⟩ := h.drawn _ _ hknown
        cases he
        exact lt_irrefl _ hlt
      · obtain ⟨-, -, -, k, outcome, f, ha, -⟩ := hnew
        cases ha
  | process handling entry _ processed =>
    have hproc := (process_ok hc.sound hc.runs processed).2
    obtain ⟨rows, hout, hins, hann⟩ := hproc.outbox
    dsimp only at hrow
    rw [hins] at hrow
    rcases List.mem_append.1 hrow with hmem | hmem
    · exact hold hmem
    · obtain ⟨hnoTrigger, hnoTask, -, -, hder⟩ := hann row hmem
      refine .event ⟨hnoTrigger, hnoTask⟩ (List.mem_of_getElem? entry) hder
        ((processed_ended hproc).resolve_left fun heq => ?_)
      rw [heq] at hout
      have : rows = [] := by simpa using hout
      rw [this] at hmem
      cases hmem
  | @dispatch k j g x nodes n phase result db handling toDispatch node dispatched =>
    rcases dispatch_cases hc hd handling toDispatch node dispatched with
      ⟨rfl, -⟩ | ⟨r, input, hnode, pending, -, -, rfl⟩
    · exact hold hrow
    · rcases List.mem_append.1 hrow with hmem | hmem
      · exact hold hmem
      · rw [List.mem_singleton.1 hmem]
        refine .task (e := x.executionId) (i := n.id) rfl rfl ?_
        refine ((hd'.node x.executionId n.id).resolve_right fun hno => hno.2.2 (.inl ?_)).1
        exact (registered_status input (.v4 s.draws) s.now hnode pending x.executionId n.id).trans (if_pos ⟨rfl, rfl⟩)
  | markRetry => exact hold (markRetryPublished_sameRuns.inserted ▸ hrow)
  | _ => exact hold hrow

theorem OutboxStep.stored (h : OutboxStep s t)
    (hs : ∀ row ∈ s.db.outboxEvents, ∃ row₀ ∈ s.db.outboxInserted, row.content = row₀.content) :
    ∀ row ∈ t.db.outboxEvents, ∃ row₀ ∈ t.db.outboxInserted, row.content = row₀.content := by
  intro row hrow
  cases h with
  | inserted events inserted =>
    rw [events] at hrow
    rw [inserted]
    rcases List.mem_append.1 hrow with hrow | hrow
    · obtain ⟨row₀, hrow₀, hcontent⟩ := hs row hrow
      exact ⟨row₀, List.mem_append_left _ hrow₀, hcontent⟩
    · exact ⟨row, List.mem_append_right _ hrow, rfl⟩
  | marked _ content events inserted =>
    rw [events] at hrow
    rw [inserted]
    obtain ⟨row', hrow', rfl⟩ := Table.mem_updateWhere.1 hrow
    obtain ⟨row₀, hrow₀, hcontent⟩ := hs row' hrow'
    refine ⟨row₀, hrow₀, ?_⟩
    split
    · rw [content, hcontent]
    · exact hcontent
  | cleaned events inserted =>
    rw [events] at hrow
    rw [inserted]
    exact hs row (List.mem_of_mem_filter hrow)

theorem Effect.identifiers (heffect : Effect cfg s a t) (hstep : AttemptsStep cfg s a t) (hadv : Advances s.db t.db)
    (hc : Consistent s) (hd : Dispatches s) (hd' : Dispatches t) (h : Identifiers s) : Identifiers t := by
  have hfresh : ∀ {eventId attemptId}, Knows s eventId attemptId → eventId ≠ .v4 s.draws := by
    rintro _ attemptId hknows rfl
    obtain ⟨d, hlt, he⟩ := h.drawn _ _ hknows
    cases he
    exact lt_irrefl _ hlt
  refine ⟨fun eventId attemptId hknows => ?_, fun eventId attemptId attemptId' hknows hknows' => ?_,
    heffect.named hstep hadv hc hd hd' h, (heffect.outboxStep hc).stored h.stored⟩
  · rcases heffect.knows hstep hknows with hold | hnew
    · obtain ⟨d, hlt, he⟩ := h.drawn _ _ hold
      exact ⟨d, hlt.trans_le heffect.draws, he⟩
    · exact ⟨s.draws, hnew.draws, hnew.id⟩
  · rcases heffect.knows hstep hknows with hold | hnew <;> rcases heffect.knows hstep hknows' with hold' | hnew'
    · exact h.unique eventId attemptId attemptId' hold hold'
    · exact absurd hnew'.id (hfresh hold)
    · exact absurd hnew.id (hfresh hold')
    · obtain ⟨k, outcome, f, ha, hf, hid⟩ := hnew.attempt
      obtain ⟨k', outcome', f', ha', hf', hid'⟩ := hnew'.attempt
      rw [ha] at ha'
      cases ha'
      rw [hf] at hf'
      cases hf'
      exact hid.symm.trans hid'

theorem reachable_advances (h : Reachable cfg anyStep s) (hstep : step cfg s a = some t) : Advances s.db t.db :=
  (step_kind (reachable_consistent h).sound hstep).advances (reachable_consistent h)

theorem reachable_identifiers (h : Reachable cfg anyStep s) : Identifiers s :=
  Transition.Reachable.invariant identifiers_init (fun _ a _ hr hs _ ht =>
    (step_effect ht).identifiers (reachable_attemptsStep hr (step_effect ht)) (reachable_advances hr ht)
      (reachable_consistent hr) (reachable_dispatches hr) (reachable_dispatches (.next a hr trivial ht)) hs) h

end System

end WorkflowEngine
