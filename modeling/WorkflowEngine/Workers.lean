import WorkflowEngine.Attempts

/-!
# Tasks in flight and their events

What holds of every message and every event, in all runs: a task message carries an attempt
and the task it belongs to, a worker holds what the stream gave it, an event says whose
outcome it is, and nothing is in the completion stream that no worker has published.
-/
namespace WorkflowEngine

open Database

/-- A message for an attempt that exists, with the data of its task. -/
def Database.Issued (db : Database) (m : NodeTaskMessage) : Prop :=
  (m.attemptId, m.taskId, m.attemptNumber) ∈ db.taskAttempts.map (·.slot) ∧
    (m.taskId, m.executionId, m.nodeId, m.handler, m.handlerConfig, m.resolvedInput) ∈ db.logicalTasks.map (·.identity)

namespace TaskCompletionEvent

/-- The event is about the attempt of the message. -/
structure Reports (event : TaskCompletionEvent) (m : NodeTaskMessage) : Prop where
  taskId : event.taskId = m.taskId
  attemptId : event.attemptId = m.attemptId
  attemptNumber : event.attemptNumber = m.attemptNumber
  executionId : event.executionId = m.executionId
  nodeId : event.nodeId = m.nodeId

/-- The fields of an event that say what the outcome was. -/
def result (event : TaskCompletionEvent) : Uuid × TaskCompletionStatus × Json × Option String × Option String :=
  (event.eventId, event.status, event.outputData, event.errorMessage, event.errorType)

/-- Completed with an output, or failed with an error. -/
inductive Built (event : TaskCompletionEvent) : Prop where
  | completed (status : event.status = .completed) (message : event.errorMessage = none)
      (type : event.errorType = none)
  | failed {message type : String} (status : event.status = .failed) (output : event.outputData = .null)
      (message_eq : event.errorMessage = some message) (type_eq : event.errorType = some type)

end TaskCompletionEvent

/-- The completion event a task in flight holds. -/
def TaskPhase.event : TaskPhase → Option TaskCompletionEvent
  | .executed event => some event
  | .recorded event => some event
  | .published event => some event
  | _ => none

namespace System

variable {cfg : Config} {s t : System} {a : Action}

theorem completionEvent_reports {m : NodeTaskMessage} {eventId : Uuid} {outcome : HandlerOutcome} :
    (completionEvent m eventId outcome).Reports m := by
  cases outcome <;> exact ⟨rfl, rfl, rfl, rfl, rfl⟩

theorem completionEvent_built {m : NodeTaskMessage} {eventId : Uuid} {outcome : HandlerOutcome} :
    (completionEvent m eventId outcome).Built := by
  cases outcome with
  | success => exact .completed rfl rfl rfl
  | failure => exact .failed rfl rfl rfl rfl

/-- A replayed event is built from the columns of the attempt's row. -/
theorem replayed_ok {m : NodeTaskMessage} {attemptId : Uuid} {event : TaskCompletionEvent} {db : Database}
    (h : (db.getResult attemptId).bind (eventFromResult m) = .ok event) :
    ∃ r eventId outcome, db.getAttempt attemptId = some r ∧ r.completionEventId = some eventId ∧
      event = completionEvent m eventId outcome ∧
      ((r.errorMessage = none ∧ r.errorType = none ∧ outcome = .success r.resultData) ∨
        ∃ message type, r.errorMessage = some message ∧ r.errorType = some type ∧
          outcome = .failure message type) := by
  obtain ⟨result, hresult, h⟩ := Except.bind_eq_ok.1 h
  unfold getResult at hresult
  split at hresult
  · cases hresult
  · rename_i r hr
    split at hresult
    · cases hresult
    · rename_i eventId hid
      cases hresult
      unfold eventFromResult at h
      split at h
      · rename_i hmessage htype
        cases h
        exact ⟨r, eventId, _, hr, hid, rfl, .inl ⟨hmessage, htype, rfl⟩⟩
      · rename_i message type hmessage htype
        cases h
        exact ⟨r, eventId, _, hr, hid, rfl, .inr ⟨message, type, hmessage, htype, rfl⟩⟩
      · cases h

/-! ## Growth -/

/-- Tasks and attempts are only ever added. -/
structure Grows (db db' : Database) : Prop where
  slots : ∃ l, db'.taskAttempts.map (·.slot) = db.taskAttempts.map (·.slot) ++ l
  tasks : ∃ l, db'.logicalTasks.map (·.identity) = db.logicalTasks.map (·.identity) ++ l

theorem Grows.issued {db db' : Database} (h : Grows db db') {m : NodeTaskMessage} (hm : db.Issued m) :
    db'.Issued m := by
  obtain ⟨l, hl⟩ := h.slots
  obtain ⟨l', hl'⟩ := h.tasks
  refine ⟨?_, ?_⟩
  · rw [hl]
    exact List.mem_append_left _ hm.1
  · rw [hl']
    exact List.mem_append_left _ hm.2

theorem Grows.of_eq {db db' : Database} (ha : db'.taskAttempts = db.taskAttempts)
    (ht : db'.logicalTasks = db.logicalTasks) : Grows db db' :=
  ⟨⟨[], by rw [ha, List.append_nil]⟩, ⟨[], by rw [ht, List.append_nil]⟩⟩

theorem Kind.grows (hk : Kind cfg s t) (hc : Consistent s) (hd : Dispatches s) : Grows s.db t.db := by
  cases hk with
  | submit _ _ _ _ eq => subst eq; exact .of_eq rfl rfl
  | trigger _ commit eq =>
    subst eq
    obtain ⟨-, rfl⟩ := triggerCommit_ok hc.sound commit
    exact .of_eq rfl rfl
  | process _ _ _ processed eq =>
    subst eq
    obtain ⟨htasks, hslots⟩ := processed_slots (process_ok hc.sound hc.runs processed).2
    refine ⟨?_, ⟨[], by rw [htasks, List.append_nil]⟩⟩
    rcases hslots with hslots | ⟨r, -, hslots⟩
    · exact ⟨[], by rw [hslots, List.append_nil]⟩
    · exact ⟨_, hslots⟩
  | @dispatch k j g x nodes n phase result db handling toDispatch node dispatched _ eq =>
    subst eq
    rcases dispatch_cases hc hd handling toDispatch node dispatched with ⟨rfl, -⟩ | ⟨_, input, -, -, -, -, rfl⟩
    · exact .of_eq rfl rfl
    · have hadds := registered_adds s.db x n input (.v4 s.draws) s.now
      exact ⟨⟨_, hadds.slots⟩, ⟨_, hadds.tasks⟩⟩
  | evaluate _ _ _ eq => subst eq; exact .of_eq rfl rfl
  | read _ _ _ eq => subst eq; exact .of_eq rfl rfl
  | quiet hq =>
    exact ⟨⟨[], by rw [List.append_nil]; exact map_slot_of_identity hq.attempts⟩,
      ⟨[], by rw [hq.tasks, List.append_nil]⟩⟩

theorem reachable_grows (h : Reachable cfg anyStep s) (hstep : step cfg s a = some t) : Grows s.db t.db :=
  (step_kind (reachable_consistent h).sound hstep).grows (reachable_consistent h) (reachable_dispatches h)

/-! ## Messages -/

theorem getDueRetries_issued {db : Database} {now : Time} {m : NodeTaskMessage} (h : m ∈ db.getDueRetries now) :
    db.Issued m ∧ ∃ r ∈ db.taskAttempts, r.attemptId = m.attemptId ∧ r.status = .scheduled ∧
      ∃ d ∈ db.taskRetryDispatches, d.attemptId = m.attemptId ∧ d.status = .pending := by
  simp only [getDueRetries, List.mem_flatMap, List.mem_map, List.mem_filter, decide_eq_true_eq] at h
  obtain ⟨task, htask, r, ⟨hr, hid, hst⟩, d, ⟨hd, hdid, hdst, -⟩, rfl⟩ := h
  refine ⟨⟨List.mem_map.2 ⟨r, hr, ?_⟩, List.mem_map.2 ⟨task, htask, rfl⟩⟩, r, hr, rfl, hst, d, hd, hdid, hdst⟩
  simp [TaskAttemptRecord.slot, retryMessage, hid]

/-- Every message on its way is issued. -/
structure Messages (s : System) : Prop where
  rows : ∀ row ∈ s.db.outboxEvents, ∀ m, row.payload = .task m → s.db.Issued m
  entries : ∀ m ∈ s.tasks.entries, s.db.Issued m
  due : ∀ m ∈ s.retriesDue, s.db.Issued m

theorem messages_init : Messages init := by
  refine ⟨?_, ?_, ?_⟩ <;> simp [init, Database.empty, GroupStream.empty]

/-- A step that adds no message. -/
theorem Messages.carry (h : Messages s) (hgrows : Grows s.db t.db)
    (hrows : ∀ row ∈ t.db.outboxEvents, (∃ row₀ ∈ s.db.outboxEvents, row.payload = row₀.payload) ∨
      ∀ m, row.payload = .task m → t.db.Issued m)
    (hentries : t.tasks.entries = s.tasks.entries) (hdue : t.retriesDue = s.retriesDue) : Messages t := by
  refine ⟨fun row hrow m hm => ?_, ?_, ?_⟩
  · rcases hrows row hrow with ⟨row₀, hrow₀, he⟩ | hnew
    · exact hgrows.issued (h.rows row₀ hrow₀ m (he ▸ hm))
    · exact hnew m hm
  · rw [hentries]
    exact fun m hm => hgrows.issued (h.entries m hm)
  · rw [hdue]
    exact fun m hm => hgrows.issued (h.due m hm)

theorem Effect.messages (heffect : Effect cfg s a t) (hc : Consistent s) (hd : Dispatches s) (hgrows : Grows s.db t.db)
    (h : Messages s) : Messages t := by
  have hsame : t.db.outboxEvents = s.db.outboxEvents → ∀ row ∈ t.db.outboxEvents,
      (∃ row₀ ∈ s.db.outboxEvents, row.payload = row₀.payload) ∨ ∀ m, row.payload = .task m → t.db.Issued m :=
    fun he row hrow => .inl ⟨row, he ▸ hrow, rfl⟩
  cases heffect with
  | submit commit =>
    obtain ⟨w, -, -, -, -, rfl⟩ := submit_ok hc.sound commit
    exact h.carry hgrows (hsame rfl) rfl rfl
  | trigger _ commit =>
    obtain ⟨-, rfl⟩ := triggerCommit_ok hc.sound commit
    refine h.carry hgrows (fun row hrow => ?_) rfl rfl
    rcases List.mem_append.1 hrow with hrow | hrow
    · exact .inl ⟨row, hrow, rfl⟩
    · rw [List.mem_singleton.1 hrow]
      exact .inr fun m hm => by cases hm
  | process _ _ _ processed =>
    obtain ⟨rows, hout, -, hann⟩ := (process_ok hc.sound hc.runs processed).2.outbox
    refine h.carry hgrows (fun row hrow => ?_) rfl rfl
    dsimp only at hrow
    rw [hout] at hrow
    rcases List.mem_append.1 hrow with hrow | hrow
    · exact .inl ⟨row, hrow, rfl⟩
    · exact .inr fun m hm => absurd hm ((hann row hrow).2.2.2.1 m)
  | @dispatch k j g x nodes n phase result db handling toDispatch node dispatched =>
    rcases dispatch_cases hc hd handling toDispatch node dispatched with ⟨rfl, -⟩ | ⟨_, input, -, -, -, -, rfl⟩
    · exact h.carry hgrows (hsame rfl) rfl rfl
    · refine h.carry hgrows (fun row hrow => ?_) rfl rfl
      rcases List.mem_append.1 hrow with hrow | hrow
      · exact .inl ⟨row, hrow, rfl⟩
      · rw [List.mem_singleton.1 hrow]
        refine .inr fun m hm => ?_
        cases hm
        have hadds := registered_adds s.db x n input (.v4 s.draws) s.now
        refine ⟨?_, ?_⟩
        · rw [hadds.slots]
          exact List.mem_append_right _ (List.mem_singleton.2 rfl)
        · rw [hadds.tasks]
          exact List.mem_append_right _ (List.mem_singleton.2 rfl)
  | markRow =>
    refine h.carry hgrows (fun row hrow => ?_) rfl rfl
    obtain ⟨row₀, hrow₀, rfl⟩ := Table.mem_updateWhere.1 hrow
    exact .inl ⟨row₀, hrow₀, by split <;> rfl⟩
  | cleanRow => exact h.carry hgrows (fun row hrow => .inl ⟨row, List.mem_of_mem_filter hrow, rfl⟩) rfl rfl
  | @publishTaskRow row message mem _ _ payload =>
    refine ⟨h.rows, fun m hm => ?_, h.due⟩
    rcases List.mem_append.1 hm with hm | hm
    · exact h.entries m hm
    · rw [List.mem_singleton.1 hm]
      exact h.rows row mem message payload
  | publishRetry due =>
    refine ⟨h.rows, fun m hm => ?_, h.due⟩
    rcases List.mem_append.1 hm with hm | hm
    · exact h.entries m hm
    · rw [List.mem_singleton.1 hm]
      exact h.due _ (List.mem_of_getElem? due)
  | readRetries =>
    refine ⟨h.rows, h.entries, fun m hm => ?_⟩
    rcases List.mem_append.1 hm with hm | hm
    · exact h.due m hm
    · exact (getDueRetries_issued hm).1
  | markRetry =>
    refine h.carry hgrows (hsame ?_) rfl rfl
    unfold markRetryPublished
    dsimp only
    split <;> rfl
  | _ => exact h.carry hgrows (hsame rfl) rfl rfl

theorem reachable_messages (h : Reachable cfg anyStep s) : Messages s :=
  Transition.Reachable.invariant messages_init (fun _ _ _ hr hs _ ht =>
    (step_effect ht).messages (reachable_consistent hr) (reachable_dispatches hr) (reachable_grows hr ht) hs) h

/-! ## Tasks in flight -/

/-- Whether a completion event of the attempt was ever published. -/
def published (s : System) (attemptId : Uuid) : Bool :=
  s.history.any fun m =>
    match m with
    | .completionPublished event => decide (event.attemptId = attemptId)
    | _ => false

theorem published_iff {attemptId : Uuid} : s.published attemptId = true ↔
    ∃ event, Milestone.completionPublished event ∈ s.history ∧ event.attemptId = attemptId := by
  unfold published
  rw [List.any_eq_true]
  constructor
  · rintro ⟨m, hm, hp⟩
    split at hp
    · exact ⟨_, hm, of_decide_eq_true hp⟩
    · cases hp
  · rintro ⟨event, hm, hid⟩
    exact ⟨_, hm, decide_eq_true hid⟩

theorem Effect.history (h : Effect cfg s a t) : ∃ l, t.history = s.history ++ l := by
  cases h <;> first | exact ⟨_, rfl⟩ | exact ⟨[], (List.append_nil _).symm⟩

theorem history_mono (hhist : ∃ l, t.history = s.history ++ l) {m : Milestone} (h : m ∈ s.history) :
    m ∈ t.history := by
  obtain ⟨l, hl⟩ := hhist
  rw [hl]
  exact List.mem_append_left _ h

theorem published_mono {attemptId : Uuid} (hhist : ∃ l, t.history = s.history ++ l)
    (h : s.published attemptId = true) :
    t.published attemptId = true := by
  obtain ⟨event, hm, hid⟩ := published_iff.1 h
  exact published_iff.2 ⟨event, history_mono hhist hm, hid⟩

theorem Effect.taskEntries (h : Effect cfg s a t) : ∃ l, t.tasks.entries = s.tasks.entries ++ l := by
  cases h <;> first | exact ⟨_, rfl⟩ | exact ⟨[], (List.append_nil _).symm⟩

theorem taskEntry_mono (h : ∃ l, t.tasks.entries = s.tasks.entries ++ l) {i : Nat} {m : NodeTaskMessage}
    (hm : s.tasks.entries[i]? = some m) : t.tasks.entries[i]? = some m := by
  obtain ⟨l, hl⟩ := h
  rw [hl, List.getElem?_append_left (List.getElem?_eq_some_iff.1 hm).1]
  exact hm

/-- A task in flight is the entry the stream gave, and its event tells the outcome of that task. -/
structure Carries (s : System) (f : InFlight) : Prop where
  entry : s.tasks.entries[f.index]? = some f.task
  event : ∀ event, f.phase.event = some event → event.Reports f.task ∧ event.Built
  publishing : ∀ event, f.phase = .published event → Milestone.completionPublished event ∈ s.history

theorem Carries.mono {f : InFlight} (h : Carries s f) (hhist : ∃ l, t.history = s.history ++ l)
    (hentries : ∃ l, t.tasks.entries = s.tasks.entries ++ l) : Carries t f :=
  ⟨taskEntry_mono hentries h.entry, h.event, fun event he => history_mono hhist (h.publishing event he)⟩

/-- The event was published, and by a worker that had a task to report on. -/
structure Accounted (s : System) (event : TaskCompletionEvent) : Prop where
  published : Milestone.completionPublished event ∈ s.history
  built : event.Built
  task : ∃ m ∈ s.tasks.entries, event.Reports m

theorem Accounted.mono {event : TaskCompletionEvent} (h : Accounted s event) (hhist : ∃ l, t.history = s.history ++ l)
    (hentries : ∃ l, t.tasks.entries = s.tasks.entries ++ l) : Accounted t event := by
  obtain ⟨m, hm, hr⟩ := h.task
  obtain ⟨l, hl⟩ := hentries
  exact ⟨history_mono hhist h.published, h.built, m, by rw [hl]; exact List.mem_append_left _ hm, hr⟩

structure Workers (s : System) : Prop where
  delivered : s.tasks.lastDelivered ≤ s.tasks.entries.length
  carries : ∀ f ∈ s.inFlight, Carries s f
  completions : ∀ event ∈ s.completions.entries, Accounted s event
  completed : ∀ r ∈ s.db.taskAttempts, r.status = .completed → s.published r.attemptId = true

theorem workers_init : Workers init := by
  refine ⟨?_, ?_, ?_, ?_⟩ <;> simp [init, GroupStream.empty, Database.empty]

/-- An attempt becomes completed through its published completion. -/
theorem Workers.completed_step (h : Workers s) (hstep : AttemptsStep cfg s a t)
    (hhist : ∃ l, t.history = s.history ++ l) :
    ∀ r ∈ t.db.taskAttempts, r.status = .completed → t.published r.attemptId = true := by
  intro r hr hst
  refine published_mono hhist ?_
  rcases hstep.mem hr with ⟨r₀, hr₀, hchange⟩ | hnew
  · cases hchange with
    | same => exact h.completed r hr₀ hst
    | @succeeded _ _ event _ _ entry _ id =>
      exact published_iff.2 ⟨event, (h.completions event (List.mem_of_getElem? entry)).published, id.symm⟩
    | renewed _ _ _ status => rw [status] at hst; cases hst
    | @marked _ _ _ event _ task phase id =>
      exact published_iff.2 ⟨event, (h.carries _ (List.mem_of_getElem? task)).publishing event phase, id.symm⟩
    | _ => cases hst
  · cases hnew <;> cases hst

/-- What a step does to the list of tasks in flight. -/
inductive FlightStep (cfg : Config) (s : System) (a : Action) (t : System) : Prop where
  | same (eq : t.inFlight = s.inFlight)
  | received {worker : String} {index : Nat} {message : NodeTaskMessage}
      (entry : s.tasks.entries[index]? = some message)
      (eq : t.inFlight = s.inFlight ++ [⟨worker, index, message, .received⟩])
  | moved {k : Nat} {f : InFlight} {phase : TaskPhase} (task : s.inFlight[k]? = some f)
      (eq : t.inFlight = s.inFlight.set k { f with phase := phase })
      (event : ∀ event, phase.event = some event → f.phase.event = some event ∨ event.Reports f.task ∧ event.Built)
      (publishing : ∀ event, phase = .published event → Milestone.completionPublished event ∈ t.history)
  | dropped {k : Nat} (eq : t.inFlight = s.inFlight.eraseIdx k)

theorem Effect.flightStep (h : Effect cfg s a t) : FlightStep cfg s a t := by
  cases h with
  | deliverTask next => exact .received next rfl
  | reclaimTask _ entry => exact .received entry rfl
  | claimRaised | leaseLost | recordRaised | replayRaised | markRaised | dropTask | acknowledgeTask =>
    exact .dropped rfl
  | claim task => exact .moved task rfl (by simp [TaskPhase.event]) (by simp)
  | replay task => exact .moved task rfl (by simp [TaskPhase.event]) (by simp)
  | invoke task => exact .moved task rfl (by simp [TaskPhase.event]) (by simp)
  | renew task => exact .moved task rfl (by simp [TaskPhase.event]) (by simp)
  | alreadyCompleted task => exact .moved task rfl (by simp [TaskPhase.event]) (by simp)
  | busy task => exact .moved task rfl (by simp [TaskPhase.event]) (by simp)
  | mark task => exact .moved task rfl (by simp [TaskPhase.event]) (by simp)
  | finish task =>
    refine .moved task rfl (fun event he => .inr ?_) (by simp)
    cases he
    exact ⟨completionEvent_reports, completionEvent_built⟩
  | record task phase => exact .moved task rfl (fun event he => .inl (by rw [phase]; exact he)) (by simp)
  | replayed task _ result =>
    refine .moved task rfl (fun event he => .inr ?_) (by simp)
    cases he
    obtain ⟨r, eventId, outcome, -, -, rfl, -⟩ := replayed_ok result
    exact ⟨completionEvent_reports, completionEvent_built⟩
  | publish task phase =>
    refine .moved task rfl (fun event he => .inl (by rw [phase]; exact he)) fun event he => ?_
    cases he
    exact List.mem_append_right _ (List.mem_singleton.2 rfl)
  | _ => exact .same rfl

theorem FlightStep.carries (h : FlightStep cfg s a t) (hhist : ∃ l, t.history = s.history ++ l)
    (hentries : ∃ l, t.tasks.entries = s.tasks.entries ++ l) (hs : ∀ f ∈ s.inFlight, Carries s f) :
    ∀ f ∈ t.inFlight, Carries t f := by
  intro f hf
  cases h with
  | same eq => exact (hs f (eq ▸ hf)).mono hhist hentries
  | received entry eq =>
    rw [eq] at hf
    rcases List.mem_append.1 hf with hf | hf
    · exact (hs f hf).mono hhist hentries
    · rw [List.mem_singleton.1 hf]
      exact ⟨taskEntry_mono hentries entry, by simp [TaskPhase.event], by simp⟩
  | @moved k g phase task eq event publishing =>
    rw [eq] at hf
    rcases mem_set_cases hf with hf | rfl
    · exact (hs f hf).mono hhist hentries
    · have hg := hs g (List.mem_of_getElem? task)
      refine ⟨taskEntry_mono hentries hg.entry, fun ev he => ?_, publishing⟩
      exact (event ev he).elim (hg.event ev) fun h => h
  | dropped eq => exact (hs f (List.mem_of_mem_eraseIdx (eq ▸ hf))).mono hhist hentries

theorem Effect.completions (h : Effect cfg s a t) : t.completions.entries = s.completions.entries ∨
    ∃ (k : Nat) (f : InFlight) (event : TaskCompletionEvent), s.inFlight[k]? = some f ∧ f.phase = .recorded event ∧
      t.completions.entries = s.completions.entries ++ [event] ∧ Milestone.completionPublished event ∈ t.history := by
  cases h with
  | publish task phase => exact .inr ⟨_, _, _, task, phase, rfl, List.mem_append_right _ (List.mem_singleton.2 rfl)⟩
  | _ => exact .inl rfl

theorem Effect.delivered (h : Effect cfg s a t) (hs : s.tasks.lastDelivered ≤ s.tasks.entries.length) :
    t.tasks.lastDelivered ≤ t.tasks.entries.length := by
  have hadd : ∀ {m : NodeTaskMessage}, s.tasks.lastDelivered ≤ (s.tasks.entries ++ [m]).length := by
    intro m
    rw [List.length_append]
    exact hs.trans (Nat.le_add_right _ _)
  cases h with
  | publishTaskRow => exact hadd
  | publishRetry => exact hadd
  | deliverTask next => exact Nat.succ_le_of_lt (List.getElem?_eq_some_iff.1 next).1
  | _ => exact hs

theorem Effect.workers (heffect : Effect cfg s a t) (hstep : AttemptsStep cfg s a t) (h : Workers s) : Workers t := by
  have hhist := heffect.history
  have hentries := heffect.taskEntries
  refine ⟨heffect.delivered h.delivered, heffect.flightStep.carries hhist hentries h.carries, fun event he => ?_,
    h.completed_step hstep hhist⟩
  rcases heffect.completions with heq | ⟨k, f, event', task, phase, heq, hpub⟩
  · exact (h.completions event (heq ▸ he)).mono hhist hentries
  · rw [heq] at he
    rcases List.mem_append.1 he with he | he
    · exact (h.completions event he).mono hhist hentries
    · rw [List.mem_singleton.1 he]
      have hf := h.carries f (List.mem_of_getElem? task)
      obtain ⟨hreports, hbuilt⟩ := hf.event event' (by rw [phase]; rfl)
      exact ⟨hpub, hbuilt, f.task, List.mem_of_getElem? (taskEntry_mono hentries hf.entry), hreports⟩

theorem reachable_workers (h : Reachable cfg anyStep s) : Workers s :=
  Transition.Reachable.invariant workers_init (fun _ _ _ hr hs _ ht =>
    (step_effect ht).workers (reachable_attemptsStep hr (step_effect ht)) hs) h

end System

end WorkflowEngine
