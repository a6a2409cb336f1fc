import WorkflowEngine.Dispatching
import WorkflowEngine.System

/-!
# What one step of the system can do

`Effect` lists, once, every way in which an action can be taken and the state it leads to;
no later proof unfolds the step function. `Kind` forgets most of it: seen from executions,
nodes and tasks, a step commits one of the four transactions that change them, or lets an
orchestrator read, or is quiet.
-/
namespace WorkflowEngine

open Database

namespace HandlingPhase

/-- The execution and the nodes a handling still has to dispatch. -/
def toDispatch : HandlingPhase → Option (WorkflowExecutionRecord × List WorkflowNode)
  | dispatching x nodes => some (x, nodes)
  | raised x nodes => some (x, nodes)
  | _ => none

/-- The ready set a handling has in memory. -/
def ready : HandlingPhase → Option (Uuid × List String)
  | evaluated e ready => some (e, ready)
  | _ => none

end HandlingPhase

/-! ## One step, case by case -/

/-- The attempt's row after a worker has claimed it. -/
def claimedBy (worker : String) (now expires : Time) (r : TaskAttemptRecord) : TaskAttemptRecord :=
  { r with status := .claimed, claimedBy := some worker, claimedAt := some now, claimExpiresAt := some expires }

/-- The attempt's row after a worker has recorded its result. -/
def resultOf (event : TaskCompletionEvent) (r : TaskAttemptRecord) : TaskAttemptRecord :=
  { r with
    status := .resultRecorded
    resultData := event.outputData
    errorMessage := event.errorMessage
    errorType := event.errorType
    completionEventId := some event.eventId }

/-- The attempt's row after a worker has marked it completed. -/
def markedCompleted (now : Time) (r : TaskAttemptRecord) : TaskAttemptRecord :=
  { r with
    status := .completed
    completedAt := some now
    completionPublishedAt := some now
    claimExpiresAt := none }

/-- The rows of one attempt in one status are updated. -/
def Database.updateAttemptIn (attemptId : Uuid) (status : AttemptStatus) (f : TaskAttemptRecord → TaskAttemptRecord)
    (db : Database) : Database :=
  { db with taskAttempts :=
      Table.updateWhere (fun r => decide (r.attemptId = attemptId ∧ r.status = status)) f db.taskAttempts }

namespace System

/-- What each action does when it is taken, with the outcome of the call it makes. -/
inductive Effect (cfg : Config) (s : System) : Action → System → Prop where
  | submit {definition : Dict Json} {db : Database}
      (commit : submit cfg.validation definition (.v4 s.draws) (.v4 (s.draws + 1)) s.now s.db = .ok db) :
      Effect cfg s (.submit definition) { s with db := db, draws := s.draws + 2 }
  | readTrigger {e : Uuid} {input : Option (Dict Json)} {x : WorkflowExecutionRecord}
      (read : triggerRead e s.db = .ok x) :
      Effect cfg s (.readTrigger e input) { s with triggers := s.triggers ++ [⟨x, input⟩] }
  | trigger {k : Nat} {request : TriggerRequest} {db : Database} (request_mem : s.triggers[k]? = some request)
      (commit : triggerCommit request.execution request.inputData (.v4 s.draws) s.now s.db = .ok db) :
      Effect cfg s (.commitTrigger k)
        { s with
          triggers := s.triggers.eraseIdx k
          db := db
          draws := s.draws + 1
          history := s.history ++ [.triggered request.execution.executionId request.inputData] }
  | triggerLost {k : Nat} : Effect cfg s (.commitTrigger k) { s with triggers := s.triggers.eraseIdx k }
  | publishTaskRow {row : OutboxEventRecord} {message : NodeTaskMessage} (mem : row ∈ s.db.outboxEvents)
      (pending : row.status = .pending) (stream : row.targetStream = .tasks) (payload : row.payload = .task message) :
      Effect cfg s (.publishRow row.messageId)
        { s with tasks := s.tasks.xadd message, outboxSent := s.outboxSent ++ [row.messageId] }
  | publishEventRow {row : OutboxEventRecord} (mem : row ∈ s.db.outboxEvents) (pending : row.status = .pending)
      (stream : row.targetStream = .events) :
      Effect cfg s (.publishRow row.messageId)
        { s with
          events := s.events.xadd ⟨row.messageId, row.messageType, row.payload⟩
          outboxSent := s.outboxSent ++ [row.messageId] }
  | publishOtherRow {row : OutboxEventRecord} (mem : row ∈ s.db.outboxEvents) (pending : row.status = .pending)
      (stream : row.targetStream ≠ .events) (payload : row.targetStream = .tasks →
        ∀ message, row.payload ≠ .task message) :
      Effect cfg s (.publishRow row.messageId) { s with outboxSent := s.outboxSent ++ [row.messageId] }
  | markRow {messageId : Uuid} (sent : messageId ∈ s.outboxSent) :
      Effect cfg s (.markRow messageId)
        { s with db := { s.db with outboxEvents := (Table.updateWhere
          (fun r => decide (r.messageId = messageId ∧ r.status = .pending))
          (fun r => { r with
            status := .published
            publishedAt := some s.now
            publishAttempts := r.publishAttempts + 1
            lastError := none }) s.db.outboxEvents) } }
  | cleanRow {messageId : Uuid} :
      Effect cfg s (.cleanRow messageId)
        { s with db := { s.db with outboxEvents := (s.db.outboxEvents.filter
          fun r => !decide (r.messageId = messageId ∧ r.status = .published)) } }
  | deliverEvent {consumer : String} {entry : LifecycleEvent}
      (next : s.events.entries[s.events.lastDelivered]? = some entry) :
      Effect cfg s (.deliverEvent consumer)
        { s with
          events := s.events.deliver consumer s.now
          handlings := s.handlings ++ [⟨.trigger, s.events.lastDelivered, .received⟩] }
  | deliverCompletion {consumer : String} {event : TaskCompletionEvent}
      (next : s.completions.entries[s.completions.lastDelivered]? = some event) :
      Effect cfg s (.deliverCompletion consumer)
        { s with
          completions := s.completions.deliver consumer s.now
          handlings := s.handlings ++ [⟨.completion, s.completions.lastDelivered, .received⟩] }
  | redeliverEvent {index : Nat} (delivered : index < s.events.lastDelivered) :
      Effect cfg s (.redeliver .trigger index) { s with handlings := s.handlings ++ [⟨.trigger, index, .received⟩] }
  | redeliverCompletion {index : Nat} (delivered : index < s.completions.lastDelivered) :
      Effect cfg s (.redeliver .completion index)
        { s with handlings := s.handlings ++ [⟨.completion, index, .received⟩] }
  | evaluate {k index : Nat} {eventId e : Uuid} {ready : List String}
      (handling : s.handlings[k]? = some ⟨.trigger, index, .received⟩)
      (entry : s.events.entries[index]? = some ⟨eventId, .executionTriggered, .execution e⟩)
      (evaluated : evaluateReadiness e s.db = .ok ready) :
      Effect cfg s (.handle k) { s with handlings := s.handlings.set k ⟨.trigger, index, .evaluated e ready⟩ }
  | evaluateRaised {k index : Nat} {eventId e : Uuid} {error : PyError}
      (handling : s.handlings[k]? = some ⟨.trigger, index, .received⟩)
      (entry : s.events.entries[index]? = some ⟨eventId, .executionTriggered, .execution e⟩)
      (raised : evaluateReadiness e s.db = .error error) :
      Effect cfg s (.handle k) { s with handlings := s.handlings.eraseIdx k }
  | skip {k index : Nat} {entry : LifecycleEvent} (handling : s.handlings[k]? = some ⟨.trigger, index, .received⟩)
      (entry_eq : s.events.entries[index]? = some entry)
      (other : ∀ e, ¬(entry.eventType = .executionTriggered ∧ entry.payload = .execution e)) :
      Effect cfg s (.handle k) { s with handlings := s.handlings.set k ⟨.trigger, index, .dispatched⟩ }
  | process {k index : Nat} {event : TaskCompletionEvent} {decision : TaskCompletionDecision} {db : Database}
      (handling : s.handlings[k]? = some ⟨.completion, index, .received⟩)
      (entry : s.completions.entries[index]? = some event) (readable : readable event = true)
      (processed : process cfg.policy event (.v4 s.draws) s.now s.db = .ok (decision, db)) :
      Effect cfg s (.handle k)
        { s with
          db := db
          draws := s.draws + 1
          handlings := s.handlings.set k ⟨.completion, index, .evaluated event.executionId decision.readyNodeIds⟩ }
  | processRaised {k index : Nat} {event : TaskCompletionEvent}
      (handling : s.handlings[k]? = some ⟨.completion, index, .received⟩)
      (entry : s.completions.entries[index]? = some event)
      (raised : readable event = false ∨ ∃ error, process cfg.policy event (.v4 s.draws) s.now s.db = .error error) :
      Effect cfg s (.handle k) { s with handlings := s.handlings.eraseIdx k }
  | readEmpty {k index : Nat} {source : Source} {e : Uuid}
      (handling : s.handlings[k]? = some ⟨source, index, .evaluated e []⟩) :
      Effect cfg s (.readReady k) { s with handlings := s.handlings.set k ⟨source, index, .dispatched⟩ }
  | read {k index : Nat} {source : Source} {e : Uuid} {ready : List String} {x : WorkflowExecutionRecord}
      {nodes : List WorkflowNode} (handling : s.handlings[k]? = some ⟨source, index, .evaluated e ready⟩)
      (nonempty : ready ≠ []) (reads : readyNodes e ready s.db = .ok (x, nodes)) :
      Effect cfg s (.readReady k) { s with handlings := s.handlings.set k ⟨source, index, .dispatching x nodes⟩ }
  | readRaised {k index : Nat} {source : Source} {e : Uuid} {ready : List String} {error : PyError}
      (handling : s.handlings[k]? = some ⟨source, index, .evaluated e ready⟩) (nonempty : ready ≠ [])
      (raised : readyNodes e ready s.db = .error error) :
      Effect cfg s (.readReady k) { s with handlings := s.handlings.eraseIdx k }
  | dispatch {k j : Nat} {h : Handling} {x : WorkflowExecutionRecord} {nodes : List WorkflowNode} {n : WorkflowNode}
      {phase : HandlingPhase} {result : DispatchResult} {db : Database} (handling : s.handlings[k]? = some h)
      (toDispatch : h.phase.toDispatch = some (x, nodes)) (node : nodes[j]? = some n)
      (dispatched : dispatch cfg.strFloat x n (.v4 s.draws) s.now s.db = .ok (result, db))
      (phase_eq : (h.phase = .dispatching x nodes ∧ phase = .dispatching x (nodes.eraseIdx j)) ∨
        (h.phase = .raised x nodes ∧ phase = .raised x (nodes.eraseIdx j))) :
      Effect cfg s (.dispatchNode k j)
        { s with
          db := db
          draws := s.draws + 1
          handlings := s.handlings.set k { h with phase := phase }
          history := s.history ++
            if newlyRunning s.db db x.executionId n.id then [.nodeClaimed x.executionId n.id] else [] }
  | dispatchRaised {k j : Nat} {h : Handling} {x : WorkflowExecutionRecord} {nodes : List WorkflowNode}
      {n : WorkflowNode}
      {error : PyError} (handling : s.handlings[k]? = some h) (toDispatch : h.phase.toDispatch = some (x, nodes))
      (node : nodes[j]? = some n) (raised : dispatch cfg.strFloat x n (.v4 s.draws) s.now s.db = .error error) :
      Effect cfg s (.dispatchNode k j)
        { s with handlings := s.handlings.set k { h with phase := .raised x (nodes.eraseIdx j) } }
  | finishDispatch {k index : Nat} {source : Source} {x : WorkflowExecutionRecord}
      (handling : s.handlings[k]? = some ⟨source, index, .dispatching x []⟩) :
      Effect cfg s (.finishDispatch k) { s with handlings := s.handlings.set k ⟨source, index, .dispatched⟩ }
  | acknowledgeEvent {k index : Nat} (handling : s.handlings[k]? = some ⟨.trigger, index, .dispatched⟩) :
      Effect cfg s (.acknowledge k)
        { s with events := s.events.xack index, handlings := s.handlings.eraseIdx k }
  | acknowledgeCompletion {k index : Nat} (handling : s.handlings[k]? = some ⟨.completion, index, .dispatched⟩) :
      Effect cfg s (.acknowledge k)
        { s with completions := s.completions.xack index, handlings := s.handlings.eraseIdx k }
  | abandon {k : Nat} : Effect cfg s (.abandon k) { s with handlings := s.handlings.eraseIdx k }
  | readRetries : Effect cfg s .readRetries { s with retriesDue := s.retriesDue ++ s.db.getDueRetries s.now }
  | publishRetry {j : Nat} {message : NodeTaskMessage} (due : s.retriesDue[j]? = some message) :
      Effect cfg s (.publishRetry j)
        { s with tasks := s.tasks.xadd message, retriesSent := s.retriesSent ++ [message.attemptId] }
  | markRetry {attemptId : Uuid} (sent : attemptId ∈ s.retriesSent) :
      Effect cfg s (.markRetry attemptId) { s with db := (s.db.markRetryPublished attemptId s.now).2 }
  | deliverTask {worker : String} {message : NodeTaskMessage}
      (next : s.tasks.entries[s.tasks.lastDelivered]? = some message) :
      Effect cfg s (.deliverTask worker)
        { s with
          tasks := s.tasks.deliver worker s.now
          inFlight := s.inFlight ++ [⟨worker, s.tasks.lastDelivered, message, .received⟩] }
  | reclaimTask {worker : String} {index : Nat} {message : NodeTaskMessage}
      (idle : ∃ p ∈ s.tasks.pending, p.index = index ∧ cfg.reclaimIdle ≤ s.now - p.deliveredAt)
      (entry : s.tasks.entries[index]? = some message) :
      Effect cfg s (.reclaimTask worker index)
        { s with
          tasks := s.tasks.reclaim worker s.now index
          inFlight := s.inFlight ++ [⟨worker, index, message, .received⟩] }
  | claimRaised {k : Nat} {outcome : HandlerOutcome} {f : InFlight} (task : s.inFlight[k]? = some f)
      (phase : f.phase = .received) (raised : ∃ error, s.db.claimAttempt f.task.attemptId f.task.taskId
        f.task.executionId f.task.nodeId f.worker s.now (s.now + cfg.lease) = .error error) :
      Effect cfg s (.work k outcome) (s.dropInFlight k)
  | claim {k : Nat} {outcome : HandlerOutcome} {f : InFlight} {r : TaskAttemptRecord} (task : s.inFlight[k]? = some f)
      (phase : f.phase = .received) (attempt : s.db.getAttempt f.task.attemptId = some r)
      (open' : r.status ≠ .completed ∧ r.status ≠ .resultRecorded) (free : heldAt r s.now = false) :
      Effect cfg s (.work k outcome)
        ({ s with
          db := s.db.updateAttempt f.task.attemptId
            (claimedBy f.worker s.now (s.now + cfg.lease)) }.setPhase k f .claimed)
  | replay {k : Nat} {outcome : HandlerOutcome} {f : InFlight} {r : TaskAttemptRecord} (task : s.inFlight[k]? = some f)
      (phase : f.phase = .received) (attempt : s.db.getAttempt f.task.attemptId = some r)
      (recorded : r.status = .resultRecorded) :
      Effect cfg s (.work k outcome) (s.setPhase k f .replaying)
  | alreadyCompleted {k : Nat} {outcome : HandlerOutcome} {f : InFlight} {r : TaskAttemptRecord}
      (task : s.inFlight[k]? = some f) (phase : f.phase = .received)
      (attempt : s.db.getAttempt f.task.attemptId = some r) (completed : r.status = .completed) :
      Effect cfg s (.work k outcome) (s.setPhase k f .acknowledging)
  | busy {k : Nat} {outcome : HandlerOutcome} {f : InFlight} {r : TaskAttemptRecord} (task : s.inFlight[k]? = some f)
      (phase : f.phase = .received) (attempt : s.db.getAttempt f.task.attemptId = some r)
      (open' : r.status ≠ .completed ∧ r.status ≠ .resultRecorded) (held : heldAt r s.now = true) :
      Effect cfg s (.work k outcome) (s.setPhase k f .acknowledging)
  | invoke {k : Nat} {outcome : HandlerOutcome} {f : InFlight} (task : s.inFlight[k]? = some f)
      (phase : f.phase = .claimed) :
      Effect cfg s (.work k outcome)
        ({ s with
          history := s.history ++ [Milestone.handlerInvoked f.task.attemptId] }.setPhase k f (.executing false))
  | leaseLost {k : Nat} {outcome : HandlerOutcome} {f : InFlight} (task : s.inFlight[k]? = some f)
      (phase : f.phase = .executing true) : Effect cfg s (.work k outcome) (s.dropInFlight k)
  | finish {k : Nat} {outcome : HandlerOutcome} {f : InFlight} (task : s.inFlight[k]? = some f)
      (phase : f.phase = .executing false) :
      Effect cfg s (.work k outcome)
        ({ s with draws := s.draws + 1 }.setPhase k f (.executed (completionEvent f.task (.v4 s.draws) outcome)))
  | record {k : Nat} {outcome : HandlerOutcome} {f : InFlight} {event : TaskCompletionEvent} {r : TaskAttemptRecord}
      (task : s.inFlight[k]? = some f) (phase : f.phase = .executed event) (attempt : r ∈ s.db.taskAttempts)
      (attempt_id : r.attemptId = event.attemptId) (claimed : r.status = .claimed) :
      Effect cfg s (.work k outcome)
        ({ s with
          db := s.db.updateAttemptIn event.attemptId .claimed (resultOf event)
          history := s.history ++ [Milestone.resultRecorded event] }.setPhase k f (.recorded event))
  | recordRaised {k : Nat} {outcome : HandlerOutcome} {f : InFlight} {event : TaskCompletionEvent}
      (task : s.inFlight[k]? = some f) (phase : f.phase = .executed event)
      (unclaimed : ∀ r ∈ s.db.taskAttempts, r.attemptId = event.attemptId → r.status ≠ .claimed) :
      Effect cfg s (.work k outcome) (s.dropInFlight k)
  | replayed {k : Nat} {outcome : HandlerOutcome} {f : InFlight} {event : TaskCompletionEvent}
      (task : s.inFlight[k]? = some f) (phase : f.phase = .replaying)
      (result : (s.db.getResult f.task.attemptId).bind (eventFromResult f.task) = .ok event) :
      Effect cfg s (.work k outcome) (s.setPhase k f (.recorded event))
  | replayRaised {k : Nat} {outcome : HandlerOutcome} {f : InFlight} {error : PyError} (task : s.inFlight[k]? = some f)
      (phase : f.phase = .replaying)
      (raised : (s.db.getResult f.task.attemptId).bind (eventFromResult f.task) = .error error) :
      Effect cfg s (.work k outcome) (s.dropInFlight k)
  | publish {k : Nat} {outcome : HandlerOutcome} {f : InFlight} {event : TaskCompletionEvent}
      (task : s.inFlight[k]? = some f) (phase : f.phase = .recorded event) :
      Effect cfg s (.work k outcome)
        ({ s with
          completions := s.completions.xadd event
          history := s.history ++ [Milestone.completionPublished event] }.setPhase k f (.published event))
  | mark {k : Nat} {outcome : HandlerOutcome} {f : InFlight} {event : TaskCompletionEvent}
      (task : s.inFlight[k]? = some f) (phase : f.phase = .published event) :
      Effect cfg s (.work k outcome)
        ({ s with db := s.db.updateAttemptIn event.attemptId .resultRecorded (markedCompleted s.now) }.setPhase k f
          .acknowledging)
  | markRaised {k : Nat} {outcome : HandlerOutcome} {f : InFlight} {event : TaskCompletionEvent}
      (task : s.inFlight[k]? = some f) (phase : f.phase = .published event)
      (unrecorded : ∀ r ∈ s.db.taskAttempts, r.attemptId = event.attemptId → r.status ≠ .resultRecorded) :
      Effect cfg s (.work k outcome) (s.dropInFlight k)
  | acknowledgeTask {k : Nat} {outcome : HandlerOutcome} {f : InFlight} (task : s.inFlight[k]? = some f)
      (phase : f.phase = .acknowledging) :
      Effect cfg s (.work k outcome) ({ s with tasks := s.tasks.xack f.index }.dropInFlight k)
  | renew {k : Nat} {f : InFlight} (task : s.inFlight[k]? = some f) (phase : f.phase = .executing false) :
      Effect cfg s (.renew k) (s.renewTask cfg k f)
  | dropTask {k : Nat} : Effect cfg s (.dropTask k) (s.dropInFlight k)
  | tick {elapsed : Nat} : Effect cfg s (.tick elapsed) { s with now := s.now + elapsed }

variable {cfg : Config} {s t : System} {a : Action}

theorem publishRow_effect {messageId : Uuid} (h : s.publishRow messageId = some t) :
    Effect cfg s (.publishRow messageId) t := by
  unfold publishRow at h
  split at h
  · cases h
  · rename_i row hrow
    have hmem := List.mem_of_find?_eq_some hrow
    obtain ⟨rfl, hpending⟩ : row.messageId = messageId ∧ row.status = .pending := by
      simpa using List.find?_some hrow
    cases h
    unfold deliverRow
    split
    · rename_i message hstream hpayload
      exact .publishTaskRow hmem hpending hstream hpayload
    · rename_i payload hstream
      exact .publishEventRow hmem hpending hstream
    · rename_i hevent htask
      exact .publishOtherRow hmem hpending (fun hs => hevent hs) fun hs message hp => htask message hs hp

theorem handle_effect {k : Nat} (h : s.handle cfg k = some t) : Effect cfg s (.handle k) t := by
  unfold handle at h
  split at h
  · rename_i index hk
    unfold handleTrigger at h
    split at h
    · cases h
    · rename_i entry hentry
      split at h
      · rename_i e htype hpayload
        obtain ⟨eventId, _, _⟩ := entry
        dsimp only at htype hpayload
        subst htype hpayload
        split at h
        · rename_i ready hready
          cases h
          exact .evaluate hk hentry hready
        · rename_i error hraised
          cases h
          exact .evaluateRaised hk hentry hraised
      · rename_i hother
        cases h
        exact .skip hk hentry fun e he => hother e he.1 he.2
  · rename_i index hk
    unfold handleCompletion at h
    split at h
    · cases h
    · rename_i event hentry
      split at h
      · rename_i hread
        split at h
        · rename_i decision db hdb
          cases h
          exact .process hk hentry hread hdb
        · rename_i error hraised
          cases h
          exact .processRaised hk hentry (.inr ⟨error, hraised⟩)
      · rename_i hread
        cases h
        exact .processRaised hk hentry (.inl (by simpa using hread))
  · cases h

theorem readReady_effect {k : Nat} (h : s.readReady k = some t) : Effect cfg s (.readReady k) t := by
  unfold readReady at h
  split at h
  · rename_i source index e ready hk
    split at h
    · rename_i hempty
      cases h
      rw [List.isEmpty_iff] at hempty
      subst hempty
      exact .readEmpty hk
    · rename_i hne
      split at h
      · rename_i x nodes hx
        cases h
        exact .read hk (by simpa using hne) hx
      · rename_i error hraised
        cases h
        exact .readRaised hk (by simpa using hne) hraised
  · cases h

theorem dispatchNode_effect {k j : Nat} (h : s.dispatchNode cfg k j = some t) :
    Effect cfg s (.dispatchNode k j) t := by
  unfold dispatchNode at h
  split at h
  · cases h
  · rename_i g hk
    split at h
    · rename_i x nodes hphase
      have hto : g.phase.toDispatch = some (x, nodes) := by rw [hphase]; rfl
      split at h
      · cases h
      · rename_i n hn
        split at h
        · rename_i db hdb
          cases h
          exact .dispatch hk hto hn hdb (.inl ⟨hphase, rfl⟩)
        · rename_i error hraised
          cases h
          exact .dispatchRaised hk hto hn hraised
    · rename_i x nodes hphase
      have hto : g.phase.toDispatch = some (x, nodes) := by rw [hphase]; rfl
      split at h
      · cases h
      · rename_i n hn
        split at h
        · rename_i db hdb
          cases h
          exact .dispatch hk hto hn hdb (.inr ⟨hphase, rfl⟩)
        · rename_i error hraised
          cases h
          exact .dispatchRaised hk hto hn hraised
    · cases h

theorem acknowledge_effect {k : Nat} (h : s.acknowledge k = some t) : Effect cfg s (.acknowledge k) t := by
  unfold acknowledge at h
  split at h
  · rename_i index hk
    cases h
    exact .acknowledgeEvent hk
  · rename_i index hk
    cases h
    exact .acknowledgeCompletion hk
  · cases h

theorem reclaimTask_effect {worker : String} {index : Nat} (h : s.reclaimTask cfg worker index = some t) :
    Effect cfg s (.reclaimTask worker index) t := by
  simp only [reclaimTask, GroupStream.xautoclaim, Option.map_eq_some_iff] at h
  obtain ⟨m, hm, rfl⟩ := h
  split at hm
  · rename_i hidle
    obtain ⟨message, hmessage, rfl⟩ := Option.map_eq_some_iff.1 hm
    exact .reclaimTask (by simpa using hidle) hmessage
  · cases hm

theorem claimTask_effect {k : Nat} {f : InFlight} {outcome : HandlerOutcome} (task : s.inFlight[k]? = some f)
    (phase : f.phase = .received) : Effect cfg s (.work k outcome) (s.claimTask cfg k f) := by
  unfold claimTask
  split
  · rename_i error hraised
    exact .claimRaised task phase ⟨error, hraised⟩
  all_goals
    rename_i db hdb
    unfold claimAttempt at hdb
    split at hdb
    · cases hdb
    · rename_i r hr
      split at hdb
      · cases hdb
      · split at hdb
        · rename_i hcompleted
          cases hdb
          try exact .alreadyCompleted task phase hr hcompleted
        · rename_i hcompleted
          split at hdb
          · rename_i hrecorded
            cases hdb
            try exact .replay task phase hr hrecorded
          · rename_i hrecorded
            split at hdb
            · rename_i hheld
              cases hdb
              try exact .busy task phase hr ⟨hcompleted, hrecorded⟩ hheld
            · rename_i hheld
              cases hdb
              try exact .claim task phase hr ⟨hcompleted, hrecorded⟩ (by simpa using hheld)

theorem recordTask_effect {k : Nat} {f : InFlight} {outcome : HandlerOutcome} {event : TaskCompletionEvent}
    (task : s.inFlight[k]? = some f) (phase : f.phase = .executed event) :
    Effect cfg s (.work k outcome) (s.recordTask k f event) := by
  unfold recordTask recordResult
  dsimp only
  by_cases hany : (s.db.taskAttempts.any fun r => decide (r.attemptId = event.attemptId ∧ r.status = .claimed)) = true
  · obtain ⟨r, hr, hp⟩ := List.any_eq_true.1 hany
    obtain ⟨hid, hclaimed⟩ := of_decide_eq_true hp
    rw [if_pos hany]
    exact .record task phase hr hid hclaimed
  · rw [if_neg hany]
    refine .recordRaised task phase fun r hr hid hclaimed => hany ?_
    exact List.any_eq_true.2 ⟨r, hr, decide_eq_true ⟨hid, hclaimed⟩⟩

theorem markTask_effect {k : Nat} {f : InFlight} {outcome : HandlerOutcome} {event : TaskCompletionEvent}
    (task : s.inFlight[k]? = some f) (phase : f.phase = .published event) :
    Effect cfg s (.work k outcome) (s.markTask k f event) := by
  unfold markTask markCompleted
  dsimp only
  by_cases hany : (s.db.taskAttempts.any fun r =>
      decide (r.attemptId = event.attemptId ∧ r.status = .resultRecorded)) = true
  · rw [if_pos hany]
    exact .mark task phase
  · rw [if_neg hany]
    refine .markRaised task phase fun r hr hid hrecorded => hany ?_
    exact List.any_eq_true.2 ⟨r, hr, decide_eq_true ⟨hid, hrecorded⟩⟩

theorem workTask_effect {k : Nat} {outcome : HandlerOutcome} (h : s.workTask cfg k outcome = some t) :
    Effect cfg s (.work k outcome) t := by
  simp only [workTask, Option.map_eq_some_iff] at h
  obtain ⟨f, hf, rfl⟩ := h
  split
  · exact claimTask_effect hf ‹_›
  · exact .invoke hf ‹_›
  · rename_i renewalFailed hphase
    unfold finishTask
    cases renewalFailed with
    | true => exact .leaseLost hf hphase
    | false => exact .finish hf hphase
  · exact recordTask_effect hf ‹_›
  · unfold replayTask
    split
    · exact .replayed hf ‹_› ‹_›
    · exact .replayRaised hf ‹_› ‹_›
  · exact .publish hf ‹_›
  · exact markTask_effect hf ‹_›
  · exact .acknowledgeTask hf ‹_›

/-- A step is what its effect says. -/
theorem step_effect (h : step cfg s a = some t) : Effect cfg s a t := by
  cases a with
  | submit definition =>
    simp only [step, submitDefinition] at h
    split at h <;> cases h
    exact .submit ‹_›
  | readTrigger e input =>
    simp only [step, readTrigger] at h
    split at h <;> cases h
    exact .readTrigger ‹_›
  | commitTrigger k =>
    simp only [step, commitTrigger] at h
    split at h
    · cases h
    · rename_i request hk
      split at h <;> cases h
      · exact .trigger hk ‹_›
      · exact .triggerLost
  | publishRow messageId => exact publishRow_effect h
  | markRow messageId =>
    simp only [step, markRow] at h
    split at h <;> cases h
    exact .markRow ‹_›
  | cleanRow messageId =>
    cases h
    exact .cleanRow
  | deliverEvent consumer =>
    simp only [step, deliverEvent, GroupStream.xreadgroup, Option.map_map, Option.map_eq_some_iff] at h
    obtain ⟨entry, hentry, rfl⟩ := h
    exact .deliverEvent hentry
  | deliverCompletion consumer =>
    simp only [step, deliverCompletion, GroupStream.xreadgroup, Option.map_map, Option.map_eq_some_iff] at h
    obtain ⟨event, hevent, rfl⟩ := h
    exact .deliverCompletion hevent
  | redeliver source index =>
    cases source <;> simp only [step, redeliver] at h <;> split at h <;> cases h
    · exact .redeliverEvent ‹_›
    · exact .redeliverCompletion ‹_›
  | handle k => exact handle_effect h
  | readReady k => exact readReady_effect h
  | dispatchNode k j => exact dispatchNode_effect h
  | finishDispatch k =>
    simp only [step, finishDispatch] at h
    split at h <;> cases h
    exact .finishDispatch ‹_›
  | acknowledge k => exact acknowledge_effect h
  | abandon k =>
    simp only [step, abandon] at h
    split at h <;> cases h
    exact .abandon
  | readRetries =>
    cases h
    exact .readRetries
  | publishRetry j =>
    obtain ⟨message, hmessage, rfl⟩ := Option.map_eq_some_iff.1 h
    exact .publishRetry hmessage
  | markRetry attemptId =>
    simp only [step, markRetry] at h
    split at h <;> cases h
    exact .markRetry ‹_›
  | deliverTask worker =>
    simp only [step, deliverTask, GroupStream.xreadgroup, Option.map_map, Option.map_eq_some_iff] at h
    obtain ⟨message, hmessage, rfl⟩ := h
    exact .deliverTask hmessage
  | reclaimTask worker index => exact reclaimTask_effect h
  | work k outcome => exact workTask_effect h
  | renew k =>
    simp only [step, renew] at h
    split at h <;> cases h
    exact .renew ‹_› rfl
  | dropTask k =>
    simp only [step, dropTask] at h
    split at h <;> cases h
    exact .dropTask
  | tick elapsed =>
    cases h
    exact .tick

/-! ## Steps seen from executions, nodes and tasks -/

end System

/-- The columns of an attempt that no worker writes. -/
def TaskAttemptRecord.identity (r : TaskAttemptRecord) : Uuid × Uuid × Nat × Option Uuid :=
  (r.attemptId, r.taskId, r.attemptNumber, r.failureEventId)

/-- What an outbox row says, whatever its publication state. -/
def OutboxEventRecord.content (r : OutboxEventRecord) : Uuid × MessageType × StreamName × Uuid × OutboxPayload :=
  (r.messageId, r.messageType, r.targetStream, r.aggregateId, r.payload)

/-- Milestones that are neither a trigger nor a claim of a node. -/
def Milestone.Local : Milestone → Prop
  | .triggered _ _ => False
  | .nodeClaimed _ _ => False
  | _ => True

namespace System

/-- The handlings of `t` hold no more than those of `s`. -/
def HandlingsFrom (s t : System) : Prop :=
  ∀ h ∈ t.handlings,
    (∀ x nodes, h.phase.toDispatch = some (x, nodes) →
      ∃ h₀ ∈ s.handlings, ∃ nodes₀, h₀.phase.toDispatch = some (x, nodes₀) ∧ ∀ n ∈ nodes, n ∈ nodes₀) ∧
    (∀ e ids, h.phase.ready = some (e, ids) → ∃ h₀ ∈ s.handlings, h₀.phase.ready = some (e, ids))

/-- Entries of `workflow.events` come from the outbox. -/
def EventsFrom (s t : System) : Prop :=
  ∀ entry ∈ t.events.entries, entry ∈ s.events.entries ∨ ∃ row ∈ s.db.outboxEvents,
    row.targetStream = .events ∧ entry = ⟨row.messageId, row.messageType, row.payload⟩

structure Quiet (s t : System) : Prop where
  workflows : t.db.workflows = s.db.workflows
  executions : t.db.workflowExecutions = s.db.workflowExecutions
  nodes : t.db.nodeExecutions = s.db.nodeExecutions
  tasks : t.db.logicalTasks = s.db.logicalTasks
  attempts : t.db.taskAttempts.map (·.identity) = s.db.taskAttempts.map (·.identity)
  inserted : t.db.outboxInserted = s.db.outboxInserted
  outbox : ∀ row ∈ t.db.outboxEvents, ∃ row₀ ∈ s.db.outboxEvents, row.content = row₀.content
  events : EventsFrom s t
  handlings : HandlingsFrom s t
  history : ∃ l, t.history = s.history ++ l ∧ ∀ m ∈ l, m.Local
  draws : s.draws ≤ t.draws

theorem HandlingsFrom.of_eq {s t : System} (h : t.handlings = s.handlings) : HandlingsFrom s t := by
  intro g hg
  rw [h] at hg
  exact ⟨fun x nodes hx => ⟨g, hg, nodes, hx, fun n hn => hn⟩, fun e ids he => ⟨g, hg, he⟩⟩

theorem HandlingsFrom.of_sub {s t : System} (h : ∀ g ∈ t.handlings, g ∈ s.handlings ∨
    (g.phase.toDispatch = none ∧ g.phase.ready = none)) : HandlingsFrom s t := by
  intro g hg
  rcases h g hg with hs | ⟨h₁, h₂⟩
  · exact ⟨fun x nodes hx => ⟨g, hs, nodes, hx, fun n hn => hn⟩, fun e ids he => ⟨g, hs, he⟩⟩
  · exact ⟨fun x nodes hx => by simp [h₁] at hx, fun e ids he => by simp [h₂] at he⟩

/-- A step that leaves the database and the handlings alone. -/
theorem Quiet.of_db_eq {s t : System} (hdb : t.db = s.db) (hh : t.handlings = s.handlings)
    (he : t.events.entries = s.events.entries) (hl : ∃ l, t.history = s.history ++ l ∧ ∀ m ∈ l, m.Local)
    (hd : s.draws ≤ t.draws) : Quiet s t :=
  ⟨by rw [hdb], by rw [hdb], by rw [hdb], by rw [hdb], by rw [hdb], by rw [hdb],
    fun row hr => ⟨row, hdb ▸ hr, rfl⟩, fun entry h => .inl (he ▸ h), .of_eq hh, hl, hd⟩

/-- A step of an orchestrator that leaves the database alone. -/
theorem Quiet.of_handlings {s t : System} (hdb : t.db = s.db) (hh : HandlingsFrom s t)
    (he : t.events.entries = s.events.entries) (hl : t.history = s.history) (hd : s.draws = t.draws) : Quiet s t :=
  ⟨by rw [hdb], by rw [hdb], by rw [hdb], by rw [hdb], by rw [hdb], by rw [hdb],
    fun row hr => ⟨row, hdb ▸ hr, rfl⟩, fun entry h => .inl (he ▸ h), hh, ⟨[], by simp [hl]⟩, hd.le⟩

/-- A step of a worker: only worker columns of attempts change in the database. -/
theorem Quiet.of_attempts {s t : System} {attempts : List TaskAttemptRecord}
    (hdb : t.db = { s.db with taskAttempts := attempts })
    (ha : attempts.map (·.identity) = s.db.taskAttempts.map (·.identity)) (hh : t.handlings = s.handlings)
    (he : t.events.entries = s.events.entries) (hl : ∃ l, t.history = s.history ++ l ∧ ∀ m ∈ l, m.Local)
    (hd : s.draws ≤ t.draws) : Quiet s t :=
  ⟨by rw [hdb], by rw [hdb], by rw [hdb], by rw [hdb], by rw [hdb]; exact ha, by rw [hdb],
    fun row hr => ⟨row, by rw [hdb] at hr; exact hr, rfl⟩, fun entry h => .inl (he ▸ h), .of_eq hh, hl, hd⟩

/-- What a step does to executions, nodes and tasks. -/
inductive Kind (cfg : Config) (s t : System) : Prop where
  | submit {w : Workflow} {definition : Dict Json} (accepted : accept cfg.validation (.v4 s.draws) definition = .ok w)
      (wellFormed : w.WellFormed) (newWorkflow : s.db.getWorkflowById w.workflowId = none)
      (newExecution : s.db.getExecutionById (.v4 (s.draws + 1)) = none)
      (eq : t = { s with db := submitted w (.v4 (s.draws + 1)) s.now s.db, draws := s.draws + 2 })
  | trigger {k : Nat} {request : TriggerRequest} (request_mem : s.triggers[k]? = some request) {db : Database}
      (commit : triggerCommit request.execution request.inputData (.v4 s.draws) s.now s.db = .ok db)
      (eq : t = { s with
        triggers := s.triggers.eraseIdx k
        db := db
        draws := s.draws + 1
        history := s.history ++ [.triggered request.execution.executionId request.inputData] })
  | process {k index : Nat} {event : TaskCompletionEvent} {decision : TaskCompletionDecision} {db : Database}
      (handling : s.handlings[k]? = some ⟨.completion, index, .received⟩)
      (entry : s.completions.entries[index]? = some event) (readable : readable event = true)
      (processed : process cfg.policy event (.v4 s.draws) s.now s.db = .ok (decision, db))
      (eq : t = { s with
        db := db
        draws := s.draws + 1
        handlings := s.handlings.set k
          ⟨.completion, index, .evaluated event.executionId decision.readyNodeIds⟩ })
  | dispatch {k j : Nat} {h : Handling} {x : WorkflowExecutionRecord} {nodes : List WorkflowNode} {n : WorkflowNode}
      {phase : HandlingPhase} {result : DispatchResult} {db : Database} (handling : s.handlings[k]? = some h)
      (toDispatch : h.phase.toDispatch = some (x, nodes)) (node : nodes[j]? = some n)
      (dispatched : dispatch cfg.strFloat x n (.v4 s.draws) s.now s.db = .ok (result, db))
      (phase_eq : (h.phase = .dispatching x nodes ∧ phase = .dispatching x (nodes.eraseIdx j)) ∨
        (h.phase = .raised x nodes ∧ phase = .raised x (nodes.eraseIdx j)))
      (eq : t = { s with
        db := db
        draws := s.draws + 1
        handlings := s.handlings.set k { h with phase := phase }
        history := s.history ++
          if newlyRunning s.db db x.executionId n.id then [.nodeClaimed x.executionId n.id] else [] })
  | evaluate {k index : Nat} {executionId : Uuid} {ready : List String} {eventId : Uuid}
      (handling : s.handlings[k]? = some ⟨.trigger, index, .received⟩)
      (entry : s.events.entries[index]? = some ⟨eventId, .executionTriggered, .execution executionId⟩)
      (evaluated : evaluateReadiness executionId s.db = .ok ready)
      (eq : t = { s with handlings := s.handlings.set k ⟨.trigger, index, .evaluated executionId ready⟩ })
  | read {k index : Nat} {source : Source} {executionId : Uuid} {ready : List String} {x : WorkflowExecutionRecord}
      {nodes : List WorkflowNode} (handling : s.handlings[k]? = some ⟨source, index, .evaluated executionId ready⟩)
      (nonempty : ready ≠ []) (reads : readyNodes executionId ready s.db = .ok (x, nodes))
      (eq : t = { s with handlings := s.handlings.set k ⟨source, index, .dispatching x nodes⟩ })
  | quiet (quiet : Quiet s t)

variable {cfg : Config} {s t : System} {a : Action}

theorem mem_set_cases {α : Type} {l : List α} {k : Nat} {a b : α} (h : b ∈ l.set k a) : b ∈ l ∨ b = a := by
  rcases List.mem_or_eq_of_mem_set h with h | h
  · exact .inl h
  · exact .inr h

theorem eq_or_mem_set {α : Type} {l : List α} {k : Nat} {a b c : α} (ha : l[k]? = some a) (hc : c ∈ l) :
    c = a ∨ c ∈ l.set k b := by
  obtain ⟨m, hm⟩ := List.mem_iff_getElem?.1 hc
  by_cases hk : k = m
  · subst hk
    exact .inl (Option.some.inj (hm.symm.trans ha))
  · exact .inr (List.mem_of_getElem? ((List.getElem?_set_ne hk).trans hm))

theorem eq_or_mem_eraseIdx {α : Type} {l : List α} {k : Nat} {c : α} (hc : c ∈ l) :
    l[k]? = some c ∨ c ∈ l.eraseIdx k := by
  obtain ⟨m, hm⟩ := List.mem_iff_getElem?.1 hc
  by_cases hk : m = k
  · subst hk
    exact .inl hm
  · exact .inr (List.mem_eraseIdx_iff_getElem?.2 ⟨m, hk, hm⟩)

theorem mem_set_self {α : Type} {l : List α} {k : Nat} {a b : α} (ha : l[k]? = some a) : b ∈ l.set k b :=
  List.mem_of_getElem? (List.getElem?_set_self (List.getElem?_eq_some_iff.1 ha).1)

theorem HandlingsFrom.of_set {k : Nat} {g : Handling} (hd : g.phase.toDispatch = none) (hr : g.phase.ready = none)
    (h : t.handlings = s.handlings.set k g) : HandlingsFrom s t := by
  refine .of_sub fun g' hg' => ?_
  rw [h] at hg'
  rcases mem_set_cases hg' with hg' | rfl
  · exact .inl hg'
  · exact .inr ⟨hd, hr⟩

theorem HandlingsFrom.of_erase {k : Nat} (h : t.handlings = s.handlings.eraseIdx k) : HandlingsFrom s t :=
  .of_sub fun _ hg => .inl (List.mem_of_mem_eraseIdx (h ▸ hg))

theorem HandlingsFrom.of_received {source : Source} {index : Nat}
    (h : t.handlings = s.handlings ++ [⟨source, index, .received⟩]) : HandlingsFrom s t := by
  refine .of_sub fun g hg => ?_
  rw [h] at hg
  rcases List.mem_append.1 hg with hg | hg
  · exact .inl hg
  · rw [List.mem_singleton.1 hg]
    exact .inr ⟨rfl, rfl⟩

theorem map_identity_updateWhere {p : TaskAttemptRecord → Bool} {f : TaskAttemptRecord → TaskAttemptRecord}
    {attempts : List TaskAttemptRecord} (hf : ∀ r, (f r).identity = r.identity) :
    (Table.updateWhere p f attempts).map (·.identity) = attempts.map (·.identity) :=
  Table.map_updateWhere fun r _ _ => hf r

theorem markRetry_quiet {attemptId : Uuid} : Quiet s { s with db := (s.db.markRetryPublished attemptId s.now).2 } := by
  unfold markRetryPublished
  dsimp only
  split
  · exact ⟨rfl, rfl, rfl, rfl, map_identity_updateWhere fun _ => rfl, rfl, fun row hrow => ⟨row, hrow, rfl⟩,
      fun _ he => .inl he, .of_eq rfl, ⟨[], by simp⟩, le_rfl⟩
  · exact .of_db_eq rfl rfl rfl ⟨[], by simp⟩ le_rfl

theorem dispatchRaised_handlings {k j : Nat} {g : Handling} {x : WorkflowExecutionRecord} {nodes : List WorkflowNode}
    (hk : s.handlings[k]? = some g) (hg : g.phase.toDispatch = some (x, nodes)) :
    HandlingsFrom s { s with handlings := s.handlings.set k { g with phase := .raised x (nodes.eraseIdx j) } } := by
  intro g' hg'
  rcases mem_set_cases hg' with hg' | rfl
  · exact ⟨fun x nodes hx => ⟨g', hg', nodes, hx, fun n hn => hn⟩, fun e ids he => ⟨g', hg', he⟩⟩
  · refine ⟨fun x' nodes' hx => ?_, fun e ids he => by simp [HandlingPhase.ready] at he⟩
    cases hx
    exact ⟨g, List.mem_of_getElem? hk, nodes, hg, fun n hn => List.mem_of_mem_eraseIdx hn⟩

/-- Every step is of one of these kinds. -/
theorem Effect.kind (hs : s.db.Sound) (h : Effect cfg s a t) : Kind cfg s t := by
  cases h with
  | submit commit =>
    obtain ⟨w, hacc, hwf, hnew, hnone, rfl⟩ := submit_ok hs commit
    exact .submit hacc hwf hnew hnone rfl
  | trigger request_mem commit => exact .trigger request_mem commit rfl
  | process handling entry readable processed => exact .process handling entry readable processed rfl
  | dispatch handling toDispatch node dispatched phase_eq =>
    exact .dispatch handling toDispatch node dispatched phase_eq rfl
  | evaluate handling entry evaluated => exact .evaluate handling entry evaluated rfl
  | read handling nonempty reads => exact .read handling nonempty reads rfl
  | @publishEventRow row mem _ stream =>
    refine .quiet ⟨rfl, rfl, rfl, rfl, rfl, rfl, fun r hr => ⟨r, hr, rfl⟩, ?_, .of_eq rfl, ⟨[], by simp⟩, le_rfl⟩
    intro entry hentry
    rcases List.mem_append.1 hentry with hentry | hentry
    · exact .inl hentry
    · exact .inr ⟨row, mem, stream, List.mem_singleton.1 hentry⟩
  | markRow =>
    refine .quiet ⟨rfl, rfl, rfl, rfl, rfl, rfl, ?_, fun _ he => .inl he, .of_eq rfl, ⟨[], by simp⟩, le_rfl⟩
    intro row hrow
    obtain ⟨row₀, hrow₀, rfl⟩ := Table.mem_updateWhere.1 hrow
    refine ⟨row₀, hrow₀, ?_⟩
    split <;> rfl
  | cleanRow =>
    exact .quiet ⟨rfl, rfl, rfl, rfl, rfl, rfl, fun row hrow => ⟨row, List.mem_of_mem_filter hrow, rfl⟩,
      fun _ he => .inl he, .of_eq rfl, ⟨[], by simp⟩, le_rfl⟩
  | deliverEvent | deliverCompletion | redeliverEvent | redeliverCompletion =>
    exact .quiet (.of_handlings rfl (.of_received rfl) rfl rfl rfl)
  | evaluateRaised | processRaised | readRaised | abandon | acknowledgeEvent | acknowledgeCompletion =>
    exact .quiet (.of_handlings rfl (.of_erase rfl) rfl rfl rfl)
  | skip | readEmpty | finishDispatch => exact .quiet (.of_handlings rfl (.of_set rfl rfl rfl) rfl rfl rfl)
  | dispatchRaised handling toDispatch =>
    exact .quiet (.of_handlings rfl (dispatchRaised_handlings handling toDispatch) rfl rfl rfl)
  | markRetry => exact .quiet markRetry_quiet
  | claim | mark | renew =>
    exact .quiet (.of_attempts rfl (map_identity_updateWhere fun _ => rfl) rfl rfl
      ⟨[], by simp [setPhase, renewTask]⟩ le_rfl)
  | @record _ _ _ event =>
    exact .quiet (.of_attempts rfl (map_identity_updateWhere fun _ => rfl) rfl rfl
      ⟨[.resultRecorded event], rfl, by simp [Milestone.Local]⟩ le_rfl)
  | @invoke _ _ f =>
    exact .quiet (.of_db_eq rfl rfl rfl ⟨[.handlerInvoked f.task.attemptId], rfl, by simp [Milestone.Local]⟩ le_rfl)
  | @publish _ _ _ event =>
    exact .quiet (.of_db_eq rfl rfl rfl ⟨[.completionPublished event], rfl, by simp [Milestone.Local]⟩ le_rfl)
  | finish => exact .quiet (.of_db_eq rfl rfl rfl ⟨[], by simp [setPhase]⟩ (Nat.le_succ _))
  | _ => exact .quiet (.of_db_eq rfl rfl rfl ⟨[], by simp [setPhase, dropInFlight]⟩ le_rfl)

theorem step_kind (hs : s.db.Sound) (h : step cfg s a = some t) : Kind cfg s t := (step_effect h).kind hs

end System

end WorkflowEngine
