import WorkflowEngine.Guarantees
import WorkflowEngine.Workers

/-!
# Acknowledged tasks

A worker acknowledges a task after its completion was published, after the attempt was found
completed, or after it was found claimed by somebody else. The last of these is a promise by
a worker that may stop before it keeps it. Without that branch every task entry stays
unacknowledged until a completion of its attempt has been published.
-/
namespace WorkflowEngine

open Database

namespace System

variable {cfg : Config} {s t : System} {a : Action}

/-- The step is no claim of an attempt that somebody holds, with its result neither recorded nor
published. This is the branch that acknowledges on another worker's promise. -/
def claimsWhenFree (s : System) : Action → Bool
  | .work k _ =>
    match s.inFlight[k]? with
    | some f =>
      match f.phase, s.db.getAttempt f.task.attemptId with
      | .received, some r => decide (r.status = .completed) || decide (r.status = .resultRecorded) ||
          !heldAt r s.now || s.published f.task.attemptId
      | _, _ => true
    | none => true
  | _ => true

/-- Who acknowledges an entry knows of a published completion, so every other entry is still
unacknowledged. -/
structure Acknowledges (s : System) : Prop where
  acknowledging : ∀ f ∈ s.inFlight, f.phase = .acknowledging → s.published f.task.attemptId = true
  entries : ∀ (i : Nat) m, s.tasks.entries[i]? = some m → s.tasks.Unacknowledged i ∨ s.published m.attemptId = true

theorem acknowledges_init : Acknowledges init := by
  refine ⟨?_, ?_⟩ <;> simp [init, GroupStream.empty]

/-- The claim of a held attempt is the only acknowledgement without a published completion. -/
theorem busy_published {k : Nat} {outcome : HandlerOutcome} {f : InFlight} {r : TaskAttemptRecord}
    (hallowed : claimsWhenFree s (.work k outcome) = true) (task : s.inFlight[k]? = some f)
    (phase : f.phase = .received) (attempt : s.db.getAttempt f.task.attemptId = some r)
    (open' : r.status ≠ .completed ∧ r.status ≠ .resultRecorded) (held : heldAt r s.now = true) :
    s.published f.task.attemptId = true := by
  simpa [claimsWhenFree, task, phase, attempt, open'.1, open'.2, held] using hallowed

/-- Whoever is about to acknowledge after a step already was, or may. -/
theorem Effect.acknowledging (heffect : Effect cfg s a t) (hw : Workers s) (hallowed : claimsWhenFree s a = true)
    {f : InFlight} (hf : f ∈ t.inFlight) (hphase : f.phase = .acknowledging) :
    f ∈ s.inFlight ∨ s.published f.task.attemptId = true := by
  have hset : ∀ {k : Nat} {g : InFlight} {phase : TaskPhase}, t.inFlight = s.inFlight.set k { g with phase := phase } →
      (phase = .acknowledging → s.published g.task.attemptId = true) →
      f ∈ s.inFlight ∨ s.published f.task.attemptId = true := by
    intro k g phase heq hg
    rw [heq] at hf
    rcases mem_set_cases hf with hf | rfl
    · exact .inl hf
    · exact .inr (hg hphase)
  cases heffect with
  | alreadyCompleted task _ attempt completed =>
    refine hset rfl fun _ => ?_
    exact (attempt_some attempt).2 ▸ hw.completed _ (attempt_some attempt).1 completed
  | busy task phase attempt open' held =>
    exact hset rfl fun _ => busy_published hallowed task phase attempt open' held
  | @mark _ _ g event task phase =>
    refine hset rfl fun _ => ?_
    have hg := hw.carries g (List.mem_of_getElem? task)
    exact published_iff.2 ⟨event, hg.publishing event phase, (hg.event event (by rw [phase]; rfl)).1.attemptId⟩
  | claim | replay | invoke | renew | finish | record | replayed | publish => exact hset rfl (by simp)
  | deliverTask | reclaimTask =>
    rcases List.mem_append.1 hf with hf | hf
    · exact .inl hf
    · rw [List.mem_singleton.1 hf] at hphase
      cases hphase
  | claimRaised | leaseLost | recordRaised | replayRaised | markRaised | dropTask | acknowledgeTask =>
    exact .inl (List.mem_of_mem_eraseIdx hf)
  | _ => exact .inl hf

/-- An entry is acknowledged by somebody who is about to, and new entries are unacknowledged. -/
theorem Effect.unacknowledged (heffect : Effect cfg s a t) (hw : Workers s) {i : Nat} {m : NodeTaskMessage}
    (hm : t.tasks.entries[i]? = some m) :
    t.tasks.Unacknowledged i ∨ (∃ f ∈ s.inFlight, f.phase = .acknowledging ∧ f.index = i) ∨
      (s.tasks.entries[i]? = some m ∧ ¬ s.tasks.Unacknowledged i) := by
  have hadd : ∀ {message : NodeTaskMessage}, t.tasks = s.tasks.xadd message → t.tasks.Unacknowledged i ∨
      (∃ f ∈ s.inFlight, f.phase = .acknowledging ∧ f.index = i) ∨
      (s.tasks.entries[i]? = some m ∧ ¬ s.tasks.Unacknowledged i) := by
    intro message heq
    rw [heq] at hm ⊢
    exact (s.tasks.unacknowledged_xadd_or hw.delivered hm).imp_right .inr
  cases heffect with
  | publishTaskRow => exact hadd rfl
  | publishRetry => exact hadd rfl
  | deliverTask =>
    by_cases hu : s.tasks.Unacknowledged i
    · exact .inl hu.deliver
    · exact .inr (.inr ⟨hm, hu⟩)
  | reclaimTask =>
    by_cases hu : s.tasks.Unacknowledged i
    · exact .inl hu.reclaim
    · exact .inr (.inr ⟨hm, hu⟩)
  | @acknowledgeTask k outcome f task phase =>
    by_cases hi : i = f.index
    · exact .inr (.inl ⟨f, List.mem_of_getElem? task, phase, hi.symm⟩)
    · by_cases hu : s.tasks.Unacknowledged i
      · exact .inl (hu.xack hi)
      · exact .inr (.inr ⟨hm, hu⟩)
  | _ =>
    by_cases hu : s.tasks.Unacknowledged i
    · exact .inl hu
    · exact .inr (.inr ⟨hm, hu⟩)

theorem Effect.acknowledges (heffect : Effect cfg s a t) (hw : Workers s) (hallowed : claimsWhenFree s a = true)
    (h : Acknowledges s) : Acknowledges t := by
  have hhist := heffect.history
  refine ⟨fun f hf hphase => published_mono hhist ?_, fun i m hm => ?_⟩
  · rcases heffect.acknowledging hw hallowed hf hphase with hf | hp
    · exact h.acknowledging f hf hphase
    · exact hp
  · rcases heffect.unacknowledged hw hm with hu | ⟨f, hf, hphase, rfl⟩ | ⟨hold, hu⟩
    · exact .inl hu
    · have hentry := taskEntry_mono heffect.taskEntries (hw.carries f hf).entry
      obtain rfl : f.task = m := Option.some.inj (hentry.symm.trans hm)
      exact .inr (published_mono hhist (h.acknowledging f hf hphase))
    · exact .inr (published_mono hhist ((h.entries i m hold).resolve_left hu))

theorem reachable_acknowledges (h : Reachable cfg (fun s a => claimsWhenFree s a = true) s) : Acknowledges s :=
  Transition.Reachable.invariant acknowledges_init (fun _ _ _ hr hs ha ht =>
    (step_effect ht).acknowledges (reachable_workers (hr.mono fun _ _ _ => trivial)) ha hs) h

/-- In every run that never claims a held attempt, a task entry whose attempt has no published
completion can still be picked up: some entry of the attempt is unacknowledged. -/
theorem no_task_lost (h : Reachable cfg (fun s a => claimsWhenFree s a = true) s) {i : Nat} {message : NodeTaskMessage}
    (added : s.tasks.entries[i]? = some message)
    (unpublished : ∀ event, Milestone.completionPublished event ∈ s.history → event.attemptId ≠ message.attemptId) :
    ∃ j message', s.tasks.entries[j]? = some message' ∧ message'.attemptId = message.attemptId ∧
      s.tasks.Unacknowledged j := by
  rcases (reachable_acknowledges h).entries i message added with hu | hp
  · exact ⟨i, message, added, rfl, hu⟩
  · obtain ⟨event, hm, hid⟩ := published_iff.1 hp
    exact absurd hid (unpublished event hm)

/-- The task of `fetch`, delivered, claimed and started. -/
def started : List Action :=
  triggered chain ++ ([.readReady 0, .dispatchNode 0 0, .finishDispatch 0, .acknowledge 0,
    .publishRow (createTaskId (.v4 1) "fetch"), .deliverTask "worker", .work 0 (.success .null),
    .work 0 (.success .null)] : List Action)

/-- The worker of `started` has stopped. -/
def abandonedTask : System := reachedUnder sampleConfig claimsWhenFree (started ++ ([.dropTask 0] : List Action))

theorem no_task_lost_abandoned :
    abandonedTask.inFlight = [] ∧ abandonedTask.tasks.entries.length = 1 ∧
      ∃ j message', abandonedTask.tasks.entries[j]? = some message' ∧ abandonedTask.tasks.Unacknowledged j := by
  refine ⟨by decide +kernel, by decide +kernel, ?_⟩
  obtain ⟨message, hmessage⟩ : ∃ message, abandonedTask.tasks.entries[0]? = some message :=
    Option.isSome_iff_exists.1 (by decide +kernel)
  have hnone : abandonedTask.published message.attemptId = false := by
    have : (abandonedTask.tasks.entries.all fun m => !abandonedTask.published m.attemptId) = true := by decide +kernel
    simpa using List.all_eq_true.1 this message (List.mem_of_getElem? hmessage)
  have hun : ∀ event, Milestone.completionPublished event ∈ abandonedTask.history →
      event.attemptId ≠ message.attemptId := by
    intro event hm hid
    rw [published_iff.2 ⟨event, hm, hid⟩] at hnone
    cases hnone
  obtain ⟨j, message', hj, -, hu⟩ := no_task_lost (reachable_reachedUnder sampleConfig claimsWhenFree _) hmessage hun
  exact ⟨j, message', hj, hu⟩

/-- The handler runs past the reclaim idle time with its lease renewed; a second worker takes the
entry over, finds the attempt claimed and acknowledges; the first one stops. -/
def lostTask : System :=
  reached sampleConfig (started ++ ([.tick 25000000, .renew 0, .tick 25000000, .renew 0, .tick 15000000,
    .reclaimTask "second" 0, .work 1 (.success .null), .work 1 (.success .null), .dropTask 0] : List Action))

theorem no_task_lost_counterexample :
    Reachable sampleConfig anyStep lostTask ∧ ∃ message, lostTask.tasks.entries[0]? = some message ∧
      (∀ event, Milestone.completionPublished event ∈ lostTask.history → event.attemptId ≠ message.attemptId) ∧
      ¬ ∃ j message', lostTask.tasks.entries[j]? = some message' ∧ message'.attemptId = message.attemptId ∧
        lostTask.tasks.Unacknowledged j := by
  obtain ⟨message, hmessage⟩ : ∃ message, lostTask.tasks.entries[0]? = some message :=
    Option.isSome_iff_exists.1 (by decide +kernel)
  have hnone : lostTask.published message.attemptId = false := by
    have : (lostTask.tasks.entries.all fun m => !lostTask.published m.attemptId) = true := by decide +kernel
    simpa using List.all_eq_true.1 this message (List.mem_of_getElem? hmessage)
  have hlen : lostTask.tasks.entries.length = 1 ∧ lostTask.tasks.lastDelivered = 1 ∧ lostTask.tasks.pending = [] := by
    decide +kernel
  refine ⟨reachable_reached sampleConfig _, message, hmessage, fun event hm hid => ?_, ?_⟩
  · rw [published_iff.2 ⟨event, hm, hid⟩] at hnone
    cases hnone
  · rintro ⟨j, message', -, -, hlt, hu⟩
    rw [hlen.2.2, hlen.2.1] at hu
    rw [hlen.1] at hlt
    rcases hu with hle | ⟨p, hp, -⟩
    · omega
    · cases hp

end System

end WorkflowEngine
