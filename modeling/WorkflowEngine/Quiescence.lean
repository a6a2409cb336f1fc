import WorkflowEngine.Duplicates
import WorkflowEngine.RetryChains
import WorkflowEngine.WakeUp

/-!
# Quiescent states

A system has come to rest when every outbox row is published, every entry of the three streams
has been delivered, no handling and no task is under way and no retry is pending. In a run
without crashes nobody who has taken an entry lets it go before it has had its effect, so at
rest no node is running and no node waits: what is left of a triggered execution is finished.
-/
namespace WorkflowEngine

open Database

/-- The phases in which a worker holds the claim of its attempt. -/
def TaskPhase.Working : TaskPhase → Prop
  | .claimed => True
  | .executing renewalFailed => renewalFailed = false
  | .executed _ => True
  | _ => False

namespace System

variable {cfg : Config} {s t : System} {a : Action} {f : InFlight} {event : TaskCompletionEvent}

/-- No process stops in the middle of its work. A handling may end after its dispatch raised. -/
def crashFree (s : System) : Action → Bool
  | .abandon k => (s.handlings[k]?).all fun h =>
      match h.phase with
      | .raised _ [] => true
      | _ => false
  | .dropTask _ => false
  | _ => true

/-- A completion that is handled here can be decoded, and the instant of a retry can be computed
for a failure. -/
def completionAccepted (cfg : Config) (s : System) : Action → Bool
  | .handle k =>
    match s.handlings[k]? with
    | some ⟨.completion, index, .received⟩ => (s.completions.entries[index]?).all fun event =>
        readable event && (decide (event.status = .completed) || (retryAt cfg.policy s.now event.attemptNumber).isOk)
    | _ => true
  | _ => true

@[mk_iff]
structure Quiescent (s : System) : Prop where
  outbox : ∀ row ∈ s.db.outboxEvents, row.status = .published
  retries : ∀ d ∈ s.db.taskRetryDispatches, d.status = .published
  events : s.events.lastDelivered = s.events.entries.length
  tasks : s.tasks.lastDelivered = s.tasks.entries.length
  completions : s.completions.lastDelivered = s.completions.entries.length
  handlings : s.handlings = []
  inFlight : s.inFlight = []

instance : Decidable (Quiescent s) := decidable_of_iff _ (quiescent_iff s).symm

/-! ## Workers -/

/-- Nobody drops a task that somebody else works on. -/
theorem Effect.flight_kept (heffect : Effect cfg s a t) (hfree : crashFree s a = true) (hf : f ∈ s.inFlight) :
    f ∈ t.inFlight ∨ ∃ k, s.inFlight[k]? = some f ∧ ((∃ outcome, a = .work k outcome) ∨ a = .renew k) := by
  have hset : ∀ {k : Nat} {g g' : InFlight}, s.inFlight[k]? = some g → f = g ∨ f ∈ s.inFlight.set k g' :=
    fun hk => eq_or_mem_set hk hf
  cases heffect with
  | claim task | replay task | alreadyCompleted task | busy task | invoke task | finish task | record task
  | replayed task | publish task | mark task =>
    rcases hset task with rfl | hmem
    · exact .inr ⟨_, task, .inl ⟨_, rfl⟩⟩
    · exact .inl hmem
  | renew task =>
    rcases hset task with rfl | hmem
    · exact .inr ⟨_, task, .inr rfl⟩
    · exact .inl hmem
  | claimRaised task | leaseLost task | recordRaised task | replayRaised task | markRaised task
  | acknowledgeTask task =>
    rcases eq_or_mem_eraseIdx hf with hk | hmem
    · exact .inr ⟨_, hk, .inl ⟨_, rfl⟩⟩
    · exact .inl hmem
  | dropTask => cases hfree
  | deliverTask | reclaimTask => exact .inl (List.mem_append_left _ hf)
  | _ => exact .inl hf

/-- A task in the stream is one that can be claimed. -/
theorem claim_returns (hr : Reachable cfg anyStep s) (hf : f ∈ s.inFlight) (now expires : Time) :
    ∃ result, s.db.claimAttempt f.task.attemptId f.task.taskId f.task.executionId f.task.nodeId f.worker now expires =
      .ok result := by
  have hissued := (reachable_messages hr).entries f.task
    (List.mem_of_getElem? ((reachable_workers hr).carries f hf).entry)
  obtain ⟨r, hattempt, htask, -⟩ := (reachable_attemptIds hr).issued hissued
  obtain ⟨task, hmem, hid⟩ := List.mem_map.1 hissued.2
  simp only [LogicalTaskRecord.identity, Prod.mk.injEq] at hid
  obtain ⟨task', htask'⟩ : ∃ task', s.db.getLogicalTask f.task.taskId = some task' := by
    cases hlookup : s.db.getLogicalTask f.task.taskId with
    | none => exact absurd hid.1 (Table.lookup_none.1 hlookup task hmem)
    | some task' => exact ⟨task', rfl⟩
  obtain ⟨hmem', hid'⟩ := logicalTask_some htask'
  have hd := reachable_dispatches hr
  have hsame := createTaskId_injective
    ((hd.ids task' hmem').symm.trans ((hid'.trans hid.1.symm).trans (hd.ids task hmem)))
  unfold claimAttempt
  rw [hattempt, htask']
  simp only [Option.all_some, htask, hsame.1, hsame.2, hid.2.1, hid.2.2.1, ne_eq, not_true_eq_false, or_self,
    decide_false, Bool.false_eq_true, if_false]
  split
  · exact ⟨_, rfl⟩
  · split
    · exact ⟨_, rfl⟩
    · split
      · exact ⟨_, rfl⟩
      · exact ⟨_, rfl⟩

/-- A received task is claimed, or its attempt has been claimed before. -/
theorem Effect.received_kept (heffect : Effect cfg s a t) (hr : Reachable cfg anyStep s) (hfree : crashFree s a = true)
    (hf : f ∈ s.inFlight) (hphase : f.phase = .received) :
    f ∈ t.inFlight ∨ ∀ r ∈ t.db.taskAttempts, r.attemptId = f.task.attemptId → ¬ r.Untouched := by
  rcases heffect.flight_kept hfree hf with hmem | ⟨k, hk, ⟨outcome, rfl⟩ | rfl⟩
  · exact .inl hmem
  · right
    intro r hrow hid
    have hsame :
        ∀ {r₀ : TaskAttemptRecord}, r ∈ s.db.taskAttempts → s.db.getAttempt f.task.attemptId = some r₀ → r = r₀ :=
      fun hrow hattempt => (reachable_attemptIds hr).keyed.ext hrow (attempt_some hattempt).1
        (hid.trans (attempt_some hattempt).2.symm)
    cases heffect with
    | claimRaised task' phase' raised =>
      cases hk.symm.trans task'
      obtain ⟨error, raised⟩ := raised
      obtain ⟨result, hok⟩ := claim_returns hr hf s.now (s.now + cfg.lease)
      rw [raised] at hok
      cases hok
    | claim task' =>
      cases hk.symm.trans task'
      obtain ⟨r₀, -, rfl⟩ := Table.mem_updateWhere.1 hrow
      split
      · simp [TaskAttemptRecord.Untouched, claimedBy]
      · rename_i hne
        rw [if_neg hne] at hid
        simp [hid] at hne
    | replay task' _ attempt recorded =>
      cases hk.symm.trans task'
      rw [hsame hrow attempt]
      simp [TaskAttemptRecord.Untouched, recorded]
    | alreadyCompleted task' _ attempt completed =>
      cases hk.symm.trans task'
      rw [hsame hrow attempt]
      simp [TaskAttemptRecord.Untouched, completed]
    | busy task' _ attempt _ held =>
      cases hk.symm.trans task'
      obtain rfl := hsame hrow attempt
      intro huntouched
      rw [heldAt, ((reachable_outcomes hr).untouched r hrow huntouched).2] at held
      cases held
    | invoke task' phase' | leaseLost task' phase' | finish task' phase' | record task' phase'
    | recordRaised task' phase'
    | replayed task' phase' | replayRaised task' phase' | publish task' phase' | mark task' phase'
    | markRaised task' phase' | acknowledgeTask task' phase' =>
      cases hk.symm.trans task'
      cases hphase.symm.trans phase'
  · cases heffect with
    | renew task' phase' =>
      cases hk.symm.trans task'
      cases hphase.symm.trans phase'

/-- Who holds the claim of an attempt that stays claimed goes on working. -/
theorem Effect.working_kept (heffect : Effect cfg s a t) (hr : Reachable cfg anyStep s) (hfree : crashFree s a = true)
    (hf : f ∈ s.inFlight) (hphase : f.phase.Working) {r : TaskAttemptRecord} (hrow : r ∈ s.db.taskAttempts)
    (hid : r.attemptId = f.task.attemptId) (hclaimed : r.status = .claimed) (hholder : r.claimedBy = some f.worker)
    {r' : TaskAttemptRecord} (hrow' : r' ∈ t.db.taskAttempts) (hid' : r'.attemptId = r.attemptId)
    (hclaimed' : r'.status = .claimed) :
    ∃ g ∈ t.inFlight, g.task = f.task ∧ g.worker = f.worker ∧ g.phase.Working := by
  rcases heffect.flight_kept hfree hf with hmem | ⟨k, hk, ⟨outcome, rfl⟩ | rfl⟩
  · exact ⟨f, hmem, rfl, rfl, hphase⟩
  · cases heffect with
    | invoke task' =>
      cases hk.symm.trans task'
      exact ⟨_, mem_set_self hk, rfl, rfl, rfl⟩
    | finish task' =>
      cases hk.symm.trans task'
      exact ⟨_, mem_set_self hk, rfl, rfl, trivial⟩
    | @record _ _ g event r₁ task' phase' =>
      cases hk.symm.trans task'
      have hreports := (((reachable_workers hr).carries f hf).event event (by rw [phase']; rfl)).1
      obtain ⟨r₀, hr₀, rfl⟩ := Table.mem_updateWhere.1 hrow'
      split at hclaimed'
      · cases hclaimed'
      · rename_i hne
        rw [if_neg hne] at hid'
        have : r₀.attemptId = event.attemptId := (hid'.trans hid).trans hreports.attemptId.symm
        simp [this, hclaimed'] at hne
    | recordRaised task' phase' unclaimed =>
      cases hk.symm.trans task'
      have hreports := (((reachable_workers hr).carries f hf).event _ (by rw [phase']; rfl)).1
      exact absurd hclaimed (unclaimed r hrow (hid.trans hreports.attemptId.symm))
    | leaseLost task' phase' | claimRaised task' phase' | claim task' phase' | replay task' phase'
    | alreadyCompleted task' phase' | busy task' phase' | replayed task' phase' | replayRaised task' phase'
    | publish task' phase' | mark task' phase' | markRaised task' phase' | acknowledgeTask task' phase' =>
      cases hk.symm.trans task'
      rw [phase'] at hphase
      cases hphase
  · cases heffect with
    | renew task' =>
      cases hk.symm.trans task'
      have hany : (s.db.renewClaim f.task.attemptId f.worker (s.now + cfg.lease)).1 = true :=
        List.any_eq_true.2 ⟨r, hrow, decide_eq_true ⟨hid, hclaimed, hholder⟩⟩
      refine ⟨_, mem_set_self hk, rfl, rfl, ?_⟩
      simp only [TaskPhase.Working, hany, Bool.not_true]

/-- A claimed row was claimed before, or has just been claimed by a worker. -/
theorem Effect.claimed_row (heffect : Effect cfg s a t) (hr : Reachable cfg anyStep s) {r : TaskAttemptRecord}
    (hrow : r ∈ t.db.taskAttempts) (hclaimed : r.status = .claimed) :
    (∃ r₀ ∈ s.db.taskAttempts, r₀.attemptId = r.attemptId ∧ r₀.status = .claimed ∧ r₀.claimedBy = r.claimedBy) ∨
      ∃ g ∈ t.inFlight, g.task.attemptId = r.attemptId ∧ r.claimedBy = some g.worker ∧ g.phase.Working := by
  rcases (reachable_attemptsStep hr heffect).mem hrow with ⟨r₀, hr₀, hchange⟩ | hnew
  · cases hchange with
    | same => exact .inl ⟨r, hr₀, rfl, hclaimed, rfl⟩
    | renewed _ _ _ status => exact .inl ⟨r₀, hr₀, rfl, status, rfl⟩
    | succeeded | failed | queued | recorded | marked => cases hclaimed
    | @claimed k outcome f _ task phase id =>
      cases heffect with
      | claim task' =>
        cases task.symm.trans task'
        exact .inr ⟨_, mem_set_self task, id.symm, rfl, trivial⟩
      | claimRaised | replay | alreadyCompleted | busy => exact .inl ⟨_, hrow, rfl, rfl, rfl⟩
      | invoke task' phase' | leaseLost task' phase' | finish task' phase' | record task' phase'
      | recordRaised task' phase' | replayed task' phase' | replayRaised task' phase' | publish task' phase'
      | mark task' phase' | markRaised task' phase' | acknowledgeTask task' phase' =>
        cases task.symm.trans task'
        cases phase.symm.trans phase'
  · cases hnew <;> cases hclaimed

/-- An event that is recorded or published stays so. -/
theorem Effect.out_kept (heffect : Effect cfg s a t) (hfree : crashFree s a = true) (h : Out s event) :
    Out t event := by
  cases h with
  | published mem => exact .published (heffect.completion_mono mem)
  | @recorded f mem phase =>
    rcases heffect.flight_kept hfree mem with hmem | ⟨k, hk, ⟨outcome, rfl⟩ | rfl⟩
    · exact .recorded hmem phase
    · cases heffect with
      | publish task' phase' =>
        cases hk.symm.trans task'
        cases phase.symm.trans phase'
        exact .published (List.mem_append_right _ (List.mem_singleton.2 rfl))
      | claimRaised task' phase' | claim task' phase' | replay task' phase' | alreadyCompleted task' phase'
      | busy task' phase' | invoke task' phase' | leaseLost task' phase' | finish task' phase' | record task' phase'
      | recordRaised task' phase' | replayed task' phase' | replayRaised task' phase' | mark task' phase'
      | markRaised task' phase' | acknowledgeTask task' phase' =>
        cases hk.symm.trans task'
        cases phase.symm.trans phase'
    · cases heffect with
      | renew task' phase' =>
        cases hk.symm.trans task'
        cases phase.symm.trans phase'

/-- The attempt has a result that was recorded or published. -/
def HasResult (s : System) (attemptId : Uuid) : Prop := ∃ event, Out s event ∧ event.attemptId = attemptId

/-- A row with a result had one before, or gets it from a worker or from a completion. -/
theorem Effect.result_row (heffect : Effect cfg s a t) (hr : Reachable cfg anyStep s) (hfree : crashFree s a = true)
    (h : ∀ r ∈ s.db.taskAttempts, r.status = .resultRecorded ∨ r.status = .completed → s.HasResult r.attemptId)
    {r : TaskAttemptRecord} (hrow : r ∈ t.db.taskAttempts)
    (hstatus : r.status = .resultRecorded ∨ r.status = .completed) :
    t.HasResult r.attemptId := by
  have hkept : ∀ {attemptId : Uuid}, s.HasResult attemptId → t.HasResult attemptId :=
    fun ⟨event, hout, hid⟩ => ⟨event, heffect.out_kept hfree hout, hid⟩
  rcases (reachable_attemptsStep hr heffect).mem hrow with ⟨r₀, hr₀, hchange⟩ | hnew
  · cases hchange with
    | same => exact hkept (h r hr₀ hstatus)
    | renewed _ _ _ status => rw [show r₀.status = .claimed from status] at hstatus; simp at hstatus
    | failed | queued | claimed => rcases hstatus with hstatus | hstatus <;> cases hstatus
    | marked _ _ _ status => exact hkept (h r₀ hr₀ (.inl status))
    | succeeded _ entry _ id =>
      exact ⟨_, .published (heffect.completion_mono (List.mem_of_getElem? entry)), id.symm⟩
    | recorded task phase id status =>
      cases heffect with
      | record task' phase' =>
        cases task.symm.trans task'
        cases phase.symm.trans phase'
        exact ⟨_, .recorded (mem_set_self task) rfl, id.symm⟩
      | recordRaised task' phase' unclaimed =>
        cases task.symm.trans task'
        cases phase.symm.trans phase'
        exact absurd status (unclaimed r₀ hr₀ id)
      | claimRaised task' phase' | claim task' phase' | replay task' phase' | alreadyCompleted task' phase'
      | busy task' phase' | invoke task' phase' | leaseLost task' phase' | finish task' phase' | replayed task' phase'
      | replayRaised task' phase' | publish task' phase' | mark task' phase' | markRaised task' phase'
      | acknowledgeTask task' phase' =>
        cases task.symm.trans task'
        cases phase.symm.trans phase'
  · cases hnew <;> rcases hstatus with hstatus | hstatus <;> cases hstatus

/-! ## Orchestrators -/

/-- Nobody lets go of an entry before handling it. -/
theorem Effect.entry_kept (heffect : Effect cfg s a t) (hfree : crashFree s a = true) {h : Handling}
    (hh : h ∈ s.handlings) (hphase : h.phase = .received) :
    h ∈ t.handlings ∨ ∃ k, s.handlings[k]? = some h ∧ a = .handle k := by
  have hset : ∀ {k : Nat} {g g' : Handling}, s.handlings[k]? = some g → h = g ∨ h ∈ s.handlings.set k g' :=
    fun hk => eq_or_mem_set hk hh
  cases heffect with
  | evaluate handling | skip handling | process handling =>
    rcases hset handling with rfl | hmem
    · exact .inr ⟨_, handling, rfl⟩
    · exact .inl hmem
  | evaluateRaised handling | processRaised handling =>
    rcases eq_or_mem_eraseIdx hh with hk | hmem
    · exact .inr ⟨_, hk, rfl⟩
    · exact .inl hmem
  | readEmpty handling | read handling | finishDispatch handling =>
    rcases hset handling with rfl | hmem
    · cases hphase
    · exact .inl hmem
  | dispatch handling toDispatch | dispatchRaised handling toDispatch =>
    rcases hset handling with rfl | hmem
    · rw [hphase] at toDispatch
      cases toDispatch
    · exact .inl hmem
  | readRaised handling | acknowledgeEvent handling | acknowledgeCompletion handling =>
    rcases eq_or_mem_eraseIdx hh with hk | hmem
    · cases hk.symm.trans handling
      cases hphase
    · exact .inl hmem
  | @abandon k =>
    rcases eq_or_mem_eraseIdx (k := k) hh with hk | hmem
    · simp [crashFree, hk, hphase] at hfree
    · exact .inl hmem
  | deliverEvent | deliverCompletion | redeliverEvent | redeliverCompletion => exact .inl (List.mem_append_left _ hh)
  | _ => exact .inl hh

/-- An accepted completion is settled when it has been handled. -/
theorem completion_kept (hr : Reachable cfg anyStep s) (ht : step cfg s a = some t) (hfree : crashFree s a = true)
    (haccepted : completionAccepted cfg s a = true) {h : Handling} (hh : h ∈ s.handlings)
    (hsource : h.source = .completion) (hphase : h.phase = .received)
    (hentry : s.completions.entries[h.index]? = some event) :
    h ∈ t.handlings ∨ Settled t event := by
  rcases (step_effect ht).entry_kept hfree hh hphase with hmem | ⟨k, hk, rfl⟩
  · exact .inl hmem
  · right
    obtain ⟨source, index, phase⟩ := h
    obtain rfl : source = .completion := hsource
    obtain rfl : phase = .received := hphase
    simp only [completionAccepted, hk] at haccepted
    rw [hentry, Option.all_some, Bool.and_eq_true, Bool.or_eq_true, decide_eq_true_eq] at haccepted
    obtain ⟨hreadable, hretry⟩ := haccepted
    obtain ⟨⟨decision, db⟩, hok⟩ := process_returns hr (List.mem_of_getElem? hentry) fun hfailed => by
      rcases hretry with hcompleted | hretry
      · rw [hcompleted] at hfailed
        cases hfailed
      · cases hat : retryAt cfg.policy s.now event.attemptNumber with
        | ok at' => exact ⟨at', rfl⟩
        | error error =>
          rw [hat] at hretry
          cases hretry
    exact Processes.settled hr ⟨⟨index, hk, hentry⟩, hreadable, ⟨db, hok⟩, ht⟩

/-- A trigger entry is handled until it is acknowledged. -/
theorem Effect.trigger_handled (heffect : Effect cfg s a t) (hr : Reachable cfg anyStep s)
    (hfree : crashFree s a = true) (hunraised : ∀ h ∈ s.handlings, ∀ x nodes, h.phase ≠ .raised x nodes) {h : Handling}
    (hh : h ∈ s.handlings) (hsource : h.source = .trigger) :
    (∃ g ∈ t.handlings, g.source = .trigger ∧ g.index = h.index) ∨ ∀ p ∈ t.events.pending, p.index ≠ h.index := by
  have hset : ∀ {k : Nat} {g g' : Handling}, s.handlings[k]? = some g → t.handlings = s.handlings.set k g' →
      g'.source = g.source → g'.index = g.index → ∃ g ∈ t.handlings, g.source = .trigger ∧ g.index = h.index := by
    intro k g g' hk heq hs hi
    rcases eq_or_mem_set hk hh with rfl | hmem
    · exact ⟨g', heq ▸ mem_set_self hk, hs.trans hsource, hi⟩
    · exact ⟨h, heq ▸ hmem, hsource, rfl⟩
  have herase : ∀ {k : Nat}, t.handlings = s.handlings.eraseIdx k → s.handlings[k]? = some h ∨
      ∃ g ∈ t.handlings, g.source = .trigger ∧ g.index = h.index :=
    fun heq => (eq_or_mem_eraseIdx hh).imp_right fun hmem => ⟨h, heq ▸ hmem, hsource, rfl⟩
  cases heffect with
  | evaluate handling | skip handling | process handling | readEmpty handling | read handling | finishDispatch handling
  | dispatch handling | dispatchRaised handling => exact .inl (hset handling rfl rfl rfl)
  | @evaluateRaised k index eventId e error handling entry raised =>
    obtain ⟨x, hx, -⟩ := (reachable_consistent hr).triggerEntry _ (List.mem_of_getElem? entry) e rfl rfl
    obtain ⟨w, hw, -⟩ := (reachable_consistent hr).sound.workflow e x hx
    rw [evaluateReadiness_total hx hw] at raised
    cases raised
  | readRaised handling nonempty raised =>
    obtain ⟨result, hreads⟩ := readReady_returns hr handling nonempty
    rw [raised] at hreads
    cases hreads
  | processRaised handling | acknowledgeCompletion handling =>
    rcases herase rfl with hk | hmem
    · cases hk.symm.trans handling
      cases hsource
    · exact .inl hmem
  | acknowledgeEvent handling =>
    rcases herase rfl with hk | hmem
    · cases hk.symm.trans handling
      exact .inr fun p hp => of_decide_eq_true (List.mem_filter.1 hp).2
    · exact .inl hmem
  | abandon =>
    rcases herase rfl with hk | hmem
    · simp only [crashFree, hk, Option.all_some] at hfree
      split at hfree
      · exact absurd ‹_› (hunraised h hh _ _)
      · cases hfree
    · exact .inl hmem
  | deliverEvent | deliverCompletion | redeliverEvent | redeliverCompletion =>
    exact .inl ⟨h, List.mem_append_left _ hh, hsource, rfl⟩
  | _ => exact .inl ⟨h, hh, hsource, rfl⟩

theorem Effect.unraised (heffect : Effect cfg s a t) (hreturns : dispatchReturns cfg s a = true)
    (h : ∀ h ∈ s.handlings, ∀ x nodes, h.phase ≠ .raised x nodes) :
    ∀ g ∈ t.handlings, ∀ x nodes, g.phase ≠ .raised x nodes := by
  have hset : ∀ {k : Nat} {g : Handling}, (∀ x nodes, g.phase ≠ .raised x nodes) →
      ∀ h ∈ s.handlings.set k g, ∀ x nodes, h.phase ≠ .raised x nodes := by
    intro k g hg h' hh'
    rcases mem_set_cases hh' with hh' | rfl
    · exact h h' hh'
    · exact hg
  have hreceived : ∀ {source : Source} {index : Nat}, ∀ g ∈ s.handlings ++ [⟨source, index, .received⟩],
      ∀ x nodes, g.phase ≠ .raised x nodes := by
    intro source index g hg
    rcases List.mem_append.1 hg with hg | hg
    · exact h g hg
    · rw [List.mem_singleton.1 hg]
      simp
  cases heffect with
  | evaluate | skip | process | readEmpty | read | finishDispatch => exact hset (by simp)
  | dispatch handling _ _ _ phase_eq =>
    rcases phase_eq with ⟨-, rfl⟩ | ⟨hraised, -⟩
    · exact hset (by simp)
    · exact absurd hraised (h _ (List.mem_of_getElem? handling) _ _)
  | dispatchRaised handling toDispatch node raised =>
    simp only [dispatchReturns, handling, toDispatch, node, raised, Option.all_some] at hreturns
    cases hreturns
  | evaluateRaised | processRaised | readRaised | acknowledgeCompletion | acknowledgeEvent | abandon =>
    exact fun g hg => h g (List.mem_of_mem_eraseIdx hg)
  | deliverEvent | deliverCompletion | redeliverEvent | redeliverCompletion => exact hreceived
  | _ => exact h

/-! ## The invariant -/

/-- Who has taken an entry has it until it has had its effect. -/
structure Attended (s : System) : Prop where
  task : ∀ (i : Nat) m, s.tasks.entries[i]? = some m → i < s.tasks.lastDelivered →
    (∃ f ∈ s.inFlight, f.index = i ∧ f.phase = .received) ∨
      ∀ r ∈ s.db.taskAttempts, r.attemptId = m.attemptId → ¬ r.Untouched
  claimed : ∀ r ∈ s.db.taskAttempts, r.status = .claimed →
    ∃ f ∈ s.inFlight, f.task.attemptId = r.attemptId ∧ r.claimedBy = some f.worker ∧ f.phase.Working
  result : ∀ r ∈ s.db.taskAttempts, r.status = .resultRecorded ∨ r.status = .completed → s.HasResult r.attemptId
  completion : ∀ (i : Nat) event, s.completions.entries[i]? = some event → i < s.completions.lastDelivered →
    (∃ h ∈ s.handlings, h.source = .completion ∧ h.index = i ∧ h.phase = .received) ∨ Settled s event
  trigger : ∀ i < s.events.lastDelivered, (∃ h ∈ s.handlings, h.source = .trigger ∧ h.index = i) ∨
    ∀ p ∈ s.events.pending, p.index ≠ i
  unraised : ∀ h ∈ s.handlings, ∀ x nodes, h.phase ≠ .raised x nodes

theorem attended_init : Attended init := by
  refine ⟨?_, ?_, ?_, ?_, ?_, ?_⟩ <;> simp [init, GroupStream.empty, Database.empty]

theorem AttemptChange.touched {r r' : TaskAttemptRecord} (h : AttemptChange cfg s a r r') (hr : ¬ r.Untouched) :
    ¬ r'.Untouched := by
  cases h with
  | same => exact hr
  | queued _ _ scheduled => exact absurd (.inr (.inl scheduled)) hr
  | renewed _ _ _ status => simpa [TaskAttemptRecord.Untouched] using hr
  | _ => simp [TaskAttemptRecord.Untouched, Database.succeeded, failedWith, claimedBy, resultOf, markedCompleted]

/-- The entries delivered so far, and perhaps one more. -/
theorem Effect.taskDelivered (heffect : Effect cfg s a t) {i : Nat} (hi : i < t.tasks.lastDelivered) :
    i < s.tasks.lastDelivered ∨ ∃ f ∈ t.inFlight, f.index = i ∧ f.phase = .received := by
  cases heffect with
  | deliverTask =>
    rcases Nat.lt_succ_iff_lt_or_eq.1 hi with hlt | rfl
    · exact .inl hlt
    · exact .inr ⟨_, List.mem_append_right _ (List.mem_singleton.2 rfl), rfl, rfl⟩
  | _ => exact .inl hi

theorem Effect.completionDelivered (heffect : Effect cfg s a t) {i : Nat} (hi : i < t.completions.lastDelivered) :
    i < s.completions.lastDelivered ∨ ∃ h ∈ t.handlings, h.source = .completion ∧ h.index = i ∧
      h.phase = .received := by
  cases heffect with
  | deliverCompletion =>
    rcases Nat.lt_succ_iff_lt_or_eq.1 hi with hlt | rfl
    · exact .inl hlt
    · exact .inr ⟨_, List.mem_append_right _ (List.mem_singleton.2 rfl), rfl, rfl, rfl⟩
  | _ => exact .inl hi

theorem Effect.eventDelivered (heffect : Effect cfg s a t) {i : Nat} (hi : i < t.events.lastDelivered) :
    (i < s.events.lastDelivered ∧ ∀ p ∈ t.events.pending, p.index = i → ∃ p₀ ∈ s.events.pending, p₀.index = i) ∨
      ∃ h ∈ t.handlings, h.source = .trigger ∧ h.index = i := by
  cases heffect with
  | deliverEvent =>
    rcases Nat.lt_succ_iff_lt_or_eq.1 hi with hlt | rfl
    · refine .inl ⟨hlt, fun p hp hpi => ?_⟩
      rcases List.mem_append.1 hp with hp | hp
      · exact ⟨p, hp, hpi⟩
      · rw [List.mem_singleton.1 hp] at hpi
        exact absurd hpi (Nat.ne_of_gt hlt)
    · exact .inr ⟨_, List.mem_append_right _ (List.mem_singleton.2 rfl), rfl, rfl⟩
  | acknowledgeEvent => exact .inl ⟨hi, fun p hp hpi => ⟨p, (List.mem_filter.1 hp).1, hpi⟩⟩
  | _ => exact .inl ⟨hi, fun p hp hpi => ⟨p, hp, hpi⟩⟩

/-- Completion entries and their order stay. -/
theorem Effect.completionEntry (heffect : Effect cfg s a t) {i : Nat} (hi : i < s.completions.entries.length) :
    t.completions.entries[i]? = s.completions.entries[i]? := by
  rcases heffect.completions with heq | ⟨_, _, _, _, _, heq, _⟩
  · rw [heq]
  · rw [heq, List.getElem?_append_left hi]

theorem Effect.completionsDelivered (heffect : Effect cfg s a t)
    (h : s.completions.lastDelivered ≤ s.completions.entries.length) :
    t.completions.lastDelivered ≤ t.completions.entries.length := by
  cases heffect with
  | publish =>
    simp only [setPhase, GroupStream.xadd, List.length_append]
    omega
  | deliverCompletion next => exact (List.getElem?_eq_some_iff.1 next).1
  | _ => exact h

/-- The step keeps what was taken: no crash, no dispatch that raises, no completion that cannot be
handled. -/
def Attends (cfg : Config) (s : System) (a : Action) : Prop :=
  dispatchReturns cfg s a = true ∧ crashFree s a = true ∧ completionAccepted cfg s a = true

theorem Attended.step_task (h : Attended s) (hr : Reachable cfg anyStep s) (heffect : Effect cfg s a t)
    (hfree : crashFree s a = true) (i : Nat) (m : NodeTaskMessage) (hm : t.tasks.entries[i]? = some m)
    (hi : i < t.tasks.lastDelivered) : (∃ f ∈ t.inFlight, f.index = i ∧ f.phase = .received) ∨
      ∀ r ∈ t.db.taskAttempts, r.attemptId = m.attemptId → ¬ r.Untouched := by
  have hw := reachable_workers hr
  rcases heffect.taskDelivered hi with hi | hnew
  · have hentry : s.tasks.entries[i]? = some m := by
      obtain ⟨l, hl⟩ := heffect.taskEntries
      rw [← hm, hl, List.getElem?_append_left (Nat.lt_of_lt_of_le hi hw.delivered)]
    rcases h.task i m hentry hi with ⟨f, hf, rfl, hphase⟩ | htouched
    · obtain rfl : f.task = m := Option.some.inj ((hw.carries f hf).entry.symm.trans hentry)
      rcases heffect.received_kept hr hfree hf hphase with hmem | htouched
      · exact .inl ⟨f, hmem, rfl, hphase⟩
      · exact .inr htouched
    · right
      intro r hrow hid
      rcases (reachable_attemptsStep hr heffect).mem hrow with ⟨r₀, hr₀, hchange⟩ | hnew
      · exact hchange.touched (htouched r₀ hr₀ (hchange.id.symm.trans hid))
      · obtain ⟨r₀, hattempt, -⟩ :=
          (reachable_attemptIds hr).issued ((reachable_messages hr).entries m (List.mem_of_getElem? hentry))
        obtain ⟨hr₀, hid₀⟩ := attempt_some hattempt
        exact absurd (hid₀.trans hid.symm) ((reachable_attemptIds hr).not_new hnew hr₀)
  · exact .inl hnew

theorem Attended.step_claimed (h : Attended s) (hr : Reachable cfg anyStep s) (heffect : Effect cfg s a t)
    (hfree : crashFree s a = true) (r : TaskAttemptRecord) (hrow : r ∈ t.db.taskAttempts)
    (hclaimed : r.status = .claimed) :
    ∃ f ∈ t.inFlight, f.task.attemptId = r.attemptId ∧ r.claimedBy = some f.worker ∧ f.phase.Working := by
  rcases heffect.claimed_row hr hrow hclaimed with ⟨r₀, hr₀, hid, hst, hby⟩ | hnew
  · obtain ⟨f, hf, hfid, hholder, hphase⟩ := h.claimed r₀ hr₀ hst
    obtain ⟨g, hg, htask, hworker, hworking⟩ :=
      heffect.working_kept hr hfree hf hphase hr₀ hfid.symm hst hholder hrow hid.symm hclaimed
    refine ⟨g, hg, ?_, ?_, hworking⟩
    · rw [htask, hfid, hid]
    · rw [← hby, hholder, hworker]
  · exact hnew

theorem Attended.step (h : Attended s) (hr : Reachable cfg anyStep s) (ht : System.step cfg s a = some t)
    (hdelivered : s.completions.lastDelivered ≤ s.completions.entries.length) (ha : Attends cfg s a) : Attended t := by
  have heffect := step_effect ht
  obtain ⟨hreturns, hfree, haccepted⟩ := ha
  refine ⟨h.step_task hr heffect hfree, h.step_claimed hr heffect hfree, ?_, ?_, ?_,
    heffect.unraised hreturns h.unraised⟩
  · exact fun r hrow hstatus => heffect.result_row hr hfree h.result hrow hstatus
  · intro i event hentry hi
    rcases heffect.completionDelivered hi with hi | hnew
    · rw [heffect.completionEntry (Nat.lt_of_lt_of_le hi hdelivered)] at hentry
      rcases h.completion i event hentry hi with ⟨g, hg, hsource, rfl, hphase⟩ | hsettled
      · rcases completion_kept hr ht hfree haccepted hg hsource hphase hentry with hmem | hsettled
        · exact .inl ⟨g, hmem, hsource, rfl, hphase⟩
        · exact .inr hsettled
      · exact .inr (hsettled.step hr ht)
    · exact .inl hnew
  · intro i hi
    rcases heffect.eventDelivered hi with ⟨hi, hpending⟩ | hnew
    · rcases h.trigger i hi with ⟨g, hg, hsource, rfl⟩ | hnone
      · exact heffect.trigger_handled hr hfree h.unraised hg hsource
      · right
        intro p hp hpi
        obtain ⟨p₀, hp₀, hpi₀⟩ := hpending p hp hpi
        exact hnone p₀ hp₀ hpi₀
    · exact .inl hnew

theorem completions_delivered (h : Reachable cfg anyStep s) :
    s.completions.lastDelivered ≤ s.completions.entries.length :=
  Transition.Reachable.invariant (P := fun s => s.completions.lastDelivered ≤ s.completions.entries.length)
    (Nat.le_refl _) (fun _ _ _ _ hs _ ht => (step_effect ht).completionsDelivered hs) h

theorem reachable_attended {allowed : System → Action → Prop} (h : Reachable cfg allowed s)
    (hallowed : ∀ s a, Reachable cfg anyStep s → allowed s a → Attends cfg s a) : Attended s := by
  refine Transition.Reachable.invariant attended_init (fun s a t hr hs ha ht => ?_) h
  have hr : Reachable cfg anyStep s := hr.mono fun _ _ _ => trivial
  exact hs.step hr ht (completions_delivered hr) (hallowed s a hr ha)

/-! ## At rest -/

/-- An attempt is closed by a failure of its own. -/
def FailuresReported (s : System) : Prop :=
  ∀ r ∈ s.db.taskAttempts, ∀ id, r.failureEventId = some id →
    ∃ event ∈ s.completions.entries, event.eventId = id ∧ event.attemptId = r.attemptId ∧ event.status = .failed

theorem reachable_failuresReported (h : Reachable cfg anyStep s) : FailuresReported s := by
  refine Transition.Reachable.invariant (P := FailuresReported) ?_ (fun s a t hr hs _ ht => ?_) h
  · simp [FailuresReported, init, Database.empty]
  · intro r hrow id hid
    have heffect := step_effect ht
    have hold : ∀ {r₀ : TaskAttemptRecord}, r₀ ∈ s.db.taskAttempts → r₀.attemptId = r.attemptId →
        r₀.failureEventId = some id →
        ∃ event ∈ t.completions.entries, event.eventId = id ∧ event.attemptId = r.attemptId ∧
          event.status = .failed := by
      intro r₀ hr₀ hsame hid₀
      obtain ⟨event, hmem, hevent, hattempt, hfailed⟩ := hs r₀ hr₀ id hid₀
      exact ⟨event, heffect.completion_mono hmem, hevent, hattempt.trans hsame, hfailed⟩
    rcases (reachable_attemptsStep (hr.mono fun _ _ _ => trivial) heffect).mem hrow with ⟨r₀, hr₀, hchange⟩ | hnew
    · have hsame := hchange.id
      cases hchange with
      | failed _ entry status _ _ id' =>
        exact ⟨_, heffect.completion_mono (List.mem_of_getElem? entry), Option.some.inj hid, id'.symm, status⟩
      | _ => exact hold hr₀ hsame.symm hid
    · rw [hnew.failure] at hid
      cases hid

/-- A settled event has ended its node or closed its attempt. -/
theorem Settled.closed (hr : Reachable cfg anyStep s) (hs : Settled s event) (hmem : event ∈ s.completions.entries) :
    s.db.Ended event.executionId event.nodeId ∨
      ∃ r ∈ s.db.taskAttempts, r.attemptId = event.attemptId ∧ r.failureEventId.isSome := by
  unfold Settled at hs
  cases hst : event.status with
  | completed =>
    rw [hst] at hs
    exact .inl hs
  | failed =>
    rw [hst] at hs
    right
    obtain ⟨r, hrow, hid | hclosed⟩ := hs
    · obtain ⟨event', hmem', hid', hattempt, -⟩ := reachable_failuresReported hr r hrow _ hid
      refine ⟨r, hrow, ?_, by rw [hid]; rfl⟩
      rw [← hattempt]
      exact (reachable_identifiers hr).unique event'.eventId _ _ (.published hmem') (hid' ▸ .published hmem)
    · exact ⟨r, hrow, hclosed⟩

/-- At rest the message of every attempt is in the stream of tasks. -/
theorem Quiescent.message (hq : Quiescent s) (hr : Reachable cfg anyStep s) {e : Uuid} {i : String}
    (hrunning : s.db.status e i = .running) {r : TaskAttemptRecord} (hrow : r ∈ s.db.taskAttempts)
    (htask : r.taskId = createTaskId e i) : ∃ m ∈ s.tasks.entries, m.attemptId = r.attemptId := by
  have hd := reachable_dispatches hr
  by_cases hfirst : r.attemptNumber = 1
  · rcases hd.node e i with
      ⟨-, ⟨task, attempt, row, message, -, -, hattempts, hrows, -, hpayload, hid⟩, -⟩ | ⟨-, -, hnot⟩
    · have hr₁ : r ∈ s.db.firstAttemptsOf e i := List.mem_filter.2 ⟨hrow, by simp [htask, hfirst]⟩
      rw [hattempts] at hr₁
      obtain rfl := List.mem_singleton.1 hr₁
      have hmem : row ∈ s.db.taskInsertionsOf e i := hrows ▸ List.mem_singleton.2 rfl
      obtain ⟨hins, hmessage⟩ := List.mem_filter.1 hmem
      have htype : row.messageType = .task := by
        simp only [isTaskMessage, hpayload] at hmessage
        exact (of_decide_eq_true hmessage).1
      have hout := reachable_outbox hr
      rcases hout.kept row hins (.inr htype) with hdelivered | ⟨row', hrow', -, hpending⟩
      · exact ⟨message, hdelivered.task ((hout.stream row hins).1 htype) message hpayload, hid⟩
      · rw [hq.outbox row' hrow'] at hpending
        cases hpending
    · exact absurd (.inl hrunning) hnot
  · have hnumber := hd.numbers r hrow
    rcases (reachable_retries hr).waits hrow (by omega) with ⟨-, d, hdmem, -, hpending, -⟩ | hentry
    · rw [hq.retries d hdmem] at hpending
      cases hpending
    · exact hentry

/-- At rest no node is running. -/
theorem Quiescent.not_running (hq : Quiescent s) (hr : Reachable cfg anyStep s) (ha : Attended s)
    (e : Uuid) (i : String) :
    s.db.status e i ≠ .running := by
  intro hrunning
  have hids := reachable_attemptIds hr
  obtain ⟨r, hrow, htask, hopen⟩ := (reachable_sequences hr).running e i hrunning
  have hresult : ¬ s.HasResult r.attemptId := by
    rintro ⟨event, hout, hid⟩
    cases hout with
    | recorded mem =>
      rw [hq.inFlight] at mem
      cases mem
    | published mem =>
      obtain ⟨k, hk⟩ := List.mem_iff_getElem?.1 mem
      rcases ha.completion k event hk (hq.completions ▸ (List.getElem?_eq_some_iff.1 hk).1) with ⟨h, hh, -⟩ | hsettled
      · rw [hq.handlings] at hh
        cases hh
      · obtain ⟨r', hnames⟩ := published_names hr mem
        obtain ⟨hr', hid'⟩ := attempt_some hnames.attempt
        obtain rfl := hids.keyed.ext hrow hr' (hid.symm.trans hid'.symm)
        obtain ⟨rfl, rfl⟩ := createTaskId_injective (htask.symm.trans (hnames.task.trans hnames.id))
        rcases hsettled.closed hr mem with hended | ⟨r₁, hr₁, hid₁, hclosed⟩
        · exact hended.not_running hrunning
        · obtain rfl := hids.keyed.ext hrow hr₁ (hid.symm.trans hid₁.symm)
          rw [hopen] at hclosed
          cases hclosed
  cases hst : r.status with
  | running | scheduled | queued =>
    obtain ⟨m, hm, hid⟩ := hq.message hr hrunning hrow htask
    obtain ⟨k, hk⟩ := List.mem_iff_getElem?.1 hm
    rcases ha.task k m hk (hq.tasks ▸ (List.getElem?_eq_some_iff.1 hk).1) with ⟨f, hf, -⟩ | htouched
    · rw [hq.inFlight] at hf
      cases hf
    · exact htouched r hrow hid.symm (by simp [TaskAttemptRecord.Untouched, hst])
  | claimed =>
    obtain ⟨f, hf, -⟩ := ha.claimed r hrow hst
    rw [hq.inFlight] at hf
    cases hf
  | resultRecorded => exact hresult (ha.result r hrow (.inl hst))
  | completed => exact hresult (ha.result r hrow (.inr hst))
  | failed =>
    have hclosed := (reachable_sequences hr).failed r hrow hst
    rw [hopen] at hclosed
    cases hclosed

/-- At rest no node waits. -/
theorem Quiescent.not_waiting (hq : Quiescent s) (hr : Reachable cfg anyStep s) (ha : Attended s)
    (hw : Wakes s) (e : Uuid) (n : WorkflowNode) : ¬ s.db.Waiting e n := by
  intro hn
  rcases trigger_kept hr hn.triggered with ⟨entry, hentry, htrigger⟩ | ⟨row, hrow, hpending, -⟩
  · obtain ⟨i, hi⟩ := List.mem_iff_getElem?.1 hentry
    have hlt : i < s.events.lastDelivered := hq.events ▸ (List.getElem?_eq_some_iff.1 hi).1
    have hacked : ¬ s.events.Unacknowledged i := by
      rintro ⟨-, hle | ⟨p, hp, hpi⟩⟩
      · omega
      · rcases ha.trigger i hlt with ⟨h, hh, -⟩ | hnone
        · rw [hq.handlings] at hh
          cases hh
        · exact hnone p hp hpi
    obtain ⟨h, hh, -⟩ := hw.acknowledged i entry hi hacked e htrigger n hn
    rw [hq.handlings] at hh
    cases hh
  · rw [hq.outbox row hrow] at hpending
    cases hpending

/-- At rest every node of a triggered execution has ended: a node of least rank that has not
would be running or waiting. -/
theorem Quiescent.ended (hq : Quiescent s) (hr : Reachable cfg anyStep s) (ha : Attended s) (hw : Wakes s) {e : Uuid}
    {x : WorkflowExecutionRecord} {w : Workflow} (hx : s.db.getExecutionById e = some x)
    (triggered : x.status ≠ .pending) (hwf : s.db.getWorkflowById x.workflowId = some w) :
    ∀ n ∈ w.nodes, s.db.Ended e n.id := by
  obtain ⟨w', hw', hwell, hrun⟩ := (reachable_consistent hr).workflow hx
  obtain rfl : w = w' := Option.some.inj (hwf.symm.trans hw')
  obtain ⟨rank, hrank⟩ := hwell.acyclic
  suffices hall : ∀ k, ∀ n ∈ w.nodes, rank n.id = k → s.db.Ended e n.id from fun n hn => hall _ n hn rfl
  intro k
  induction k using Nat.strong_induction_on with
  | _ k ih =>
    intro n hn hk
    have hdeps : ∀ d ∈ n.dependencies, s.db.Ended e d := by
      intro d hd
      obtain ⟨m, hm, rfl⟩ := Workflow.mem_nodeIds.1 (hwell.known n hn d hd)
      exact ih (rank m.id) (hk ▸ hrank n hn m.id hd) m hm rfl
    cases hst : s.db.status e n.id with
    | completed => exact .inl hst
    | failed => exact .inr hst
    | running => exact absurd hst (hq.not_running hr ha e n.id)
    | pending =>
      refine absurd ⟨⟨x, w, hx, triggered, hwf, hn, fun d hd => ?_⟩, hst⟩ (hq.not_waiting hr ha hw e n)
      rcases hdeps d hd with hcompleted | hfailed
      · exact hcompleted
      · exact absurd hfailed (hrun.waiting n.id d ((hwell.dependsOn_iff hn).2 hd) hst)

/-- An execution whose nodes have all ended does not run, unless it has no nodes. -/
theorem ended_not_running (hr : Reachable cfg anyStep s) {e : Uuid} {x : WorkflowExecutionRecord} {w : Workflow}
    (hx : s.db.getExecutionById e = some x) (hw : s.db.getWorkflowById x.workflowId = some w)
    (hended : ∀ n ∈ w.nodes, s.db.Ended e n.id) (nonempty : w.nodes ≠ []) : x.status ≠ .running := by
  intro hs
  obtain ⟨w', hw', -, hrun⟩ := (reachable_consistent hr).workflow hx
  obtain rfl : w = w' := Option.some.inj (hw.symm.trans hw')
  have hst : (s.db.run e).status = .running := (run_status hx).trans hs
  obtain ⟨i, hi, hopen⟩ := hrun.running_open hst (mt List.map_eq_nil_iff.1 nonempty)
  obtain ⟨n, hn, rfl⟩ := Workflow.mem_nodeIds.1 hi
  rcases hended n hn with hcompleted | hfailed
  · exact hopen hcompleted
  · exact hrun.running_sound hst n.id hfailed

theorem crashFree_keepsReadySets (h : crashFree s a = true) : keepsReadySets s a = true := by
  cases a with
  | abandon k =>
    simp only [crashFree, keepsReadySets, Option.all_eq_true] at h ⊢
    intro g hg
    have hraised := h g hg
    split at hraised
    · rename_i hphase
      simp [hphase, HandlingPhase.held]
    · cases hraised
  | _ => rfl

/-- At rest, a triggered execution with at least one node is completed or failed and no node of it
is pending with all its dependencies completed, in every run without a crash in which the templates
of every startable node resolve and every completion can be handled. -/
theorem no_execution_stranded {e : Uuid} {x : WorkflowExecutionRecord} {w : Workflow}
    (h : Reachable cfg (fun s a => (templatesResolve cfg s && (crashFree s a && completionAccepted cfg s a)) = true) s)
    (hq : Quiescent s) (hx : s.db.getExecutionById e = some x) (triggered : x.status ≠ .pending)
    (hw : s.db.getWorkflowById x.workflowId = some w) (nonempty : w.nodes ≠ []) :
    (x.status = .completed ∨ x.status = .failed) ∧
      ∀ n ∈ w.nodes, ¬(s.db.status e n.id = .pending ∧ ∀ d ∈ n.dependencies, s.db.status e d = .completed) := by
  have hr : Reachable cfg anyStep s := h.mono fun _ _ _ => trivial
  have hsteps : ∀ s a, Reachable cfg anyStep s →
      (templatesResolve cfg s && (crashFree s a && completionAccepted cfg s a)) = true → Attends cfg s a := by
    intro s a hr ha
    obtain ⟨hresolve, ha⟩ := (Bool.and_eq_true _ _).mp ha
    obtain ⟨hfree, haccepted⟩ := (Bool.and_eq_true _ _).mp ha
    exact ⟨dispatchReturns_of_resolve hr hresolve a, hfree, haccepted⟩
  have hattended := reachable_attended h hsteps
  have hwakes : Wakes s := reachable_wakes h fun s a hr ha =>
    ⟨(hsteps s a hr ha).1, crashFree_keepsReadySets (hsteps s a hr ha).2.1⟩
  refine ⟨?_, fun n hn hwaiting => ?_⟩
  · have hended := hq.ended hr hattended hwakes hx triggered hw
    cases hs : x.status with
    | completed => exact .inl rfl
    | failed => exact .inr rfl
    | pending => exact absurd hs triggered
    | running => exact absurd hs (ended_not_running hr hx hw hended nonempty)
  · exact hq.not_waiting hr hattended hwakes e n ⟨⟨x, w, hx, triggered, hw, hn, hwaiting.2⟩, hwaiting.1⟩

/-- The steps that bring an outbox row of a finished run to rest. -/
def settleRow (messageId : Uuid) : List Action :=
  [.publishRow messageId, .markRow messageId, .deliverEvent "orchestrator", .handle 0, .acknowledge 0]

/-- `fetch` has failed for good and `report` with it. -/
def chainFinished : System :=
  reachedUnder sampleConfig (fun s a => templatesResolve sampleConfig s &&
    (crashFree s a && completionAccepted sampleConfig s a))
    (fetched (.failure "boom" "RuntimeError") ++ ([.readReady 0, .acknowledge 0, .markRow (.v4 2),
      .markRow (createTaskId (.v4 1) "fetch")] : List Action) ++
      settleRow (.v5 (.v4 4) "node:" (.v4 1) "report:failed") ++
      settleRow (.v4 4) ++ settleRow (.v5 (.v4 4) "workflow:" (.v4 1) "failed"))

theorem chainFinished_quiescent : Quiescent chainFinished := by
  decide +kernel

theorem no_execution_stranded_chain : ∃ x w, chainFinished.db.getExecutionById (.v4 1) = some x ∧
    chainFinished.db.getWorkflowById x.workflowId = some w ∧ w.nodeIds = ["fetch", "report"] ∧
    (x.status = .completed ∨ x.status = .failed) ∧
    ∀ n ∈ w.nodes, ¬(chainFinished.db.status (.v4 1) n.id = .pending ∧
      ∀ d ∈ n.dependencies, chainFinished.db.status (.v4 1) d = .completed) := by
  have hrun : ((chainFinished.db.getExecutionById (.v4 1)).bind fun x =>
      (chainFinished.db.getWorkflowById x.workflowId).map fun w => (x.status, w.nodeIds)) =
      some (.failed, ["fetch", "report"]) := by
    decide +kernel
  obtain ⟨x, hx, hrun⟩ := Option.bind_eq_some_iff.1 hrun
  obtain ⟨w, hw, hrun⟩ := Option.map_eq_some_iff.1 hrun
  simp only [Prod.mk.injEq] at hrun
  obtain ⟨hstatus, hids⟩ := hrun
  have hne : w.nodes ≠ [] := by
    intro hnil
    simp [Workflow.nodeIds, hnil] at hids
  exact ⟨x, w, hx, hw, hids, no_execution_stranded (reachable_reachedUnder sampleConfig _ _) chainFinished_quiescent hx
    (by rw [hstatus]; decide) hw hne⟩

/-- The prompt of `report` names a key that the output of `fetch` does not have. -/
def brokenChain : Dict Json :=
  sampleDefinition [sampleNode "fetch" "input" [] [],
    sampleNode "report" "llm_service" ["fetch"] [("prompt", .str "\x7b\x7b fetch.missing \x7d\x7d")]]

/-- `fetch` has succeeded and the dispatch of `report` has raised. -/
def stranded : System :=
  reachedUnder sampleConfig crashFree (triggered brokenChain ++
    (fetched (.success .null)).drop (triggered chain).length ++
    ([.readReady 0, .dispatchNode 0 0, .abandon 0, .markRow (.v4 2),
      .markRow (createTaskId (.v4 1) "fetch")] : List Action) ++
    settleRow (.v4 4))

theorem no_execution_stranded_counterexample :
    Reachable sampleConfig (fun s a => crashFree s a = true) stranded ∧ Quiescent stranded ∧
      ∃ x w n, stranded.db.getExecutionById (.v4 1) = some x ∧ x.status = .running ∧
        stranded.db.getWorkflowById x.workflowId = some w ∧ n ∈ w.nodes ∧
        stranded.db.status (.v4 1) n.id = .pending ∧
        ∀ d ∈ n.dependencies, stranded.db.status (.v4 1) d = .completed := by
  have hq : Quiescent stranded := by
    decide +kernel
  have hrun : ((stranded.db.getExecutionById (.v4 1)).bind fun x =>
      (stranded.db.getWorkflowById x.workflowId).bind fun w =>
        (w.nodes[1]?).map fun n => (x.status, stranded.db.status (.v4 1) n.id,
          n.dependencies.map (stranded.db.status (.v4 1)))) =
      some (.running, .pending, [.completed]) := by
    decide +kernel
  obtain ⟨x, hx, hrun⟩ := Option.bind_eq_some_iff.1 hrun
  obtain ⟨w, hw, hrun⟩ := Option.bind_eq_some_iff.1 hrun
  obtain ⟨n, hn, hrun⟩ := Option.map_eq_some_iff.1 hrun
  simp only [Prod.mk.injEq] at hrun
  obtain ⟨hstatus, hpending, hdeps⟩ := hrun
  refine ⟨reachable_reachedUnder sampleConfig _ _, hq, x, w, n, hx, hstatus, hw, List.mem_of_getElem? hn, hpending,
    fun d hd => ?_⟩
  have hmem : stranded.db.status (.v4 1) d ∈ n.dependencies.map (stranded.db.status (.v4 1)) := List.mem_map_of_mem hd
  rw [hdeps] at hmem
  exact List.mem_singleton.1 hmem

end System

end WorkflowEngine
