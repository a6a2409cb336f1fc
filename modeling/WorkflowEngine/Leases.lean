import WorkflowEngine.Quiescence

/-!
# Leases

A claim names its worker, and a renewal checks the name. The recording of a result only checks
that the attempt is claimed, by whomever. A worker that has lost its claim learns of it at its
next renewal, so whether leases fence depends on the order of takeover, renewal, end of the
handler and recording.
-/
namespace WorkflowEngine

open Database

/-- The attempt is claimed, by this worker. -/
def Database.Owns (db : Database) (attemptId : Uuid) (worker : String) : Prop :=
  ∃ r, db.getAttempt attemptId = some r ∧ r.status = .claimed ∧ r.claimedBy = some worker

namespace Database

variable {db : Database} {attemptId : Uuid} {worker : String}

/-- `renew_claim` says whether the worker owns the claim. -/
theorem renewClaim_iff {expires : Time} (hkeyed : Table.Keyed (·.attemptId) db.taskAttempts) :
    (db.renewClaim attemptId worker expires).1 = true ↔ db.Owns attemptId worker := by
  refine (hkeyed.any_iff fun r hp => (of_decide_eq_true hp).1).trans
    (exists_congr fun r => and_congr_right fun hr => ?_)
  simp [(attempt_some hr).2]

theorem renewClaim_refused {expires : Time} (h : (db.renewClaim attemptId worker expires).1 = false) :
    (db.renewClaim attemptId worker expires).2 = db := by
  have hnone :=
    Table.updateWhere_eq_self (f := fun r : TaskAttemptRecord => { r with claimExpiresAt := some expires }) h
  simp only [renewClaim, hnone]

theorem getAttempt_renewClaim {expires : Time} {r : TaskAttemptRecord} (attempt : db.getAttempt attemptId = some r)
    (claimed : r.status = .claimed) (holder : r.claimedBy = some worker) :
    (db.renewClaim attemptId worker expires).2.getAttempt attemptId =
      some { r with claimExpiresAt := some expires } := by
  refine Eq.trans (Table.lookup_updateWhere fun _ => rfl) ?_
  rw [show Table.lookup _ attemptId db.taskAttempts = some r from attempt]
  simp [(attempt_some attempt).2, claimed, holder]

theorem getAttempt_updateAttemptIn {status : AttemptStatus} {g : TaskAttemptRecord → TaskAttemptRecord}
    {r : TaskAttemptRecord} (attempt : db.getAttempt attemptId = some r) (hstatus : r.status = status)
    (hg : ∀ r, (g r).attemptId = r.attemptId) :
    (db.updateAttemptIn attemptId status g).getAttempt attemptId = (db.getAttempt attemptId).map g := by
  refine (Table.lookup_updateWhere hg).trans ?_
  rw [attempt, show Table.lookup _ attemptId db.taskAttempts = some r from attempt]
  simp [(attempt_some attempt).2, hstatus]

/-- Whether `record_result` takes effect does not depend on the worker. -/
theorem recordResult_claimed {event : TaskCompletionEvent} {r : TaskAttemptRecord}
    (attempt : db.getAttempt event.attemptId = some r) (claimed : r.status = .claimed) :
    db.recordResult event.attemptId event.eventId event.outputData event.errorMessage event.errorType =
      .ok (db.updateAttemptIn event.attemptId .claimed (resultOf event)) := by
  refine if_pos (List.any_eq_true.2 ⟨r, (attempt_some attempt).1, ?_⟩)
  exact decide_eq_true ⟨(attempt_some attempt).2, claimed⟩

end Database

/-- The handler has ended and its result is not recorded yet. -/
def InFlight.unrecorded (f : InFlight) : Bool :=
  match f.phase with
  | .executed _ => true
  | _ => false

theorem InFlight.unrecorded_iff {f : InFlight} : f.unrecorded = true ↔ ∃ event, f.phase = .executed event := by
  unfold unrecorded
  cases f.phase <;> simp

namespace System

variable {cfg : Config} {s t : System} {a : Action} {k : Nat} {f : InFlight} {outcome : HandlerOutcome}

/-- A handler does not end while another worker holds the claim, unless a renewal has failed
before, and no claim is taken over while another worker has a result to record. -/
def noticesTakeover (s : System) : Action → Bool
  | .work k _ =>
    match s.inFlight[k]? with
    | some f =>
      match f.phase with
      | .executing false =>
        (s.db.getAttempt f.task.attemptId).all fun r => decide (r.status = .claimed → r.claimedBy = some f.worker)
      | .received =>
        (s.db.getAttempt f.task.attemptId).all (fun r =>
            decide (r.status = .completed ∨ r.status = .resultRecorded) || heldAt r s.now) ||
          s.inFlight.all fun g => !g.unrecorded || decide (g.task.attemptId = f.task.attemptId → g.worker = f.worker)
      | _ => true
    | none => true
  | _ => true

theorem noticesTakeover_finish {r : TaskAttemptRecord} (task : s.inFlight[k]? = some f)
    (phase : f.phase = .executing false) (attempt : s.db.getAttempt f.task.attemptId = some r) :
    noticesTakeover s (.work k outcome) = true ↔ (r.status = .claimed → r.claimedBy = some f.worker) := by
  simp only [noticesTakeover, task, phase, attempt, Option.all_some, decide_eq_true_eq]

theorem noticesTakeover_claim {r : TaskAttemptRecord} (task : s.inFlight[k]? = some f) (phase : f.phase = .received)
    (attempt : s.db.getAttempt f.task.attemptId = some r) (open' : r.status ≠ .completed ∧ r.status ≠ .resultRecorded)
    (free : heldAt r s.now = false) :
    noticesTakeover s (.work k outcome) = true ↔
      ∀ g ∈ s.inFlight, g.unrecorded = true → g.task.attemptId = f.task.attemptId → g.worker = f.worker := by
  simp only [noticesTakeover, task, phase, attempt, Option.all_some, open'.1, open'.2, free, or_self, decide_false,
    Bool.or_false, Bool.false_or, List.all_eq_true, Bool.or_eq_true, Bool.not_eq_true', decide_eq_true_eq]
  refine forall₂_congr fun g _ => ?_
  cases g.unrecorded <;> simp

/-- Renewals and recordings take effect for the owner of the claim and for nobody else. A
renewal without effect tells the worker so, a recording without effect ends its work. -/
structure Fenced (cfg : Config) (s : System) : Prop where
  renewed : ∀ k f t, s.inFlight[k]? = some f → step cfg s (.renew k) = some t → s.db.Owns f.task.attemptId f.worker →
    t.db.Owns f.task.attemptId f.worker ∧ (t.db.getAttempt f.task.attemptId).bind (·.claimExpiresAt) =
      some (s.now + cfg.lease)
  refused : ∀ k f t, s.inFlight[k]? = some f → step cfg s (.renew k) = some t → ¬ s.db.Owns f.task.attemptId f.worker →
    t = s.setPhase k f (.executing true)
  recorded : ∀ k f event outcome t, s.inFlight[k]? = some f → f.phase = .executed event →
    step cfg s (.work k outcome) = some t → s.db.Owns f.task.attemptId f.worker →
    t.history = s.history ++ [.resultRecorded event] ∧
      t.db.getAttempt f.task.attemptId = (s.db.getAttempt f.task.attemptId).map (resultOf event)
  rejected : ∀ k f event outcome t, s.inFlight[k]? = some f → f.phase = .executed event →
    step cfg s (.work k outcome) = some t → ¬ s.db.Owns f.task.attemptId f.worker → t = s.dropInFlight k

/-- What a worker is about to record was computed under the claim it still holds, if anybody holds one. -/
def Attributed (s : System) : Prop :=
  ∀ f ∈ s.inFlight, f.unrecorded = true → ∀ r ∈ s.db.taskAttempts, r.attemptId = f.task.attemptId →
    r.status = .claimed → r.claimedBy = some f.worker

/-- A result comes to be recorded when a handler ends. -/
theorem Effect.unrecorded (heffect : Effect cfg s a t) (hf : f ∈ t.inFlight) (hresult : f.unrecorded = true) :
    f ∈ s.inFlight ∨ ∃ k outcome g, a = .work k outcome ∧ s.inFlight[k]? = some g ∧ g.phase = .executing false ∧
      f.worker = g.worker ∧ f.task = g.task ∧ t.db = s.db := by
  have hset : ∀ {k : Nat} {g : InFlight} {phase : TaskPhase}, t.inFlight = s.inFlight.set k { g with phase := phase } →
      (∀ event, phase ≠ .executed event) → f ∈ s.inFlight := by
    intro k g phase heq hne
    rw [heq] at hf
    rcases mem_set_cases hf with hf | rfl
    · exact hf
    · obtain ⟨event, he⟩ := InFlight.unrecorded_iff.1 hresult
      exact absurd he (hne event)
  cases heffect with
  | finish task phase =>
    rcases mem_set_cases hf with hf | rfl
    · exact .inl hf
    · exact .inr ⟨_, _, _, rfl, task, phase, rfl, rfl, rfl⟩
  | alreadyCompleted | busy | mark | claim | replay | invoke | record | replayed | publish =>
    exact .inl (hset rfl (by simp))
  | renew => exact .inl (hset rfl (by simp))
  | deliverTask | reclaimTask =>
    rcases List.mem_append.1 hf with hf | hf
    · exact .inl hf
    · rw [List.mem_singleton.1 hf] at hresult
      cases hresult
  | claimRaised | leaseLost | recordRaised | replayRaised | markRaised | dropTask | acknowledgeTask =>
    exact .inl (List.mem_of_mem_eraseIdx hf)
  | _ => exact .inl hf

/-- Where a row is claimed after a step, the claim is the one before the step or has just been made. -/
theorem AttemptsStep.claim (hstep : AttemptsStep cfg s a t) {r : TaskAttemptRecord} (hr : r ∈ t.db.taskAttempts)
    (hclaimed : r.status = .claimed) :
    (∃ r₀ ∈ s.db.taskAttempts, r₀.attemptId = r.attemptId ∧ r₀.status = .claimed ∧ r₀.claimedBy = r.claimedBy) ∨
    ∃ k outcome g, ∃ r₀ ∈ s.db.taskAttempts, a = .work k outcome ∧ s.inFlight[k]? = some g ∧ g.phase = .received ∧
      r₀.attemptId = r.attemptId ∧ g.task.attemptId = r.attemptId ∧ r.claimedBy = some g.worker ∧
      (r₀.status ≠ .completed ∧ r₀.status ≠ .resultRecorded) ∧ heldAt r₀ s.now = false := by
  rcases hstep.mem hr with ⟨r₀, hr₀, hchange⟩ | hnew
  · cases hchange with
    | same => exact .inl ⟨r, hr₀, rfl, hclaimed, rfl⟩
    | renewed _ _ _ status => exact .inl ⟨r₀, hr₀, rfl, status, rfl⟩
    | claimed task phase id open' free =>
      exact .inr ⟨_, _, _, r₀, hr₀, rfl, task, phase, rfl, id.symm, rfl, open', free⟩
    | _ => cases hclaimed
  · cases hnew <;> cases hclaimed

theorem Effect.attributed (heffect : Effect cfg s a t) (hstep : AttemptsStep cfg s a t) (hids : AttemptIds s)
    (hallowed : noticesTakeover s a = true) (h : Attributed s) : Attributed t := by
  intro f hf hresult r hr hid hclaimed
  rcases heffect.unrecorded hf hresult with hold | ⟨k, outcome, g, rfl, task, phase, hworker, htask, hdb⟩
  · rcases hstep.claim hr hclaimed with ⟨r₀, hr₀, hid₀, hclaimed₀, hholder⟩ |
      ⟨k, outcome, g, r₀, hr₀, rfl, task, phase, hid₀, hg, hholder, open', free⟩
    · exact hholder ▸ h f hold hresult r₀ hr₀ (hid₀.trans hid) hclaimed₀
    · -- the claim is taken over: nobody else has a result to record
      have hget : s.db.getAttempt g.task.attemptId = some r₀ := hids.getAttempt hr₀ (hid₀.trans hg.symm)
      have hnobody := (noticesTakeover_claim task phase hget open' free).1 hallowed
      rw [hholder, hnobody f hold hresult (hid.symm.trans hg.symm)]
  · -- the handler ends: nobody else holds the claim
    have hget : s.db.getAttempt g.task.attemptId = some r := hids.getAttempt (hdb ▸ hr) (htask ▸ hid)
    rw [(noticesTakeover_finish task phase hget).1 hallowed hclaimed, hworker]

theorem reachable_attributed (h : Reachable cfg (fun s a => noticesTakeover s a = true) s) : Attributed s :=
  Transition.Reachable.invariant (by simp [Attributed, init]) (fun _ _ _ hr hs ha ht =>
    have hany := hr.mono fun _ _ _ => trivial
    (step_effect ht).attributed (reachable_attemptsStep hany (step_effect ht)) (reachable_attemptIds hany) ha hs) h

theorem renew_step (task : s.inFlight[k]? = some f) (h : step cfg s (.renew k) = some t) :
    t = s.renewTask cfg k f := by
  simp only [step, renew, task] at h
  split at h
  · rename_i hf
    cases Option.some.inj hf
    exact (Option.some.inj h).symm
  · cases h

theorem record_step {event : TaskCompletionEvent} (task : s.inFlight[k]? = some f)
    (phase : f.phase = .executed event) :
    step cfg s (.work k outcome) = some (s.recordTask k f event) := by
  simp only [step, workTask, task, phase, Option.map_some]

theorem recordTask_claimed {event : TaskCompletionEvent} {r : TaskAttemptRecord}
    (attempt : s.db.getAttempt event.attemptId = some r) (claimed : r.status = .claimed) :
    s.recordTask k f event =
      { s with
        db := s.db.updateAttemptIn event.attemptId .claimed (resultOf event)
        history := s.history ++ [Milestone.resultRecorded event] }.setPhase k f (.recorded event) := by
  unfold recordTask
  rw [recordResult_claimed attempt claimed]

theorem fenced_of_attributed (hids : AttemptIds s) (hw : Workers s) (h : Attributed s) : Fenced cfg s := by
  have hreports : ∀ {k : Nat} {f : InFlight} {event : TaskCompletionEvent}, s.inFlight[k]? = some f →
      f.phase = .executed event → event.attemptId = f.task.attemptId := fun task phase =>
    ((hw.carries _ (List.mem_of_getElem? task)).event _ (by rw [phase]; rfl)).1.attemptId
  refine ⟨fun k f t task hstep howns => ?_, fun k f t task hstep hstray => ?_,
    fun k f event outcome t task phase hstep howns => ?_, fun k f event outcome t task phase hstep hstray => ?_⟩
  · cases renew_step task hstep
    obtain ⟨r, attempt, claimed, holder⟩ := howns
    have hrow : (s.renewTask cfg k f).db.getAttempt f.task.attemptId =
        some { r with claimExpiresAt := some (s.now + cfg.lease) } := getAttempt_renewClaim attempt claimed holder
    exact ⟨⟨_, hrow, claimed, holder⟩, by rw [hrow]; rfl⟩
  · cases renew_step task hstep
    have hrefused : (s.db.renewClaim f.task.attemptId f.worker (s.now + cfg.lease)).1 = false :=
      Bool.eq_false_iff.2 fun hrenewed => hstray ((renewClaim_iff hids.keyed).1 hrenewed)
    simp only [renewTask, hrefused, renewClaim_refused hrefused, Bool.not_false]
  · cases (record_step task phase).symm.trans hstep
    obtain ⟨r, attempt, claimed, -⟩ := howns
    rw [← hreports task phase] at attempt ⊢
    rw [recordTask_claimed attempt claimed]
    exact ⟨rfl, getAttempt_updateAttemptIn attempt claimed fun _ => rfl⟩
  · cases (record_step task phase).symm.trans hstep
    have hunclaimed :
        ¬ ∃ r ∈ s.db.taskAttempts, decide (r.attemptId = event.attemptId ∧ r.status = .claimed) = true := by
      rintro ⟨r, hr, hp⟩
      obtain ⟨hid, hclaimed⟩ := of_decide_eq_true hp
      have hid' : r.attemptId = f.task.attemptId := hid.trans (hreports task phase)
      exact hstray ⟨r, hids.getAttempt hr hid', hclaimed,
        h f (List.mem_of_getElem? task) (InFlight.unrecorded_iff.2 ⟨event, phase⟩) r hr hid' hclaimed⟩
    simp only [recordTask, recordResult]
    rw [if_neg fun hany => hunclaimed (List.any_eq_true.1 hany)]

/-- A pending result and another worker's claim: the result is recorded next. -/
theorem not_fenced {event : TaskCompletionEvent} {r : TaskAttemptRecord} (task : s.inFlight[k]? = some f)
    (phase : f.phase = .executed event) (hid : event.attemptId = f.task.attemptId)
    (attempt : s.db.getAttempt f.task.attemptId = some r) (claimed : r.status = .claimed)
    (other : r.claimedBy ≠ some f.worker) : ¬ Fenced cfg s := by
  intro h
  have hstray : ¬ s.db.Owns f.task.attemptId f.worker := by
    rintro ⟨r', attempt', -, holder⟩
    cases attempt.symm.trans attempt'
    exact other holder
  have hdropped := h.rejected k f event (.success .null) _ task phase (record_step task phase) hstray
  rw [recordTask_claimed (hid ▸ attempt) claimed] at hdropped
  have hlen := congrArg (fun s : System => s.inFlight.length) hdropped
  have hk : k < s.inFlight.length := (List.getElem?_eq_some_iff.1 task).1
  simp only [setPhase, dropInFlight, List.length_set, List.length_eraseIdx_of_lt hk] at hlen
  omega

/-- An attempt that is open and that nobody holds is claimed. -/
theorem claimTask_free {r : TaskAttemptRecord} (hr : Reachable cfg anyStep s) (task : s.inFlight[k]? = some f)
    (attempt : s.db.getAttempt f.task.attemptId = some r) (open' : r.status ≠ .completed ∧ r.status ≠ .resultRecorded)
    (free : heldAt r s.now = false) :
    s.claimTask cfg k f = { s with
      db := s.db.updateAttempt f.task.attemptId
        (claimedBy f.worker s.now (s.now + cfg.lease)) }.setPhase k f .claimed := by
  obtain ⟨result, hcall⟩ := claim_returns hr (List.mem_of_getElem? task) s.now (s.now + cfg.lease)
  have hclaimed :
      result = (.claimed, s.db.updateAttempt f.task.attemptId (claimedBy f.worker s.now (s.now + cfg.lease))) := by
    rw [claimAttempt, attempt] at hcall
    dsimp only at hcall
    split at hcall
    · cases hcall
    · rw [if_neg open'.1, if_neg open'.2, if_neg (by simp [free])] at hcall
      exact (Except.ok.inj hcall).symm
  rw [claimTask, hcall, hclaimed]

/-- A claim is taken over while another worker has a result to record. -/
theorem not_fenced_of_takeover {r : TaskAttemptRecord} {g : InFlight} (hr : Reachable cfg anyStep s)
    (task : s.inFlight[k]? = some f) (phase : f.phase = .received)
    (attempt : s.db.getAttempt f.task.attemptId = some r) (open' : r.status ≠ .completed ∧ r.status ≠ .resultRecorded)
    (free : heldAt r s.now = false) (hg : g ∈ s.inFlight) (hresult : g.unrecorded = true)
    (hid : g.task.attemptId = f.task.attemptId) (hother : g.worker ≠ f.worker)
    (hstep : step cfg s (.work k outcome) = some t) : ¬ Fenced cfg t := by
  obtain ⟨event, hevent⟩ := InFlight.unrecorded_iff.1 hresult
  obtain ⟨j, hj⟩ := List.mem_iff_getElem?.1 hg
  have hne : k ≠ j := by
    rintro rfl
    rw [Option.some.inj (task.symm.trans hj), hevent] at phase
    cases phase
  simp only [step, workTask, task, phase, Option.map_some, claimTask_free hr task attempt open' free,
    Option.some.injEq] at hstep
  subst hstep
  have hreports : event.attemptId = g.task.attemptId :=
    (((reachable_workers hr).carries g hg).event event (by rw [hevent]; rfl)).1.attemptId
  have hrow : (s.db.updateAttempt f.task.attemptId (claimedBy f.worker s.now (s.now + cfg.lease))).getAttempt
      g.task.attemptId = some (claimedBy f.worker s.now (s.now + cfg.lease) r) := by
    refine Eq.trans (getAttempt_updateAttempt fun _ => rfl) ?_
    simp [hid, attempt]
  exact not_fenced ((List.getElem?_set_ne hne).trans hj) hevent hreports hrow rfl
    (by simpa [claimedBy] using hother.symm)

/-- A handler ends while another worker holds the claim, and no renewal has failed. -/
theorem not_fenced_of_finish {r : TaskAttemptRecord} (task : s.inFlight[k]? = some f)
    (phase : f.phase = .executing false) (attempt : s.db.getAttempt f.task.attemptId = some r)
    (claimed : r.status = .claimed) (hother : r.claimedBy ≠ some f.worker)
    (hstep : step cfg s (.work k outcome) = some t) : ¬ Fenced cfg t := by
  simp only [step, workTask, task, phase, Option.map_some, finishTask, Bool.false_eq_true, if_false,
    Option.some.injEq] at hstep
  subst hstep
  exact not_fenced (List.getElem?_set_self (List.getElem?_eq_some_iff.1 task).1) rfl completionEvent_reports.attemptId
    attempt claimed hother

/-- A step that misses the condition lets a result be recorded under another worker's claim. -/
theorem not_fenced_of_unnoticed (hr : Reachable cfg anyStep s) (hstep : step cfg s a = some t)
    (h : noticesTakeover s a = false) : ¬ Fenced cfg t := by
  obtain ⟨k, outcome, rfl⟩ : ∃ k outcome, a = .work k outcome := by
    cases a with
    | work k outcome => exact ⟨k, outcome, rfl⟩
    | _ => cases h
  cases task : s.inFlight[k]? with
  | none => simp [noticesTakeover, task] at h
  | some f =>
    obtain ⟨r, attempt, -⟩ := (reachable_attemptIds hr).issued ((reachable_messages hr).entries f.task
      (List.mem_of_getElem? ((reachable_workers hr).carries f (List.mem_of_getElem? task)).entry))
    cases phase : f.phase with
    | received =>
      obtain ⟨open', free⟩ : (r.status ≠ .completed ∧ r.status ≠ .resultRecorded) ∧ heldAt r s.now = false := by
        have h := h
        simp only [noticesTakeover, task, phase, attempt, Option.all_some, Bool.or_eq_false_iff,
          decide_eq_false_iff_not] at h
        exact ⟨not_or.1 h.1.1, h.1.2⟩
      have hsome := (noticesTakeover_claim task phase attempt open' free).not.1 (Bool.eq_false_iff.1 h)
      push Not at hsome
      obtain ⟨g, hg, hresult, hid, hother⟩ := hsome
      exact not_fenced_of_takeover hr task phase attempt open' free hg hresult hid hother hstep
    | executing renewalFailed =>
      cases renewalFailed with
      | true => simp [noticesTakeover, task, phase] at h
      | false =>
        obtain ⟨claimed, hother⟩ :=
          Classical.not_imp.1 ((noticesTakeover_finish task phase attempt).not.1 (Bool.eq_false_iff.1 h))
        exact not_fenced_of_finish task phase attempt claimed hother hstep
    | _ => simp [noticesTakeover, task, phase] at h

/-- In every run whose steps all meet the condition, renewals and recordings are fenced in every
state; and the first step of a run that misses it leads to a state where they are not. -/
theorem leases_fenced_iff (h : Reachable cfg (fun s a => noticesTakeover s a = true) s) :
    Fenced cfg s ∧ ∀ a t, step cfg s a = some t → (Fenced cfg t ↔ noticesTakeover s a = true) := by
  have hfenced : ∀ {s}, Reachable cfg (fun s a => noticesTakeover s a = true) s → Fenced cfg s := by
    intro s h
    have hany := h.mono fun _ _ _ => trivial
    exact fenced_of_attributed (reachable_attemptIds hany) (reachable_workers hany) (reachable_attributed h)
  refine ⟨hfenced h, fun a t hstep => ⟨fun ht => ?_, fun ha => hfenced (h.next a ha hstep)⟩⟩
  by_contra hmissed
  exact not_fenced_of_unnoticed (h.mono fun _ _ _ => trivial) hstep (Bool.eq_false_iff.2 hmissed) ht

/-- The first worker renews no claim while its handler runs; its task is reclaimed and the
attempt claimed by a second worker, whose handler runs. Then the first handler ends. -/
def takenOver : List Action :=
  started ++ ([.tick 60000000, .reclaimTask "second" 0, .work 1 (.success .null),
    .work 1 (.success .null)] : List Action)

/-- Here the first worker has renewed once more and knows that its claim is gone. -/
def renewalFailed : System := reachedUnder sampleConfig noticesTakeover (takenOver ++ ([.renew 0] : List Action))

theorem leases_fenced_iff_renewalFailed :
    renewalFailed.inFlight.map (fun f => (f.worker, f.phase)) = [("worker", .executing true),
      ("second", .executing false)] ∧
      Fenced sampleConfig renewalFailed ∧
      ∃ t, step sampleConfig renewalFailed (.work 0 (.success .null)) = some t ∧ Fenced sampleConfig t := by
  obtain ⟨hfenced, hiff⟩ :=
    leases_fenced_iff (reachable_reachedUnder sampleConfig noticesTakeover _ : Reachable _ _ renewalFailed)
  obtain ⟨t, ht⟩ : ∃ t, step sampleConfig renewalFailed (.work 0 (.success .null)) = some t :=
    Option.isSome_iff_exists.1 (by decide +kernel)
  exact ⟨by decide +kernel, hfenced, t, ht, (hiff _ t ht).2 (by decide +kernel)⟩

/-- The result of the first worker, for the only attempt of `fetch`. -/
def staleResult : TaskCompletionEvent :=
  ⟨.v4 4, createTaskId (.v4 1) "fetch", .v4 3, 1, .v4 1, "fetch", .completed, .str "stale", none, none⟩

def staleEnded : System := reached sampleConfig (takenOver ++ ([.work 0 (.success (.str "stale"))] : List Action))

def staleRecorded : System :=
  reached sampleConfig (takenOver ++ ([.work 0 (.success (.str "stale")), .work 0 (.success .null)] : List Action))

/-- The second worker executes under the claim, the first one records its own result, and the
second one cannot record any more. -/
theorem leases_fenced_counterexample :
    Reachable sampleConfig anyStep staleEnded ∧ ¬ Fenced sampleConfig staleEnded ∧
    staleEnded.inFlight.map (fun f => (f.worker, f.phase)) =
      [("worker", .executed staleResult), ("second", .executing false)] ∧
    staleEnded.db.taskAttempts.map (fun r => (r.attemptId, r.status, r.claimedBy)) =
      [(.v4 3, .claimed, some "second")] ∧
    step sampleConfig staleEnded (.work 0 (.success .null)) = some staleRecorded ∧
    staleRecorded.db.taskAttempts.map (fun r => (r.status, r.claimedBy, r.resultData)) =
      [(.resultRecorded, some "second", .str "stale")] ∧
    (staleRecorded.db.recordResult (.v4 3) (.v4 5) (.str "fresh") none none).isOk = false := by
  refine ⟨reachable_reached sampleConfig _, ?_, by decide +kernel, by decide +kernel, by decide +kernel,
    by decide +kernel, by decide +kernel⟩
  exact not_fenced_of_unnoticed (reachable_reached sampleConfig takenOver) (a := .work 0 (.success (.str "stale")))
    (by decide +kernel) (by decide +kernel)

end System

end WorkflowEngine
