import WorkflowEngine.Duplicates

/-!
# What one attempt decides

Events of arbitrary identifiers, naming any attempts, are processed one after the other,
between any calls of the workers and of the retry publisher. An attempt decides at most once
as long as no success of a closed attempt meets a running node, and no failure the rows do not
know meets a completed one: `process` lets both through.
-/
namespace WorkflowEngine

namespace Database

variable {db db' : Database} {policy : RetryPolicy} {event : TaskCompletionEvent} {next : Uuid} {now : Time}
  {r : TaskAttemptRecord}

/-- One call of `process` that has returned, with the database before and after it. -/
structure Decided where
  event : TaskCompletionEvent
  decision : TaskCompletionDecision
  before : Database
  after : Database
  deriving DecidableEq

/-- What workers and the retry publisher write between two events. -/
inductive Touched (db : Database) : Database → Prop where
  | claimed {attemptId taskId executionId : Uuid} {nodeId workerId : String} {claimedAt expiresAt : Time}
      {outcome : TaskClaimOutcome} {db' : Database}
      (call : db.claimAttempt attemptId taskId executionId nodeId workerId claimedAt expiresAt = .ok (outcome, db')) :
      Touched db db'
  | recorded {attemptId eventId : Uuid} {resultData : Json} {errorMessage errorType : Option String} {db' : Database}
      (call : db.recordResult attemptId eventId resultData errorMessage errorType = .ok db') : Touched db db'
  | marked {attemptId : Uuid} {completedAt : Time} {db' : Database}
      (call : db.markCompleted attemptId completedAt = .ok db') :
      Touched db db'
  | renewed {attemptId : Uuid} {workerId : String} {expiresAt : Time} :
      Touched db (db.renewClaim attemptId workerId expiresAt).2
  | published {attemptId : Uuid} {publishedAt : Time} : Touched db (db.markRetryPublished attemptId publishedAt).2

/-- Events processed one after the other; each names an existing attempt of a tracked task. -/
inductive Decides (policy : RetryPolicy) (start : Database) : List Decided → Database → Prop where
  | start : Decides policy start [] start
  | process {l : List Decided} {db db' : Database} {event : TaskCompletionEvent} {r : TaskAttemptRecord} {next : Uuid}
      {now : Time} {decision : TaskCompletionDecision} (run : Decides policy start l db) (names : Names event db r)
      (fresh : ∀ r ∈ db.taskAttempts, r.attemptId ≠ next)
      (returns : process policy event next now db = .ok (decision, db')) :
      Decides policy start (l ++ [⟨event, decision, db, db'⟩]) db'
  | touch {l : List Decided} {db db' : Database} (run : Decides policy start l db) (touched : Touched db db') :
      Decides policy start l db'

/-- No success of a closed attempt while the node runs; no failure after the node is completed
that its attempt, with a result on record, does not know. -/
def Decided.Allows (d : Decided) (r : TaskAttemptRecord) : Prop :=
  match d.event.status with
  | .completed => d.before.status d.event.executionId d.event.nodeId = .running → r.failureEventId = none
  | .failed => d.before.status d.event.executionId d.event.nodeId = .completed → r.completionEventId.isSome →
      Known d.event d.before r

instance {d : Decided} {r : TaskAttemptRecord} : Decidable (d.Allows r) := by
  unfold Decided.Allows
  cases d.event.status <;> infer_instance

def Decided.Regular (d : Decided) : Prop := ∀ r ∈ d.before.getAttempt d.event.attemptId, d.Allows r

instance {d : Decided} : Decidable d.Regular := inferInstanceAs (Decidable (∀ r ∈ _, _))

/-! ## What is never taken back -/

/-- A write that updates attempts and nothing that the nodes show. -/
structure Frame (db db' : Database) : Prop where
  runs : SameRuns db db'
  events : KeepsEvents db db'
  slots : db'.taskAttempts.map (·.slot) = db.taskAttempts.map (·.slot)

theorem Frame.refl (db : Database) : Frame db db := ⟨.refl _, .of_eq rfl, rfl⟩

theorem Frame.of_update {p : TaskAttemptRecord → Bool} {f : TaskAttemptRecord → TaskAttemptRecord}
    (hruns : SameRuns db db') (h : db'.taskAttempts = Table.updateWhere p f db.taskAttempts)
    (hslot : ∀ r, (f r).slot = r.slot) (hfailure : ∀ r, r.failureEventId.isSome → (f r).failureEventId.isSome)
    (hcompletion : ∀ r, r.completionEventId.isSome → (f r).completionEventId.isSome) : Frame db db' := by
  refine ⟨hruns, .of_update (l := []) (h.trans (List.append_nil _).symm) hslot hfailure hcompletion, ?_⟩
  rw [h]
  exact Table.map_updateWhere fun r _ _ => hslot r

theorem Touched.frame (h : Touched db db') : Frame db db' := by
  cases h with
  | claimed call =>
    unfold claimAttempt at call
    split at call
    · cases call
    · split at call
      · cases call
      · split at call
        · cases call
          exact .refl _
        · split at call
          · cases call
            exact .refl _
          · split at call
            · cases call
              exact .refl _
            · cases call
              exact .of_update ⟨rfl, rfl, rfl, rfl, rfl⟩ rfl (fun _ => rfl) (fun _ h => h) fun _ h => h
  | recorded call =>
    unfold recordResult at call
    dsimp only at call
    split at call
    · cases call
      exact .of_update ⟨rfl, rfl, rfl, rfl, rfl⟩ rfl (fun _ => rfl) (fun _ h => h) fun _ _ => rfl
    · cases call
  | marked call =>
    unfold markCompleted at call
    dsimp only at call
    split at call
    · cases call
      exact .of_update ⟨rfl, rfl, rfl, rfl, rfl⟩ rfl (fun _ => rfl) (fun _ h => h) fun _ h => h
    · cases call
  | renewed => exact .of_update ⟨rfl, rfl, rfl, rfl, rfl⟩ rfl (fun _ => rfl) (fun _ h => h) fun _ h => h
  | published =>
    unfold markRetryPublished
    dsimp only
    split
    · exact .of_update ⟨rfl, rfl, rfl, rfl, rfl⟩ rfl (fun _ => rfl) (fun _ h => h) fun _ h => h
    · exact .refl _

/-- What every database of a run keeps. -/
structure Orderly (db : Database) : Prop where
  sound : db.Sound
  consistent : db.Consistent
  keyed : Table.Keyed (·.attemptId) db.taskAttempts

theorem keyed_of_slots {l l' : List TaskAttemptRecord} (h : l'.map (·.slot) = l.map (·.slot))
    (hk : Table.Keyed (·.attemptId) l) : Table.Keyed (·.attemptId) l' := by
  have hid := congrArg (List.map Prod.fst) h
  rw [List.map_map, List.map_map] at hid
  rw [Table.Keyed] at hk ⊢
  exact (show l'.map (·.attemptId) = l.map (·.attemptId) from hid) ▸ hk

theorem Orderly.touched (h : Orderly db) (htouched : Touched db db') : Orderly db' := by
  obtain ⟨hsame, -, hslots⟩ := htouched.frame
  refine ⟨hsame.evolves.sound h.sound, fun e x w hx hw => ?_, keyed_of_slots hslots h.keyed⟩
  rw [hsame.run]
  exact h.consistent e x w (hsame.getExecutionById ▸ hx) (hsame.evolves.getWorkflowById _ ▸ hw)

theorem Orderly.processed (h : Orderly db) {decision : TaskCompletionDecision}
    (hprocessed : Processed policy event next now db decision db')
    (hfresh : ∀ r ∈ db.taskAttempts, r.attemptId ≠ next) :
    Orderly db' := by
  have hadv := processed_advances h.sound hprocessed
  refine ⟨hadv.sound, hadv.consistent h.sound h.consistent, ?_⟩
  rcases (processed_slots hprocessed).2 with hslots | ⟨r, hr, hslots⟩
  · exact keyed_of_slots hslots h.keyed
  · refine keyed_of_slots (l := db.taskAttempts ++ [scheduledAttempt next r.taskId (r.attemptNumber + 1) 0]) ?_
      (h.keyed.append hfresh)
    rw [hslots, List.map_append]
    rfl

/-! ## One decision -/

theorem FailureCounts.not_known (h : FailureCounts event.taskId event.attemptId event.eventId db r)
    (hfailed : event.status = .failed) : ¬ Known event db r := by
  simp only [Known, hfailed]
  rintro (⟨r', hr', hid⟩ | hclosed | hcompleted)
  · exact h.fresh r' hr' hid
  · rw [h.open'] at hclosed
    cases hclosed
  · exact h.not_completed hcompleted

/-- A success is a duplicate that changes no node, or it completes its running node and leaves
a completion event with its attempt. -/
theorem processed_success {decision : TaskCompletionDecision} (h : Processed policy event next now db decision db')
    (hcompleted : event.status = .completed) (hnames : Names event db r) :
    (decision.outcome = .duplicate ∧ db'.nodeExecutions = db.nodeExecutions) ∨
      (db.status event.executionId event.nodeId = .running ∧ db'.status event.executionId event.nodeId = .completed ∧
        ∃ r', db'.getAttempt event.attemptId = some r' ∧ r'.completionEventId.isSome) := by
  cases h with
  | early _ consult =>
    refine .inl ⟨?_, consult.sameRuns.nodes⟩
    generalize hearly : some decision = early at consult
    cases consult with
    | successKnown =>
      split at hearly
      · cases hearly
      · rw [Option.some.inj hearly]
        rfl
    | _ => simp_all
  | late _ _ consult => exact .inl ⟨rfl, consult.sameRuns.nodes⟩
  | completed node running _ _ _ consult ends run =>
    refine .inr ⟨(status_of_node node).trans running, ?_, ?_⟩
    · have hnode := congrFun ((congrArg DependencyRun.nodes run).trans DependencyRun.settle_nodes) event.nodeId
      exact hnode.trans (Function.update_self _ _ _)
    · unfold getAttempt
      rw [ends.attempts]
      generalize hearly : none = early at consult
      cases consult with
      | successUntracked _ task => exact absurd task hnames.tracked
      | successKnown _ attempt _ known =>
        refine ⟨_, attempt, ?_⟩
        rcases known with known | known
        · rw [known]
          rfl
        · exact known.2
      | success _ attempt =>
        exact ⟨succeeded event.eventId now r, getAttempt_updated (fun _ => rfl) hnames.attempt, rfl⟩
      | _ => simp_all
  | failed _ _ status => rw [hcompleted] at status; cases status

/-- What a decision leaves behind. -/
structure Decided.Holds (d : Decided) (db : Database) : Prop where
  id : d.event.taskId = createTaskId d.event.executionId d.event.nodeId
  completed : d.event.status = .completed → db.status d.event.executionId d.event.nodeId = .completed
  row : ∃ r ∈ db.taskAttempts, r.attemptId = d.event.attemptId ∧ r.taskId = d.event.taskId ∧
    (d.event.status = .completed → r.completionEventId.isSome) ∧ (d.event.status = .failed → r.failureEventId.isSome)

theorem Decided.Holds.keeps {d : Decided} (h : d.Holds db) (hkeeps : KeepsEvents db db')
    (hcompleted : ∀ e i, db.status e i = .completed → db'.status e i = .completed) : d.Holds db' := by
  obtain ⟨r, hr, hid, htask, hcompletion, hfailure⟩ := h.row
  obtain ⟨r', hr', hslot, hf, hc⟩ := hkeeps r hr
  refine ⟨h.id, fun hst => hcompleted _ _ (h.completed hst), r', hr', ?_, ?_, fun hst => hc (hcompletion hst),
    fun hst => hf (hfailure hst)⟩
  · exact (congrArg Prod.fst hslot).trans hid
  · exact (congrArg (fun p => p.2.1) hslot).trans htask

/-- A further event of an attempt that has decided is a duplicate; a failure then changes nothing. -/
theorem Decided.Holds.duplicate {d : Decided} (h : d.Holds db) (hkeyed : Table.Keyed (·.attemptId) db.taskAttempts)
    {decision : TaskCompletionDecision} (hp : Processed policy event next now db decision db')
    (hnames : Names event db r) (hregular : Decided.Regular ⟨event, decision, db, db'⟩)
    (hid : d.event.attemptId = event.attemptId) :
    decision.outcome = .duplicate ∧ (event.status = .failed → decision = duplicateDecision event ∧ db' = db) := by
  obtain ⟨r₀, hr₀, hid₀, htask₀, hcompletion, hfailure⟩ := h.row
  obtain ⟨hr, hrid⟩ := attempt_some hnames.attempt
  obtain rfl := hkeyed.ext hr₀ hr (hid₀.trans (hid.trans hrid.symm))
  -- both events name the node of the attempt's task
  have hnode : createTaskId d.event.executionId d.event.nodeId = createTaskId event.executionId event.nodeId := by
    rw [← h.id, ← hnames.id, ← htask₀, ← hnames.task]
  obtain ⟨he, hi⟩ := createTaskId_injective hnode
  have hregular : Decided.Allows ⟨event, decision, db, db'⟩ r₀ := hregular r₀ hnames.attempt
  unfold Decided.Allows at hregular
  dsimp only at hregular
  cases hst : event.status with
  | completed =>
    refine ⟨?_, fun hf => by cases hf⟩
    rw [hst] at hregular
    rcases processed_success hp hst hnames with ⟨hdup, -⟩ | ⟨hrunning, -⟩
    · exact hdup
    · cases hd : d.event.status with
      | completed =>
        have := h.completed hd
        rw [he, hi, hrunning] at this
        cases this
      | failed =>
        have := hfailure hd
        rw [hregular hrunning] at this
        cases this
  | failed =>
    rw [hst] at hregular
    rcases processed_failed hp hst hnames with ⟨rfl, hdb, -⟩ | ⟨hcounts, -⟩
    · exact ⟨rfl, fun _ => ⟨rfl, hdb⟩⟩
    · cases hd : d.event.status with
      | completed =>
        have hknown := hregular (he ▸ hi ▸ h.completed hd) (hcompletion hd)
        exact absurd hknown (hcounts.not_known hst)
      | failed =>
        have := hfailure hd
        rw [hcounts.open'] at this
        cases this

/-! ## Whole runs -/

/-- The decisions of one run, in order. -/
structure DecidesOnce (l : List Decided) : Prop where
  once : ∀ attemptId, (l.filter fun d =>
    decide (d.event.attemptId = attemptId ∧ d.decision.outcome ≠ .duplicate)).length ≤ 1
  closed : ∀ d ∈ l, d.event.status = .completed → ∀ r, d.before.getAttempt d.event.attemptId = some r →
    r.failureEventId.isSome → d.decision.outcome = .duplicate ∧ d.after.nodeExecutions = d.before.nodeExecutions
  succeeded : l.Pairwise fun d d' => d.event.status = .completed → d.decision.outcome = .processed →
    d'.event.attemptId = d.event.attemptId → d'.event.status = .failed →
      d'.decision = duplicateDecision d'.event ∧ d'.after = d'.before

/-- A decision that counts leaves its trace. -/
theorem processed_holds {decision : TaskCompletionDecision} (hkeyed : Table.Keyed (·.attemptId) db'.taskAttempts)
    (hp : Processed policy event next now db decision db') (hnames : Names event db r)
    (hcounts : decision.outcome ≠ .duplicate) : Decided.Holds ⟨event, decision, db, db'⟩ db' := by
  obtain ⟨hr, hrid⟩ := attempt_some hnames.attempt
  obtain ⟨r', hr', hslot, -⟩ := processed_keepsEvents hp r hr
  have hid : r'.attemptId = event.attemptId := (congrArg Prod.fst hslot).trans hrid
  have htask : r'.taskId = event.taskId := (congrArg (fun p => p.2.1) hslot).trans hnames.task
  have hrow : ∀ {r'' : TaskAttemptRecord}, db'.getAttempt event.attemptId = some r'' → r' = r'' := by
    intro r'' hr''
    exact hkeyed.ext hr' (attempt_some hr'').1 (hid.trans (attempt_some hr'').2.symm)
  cases hst : event.status with
  | completed =>
    rcases processed_success hp hst hnames with ⟨hdup, -⟩ | ⟨-, hcompleted, r'', hr'', hevent⟩
    · exact absurd hdup hcounts
    · obtain rfl := hrow hr''
      exact ⟨hnames.id, fun _ => hcompleted, r', hr', hid, htask, fun _ => hevent, fun hf => by simp [hst] at hf⟩
  | failed =>
    rcases processed_failed hp hst hnames with ⟨rfl, -⟩ | ⟨-, r'', hr'', hevent⟩
    · exact absurd rfl hcounts
    · obtain rfl := hrow hr''
      refine ⟨hnames.id, fun hc => ?_, r', hr', hid, htask, fun hc => ?_, fun _ => ?_⟩
      · simp [hst] at hc
      · simp [hst] at hc
      · rw [hevent]
        rfl

theorem DecidesOnce.append {l : List Decided} (h : DecidesOnce l) {decision : TaskCompletionDecision}
    (horderly : Orderly db) (hholds : ∀ d ∈ l, d.decision.outcome ≠ .duplicate → d.Holds db)
    (hp : Processed policy event next now db decision db') (hnames : Names event db r)
    (hregular : Decided.Regular ⟨event, decision, db, db'⟩) : DecidesOnce (l ++ [⟨event, decision, db, db'⟩]) := by
  have hlater : ∀ d ∈ l, d.decision.outcome ≠ .duplicate → d.event.attemptId = event.attemptId →
      decision.outcome = .duplicate ∧ (event.status = .failed → decision = duplicateDecision event ∧ db' = db) :=
    fun d hd hcounts hid => (hholds d hd hcounts).duplicate horderly.keyed hp hnames hregular hid
  refine ⟨fun attemptId => ?_, ?_, ?_⟩
  · rw [List.filter_append, List.length_append]
    have hold := h.once attemptId
    by_cases hnew : event.attemptId = attemptId ∧ decision.outcome ≠ .duplicate
    · have hnone :
          l.filter (fun d => decide (d.event.attemptId = attemptId ∧ d.decision.outcome ≠ .duplicate)) = [] := by
        rw [List.filter_eq_nil_iff]
        intro d hd hd'
        obtain ⟨hid, hcounts⟩ := of_decide_eq_true hd'
        exact hnew.2 (hlater d hd hcounts (hid.trans hnew.1.symm)).1
      rw [hnone]
      simp [hnew]
    · simpa [hnew] using hold
  · intro d hd hcompleted r' hr' hclosed
    rcases List.mem_append.1 hd with hd | hd
    · exact h.closed d hd hcompleted r' hr' hclosed
    · rw [List.mem_singleton] at hd
      subst hd
      rcases processed_success hp hcompleted hnames with hdup | ⟨hrunning, -⟩
      · exact hdup
      · have hopen := hregular r' hr'
        unfold Decided.Allows at hopen
        dsimp only at hopen hcompleted
        rw [hcompleted] at hopen
        rw [hopen hrunning] at hclosed
        cases hclosed
  · refine List.pairwise_append.2 ⟨h.succeeded, List.pairwise_singleton _ _,
      fun d hd d' hd' _ hprocessed hid hfailed => ?_⟩
    rw [List.mem_singleton] at hd'
    subst hd'
    exact (hlater d hd (by rw [hprocessed]; simp) hid.symm).2 hfailed

/-- What holds after any part of a run. -/
theorem Decides.spec {start : Database} (hstart : Orderly start) {l : List Decided} (h : Decides policy start l db)
    (hregular : ∀ d ∈ l, d.Regular) :
    Orderly db ∧ (∀ d ∈ l, d.decision.outcome ≠ .duplicate → d.Holds db) ∧ DecidesOnce l := by
  induction h with
  | start => exact ⟨hstart, by simp, ⟨by simp, by simp, .nil⟩⟩
  | @process l db db' event r next now decision run names fresh returns ih =>
    obtain ⟨horderly, hholds, honce⟩ := ih fun d hd => hregular d (List.mem_append_left _ hd)
    have hp := (process_ok horderly.sound horderly.consistent returns).2
    have hadv := processed_advances horderly.sound hp
    refine ⟨horderly.processed hp fresh, fun d hd hcounts => ?_,
      honce.append horderly hholds hp names (hregular _ (List.mem_append_right _ (List.mem_singleton.2 rfl)))⟩
    rcases List.mem_append.1 hd with hd | hd
    · exact (hholds d hd hcounts).keeps (processed_keepsEvents hp) hadv.later.completed
    · rw [List.mem_singleton] at hd
      subst hd
      exact processed_holds (horderly.processed hp fresh).keyed hp names hcounts
  | touch _ touched ih =>
    obtain ⟨horderly, hholds, honce⟩ := ih hregular
    obtain ⟨hsame, hkeeps, -⟩ := touched.frame
    refine ⟨horderly.touched touched, fun d hd hcounts => (hholds d hd hcounts).keeps hkeeps fun e i hst => ?_, honce⟩
    rw [status, hsame.node]
    exact hst

/-- One call of `process`; a call that raises decides nothing. -/
def decideOn (policy : RetryPolicy) (event : TaskCompletionEvent) (next : Uuid) (now : Time) (db : Database) :
    Decided :=
  match process policy event next now db with
  | .ok (decision, db') => ⟨event, decision, db, db'⟩
  | .error _ => ⟨event, duplicateDecision event, db, db⟩

/-- The event names an attempt, the next identifier is fresh and the call returns. -/
def canDecide (policy : RetryPolicy) (event : TaskCompletionEvent) (next : Uuid) (now : Time) (db : Database) : Bool :=
  decide (event.taskId = createTaskId event.executionId event.nodeId) && (db.getLogicalTask event.taskId).isSome &&
    (db.getAttempt event.attemptId).any (fun r => decide (r.taskId = event.taskId)) &&
    db.taskAttempts.all (fun r => decide (r.attemptId ≠ next)) && (process policy event next now db).toOption.isSome

theorem Decides.call {start : Database} {l : List Decided} (h : Decides policy start l db)
    (hcan : canDecide policy event next now db = true) :
    Decides policy start (l ++ [decideOn policy event next now db]) (decideOn policy event next now db).after := by
  simp only [canDecide, Bool.and_eq_true, decide_eq_true_eq, List.all_eq_true] at hcan
  obtain ⟨⟨⟨⟨hid, htracked⟩, hattempt⟩, hfresh⟩, hreturns⟩ := hcan
  obtain ⟨r, hr, htask⟩ := (Option.any_eq_true _ _).1 hattempt
  unfold decideOn
  cases hp : WorkflowEngine.process policy event next now db with
  | error e => simp [hp, Except.toOption] at hreturns
  | ok result =>
    exact .process h ⟨hid, fun hn => by simp [hn] at htracked, hr, of_decide_eq_true htask⟩ hfresh hp

end Database

open Database

namespace System

variable {cfg : Config} {s : System}

/-- In every run of events, from every reachable state, whose steps are regular: an attempt
decides at most once, no success of a closed attempt completes the node, and no failure after
a processed success changes anything. -/
theorem decides_once (h : Reachable cfg anyStep s) {l : List Decided} {db : Database}
    (hrun : Decides cfg.policy s.db l db) (hregular : ∀ d ∈ l, d.Regular) : DecidesOnce l :=
  (hrun.spec ⟨(reachable_consistent h).sound, (reachable_consistent h).runs,
    (reachable_attemptIds h).keyed⟩ hregular).2.2

/-- A success of the first attempt of `fetch`, under another identifier than its failure. -/
def fine : TaskCompletionEvent :=
  ⟨.v4 6, createTaskId (.v4 1) "fetch", .v4 3, 1, .v4 1, "fetch", .completed, .null, none, none⟩

/-- The failure of the first attempt, then the success of the same attempt. -/
def failedThenFine : List Decided :=
  let first := decideOn retryConfig.policy boom (.v4 5) 0 (boomDelivered retryConfig).db
  [first, decideOn retryConfig.policy fine (.v4 7) 0 first.after]

/-- The first attempt schedules a retry and then completes the node. -/
theorem decides_once_counterexample :
    Reachable retryConfig anyStep (boomDelivered retryConfig) ∧
      (∃ db, Decides retryConfig.policy (boomDelivered retryConfig).db failedThenFine db) ∧
      failedThenFine.map (fun d => (d.event.eventId, d.event.attemptId, d.decision.outcome)) =
        [(.v4 4, .v4 3, .retryScheduled), (.v4 6, .v4 3, .processed)] ∧ ¬ DecidesOnce failedThenFine := by
  have hfirst : Decides retryConfig.policy (boomDelivered retryConfig).db
      [decideOn retryConfig.policy boom (.v4 5) 0 (boomDelivered retryConfig).db] _ :=
    Decides.start.call (by decide +kernel)
  refine ⟨reachable_reached _ _, ⟨_, hfirst.call (by decide +kernel)⟩, by decide +kernel, fun h => ?_⟩
  have honce := h.once (.v4 3)
  revert honce
  decide +kernel

/-- The success of the second attempt. -/
def fineAgain : TaskCompletionEvent :=
  ⟨.v4 6, createTaskId (.v4 1) "fetch", .v4 5, 2, .v4 1, "fetch", .completed, .null, none, none⟩

/-- The failure of the first attempt, then the success of the second, then the failure again. -/
def failedThenRetried : List Decided :=
  let first := decideOn retryConfig.policy boom (.v4 5) 0 (boomDelivered retryConfig).db
  let second := decideOn retryConfig.policy fineAgain (.v4 7) 0 first.after
  [first, second, decideOn retryConfig.policy { boom with eventId := .v4 8 } (.v4 9) 0 second.after]

theorem decides_once_retried :
    failedThenRetried.map (fun d => d.decision.outcome) = [.retryScheduled, .processed, .duplicate] ∧
      DecidesOnce failedThenRetried := by
  have hfirst : Decides retryConfig.policy (boomDelivered retryConfig).db
      [decideOn retryConfig.policy boom (.v4 5) 0 (boomDelivered retryConfig).db] _ :=
    Decides.start.call (by decide +kernel)
  have hsecond := @Decides.call _ _ fineAgain (.v4 7) 0 _ _ hfirst (by decide +kernel)
  have hthird := @Decides.call _ _ { boom with eventId := .v4 8 } (.v4 9) 0 _ _ hsecond (by decide +kernel)
  refine ⟨by decide +kernel, decides_once (reachable_reached _ _) hthird ?_⟩
  decide +kernel

end System

end WorkflowEngine
