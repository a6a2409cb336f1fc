import WorkflowEngine.Lib.Pool
import WorkflowEngine.Python

/-!
# The worker loop

`WorkerRuntime.run` as a coroutine: every statement between two tests or calls is one step,
so a stop signal fits between any two of them, and tasks finish wherever the coroutine awaits.
The tasks in flight and the entries a pending call may bring are a pool.
-/
namespace WorkflowEngine

/-- What `WorkerRuntime.__init__` accepts. -/
structure WorkerSettings where
  consumerName : String
  maxConcurrency : Int
  shutdownTimeoutSeconds : Rat
  reclaimIdleMs : Int
  maxConcurrency_pos : 1 ≤ maxConcurrency
  shutdownTimeout_nonneg : 0 ≤ shutdownTimeoutSeconds
  reclaimIdle_nonneg : 0 ≤ reclaimIdleMs

/-- The message identifier and the fields of each entry a read brings. -/
abbrev StreamMessages := List (String × Dict String)

structure AutoclaimCall where
  stream : String
  group : String
  consumer : String
  minIdleMs : Int
  startId : String
  count : Int
  deriving DecidableEq, Repr

structure ConsumeCall where
  group : String
  consumer : String
  streams : Dict String
  count : Int
  blockMs : Nat
  deriving DecidableEq, Repr

/-- One task of `_process_one`. -/
structure WorkerTask where
  stream : String
  messageId : String
  fields : Dict String
  deriving DecidableEq, Repr

/-- Where `run` stands. -/
inductive RunPoint where
  | looping
  | checkingCapacity
  | waiting (watched : Nat)
  | checkingStop
  | reclaim
  | reclaiming (call : AutoclaimCall)
  | consume
  | consuming (call : ConsumeCall)
  | shutdown
  | draining
  | cancelling
  | stopped
  deriving DecidableEq, Repr

structure WorkerRuntime where
  reclaimStartId : String
  inFlight : List WorkerTask
  stopRequested : Bool
  point : RunPoint
  deriving DecidableEq, Repr

/-- Whether other coroutines run here. -/
def RunPoint.awaits : RunPoint → Bool
  | .waiting _ | .reclaiming _ | .consuming _ | .draining | .cancelling => true
  | _ => false

/-- The `count` of the call that is pending here. -/
def RunPoint.count : RunPoint → Option Int
  | .reclaiming call => some call.count
  | .consuming call => some call.count
  | _ => none

namespace WorkerSettings

def create (consumerName : String) (maxConcurrency : Int) (shutdownTimeoutSeconds : Rat) (reclaimIdleMs : Int) :
    Except PyError WorkerSettings :=
  if hmax : maxConcurrency < 1 then .error (.valueError "max_concurrency must be at least 1.")
  else if htimeout : shutdownTimeoutSeconds < 0 then
    .error (.valueError "shutdown_timeout_seconds must not be negative.")
  else if hidle : reclaimIdleMs < 0 then .error (.valueError "reclaim_idle_ms must not be negative.")
  else .ok
    { consumerName := consumerName
      maxConcurrency := maxConcurrency
      shutdownTimeoutSeconds := shutdownTimeoutSeconds
      reclaimIdleMs := reclaimIdleMs
      maxConcurrency_pos := Int.not_lt.1 hmax
      shutdownTimeout_nonneg := Rat.not_lt.1 htimeout
      reclaimIdle_nonneg := Int.not_lt.1 hidle }

/-- `__init__` accepts every bound from one on. -/
theorem create_self (settings : WorkerSettings) : create settings.consumerName settings.maxConcurrency
    settings.shutdownTimeoutSeconds settings.reclaimIdleMs = .ok settings := by
  rw [create, dif_neg (Int.not_lt.2 settings.maxConcurrency_pos),
    dif_neg (Rat.not_lt.2 settings.shutdownTimeout_nonneg), dif_neg (Int.not_lt.2 settings.reclaimIdle_nonneg)]

end WorkerSettings

def workflowTasksStream : String := "workflow.tasks"

def workflowTasksGroup : String := "workers"

namespace WorkerRuntime

def init : WorkerRuntime := ⟨"0-0", [], false, .looping⟩

variable (settings : WorkerSettings)

/-- `count` of both calls. -/
def freeSlots (w : WorkerRuntime) : Int := settings.maxConcurrency - w.inFlight.length

def autoclaimCall (w : WorkerRuntime) : AutoclaimCall where
  stream := workflowTasksStream
  group := workflowTasksGroup
  consumer := settings.consumerName
  minIdleMs := settings.reclaimIdleMs
  startId := w.reclaimStartId
  count := w.freeSlots settings

def consumeCall (w : WorkerRuntime) : ConsumeCall where
  group := workflowTasksGroup
  consumer := settings.consumerName
  streams := [(workflowTasksStream, ">")]
  count := w.freeSlots settings
  blockMs := 1000

/-- `_schedule_messages`. -/
def scheduleMessages (w : WorkerRuntime) (messages : List (String × StreamMessages)) : WorkerRuntime :=
  { w with inFlight := w.inFlight ++ messages.flatMap fun m => m.2.map fun entry => ⟨m.1, entry.1, entry.2⟩ }

/-- What a call with this `COUNT` may bring; one that is not positive limits nothing. -/
def permitted (count : Int) (entries : Nat) : Prop := 0 < count → (entries : Int) ≤ count

instance (count : Int) (entries : Nat) : Decidable (permitted count entries) :=
  inferInstanceAs (Decidable (_ → _))

def entries (messages : List (String × StreamMessages)) : Nat := (messages.map (·.2.length)).sum

/-- The coroutine up to its next test, call or return. -/
def advance (w : WorkerRuntime) : Option WorkerRuntime :=
  match w.point with
  | .looping => some { w with point := if w.stopRequested then .shutdown else .checkingCapacity }
  | .checkingCapacity => some
      { w with
        point :=
          if settings.maxConcurrency ≤ w.inFlight.length ∧ w.stopRequested = false then .waiting w.inFlight.length
          else .checkingStop }
  -- `FIRST_COMPLETED`: nothing is added while `run` waits, so a task has finished if fewer are left
  | .waiting watched => if w.inFlight.length < watched then some { w with point := .checkingCapacity } else none
  | .checkingStop => some { w with point := if w.stopRequested then .shutdown else .reclaim }
  | .reclaim => some { w with point := .reclaiming (w.autoclaimCall settings) }
  | .consume => some { w with point := .consuming (w.consumeCall settings) }
  | .shutdown => some { w with point := if w.inFlight = [] then .stopped else .draining }
  | .draining => some { w with point := if w.inFlight = [] then .stopped else .cancelling }
  | .cancelling => some { w with point := .stopped }
  | .reclaiming _ | .consuming _ | .stopped => none

/-- `autoclaim` returns. -/
def reclaimed (w : WorkerRuntime) (nextStartId : String) (messages : StreamMessages) : Option WorkerRuntime :=
  match w.point with
  | .reclaiming call =>
    if permitted call.count messages.length then
      let w := { w with reclaimStartId := nextStartId }
      if messages = [] then some { w with point := .consume }
      else some { w.scheduleMessages [(workflowTasksStream, messages)] with point := .looping }
    else none
  | _ => none

/-- `consume` returns. -/
def consumed (w : WorkerRuntime) (messages : List (String × StreamMessages)) : Option WorkerRuntime :=
  match w.point with
  | .consuming call =>
    if permitted call.count (entries messages) then some { w.scheduleMessages messages with point := .looping }
    else none
  | _ => none

/-- The pending call raises `RedisError`, which counts as an empty answer. -/
def redisError (w : WorkerRuntime) : Option WorkerRuntime :=
  match w.point with
  | .reclaiming _ => some { w with point := .consume }
  | .consuming _ => some { w with point := .looping }
  | _ => none

/-- Any other exception where `run` awaits, also its own cancellation. -/
def raised (w : WorkerRuntime) : Option WorkerRuntime :=
  match w.point with
  | .waiting _ | .reclaiming _ | .consuming _ => some { w with point := .shutdown }
  | .draining | .cancelling => some { w with point := .stopped }
  | _ => none

/-- The `k`-th task finishes while `run` awaits. -/
def finished (w : WorkerRuntime) (k : Nat) : Option WorkerRuntime :=
  if w.point.awaits = true ∧ k < w.inFlight.length then some { w with inFlight := w.inFlight.eraseIdx k } else none

inductive Action where
  | advance
  | reclaimed (nextStartId : String) (messages : StreamMessages)
  | consumed (messages : List (String × StreamMessages))
  | redisError
  | raised
  | finished (k : Nat)
  | stop
  deriving DecidableEq, Repr

def step (w : WorkerRuntime) : Action → Option WorkerRuntime
  | .advance => w.advance settings
  | .reclaimed nextStartId messages => w.reclaimed nextStartId messages
  | .consumed messages => w.consumed messages
  | .redisError => w.redisError
  | .raised => w.raised
  | .finished k => w.finished k
  | .stop => some { w with stopRequested := true }

abbrev Reachable (w : WorkerRuntime) : Prop :=
  Transition.Reachable (step settings) (fun _ _ => True) init w

/-! ## The loop as a pool -/

/-- The tasks in flight are used, the entries a pending call may bring are reserved. -/
def pool (w : WorkerRuntime) : Pool := ⟨w.inFlight.length, (w.point.count.getD 0).toNat⟩

/-- Where capacity has been waited for, there is some; `stopRequested` is read after the wait. -/
def Roomy (w : WorkerRuntime) : Prop :=
  match w.point with
  | .checkingStop => w.stopRequested = false → (w.inFlight.length : Int) < settings.maxConcurrency
  | .reclaim => (w.inFlight.length : Int) < settings.maxConcurrency
  | .consume => (w.inFlight.length : Int) < settings.maxConcurrency
  | .reclaiming call => 0 < call.count
  | .consuming call => 0 < call.count
  | _ => True

structure Bounded (w : WorkerRuntime) : Prop where
  pooled : Pool.Reachable settings.maxConcurrency.toNat w.pool
  roomy : w.Roomy settings

variable {settings} {w w' : WorkerRuntime}

theorem Bounded.inFlight_le (h : w.Bounded settings) : (w.inFlight.length : Int) ≤ settings.maxConcurrency := by
  have hpos : 1 ≤ settings.maxConcurrency := settings.maxConcurrency_pos
  have hwithin := h.pooled.within
  simp only [pool] at hwithin
  omega

theorem Roomy.count_pos {count : Int} (h : w.Roomy settings) (hcall : w.point.count = some count) : 0 < count := by
  cases hpoint : w.point with
  | reclaiming call =>
    simp only [Roomy, hpoint] at h
    simp only [hpoint, RunPoint.count, Option.some.injEq] at hcall
    exact hcall ▸ h
  | consuming call =>
    simp only [Roomy, hpoint] at h
    simp only [hpoint, RunPoint.count, Option.some.injEq] at hcall
    exact hcall ▸ h
  | _ => simp [hpoint, RunPoint.count] at hcall

theorem Bounded.count_le {count : Int} (h : w.Bounded settings) (hcall : w.point.count = some count) :
    0 < count ∧ w.inFlight.length + count ≤ settings.maxConcurrency := by
  have hpos : 0 < count := h.roomy.count_pos hcall
  have hwithin := h.pooled.within
  simp only [pool, hcall, Option.getD_some] at hwithin
  omega

/-- A call takes all that is free, which is something. -/
theorem Bounded.call {point : RunPoint} (h : w.Bounded settings) (hcall : w.point.count = none)
    (hfree : (w.inFlight.length : Int) < settings.maxConcurrency) (hpoint : point.count = some (w.freeSlots settings))
    (hroomy : Roomy settings { w with point := point }) : Bounded settings { w with point := point } := by
  refine ⟨?_, hroomy⟩
  have hpool : w.pool = ⟨w.inFlight.length, 0⟩ := by simp [pool, hcall]
  have hreserved :
      Pool.Reachable settings.maxConcurrency.toNat ⟨w.inFlight.length, 0 + (w.freeSlots settings).toNat⟩ := by
    refine Pool.Reachable.reserve (hpool ▸ h.pooled) ?_ ?_
    · simp only [freeSlots]
      omega
    · simp only [freeSlots, Pool.free]
      omega
  simpa [pool, hpoint] using hreserved

/-- The pending call ends with `taken` more tasks. -/
theorem Bounded.answer {count : Int} {tasks : List WorkerTask} {point : RunPoint} {startId : String}
    (h : w.Bounded settings) (hcall : w.point.count = some count) (htasks : permitted count tasks.length)
    (hpoint : point.count = none) (hroomy : Roomy settings ⟨startId, w.inFlight ++ tasks, w.stopRequested, point⟩) :
    Bounded settings ⟨startId, w.inFlight ++ tasks, w.stopRequested, point⟩ := by
  refine ⟨?_, hroomy⟩
  have htaken : (tasks.length : Int) ≤ count := htasks (h.count_le hcall).1
  have hpool : w.pool = ⟨w.inFlight.length, count.toNat⟩ := by simp [pool, hcall]
  have hsettled :
      Pool.Reachable settings.maxConcurrency.toNat ⟨w.inFlight.length + tasks.length, count.toNat - count.toNat⟩ :=
    Pool.Reachable.settle (hpool ▸ h.pooled) le_rfl (by simp only; omega)
  simpa [pool, hpoint] using hsettled

/-- A call that brings nothing, or an exception, gives back what the call had reserved. -/
theorem Bounded.release {point : RunPoint} {startId : String} (h : w.Bounded settings) (hpoint : point.count = none)
    (hroomy : Roomy settings ⟨startId, w.inFlight, w.stopRequested, point⟩) :
    Bounded settings ⟨startId, w.inFlight, w.stopRequested, point⟩ := by
  cases hcall : w.point.count with
  | none =>
    have hpool : pool ⟨startId, w.inFlight, w.stopRequested, point⟩ = w.pool := by simp [pool, hcall, hpoint]
    exact ⟨hpool ▸ h.pooled, hroomy⟩
  | some count =>
    have hanswer : Bounded settings ⟨startId, w.inFlight ++ [], w.stopRequested, point⟩ :=
      h.answer hcall (fun hpos => Int.le_of_lt hpos) hpoint (by simpa using hroomy)
    simpa using hanswer

theorem advance_bounded (h : w.Bounded settings) (hstep : w.advance settings = some w') : w'.Bounded settings := by
  unfold advance at hstep
  cases hpoint : w.point with
  | looping =>
    simp only [hpoint, Option.some.injEq] at hstep
    subst hstep
    refine h.release ?_ ?_
    · split <;> rfl
    · cases hstop : w.stopRequested <;> simp [Roomy]
  | checkingCapacity =>
    simp only [hpoint, Option.some.injEq] at hstep
    subst hstep
    split
    · exact h.release rfl trivial
    · rename_i hroom
      refine h.release rfl fun hrunning => ?_
      exact Int.not_le.1 fun hfull => hroom ⟨hfull, hrunning⟩
  | waiting watched =>
    simp only [hpoint] at hstep
    obtain ⟨-, hw⟩ := Option.ite_none_right_eq_some.1 hstep
    cases hw
    exact h.release rfl trivial
  | checkingStop =>
    simp only [hpoint, Option.some.injEq] at hstep
    subst hstep
    have hroomy : w.stopRequested = false → (w.inFlight.length : Int) < settings.maxConcurrency := by
      simpa only [Roomy, hpoint] using h.roomy
    split
    · exact h.release rfl trivial
    · rename_i hrunning
      exact h.release rfl (hroomy (Bool.not_eq_true _ ▸ hrunning))
  | reclaim =>
    simp only [hpoint, Option.some.injEq] at hstep
    subst hstep
    have hfree : (w.inFlight.length : Int) < settings.maxConcurrency := by simpa only [Roomy, hpoint] using h.roomy
    exact h.call (by simp [hpoint, RunPoint.count]) hfree rfl (Int.sub_pos_of_lt hfree)
  | consume =>
    simp only [hpoint, Option.some.injEq] at hstep
    subst hstep
    have hfree : (w.inFlight.length : Int) < settings.maxConcurrency := by simpa only [Roomy, hpoint] using h.roomy
    exact h.call (by simp [hpoint, RunPoint.count]) hfree rfl (Int.sub_pos_of_lt hfree)
  | shutdown =>
    simp only [hpoint, Option.some.injEq] at hstep
    subst hstep
    split
    · exact h.release rfl trivial
    · exact h.release rfl trivial
  | draining =>
    simp only [hpoint, Option.some.injEq] at hstep
    subst hstep
    split
    · exact h.release rfl trivial
    · exact h.release rfl trivial
  | cancelling =>
    simp only [hpoint, Option.some.injEq] at hstep
    subst hstep
    exact h.release rfl trivial
  | reclaiming call => simp [hpoint] at hstep
  | consuming call => simp [hpoint] at hstep
  | stopped => simp [hpoint] at hstep

/-- With the answer of a reclaim that brought nothing, a slot is still free for `consume`. -/
theorem reclaimed_bounded {nextStartId : String} {messages : StreamMessages} (h : w.Bounded settings)
    (hstep : w.reclaimed nextStartId messages = some w') : w'.Bounded settings := by
  unfold reclaimed at hstep
  split at hstep
  · rename_i call hpoint
    have hcall : w.point.count = some call.count := by simp [hpoint, RunPoint.count]
    obtain ⟨hpermitted, hstep⟩ := Option.ite_none_right_eq_some.1 hstep
    split at hstep
    · cases hstep
      have hfree : (w.inFlight.length : Int) < settings.maxConcurrency := by
        have := h.count_le hcall
        omega
      exact h.release rfl hfree
    · cases hstep
      exact h.answer hcall (by simpa using hpermitted) rfl trivial
  · cases hstep

theorem consumed_bounded {messages : List (String × StreamMessages)} (h : w.Bounded settings)
    (hstep : w.consumed messages = some w') : w'.Bounded settings := by
  unfold consumed at hstep
  split at hstep
  · rename_i call hpoint
    have hcall : w.point.count = some call.count := by simp [hpoint, RunPoint.count]
    obtain ⟨hpermitted, hstep⟩ := Option.ite_none_right_eq_some.1 hstep
    cases hstep
    refine h.answer hcall ?_ rfl trivial
    simpa only [entries, List.length_flatMap, List.length_map] using hpermitted
  · cases hstep

theorem redisError_bounded (h : w.Bounded settings) (hstep : w.redisError = some w') : w'.Bounded settings := by
  unfold redisError at hstep
  split at hstep
  · rename_i call hpoint
    cases hstep
    have hcall := h.count_le (by simp [hpoint, RunPoint.count] : w.point.count = some call.count)
    refine h.release rfl ?_
    simp only [Roomy]
    omega
  · cases hstep
    exact h.release rfl trivial
  · cases hstep

theorem raised_bounded (h : w.Bounded settings) (hstep : w.raised = some w') : w'.Bounded settings := by
  unfold raised at hstep
  split at hstep
  · cases hstep
    exact h.release rfl trivial
  · cases hstep
    exact h.release rfl trivial
  · cases hstep
    exact h.release rfl trivial
  · cases hstep
    exact h.release rfl trivial
  · cases hstep
    exact h.release rfl trivial
  · cases hstep

theorem Roomy.fewer {tasks : List WorkerTask} (h : w.Roomy settings) (hlen : tasks.length ≤ w.inFlight.length) :
    Roomy settings { w with inFlight := tasks } := by
  unfold Roomy at *
  cases hpoint : w.point with
  | checkingStop =>
    simp only [hpoint] at h ⊢
    intro hrunning
    have := h hrunning
    omega
  | reclaim =>
    simp only [hpoint] at h ⊢
    omega
  | consume =>
    simp only [hpoint] at h ⊢
    omega
  | reclaiming call => simpa only [hpoint] using h
  | consuming call => simpa only [hpoint] using h
  | _ => trivial

theorem Roomy.stop (h : w.Roomy settings) : Roomy settings { w with stopRequested := true } := by
  unfold Roomy at *
  cases hpoint : w.point with
  | checkingStop =>
    intro hrunning
    cases hrunning
  | reclaim => simpa only [hpoint] using h
  | consume => simpa only [hpoint] using h
  | reclaiming call => simpa only [hpoint] using h
  | consuming call => simpa only [hpoint] using h
  | _ => trivial

theorem finished_bounded {k : Nat} (h : w.Bounded settings) (hstep : w.finished k = some w') :
    w'.Bounded settings := by
  obtain ⟨⟨-, hk⟩, hw'⟩ := Option.ite_none_right_eq_some.1 hstep
  cases hw'
  have hlen : (w.inFlight.eraseIdx k).length = w.inFlight.length - 1 := List.length_eraseIdx_of_lt hk
  refine ⟨?_, h.roomy.fewer (by omega)⟩
  have hreleased := h.pooled.release (by simp only [pool]; omega)
  simpa [pool, hlen] using hreleased

theorem step_bounded {a : Action} (h : w.Bounded settings) (hstep : w.step settings a = some w') :
    w'.Bounded settings := by
  cases a with
  | advance => exact advance_bounded h hstep
  | reclaimed nextStartId messages => exact reclaimed_bounded h hstep
  | consumed messages => exact consumed_bounded h hstep
  | redisError => exact redisError_bounded h hstep
  | raised => exact raised_bounded h hstep
  | finished k => exact finished_bounded h hstep
  | stop =>
    cases hstep
    exact ⟨h.pooled, h.roomy.stop⟩

theorem reachable_bounded (h : Reachable settings w) : w.Bounded settings := by
  induction h with
  | start => exact ⟨.start, trivial⟩
  | next a _ _ hstep ih => exact step_bounded ih hstep

/-- The bound on the concurrency: no more tasks are ever in flight, and every call asks for at
least one entry and at most `max_concurrency`. -/
theorem concurrency_bounded (settings : WorkerSettings) (h : Reachable settings w) :
    (w.inFlight.length : Int) ≤ settings.maxConcurrency ∧
    (∀ call, w.point = .reclaiming call → 1 ≤ call.count ∧ call.count ≤ settings.maxConcurrency) ∧
    (∀ call, w.point = .consuming call → 1 ≤ call.count ∧ call.count ≤ settings.maxConcurrency) := by
  have hbounded := reachable_bounded h
  have hcount : ∀ count, w.point.count = some count → 1 ≤ count ∧ count ≤ settings.maxConcurrency := by
    intro count hcall
    obtain ⟨hpos, hle⟩ := hbounded.count_le hcall
    omega
  exact ⟨hbounded.inFlight_le, fun call hpoint => hcount _ (by rw [hpoint]; rfl),
    fun call hpoint => hcount _ (by rw [hpoint]; rfl)⟩

def twoAtOnce : WorkerSettings := ⟨"worker-1", 2, 5, 30000, by decide, by decide, by decide⟩

/-- Two tasks came with the first read, one of them has finished, and the next reclaim is pending. -/
def oneLeft : WorkerRuntime :=
  ⟨"0-0", [⟨"workflow.tasks", "2-0", []⟩], false,
    .reclaiming ⟨"workflow.tasks", "workers", "worker-1", 30000, "0-0", 1⟩⟩

theorem oneLeft_reachable : Reachable twoAtOnce oneLeft :=
  Transition.Reachable.of_run (fun _ _ => true) (fun _ _ _ => trivial)
    [.advance, .advance, .advance, .advance, .reclaimed "0-0" [], .advance,
      .consumed [("workflow.tasks", [("1-0", []), ("2-0", [])])],
      .advance, .advance, .finished 0, .advance, .advance, .advance, .advance]
    .start rfl

theorem concurrency_bounded_oneLeft :
    (oneLeft.inFlight.length : Int) ≤ 2 ∧ ∃ call, oneLeft.point = .reclaiming call ∧ 1 ≤ call.count ∧
      call.count ≤ 2 := by
  obtain ⟨hlen, hreclaim, -⟩ := concurrency_bounded twoAtOnce oneLeft_reachable
  exact ⟨hlen, _, rfl, hreclaim _ rfl⟩

end WorkerRuntime

end WorkflowEngine
