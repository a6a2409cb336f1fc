import Mathlib.Logic.Function.Basic
import WorkflowEngine.Workflow

/-!
# Dependency-ordered runs

What one execution is for, without tables, streams or processes: a status for the execution
and one for each node, over any type of nodes with any dependency relation. A node starts
when everything it depends on is completed; a failure takes every pending node downstream
with it; a running execution is settled in the same step that ends its last node or fails
one.
-/
namespace WorkflowEngine

structure DependencyRun (ι : Type) where
  status : WorkflowExecutionStatus
  nodes : ι → NodeExecutionStatus

namespace DependencyRun

variable {ι : Type} {N : List ι} {deps : ι → ι → Prop} {r r' : DependencyRun ι}

/-- Pending nodes reached from `m` against the dependencies, through pending nodes only. -/
inductive Downstream (deps : ι → ι → Prop) (st : ι → NodeExecutionStatus) (m : ι) : ι → Prop where
  | direct {n : ι} (dep : deps n m) (pending : st n = .pending) : Downstream deps st m n
  | through {n d : ι} (dep : deps n d) (pending : st n = .pending) (down : Downstream deps st m d) :
      Downstream deps st m n

theorem Downstream.pending {st : ι → NodeExecutionStatus} {m n : ι} (h : Downstream deps st m n) :
    st n = .pending := by
  cases h <;> assumption

open Classical in
/-- `m` fails and takes everything downstream with it. -/
noncomputable def failFrom (deps : ι → ι → Prop) (st : ι → NodeExecutionStatus) (m : ι) :
    ι → NodeExecutionStatus :=
  fun n => if n = m ∨ Downstream deps st m n then .failed else st n

open Classical in
/-- A running execution fails with its first failed node and completes with its last node. -/
noncomputable def settle (N : List ι) (r : DependencyRun ι) : DependencyRun ι :=
  if r.status = .running then
    if ∃ n ∈ N, r.nodes n = .failed then { r with status := .failed }
    else if ∀ n ∈ N, r.nodes n = .completed then { r with status := .completed }
    else r
  else r

inductive Step [DecidableEq ι] (N : List ι) (deps : ι → ι → Prop) : DependencyRun ι → DependencyRun ι → Prop where
  | trigger {r : DependencyRun ι} (pending : r.status = .pending) : Step N deps r { r with status := .running }
  | start {r : DependencyRun ι} {n : ι} (mem : n ∈ N) (triggered : r.status ≠ .pending)
      (pending : r.nodes n = .pending) (ready : ∀ d, deps n d → r.nodes d = .completed) :
      Step N deps r { r with nodes := Function.update r.nodes n .running }
  | complete {r : DependencyRun ι} {n : ι} (mem : n ∈ N) (running : r.nodes n = .running) :
      Step N deps r (settle N { r with nodes := Function.update r.nodes n .completed })
  | fail {r : DependencyRun ι} {n : ι} (mem : n ∈ N) (running : r.nodes n = .running) :
      Step N deps r (settle N { r with nodes := failFrom deps r.nodes n })

def start : DependencyRun ι := ⟨.pending, fun _ => .pending⟩

/-! ## What every run keeps -/

structure Consistent (N : List ι) (deps : ι → ι → Prop) (r : DependencyRun ι) : Prop where
  outside : ∀ n, n ∉ N → r.nodes n = .pending
  started : ∀ n d, deps n d → r.nodes n = .running ∨ r.nodes n = .completed → r.nodes d = .completed
  waiting : ∀ n d, deps n d → r.nodes n = .pending → r.nodes d ≠ .failed
  untriggered : r.status = .pending → ∀ n, r.nodes n = .pending
  running_sound : r.status = .running → ∀ n, r.nodes n ≠ .failed
  running_open : r.status = .running → N ≠ [] → ∃ n ∈ N, r.nodes n ≠ .completed
  completed_sound : r.status = .completed → ∀ n ∈ N, r.nodes n = .completed
  completed_nonempty : r.status = .completed → N ≠ []
  failed_sound : r.status = .failed → ∃ n ∈ N, r.nodes n = .failed

theorem consistent_start : Consistent N deps start := by
  refine ⟨fun _ _ => rfl, ?_, ?_, fun _ _ => rfl, ?_, ?_, ?_, ?_, ?_⟩ <;> simp [start]

@[simp] theorem settle_nodes : (settle N r).nodes = r.nodes := by
  unfold settle
  split
  · split
    · rfl
    · split <;> rfl
  · rfl

theorem failFrom_of_ne {st : ι → NodeExecutionStatus} {m n : ι} (h : failFrom deps st m n ≠ .failed) :
    n ≠ m ∧ ¬ Downstream deps st m n ∧ failFrom deps st m n = st n := by
  unfold failFrom at h ⊢
  split at h
  · exact absurd rfl h
  · rename_i hn
    push Not at hn
    exact ⟨hn.1, hn.2, by simp [hn.1, hn.2]⟩

theorem failFrom_of_not_pending {st : ι → NodeExecutionStatus} {m n : ι} (hm : n ≠ m) (hn : st n ≠ .pending) :
    failFrom deps st m n = st n := by
  have hd : ¬ Downstream deps st m n := fun h => hn h.pending
  simp [failFrom, hm, hd]

theorem failFrom_failed {st : ι → NodeExecutionStatus} {m n : ι} (h : failFrom deps st m n = .failed) :
    n = m ∨ Downstream deps st m n ∨ st n = .failed := by
  unfold failFrom at h
  split at h
  · rename_i hn
    exact hn.imp_right .inl
  · exact .inr (.inr h)

theorem settle_status : (r.status ≠ .running ∧ (settle N r).status = r.status) ∨
    (r.status = .running ∧ (∃ n ∈ N, r.nodes n = .failed) ∧ (settle N r).status = .failed) ∨
    (r.status = .running ∧ (∀ n ∈ N, r.nodes n ≠ .failed) ∧ (∀ n ∈ N, r.nodes n = .completed) ∧
      (settle N r).status = .completed) ∨
    (r.status = .running ∧ (∀ n ∈ N, r.nodes n ≠ .failed) ∧ (∃ n ∈ N, r.nodes n ≠ .completed) ∧
      (settle N r).status = .running) := by
  unfold settle
  split
  · rename_i hs
    split
    · rename_i hf
      exact .inr (.inl ⟨hs, hf, rfl⟩)
    · rename_i hf
      push Not at hf
      split
      · rename_i hc
        exact .inr (.inr (.inl ⟨hs, hf, hc, rfl⟩))
      · rename_i hc
        push Not at hc
        exact .inr (.inr (.inr ⟨hs, hf, hc, hs⟩))
  · rename_i hs
    exact .inl ⟨hs, rfl⟩

/-- Whatever a step makes of the nodes, settling restores the agreement with the status. -/
theorem Consistent.settle (outside : ∀ n, n ∉ N → r.nodes n = .pending)
    (started : ∀ n d, deps n d → r.nodes n = .running ∨ r.nodes n = .completed → r.nodes d = .completed)
    (waiting : ∀ n d, deps n d → r.nodes n = .pending → r.nodes d ≠ .failed)
    (nonempty : N ≠ []) (triggered : r.status ≠ .pending) (not_completed : r.status ≠ .completed)
    (failed_sound : r.status = .failed → ∃ n ∈ N, r.nodes n = .failed) :
    Consistent N deps (settle N r) := by
  have hmem : ∀ n, r.nodes n = .failed → n ∈ N := by
    intro n hn
    by_contra hN
    rw [outside n hN] at hn
    cases hn
  rcases settle_status (N := N) (r := r) with ⟨hs, he⟩ | ⟨-, hf, he⟩ | ⟨-, hf, hall, he⟩ | ⟨-, hf, hopen, he⟩ <;>
    refine ⟨by simpa using outside, by simpa using started, by simpa using waiting, ?_, ?_, ?_, ?_,
      fun _ => nonempty, ?_⟩ <;>
    simp only [he, settle_nodes]
  · exact fun h => absurd h triggered
  · exact fun h => absurd h hs
  · exact fun h => absurd h hs
  · exact fun h => absurd h not_completed
  · exact failed_sound
  · simp
  · simp
  · simp
  · simp
  · exact fun _ => hf
  · simp
  · simp
  · simp
  · exact fun _ => hall
  · simp
  · simp
  · exact fun _ n hn => hf n (hmem n hn) hn
  · exact fun _ _ => hopen
  · simp
  · simp

theorem Consistent.not_completed (hc : Consistent N deps r) {n : ι} (mem : n ∈ N)
    (hn : r.nodes n ≠ .completed) : r.status ≠ .completed :=
  fun h => hn (hc.completed_sound h n mem)

theorem Consistent.triggered (hc : Consistent N deps r) {n : ι} (hn : r.nodes n ≠ .pending) :
    r.status ≠ .pending :=
  fun h => hn (hc.untriggered h n)

/-- A node that has not completed, and whose dependencies have, may be started or completed. -/
theorem Consistent.update [DecidableEq ι] (hc : Consistent N deps r) {n : ι} (mem : n ∈ N)
    (hopen : r.nodes n ≠ .completed) (ready : ∀ d, deps n d → r.nodes d = .completed) (status : NodeExecutionStatus)
    (hpending : status ≠ .pending) (hfailed : status ≠ .failed) :
    (∀ i, i ∉ N → Function.update r.nodes n status i = .pending) ∧
    (∀ i d, deps i d → Function.update r.nodes n status i = .running ∨
      Function.update r.nodes n status i = .completed → Function.update r.nodes n status d = .completed) ∧
    ∀ i d, deps i d → Function.update r.nodes n status i = .pending →
      Function.update r.nodes n status d ≠ .failed := by
  refine ⟨?_, ?_, ?_⟩
  · intro i hi
    have hin : i ≠ n := fun he => hi (he ▸ mem)
    rw [Function.update_of_ne hin, hc.outside i hi]
  · intro i d hd hi
    have hcomp : r.nodes d = .completed := by
      by_cases hin : i = n
      · exact ready d (hin ▸ hd)
      · exact hc.started i d hd (by simpa [hin] using hi)
    have hdn : d ≠ n := fun he => hopen (he ▸ hcomp)
    rw [Function.update_of_ne hdn, hcomp]
  · intro i d hd hi
    by_cases hin : i = n
    · exact absurd (by simpa [hin] using hi) hpending
    · have := hc.waiting i d hd (by simpa [hin] using hi)
      by_cases hdn : d = n
      · simpa [hdn] using hfailed
      · simpa [hdn] using this

theorem failed_update [DecidableEq ι] {n : ι} (hn : r.nodes n ≠ .failed) (h : ∃ i ∈ N, r.nodes i = .failed)
    (status : NodeExecutionStatus) : ∃ i ∈ N, Function.update r.nodes n status i = .failed := by
  obtain ⟨i, hi, hfi⟩ := h
  have hin : i ≠ n := fun he => hn (he ▸ hfi)
  exact ⟨i, hi, by rw [Function.update_of_ne hin, hfi]⟩

theorem Step.consistent [DecidableEq ι] (hdeps : ∀ n d, deps n d → n ∈ N) (h : Step N deps r r')
    (hc : Consistent N deps r) : Consistent N deps r' := by
  cases h with
  | trigger pending =>
    have hall := hc.untriggered pending
    refine ⟨hc.outside, hc.started, hc.waiting, by simp, by simp [hall], ?_, by simp, by simp, by simp⟩
    intro _ hN
    obtain ⟨n, hn⟩ := List.exists_mem_of_ne_nil N hN
    exact ⟨n, hn, by simp [hall]⟩
  | @start n mem triggered pending ready =>
    obtain ⟨houtside, hstarted, hwaiting⟩ := hc.update mem (by simp [pending]) ready .running (by decide) (by decide)
    refine ⟨houtside, hstarted, hwaiting, fun h => absurd h triggered, ?_, ?_, ?_, fun _ => List.ne_nil_of_mem mem, ?_⟩
    · intro h i
      by_cases hin : i = n
      · simp [hin]
      · simpa [hin] using hc.running_sound h i
    · exact fun _ _ => ⟨n, mem, by simp⟩
    · intro h
      exact absurd h (hc.not_completed mem (by simp [pending]))
    · exact fun h => failed_update (by simp [pending]) (hc.failed_sound h) .running
  | @complete n mem running =>
    obtain ⟨houtside, hstarted, hwaiting⟩ := hc.update mem (by simp [running])
      (fun d hd => hc.started n d hd (.inl running)) .completed (by decide) (by decide)
    exact Consistent.settle houtside hstarted hwaiting (List.ne_nil_of_mem mem)
      (hc.triggered (n := n) (by simp [running])) (hc.not_completed mem (by simp [running])) fun h =>
        failed_update (by simp [running]) (hc.failed_sound h) .completed
  | @fail n mem running =>
    refine Consistent.settle ?_ ?_ ?_ (List.ne_nil_of_mem mem) (hc.triggered (n := n) (by simp [running]))
      (hc.not_completed mem (by simp [running])) ?_
    · intro i hi
      have hin : i ≠ n := fun he => hi (he ▸ mem)
      have hid : ¬ Downstream deps r.nodes n i := by
        intro h
        cases h <;> exact hi (hdeps _ _ ‹_›)
      simpa [failFrom, hin, hid] using hc.outside i hi
    · intro i d hd hi
      dsimp only at hi ⊢
      obtain ⟨hin, -, he⟩ := @failFrom_of_ne ι deps r.nodes n i
        (by rcases hi with hi | hi <;> simp [hi])
      rw [he] at hi
      have hcomp := hc.started i d hd hi
      have hdn : d ≠ n := by
        rintro rfl
        rw [running] at hcomp
        cases hcomp
      rw [failFrom_of_not_pending hdn (by simp [hcomp]), hcomp]
    · intro i d hd hi hfd
      dsimp only at hi hfd
      obtain ⟨hin, hnd, he⟩ := @failFrom_of_ne ι deps r.nodes n i (by simp [hi])
      rw [he] at hi
      rcases failFrom_failed hfd with rfl | hdown | hfd
      · exact hnd (.direct hd hi)
      · exact hnd (.through hd hi hdown)
      · exact hc.waiting i d hd hi hfd
    · exact fun _ => ⟨n, mem, by simp [failFrom]⟩

theorem Step.triggered [DecidableEq ι] (h : Step N deps r r') (hr : r.status ≠ .pending) :
    r'.status ≠ .pending := by
  have hsettle : ∀ {q : DependencyRun ι}, q.status ≠ .pending → (settle N q).status ≠ .pending := by
    intro q hq
    rcases settle_status (N := N) (r := q) with ⟨-, he⟩ | ⟨-, -, he⟩ | ⟨-, -, -, he⟩ | ⟨-, -, -, he⟩ <;> simp [he, hq]
  cases h with
  | trigger pending => exact absurd pending hr
  | start => exact hr
  | complete => exact hsettle hr
  | fail => exact hsettle hr

theorem Step.completed [DecidableEq ι] (h : Step N deps r r') {n : ι} (hn : r.nodes n = .completed) :
    r'.nodes n = .completed := by
  cases h with
  | trigger => exact hn
  | @start m _ _ pending _ =>
    have hne : n ≠ m := fun he => by simp [← he, hn] at pending
    simpa [hne] using hn
  | @complete m _ running =>
    by_cases hne : n = m <;> simp [hne, hn]
  | @fail m _ running =>
    have hne : n ≠ m := fun he => by simp [← he, hn] at running
    have he := @failFrom_of_not_pending ι deps r.nodes _ _ hne (by simp [hn])
    simp [he, hn]

theorem Step.failed [DecidableEq ι] (h : Step N deps r r') {n : ι} (hn : r.nodes n = .failed) :
    r'.nodes n = .failed := by
  cases h with
  | trigger => exact hn
  | @start m _ _ pending _ =>
    have hne : n ≠ m := fun he => by simp [← he, hn] at pending
    simpa [hne] using hn
  | @complete m _ running =>
    have hne : n ≠ m := fun he => by simp [← he, hn] at running
    simpa [hne] using hn
  | @fail m _ running =>
    have hne : n ≠ m := fun he => by simp [← he, hn] at running
    have he := @failFrom_of_not_pending ι deps r.nodes _ _ hne (by simp [hn])
    simp [he, hn]

/-- A node fails while it runs, or with something it depends on. -/
theorem Step.newly_failed [DecidableEq ι] (h : Step N deps r r') {n : ι} (hn : r'.nodes n = .failed) :
    r.nodes n = .failed ∨ r.nodes n = .running ∨ ∃ d, deps n d ∧ r'.nodes d = .failed := by
  cases h with
  | trigger => exact .inl hn
  | @start m _ _ pending _ =>
    have hne : n ≠ m := fun he => by simp [he] at hn
    exact .inl (by simpa [hne] using hn)
  | @complete m _ running =>
    have hne : n ≠ m := fun he => by simp [he] at hn
    exact .inl (by simpa [hne] using hn)
  | @fail m _ running =>
    rw [settle_nodes] at hn ⊢
    rcases failFrom_failed hn with rfl | hdown | hold
    · exact .inr (.inl running)
    · refine .inr (.inr ?_)
      cases hdown with
      | direct dep _ => exact ⟨m, dep, by simp [failFrom]⟩
      | @through _ d dep _ down => exact ⟨d, dep, by simp [failFrom, down]⟩
    · exact .inl hold

end DependencyRun

end WorkflowEngine
