import Mathlib.Data.List.Basic

/-!
# Transition systems

States reached from an initial state by labelled steps, where a predicate says which steps a
run may take. The induction over runs is packaged once: what holds initially and survives
every allowed step holds in every reachable state.
-/
namespace Transition

variable {σ α : Type} {step : σ → α → Option σ} {allowed : σ → α → Prop} {init : σ}

inductive Reachable (step : σ → α → Option σ) (allowed : σ → α → Prop) (init : σ) : σ → Prop where
  | start : Reachable step allowed init init
  | next {s t : σ} (a : α) : Reachable step allowed init s → allowed s a → step s a = some t →
      Reachable step allowed init t

/-- The step lemma may use that its source state is reachable. -/
theorem Reachable.invariant {P : σ → Prop} (start : P init)
    (next : ∀ s a t, Reachable step allowed init s → P s → allowed s a → step s a = some t → P t) :
    ∀ {s}, Reachable step allowed init s → P s := by
  intro s h
  induction h with
  | start => exact start
  | next a hs ha ht ih => exact next _ a _ hs ih ha ht

theorem Reachable.mono {allowed' : σ → α → Prop} (sub : ∀ s a, allowed s a → allowed' s a) :
    ∀ {s}, Reachable step allowed init s → Reachable step allowed' init s := by
  intro s h
  induction h with
  | start => exact .start
  | next a _ ha ht ih => exact .next a ih (sub _ _ ha) ht

/-- A run continued is a run. -/
theorem Reachable.trans {s : σ} (h : Reachable step allowed init s) :
    ∀ {t}, Reachable step allowed s t → Reachable step allowed init t := by
  intro t ht
  induction ht with
  | start => exact h
  | next a _ ha ht ih => exact .next a ih ha ht

/-- Execute a list of labels. -/
def run (step : σ → α → Option σ) : σ → List α → Option σ
  | s, [] => some s
  | s, a :: rest => (step s a).bind fun t => run step t rest

/-- A run of allowed steps, with the check as a function. -/
theorem Reachable.of_run (check : σ → α → Bool) (ok : ∀ s a, check s a = true → allowed s a) :
    ∀ {s : σ} (labels : List α) {t : σ}, Reachable step allowed init s →
      run (fun s a => if check s a then step s a else none) s labels = some t →
      Reachable step allowed init t := by
  intro s labels
  induction labels generalizing s with
  | nil =>
    intro t hs h
    cases h
    exact hs
  | cons a rest ih =>
    intro t hs h
    simp only [run] at h
    split at h
    · rename_i hc
      cases hu : step s a with
      | none => simp [hu] at h
      | some u =>
        rw [hu] at h
        exact ih (.next a hs (ok _ _ hc) hu) h
    · simp at h

end Transition
