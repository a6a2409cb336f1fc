import Mathlib.Algebra.Order.BigOperators.Group.List
import Mathlib.Algebra.Order.Ring.Nat
import WorkflowEngine.Lib.Table
import WorkflowEngine.Lib.Transition

/-!
# Variants

A natural number that every step lowers bounds the length of every run. If moreover some step is
possible wherever the goal is not reached, every run can be continued to the goal. What is left to
do is mostly counted over lists: the weight of a list is the sum of the weights of its elements.
-/

namespace Transition

variable {σ α : Type} {step : σ → α → Option σ} {allowed : σ → α → Prop} {inv goal : σ → Prop} {variant : σ → Nat}
  {s t : σ} {labels : List α}

/-- The run from `s` to `t` along the labels. -/
inductive Path (step : σ → α → Option σ) (allowed : σ → α → Prop) : σ → List α → σ → Prop where
  | nil (s : σ) : Path step allowed s [] s
  | cons {s t u : σ} {a : α} {rest : List α} (ok : allowed s a) (next : step s a = some t)
      (path : Path step allowed t rest u) :
      Path step allowed s (a :: rest) u

theorem Path.reachable {init : σ} (h : Reachable step allowed init s) (hp : Path step allowed s labels t) :
    Reachable step allowed init t := by
  induction hp with
  | nil => exact h
  | cons ok next _ ih => exact ih (.next _ h ok next)

theorem Path.mono {allowed' : σ → α → Prop} (sub : ∀ s a, allowed s a → allowed' s a)
    (hp : Path step allowed s labels t) :
    Path step allowed' s labels t := by
  induction hp with
  | nil => exact .nil _
  | cons ok next _ ih => exact .cons (sub _ _ ok) next ih

/-- A run of allowed steps, with the check as a function. -/
theorem Path.of_run (check : σ → α → Bool) (ok : ∀ s a, check s a = true → allowed s a) (labels : List α) :
    run (fun s a => if check s a then step s a else none) s labels = some t → Path step allowed s labels t := by
  induction labels generalizing s with
  | nil =>
    intro h
    cases h
    exact .nil _
  | cons a rest ih =>
    intro h
    obtain ⟨u, hu, hrest⟩ := Option.bind_eq_some_iff.1 h
    obtain ⟨hcheck, hu⟩ := Option.ite_none_right_eq_some.1 hu
    exact .cons (ok s a hcheck) hu (ih hrest)

/-- Every allowed step keeps the invariant and lowers the variant. -/
structure Variant (step : σ → α → Option σ) (allowed : σ → α → Prop) (inv : σ → Prop) (variant : σ → Nat) : Prop where
  keeps : ∀ s a t, inv s → allowed s a → step s a = some t → inv t
  lowers : ∀ s a t, inv s → allowed s a → step s a = some t → variant t < variant s

theorem Variant.restrict {allowed' : σ → α → Prop} (h : Variant step allowed inv variant)
    (sub : ∀ s a, allowed' s a → allowed s a) : Variant step allowed' inv variant :=
  ⟨fun s a t hs ok next => h.keeps s a t hs (sub s a ok) next,
    fun s a t hs ok next => h.lowers s a t hs (sub s a ok) next⟩

theorem Variant.keeps_path (h : Variant step allowed inv variant) (hp : Path step allowed s labels t) (hs : inv s) :
    inv t := by
  induction hp with
  | nil => exact hs
  | cons ok next _ ih => exact ih (h.keeps _ _ _ hs ok next)

/-- A run is no longer than what was left at its start. -/
theorem Variant.length_le (h : Variant step allowed inv variant) (hp : Path step allowed s labels t) (hs : inv s) :
    labels.length + variant t ≤ variant s := by
  induction hp with
  | nil => simp
  | cons ok next _ ih =>
    have hle := ih (h.keeps _ _ _ hs ok next)
    have hlt := h.lowers _ _ _ hs ok next
    rw [List.length_cons]
    omega

/-- Where the goal is reached or a step is possible, some run reaches the goal. -/
theorem Variant.reaches (h : Variant step allowed inv variant)
    (progress : ∀ s, inv s → goal s ∨ ∃ a t, allowed s a ∧ step s a = some t) (hs : inv s) :
    ∃ labels t, Path step allowed s labels t ∧ goal t := by
  induction hk : variant s using Nat.strong_induction_on generalizing s with
  | _ k ih =>
    rcases progress s hs with hgoal | ⟨a, t, ok, next⟩
    · exact ⟨[], s, .nil s, hgoal⟩
    · obtain ⟨labels, u, hpath, hgoal⟩ := ih _ (hk ▸ h.lowers s a t hs ok next) (h.keeps s a t hs ok next) rfl
      exact ⟨a :: labels, u, .cons ok next hpath, hgoal⟩

end Transition

/-! ## Weights -/

namespace Table

variable {ρ : Type} {c c' : ρ → Nat} {t : List ρ} {r r' : ρ} {p : ρ → Bool} {f : ρ → ρ} {w i : Nat}

def weight (c : ρ → Nat) (t : List ρ) : Nat := (t.map c).sum

@[simp] theorem weight_nil : weight c [] = 0 := rfl

@[simp] theorem weight_cons : weight c (r :: t) = c r + weight c t := by
  simp [weight]

@[simp] theorem weight_append {u : List ρ} : weight c (t ++ u) = weight c t + weight c u := by
  simp [weight]

theorem weight_le (h : ∀ r ∈ t, c r ≤ w) : weight c t ≤ w * t.length := by
  induction t with
  | nil => simp
  | cons r t ih =>
    have hr := h r (.head t)
    have ht := ih fun r hr => h r (.tail _ hr)
    rw [weight_cons, List.length_cons, Nat.mul_succ]
    omega

theorem weight_mono (h : ∀ r ∈ t, c r ≤ c' r) : weight c t ≤ weight c' t := by
  induction t with
  | nil => simp
  | cons r t ih =>
    have hr := h r (.head t)
    have ht := ih fun r hr => h r (.tail _ hr)
    simp only [weight_cons]
    omega

/-- One element that is lighter by `w` makes the list lighter by `w`. -/
theorem weight_add_le (h : ∀ r ∈ t, c r ≤ c' r) (hr : r ∈ t) (hw : c r + w ≤ c' r) : weight c t + w ≤ weight c' t := by
  induction t with
  | nil => cases hr
  | cons r₀ t ih =>
    have hrest : ∀ r ∈ t, c r ≤ c' r := fun r hr => h r (.tail _ hr)
    simp only [weight_cons]
    cases hr with
    | head =>
      have := weight_mono hrest
      omega
    | tail _ hr =>
      have := ih hrest hr
      have := h r₀ (.head t)
      omega

theorem le_weight (hr : r ∈ t) : c r ≤ weight c t := by
  have : weight (fun _ => 0) t + c r ≤ weight c t := weight_add_le (fun _ _ => Nat.zero_le _) hr (Nat.zero_add _).le
  omega

/-- An update that makes each row it selects lighter by `w`. -/
theorem weight_updateWhere (h : ∀ r ∈ t, p r = true → c (f r) + w ≤ c r) :
    weight c (updateWhere p f t) + w * t.countP p ≤ weight c t := by
  induction t with
  | nil => simp [updateWhere]
  | cons r t ih =>
    have ht := ih fun r hr => h r (.tail _ hr)
    simp only [updateWhere, List.map_cons, weight_cons, List.countP_cons] at ht ⊢
    by_cases hp : p r = true
    · have hr := h r (.head t) hp
      rw [if_pos hp, if_pos hp, Nat.mul_succ]
      omega
    · rw [if_neg hp, if_neg hp, Nat.add_zero]
      omega

theorem weight_updateWhere_eq (h : ∀ r, p r = true → c (f r) = c r) : weight c (updateWhere p f t) = weight c t := by
  induction t with
  | nil => rfl
  | cons r t ih =>
    simp only [updateWhere, List.map_cons, weight_cons] at ih ⊢
    by_cases hp : p r = true
    · rw [if_pos hp, h r hp, ih]
    · rw [if_neg hp, ih]

theorem weight_set (h : t[i]? = some r) (r' : ρ) : weight c (t.set i r') + c r = weight c t + c r' := by
  induction t generalizing i with
  | nil => cases h
  | cons r₀ t ih =>
    cases i with
    | zero =>
      cases h
      simp only [List.set_cons_zero, weight_cons]
      omega
    | succ i =>
      have := ih h
      simp only [List.set_cons_succ, weight_cons]
      omega

theorem weight_eraseIdx (h : t[i]? = some r) : weight c (t.eraseIdx i) + c r = weight c t := by
  induction t generalizing i with
  | nil => cases h
  | cons r₀ t ih =>
    cases i with
    | zero =>
      cases h
      simp only [List.eraseIdx_cons_zero, weight_cons]
      omega
    | succ i =>
      have := ih h
      simp only [List.eraseIdx_cons_succ, weight_cons]
      omega

end Table
