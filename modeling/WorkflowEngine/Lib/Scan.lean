import Mathlib.Data.Nat.Find
import Mathlib.Tactic.Push

/-!
# Scans with a stride

A scan goes from hit to hit of a predicate on positions, checks each hit and goes on a fixed
number of positions behind it. It skips the hits that overlap the last one, so it decides
whether all hits pass the check only for hits that begin a run.
-/

/-- The scan from `start` ends without a failed check. -/
inductive Scanned (hit check : Nat → Prop) (stride : Nat) : Nat → Prop where
  | done {start : Nat} (none : ∀ p, start ≤ p → ¬ hit p) : Scanned hit check stride start
  | next {start p : Nat} (le : start ≤ p) (here : hit p) (first : ∀ q, start ≤ q → q < p → ¬ hit q) (ok : check p)
      (rest : Scanned hit check stride (p + stride)) : Scanned hit check stride start

namespace Scanned

variable {hit check : Nat → Prop} {start p : Nat}

/-- With stride two, a hit at the start or after a position that is none is visited. -/
theorem visits (h : Scanned hit check 2 start) (hle : start ≤ p) (hp : hit p) (hbegin : p = start ∨ ¬ hit (p - 1)) :
    check p ∧ Scanned hit check 2 (p + 2) := by
  induction h with
  | done hnone => exact absurd hp (hnone p hle)
  | @next start q le here first ok rest ih =>
    rcases Nat.lt_trichotomy q p with hlt | rfl | hgt
    · have hnot : ¬ hit (p - 1) := hbegin.resolve_left (by omega)
      have hne : p ≠ q + 1 := fun he => hnot (by rwa [he, Nat.add_sub_cancel])
      exact ih (by omega) (.inr hnot)
    · exact ⟨ok, rest⟩
    · exact absurd hp (first p hle hgt)

/-- A scan over finitely many hits that all pass ends. -/
theorem of_forall {bound stride : Nat} (hbound : ∀ p, hit p → p < bound) (hall : ∀ p, start ≤ p → hit p → check p)
    (hstride : 0 < stride) : Scanned hit check stride start := by
  induction hk : bound - start using Nat.strong_induction_on generalizing start with
  | _ k ih =>
    by_cases hex : ∃ p, start ≤ p ∧ hit p
    · classical
      have hfind := Nat.find_spec hex
      have hlt := hbound _ hfind.2
      refine .next hfind.1 hfind.2 (fun q hq hqp hhit => Nat.find_min hex hqp ⟨hq, hhit⟩) (hall _ hfind.1 hfind.2) ?_
      refine ih (bound - (Nat.find hex + stride)) (by omega) (fun p hp => hall p (by omega)) rfl
    · push Not at hex
      exact .done hex

end Scanned
