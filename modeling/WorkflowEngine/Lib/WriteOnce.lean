import WorkflowEngine.Lib.Transition

/-!
# Write-once registers

A system with a register for each key. Its steps write no register twice, and what they observe
is in the register. Then what a register holds is final, and so is every observation of it.
-/
namespace WriteOnce

variable {σ α κ ρ : Type} {step : σ → α → Option σ} {allowed : σ → α → Prop} {init s t : σ}
  {value : σ → κ → Option ρ} {observed : σ → List (κ × ρ)} {v v' v'' : κ → Option ρ} {k : κ} {r r' : ρ}

/-- Whatever is written stays. -/
def Extends (v v' : κ → Option ρ) : Prop := ∀ k r, v k = some r → v' k = some r

theorem Extends.refl (v : κ → Option ρ) : Extends v v := fun _ _ h => h

theorem Extends.trans (h : Extends v v') (h' : Extends v' v'') : Extends v v'' := fun k r hk => h' k r (h k r hk)

/-- The steps of a system as operations on its registers. -/
structure Registers (step : σ → α → Option σ) (allowed : σ → α → Prop) (init : σ) (value : σ → κ → Option ρ)
    (observed : σ → List (κ × ρ)) : Prop where
  start : observed init = []
  keeps : ∀ s a t, Transition.Reachable step allowed init s → allowed s a → step s a = some t →
    Extends (value s) (value t)
  observes : ∀ s a t, Transition.Reachable step allowed init s → allowed s a → step s a = some t →
    ∀ o ∈ observed t, o ∈ observed s ∨ value t o.1 = some o.2

/-- What has been observed is what the register holds. -/
theorem Registers.holds (h : Registers step allowed init value observed)
    (hs : Transition.Reachable step allowed init s) :
    ∀ o ∈ observed s, value s o.1 = some o.2 := by
  refine Transition.Reachable.invariant (P := fun s => ∀ o ∈ observed s, value s o.1 = some o.2) ?_ ?_ hs
  · simp [h.start]
  · intro s a t hs ih ha ht o ho
    rcases h.observes s a t hs ha ht o ho with hold | hnew
    · exact h.keeps s a t hs ha ht _ _ (ih o hold)
    · exact hnew

theorem Registers.extends (h : Registers step allowed init value observed)
    (hs : Transition.Reachable step allowed init s) (ht : Transition.Reachable step allowed s t) :
    Extends (value s) (value t) := by
  induction ht with
  | start => exact .refl _
  | next a hu ha hv ih => exact ih.trans (h.keeps _ a _ (hs.trans hu) ha hv)

/-- Whatever is observed of a register that has been written is what was written. -/
theorem Registers.final (h : Registers step allowed init value observed)
    (hs : Transition.Reachable step allowed init s) (hvalue : value s k = some r)
    (ht : Transition.Reachable step allowed s t) (ho : (k, r') ∈ observed t) : r' = r :=
  Option.some.inj ((h.holds (hs.trans ht) _ ho).symm.trans (h.extends hs ht k r hvalue))

end WriteOnce
