import WorkflowEngine.Lib.Transition

/-!
# Pools

A pool of a fixed capacity whose units are reserved before it is known how many of them are
needed: a reservation is settled by taking some of its units and giving the others back.
-/

structure Pool where
  used : Nat
  reserved : Nat
  deriving DecidableEq, Repr

namespace Pool

inductive Action where
  | reserve (units : Nat)
  | settle (units taken : Nat)
  | release
  deriving DecidableEq, Repr

def free (capacity : Nat) (p : Pool) : Nat := capacity - (p.used + p.reserved)

def step (capacity : Nat) (p : Pool) : Action → Option Pool
  | .reserve units =>
    if 0 < units ∧ units ≤ p.free capacity then some { p with reserved := p.reserved + units } else none
  | .settle units taken =>
    if units ≤ p.reserved ∧ taken ≤ units then some ⟨p.used + taken, p.reserved - units⟩ else none
  | .release => if 0 < p.used then some { p with used := p.used - 1 } else none

def empty : Pool := ⟨0, 0⟩

abbrev Reachable (capacity : Nat) (p : Pool) : Prop :=
  Transition.Reachable (step capacity) (fun _ _ => True) empty p

variable {capacity units taken : Nat} {p : Pool}

theorem step_within {a : Action} {q : Pool} (h : p.used + p.reserved ≤ capacity) (hstep : p.step capacity a = some q) :
    q.used + q.reserved ≤ capacity := by
  cases a with
  | reserve units =>
    obtain ⟨⟨-, hunits⟩, hq⟩ := Option.ite_none_right_eq_some.1 hstep
    cases hq
    simp only [free] at hunits
    simp only
    omega
  | settle units taken =>
    obtain ⟨⟨hunits, htaken⟩, hq⟩ := Option.ite_none_right_eq_some.1 hstep
    cases hq
    simp only
    omega
  | release =>
    obtain ⟨-, hq⟩ := Option.ite_none_right_eq_some.1 hstep
    cases hq
    simp only
    omega

/-- What is used and reserved never exceeds the capacity. -/
theorem Reachable.within (h : Reachable capacity p) : p.used + p.reserved ≤ capacity := by
  induction h with
  | start => exact Nat.zero_le _
  | next a _ _ hstep ih => exact step_within ih hstep

theorem Reachable.reserve (h : Reachable capacity p) (hpos : 0 < units) (hfree : units ≤ p.free capacity) :
    Reachable capacity ⟨p.used, p.reserved + units⟩ :=
  h.next (.reserve units) trivial (if_pos ⟨hpos, hfree⟩)

theorem Reachable.settle (h : Reachable capacity p) (hunits : units ≤ p.reserved) (htaken : taken ≤ units) :
    Reachable capacity ⟨p.used + taken, p.reserved - units⟩ :=
  h.next (.settle units taken) trivial (if_pos ⟨hunits, htaken⟩)

theorem Reachable.release (h : Reachable capacity p) (hused : 0 < p.used) :
    Reachable capacity ⟨p.used - 1, p.reserved⟩ :=
  h.next .release trivial (if_pos hused)

end Pool
