import Mathlib.Order.Basic

/-!
# Life spans

When something was created, when it was started and when it was completed. Each instant is noted
once, by a clock that does not run backwards, so that the instants come in their order and a later
look at the same thing shows what an earlier one has shown.
-/

structure Lifespan (τ : Type) where
  created : τ
  started : Option τ
  completed : Option τ

namespace Lifespan

variable {τ : Type} {l l' l'' : Lifespan τ}

/-- Every instant that is noted in `l` is noted in `l'`. -/
structure Extends (l l' : Lifespan τ) : Prop where
  created : l'.created = l.created
  started : ∀ a, l.started = some a → l'.started = some a
  completed : ∀ b, l.completed = some b → l'.completed = some b

theorem Extends.refl (l : Lifespan τ) : Extends l l := ⟨rfl, fun _ h => h, fun _ h => h⟩

theorem Extends.trans (h : Extends l l') (h' : Extends l' l'') : Extends l l'' :=
  ⟨h'.created.trans h.created, fun a ha => h'.started a (h.started a ha),
    fun b hb => h'.completed b (h.completed b hb)⟩

/-- Nothing but the creation has been noted. -/
def Fresh (l : Lifespan τ) : Prop := l.started = none ∧ l.completed = none

/-- Started and not completed. -/
def Begun (l : Lifespan τ) : Prop := (∃ a, l.started = some a) ∧ l.completed = none

def Ended (l : Lifespan τ) : Prop := (∃ a, l.started = some a) ∧ ∃ b, l.completed = some b

/-- Note the start. -/
def start (now : τ) (l : Lifespan τ) : Lifespan τ := { l with started := some now }

/-- Note the completion. -/
def finish (now : τ) (l : Lifespan τ) : Lifespan τ := { l with completed := some now }

theorem Fresh.start_extends (h : l.Fresh) (now : τ) : Extends l (l.start now) :=
  ⟨rfl, fun a ha => by simp [h.1] at ha, fun _ hb => hb⟩

theorem finish_extends (h : l.completed = none) (now : τ) : Extends l (l.finish now) :=
  ⟨rfl, fun _ ha => ha, fun b hb => by simp [h] at hb⟩

/-- The instants come in their order, and none of them lies ahead. -/
structure Ordered [LE τ] (l : Lifespan τ) (now : τ) : Prop where
  created : l.created ≤ now
  started : ∀ a, l.started = some a → l.created ≤ a ∧ a ≤ now
  completed : ∀ b, l.completed = some b → l.created ≤ b ∧ b ≤ now
  inOrder : ∀ a b, l.started = some a → l.completed = some b → a ≤ b

section Ordered

variable [Preorder τ] {now later : τ}

theorem Ordered.mono (h : l.Ordered now) (hle : now ≤ later) : l.Ordered later :=
  ⟨h.created.trans hle, fun a ha => (h.started a ha).imp_right (·.trans hle),
    fun b hb => (h.completed b hb).imp_right (·.trans hle), h.inOrder⟩

theorem Fresh.ordered (h : l.Fresh) (hcreated : l.created ≤ now) : l.Ordered now :=
  ⟨hcreated, fun a ha => by simp [h.1] at ha, fun b hb => by simp [h.2] at hb, fun a _ ha => by simp [h.1] at ha⟩

theorem Ordered.start (h : l.Ordered now) (hfresh : l.Fresh) : (l.start now).Ordered now := by
  refine ⟨h.created, fun a ha => ?_, h.completed, fun a b _ hb => ?_⟩
  · cases ha
    exact ⟨h.created, le_rfl⟩
  · have hnone : l.completed = some b := hb
    simp [hfresh.2] at hnone

theorem Ordered.finish (h : l.Ordered now) : (l.finish now).Ordered now := by
  refine ⟨h.created, h.started, fun b hb => ?_, fun a b ha hb => ?_⟩
  · cases hb
    exact ⟨h.created, le_rfl⟩
  · cases hb
    exact (h.started a ha).2

end Ordered

end Lifespan
