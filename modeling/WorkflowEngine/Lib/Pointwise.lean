import Mathlib.Data.List.Forall2

/-!
# Maps that may fail

A `mapM` over a list returns when it returns at every element, and then its results stand in
the order of the elements.
-/

namespace Pointwise

variable {α β ε : Type}

theorem mapM_eq_some {f : α → Option β} {l : List α} {r : List β} :
    l.mapM f = some r ↔ List.Forall₂ (fun a b => f a = some b) l r := by
  induction l generalizing r with
  | nil => simp [eq_comm]
  | cons a l ih =>
    rw [List.mapM_cons, List.forall₂_cons_left_iff]
    constructor
    · intro h
      obtain ⟨b, hb, h⟩ := Option.bind_eq_some_iff.1 h
      obtain ⟨s, hs, h⟩ := Option.bind_eq_some_iff.1 h
      exact ⟨b, s, hb, ih.1 hs, (Option.some.inj h).symm⟩
    · rintro ⟨b, s, hb, hs, rfl⟩
      simp [hb, ih.2 hs]

theorem mapM_eq_ok {f : α → Except ε β} {l : List α} {r : List β} :
    l.mapM f = .ok r ↔ List.Forall₂ (fun a b => f a = .ok b) l r := by
  induction l generalizing r with
  | nil => simp [pure, Except.pure, eq_comm]
  | cons a l ih =>
    rw [List.mapM_cons, List.forall₂_cons_left_iff]
    constructor
    · intro h
      cases ha : f a with
      | error e => simp [ha, bind, Except.bind] at h
      | ok b =>
        cases hl : l.mapM f with
        | error e => simp [ha, hl, bind, Except.bind] at h
        | ok s =>
          simp only [ha, hl, bind, Except.bind, pure, Except.pure, Except.ok.injEq] at h
          exact ⟨b, s, rfl, ih.1 hl, h.symm⟩
    · rintro ⟨b, s, hb, hs, rfl⟩
      simp [hb, ih.2 hs, bind, Except.bind, pure, Except.pure]

theorem exists_forall₂ {R : α → β → Prop} {l : List α} : (∃ r, List.Forall₂ R l r) ↔ ∀ a ∈ l, ∃ b, R a b := by
  induction l with
  | nil => simp
  | cons a l ih => simp [List.forall₂_cons_left_iff, ← ih]

theorem of_mem_left {R : α → β → Prop} {l : List α} {r : List β} (h : List.Forall₂ R l r) {a : α} (ha : a ∈ l) :
    ∃ b ∈ r, R a b := by
  induction h with
  | nil => simp at ha
  | cons hab _ ih =>
    rcases List.mem_cons.1 ha with rfl | ha
    · exact ⟨_, by simp, hab⟩
    · obtain ⟨b, hb, hR⟩ := ih ha
      exact ⟨b, by simp [hb], hR⟩

theorem of_mem_right {R : α → β → Prop} {l : List α} {r : List β} (h : List.Forall₂ R l r) {b : β} (hb : b ∈ r) :
    ∃ a ∈ l, R a b :=
  of_mem_left h.flip hb

/-- Two lists that go along with a third go along with each other. -/
theorem through {γ : Type} {R : α → β → Prop} {S : α → γ → Prop} {T : β → γ → Prop} {l : List α}
    {r : List β} {s : List γ} (h : List.Forall₂ R l r) (h' : List.Forall₂ S l s)
    (hT : ∀ a b c, R a b → S a c → T b c) : List.Forall₂ T r s := by
  induction h generalizing s with
  | nil =>
    cases h'
    exact .nil
  | cons hab _ ih =>
    cases h' with
    | cons hac hrest => exact .cons (hT _ _ _ hab hac) (ih hrest)

end Pointwise
