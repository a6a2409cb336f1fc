import Mathlib.Algebra.Order.BigOperators.Group.List
import Mathlib.Algebra.Order.Ring.Nat
import Mathlib.Data.Finset.Card
import Mathlib.Logic.Function.Iterate
import Mathlib.Logic.Relation

/-!
# Ranked dependencies

A finite list of elements whose dependencies stay in the list and have a smaller rank. Every
element rests on one without dependencies, supports one that nothing depends on, and among the
elements with some property there is one none of whose dependencies has it. What is computed of
each element from its dependencies is computed of all in as many rounds as there are elements.
-/

/-- The dependencies of every element of `N` are in `N` and rank below it. -/
def Ranked {ι : Type} (N : List ι) (deps : ι → ι → Prop) (rank : ι → Nat) : Prop :=
  ∀ n ∈ N, ∀ d, deps n d → d ∈ N ∧ rank d < rank n

namespace Ranked

variable {ι : Type} {N : List ι} {deps : ι → ι → Prop} {rank : ι → Nat}

theorem mem_of_reaches (h : Ranked N deps rank) {n d : ι} (hn : n ∈ N) (hd : Relation.TransGen deps n d) :
    d ∈ N ∧ rank d < rank n := by
  induction hd with
  | single hdep => exact h n hn _ hdep
  | tail _ hdep ih =>
    obtain ⟨hmem, hlt⟩ := h _ ih.1 _ hdep
    exact ⟨hmem, hlt.trans ih.2⟩

/-- There is no cycle. -/
theorem acyclic (h : Ranked N deps rank) {n : ι} (hn : n ∈ N) : ¬ Relation.TransGen deps n n := by
  intro hd
  exact lt_irrefl _ (h.mem_of_reaches hn hd).2

/-- Dependencies without a cycle can be ranked, by the number of elements they reach. -/
theorem of_acyclic (hdeps : ∀ n ∈ N, ∀ d, deps n d → d ∈ N) (hacyclic : ∀ n, ¬ Relation.TransGen deps n n) :
    ∃ rank, Ranked N deps rank := by
  classical
  refine ⟨fun n => (N.toFinset.filter fun d => Relation.TransGen deps n d).card,
    fun n hn d hd => ⟨hdeps n hn d hd, ?_⟩⟩
  refine Finset.card_lt_card ⟨fun m hm => ?_, fun hsub => ?_⟩
  · rw [Finset.mem_filter] at hm ⊢
    exact ⟨hm.1, .head hd hm.2⟩
  · have hself : d ∈ N.toFinset.filter fun d => Relation.TransGen deps n d :=
      Finset.mem_filter.2 ⟨List.mem_toFinset.2 (hdeps n hn d hd), .single hd⟩
    exact hacyclic d (Finset.mem_filter.1 (hsub hself)).2

/-- Of the elements with a property, one has no dependency with it. -/
theorem minimal (h : Ranked N deps rank) {P : ι → Prop} {n : ι} (hn : n ∈ N) (hp : P n) :
    ∃ m ∈ N, P m ∧ ∀ d, deps m d → ¬ P d := by
  suffices hall : ∀ k, ∀ n ∈ N, rank n = k → P n → ∃ m ∈ N, P m ∧ ∀ d, deps m d → ¬ P d from
    hall _ n hn rfl hp
  intro k
  induction k using Nat.strong_induction_on with
  | _ k ih =>
    intro n hn hk hp
    by_cases hd : ∃ d, deps n d ∧ P d
    · obtain ⟨d, hdep, hpd⟩ := hd
      obtain ⟨hmem, hlt⟩ := h n hn d hdep
      exact ih (rank d) (hk ▸ hlt) d hmem rfl hpd
    · push Not at hd
      exact ⟨n, hn, hp, hd⟩

/-- Going on along `r` as long as the measure shrinks ends somewhere. -/
theorem walk {r : ι → ι → Prop} {stop : ι → Prop} (measure : ι → Nat)
    (next : ∀ n ∈ N, stop n ∨ ∃ m ∈ N, r n m ∧ measure m < measure n) {n : ι} (hn : n ∈ N) :
    ∃ m ∈ N, stop m ∧ Relation.ReflTransGen r n m := by
  induction hk : measure n using Nat.strong_induction_on generalizing n with
  | _ k ih =>
    rcases next n hn with hstop | ⟨m, hm, hr, hlt⟩
    · exact ⟨n, hn, hstop, .refl⟩
    · obtain ⟨t, ht, hstop, hreach⟩ := ih (measure m) (hk ▸ hlt) hm rfl
      exact ⟨t, ht, hstop, .head hr hreach⟩

/-- Every element rests on one without dependencies. -/
theorem source (h : Ranked N deps rank) {n : ι} (hn : n ∈ N) :
    ∃ m ∈ N, (∀ d, ¬ deps m d) ∧ Relation.ReflTransGen deps n m := by
  refine walk rank (fun n hn => ?_) hn
  by_cases hd : ∃ d, deps n d
  · obtain ⟨d, hdep⟩ := hd
    obtain ⟨hmem, hlt⟩ := h n hn d hdep
    exact .inr ⟨d, hmem, hdep, hlt⟩
  · push Not at hd
    exact .inl hd

/-- Every element supports one that nothing in the list depends on. -/
theorem sink (h : Ranked N deps rank) {n : ι} (hn : n ∈ N) :
    ∃ m ∈ N, (∀ k ∈ N, ¬ deps k m) ∧ Relation.ReflTransGen (Function.swap deps) n m := by
  have hbound : ∀ m ∈ N, rank m ≤ (N.map rank).sum := fun m hm =>
    List.single_le_sum (fun _ _ => Nat.zero_le _) _ (List.mem_map_of_mem hm)
  refine walk (fun m => (N.map rank).sum - rank m) (fun n hn => ?_) hn
  by_cases hd : ∃ m ∈ N, deps m n
  · obtain ⟨m, hm, hdep⟩ := hd
    have hlt := (h m hm n hdep).2
    have hle := hbound m hm
    exact .inr ⟨m, hm, hdep, by omega⟩
  · push Not at hd
    exact .inl hd

/-! ## Evaluation along the dependencies -/

/-- The ranks may be taken below the number of elements. -/
theorem bounded (h : Ranked N deps rank) : ∃ rank', Ranked N deps rank' ∧ ∀ n ∈ N, rank' n < N.length := by
  classical
  refine ⟨fun n => (N.toFinset.filter fun d => rank d < rank n).card, fun n hn d hd => ?_, fun n hn => ?_⟩
  · obtain ⟨hmem, hlt⟩ := h n hn d hd
    refine ⟨hmem, Finset.card_lt_card ⟨fun m hm => ?_, fun hsub => ?_⟩⟩
    · rw [Finset.mem_filter] at hm ⊢
      exact ⟨hm.1, hm.2.trans hlt⟩
    · have hself : d ∈ N.toFinset.filter fun m => rank m < rank n :=
        Finset.mem_filter.2 ⟨List.mem_toFinset.2 hmem, hlt⟩
      exact lt_irrefl _ (Finset.mem_filter.1 (hsub hself)).2
  · have hproper : N.toFinset.filter (fun d => rank d < rank n) ⊂ N.toFinset :=
      ⟨Finset.filter_subset _ _, fun hsub => lt_irrefl _ (Finset.mem_filter.1 (hsub (List.mem_toFinset.2 hn))).2⟩
    exact (Finset.card_lt_card hproper).trans_le (List.toFinset_card_le N)

/-- The value of an element is computed from those of its dependencies. -/
def Local {β : Type} (N : List ι) (deps : ι → ι → Prop) (F : (ι → β) → ι → β) : Prop :=
  ∀ n ∈ N, ∀ f g, (∀ d, deps n d → f d = g d) → F f n = F g n

variable {β : Type} {F : (ι → β) → ι → β}

/-- A value does not change any more once there were more rounds than its rank. -/
theorem iterate_stable (h : Ranked N deps rank) (hF : Local N deps F) (start : ι → β) :
    ∀ k, ∀ n ∈ N, rank n < k → F^[k + 1] start n = F^[k] start n := by
  intro k
  induction k with
  | zero => exact fun n _ hlt => absurd hlt (Nat.not_lt_zero _)
  | succ k ih =>
    intro n hn hlt
    simp only [Function.iterate_succ_apply'] at ih ⊢
    refine hF n hn _ _ fun d hd => ?_
    obtain ⟨hmem, hdlt⟩ := h n hn d hd
    exact ih d hmem (by omega)

/-- As many rounds as there are elements evaluate all of them. -/
theorem iterate_fixed (h : Ranked N deps rank) (hF : Local N deps F) (start : ι → β) :
    ∀ n ∈ N, F (F^[N.length] start) n = F^[N.length] start n := by
  obtain ⟨rank', hranked, hlt⟩ := h.bounded
  intro n hn
  rw [← Function.iterate_succ_apply' F]
  exact hranked.iterate_stable hF start N.length n hn (hlt n hn)

end Ranked
