import WorkflowEngine.Graph
import WorkflowEngine.Validation

/-!
# Soundness of the cycle search

If the depth-first search reports no error, the graph it has searched has no cycle. The
invariant keeps the finished nodes in the order they finished: everything a finished node
depends on has finished before it, and the examined dependencies of an open frame are
finished or belong to a frame opened later.
-/
namespace WorkflowEngine

namespace Validation

/-- Newest first: every dependency of a finished node finished before it. -/
inductive Finished (deps : String → List String) : List String → Prop where
  | nil : Finished deps []
  | cons {i : String} {order : List String} (fresh : i ∉ order) (closed : ∀ d ∈ deps i, d ∈ order)
      (rest : Finished deps order) : Finished deps (i :: order)

theorem Finished.rank {deps : String → List String} {order : List String} (h : Finished deps order) :
    ∃ rank : String → Nat, (∀ i ∈ order, rank i < order.length) ∧
      ∀ i ∈ order, ∀ d ∈ deps i, rank d < rank i := by
  induction h with
  | nil => exact ⟨fun _ => 0, by simp, by simp⟩
  | @cons i order fresh closed _ ih =>
    obtain ⟨rank, hlt, hdeps⟩ := ih
    refine ⟨fun j => if j = i then order.length else rank j, ?_, ?_⟩
    · intro j hj
      by_cases he : j = i
      · simp [he]
      · have := hlt j ((List.mem_cons.1 hj).resolve_left he)
        simp only [he, if_false, List.length_cons]
        omega
    · intro j hj d hd
      by_cases he : j = i
      · subst he
        have hmem := closed d hd
        have hne : d ≠ j := fun hdj => fresh (hdj ▸ hmem)
        simpa [hne] using hlt d hmem
      · have hmem := (List.mem_cons.1 hj).resolve_left he
        by_cases hdi : d = i
        · -- a dependency of an older node is older still, so it is not the newest one
          have hold : ∀ {l}, Finished deps l → ∀ x ∈ l, ∀ y ∈ deps x, y ∈ l := by
            intro l hl
            induction hl with
            | nil => simp
            | cons _ hc _ ihl =>
              intro x hx y hy
              rcases List.mem_cons.1 hx with rfl | hx
              · exact List.mem_cons_of_mem _ (hc y hy)
              · exact List.mem_cons_of_mem _ (ihl x hx y hy)
          exact absurd (hdi ▸ hold ‹_› j hmem d hd) fresh
        · simpa [he, hdi] using hdeps j hmem d hd

namespace Search

variable {graph : Dict (List String)}

/-- The adjacency list of a node. -/
def deps (graph : Dict (List String)) (i : String) : List String := (Dict.get? graph i).getD []

/-- Open frames from the top down; `seen` holds of what is finished or opened later. -/
inductive FramesOk (graph : Dict (List String)) : (String → Prop) → List (String × Nat) → Prop where
  | nil {seen : String → Prop} : FramesOk graph seen []
  | cons {seen : String → Prop} {u : String} {k : Nat} {rest : List (String × Nat)}
      (bound : k ≤ (deps graph u).length)
      (examined : ∀ j < k, ∀ d, (deps graph u)[j]? = some d → seen d)
      (below : FramesOk graph (fun i => seen i ∨ i = u) rest) : FramesOk graph seen ((u, k) :: rest)

theorem FramesOk.mono {seen seen' : String → Prop} {frames : List (String × Nat)}
    (h : FramesOk graph seen frames) (sub : ∀ i, seen i → seen' i) : FramesOk graph seen' frames := by
  induction h generalizing seen' with
  | nil => exact .nil
  | cons bound examined _ ih =>
    exact .cons bound (fun j hj d hd => sub d (examined j hj d hd)) (ih fun i hi => hi.imp_left (sub i))

structure Invariant (graph : Dict (List String)) (s : Search) (order : List String) : Prop where
  active : s.active = s.frames.map (·.1)
  nodup : s.active.Nodup
  keys : ∀ i ∈ s.active, i ∈ graph.map (·.1)
  visited : ∀ i, i ∈ s.visited ↔ i ∈ s.active ∨ i ∈ order
  disjoint : ∀ i ∈ s.active, i ∉ order
  finished : Finished (deps graph) order
  frames : FramesOk graph (· ∈ order) s.frames

theorem enter_invariant {s : Search} {order : List String} (h : Invariant graph s order) {i : String}
    (hi : i ∉ s.visited) (hkey : i ∈ graph.map (·.1)) (position : Nat)
    (hframes : FramesOk graph (fun x => x ∈ order ∨ x = i) s.frames) :
    Invariant graph (s.enter i position) order := by
  have hnot := mt (h.visited i).2 hi
  push Not at hnot
  refine ⟨by simp [enter, h.active], ?_, ?_, ?_, ?_, h.finished, .cons (by simp) (by simp) hframes⟩
  · exact List.nodup_cons.2 ⟨hnot.1, h.nodup⟩
  · intro j hj
    rcases List.mem_cons.1 hj with rfl | hj
    · exact hkey
    · exact h.keys j hj
  · intro j
    simp [enter, h.visited j, or_assoc]
  · intro j hj
    rcases List.mem_cons.1 hj with rfl | hj
    · exact hnot.2
    · exact h.disjoint j hj

/-- The nodes not visited yet, each with its edges. -/
def unvisited (graph : Dict (List String)) (visited : List String) : Nat :=
  ((graph.filter fun m => decide (m.1 ∉ visited)).map fun m => m.2.length + 1).sum

/-- Work left: the unvisited nodes and edges, and the unexamined edges of open frames. -/
def remaining (graph : Dict (List String)) (s : Search) : Nat :=
  unvisited graph s.visited + (s.frames.map fun f => (deps graph f.1).length + 1 - f.2).sum

theorem unvisited_enter (visited : List String) {i : String} (hnodup : (graph.map (·.1)).Nodup)
    (hi : i ∉ visited) (hkey : i ∈ graph.map (·.1)) :
    unvisited graph (i :: visited) + ((deps graph i).length + 1) = unvisited graph visited := by
  unfold unvisited
  induction graph with
  | nil => simp at hkey
  | cons m graph ih =>
    simp only [List.map_cons, List.nodup_cons] at hnodup
    by_cases hm : m.1 = i
    · have hrest : ∀ p ∈ graph, p.1 ≠ i := fun p hp he => hnodup.1 (hm ▸ he ▸ List.mem_map_of_mem hp)
      have hfilter : (graph.filter fun m => decide (m.1 ∉ i :: visited)) =
          graph.filter fun m => decide (m.1 ∉ visited) := by
        apply List.filter_congr
        intro p hp
        simp [hrest p hp]
      have hdeps : deps (m :: graph) i = m.2 := by simp [deps, Dict.get?, hm]
      rw [List.filter_cons, List.filter_cons, hfilter, hdeps]
      simp [hm, hi]
      omega
    · have hkey' : i ∈ graph.map (·.1) := by
        rcases List.mem_cons.1 hkey with h | h
        · exact absurd h.symm hm
        · exact h
      have hdeps : deps (m :: graph) i = deps graph i := by simp [deps, Dict.get?, hm]
      have := ih hnodup.2 hkey'
      rw [hdeps]
      by_cases hv : m.1 ∈ visited
      · simp_all
      · simp_all
        omega

theorem unvisited_le (graph : Dict (List String)) (visited : List String) :
    unvisited graph visited ≤ (graph.map fun m => m.2.length + 1).sum := by
  unfold unvisited
  induction graph with
  | nil => simp
  | cons m graph ih =>
    rw [List.filter_cons]
    split
    · simpa using ih
    · simp only [List.map_cons, List.sum_cons]
      omega

theorem enter_remaining {s : Search} {i : String} (hnodup : (graph.map (·.1)).Nodup)
    (hi : i ∉ s.visited) (hkey : i ∈ graph.map (·.1)) (position : Nat) :
    remaining graph (s.enter i position) = remaining graph s := by
  have := unvisited_enter s.visited hnodup hi hkey
  simp only [remaining, enter, List.map_cons, List.sum_cons, Nat.sub_zero]
  omega

section Rounds

variable {s t : Search} {order : List String} {u : String} {k : Nat} {rest : List (String × Nat)}

/-- What one round does with the open frame of `u`. -/
inductive Round (graph : Dict (List String)) (s : Search) (u : String) (k : Nat) (rest : List (String × Nat)) :
    Search → Prop where
  | closes (hnone : (deps graph u)[k]? = none) (hopen : u ∈ s.active) : Round graph s u k rest
      { s with
        frames := rest
        active := s.active.erase u
        stackIndex := s.stackIndex.filter fun m => decide (m.1 ≠ u)
        traversal := s.traversal.dropLast }
  | reports {d : String} {start : Nat} (hd : (deps graph u)[k]? = some d) (hopen : d ∈ s.active)
      (hstart : Dict.get? s.stackIndex d = some start) : Round graph s u k rest
      { s with frames := (u, k + 1) :: rest, errors := s.errors ++ [s.cycleError u d start] }
  | skips {d : String} (hd : (deps graph u)[k]? = some d) (hnot : d ∉ s.active)
      (hseen : Dict.has graph d = false ∨ d ∈ s.visited) :
      Round graph s u k rest { s with frames := (u, k + 1) :: rest }
  | enters {d : String} (hd : (deps graph u)[k]? = some d) (hfresh : d ∉ s.visited) : Round graph s u k rest
      ({ s with frames := (u, k + 1) :: rest }.enter d s.traversal.length)

theorem advance_round (hstep : s.advance graph u k rest = .ok t) : Round graph s u k rest t := by
  cases hds : Dict.get? graph u with
  | none => simp [advance, hds] at hstep
  | some ds =>
    have hdeps : deps graph u = ds := by simp [deps, hds]
    simp only [advance, hds] at hstep
    cases hd : ds[k]? with
    | none =>
      simp only [hd] at hstep
      split at hstep
      · rename_i hopen
        cases hstep
        exact .closes (hdeps ▸ hd) hopen
      · cases hstep
    | some d =>
      simp only [hd] at hstep
      split at hstep
      · rename_i hopen
        split at hstep
        · cases hstep
        · rename_i hstart
          cases hstep
          exact .reports (hdeps ▸ hd) hopen hstart
      · rename_i hnot
        split at hstep
        · rename_i hseen
          cases hstep
          exact .skips (hdeps ▸ hd) hnot hseen
        · rename_i hseen
          push Not at hseen
          cases hstep
          exact .enters (hdeps ▸ hd) hseen.2

theorem Round.errors (h : Round graph s u k rest t) : s.errors <+: t.errors := by
  cases h with
  | closes => exact List.prefix_rfl
  | reports => exact List.prefix_append _ _
  | skips => exact List.prefix_rfl
  | enters => exact List.prefix_rfl

theorem Round.visited (h : Round graph s u k rest t) {i : String} (hi : i ∈ s.visited) : i ∈ t.visited := by
  cases h with
  | closes => exact hi
  | reports => exact hi
  | skips => exact hi
  | enters => exact List.mem_cons_of_mem _ hi

/-- Every round takes one unit of the work that is left. -/
theorem Round.remaining (h : Round graph s u k rest t) (hnodup : (graph.map (·.1)).Nodup)
    (hedges : ∀ d ∈ deps graph u, d ∈ graph.map (·.1)) (hframes : s.frames = (u, k) :: rest)
    (hbound : k ≤ (deps graph u).length) : remaining graph t < remaining graph s := by
  have hlook : ∀ {d}, (deps graph u)[k]? = some d →
      Search.remaining graph { s with frames := (u, k + 1) :: rest } < Search.remaining graph s := by
    intro d hd
    have hlt := (List.getElem?_eq_some_iff.1 hd).1
    simp only [Search.remaining, hframes, List.map_cons, List.sum_cons]
    omega
  cases h with
  | closes =>
    simp only [Search.remaining, hframes, List.map_cons, List.sum_cons]
    omega
  | reports hd => exact hlook hd
  | skips hd => exact hlook hd
  | enters hd hfresh =>
    rw [enter_remaining (s := { s with frames := (u, k + 1) :: rest }) hnodup hfresh
      (hedges _ (List.mem_of_getElem? hd))]
    exact hlook hd

/-- The frame is finished: its node closes the order, all its dependencies having closed before. -/
theorem close_invariant (h : Invariant graph s order) (hframes : s.frames = (u, k) :: rest)
    (hnone : (deps graph u)[k]? = none) (stackIndex : Dict Nat) (traversal : List String) :
    Invariant graph
      { s with frames := rest, active := s.active.erase u, stackIndex := stackIndex, traversal := traversal }
      (u :: order) := by
  have hactive : s.active = u :: rest.map (·.1) := by simp [h.active, hframes]
  have hu : u ∈ s.active := by simp [hactive]
  have hfresh := List.nodup_cons.1 (hactive ▸ h.nodup)
  have hok := h.frames
  rw [hframes] at hok
  obtain _ | ⟨bound, examined, below⟩ := hok
  refine ⟨by simp [hactive], by simpa [hactive] using hfresh.2, ?_, ?_, ?_, ?_, ?_⟩
  · intro i hi
    exact h.keys i (List.mem_of_mem_erase hi)
  · intro i
    simp only [h.visited i, hactive, List.erase_cons_head, List.mem_cons]
    tauto
  · intro i hi
    have hne : i ≠ u := by
      rintro rfl
      exact hfresh.1 (by simpa [hactive] using hi)
    simp [hne, h.disjoint i (List.mem_of_mem_erase hi)]
  · refine .cons (h.disjoint u hu) (fun d hd => ?_) h.finished
    obtain ⟨j, hj⟩ := List.mem_iff_getElem?.1 hd
    have hlen := List.getElem?_eq_none_iff.1 hnone
    have hjlt := (List.getElem?_eq_some_iff.1 hj).1
    exact examined j (by omega) d hj
  · exact below.mono fun i hi => by simpa [or_comm] using hi

/-- One round keeps the invariant, unless it reports. -/
theorem Round.invariant (hround : Round graph s u k rest t)
    (hedges : ∀ i ∈ graph.map (·.1), ∀ d ∈ deps graph i, d ∈ graph.map (·.1))
    (h : Invariant graph s order) (hframes : s.frames = (u, k) :: rest) (ht : t.errors = []) :
    ∃ order', Invariant graph t order' := by
  have hactive : s.active = u :: rest.map (·.1) := by simp [h.active, hframes]
  have hukey := h.keys u (by simp [hactive])
  have hok := h.frames
  rw [hframes] at hok
  obtain _ | ⟨bound, examined, below⟩ := hok
  have hnext : ∀ {d}, (deps graph u)[k]? = some d → ∀ seen : String → Prop, (∀ i ∈ order, seen i) → seen d →
      ∀ j < k + 1, ∀ d', (deps graph u)[j]? = some d' → seen d' := by
    intro d hd seen hseen hdseen j hj d' hd'
    by_cases hjk : j = k
    · rw [hjk, hd] at hd'
      exact Option.some.inj hd' ▸ hdseen
    · exact hseen d' (examined j (by omega) d' hd')
  cases hround with
  | closes hnone => exact ⟨u :: order, close_invariant h hframes hnone _ _⟩
  | reports => exact absurd ht (by simp)
  | @skips d hd hnot hseen =>
    have hkey := hedges u hukey d (List.mem_of_getElem? hd)
    have hdorder : d ∈ order := by
      rcases hseen with hg | hv
      · exact absurd ((Dict.has_iff graph d).2 hkey) (by simp [hg])
      · exact ((h.visited d).1 hv).resolve_left hnot
    exact ⟨order, by simp [hactive], h.nodup, h.keys, h.visited, h.disjoint, h.finished,
      .cons (List.getElem?_eq_some_iff.1 hd).1 (hnext hd _ (fun i hi => hi) hdorder) below⟩
  | @enters d hd hfresh =>
    have hlt := (List.getElem?_eq_some_iff.1 hd).1
    have hbelow : FramesOk graph (fun i => (i ∈ order ∨ i = d) ∨ i = u) rest := below.mono fun i hi => hi.imp_left .inl
    have hopen : Invariant graph { s with frames := (u, k) :: rest } order := by
      rw [← hframes]
      exact h
    have hd' := enter_invariant hopen hfresh (hedges u hukey d (List.mem_of_getElem? hd)) s.traversal.length
      (.cons bound (fun j hj x hx => .inl (examined j hj x hx)) hbelow)
    exact ⟨order, { hd' with
      active := by simp [enter, hactive]
      frames := .cons (by simp) (by simp) (.cons hlt (hnext hd _ (fun i hi => .inl hi) (.inr rfl)) hbelow) }⟩

end Rounds

theorem loop_errors (rounds : Nat) : ∀ {s t : Search}, loop graph rounds s = .ok t → s.errors <+: t.errors := by
  induction rounds with
  | zero =>
    intro s t h
    cases h
    exact List.prefix_rfl
  | succ rounds ih =>
    intro s t h
    simp only [loop] at h
    split at h
    · cases h
      exact List.prefix_rfl
    · rename_i u k rest _
      simp only [bind, Except.bind] at h
      cases hstep : s.advance graph u k rest with
      | error e => simp [hstep] at h
      | ok s₁ =>
        simp only [hstep] at h
        exact (advance_round hstep).errors.trans (ih h)

theorem foldlM_errors (starts : List String) :
    ∀ {s t : Search}, starts.foldlM (fromStart graph) s = .ok t → s.errors <+: t.errors := by
  induction starts with
  | nil =>
    intro s t h
    cases h
    exact List.prefix_rfl
  | cons i starts ih =>
    intro s t h
    simp only [List.foldlM_cons, bind, Except.bind] at h
    cases hstep : fromStart graph s i with
    | error e => simp [hstep] at h
    | ok s₁ =>
      simp only [hstep] at h
      refine List.IsPrefix.trans ?_ (ih h)
      unfold fromStart at hstep
      split at hstep
      · cases hstep
        exact List.prefix_rfl
      · have henter := loop_errors _ hstep
        exact henter

theorem loop_spec (hnodup : (graph.map (·.1)).Nodup)
    (hedges : ∀ i ∈ graph.map (·.1), ∀ d ∈ deps graph i, d ∈ graph.map (·.1)) :
    ∀ (rounds : Nat) {s t : Search} {order : List String}, Invariant graph s order →
      remaining graph s ≤ rounds → loop graph rounds s = .ok t → t.errors = [] →
      t.frames = [] ∧ (∃ order', Invariant graph t order') ∧ ∀ i ∈ s.visited, i ∈ t.visited := by
  intro rounds
  induction rounds with
  | zero =>
    intro s t order h hfuel hloop _
    cases hloop
    refine ⟨?_, ⟨order, h⟩, fun i hi => hi⟩
    cases hf : s.frames with
    | nil => rfl
    | cons f rest =>
      have hok := h.frames
      rw [hf] at hok
      obtain _ | ⟨bound, -, -⟩ := hok
      simp only [remaining, hf, List.map_cons, List.sum_cons] at hfuel
      omega
  | succ rounds ih =>
    intro s t order h hfuel hloop ht
    cases hf : s.frames with
    | nil =>
      simp only [loop, hf, Except.ok.injEq] at hloop
      subst hloop
      exact ⟨hf, ⟨order, h⟩, fun i hi => hi⟩
    | cons f rest =>
      obtain ⟨u, k⟩ := f
      simp only [loop, hf, bind, Except.bind] at hloop
      cases hstep : s.advance graph u k rest with
      | error e => simp [hstep] at hloop
      | ok s₁ =>
        simp only [hstep] at hloop
        have hround := advance_round hstep
        have hbound : k ≤ (deps graph u).length := by
          have hok := h.frames
          rw [hf] at hok
          obtain _ | ⟨bound, -, -⟩ := hok
          exact bound
        have hu : u ∈ s.active := by simp [h.active, hf]
        have hless := hround.remaining hnodup (hedges u (h.keys u hu)) hf hbound
        -- what was reported in this round would still be there at the end
        have he : s₁.errors = [] := List.prefix_nil.1 (ht ▸ loop_errors rounds hloop)
        obtain ⟨order₁, h₁⟩ := hround.invariant hedges h hf he
        obtain ⟨hframes, hinv, hvis⟩ := ih h₁ (by omega) hloop ht
        exact ⟨hframes, hinv, fun i hi => hvis i (hround.visited hi)⟩

/-- Between two starts: no open frame, and everything visited is finished. -/
structure Settled (graph : Dict (List String)) (s : Search) : Prop where
  frames : s.frames = []
  invariant : ∃ order, Invariant graph s order

theorem fromStart_spec (hnodup : (graph.map (·.1)).Nodup)
    (hedges : ∀ i ∈ graph.map (·.1), ∀ d ∈ deps graph i, d ∈ graph.map (·.1)) {s t : Search} {i : String}
    (hi : i ∈ graph.map (·.1)) (h : Settled graph s) (hstep : fromStart graph s i = .ok t) (ht : t.errors = []) :
    Settled graph t ∧ i ∈ t.visited ∧ ∀ j ∈ s.visited, j ∈ t.visited := by
  unfold fromStart at hstep
  obtain ⟨order, hinv⟩ := h.invariant
  split at hstep
  · rename_i hv
    cases hstep
    exact ⟨h, hv, fun j hj => hj⟩
  · rename_i hv
    have henter := enter_invariant hinv hv hi 0 (by rw [h.frames]; exact .nil)
    have hfuel : remaining graph (s.enter i 0) ≤ rounds graph := by
      rw [enter_remaining hnodup hv hi]
      simp only [remaining, h.frames, List.map_nil, List.sum_nil, Nat.add_zero, unvisited, rounds]
      exact unvisited_le graph s.visited
    obtain ⟨hframes, hinv', hvis⟩ := loop_spec hnodup hedges _ henter hfuel hstep ht
    exact ⟨⟨hframes, hinv'⟩, hvis i (by simp [enter]), fun j hj => hvis j (by simp [enter, hj])⟩

theorem foldlM_fromStart (hnodup : (graph.map (·.1)).Nodup)
    (hedges : ∀ i ∈ graph.map (·.1), ∀ d ∈ deps graph i, d ∈ graph.map (·.1)) (starts : List String) :
    ∀ {s t : Search}, (∀ i ∈ starts, i ∈ graph.map (·.1)) → Settled graph s →
      starts.foldlM (fromStart graph) s = .ok t → t.errors = [] →
      Settled graph t ∧ (∀ i ∈ starts, i ∈ t.visited) ∧ ∀ j ∈ s.visited, j ∈ t.visited := by
  induction starts with
  | nil =>
    intro s t _ h hfold _
    cases hfold
    exact ⟨h, by simp, fun j hj => hj⟩
  | cons i starts ih =>
    intro s t hkeys h hfold ht
    simp only [List.foldlM_cons, bind, Except.bind] at hfold
    cases hstep : fromStart graph s i with
    | error e => simp [hstep] at hfold
    | ok s₁ =>
      simp only [hstep] at hfold
      have he : s₁.errors = [] := List.prefix_nil.1 (ht ▸ foldlM_errors starts hfold)
      obtain ⟨h₁, hi, hvis⟩ := fromStart_spec hnodup hedges (hkeys i (by simp)) h hstep he
      obtain ⟨h₂, hstarts, hvis'⟩ := ih (fun j hj => hkeys j (by simp [hj])) h₁ hfold ht
      refine ⟨h₂, ?_, fun j hj => hvis' j (hvis j hj)⟩
      intro j hj
      rcases List.mem_cons.1 hj with rfl | hj
      · exact hvis' _ hi
      · exact hstarts j hj

/-- A search from every node that reports nothing proves the graph acyclic. -/
theorem acyclic (hnodup : (graph.map (·.1)).Nodup)
    (hedges : ∀ i ∈ graph.map (·.1), ∀ d ∈ deps graph i, d ∈ graph.map (·.1)) {t : Search}
    (hfold : (graph.map (·.1)).foldlM (fromStart graph) ⟨[], [], [], [], [], []⟩ = .ok t)
    (ht : t.errors = []) :
    ∃ rank : String → Nat, ∀ i ∈ graph.map (·.1), ∀ d ∈ deps graph i, rank d < rank i := by
  have hstart : Settled graph ⟨[], [], [], [], [], []⟩ :=
    ⟨rfl, [], ⟨rfl, by simp, by simp, by simp, by simp, .nil, .nil⟩⟩
  obtain ⟨h, hvis, -⟩ := foldlM_fromStart hnodup hedges _ (fun i hi => hi) hstart hfold ht
  obtain ⟨order, hinv⟩ := h.invariant
  obtain ⟨rank, -, hrank⟩ := hinv.finished.rank
  refine ⟨rank, fun i hi => hrank i ?_⟩
  have hactive : t.active = [] := by simp [hinv.active, h.frames]
  simpa [hactive] using (hinv.visited i).1 (hvis i hi)

end Search

end Validation

end WorkflowEngine
