import WorkflowEngine.Traversal

/-!
# Schedules

The pure evaluations of readiness and blocking, driven by an arbitrary schedule: at every step
some of the ready or running nodes move, and each failure is propagated before the next node
moves. No schedule of an accepted workflow stalls, makes a node ready twice or starts a node
before its dependencies.
-/
namespace WorkflowEngine

variable {w : Workflow} {st : StatusMap} {i j : String}

/-- No pending node has a failed dependency. -/
def Propagated (w : Workflow) (st : StatusMap) : Prop :=
  ∀ i d, w.DependsOn i d → st.of i = .pending → st.of d ≠ .failed

/-- Of the pending nodes, one with no pending dependency is ready unless a dependency is running. -/
theorem ready_or_running (h : w.WellFormed) (hprop : Propagated w st) (hi : i ∈ w.nodeIds) (hp : st.of i = .pending) :
    (∃ j ∈ w.nodeIds, st.of j = .running) ∨ evaluateReadyNodeIds w st ≠ [] := by
  obtain ⟨rank, hranked⟩ := h.ranked
  obtain ⟨m, hm, hpm, hdeps⟩ := hranked.minimal (P := fun i => st.of i = .pending) hi hp
  obtain ⟨n, hn, rfl⟩ := Workflow.mem_nodeIds.1 hm
  by_cases hrun : ∃ d ∈ n.dependencies, st.of d = .running
  · obtain ⟨d, hd, hrun⟩ := hrun
    exact .inl ⟨d, h.known n hn d hd, hrun⟩
  · push Not at hrun
    refine .inr (List.ne_nil_of_mem (a := n.id) (mem_evaluateReadyNodeIds.2 ⟨n, hn, rfl, hpm, fun d hd => ?_⟩))
    have hdep : w.DependsOn n.id d := ⟨n, hn, rfl, hd⟩
    cases hst : st.of d with
    | completed => rfl
    | pending => exact absurd hst (hdeps d hdep)
    | running => exact absurd hst (hrun d hd)
    | failed => exact absurd hst (hprop n.id d hdep hpm)

/-- What a scheduled node does. -/
inductive Move where
  | run | complete | fail
  deriving DecidableEq, Repr

def Move.status : Move → NodeExecutionStatus
  | .run => .running
  | .complete => .completed
  | .fail => .failed

def StatusMap.put (st : StatusMap) (i : String) (status : NodeExecutionStatus) : StatusMap :=
  fun j => if j = i then some status else st j

@[simp] theorem put_of (status : NodeExecutionStatus) :
    (st.put i status).of j = if j = i then status else st.of j := by
  by_cases h : j = i
  · simp [StatusMap.put, StatusMap.of, h]
  · simp [StatusMap.put, StatusMap.of, h]

/-- The statuses after one node has moved. -/
def settle (w : Workflow) (st : StatusMap) (i : String) : Move → Except PyError StatusMap
  | .run => .ok (st.put i .running)
  | .complete => .ok (st.put i .completed)
  | .fail => do
    let ids ← evaluateFailedDependencyNodeIds w (st.put i .failed)
    return (st.put i .failed).markFailed ids

/-- The node is ready, or running and about to end. -/
def Movable (w : Workflow) (st : StatusMap) (a : String × Move) : Prop :=
  a.1 ∈ evaluateReadyNodeIds w st ∨ (a.1 ∈ w.nodeIds ∧ st.of a.1 = .running ∧ a.2 ≠ .run)

/-- What started has completed dependencies, and failures are propagated. -/
structure Orderly (w : Workflow) (st : StatusMap) : Prop where
  propagated : Propagated w st
  started : ∀ i d, w.DependsOn i d → st.of i = .running ∨ st.of i = .completed → st.of d = .completed

theorem Movable.mem {a : String × Move} (h : Movable w st a) : a.1 ∈ w.nodeIds := by
  rcases h with h | ⟨h, -⟩
  · obtain ⟨n, hn, hid, -⟩ := mem_evaluateReadyNodeIds.1 h
    exact Workflow.mem_nodeIds.2 ⟨n, hn, hid⟩
  · exact h

theorem Movable.not_ended {a : String × Move} (h : Movable w st a) : st.of a.1 = .pending ∨ st.of a.1 = .running := by
  rcases h with h | ⟨-, h, -⟩
  · obtain ⟨-, -, -, hp, -⟩ := mem_evaluateReadyNodeIds.1 h
    exact .inl hp
  · exact .inr h

theorem Movable.completed (hw : w.WellFormed) (ho : Orderly w st) {a : String × Move} (h : Movable w st a) {d : String}
    (hd : w.DependsOn a.1 d) : st.of d = .completed := by
  rcases h with h | ⟨-, h, -⟩
  · obtain ⟨n, hn, hid, -, hdeps⟩ := mem_evaluateReadyNodeIds.1 h
    exact hdeps d ((hw.dependsOn_iff hn).1 (hid ▸ hd))
  · exact ho.started _ d hd (.inl h)

/-- What one move does to the other nodes: nothing, or it fails a pending node that is not ready. -/
structure Moves (w : Workflow) (st : StatusMap) (a : String × Move) (st' : StatusMap) : Prop where
  self : st'.of a.1 = a.2.status
  others : ∀ j, j ≠ a.1 → st'.of j = st.of j ∨
    (st.of j = .pending ∧ st'.of j = .failed ∧ ∃ d, w.DependsOn j d ∧ st.of d ≠ .completed)
  orderly : Orderly w st'

section Settling

variable {a : String × Move} {st' : StatusMap}

theorem Movable.not_completed (h : Movable w st a) : st.of a.1 ≠ .completed := by
  rcases h.not_ended with h | h
  · simp [h]
  · simp [h]

/-- What started keeps its completed dependencies when a node that has not completed gets a status. -/
theorem Orderly.started_put (ho : Orderly w st) (hnot : st.of i ≠ .completed)
    {status : NodeExecutionStatus} {d : String} (hd : w.DependsOn j d)
    (hj : st.of j = .running ∨ st.of j = .completed) :
    (st.put i status).of d = .completed := by
  have hc := ho.started j d hd hj
  have hdi : d ≠ i := fun he => hnot (he ▸ hc)
  rw [put_of, if_neg hdi, hc]

/-- Without a failure only the node itself changes. -/
theorem Orderly.put (ho : Orderly w st) (hnot : st.of i ≠ .completed)
    (hdeps : ∀ d, w.DependsOn i d → st.of d = .completed) {status : NodeExecutionStatus} (hpending : status ≠ .pending)
    (hfailed : status ≠ .failed) : Orderly w (st.put i status) := by
  constructor
  · intro j d hd hp
    rw [put_of] at hp ⊢
    split at hp
    · exact absurd hp hpending
    · split
      · exact hfailed
      · exact ho.propagated j d hd hp
  · intro j d hd hj
    by_cases hji : j = i
    · have hc := hdeps d (hji ▸ hd)
      have hdi : d ≠ i := fun he => hnot (he ▸ hc)
      rw [put_of, if_neg hdi, hc]
    · rw [put_of, if_neg hji] at hj
      exact ho.started_put hnot hd hj

/-- A node that a failure blocks has a dependency that was not completed before it. -/
theorem Blocked.dependency (hnot : st.of i ≠ .completed) (h : Blocked w (st.put i .failed) j) :
    ∃ d, w.DependsOn j d ∧ st.of d ≠ .completed := by
  have hput : ∀ d, (st.put i .failed).of d ≠ .completed → st.of d ≠ .completed := by
    intro d hd hc
    have hdi : d ≠ i := fun he => hnot (he ▸ hc)
    rw [put_of, if_neg hdi] at hd
    exact hd hc
  cases h with
  | @direct n d hn _ hd hf => exact ⟨d, ⟨n, hn, rfl, hd⟩, hput d (by simp [hf])⟩
  | @through n d hn _ hd hb => exact ⟨d, ⟨n, hn, rfl, hd⟩, hput d (by simp [hb.pending])⟩

theorem settle_failed (hw : w.WellFormed) (ho : Orderly w st) (hnot : st.of i ≠ .completed) :
    ∃ st', settle w st i .fail = .ok st' ∧ Moves w st (i, .fail) st' := by
  obtain ⟨ids, hids, -, -, hblocked⟩ := evaluateFailedDependencyNodeIds_spec hw.closed (st.put i .failed)
  have hstarted : ∀ n ∈ w.nodes, (st.put i .failed).of n.id = .running ∨ (st.put i .failed).of n.id = .completed →
      ∀ d ∈ n.dependencies, (st.put i .failed).of d = .completed := by
    intro n hn hrun d hd
    by_cases hni : n.id = i
    · simp [hni] at hrun
    · rw [put_of, if_neg hni] at hrun
      exact ho.started_put hnot ⟨n, hn, rfl, hd⟩ hrun
  refine ⟨(st.put i .failed).markFailed ids, by simp [settle, hids, bind, Except.bind, pure, Except.pure],
    ?_, ?_, ?_, ?_⟩
  · rw [markFailed_of]
    split <;> simp [Move.status]
  · intro j hj
    rw [markFailed_of]
    split
    · rename_i hmem
      have hb := (hblocked j).1 hmem
      exact .inr ⟨by simpa [hj] using hb.pending, rfl, hb.dependency hnot⟩
    · exact .inl (by simp [hj])
  · intro j d hd hp hf
    rw [failed_of_dependsOn hblocked hstarted hd hf] at hp
    cases hp
  · rintro j d ⟨n, hn, rfl, hd⟩ hj
    rw [markFailed_of] at hj
    split at hj
    · simp at hj
    · have hc := hstarted n hn hj d hd
      rw [markFailed_of]
      split
      · rename_i hmem
        rw [((hblocked d).1 hmem).pending] at hc
        cases hc
      · exact hc

theorem settle_spec (hw : w.WellFormed) (ho : Orderly w st) (ha : Movable w st a) :
    ∃ st', settle w st a.1 a.2 = .ok st' ∧ Moves w st a st' := by
  obtain ⟨i, m⟩ := a
  have hquiet : ∀ {status}, status ≠ .pending → status ≠ .failed → Orderly w (st.put i status) :=
    ho.put ha.not_completed fun d hd => ha.completed hw ho hd
  cases m with
  | run => exact ⟨_, rfl, by simp [Move.status], fun j hj => .inl (by simp [hj]), hquiet (by decide) (by decide)⟩
  | complete => exact ⟨_, rfl, by simp [Move.status], fun j hj => .inl (by simp [hj]), hquiet (by decide) (by decide)⟩
  | fail => exact settle_failed hw ho ha.not_completed

theorem Moves.left_pending (h : Moves w st a st') : st'.of a.1 ≠ .pending := by
  rw [h.self]
  cases a.2 <;> decide

/-- A node that is not pending stays so. -/
theorem Moves.not_pending (h : Moves w st a st') (hj : st.of j ≠ .pending) : st'.of j ≠ .pending := by
  by_cases hja : j = a.1
  · rw [hja]
    exact h.left_pending
  · rcases h.others j hja with h | ⟨-, h, -⟩
    · rwa [h]
    · simp [h]

theorem Moves.movable (hw : w.WellFormed) (ha : Movable w st a) (h : Moves w st a st') {b : String × Move}
    (hb : Movable w st b) (hne : b.1 ≠ a.1) : Movable w st' b := by
  have hkeep : ∀ j, j ≠ a.1 → st.of j ≠ .pending → st'.of j = st.of j := by
    intro j hj hp
    rcases h.others j hj with h | ⟨h, -⟩
    · exact h
    · exact absurd h hp
  rcases hb with hready | ⟨hmem, hrun, hm⟩
  · obtain ⟨n, hn, hid, hp, hdeps⟩ := mem_evaluateReadyNodeIds.1 hready
    have hdone : ∀ d ∈ n.dependencies, st'.of d = .completed := by
      intro d hd
      have hc := hdeps d hd
      have hda : d ≠ a.1 := fun he => ha.not_completed (he ▸ hc)
      rw [hkeep d hda (by simp [hc]), hc]
    refine .inl (mem_evaluateReadyNodeIds.2 ⟨n, hn, hid, ?_, hdone⟩)
    rcases h.others b.1 hne with h | ⟨-, -, d, hd, hnot⟩
    · rw [h, hp]
    · exact absurd (hdeps d ((hw.dependsOn_iff hn).1 (hid ▸ hd))) hnot
  · exact .inr ⟨hmem, by rw [hkeep b.1 hne (by simp [hrun]), hrun], hm⟩

/-- A ready node stays ready until it moves. -/
theorem Moves.ready (hw : w.WellFormed) (ha : Movable w st a) (h : Moves w st a st')
    (hj : j ∈ evaluateReadyNodeIds w st) :
    j ∈ evaluateReadyNodeIds w st' ∨ st'.of j ≠ .pending := by
  by_cases hja : j = a.1
  · exact .inr (hja ▸ h.left_pending)
  · rcases h.movable hw ha (b := (j, .run)) (.inl hj) hja with hready | ⟨-, -, hm⟩
    · exact .inl hready
    · exact absurd rfl hm

end Settling

/-- A schedule with the nodes it has made ready and those it has started, in order. -/
structure Schedule where
  statuses : StatusMap
  readied : List String
  started : List String

namespace Schedule

def newlyReady (w : Workflow) (st st' : StatusMap) : List String :=
  (evaluateReadyNodeIds w st').filter fun i => decide (i ∉ evaluateReadyNodeIds w st)

/-- One node of the chosen part moves; a pending one is started by it. -/
def move (w : Workflow) (s : Schedule) (a : String × Move) : Except PyError Schedule := do
  let st ← settle w s.statuses a.1 a.2
  return ⟨st, s.readied ++ newlyReady w s.statuses st,
    if s.statuses.of a.1 = .pending then s.started ++ [a.1] else s.started⟩

/-- A nonempty part of the ready and running nodes moves, one node after the other. -/
def Step (w : Workflow) (s t : Schedule) : Prop :=
  ∃ part : List (String × Move), part ≠ [] ∧ (part.map (·.1)).Nodup ∧ (∀ a ∈ part, Movable w s.statuses a) ∧
    part.foldlM (move w) s = .ok t

def start (w : Workflow) (st : StatusMap) : Schedule := ⟨st, evaluateReadyNodeIds w st, []⟩

/-- Every listed node is preceded by its dependencies. -/
def Topological (w : Workflow) (order : List String) : Prop :=
  order.Nodup ∧ ∀ before i after, order = before ++ i :: after → ∀ d, w.DependsOn i d → d ∈ before

structure Invariant (w : Workflow) (s : Schedule) : Prop where
  orderly : Orderly w s.statuses
  readiedOnce : s.readied.Nodup
  readied : ∀ i ∈ s.readied, i ∈ evaluateReadyNodeIds w s.statuses ∨ s.statuses.of i ≠ .pending
  ready : ∀ i ∈ evaluateReadyNodeIds w s.statuses, i ∈ s.readied
  started : ∀ i ∈ s.started, i ∈ s.readied ∧ s.statuses.of i ≠ .pending
  listed : ∀ i ∈ w.nodeIds, s.statuses.of i = .running ∨ s.statuses.of i = .completed → i ∈ s.started
  topological : Topological w s.started

theorem Topological.snoc {order : List String} (h : Topological w order) (hi : i ∉ order)
    (hdeps : ∀ d, w.DependsOn i d → d ∈ order) : Topological w (order ++ [i]) := by
  refine ⟨List.nodup_append.2 ⟨h.1, by simp, ?_⟩, ?_⟩
  · intro x hx y hy he
    exact hi (List.mem_singleton.1 hy ▸ he ▸ hx)
  intro before k after he d hd
  rcases List.eq_nil_or_concat after with rfl | ⟨rest, last, rfl⟩
  · obtain ⟨rfl, hk⟩ := List.append_inj' he rfl
    obtain rfl : i = k := by simpa using hk
    exact hdeps d hd
  · have he' : order ++ [i] = (before ++ k :: rest) ++ [last] := by simpa using he
    obtain ⟨rfl, -⟩ := List.append_inj' he' rfl
    exact h.2 before k rest rfl d hd

/-- The work left: a pending node can start and end, a running one can end. -/
def weight : NodeExecutionStatus → Nat
  | .pending => 2
  | .running => 1
  | .completed => 0
  | .failed => 0

def work (w : Workflow) (st : StatusMap) : Nat := (w.nodeIds.map fun i => weight (st.of i)).sum

theorem weight_lt {a : String × Move} (ha : Movable w st a) : weight a.2.status < weight (st.of a.1) := by
  rcases ha with hready | ⟨-, hrun, hm⟩
  · obtain ⟨-, -, -, hp, -⟩ := mem_evaluateReadyNodeIds.1 hready
    rw [hp]
    cases a.2 <;> decide
  · rw [hrun]
    revert hm
    cases a.2 <;> decide

theorem work_lt {a : String × Move} {st' : StatusMap} (ha : Movable w st a) (h : Moves w st a st') :
    work w st' < work w st := by
  apply List.sum_lt_sum
  · intro j _
    by_cases hj : j = a.1
    · rw [hj, h.self]
      exact (weight_lt ha).le
    · rcases h.others j hj with h | ⟨-, hf, -⟩
      · rw [h]
      · rw [hf]
        exact Nat.zero_le _
  · refine ⟨a.1, ha.mem, ?_⟩
    rw [h.self]
    exact weight_lt ha

theorem move_spec (hw : w.WellFormed) {s : Schedule} (h : Invariant w s) {a : String × Move}
    (ha : Movable w s.statuses a) :
    ∃ t, s.move w a = .ok t ∧ Moves w s.statuses a t.statuses ∧ Invariant w t := by
  obtain ⟨st', hsettle, hs⟩ := settle_spec hw h.orderly ha
  refine ⟨⟨st', s.readied ++ newlyReady w s.statuses st',
    if s.statuses.of a.1 = .pending then s.started ++ [a.1] else s.started⟩, ?_, hs, ?_⟩
  · simp [move, hsettle, bind, Except.bind, pure, Except.pure]
  refine ⟨hs.orderly, ?_, ?_, ?_, ?_, ?_, ?_⟩
  · refine List.nodup_append.2 ⟨h.readiedOnce, ?_, ?_⟩
    · exact (hw.nodup.sublist (List.filter_sublist.map _)).filter _
    · rintro j hj k hk rfl
      obtain ⟨hready, hnew⟩ := List.mem_filter.1 hk
      obtain ⟨-, -, -, hp, -⟩ := mem_evaluateReadyNodeIds.1 hready
      rcases h.readied j hj with hold | hnp
      · exact absurd hold (of_decide_eq_true hnew)
      · exact hs.not_pending hnp hp
  · intro j hj
    rcases List.mem_append.1 hj with hj | hj
    · exact (h.readied j hj).elim (hs.ready hw ha) fun hnp => .inr (hs.not_pending hnp)
    · exact .inl (List.mem_of_mem_filter hj)
  · intro j hj
    by_cases hold : j ∈ evaluateReadyNodeIds w s.statuses
    · exact List.mem_append_left _ (h.ready j hold)
    · exact List.mem_append_right _ (List.mem_filter.2 ⟨hj, decide_eq_true hold⟩)
  · intro j hj
    dsimp only at hj
    split at hj
    · rename_i hp
      rcases List.mem_append.1 hj with hj | hj
      · exact (h.started j hj).imp (List.mem_append_left _) hs.not_pending
      · rw [List.mem_singleton.1 hj]
        rcases ha with hready | ⟨-, hrun, -⟩
        · exact ⟨List.mem_append_left _ (h.ready _ hready), hs.left_pending⟩
        · rw [hp] at hrun
          cases hrun
    · exact (h.started j hj).imp (List.mem_append_left _) hs.not_pending
  · intro j hj hrun
    dsimp only at hrun ⊢
    by_cases hja : j = a.1
    · subst hja
      split
      · simp
      · rename_i hp
        exact h.listed _ hj (.inl (ha.not_ended.resolve_left hp))
    · have hsame : st'.of j = s.statuses.of j := by
        rcases hs.others j hja with h | ⟨-, h, -⟩
        · exact h
        · simp [h] at hrun
      have hmem := h.listed j hj (hsame ▸ hrun)
      split
      · exact List.mem_append_left _ hmem
      · exact hmem
  · dsimp only
    split
    · rename_i hp
      refine h.topological.snoc (fun hmem => (h.started _ hmem).2 hp) fun d hd => ?_
      have hc := ha.completed hw h.orderly hd
      obtain ⟨n, hn, hid, hdn⟩ := hd
      exact h.listed d (hw.known n hn d hdn) (.inr hc)
    · exact h.topological

/-- Any part can be carried through: the moves of one node leave the others of the part movable. -/
theorem part_spec (hw : w.WellFormed) (part : List (String × Move)) :
    ∀ {s : Schedule}, Invariant w s → (part.map (·.1)).Nodup → (∀ a ∈ part, Movable w s.statuses a) →
      ∃ t, part.foldlM (move w) s = .ok t ∧ Invariant w t ∧ work w t.statuses + part.length ≤ work w s.statuses := by
  induction part with
  | nil =>
    intro s h _ _
    exact ⟨s, rfl, h, le_rfl⟩
  | cons a part ih =>
    intro s h hnodup hall
    have ha := hall a (by simp)
    obtain ⟨t, hmove, hs, ht⟩ := move_spec hw h ha
    simp only [List.map_cons, List.nodup_cons] at hnodup
    obtain ⟨u, hfold, hu, hle⟩ := ih ht hnodup.2 fun b hb =>
      hs.movable hw ha (hall b (by simp [hb])) fun he => hnodup.1 (he ▸ List.mem_map_of_mem hb)
    refine ⟨u, by simp [hmove, hfold, bind, Except.bind], hu, ?_⟩
    have hlt := work_lt ha hs
    rw [List.length_cons]
    omega

theorem step_spec (hw : w.WellFormed) {s t : Schedule} (h : Invariant w s) (hstep : Step w s t) :
    Invariant w t ∧ work w t.statuses < work w s.statuses := by
  obtain ⟨part, hne, hnodup, hall, hfold⟩ := hstep
  obtain ⟨t', hfold', ht, hle⟩ := part_spec hw part h hnodup hall
  cases hfold.symm.trans hfold'
  have hpos := List.length_pos_iff.2 hne
  exact ⟨ht, by omega⟩

theorem run_spec (hw : w.WellFormed) (run : List Schedule) :
    ∀ {s : Schedule}, Invariant w s → (s :: run).IsChain (Step w) →
      run.length ≤ work w s.statuses ∧ ∀ t ∈ s :: run, Invariant w t := by
  induction run with
  | nil => exact fun h _ => ⟨Nat.zero_le _, by simpa using h⟩
  | cons t run ih =>
    intro s h hchain
    obtain ⟨hstep, hrest⟩ := List.isChain_cons_cons.1 hchain
    obtain ⟨ht, hlt⟩ := step_spec hw h hstep
    obtain ⟨hlen, hall⟩ := ih ht hrest
    refine ⟨by rw [List.length_cons]; omega, fun u hu => ?_⟩
    rcases List.mem_cons.1 hu with rfl | hu
    · exact h
    · exact hall u hu

theorem start_invariant (hw : w.WellFormed) (hst : ∀ i ∈ w.nodeIds, st.of i = .pending) :
    Invariant w (start w st) := by
  have hdep : ∀ i d, w.DependsOn i d → st.of i = .pending ∧ st.of d = .pending := by
    rintro i d ⟨n, hn, rfl, hd⟩
    exact ⟨hst _ (List.mem_map_of_mem hn), hst d (hw.known n hn d hd)⟩
  refine ⟨⟨fun i d hd _ hf => ?_, fun i d hd hrun => ?_⟩, ?_, fun i hi => .inl hi, fun i hi => hi,
    by simp [start], ?_, ?_⟩
  · simp [start, (hdep i d hd).2] at hf
  · simp [start, (hdep i d hd).1] at hrun
  · exact hw.nodup.sublist (List.filter_sublist.map _)
  · intro i hi hrun
    simp [start, hst i hi] at hrun
  · exact ⟨by simp [start], fun before i after he => by simp [start] at he⟩

theorem work_start (hst : ∀ i ∈ w.nodeIds, st.of i = .pending) : work w st = 2 * w.nodes.length := by
  have hmap : (w.nodeIds.map fun i => weight (st.of i)) = w.nodeIds.map fun _ => 2 :=
    List.map_congr_left fun i hi => by simp [hst i hi, weight]
  rw [work, hmap, List.map_const', List.sum_replicate]
  simp [Workflow.nodeIds, Nat.mul_comm]

/-- A schedule that cannot go on has ended every node. -/
theorem ended_of_stuck (hw : w.WellFormed) {s : Schedule} (h : Invariant w s) (hstuck : ∀ t, ¬ Step w s t)
    (hi : i ∈ w.nodeIds) :
    s.statuses.of i = .completed ∨ s.statuses.of i = .failed := by
  have hnone : ∀ a, ¬ Movable w s.statuses a := by
    intro a ha
    obtain ⟨t, ht, -⟩ := part_spec hw [a] h (by simp) (by simpa using ha)
    exact hstuck t ⟨[a], by simp, by simp, by simpa using ha, ht⟩
  have hrunning : ∀ j ∈ w.nodeIds, s.statuses.of j ≠ .running := fun j hj hrun =>
    hnone (j, .complete) (.inr ⟨hj, hrun, by simp⟩)
  cases hst : s.statuses.of i with
  | completed => exact .inl rfl
  | failed => exact .inr rfl
  | running => exact absurd hst (hrunning i hi)
  | pending =>
    rcases ready_or_running hw h.orderly.propagated hi hst with ⟨j, hj, hrun⟩ | hready
    · exact absurd hrun (hrunning j hj)
    · obtain ⟨j, hj⟩ := List.exists_mem_of_ne_nil _ hready
      exact absurd (.inl hj) (hnone (j, .run))

/-- Readiness never stalls an accepted workflow. From statuses that are all pending, any part of
the ready or running nodes can move, no sequence of steps is longer than two for each node, and
where one cannot be continued every node has ended. Along it each node is made ready at most
once and the nodes start in a topological order. -/
theorem schedule_never_stalls {env : ValidationEnv} {freshId : Uuid} {definition : Dict Json}
    (h : accept env freshId definition = .ok w) :
    (∀ st, Propagated w st → (∃ i ∈ w.nodeIds, st.of i = .pending) →
      (∃ j ∈ w.nodeIds, st.of j = .running) ∨ evaluateReadyNodeIds w st ≠ []) ∧
    ∀ st, (∀ i ∈ w.nodeIds, st.of i = .pending) → ∀ run s, (start w st :: run).IsChain (Step w) →
      (start w st :: run).getLast? = some s →
      run.length ≤ 2 * w.nodes.length ∧
      (∀ part : List (String × Move), (part.map (·.1)).Nodup → (∀ a ∈ part, Movable w s.statuses a) →
        ∃ t, part.foldlM (move w) s = .ok t) ∧
      ((∀ t, ¬ Step w s t) → ∀ i ∈ w.nodeIds, s.statuses.of i = .completed ∨ s.statuses.of i = .failed) ∧
      s.readied.Nodup ∧ (∀ i ∈ s.started, i ∈ s.readied) ∧ Topological w s.started := by
  have hw := accept_wellFormed h
  refine ⟨fun st hprop ⟨i, hi, hp⟩ => ready_or_running hw hprop hi hp, fun st hst run s hchain hlast => ?_⟩
  obtain ⟨hlen, hall⟩ := run_spec hw run (start_invariant hw hst) hchain
  have hs := hall s (List.mem_of_getLast? hlast)
  refine ⟨work_start hst ▸ hlen, fun part hnodup hmov => ?_, fun hstuck i hi => ended_of_stuck hw hs hstuck hi,
    hs.readiedOnce, fun i hi => (hs.started i hi).1, hs.topological⟩
  obtain ⟨t, ht, -⟩ := part_spec hw part hs hnodup hmov
  exact ⟨t, ht⟩

/-- In the diamond `a` completes, `b` fails while `c` starts, and `d` fails with `b`. -/
theorem schedule_never_stalls_diamond : ∃ s t,
    [start DAG.diamond fun _ => none, s, t].IsChain (Step DAG.diamond) ∧ t.started = ["a", "b", "c"] ∧
      t.readied = ["a", "b", "c"] ∧ t.statuses.of "d" = .failed ∧ t.readied.Nodup ∧
      Topological DAG.diamond t.started := by
  have h : accept DAG.plainEnv (.v4 0) (DAG.payloadOf DAG.diamond) = .ok DAG.diamond := by decide +kernel
  let s : Schedule := ⟨StatusMap.put (fun _ => none) "a" .completed, ["a", "b", "c"], ["a"]⟩
  let t : Schedule :=
    ⟨((s.statuses.put "b" .failed).markFailed ["d"]).put "c" .running, ["a", "b", "c"], ["a", "b", "c"]⟩
  have hs : [("a", Move.complete)].foldlM (move DAG.diamond) (start DAG.diamond fun _ => none) = .ok s := rfl
  have ht : [("b", Move.fail), ("c", .run)].foldlM (move DAG.diamond) s = .ok t := rfl
  have hchain : [start DAG.diamond fun _ => none, s, t].IsChain (Step DAG.diamond) := by
    refine List.isChain_cons_cons.2 ⟨⟨_, by simp, by simp, ?_, hs⟩, List.isChain_pair.2 ⟨_, by simp, by simp, ?_, ht⟩⟩
    · simp only [List.mem_singleton, forall_eq]
      exact .inl (by decide)
    · simp only [List.mem_cons, List.not_mem_nil, or_false, forall_eq_or_imp, forall_eq]
      exact ⟨.inl (by decide), .inl (by decide)⟩
  obtain ⟨-, -, -, hreadied, -, htop⟩ :=
    (schedule_never_stalls h).2 (fun _ => none) (fun _ _ => rfl) [s, t] t hchain rfl
  exact ⟨s, t, hchain, rfl, rfl, rfl, hreadied, htop⟩

end Schedule

end WorkflowEngine
