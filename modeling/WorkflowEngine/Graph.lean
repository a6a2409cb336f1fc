import Mathlib.Data.List.Perm.Subperm
import WorkflowEngine.Lib.Pointwise
import WorkflowEngine.Lib.Ranked
import WorkflowEngine.Workflow

/-!
# The traversal graph and failure propagation

`DAG.from_workflow` succeeds on every workflow with distinct identifiers and no unknown
dependency, and its adjacency lists are read off the declarations. From that, the propagation
loop computes the pending nodes with a failed ancestor through pending nodes, whatever the
statuses are.
-/
namespace WorkflowEngine

namespace Dict

variable {ν : Type}

theorem get?_append (d e : Dict ν) (k : String) : get? (d ++ e) k = (get? d k).or (get? e k) := by
  simp only [get?, List.find?_append]
  cases d.find? (fun m => decide (m.1 = k)) <;> simp

theorem get?_single (k k' : String) (v : ν) : get? [(k, v)] k' = if k' = k then some v else none := by
  by_cases h : k' = k
  · simp [get?, h]
  · simp [get?, h, Ne.symm h]

theorem has_iff (d : Dict ν) (k : String) : has d k = true ↔ k ∈ d.map (·.1) := by
  simp [has]

theorem get?_isSome (d : Dict ν) (k : String) : (get? d k).isSome = true ↔ k ∈ d.map (·.1) := by
  simp [get?]

theorem get?_eq_none {d : Dict ν} {k : String} (h : k ∉ d.map (·.1)) : get? d k = none := by
  cases hg : get? d k with
  | none => rfl
  | some v => exact absurd ((get?_isSome d k).1 (by simp [hg])) h

theorem get?_replace (d : Dict ν) (k k' : String) (v : ν) (h : k ∈ d.map (·.1)) :
    get? (d.map fun m => if m.1 = k then (k, v) else m) k' = if k' = k then some v else get? d k' := by
  induction d with
  | nil => simp at h
  | cons m d ih =>
    by_cases hm : m.1 = k
    · by_cases hk : k' = k
      · simp [get?, hm, hk]
      · by_cases hd : k ∈ d.map (·.1)
        · have := ih hd
          simp_all [get?, Ne.symm hk]
        · have hmap : (d.map fun m => if m.1 = k then (k, v) else m) = d := by
            conv_rhs => rw [← List.map_id d]
            apply List.map_congr_left
            intro p hp
            have hne : p.1 ≠ k := fun he => hd (he ▸ List.mem_map_of_mem hp)
            simp [hne]
          simp [get?, hm, hk, Ne.symm hk, hmap]
    · have hd : k ∈ d.map (·.1) := by
        rcases List.mem_cons.1 h with h | h
        · exact absurd h.symm hm
        · exact h
      have := ih hd
      by_cases hk : m.1 = k'
      · have hne : k' ≠ k := fun he => hm (hk.trans he)
        simp [get?, hk, hne]
      · simp_all [get?]

theorem get?_set (d : Dict ν) (k k' : String) (v : ν) :
    get? (set d k v) k' = if k' = k then some v else get? d k' := by
  unfold set
  split
  · rename_i h
    exact get?_replace d k k' v ((has_iff d k).1 h)
  · rename_i h
    have hk : k ∉ d.map (·.1) := fun hm => h ((has_iff d k).2 hm)
    rw [get?_append, get?_single]
    by_cases he : k' = k
    · subst he
      simp [get?_eq_none hk]
    · simp [he]

/-- A dict comprehension over distinct new keys appends its items. -/
theorem foldl_set {α : Type} (key : α → String) (val : α → ν) (items : List α) :
    ∀ acc : Dict ν, (items.map key).Nodup → (∀ a ∈ items, key a ∉ acc.map (·.1)) →
      items.foldl (fun acc a => set acc (key a) (val a)) acc = acc ++ items.map fun a => (key a, val a) := by
  induction items with
  | nil => simp
  | cons a items ih =>
    intro acc hnodup hnew
    have ha : has acc (key a) = false := by
      rw [Bool.eq_false_iff]
      exact fun h => hnew a (by simp) ((has_iff acc _).1 h)
    simp only [List.map_cons, List.nodup_cons] at hnodup
    have hset : set acc (key a) (val a) = acc ++ [(key a, val a)] := by simp [set, ha]
    rw [List.foldl_cons, hset, ih _ hnodup.2]
    · simp
    · intro b hb hmem
      rw [List.map_append, List.mem_append] at hmem
      rcases hmem with hmem | hmem
      · exact hnew b (List.mem_cons_of_mem _ hb) hmem
      · have : key b = key a := by simpa using hmem
        exact hnodup.1 (this ▸ List.mem_map_of_mem hb)

theorem get?_map {α : Type} (key : α → String) (val : α → ν) (items : List α) (hnodup : (items.map key).Nodup)
    {a : α} (ha : a ∈ items) : get? (items.map fun a => (key a, val a)) (key a) = some (val a) := by
  induction items with
  | nil => simp at ha
  | cons b items ih =>
    simp only [List.map_cons, List.nodup_cons] at hnodup
    by_cases hb : key b = key a
    · rcases List.mem_cons.1 ha with rfl | ha
      · simp [get?]
      · exact absurd (hb ▸ List.mem_map_of_mem ha) hnodup.1
    · have hne : a ≠ b := fun he => hb (by rw [he])
      have hmem : a ∈ items := (List.mem_cons.1 ha).resolve_left hne
      have := ih hnodup.2 hmem
      simp_all [get?]

end Dict

namespace Workflow

/-- What the traversal graph needs of a workflow: distinct identifiers, no unknown dependency. -/
structure Closed (w : Workflow) : Prop where
  nodup : w.nodeIds.Nodup
  known : ∀ n ∈ w.nodes, ∀ d ∈ n.dependencies, d ∈ w.nodeIds

theorem WellFormed.closed {w : Workflow} (h : w.WellFormed) : w.Closed := ⟨h.nodup, h.known⟩

/-- `i` declares `d` as a dependency. -/
def DependsOn (w : Workflow) (i d : String) : Prop := ∃ n ∈ w.nodes, n.id = i ∧ d ∈ n.dependencies

theorem DependsOn.mem {w : Workflow} {i d : String} (h : w.DependsOn i d) : i ∈ w.nodeIds := by
  obtain ⟨n, hn, hi, -⟩ := h
  exact mem_nodeIds.2 ⟨n, hn, hi⟩

theorem WellFormed.dependsOn_iff {w : Workflow} (h : w.WellFormed) {n : WorkflowNode} (hn : n ∈ w.nodes)
    {d : String} : w.DependsOn n.id d ↔ d ∈ n.dependencies := by
  constructor
  · rintro ⟨m, hm, hid, hd⟩
    exact h.node_ext hm hn hid ▸ hd
  · exact fun hd => ⟨n, hn, rfl, hd⟩

/-- The dependencies of a well-formed workflow are ranked. -/
theorem WellFormed.ranked {w : Workflow} (h : w.WellFormed) : ∃ rank, Ranked w.nodeIds w.DependsOn rank := by
  obtain ⟨rank, hrank⟩ := h.acyclic
  refine ⟨rank, ?_⟩
  rintro _ - d ⟨n, hn, rfl, hd⟩
  exact ⟨h.known n hn d hd, hrank n hn d hd⟩

/-- The nodes that declare `k`, in workflow order, once for each declaration. -/
def dependantsOf (nodes : List WorkflowNode) (k : String) : List String :=
  nodes.flatMap fun n => (n.dependencies.filter fun d => decide (d = k)).map fun _ => n.id

theorem mem_dependantsOf {nodes : List WorkflowNode} {k x : String} :
    x ∈ dependantsOf nodes k ↔ ∃ n ∈ nodes, n.id = x ∧ k ∈ n.dependencies := by
  simp only [dependantsOf, List.mem_flatMap, List.mem_map, List.mem_filter, decide_eq_true_eq]
  constructor
  · rintro ⟨n, hn, d, ⟨hd, rfl⟩, rfl⟩
    exact ⟨n, hn, rfl, hd⟩
  · rintro ⟨n, hn, rfl, hd⟩
    exact ⟨n, hn, k, ⟨hd, rfl⟩, rfl⟩

end Workflow

namespace DAG

open Workflow (dependantsOf mem_dependantsOf)

/-! ## Construction -/

/-- Every key of `acc` holds the list that `f` gives. -/
def Holds (acc : Dict (List String)) (ids : List String) (f : String → List String) : Prop :=
  ∀ k ∈ ids, Dict.get? acc k = some (f k)

theorem foldlM_appendDependant (ids : List String) (nodeId : String) (ds : List String) :
    ∀ (acc : Dict (List String)) (f : String → List String), Holds acc ids f → (∀ d ∈ ds, d ∈ ids) →
      ∃ acc', ds.foldlM (appendDependant nodeId) acc = .ok acc' ∧
        Holds acc' ids fun k => f k ++ (ds.filter fun d => decide (d = k)).map fun _ => nodeId := by
  induction ds with
  | nil =>
    intro acc f h _
    exact ⟨acc, rfl, fun k hk => by simpa using h k hk⟩
  | cons d ds ih =>
    intro acc f h hds
    have hstep : appendDependant nodeId acc d = .ok (Dict.set acc d (f d ++ [nodeId])) := by
      simp [appendDependant, h d (hds d (by simp))]
    have hnext : Holds (Dict.set acc d (f d ++ [nodeId])) ids
        fun k => f k ++ ([d].filter fun d => decide (d = k)).map fun _ => nodeId := by
      intro k hk
      by_cases hkd : k = d
      · subst hkd
        simp [Dict.get?_set]
      · simp [Dict.get?_set, hkd, Ne.symm hkd, h k hk]
    obtain ⟨acc', hfold, hacc'⟩ := ih _ _ hnext fun x hx => hds x (by simp [hx])
    refine ⟨acc', ?_, fun k hk => ?_⟩
    · simp [hstep, hfold, bind, Except.bind]
    · have hget := hacc' k hk
      dsimp only at hget ⊢
      rw [hget, List.append_assoc, ← List.map_append, ← List.filter_append]
      rfl

theorem foldlM_dependants (ids : List String) (nodes : List WorkflowNode) :
    ∀ (acc : Dict (List String)) (f : String → List String), Holds acc ids f →
      (∀ n ∈ nodes, ∀ d ∈ n.dependencies, d ∈ ids) →
      ∃ acc', nodes.foldlM (fun acc n => n.dependencies.foldlM (appendDependant n.id) acc) acc = .ok acc' ∧
        Holds acc' ids fun k => f k ++ dependantsOf nodes k := by
  induction nodes with
  | nil =>
    intro acc f h _
    exact ⟨acc, rfl, fun k hk => by simpa [dependantsOf] using h k hk⟩
  | cons n nodes ih =>
    intro acc f h hknown
    obtain ⟨acc₁, h₁, hacc₁⟩ := foldlM_appendDependant ids n.id n.dependencies acc f h
      (hknown n (by simp))
    obtain ⟨acc₂, h₂, hacc₂⟩ := ih acc₁ _ hacc₁ fun m hm => hknown m (by simp [hm])
    refine ⟨acc₂, ?_, fun k hk => ?_⟩
    · simp [h₁, h₂, bind, Except.bind]
    · have hget := hacc₂ k hk
      dsimp only at hget ⊢
      rw [hget, List.append_assoc]
      rfl

theorem collectDependants_ok {w : Workflow} (h : w.Closed) :
    ∃ acc, collectDependants w.nodes = .ok acc ∧ Holds acc w.nodeIds (dependantsOf w.nodes) := by
  have hinit : w.nodes.foldl (fun acc n => Dict.set acc n.id ([] : List String)) [] =
      w.nodes.map fun n => (n.id, []) := by
    simpa using Dict.foldl_set WorkflowNode.id (fun _ => ([] : List String)) w.nodes [] h.nodup (by simp)
  have hstart : Holds (w.nodes.map fun n => (n.id, ([] : List String))) w.nodeIds fun _ => [] := by
    intro k hk
    obtain ⟨n, hn, rfl⟩ := Workflow.mem_nodeIds.1 hk
    exact Dict.get?_map WorkflowNode.id (fun _ => []) w.nodes h.nodup hn
  obtain ⟨acc, hacc, hholds⟩ := foldlM_dependants w.nodeIds w.nodes _ _ hstart h.known
  refine ⟨acc, ?_, fun k hk => by simpa using hholds k hk⟩
  rw [collectDependants, hinit]
  exact hacc

/-- The node `from_workflow` builds for `n`, once its dependants are known. -/
def nodeOf (n : WorkflowNode) (dependants : List String) : DAGNode :=
  ⟨n.id, n.handler, n.config, n.dependencies, dependants⟩

def graphOf (nodesById : Dict DAGNode) : DAG :=
  ⟨nodesById, (nodesById.filter fun m => m.2.dependencies.isEmpty).map (·.1),
    (nodesById.filter fun m => m.2.dependants.isEmpty).map (·.1)⟩

/-- The graph of a workflow, read off its nodes. -/
def mirror (w : Workflow) : DAG := graphOf (w.nodes.map fun n => (n.id, nodeOf n (dependantsOf w.nodes n.id)))

theorem mapM_nodes (f : String × DAGNode → Except PyError (String × DAGNode)) (val : WorkflowNode → List String)
    (nodes : List WorkflowNode) (h : ∀ n ∈ nodes, f (n.id, nodeOf n []) = .ok (n.id, nodeOf n (val n))) :
    (nodes.map fun n => (n.id, nodeOf n [])).mapM f = .ok (nodes.map fun n => (n.id, nodeOf n (val n))) := by
  rw [Pointwise.mapM_eq_ok, List.forall₂_map_left_iff, List.forall₂_map_right_iff, List.forall₂_same]
  exact h

theorem fromWorkflow_eq {w : Workflow} (h : w.Closed) : fromWorkflow w = .ok (mirror w) := by
  obtain ⟨acc, hacc, hholds⟩ := collectDependants_ok h
  have hnodes : collectNodes w.nodes = w.nodes.map fun n => (n.id, nodeOf n []) := by
    exact Dict.foldl_set WorkflowNode.id (fun n => nodeOf n []) w.nodes [] h.nodup (by simp)
  rw [fromWorkflow, hacc, hnodes]
  simp only [bind, Except.bind]
  rw [mapM_nodes _ (fun n => dependantsOf w.nodes n.id) w.nodes]
  · rfl
  · intro n hn
    simp [hholds n.id (List.mem_map_of_mem hn), nodeOf]

theorem getNode_mirror {w : Workflow} (h : w.Closed) {n : WorkflowNode} (hn : n ∈ w.nodes) :
    (mirror w).getNode n.id = .ok (nodeOf n (dependantsOf w.nodes n.id)) := by
  rw [getNode]
  simp only [mirror, graphOf]
  rw [Dict.get?_map WorkflowNode.id _ w.nodes h.nodup hn]

/-- Looking up known identifiers gives their nodes, in the same order. -/
theorem mapM_getNode {w : Workflow} (h : w.Closed) (ids : List String) (hids : ∀ i ∈ ids, i ∈ w.nodeIds) :
    ∃ ns, ids.mapM (mirror w).getNode = .ok ns ∧ ns.map (·.nodeId) = ids := by
  induction ids with
  | nil => exact ⟨[], rfl, rfl⟩
  | cons i ids ih =>
    obtain ⟨ns, hns, hmap⟩ := ih fun j hj => hids j (by simp [hj])
    obtain ⟨n, hn, rfl⟩ := Workflow.mem_nodeIds.1 (hids i (by simp))
    refine ⟨nodeOf n (dependantsOf w.nodes n.id) :: ns, ?_, by simp [nodeOf, hmap]⟩
    rw [List.mapM_cons, getNode_mirror h hn, hns]
    rfl

theorem getDependants_mirror {w : Workflow} (h : w.Closed) {i : String} (hi : i ∈ w.nodeIds) :
    ∃ ns, (mirror w).getDependants i = .ok ns ∧ ns.map (·.nodeId) = dependantsOf w.nodes i := by
  obtain ⟨n, hn, rfl⟩ := Workflow.mem_nodeIds.1 hi
  obtain ⟨ns, hns, hmap⟩ := mapM_getNode h (dependantsOf w.nodes n.id) fun x hx => by
    obtain ⟨m, hm, rfl, -⟩ := mem_dependantsOf.1 hx
    exact List.mem_map_of_mem hm
  refine ⟨ns, ?_, hmap⟩
  rw [getDependants, getNode_mirror h hn]
  exact hns

end DAG

/-! ## Propagation -/

/-- A pending node with a failed dependency, or with a dependency that is blocked itself. -/
inductive Blocked (w : Workflow) (st : StatusMap) : String → Prop where
  | direct {n : WorkflowNode} {d : String} (mem : n ∈ w.nodes) (pending : st.of n.id = .pending)
      (dep : d ∈ n.dependencies) (failed : st.of d = .failed) : Blocked w st n.id
  | through {n : WorkflowNode} {d : String} (mem : n ∈ w.nodes) (pending : st.of n.id = .pending)
      (dep : d ∈ n.dependencies) (blocked : Blocked w st d) : Blocked w st n.id

theorem Blocked.pending {w : Workflow} {st : StatusMap} {i : String} (h : Blocked w st i) :
    st.of i = .pending := by
  cases h <;> assumption

theorem Blocked.mem {w : Workflow} {st : StatusMap} {i : String} (h : Blocked w st i) : i ∈ w.nodeIds := by
  cases h <;> exact Workflow.mem_nodeIds.2 ⟨_, ‹_›, rfl⟩

namespace Closure

/-- Failed from the start, or found to be blocked. -/
def Down (w : Workflow) (st : StatusMap) (c : Closure) (i : String) : Prop :=
  (i ∈ w.nodeIds ∧ st.of i = .failed) ∨ i ∈ c.blockedNodeIds

/-- Every pending dependant of `i` has been found. -/
def Done (w : Workflow) (st : StatusMap) (c : Closure) (i : String) : Prop :=
  ∀ n ∈ w.nodes, i ∈ n.dependencies → st.of n.id = .pending → n.id ∈ c.blockedNodeIds

structure Invariant (w : Workflow) (st : StatusMap) (c : Closure) : Prop where
  overlay : ∀ i, c.statuses i = if i ∈ c.blockedNodeIds then some .failed else st i
  sound : ∀ i ∈ c.blockedNodeIds, Blocked w st i
  nodup : c.blockedNodeIds.Nodup
  queued : ∀ i ∈ c.queue, Down w st c i

theorem Invariant.length_le {w : Workflow} {st : StatusMap} {c : Closure} (h : Invariant w st c) :
    c.blockedNodeIds.length ≤ w.nodes.length := by
  have hsub : c.blockedNodeIds ⊆ w.nodeIds := fun i hi => (h.sound i hi).mem
  simpa [Workflow.nodeIds] using (List.subperm_of_subset h.nodup hsub).length_le

theorem Invariant.mem_nodeIds {w : Workflow} {st : StatusMap} {c : Closure} (h : Invariant w st c) {i : String}
    (hi : Down w st c i) : i ∈ w.nodeIds :=
  hi.elim And.left fun hb => (h.sound i hb).mem

theorem Invariant.blocked_of {w : Workflow} {st : StatusMap} {c : Closure} (h : Invariant w st c)
    {n : WorkflowNode} {i : String} (hn : n ∈ w.nodes) (hp : st.of n.id = .pending) (hd : i ∈ n.dependencies)
    (hi : Down w st c i) : Blocked w st n.id :=
  hi.elim (fun hf => .direct hn hp hd hf.2) fun hb => .through hn hp hd (h.sound i hb)

theorem Invariant.of_eq {w : Workflow} {st : StatusMap} {c : Closure} (h : Invariant w st c) {i : String}
    (hi : i ∉ c.blockedNodeIds) : c.statuses.of i = st.of i := by
  simp [StatusMap.of, h.overlay, hi]

/-- Visiting one dependant of a node that is down: what is found stays found, the dependant is
found if it is pending, and each new one enters the queue as well. -/
structure Grows (c c' : Closure) (k : Nat) : Prop where
  blocked : c'.blockedNodeIds.length = c.blockedNodeIds.length + k
  queue : c'.queue.length = c.queue.length + k
  blocked_sub : ∀ i ∈ c.blockedNodeIds, i ∈ c'.blockedNodeIds
  queue_sub : ∀ i ∈ c.queue, i ∈ c'.queue
  new : ∀ i ∈ c'.blockedNodeIds, i ∈ c.blockedNodeIds ∨ i ∈ c'.queue

theorem Grows.refl (c : Closure) : Grows c c 0 :=
  ⟨rfl, rfl, fun _ h => h, fun _ h => h, fun _ h => .inl h⟩

theorem Grows.trans {c₁ c₂ c₃ : Closure} {k l : Nat} (h : Grows c₁ c₂ k) (h' : Grows c₂ c₃ l) :
    Grows c₁ c₃ (k + l) := by
  refine ⟨by rw [h'.blocked, h.blocked]; omega, by rw [h'.queue, h.queue]; omega,
    fun i hi => h'.blocked_sub i (h.blocked_sub i hi), fun i hi => h'.queue_sub i (h.queue_sub i hi), ?_⟩
  intro i hi
  rcases h'.new i hi with hi | hi
  · exact (h.new i hi).imp_right (h'.queue_sub i)
  · exact .inr hi

theorem visit_spec {w : Workflow} {st : StatusMap} {c : Closure} (h : Invariant w st c) {m : DAGNode}
    {n : WorkflowNode} (hn : n ∈ w.nodes) (hm : n.id = m.nodeId) {i : String} (hd : i ∈ n.dependencies)
    (hi : Down w st c i) :
    Invariant w st (visit c m) ∧ (∃ k, Grows c (visit c m) k) ∧
      (st.of m.nodeId = .pending → m.nodeId ∈ (visit c m).blockedNodeIds) := by
  by_cases hb : m.nodeId ∈ c.blockedNodeIds
  · have hv : visit c m = c := by
      unfold visit
      split <;> simp
    rw [hv]
    exact ⟨h, ⟨0, .refl c⟩, fun _ => hb⟩
  · by_cases hp : st.of m.nodeId = .pending
    · have hv : visit c m = ⟨fun i => if i = m.nodeId then some .failed else c.statuses i,
          c.blockedNodeIds ++ [m.nodeId], c.queue ++ [m.nodeId]⟩ := by
        simp [visit, h.of_eq hb, hp, hb]
      have hblocked : Blocked w st m.nodeId := hm ▸ h.blocked_of hn (hm ▸ hp) hd hi
      rw [hv]
      refine ⟨⟨fun j => ?_, ?_, ?_, ?_⟩, ⟨1, by simp, by simp, by simp_all, by simp_all, ?_⟩, by simp⟩
      · by_cases hj : j = m.nodeId
        · simp [hj]
        · simp [hj, h.overlay j]
      · simpa [or_imp, forall_and] using ⟨h.sound, hblocked⟩
      · exact List.nodup_append.2 ⟨h.nodup, by simp, by grind⟩
      · intro j hj
        rcases List.mem_append.1 hj with hj | hj
        · exact (h.queued j hj).imp_right (List.mem_append_left _)
        · exact .inr (List.mem_append_right _ hj)
      · intro j hj
        simp only [List.mem_append] at hj ⊢
        tauto
    · have hv : visit c m = c := by simp [visit, h.of_eq hb, hp]
      rw [hv]
      exact ⟨h, ⟨0, .refl c⟩, fun hp' => absurd hp' hp⟩

theorem Down.mono {w : Workflow} {st : StatusMap} {c c' : Closure} {k : Nat} (h : Grows c c' k) {i : String}
    (hi : Down w st c i) : Down w st c' i :=
  hi.imp_right (h.blocked_sub i)

theorem Done.mono {w : Workflow} {st : StatusMap} {c c' : Closure} {k : Nat} (h : Grows c c' k) {i : String}
    (hi : Done w st c i) : Done w st c' i :=
  fun n hn hd hp => h.blocked_sub _ (hi n hn hd hp)

theorem foldl_visit {w : Workflow} {st : StatusMap} {i : String} (ms : List DAGNode) :
    ∀ {c : Closure}, Invariant w st c → Down w st c i →
      (∀ m ∈ ms, ∃ n ∈ w.nodes, n.id = m.nodeId ∧ i ∈ n.dependencies) →
      Invariant w st (ms.foldl visit c) ∧ (∃ k, Grows c (ms.foldl visit c) k) ∧
        ∀ m ∈ ms, st.of m.nodeId = .pending → m.nodeId ∈ (ms.foldl visit c).blockedNodeIds := by
  induction ms with
  | nil => exact fun h _ _ => ⟨h, ⟨0, .refl _⟩, by simp⟩
  | cons m ms ih =>
    intro c h hi hms
    obtain ⟨n, hn, hid, hd⟩ := hms m (by simp)
    obtain ⟨h₁, ⟨k, hk⟩, hm⟩ := visit_spec h hn hid hd hi
    obtain ⟨h₂, ⟨l, hl⟩, hrest⟩ := ih h₁ (hi.mono hk) fun m' hm' => hms m' (by simp [hm'])
    refine ⟨h₂, ⟨k + l, hk.trans hl⟩, ?_⟩
    intro m' hm' hp
    rcases List.mem_cons.1 hm' with rfl | hm'
    · exact hl.blocked_sub _ (hm hp)
    · exact hrest m' hm' hp

/-- With enough rounds the loop ends with an empty queue and nothing left to find. -/
theorem loop_spec {w : Workflow} {st : StatusMap} (hw : w.Closed) :
    ∀ (rounds : Nat) (c : Closure), Invariant w st c →
      (∀ i, Down w st c i → i ∈ c.queue ∨ Done w st c i) →
      c.queue.length + (w.nodes.length - c.blockedNodeIds.length) ≤ rounds →
      ∃ c', loop (DAG.mirror w) rounds c = .ok c' ∧ c'.queue = [] ∧ Invariant w st c' ∧
        ∀ i, Down w st c' i → Done w st c' i := by
  intro rounds
  induction rounds with
  | zero =>
    intro c h hdone hfuel
    have hq : c.queue = [] := List.eq_nil_of_length_eq_zero (by omega)
    exact ⟨c, rfl, hq, h, fun i hi => (hdone i hi).resolve_left (by simp [hq])⟩
  | succ rounds ih =>
    intro c h hdone hfuel
    cases hq : c.queue with
    | nil => exact ⟨c, by simp [loop, hq], hq, h, fun i hi => (hdone i hi).resolve_left (by simp [hq])⟩
    | cons i rest =>
      have hi : Down w st { c with queue := rest } i := h.queued i (by simp [hq])
      obtain ⟨ns, hns, hmap⟩ := DAG.getDependants_mirror hw (h.mem_nodeIds hi)
      have hmem : ∀ x, x ∈ ns.map (·.nodeId) ↔ ∃ n ∈ w.nodes, n.id = x ∧ i ∈ n.dependencies := fun x =>
        hmap ▸ Workflow.mem_dependantsOf
      have h₀ : Invariant w st { c with queue := rest } :=
        ⟨h.overlay, h.sound, h.nodup, fun j hj => h.queued j (by simp [hq, hj])⟩
      obtain ⟨h₁, ⟨k, hk⟩, hfound⟩ := foldl_visit ns h₀ hi fun m hm =>
        (hmem m.nodeId).1 (List.mem_map_of_mem hm)
      have hdonei : Done w st (ns.foldl visit { c with queue := rest }) i := by
        intro n hn hd hp
        obtain ⟨m, hm, hid⟩ := List.mem_map.1 ((hmem n.id).2 ⟨n, hn, rfl, hd⟩)
        exact hid ▸ hfound m hm (hid ▸ hp)
      have hle := h₁.length_le
      have hbl := hk.blocked
      have hql := hk.queue
      simp only [hq, List.length_cons] at hfuel hbl hql
      have hold : ∀ j, Down w st c j → j ∈ (ns.foldl visit { c with queue := rest }).queue ∨
          Done w st (ns.foldl visit { c with queue := rest }) j := by
        intro j hj
        rcases hdone j hj with hj | hj
        · rw [hq] at hj
          rcases List.mem_cons.1 hj with rfl | hj
          · exact .inr hdonei
          · exact .inl (hk.queue_sub j hj)
        · exact .inr (Done.mono hk hj)
      have hnext : ∀ j, Down w st (ns.foldl visit { c with queue := rest }) j →
          j ∈ (ns.foldl visit { c with queue := rest }).queue ∨
            Done w st (ns.foldl visit { c with queue := rest }) j := by
        rintro j (hj | hj)
        · exact hold j (.inl hj)
        · exact (hk.new j hj).elim (fun hb => hold j (.inr hb)) .inl
      obtain ⟨c', hc', hempty, hinv, hfin⟩ := ih _ h₁ hnext (by omega)
      exact ⟨c', by simp [loop, hq, hns, bind, Except.bind, hc'], hempty, hinv, hfin⟩

end Closure

/-- The queue the propagation starts with. -/
def failedNodeIds (w : Workflow) (st : StatusMap) : List String :=
  (w.nodes.filter fun n => decide (st.of n.id = .failed)).map (·.id)

theorem mem_failedNodeIds {w : Workflow} {st : StatusMap} {i : String} :
    i ∈ failedNodeIds w st ↔ i ∈ w.nodeIds ∧ st.of i = .failed := by
  simp only [failedNodeIds, List.mem_map, List.mem_filter, decide_eq_true_eq, Workflow.mem_nodeIds]
  constructor
  · rintro ⟨n, ⟨hn, hf⟩, rfl⟩
    exact ⟨⟨n, hn, rfl⟩, hf⟩
  · rintro ⟨⟨n, hn, rfl⟩, hf⟩
    exact ⟨n, ⟨hn, hf⟩, rfl⟩

/-- The propagation loop runs until its queue is empty, and has then found the blocked nodes. -/
theorem Closure.loop_blocked {w : Workflow} (h : w.Closed) (st : StatusMap) :
    ∃ c, Closure.loop (DAG.mirror w) ((failedNodeIds w st).length + w.nodes.length) ⟨st, [],
      failedNodeIds w st⟩ = .ok c ∧
      c.queue = [] ∧ ∀ i, i ∈ c.blockedNodeIds ↔ Blocked w st i := by
  obtain ⟨c, hc, hempty, hinv, hdone⟩ := @Closure.loop_spec w st h _ ⟨st, [], failedNodeIds w st⟩
    ⟨by simp, by simp, by simp, fun i hi => .inl (mem_failedNodeIds.1 hi)⟩
    (fun i hi => .inl (mem_failedNodeIds.2 (hi.resolve_right (by simp)))) (le_refl _)
  refine ⟨c, hc, hempty, fun i => ⟨hinv.sound i, fun hi => ?_⟩⟩
  induction hi with
  | direct hn hp hd hf => exact hdone _ (.inl ⟨h.known _ hn _ hd, hf⟩) _ hn hd hp
  | through hn hp hd _ ih => exact hdone _ (.inr ih) _ hn hd hp

/-- Failure propagation finds exactly the blocked nodes, each once and in workflow order. -/
theorem evaluateFailedDependencyNodeIds_spec {w : Workflow} (h : w.Closed) (st : StatusMap) :
    ∃ ids, evaluateFailedDependencyNodeIds w st = .ok ids ∧ ids.Sublist w.nodeIds ∧ ids.Nodup ∧
      ∀ i, i ∈ ids ↔ Blocked w st i := by
  obtain ⟨c, hc, -, hblocked⟩ := Closure.loop_blocked h st
  refine ⟨w.nodeIds.filter (· ∈ c.blockedNodeIds), ?_, List.filter_sublist, h.nodup.filter _, fun i => ?_⟩
  · simp only [evaluateFailedDependencyNodeIds, DAG.fromWorkflow_eq h, bind, Except.bind]
    rw [failedNodeIds] at hc
    rw [hc]
    rfl
  · rw [List.mem_filter, decide_eq_true_eq, hblocked]
    exact ⟨And.right, fun hi => ⟨hi.mem, hi⟩⟩

theorem mem_evaluateReadyNodeIds {w : Workflow} {st : StatusMap} {i : String} :
    i ∈ evaluateReadyNodeIds w st ↔
      ∃ n ∈ w.nodes, n.id = i ∧ st.of i = .pending ∧ ∀ d ∈ n.dependencies, st.of d = .completed := by
  simp only [evaluateReadyNodeIds, List.mem_map, List.mem_filter, Bool.and_eq_true, decide_eq_true_eq,
    List.all_eq_true]
  grind

end WorkflowEngine
