import Mathlib.Data.List.Chain
import WorkflowEngine.Acceptance

/-!
# Traversal

The graph of an accepted workflow lists every declared edge once in each direction, and
nothing else; its roots and terminals reach every node. On any workflow with distinct
identifiers and known dependencies, cyclic or not, failure propagation returns the pending
nodes at the end of a chain that starts at a failed node.
-/
namespace WorkflowEngine

namespace DAG

open Workflow (dependantsOf mem_dependantsOf)

variable {w : Workflow}

/-- `b` is listed in `get_dependants(a)`. -/
def Dependant (g : DAG) (a b : String) : Prop := ∃ ns, g.getDependants a = .ok ns ∧ b ∈ ns.map (·.nodeId)

/-- `b` is listed in `get_dependencies(a)`. -/
def Dependency (g : DAG) (a b : String) : Prop := ∃ ns, g.getDependencies a = .ok ns ∧ b ∈ ns.map (·.nodeId)

/-- The graph lists what the definition declares, in its order. -/
structure Mirrors (w : Workflow) (g : DAG) (roots terminals : List DAGNode) : Prop where
  node : ∀ n ∈ w.nodes, ∃ m, g.getNode n.id = .ok m ∧ m.nodeId = n.id ∧ m.handler = n.handler ∧ m.config = n.config
  dependencies : ∀ n ∈ w.nodes, ∃ ns, g.getDependencies n.id = .ok ns ∧ ns.map (·.nodeId) = n.dependencies ∧
    (ns.map (·.nodeId)).Nodup
  dependants : ∀ n ∈ w.nodes, ∃ ns, g.getDependants n.id = .ok ns ∧
    ns.map (·.nodeId) = (w.nodes.filter fun m => decide (n.id ∈ m.dependencies)).map (·.id) ∧ (ns.map (·.nodeId)).Nodup
  adjacent : ∀ a b, g.Dependant a b ↔ g.Dependency b a
  roots : g.getRoots = .ok roots ∧
    roots.map (·.nodeId) = (w.nodes.filter fun n => decide (n.dependencies = [])).map (·.id)
  terminals : g.getTerminals = .ok terminals ∧
    terminals.map (·.nodeId) = (w.nodes.filter fun n => decide (∀ m ∈ w.nodes, n.id ∉ m.dependencies)).map (·.id)

theorem dependantsOf_eq {nodes : List WorkflowNode} (h : ∀ n ∈ nodes, n.dependencies.Nodup) (k : String) :
    dependantsOf nodes k = (nodes.filter fun n => decide (k ∈ n.dependencies)).map (·.id) := by
  induction nodes with
  | nil => rfl
  | cons n nodes ih =>
    have hn : (n.dependencies.filter fun d => decide (d = k)) = if k ∈ n.dependencies then [k] else [] := by
      rw [List.filter_eq, (h n (by simp)).count]
      split <;> rfl
    have hrest := ih fun m hm => h m (by simp [hm])
    rw [dependantsOf] at hrest
    rw [dependantsOf, List.flatMap_cons, hrest, hn, List.filter_cons]
    by_cases hk : k ∈ n.dependencies
    · simp [hk]
    · simp [hk]

theorem getDependencies_mirror (h : w.Closed) {n : WorkflowNode} (hn : n ∈ w.nodes) :
    ∃ ns, (mirror w).getDependencies n.id = .ok ns ∧ ns.map (·.nodeId) = n.dependencies := by
  obtain ⟨ns, hns, hmap⟩ := mapM_getNode h n.dependencies (h.known n hn)
  refine ⟨ns, ?_, hmap⟩
  rw [getDependencies, getNode_mirror h hn]
  exact hns

/-- An identifier that `getNode` finds belongs to the workflow. -/
theorem mem_of_getNode {i : String} {m : DAGNode} (h : (mirror w).getNode i = .ok m) : i ∈ w.nodeIds := by
  rw [getNode] at h
  split at h
  · rename_i hget
    have hmem := (Dict.get?_isSome _ i).1 (by rw [hget]; rfl)
    simpa [mirror, graphOf, Workflow.nodeIds] using hmem
  · cases h

theorem dependant_mirror (h : w.Closed) {a b : String} : (mirror w).Dependant a b ↔ w.DependsOn b a := by
  constructor
  · rintro ⟨ns, hns, hb⟩
    have ha : a ∈ w.nodeIds := by
      cases hget : (mirror w).getNode a with
      | ok m => exact mem_of_getNode hget
      | error e => simp [getDependants, hget, bind, Except.bind] at hns
    obtain ⟨ns', hns', hmap⟩ := getDependants_mirror h ha
    cases hns.symm.trans hns'
    rw [hmap] at hb
    exact mem_dependantsOf.1 hb
  · rintro ⟨n, hn, rfl, hd⟩
    obtain ⟨ns, hns, hmap⟩ := getDependants_mirror h (h.known n hn a hd)
    exact ⟨ns, hns, hmap ▸ mem_dependantsOf.2 ⟨n, hn, rfl, hd⟩⟩

theorem dependency_mirror (h : w.WellFormed) {a b : String} : (mirror w).Dependency a b ↔ w.DependsOn a b := by
  constructor
  · rintro ⟨ns, hns, hb⟩
    have ha : a ∈ w.nodeIds := by
      cases hget : (mirror w).getNode a with
      | ok m => exact mem_of_getNode hget
      | error e => simp [getDependencies, hget, bind, Except.bind] at hns
    obtain ⟨n, hn, rfl⟩ := Workflow.mem_nodeIds.1 ha
    obtain ⟨ns', hns', hmap⟩ := getDependencies_mirror h.closed hn
    cases hns.symm.trans hns'
    exact ⟨n, hn, rfl, hmap ▸ hb⟩
  · rintro ⟨n, hn, rfl, hd⟩
    obtain ⟨ns, hns, hmap⟩ := getDependencies_mirror h.closed hn
    exact ⟨ns, hns, hmap ▸ hd⟩

theorem rootNodeIds_mirror :
    (mirror w).rootNodeIds = (w.nodes.filter fun n => decide (n.dependencies = [])).map (·.id) := by
  simp only [mirror, graphOf, List.filter_map, List.map_map, Function.comp_def, nodeOf]
  congr 1
  refine List.filter_congr fun n _ => ?_
  rw [Bool.eq_iff_iff, List.isEmpty_iff, decide_eq_true_eq]

theorem terminalNodeIds_mirror : (mirror w).terminalNodeIds =
    (w.nodes.filter fun n => decide (∀ m ∈ w.nodes, n.id ∉ m.dependencies)).map (·.id) := by
  simp only [mirror, graphOf, List.filter_map, List.map_map, Function.comp_def, nodeOf]
  congr 1
  refine List.filter_congr fun n _ => ?_
  rw [Bool.eq_iff_iff, List.isEmpty_iff, decide_eq_true_eq, List.eq_nil_iff_forall_not_mem]
  constructor
  · exact fun h m hm hd => h m.id (mem_dependantsOf.2 ⟨m, hm, rfl, hd⟩)
  · intro h x hx
    obtain ⟨m, hm, -, hd⟩ := mem_dependantsOf.1 hx
    exact h m hm hd

theorem mirror_mirrors (h : w.WellFormed) : ∃ roots terminals, Mirrors w (mirror w) roots terminals := by
  have hsub : ∀ (p : WorkflowNode → Bool), ∀ i ∈ (w.nodes.filter p).map (·.id), i ∈ w.nodeIds := by
    intro p i hi
    obtain ⟨n, hn, rfl⟩ := List.mem_map.1 hi
    exact List.mem_map_of_mem (List.mem_of_mem_filter hn)
  obtain ⟨roots, hroots, hrootIds⟩ := mapM_getNode h.closed (mirror w).rootNodeIds fun i hi =>
    hsub _ i (rootNodeIds_mirror ▸ hi)
  obtain ⟨terminals, hterminals, hterminalIds⟩ := mapM_getNode h.closed (mirror w).terminalNodeIds fun i hi =>
    hsub _ i (terminalNodeIds_mirror ▸ hi)
  refine ⟨roots, terminals, fun n hn => ?_, fun n hn => ?_, fun n hn => ?_, fun a b => ?_,
    ⟨hroots, hrootIds.trans rootNodeIds_mirror⟩, ⟨hterminals, hterminalIds.trans terminalNodeIds_mirror⟩⟩
  · exact ⟨_, getNode_mirror h.closed hn, rfl, rfl, rfl⟩
  · obtain ⟨ns, hns, hmap⟩ := getDependencies_mirror h.closed hn
    exact ⟨ns, hns, hmap, hmap ▸ h.distinct n hn⟩
  · obtain ⟨ns, hns, hmap⟩ := getDependants_mirror h.closed (List.mem_map_of_mem hn)
    rw [dependantsOf_eq h.distinct] at hmap
    exact ⟨ns, hns, hmap, hmap ▸ h.nodup.sublist (List.filter_sublist.map _)⟩
  · rw [dependant_mirror h.closed, dependency_mirror h]

/-- The graph of an accepted workflow mirrors its definition, and both ends reach every node. -/
theorem traversal_mirrors {env : ValidationEnv} {freshId : Uuid} {definition : Dict Json}
    (h : accept env freshId definition = .ok w) :
    ∃ g roots terminals, fromWorkflow w = .ok g ∧ Mirrors w g roots terminals ∧
      (w.nodes ≠ [] → roots ≠ [] ∧ terminals ≠ []) ∧
      ∀ i ∈ w.nodeIds, (∃ r ∈ roots, Relation.ReflTransGen g.Dependant r.nodeId i) ∧
        ∃ t ∈ terminals, Relation.ReflTransGen g.Dependency t.nodeId i := by
  have hw := accept_wellFormed h
  obtain ⟨roots, terminals, hmirrors⟩ := mirror_mirrors hw
  obtain ⟨rank, hranked⟩ := hw.ranked
  have hroot : ∀ i ∈ w.nodeIds, ∃ r ∈ roots, Relation.ReflTransGen (mirror w).Dependant r.nodeId i := by
    intro i hi
    obtain ⟨m, hm, hno, hreach⟩ := hranked.source hi
    obtain ⟨n, hn, rfl⟩ := Workflow.mem_nodeIds.1 hm
    have hmem : n.id ∈ roots.map (·.nodeId) := by
      rw [hmirrors.roots.2]
      refine List.mem_map_of_mem (List.mem_filter.2 ⟨hn,
        decide_eq_true (List.eq_nil_iff_forall_not_mem.2 fun d hd => ?_)⟩)
      exact hno d ⟨n, hn, rfl, hd⟩
    obtain ⟨r, hr, hid⟩ := List.mem_map.1 hmem
    refine ⟨r, hr, hid ▸ ?_⟩
    exact Relation.ReflTransGen.mono (fun a b hab => (dependant_mirror hw.closed).2 hab) _ _
      (Relation.reflTransGen_swap.2 hreach)
  have hterminal : ∀ i ∈ w.nodeIds, ∃ t ∈ terminals, Relation.ReflTransGen (mirror w).Dependency t.nodeId i := by
    intro i hi
    obtain ⟨m, hm, hno, hreach⟩ := hranked.sink hi
    obtain ⟨n, hn, rfl⟩ := Workflow.mem_nodeIds.1 hm
    have hmem : n.id ∈ terminals.map (·.nodeId) := by
      rw [hmirrors.terminals.2]
      refine List.mem_map_of_mem (List.mem_filter.2 ⟨hn, decide_eq_true fun k hk hd => ?_⟩)
      exact hno k.id (List.mem_map_of_mem hk) ⟨k, hk, rfl, hd⟩
    obtain ⟨t, ht, hid⟩ := List.mem_map.1 hmem
    refine ⟨t, ht, hid ▸ ?_⟩
    exact Relation.ReflTransGen.mono (fun a b hab => (dependency_mirror hw).2 hab) _ _
      (Relation.reflTransGen_swap.1 hreach)
  refine ⟨mirror w, roots, terminals, fromWorkflow_eq hw.closed, hmirrors, fun hne => ?_, fun i hi =>
    ⟨hroot i hi, hterminal i hi⟩⟩
  obtain ⟨n, hn⟩ := List.exists_mem_of_ne_nil _ hne
  obtain ⟨r, hr, -⟩ := hroot n.id (List.mem_map_of_mem hn)
  obtain ⟨t, ht, -⟩ := hterminal n.id (List.mem_map_of_mem hn)
  exact ⟨List.ne_nil_of_mem hr, List.ne_nil_of_mem ht⟩

/-- `a`, then `b` and `c`, then `d`. -/
def diamond : Workflow where
  workflowId := .v4 0
  name := "diamond"
  nodes := [⟨"a", "input", [], []⟩, ⟨"b", "output", ["a"], []⟩, ⟨"c", "output", ["a"], []⟩,
    ⟨"d", "output", ["b", "c"], []⟩]

/-- The payload that declares the nodes. -/
def payloadOf (w : Workflow) : Dict Json :=
  [("name", .str w.name), ("dag", .obj [("nodes", .arr (w.nodes.map fun n => .obj [("id", .str n.id),
    ("handler", .str n.handler), ("dependencies", .arr (n.dependencies.map .str)), ("config", .obj n.config)]))])]

/-- Outside the integration tests, for payloads without the optional fields. -/
def plainEnv : ValidationEnv := ⟨false, fun _ => "", fun _ => none, fun _ => false⟩

theorem traversal_mirrors_diamond :
    accept plainEnv (.v4 0) (payloadOf diamond) = .ok diamond ∧
      ∃ g roots terminals, fromWorkflow diamond = .ok g ∧ Mirrors diamond g roots terminals ∧ roots ≠ [] ∧
        terminals ≠ [] ∧ ∃ r ∈ roots, Relation.ReflTransGen g.Dependant r.nodeId "d" := by
  have h : accept plainEnv (.v4 0) (payloadOf diamond) = .ok diamond := by decide +kernel
  obtain ⟨g, roots, terminals, hg, hmirrors, hends, hreach⟩ := traversal_mirrors h
  obtain ⟨hroots, hterminals⟩ := hends (by simp [diamond])
  exact ⟨h, g, roots, terminals, hg, hmirrors, hroots, hterminals, (hreach "d" (by decide)).1⟩

end DAG

/-! ## Failure propagation -/

variable {w : Workflow} {st : StatusMap} {i : String}

/-- The last of a chain of pending nodes, each depending on the one before, after a failed node. -/
def FailureChain (w : Workflow) (st : StatusMap) (i : String) : Prop :=
  ∃ f ns, st.of f = .failed ∧ (f :: ns).IsChain (fun d n => w.DependsOn n d) ∧ (∀ n ∈ ns, st.of n = .pending) ∧
    ns.getLast? = some i

theorem Blocked.of_chain {ns : List String} : ∀ {f : String}, st.of f = .failed ∨ Blocked w st f →
    (f :: ns).IsChain (fun d n => w.DependsOn n d) → (∀ n ∈ ns, st.of n = .pending) → ∀ n ∈ ns, Blocked w st n := by
  induction ns with
  | nil => exact fun _ _ _ n hn => absurd hn (by simp)
  | cons m ns ih =>
    intro f hf hchain hpending n hn
    obtain ⟨⟨k, hk, rfl, hd⟩, hrest⟩ := List.isChain_cons_cons.1 hchain
    have hblocked : Blocked w st k.id :=
      hf.elim (.direct hk (hpending _ (by simp)) hd) (.through hk (hpending _ (by simp)) hd)
    rcases List.mem_cons.1 hn with rfl | hn
    · exact hblocked
    · exact ih (.inr hblocked) hrest (fun j hj => hpending j (by simp [hj])) n hn

theorem blocked_iff_chain : Blocked w st i ↔ FailureChain w st i := by
  constructor
  · intro h
    induction h with
    | @direct n d hn hp hd hf => exact ⟨d, [n.id], hf, List.isChain_pair.2 ⟨n, hn, rfl, hd⟩, by simpa using hp, rfl⟩
    | @through n d hn hp hd _ ih =>
      obtain ⟨f, ns, hf, hchain, hpending, hlast⟩ := ih
      refine ⟨f, ns ++ [n.id], hf, ?_, ?_, by simp⟩
      · refine hchain.append (List.isChain_singleton n.id) fun x hx y hy => ?_
        have hx : x = d := by
          rw [List.getLast?_cons, hlast] at hx
          exact (Option.some.inj hx).symm
        obtain rfl : y = n.id := (Option.some.inj hy).symm
        exact ⟨n, hn, rfl, hx ▸ hd⟩
      · intro m hm
        rcases List.mem_append.1 hm with hm | hm
        · exact hpending m hm
        · rw [List.mem_singleton.1 hm]
          exact hp
  · rintro ⟨f, ns, hf, hchain, hpending, hlast⟩
    exact Blocked.of_chain (.inl hf) hchain hpending i (List.mem_of_getLast? hlast)

/-- The statuses after the returned nodes were marked. -/
def StatusMap.markFailed (st : StatusMap) (ids : List String) : StatusMap :=
  fun i => if i ∈ ids then some .failed else st i

theorem markFailed_of {ids : List String} : (st.markFailed ids).of i = if i ∈ ids then .failed else st.of i := by
  by_cases hi : i ∈ ids
  · simp [StatusMap.markFailed, StatusMap.of, hi]
  · simp [StatusMap.markFailed, StatusMap.of, hi]

/-- Where no started node has a dependency that is not completed, a node that depends on a
failed one has failed after the propagation. -/
theorem failed_of_dependsOn {ids : List String} (hids : ∀ i, i ∈ ids ↔ Blocked w st i)
    (hstarted : ∀ n ∈ w.nodes, st.of n.id = .running ∨ st.of n.id = .completed →
      ∀ d ∈ n.dependencies, st.of d = .completed)
    {a : String} (hdep : w.DependsOn i a) (ha : (st.markFailed ids).of a = .failed) :
    (st.markFailed ids).of i = .failed := by
  obtain ⟨n, hn, rfl, hd⟩ := hdep
  have hdown : st.of a = .failed ∨ Blocked w st a := by
    rw [markFailed_of] at ha
    split at ha
    · exact .inr ((hids a).1 ‹_›)
    · exact .inl ha
  have hne : st.of a ≠ .completed := by
    intro hc
    rcases hdown with hf | hb
    · rw [hc] at hf
      cases hf
    · rw [hb.pending] at hc
      cases hc
  rw [markFailed_of]
  split
  · rfl
  · rename_i hnot
    cases hst : st.of n.id with
    | failed => rfl
    | running => exact absurd (hstarted n hn (.inl hst) a hd) hne
    | completed => exact absurd (hstarted n hn (.inr hst) a hd) hne
    | pending => exact absurd ((hids n.id).2 (hdown.elim (.direct hn hst hd) (.through hn hst hd))) hnot

/-- The loop ends with an empty queue and the result is exactly the blocked closure, each node once
and in workflow order. Where started nodes have completed dependencies only, no pending node is
left with a failed ancestor. -/
theorem failure_propagation (h : w.Closed) (st : StatusMap) :
    ∃ g c ids, DAG.fromWorkflow w = .ok g ∧
      Closure.loop g ((failedNodeIds w st).length + w.nodes.length) ⟨st, [], failedNodeIds w st⟩ = .ok c ∧
      c.queue = [] ∧
      evaluateFailedDependencyNodeIds w st = .ok ids ∧ ids.Sublist w.nodeIds ∧ ids.Nodup ∧
      (∀ i, i ∈ ids ↔ FailureChain w st i) ∧
      ((∀ n ∈ w.nodes, st.of n.id = .running ∨ st.of n.id = .completed → ∀ d ∈ n.dependencies, st.of d = .completed) →
        ∀ i ∈ w.nodeIds, (st.markFailed ids).of i = .pending → ∀ a, Relation.TransGen w.DependsOn i a →
          (st.markFailed ids).of a ≠ .failed) := by
  obtain ⟨c, hc, hempty, -⟩ := Closure.loop_blocked h st
  obtain ⟨ids, hids, hsub, hnodup, hblocked⟩ := evaluateFailedDependencyNodeIds_spec h st
  refine ⟨_, c, ids, DAG.fromWorkflow_eq h, hc, hempty, hids, hsub, hnodup,
    fun i => (hblocked i).trans blocked_iff_chain, ?_⟩
  intro hstarted i _ hpending a hreach ha
  -- the failure comes down the path, from the ancestor to the node
  have hfailed : ∀ j, Relation.TransGen w.DependsOn j a → (st.markFailed ids).of j = .failed := by
    intro j hj
    induction hj using Relation.TransGen.head_induction_on with
    | single hdep => exact failed_of_dependsOn hblocked hstarted hdep ha
    | head hdep _ ih => exact failed_of_dependsOn hblocked hstarted hdep ih
  rw [hfailed i hreach] at hpending
  cases hpending

/-- Two nodes that depend on each other, and one that has failed. -/
def knot : Workflow :=
  ⟨.v4 0, "knot", [⟨"f", "input", [], []⟩, ⟨"p", "output", ["f", "q"], []⟩, ⟨"q", "output", ["p"], []⟩]⟩

theorem failure_propagation_knot : ∃ ids, evaluateFailedDependencyNodeIds knot
    (fun i => if i = "f" then some .failed else none) = .ok ids ∧ ids.Sublist ["f", "p", "q"] ∧
      ∀ i, i ∈ ids ↔ FailureChain knot (fun i => if i = "f" then some .failed else none) i := by
  obtain ⟨-, -, ids, -, -, -, hids, hsub, -, hchain, -⟩ := failure_propagation (w := knot) ⟨by decide, by decide⟩
    (fun i => if i = "f" then some .failed else none)
  exact ⟨ids, hids, hsub, hchain⟩

end WorkflowEngine
