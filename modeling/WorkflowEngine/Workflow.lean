import Mathlib.Data.List.Nodup
import WorkflowEngine.Python

/-!
# Workflow definitions and their traversal graph

The definition model, the graph `DAG.from_workflow` builds from it, and the two pure
evaluations over a map of node statuses: the ready nodes and the nodes blocked by a failed
dependency. A node absent from the status map counts as pending.
-/
namespace WorkflowEngine

inductive WorkflowExecutionStatus where
  | pending | running | completed | failed
  deriving DecidableEq, Repr

def WorkflowExecutionStatus.value : WorkflowExecutionStatus → String
  | .pending => "pending"
  | .running => "running"
  | .completed => "completed"
  | .failed => "failed"

inductive NodeExecutionStatus where
  | pending | running | completed | failed
  deriving DecidableEq, Repr

def NodeExecutionStatus.value : NodeExecutionStatus → String
  | .pending => "pending"
  | .running => "running"
  | .completed => "completed"
  | .failed => "failed"

structure WorkflowNode where
  id : String
  handler : String
  dependencies : List String
  config : Dict Json
  deriving DecidableEq, Repr

structure Workflow where
  workflowId : Uuid
  name : String
  nodes : List WorkflowNode
  deriving DecidableEq, Repr

namespace Workflow

/-- The identifiers in workflow order. -/
def nodeIds (w : Workflow) : List String := w.nodes.map (·.id)

/-- What validation guarantees about the graph of an accepted definition. -/
structure WellFormed (w : Workflow) : Prop where
  nodup : w.nodeIds.Nodup
  known : ∀ n ∈ w.nodes, ∀ d ∈ n.dependencies, d ∈ w.nodeIds
  irreflexive : ∀ n ∈ w.nodes, n.id ∉ n.dependencies
  distinct : ∀ n ∈ w.nodes, n.dependencies.Nodup
  acyclic : ∃ rank : String → Nat, ∀ n ∈ w.nodes, ∀ d ∈ n.dependencies, rank d < rank n.id

theorem mem_nodeIds {w : Workflow} {i : String} : i ∈ w.nodeIds ↔ ∃ n ∈ w.nodes, n.id = i := by
  simp [nodeIds]

theorem WellFormed.node_ext {w : Workflow} (h : w.WellFormed) {m n : WorkflowNode}
    (hm : m ∈ w.nodes) (hn : n ∈ w.nodes) (he : m.id = n.id) : m = n :=
  List.inj_on_of_nodup_map h.nodup hm hn he

end Workflow

/-- A partial map from node identifiers to statuses. -/
abbrev StatusMap := String → Option NodeExecutionStatus

/-- `statuses.get(node_id, NodeExecutionStatus.PENDING)`. -/
def StatusMap.of (st : StatusMap) (i : String) : NodeExecutionStatus := (st i).getD .pending

structure DAGNode where
  nodeId : String
  handler : String
  config : Dict Json
  dependencies : List String
  dependants : List String
  deriving DecidableEq, Repr

structure DAG where
  nodesById : Dict DAGNode
  rootNodeIds : List String
  terminalNodeIds : List String
  deriving DecidableEq, Repr

namespace DAG

def getNode (g : DAG) (nodeId : String) : Except PyError DAGNode :=
  match Dict.get? g.nodesById nodeId with
  | some n => .ok n
  | none => .error (.keyError nodeId)

def getDependencies (g : DAG) (nodeId : String) : Except PyError (List DAGNode) := do
  let n ← g.getNode nodeId
  n.dependencies.mapM g.getNode

def getDependants (g : DAG) (nodeId : String) : Except PyError (List DAGNode) := do
  let n ← g.getNode nodeId
  n.dependants.mapM g.getNode

def getRoots (g : DAG) : Except PyError (List DAGNode) := g.rootNodeIds.mapM g.getNode

def getTerminals (g : DAG) : Except PyError (List DAGNode) := g.terminalNodeIds.mapM g.getNode

/-- `dependants_by_id[dependency_id].append(node_id)`. -/
def appendDependant (nodeId : String) (acc : Dict (List String)) (dependencyId : String) :
    Except PyError (Dict (List String)) :=
  match Dict.get? acc dependencyId with
  | some l => .ok (Dict.set acc dependencyId (l ++ [nodeId]))
  | none => .error (.keyError dependencyId)

/-- The first pass: every node under its identifier, still without dependants. -/
def collectNodes (nodes : List WorkflowNode) : Dict DAGNode :=
  nodes.foldl (fun acc n => Dict.set acc n.id ⟨n.id, n.handler, n.config, n.dependencies, []⟩) []

/-- The second pass: the reverse adjacency, by accumulation over every declared dependency. -/
def collectDependants (nodes : List WorkflowNode) : Except PyError (Dict (List String)) :=
  nodes.foldlM (fun acc n => n.dependencies.foldlM (appendDependant n.id) acc)
    (nodes.foldl (fun acc n => Dict.set acc n.id []) [])

def fromWorkflow (w : Workflow) : Except PyError DAG := do
  let dependantsById ← collectDependants w.nodes
  let nodesById ← (collectNodes w.nodes).mapM fun m =>
    match Dict.get? dependantsById m.1 with
    | some l => Except.ok (m.1, { m.2 with dependants := l })
    | none => .error (PyError.keyError m.1)
  return ⟨nodesById, (nodesById.filter fun m => m.2.dependencies.isEmpty).map (·.1),
    (nodesById.filter fun m => m.2.dependants.isEmpty).map (·.1)⟩

end DAG

def evaluateReadyNodeIds (w : Workflow) (statuses : StatusMap) : List String :=
  (w.nodes.filter fun n => decide (statuses.of n.id = .pending) &&
    n.dependencies.all fun d => decide (statuses.of d = .completed)).map (·.id)

/-- The variables of the propagation loop. -/
structure Closure where
  statuses : StatusMap
  blockedNodeIds : List String
  queue : List String

namespace Closure

/-- The body of the inner loop, for one dependant. -/
def visit (c : Closure) (dependant : DAGNode) : Closure :=
  if c.statuses.of dependant.nodeId ≠ .pending then c
  else if dependant.nodeId ∈ c.blockedNodeIds then c
  else
    { statuses := fun i => if i = dependant.nodeId then some .failed else c.statuses i
      blockedNodeIds := c.blockedNodeIds ++ [dependant.nodeId]
      queue := c.queue ++ [dependant.nodeId] }

/-- `while queue`, with a bound on the number of rounds. -/
def loop (g : DAG) : Nat → Closure → Except PyError Closure
  | 0, c => .ok c
  | rounds + 1, c =>
    match c.queue with
    | [] => .ok c
    | i :: rest => do
      let dependants ← g.getDependants i
      loop g rounds (dependants.foldl visit { c with queue := rest })

end Closure

def evaluateFailedDependencyNodeIds (w : Workflow) (statuses : StatusMap) :
    Except PyError (List String) := do
  let g ← DAG.fromWorkflow w
  let queue := (w.nodes.filter fun n => decide (statuses.of n.id = .failed)).map (·.id)
  let c ← Closure.loop g (queue.length + w.nodes.length) ⟨statuses, [], queue⟩
  return w.nodeIds.filter (· ∈ c.blockedNodeIds)

end WorkflowEngine
