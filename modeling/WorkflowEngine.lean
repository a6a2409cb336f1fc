import WorkflowEngine.Lib.Transition
import WorkflowEngine.Lib.Table
import WorkflowEngine.Lib.Stream
import WorkflowEngine.Lib.Consumer
import WorkflowEngine.Lib.Pointwise
import WorkflowEngine.Lib.Ranked
import WorkflowEngine.Lib.Scan
import WorkflowEngine.Lib.Lifespan
import WorkflowEngine.Lib.Pool
import WorkflowEngine.Python
import WorkflowEngine.Workflow
import WorkflowEngine.Validation
import WorkflowEngine.Templates
import WorkflowEngine.Persistence
import WorkflowEngine.Services
import WorkflowEngine.System
import WorkflowEngine.Graph
import WorkflowEngine.CycleSearch
import WorkflowEngine.CycleReports
import WorkflowEngine.Acceptance
import WorkflowEngine.DependencyRun
import WorkflowEngine.Rows
import WorkflowEngine.Completion
import WorkflowEngine.Dispatching
import WorkflowEngine.Steps
import WorkflowEngine.Consistency
import WorkflowEngine.Tasks
import WorkflowEngine.Exhaustion
import WorkflowEngine.Attempts
import WorkflowEngine.Workers
import WorkflowEngine.Guarantees
import WorkflowEngine.Acknowledgement
import WorkflowEngine.Results
import WorkflowEngine.Batches
import WorkflowEngine.Identifiers
import WorkflowEngine.Sequences
import WorkflowEngine.Totality
import WorkflowEngine.Deliveries
import WorkflowEngine.RetryChains
import WorkflowEngine.Outcomes
import WorkflowEngine.Duplicates
import WorkflowEngine.Decisions
import WorkflowEngine.TaskStatus
import WorkflowEngine.RoundTrip
import WorkflowEngine.Transitions
import WorkflowEngine.LifecycleEvents
import WorkflowEngine.OutboxPublisher
import WorkflowEngine.WakeUp
import WorkflowEngine.Quiescence
import WorkflowEngine.Answers
import WorkflowEngine.NodeData
import WorkflowEngine.Determinism
import WorkflowEngine.Traversal
import WorkflowEngine.Scheduling
import WorkflowEngine.Definitions
import WorkflowEngine.TemplateDelimiters
import WorkflowEngine.TemplateGrammar
import WorkflowEngine.Substitution
import WorkflowEngine.TaskMessages
import WorkflowEngine.Isolation
import WorkflowEngine.Backoff
import WorkflowEngine.WorkerRuntime
import WorkflowEngine.Leases
import WorkflowEngine.MalformedTasks
import WorkflowEngine.OpenRuns
import WorkflowEngine.ExecutionResults
import WorkflowEngine.Timeline
import WorkflowEngine.Requests
import WorkflowEngine.Api
import WorkflowEngine.Interpreter
import WorkflowEngine.Handlers
import WorkflowEngine.Termination
import WorkflowEngine.TaskProcessing
