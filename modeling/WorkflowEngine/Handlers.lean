import WorkflowEngine.Interpreter

/-!
# The built-in handlers

What a worker executes for a task: the registry resolves the name of the handler, and the handler
answers from the message and from settings in the worker's environment. Every task of the engine
comes from a node that validation has accepted, so its handler is known and its configuration has
what the handler asks for; what a handler answers does not depend on the attempt.
-/
namespace WorkflowEngine

open Database Validation

/-- What the handlers read from outside `src`: the environment, `int` and `float` of a text (of a float
that is not finite without its value), SHA-256 as a number, the first `random()` of a generator with a
seed, the `choice` of three that follows it, and the wait at the barrier of the integration tests. -/
structure WorkerEnv where
  getenv : String → Option String
  int : String → Option Int
  float : String → Option (Option Rat)
  sha256 : String → Nat
  random : Int → Rat
  choice : Int → Fin 3
  barrier : NodeTaskMessage → Except (String × String) (Dict Json)

/-- The text and the type of an exception. -/
abbrev HandlerError := String × String

def valueError (message : String) : HandlerError := (message, "ValueError")

/-- `raise ValueError(message)` unless the condition holds. -/
def require (condition : Prop) [Decidable condition] (message : String) : Except HandlerError Unit :=
  if condition then .ok () else .error (valueError message)

/-! ## Settings -/

/-- `MockExternalServiceSettings` and `MockLlmServiceSettings`. -/
structure MockSettings where
  seed : Int
  latencyMs : Int
  forceFail : Bool
  failureRate : Rat
  failureMessage : String
  deriving DecidableEq, Repr

namespace MockSettings

variable (env : WorkerEnv)

def integerEnvironmentValue (name : String) (default : Int) : Except HandlerError Int :=
  match env.getenv name with
  | none => .ok default
  | some value =>
    match env.int value with
    | some i => .ok i
    | none => .error (valueError (name ++ " must be an integer."))

def floatEnvironmentValue (name : String) (default : Rat) : Except HandlerError (Option Rat) :=
  match env.getenv name with
  | none => .ok (some default)
  | some value =>
    match env.float value with
    | some q => .ok q
    | none => .error (valueError (name ++ " must be a number from 0 to 1."))

def booleanEnvironmentValue (name : String) (default : Bool) : Except HandlerError Bool :=
  match env.getenv name with
  | none => .ok default
  | some value =>
    if value.toLower = "true" then .ok true
    else if value.toLower = "false" then .ok false
    else .error (valueError (name ++ " must be true or false."))

/-- `0.0 <= failure_rate <= 1.0`, which no float fulfils that is not finite. -/
def rateOf (name : String) : Option Rat → Except HandlerError Rat
  | some q => do
    require (0 ≤ q ∧ q ≤ 1) (name ++ " must be from 0 to 1.")
    return q
  | none => .error (valueError (name ++ " must be from 0 to 1."))

/-- `_settings_from_environment` of both services. -/
def fromEnvironment (service : String) (defaultLatencyMs : Int) (defaultFailureMessage : String) :
    Except HandlerError MockSettings := do
  let latencyMs ← integerEnvironmentValue env (service ++ "_LATENCY_MS") defaultLatencyMs
  require (0 ≤ latencyMs) (service ++ "_LATENCY_MS must be a non-negative integer.")
  let failureRate ← floatEnvironmentValue env (service ++ "_FAILURE_RATE") 0
  let failureRate ← rateOf (service ++ "_FAILURE_RATE") failureRate
  let failureMessage := (env.getenv (service ++ "_FAILURE_MESSAGE")).getD defaultFailureMessage
  require (failureMessage ≠ "") (service ++ "_FAILURE_MESSAGE must be a non-empty string.")
  let seed ← integerEnvironmentValue env (service ++ "_SEED") 0
  let forceFail ← booleanEnvironmentValue env (service ++ "_FORCE_FAIL") false
  return ⟨seed, latencyMs, forceFail, failureRate, failureMessage⟩

/-- The draw of the generator seeded with the text, unless the failure is forced. -/
def fails (settings : MockSettings) (text : String) : Bool :=
  settings.forceFail || decide (env.random (settings.seed + env.sha256 text) < settings.failureRate)

end MockSettings

/-! ## Handlers -/

/-- `asyncio.sleep(latency_ms / 1000)`: the quotient of two integers is rounded to a double, if there is one. -/
def sleep (latencyMs : Int) : Except HandlerError Unit :=
  if intOverflow ≤ |(latencyMs : Rat) / 1000| then
    .error ("integer division result too large for a float", "OverflowError")
  else .ok ()

/-- `NodeHandler.execute`. -/
abbrev NodeHandler := NodeTaskMessage → Except HandlerError (Dict Json)

namespace InputNodeHandler

def execute : NodeHandler := fun task => .ok task.resolvedInput

end InputNodeHandler

namespace OutputNodeHandler

def execute : NodeHandler := fun task => .ok task.resolvedInput

end OutputNodeHandler

namespace IntegrationBarrierNodeHandler

def execute (env : WorkerEnv) : NodeHandler := fun task =>
  if env.getenv "INTEGRATION_TEST" = some "1" then env.barrier task
  else .error ("The integration barrier handler is only available in integration tests.", "RuntimeError")

end IntegrationBarrierNodeHandler

namespace MockExternalServiceNodeHandler

def settingsFromEnvironment (env : WorkerEnv) : Except HandlerError MockSettings :=
  MockSettings.fromEnvironment env "MOCK_EXTERNAL_SERVICE" 1500 "Mock external service failure."

def latencyMs (settings : MockSettings) (config : Dict Json) : Except HandlerError Int :=
  match Dict.get? config "latency_ms" with
  | none | some .null => .ok settings.latencyMs
  | some (.int i) =>
    if i < 0 then .error (valueError "Handler 'call_external_service' config.latency_ms must be non-negative.")
    else .ok i
  | some _ => .error (valueError "Handler 'call_external_service' config.latency_ms must be an integer.")

def url (config : Dict Json) : Except HandlerError String :=
  match Dict.get? config "url" with
  | some (.str url) =>
    if blank url then .error (valueError "Handler 'call_external_service' requires a non-empty config.url.")
    else .ok url
  | _ => .error (valueError "Handler 'call_external_service' requires a non-empty config.url.")

def execute (env : WorkerEnv) (settings : MockSettings) : NodeHandler := fun task => do
  let url ← url task.handlerConfig
  let latencyMs ← latencyMs settings task.handlerConfig
  sleep latencyMs
  if settings.fails env url then .error (valueError settings.failureMessage)
  else .ok [("status", .str "mocked"), ("url", .str url), ("input", .obj task.resolvedInput)]

end MockExternalServiceNodeHandler

namespace MockLlmServiceNodeHandler

def settingsFromEnvironment (env : WorkerEnv) : Except HandlerError MockSettings :=
  MockSettings.fromEnvironment env "MOCK_LLM" 10 "Mock LLM service failure."

def maxPromptSnippetLength : Nat := 160

/-- `_RESPONSE_TEMPLATES`, each up to its `\x7bprompt\x7d` at the end. -/
def responseTemplates : Fin 3 → String
  | 0 => "Mock analysis: "
  | 1 => "Mock generated response based on: "
  | 2 => "Mock completion: "

def prompt (resolvedInput : Dict Json) : Except HandlerError String :=
  match Dict.get? resolvedInput "prompt" with
  | some (.str prompt) => .ok prompt
  | _ => .error (valueError "Handler 'llm_service' requires a string resolved_input.prompt.")

def execute (env : WorkerEnv) (settings : MockSettings) : NodeHandler := fun task => do
  let prompt ← prompt task.resolvedInput
  sleep settings.latencyMs
  if settings.fails env prompt then .error (valueError settings.failureMessage)
  else
    let template := responseTemplates (env.choice (settings.seed + env.sha256 prompt))
    .ok [("response", .str (template ++ String.ofList (prompt.toList.take maxPromptSnippetLength)))]

end MockLlmServiceNodeHandler

/-! ## The registry -/

structure NodeHandlerRegistry where
  handlers : Option (Dict NodeHandler)

namespace NodeHandlerRegistry

/-- `NodeHandlerRegistry()`. -/
def builtIn : NodeHandlerRegistry := ⟨none⟩

def unknownNodeHandler (handlerName : String) : HandlerError :=
  ("No worker handler is registered for '" ++ handlerName ++ "'.", "UnknownNodeHandlerError")

/-- The mock handlers are constructed here, with the settings that the environment has now. -/
def resolve (env : WorkerEnv) (registry : NodeHandlerRegistry) (handlerName : String) :
    Except HandlerError NodeHandler :=
  match registry.handlers with
  | some handlers =>
    match handlers.get? handlerName with
    | some handler => .ok handler
    | none => .error (unknownNodeHandler handlerName)
  | none =>
    if handlerName = "input" then .ok InputNodeHandler.execute
    else if handlerName = "integration_barrier" then .ok (IntegrationBarrierNodeHandler.execute env)
    else if handlerName = "output" then .ok OutputNodeHandler.execute
    else if handlerName = "call_external_service" then do
      return MockExternalServiceNodeHandler.execute env (← MockExternalServiceNodeHandler.settingsFromEnvironment env)
    else if handlerName = "llm_service" then do
      return MockLlmServiceNodeHandler.execute env (← MockLlmServiceNodeHandler.settingsFromEnvironment env)
    else .error (unknownNodeHandler handlerName)

end NodeHandlerRegistry

namespace WorkerTaskExecutor

def execute (env : WorkerEnv) (registry : NodeHandlerRegistry) : NodeHandler := fun task => do
  let handler ← registry.resolve env task.handler
  handler task

/-- The outcome that the worker records: the output or the text and the type of the exception. -/
def outcome (env : WorkerEnv) (registry : NodeHandlerRegistry) (task : NodeTaskMessage) : System.HandlerOutcome :=
  match execute env registry task with
  | .ok output => .success (.obj output)
  | .error error => .failure error.1 error.2

end WorkerTaskExecutor

/-! ## Accepted nodes -/

/-- The handler of the node is allowed, and its configuration is as the handler's rule asks for. -/
def Validation.HandlerMet (env : ValidationEnv) (n : WorkflowNode) : Prop :=
  n.handler ∈ allowedHandlers env ∧ ConfigurationMet (rawNode n)

theorem modelNode_config {env : ValidationEnv} {m : Dict Json} {n : RawNode} {node : WorkflowNode} (hmn : Reads m n)
    (h : modelNode env (.obj m) = some node) : n = rawNode node := by
  have hmodels := modelNode_models hmn h
  have hconfig : n.config = .obj node.config := by
    simp only [modelNode, Json.asMapping?, Option.bind_eq_bind, Option.bind_some, Option.bind_eq_some_iff,
      hmn.config] at h
    obtain ⟨_, _, _, _, _, _, config, hconfig, _, _, hnode⟩ := h
    cases hnode
    cases hc : n.config with
    | obj c =>
      rw [hc] at hconfig
      cases hconfig
      rfl
    | _ =>
      rw [hc] at hconfig
      cases hconfig
  obtain ⟨id, handler, dependencies, config⟩ := n
  simp only [rawNode, RawNode.mk.injEq]
  exact ⟨hmodels.id.symm, hmodels.handler.symm, hmodels.dependencies.symm, hconfig⟩

theorem modelWorkflow_nodes {env : ValidationEnv} {freshId : Uuid} {definition : Dict Json} {name : String}
    {nodes : List RawNode} {w : Workflow} (h : Shape definition name nodes)
    (hmodel : modelWorkflow env freshId definition = some w) :
    nodes = w.nodes.map rawNode := by
  obtain ⟨dag, maps, hdag, hnodes, hreads⟩ := h.nodes
  have hmapM : (maps.map Json.obj).mapM (modelNode env) = some w.nodes := by
    simp only [modelWorkflow, Option.bind_eq_bind, hdag, hnodes, Option.getD_some, Json.asMapping?, Json.asList?,
      Option.bind_some] at hmodel
    split at hmodel <;> simp only [Option.bind_eq_some_iff] at hmodel
    · obtain ⟨_, _, built, hbuilt, _, _, hw⟩ := hmodel
      cases hw
      exact hbuilt
    · obtain ⟨_, _, _, _, built, hbuilt, _, _, hw⟩ := hmodel
      cases hw
      exact hbuilt
  rw [Pointwise.mapM_eq_some, List.forall₂_map_left_iff] at hmapM
  have hsame : List.Forall₂ (fun n node => n = rawNode node) nodes w.nodes :=
    Pointwise.through hreads hmapM fun m n node hmn hnode => modelNode_config hmn hnode
  rwa [← List.forall₂_map_right_iff (f := rawNode) (R := Eq), List.forall₂_eq_eq_eq] at hsame

/-- Every node of an accepted definition meets the rules of its handler. -/
theorem accept_handlers {env : ValidationEnv} {freshId : Uuid} {definition : Dict Json} {w : Workflow}
    (h : accept env freshId definition = .ok w) : ∀ n ∈ w.nodes, HandlerMet env n := by
  simp only [accept, bind, Except.bind] at h
  cases hval : validate env definition with
  | error e => simp [hval] at h
  | ok errors =>
    simp only [hval] at h
    split at h
    · cases h
    · rename_i hnil
      obtain rfl := not_not.1 hnil
      obtain ⟨name, nodes, hshape⟩ := shape_of_validate hval
      obtain ⟨errors, herrors, hiff⟩ := validate_shape env hshape
      have hwell := hiff.1 (Except.ok.inj (herrors.symm.trans hval))
      cases hmodel : modelWorkflow env freshId definition with
      | none => simp [hmodel] at h
      | some w' =>
        simp only [hmodel, Except.ok.injEq] at h
        subst h
        intro n hn
        have hmem : rawNode n ∈ nodes := modelWorkflow_nodes hshape hmodel ▸ List.mem_map_of_mem hn
        exact hwell.handlers _ hmem

/-- The task was made for a node of the workflow of its execution. -/
def Database.MadeFor (db : Database) (task : LogicalTaskRecord) : Prop :=
  ∃ x w n, db.getExecutionById task.executionId = some x ∧ db.getWorkflowById x.workflowId = some w ∧ n ∈ w.nodes ∧
    n.id = task.nodeId ∧ n.handler = task.handler ∧ n.config = task.handlerConfig

namespace System

variable {cfg : Config} {s t : System} {a : Action} {e : Uuid} {m : NodeTaskMessage}

theorem reachable_handlers (h : Reachable cfg anyStep s) :
    ∀ w ∈ s.db.workflows, ∀ n ∈ w.nodes, HandlerMet cfg.validation n := by
  refine Transition.Reachable.invariant
    (P := fun s => ∀ w ∈ s.db.workflows, ∀ n ∈ w.nodes, HandlerMet cfg.validation n) ?_
      (fun s a t hr hs _ ht w hw => ?_) h
  · simp [init, Database.empty]
  · have hc := reachable_consistent hr
    rcases (step_kind hc.sound ht).workflows hc (reachable_dispatches hr) with heq | ⟨w', _, haccept, heq⟩
    · exact hs w (heq ▸ hw)
    · rw [heq] at hw
      rcases List.mem_append.1 hw with hw | hw
      · exact hs w hw
      · rw [List.mem_singleton.1 hw]
        exact accept_handlers haccept

/-- A task is known, or a dispatch has just made it. -/
theorem Kind.madeFor (hk : Kind cfg s t) (hc : Consistent s) (hd : Dispatches s) {task : LogicalTaskRecord}
    (htask : task ∈ t.db.logicalTasks) :
    (∃ task₀ ∈ s.db.logicalTasks, task₀.identity = task.identity) ∨ s.db.MadeFor task := by
  have hsame : t.db.logicalTasks.map (·.identity) = s.db.logicalTasks.map (·.identity) →
      (∃ task₀ ∈ s.db.logicalTasks, task₀.identity = task.identity) ∨ s.db.MadeFor task := fun heq =>
    .inl (List.mem_map.1 (heq ▸ List.mem_map_of_mem htask))
  cases hk with
  | quiet quiet => exact hsame (by rw [quiet.tasks])
  | submit _ _ _ _ eq | evaluate _ _ _ eq | read _ _ _ eq =>
    subst eq
    exact hsame rfl
  | trigger _ commit eq =>
    subst eq
    obtain ⟨-, rfl⟩ := triggerCommit_ok hc.sound commit
    exact hsame rfl
  | process _ _ _ processed eq =>
    subst eq
    exact hsame (processed_slots (process_ok hc.sound hc.runs processed).2).1
  | @dispatch k j h x nodes n phase result db handling toDispatch node dispatched _ eq =>
    subst eq
    rcases dispatch_cases hc hd handling toDispatch node dispatched with ⟨rfl, -⟩ | ⟨r, input, -, -, -, -, rfl⟩
    · exact hsame rfl
    · rcases List.mem_append.1 htask with hmem | hmem
      · exact .inl ⟨task, hmem, rfl⟩
      · obtain rfl := List.mem_singleton.1 hmem
        obtain ⟨⟨x', hx', -⟩, hstart⟩ := (hc.supports h (List.mem_of_getElem? handling)).toDispatch x nodes toDispatch
        obtain ⟨x'', w, hx'', -, hw, hmem, -⟩ := hstart n (List.mem_of_getElem? node)
        exact .inr ⟨x'', w, n, hx'', hw, hmem, rfl, rfl, rfl⟩

theorem reachable_madeFor (h : Reachable cfg anyStep s) : ∀ task ∈ s.db.logicalTasks, s.db.MadeFor task := by
  refine Transition.Reachable.invariant (P := fun s => ∀ task ∈ s.db.logicalTasks, s.db.MadeFor task) ?_
    (fun s a t hr hs _ ht task htask => ?_) h
  · simp [init, Database.empty]
  · have hc := reachable_consistent hr
    have hk := step_kind hc.sound ht
    have hlater : ∀ {task}, s.db.MadeFor task → t.db.MadeFor task := by
      rintro task ⟨x, w, n, hx, hw, hn⟩
      obtain ⟨x', hx', hid, -⟩ := (hk.advances hc).later.execution _ x hx
      exact ⟨x', w, n, hx', (hk.advances hc).later.workflow _ _ (hid ▸ hw), hn⟩
    rcases hk.madeFor hc (reachable_dispatches hr) htask with ⟨task₀, hmem, hid⟩ | hnew
    · simp only [LogicalTaskRecord.identity, Prod.mk.injEq] at hid
      obtain ⟨-, he, hi, hhandler, hconfig, -⟩ := hid
      have hold := hlater (hs task₀ hmem)
      rwa [Database.MadeFor, he, hi, hhandler, hconfig] at hold
    · exact hlater hnew

/-- A message of the engine is about a validated node, with what the node's templates resolve to. -/
theorem issued_node (h : Reachable cfg anyStep s) (hm : s.db.Issued m) : ∃ x w n,
    s.db.getExecutionById m.executionId = some x ∧ s.db.getWorkflowById x.workflowId = some w ∧ n ∈ w.nodes ∧
      n.id = m.nodeId ∧ n.handler = m.handler ∧ n.config = m.handlerConfig ∧ HandlerMet cfg.validation n ∧
      inputFor cfg.strFloat s.db m.executionId x n = .ok m.resolvedInput := by
  obtain ⟨task, htask, hid⟩ := List.mem_map.1 hm.2
  simp only [LogicalTaskRecord.identity, Prod.mk.injEq] at hid
  obtain ⟨-, he, hi, hhandler, hconfig, hinput⟩ := hid
  obtain ⟨x, w, n, hx, hw, hn, hnode, hnhandler, hnconfig⟩ := reachable_madeFor h task htask
  obtain ⟨x', w', n', hx', -, hw', hn', hnode', -, hresolve⟩ := reachable_inputs h task htask
  have hc := reachable_consistent h
  obtain ⟨w'', hw'', hwell, -⟩ := hc.workflow hx
  cases hx.symm.trans hx'
  cases hw.symm.trans hw'
  cases hw.symm.trans hw''
  obtain rfl := hwell.node_ext hn' hn (hnode'.trans hnode.symm)
  rw [he] at hx hresolve
  rw [hinput] at hresolve
  exact ⟨x, w, n', hx, hw, hn, hnode.trans hi, hnhandler.trans hhandler, hnconfig.trans hconfig,
    reachable_handlers h w (Table.lookup_some hw).1 n' hn, hresolve⟩

end System

/-! ## Failures -/

namespace NodeInputResolver

variable {strFloat : Rat → String} {outputs : Dict Json}

/-- A member of the configuration is resolved in its place. -/
theorem resolveObject_get? : ∀ {members resolved : Dict Json}, resolveObject strFloat outputs members = .ok resolved →
    ∀ {key : String} {v : Json}, Dict.get? members key = some v →
      ∃ v', resolveValue strFloat outputs v = .ok v' ∧ Dict.get? resolved key = some v' := by
  intro members
  induction members with
  | nil =>
    intro _ _ _ _ hget
    cases hget
  | cons member rest ih =>
    obtain ⟨name, x⟩ := member
    intro resolved h key v hget
    obtain ⟨y, hy, h⟩ := Except.bind_eq_ok.1 h
    obtain ⟨ys, hys, h⟩ := Except.bind_eq_ok.1 h
    cases h
    by_cases hname : name = key
    · simp only [Dict.get?, List.find?_cons, decide_eq_true hname, Option.map_some, Option.some.injEq] at hget ⊢
      exact ⟨y, hget ▸ hy, rfl⟩
    · simp only [Dict.get?, List.find?_cons, decide_eq_false hname] at hget ⊢
      exact ih hys hget

/-- Only a template that is one reference resolves to something else than a text. -/
theorem resolveString_text {text : String} {v : Json} (h : resolveString strFloat text outputs = .ok v) :
    (∃ reference, TemplateParser.parse text = .ok (.reference reference)) ∨ ∃ resolved, v = .str resolved := by
  obtain ⟨parsed, hparsed, h⟩ := Except.bind_eq_ok.1 h
  cases parsed with
  | text literal =>
    cases h
    exact .inr ⟨_, rfl⟩
  | reference reference => exact .inl ⟨reference, hparsed⟩
  | segments segments =>
    obtain ⟨resolved, -, h⟩ := Except.bind_eq_ok.1 h
    cases h
    exact .inr ⟨_, rfl⟩

end NodeInputResolver

/-- Why a built-in handler fails on a task of the engine: the environment is misconfigured, the latency
is none or too long, the prompt is a single reference to something that is not a text, or the mock
service is made to fail. -/
inductive Fault (env : WorkerEnv) (m : NodeTaskMessage) : HandlerError → Prop where
  | serviceSettings {error : HandlerError} (handler : m.handler = "call_external_service")
      (settings : MockExternalServiceNodeHandler.settingsFromEnvironment env = .error error) : Fault env m error
  | latency {error : HandlerError} {settings : MockSettings} (handler : m.handler = "call_external_service")
      (read : MockExternalServiceNodeHandler.settingsFromEnvironment env = .ok settings)
      (latency : (MockExternalServiceNodeHandler.latencyMs settings m.handlerConfig).bind sleep = .error error) :
      Fault env m error
  | service {settings : MockSettings} {url : String} (handler : m.handler = "call_external_service")
      (read : MockExternalServiceNodeHandler.settingsFromEnvironment env = .ok settings)
      (slept : (MockExternalServiceNodeHandler.latencyMs settings m.handlerConfig).bind sleep = .ok ())
      (configured : Dict.get? m.handlerConfig "url" = some (.str url)) (fails : settings.fails env url = true) :
      Fault env m (valueError settings.failureMessage)
  | llmSettings {error : HandlerError} (handler : m.handler = "llm_service")
      (settings : MockLlmServiceNodeHandler.settingsFromEnvironment env = .error error) : Fault env m error
  | prompt {settings : MockSettings} {template : String} {reference : TemplateReference} {v : Json}
      (handler : m.handler = "llm_service")
      (read : MockLlmServiceNodeHandler.settingsFromEnvironment env = .ok settings)
      (configured : Dict.get? m.handlerConfig "prompt" = some (.str template))
      (single : TemplateParser.parse template = .ok (.reference reference))
      (resolved : Dict.get? m.resolvedInput "prompt" = some v) (noText : v.asStr? = none) :
      Fault env m (valueError "Handler 'llm_service' requires a string resolved_input.prompt.")
  | llmLatency {error : HandlerError} {settings : MockSettings} {prompt : String} (handler : m.handler = "llm_service")
      (read : MockLlmServiceNodeHandler.settingsFromEnvironment env = .ok settings)
      (resolved : Dict.get? m.resolvedInput "prompt" = some (.str prompt))
        (latency : sleep settings.latencyMs = .error error) :
      Fault env m error
  | llm {settings : MockSettings} {prompt : String} (handler : m.handler = "llm_service")
      (read : MockLlmServiceNodeHandler.settingsFromEnvironment env = .ok settings)
      (resolved : Dict.get? m.resolvedInput "prompt" = some (.str prompt)) (slept : sleep settings.latencyMs = .ok ())
      (fails : settings.fails env prompt = true) :
      Fault env m (valueError settings.failureMessage)

section Executor

open NodeHandlerRegistry WorkerTaskExecutor

variable {env : WorkerEnv} {m : NodeTaskMessage} {error : HandlerError}

theorem execute_input (hhandler : m.handler = "input" ∨ m.handler = "output") :
    execute env builtIn m = .ok m.resolvedInput := by
  rcases hhandler with hhandler | hhandler <;> simp only [execute, resolve, builtIn, hhandler] <;> rfl

theorem execute_service (hhandler : m.handler = "call_external_service") : execute env builtIn m =
    (MockExternalServiceNodeHandler.settingsFromEnvironment env).bind fun settings =>
      MockExternalServiceNodeHandler.execute env settings m := by
  simp only [execute, resolve, builtIn, hhandler]
  cases MockExternalServiceNodeHandler.settingsFromEnvironment env <;> rfl

theorem execute_llm (hhandler : m.handler = "llm_service") : execute env builtIn m =
    (MockLlmServiceNodeHandler.settingsFromEnvironment env).bind fun settings =>
      MockLlmServiceNodeHandler.execute env settings m := by
  simp only [execute, resolve, builtIn, hhandler]
  cases MockLlmServiceNodeHandler.settingsFromEnvironment env <;> rfl

theorem text_of_hasText {config : Dict Json} {field : String} (h : hasText (.obj config) field = true) :
    ∃ text, Dict.get? config field = some (.str text) ∧ blank text = false := by
  obtain ⟨text, htext, hblank⟩ := (Option.any_eq_true _ _).1 h
  obtain ⟨v, hv, htext⟩ := Option.bind_eq_some_iff.1 htext
  cases v with
  | str s =>
    cases htext
    exact ⟨_, hv, by simpa using hblank⟩
  | _ => cases htext

theorem service_execute {settings : MockSettings} {url : String}
    (hurl : MockExternalServiceNodeHandler.url m.handlerConfig = .ok url) :
    MockExternalServiceNodeHandler.execute env settings m =
      ((MockExternalServiceNodeHandler.latencyMs settings m.handlerConfig).bind sleep).bind fun _ =>
        if settings.fails env url then .error (valueError settings.failureMessage)
        else .ok [("status", .str "mocked"), ("url", .str url), ("input", .obj m.resolvedInput)] := by
  rw [MockExternalServiceNodeHandler.execute, hurl]
  -- its bound is no term to evaluate
  generalize sleep = slept
  cases MockExternalServiceNodeHandler.latencyMs settings m.handlerConfig <;> rfl

/-- The external service needs an address, and an accepted node has one. -/
theorem service_error_iff {url : String} (hhandler : m.handler = "call_external_service")
    (hurl : Dict.get? m.handlerConfig "url" = some (.str url)) (hblank : blank url = false) :
    execute env builtIn m = .error error ↔ Fault env m error := by
  have hread : MockExternalServiceNodeHandler.url m.handlerConfig = .ok url := by
    simp [MockExternalServiceNodeHandler.url, hurl, hblank]
  rw [execute_service hhandler]
  constructor
  · intro h
    cases hsettings : MockExternalServiceNodeHandler.settingsFromEnvironment env with
    | error e =>
      rw [hsettings] at h
      cases h
      exact .serviceSettings hhandler hsettings
    | ok settings =>
      rw [hsettings] at h
      replace h := (service_execute hread).symm.trans h
      cases hlatency : (MockExternalServiceNodeHandler.latencyMs settings m.handlerConfig).bind sleep with
      | error e =>
        rw [hlatency] at h
        cases h
        exact .latency hhandler hsettings hlatency
      | ok slept =>
        rw [hlatency, Except.bind] at h
        split at h
        · rename_i hfails
          cases h
          exact .service hhandler hsettings hlatency hurl hfails
        · cases h
  · intro h
    cases h with
    | serviceSettings _ settings => simp [settings, Except.bind]
    | latency _ read latency =>
      rw [read]
      exact (service_execute hread).trans (by rw [latency]; rfl)
    | service _ read slept configured fails =>
      obtain rfl : _ = url := Json.str.inj (Option.some.inj (configured.symm.trans hurl))
      rw [read]
      exact (service_execute hread).trans (by rw [slept, Except.bind, if_pos fails])
    | llmSettings handler | prompt handler | llmLatency handler | llm handler =>
      rw [hhandler] at handler; simp at handler

/-- The prompt of an accepted node is a template for a text. -/
theorem llm_error_iff {strFloat : Rat → String} {outputs : Dict Json} {template : String} {v : Json}
    (hhandler : m.handler = "llm_service") (hconfig : Dict.get? m.handlerConfig "prompt" = some (.str template))
    (hresolve : NodeInputResolver.resolveString strFloat template outputs = .ok v)
    (hprompt : Dict.get? m.resolvedInput "prompt" = some v) :
    execute env builtIn m = .error error ↔ Fault env m error := by
  rw [execute_llm hhandler]
  constructor
  · intro h
    cases hsettings : MockLlmServiceNodeHandler.settingsFromEnvironment env with
    | error e =>
      rw [hsettings] at h
      cases h
      exact .llmSettings hhandler hsettings
    | ok settings =>
      simp only [hsettings, Except.bind, MockLlmServiceNodeHandler.execute, MockLlmServiceNodeHandler.prompt,
        hprompt, bind] at h
      cases v with
      | str prompt =>
        dsimp only at h
        cases hslept : sleep settings.latencyMs with
        | error e =>
          rw [hslept] at h
          cases h
          exact .llmLatency hhandler hsettings hprompt hslept
        | ok slept =>
          rw [hslept] at h
          dsimp only at h
          split at h
          · rename_i hfails
            cases h
            exact .llm hhandler hsettings hprompt hslept hfails
          · cases h
      | _ =>
        cases h
        rcases NodeInputResolver.resolveString_text hresolve with ⟨reference, hparse⟩ | ⟨resolved, htext⟩
        · exact .prompt hhandler hsettings hconfig hparse hprompt rfl
        · cases htext
  · intro h
    cases h with
    | llmSettings _ settings => simp [settings, Except.bind]
    | @prompt _ _ _ v' _ read _ _ resolved noText =>
      obtain rfl : v = v' := Option.some.inj (hprompt.symm.trans resolved)
      simp only [read, Except.bind, MockLlmServiceNodeHandler.execute, MockLlmServiceNodeHandler.prompt, hprompt, bind]
      cases v with
      | str prompt => cases noText
      | _ => rfl
    | llmLatency _ read resolved latency =>
      simp [read, Except.bind, MockLlmServiceNodeHandler.execute, MockLlmServiceNodeHandler.prompt,
        resolved, latency, bind]
    | llm _ read resolved slept fails =>
      simp [read, Except.bind, MockLlmServiceNodeHandler.execute, MockLlmServiceNodeHandler.prompt, resolved,
        slept, fails, bind]
    | serviceSettings handler | latency handler | service handler => rw [hhandler] at handler; simp at handler

/-- The handler of an accepted node is known, and fails for a fault only. -/
theorem execute_error_iff {accepted : ValidationEnv} {n : WorkflowNode} {strFloat : Rat → String}
    {input outputs : Dict Json} (hproduction : accepted.integrationTest = false) (hmet : HandlerMet accepted n)
    (hhandler : n.handler = m.handler) (hconfig : n.config = m.handlerConfig)
    (hresolve : NodeInputResolver.resolve strFloat n input outputs = .ok m.resolvedInput) :
    execute env builtIn m = .error error ↔ Fault env m error := by
  obtain ⟨hallowed, hservice, hllm, -⟩ := hmet
  simp only [rawNode, hhandler, hconfig] at hservice hllm
  have hcases : m.handler = "call_external_service" ∨ m.handler = "input" ∨ m.handler = "llm_service" ∨
      m.handler = "output" := by
    simpa [allowedHandlers, hproduction, hhandler] using hallowed
  have hpassed :
      m.handler = "input" ∨ m.handler = "output" → (execute env builtIn m = .error error ↔ Fault env m error) := by
    intro hpass
    rw [execute_input hpass]
    refine ⟨fun h => (by cases h), fun h => ?_⟩
    cases h with
    | serviceSettings handler | latency handler | service handler | llmSettings handler | prompt handler
    | llmLatency handler
    | llm handler =>
      rw [handler] at hpass
      simp at hpass
  rcases hcases with hcall | hinput | hprompt | houtput
  · obtain ⟨url, hurl, hblank⟩ := text_of_hasText (hservice hcall)
    exact service_error_iff hcall hurl hblank
  · exact hpassed (.inl hinput)
  · obtain ⟨template, htemplate, -⟩ := text_of_hasText (hllm hprompt)
    rw [NodeInputResolver.resolve, hhandler, if_neg (by simp [hprompt]), if_neg (by simp [hprompt]),
      hconfig] at hresolve
    obtain ⟨v, hv, hget⟩ := NodeInputResolver.resolveObject_get? hresolve htemplate
    exact llm_error_iff hprompt htemplate hv hget
  · exact hpassed (.inr houtput)

end Executor

/-! ## The texts of the failures -/

/-- Whatever is raised is one of the two errors, with a text that is not blank. -/
def Raises {α : Type} (x : Except HandlerError α) : Prop :=
  ∀ error, x = .error error → error.2 ∈ ["ValueError", "OverflowError"] ∧ blank error.1 = false

namespace Raises

variable {α β : Type} {x : Except HandlerError α} {f : α → Except HandlerError β} {env : WorkerEnv}
  {name text : String}

theorem ok (a : α) : Raises (.ok a : Except HandlerError α) := fun _ h => by cases h

theorem error (h : blank text = false) : Raises (.error (valueError text) : Except HandlerError α) := by
  intro error herror
  cases herror
  exact ⟨List.mem_cons_self, h⟩

theorem named (h : blank text = false) : Raises (.error (valueError (name ++ text)) : Except HandlerError α) := by
  refine .error ?_
  simp only [blank, String.toList_append, List.all_append, Bool.and_eq_false_iff] at h ⊢
  exact .inr h

theorem bind (hx : Raises x) (hf : ∀ a, Raises (f a)) : Raises (x >>= f) := by
  intro error h
  cases x with
  | ok a => exact hf a error h
  | error e =>
    cases h
    exact hx _ rfl

theorem require {condition : Prop} [Decidable condition] (h : blank text = false) :
    Raises (WorkflowEngine.require condition (name ++ text)) := by
  unfold WorkflowEngine.require
  split
  · exact .ok ()
  · exact .named h

open MockSettings

theorem integer {default : Int} : Raises (integerEnvironmentValue env name default) := by
  unfold integerEnvironmentValue
  split
  · exact .ok default
  · split
    · exact .ok _
    · exact .named (by decide +kernel)

theorem float {default : Rat} : Raises (floatEnvironmentValue env name default) := by
  unfold floatEnvironmentValue
  split
  · exact .ok _
  · split
    · exact .ok _
    · exact .named (by decide +kernel)

theorem boolean {default : Bool} : Raises (booleanEnvironmentValue env name default) := by
  unfold booleanEnvironmentValue
  split
  · exact .ok default
  · split
    · exact .ok true
    · split
      · exact .ok false
      · exact .named (by decide +kernel)

theorem rate {q : Option Rat} : Raises (rateOf name q) := by
  cases q with
  | none => exact .named (by decide +kernel)
  | some q => exact .bind (.require (by decide +kernel)) fun _ => .ok q

theorem settings {service message : String} {latencyMs : Int} :
    Raises (fromEnvironment env service latencyMs message) :=
  .bind .integer fun _ => .bind (.require (by decide +kernel)) fun _ => .bind .float fun _ => .bind .rate fun _ =>
    .bind (.require (by decide +kernel)) fun _ => .bind .integer fun _ => .bind .boolean fun _ => .ok _

theorem latency {settings : MockSettings} {config : Dict Json} :
    Raises (MockExternalServiceNodeHandler.latencyMs settings config) := by
  unfold MockExternalServiceNodeHandler.latencyMs
  split
  · exact .ok _
  · exact .ok _
  · split
    · exact .error (by decide +kernel)
    · exact .ok _
  · exact .error (by decide +kernel)

theorem slept {latencyMs : Int} : Raises (sleep latencyMs) := by
  unfold sleep
  split
  · intro error h
    cases h
    decide +kernel
  · exact .ok ()

end Raises

/-- The failure message of one of the mock services. -/
def WorkerEnv.Configures (env : WorkerEnv) (message : String) : Prop :=
  ∃ settings, (MockExternalServiceNodeHandler.settingsFromEnvironment env = .ok settings ∨
    MockLlmServiceNodeHandler.settingsFromEnvironment env = .ok settings) ∧ settings.failureMessage = message

theorem Fault.text {env : WorkerEnv} {m : NodeTaskMessage} {error : HandlerError} (h : Fault env m error) :
    error.2 ∈ ["ValueError", "OverflowError"] ∧ (blank error.1 = false ∨ env.Configures error.1) := by
  have hraises : ∀ {α : Type} {x : Except HandlerError α}, Raises x → x = .error error →
      error.2 ∈ ["ValueError", "OverflowError"] ∧ (blank error.1 = false ∨ env.Configures error.1) := fun hx h =>
    (hx error h).imp_right .inl
  cases h with
  | serviceSettings _ settings => exact hraises .settings settings
  | latency _ _ latency => exact hraises (.bind .latency fun _ => .slept) latency
  | service _ read => exact ⟨List.mem_cons_self, .inr ⟨_, .inl read, rfl⟩⟩
  | llmSettings _ settings => exact hraises .settings settings
  | prompt => exact ⟨List.mem_cons_self, .inl (by decide +kernel)⟩
  | llmLatency _ _ _ latency => exact hraises .slept latency
  | llm _ read => exact ⟨List.mem_cons_self, .inr ⟨_, .inr read, rfl⟩⟩

namespace System

variable {cfg : Config} {s t : System} {a : Action} {e : Uuid} {m : NodeTaskMessage} {x : WorkflowExecutionRecord}
  {w : Workflow} {env : WorkerEnv}

/-- Outside the integration tests, every task that the engine has issued has a handler, and fails exactly
for a fault; its text can be read unless the environment asks for a blank one. -/
theorem task_faults (hproduction : cfg.validation.integrationTest = false) (h : Reachable cfg anyStep s)
    (hm : s.db.Issued m) (env : WorkerEnv) (error : HandlerError) :
    (WorkerTaskExecutor.execute env .builtIn m = .error error ↔ Fault env m error) ∧
      (Fault env m error →
        error.2 ∈ ["ValueError", "OverflowError"] ∧ (blank error.1 = false ∨ env.Configures error.1)) := by
  obtain ⟨x, w, n, -, -, -, -, hhandler, hconfig, hmet, hresolve⟩ := issued_node h hm
  exact ⟨execute_error_iff hproduction hmet hhandler hconfig hresolve, Fault.text⟩

/-- Nothing is set in the environment, and every draw is zero. -/
def plainWorker : WorkerEnv :=
  ⟨fun _ => none, fun _ => none, fun _ => none, fun _ => 0, fun _ => 0, fun _ => 0, fun _ => .ok []⟩

/-- `ask` puts a number where the service wants a text. -/
def asking : Dict Json :=
  sampleDefinition [sampleNode "fetch" "input" [] [],
    sampleNode "ask" "llm_service" ["fetch"] [("prompt", .str "\x7b\x7b fetch.total \x7d\x7d")]]

/-- `fetch` completed with the trigger's input, and `ask` dispatched. -/
def askingSteps : List Action :=
  ([.submit asking, .readTrigger (.v4 1) (some [("total", .int 3)]), .commitTrigger 0, .publishRow (.v4 2),
    .deliverEvent "orchestrator", .handle 0, .readReady 0, .dispatchNode 0 0, .finishDispatch 0, .acknowledge 0,
    .publishRow (createTaskId (.v4 1) "fetch"), .deliverTask "worker"] : List Action) ++
  List.replicate 7 (Action.work 0 (.success (.obj [("total", .int 3)]))) ++
  ([.deliverCompletion "orchestrator", .handle 0, .readReady 0, .dispatchNode 0 0, .finishDispatch 0,
    .acknowledge 0] : List Action)

def askMessage : NodeTaskMessage :=
  ⟨createTaskId (.v4 1) "ask", .v4 6, 1, .v4 1, "ask", "llm_service",
    [("prompt", .str "\x7b\x7b fetch.total \x7d\x7d")], [("prompt", .int 3)]⟩

theorem task_faults_asked : Fault plainWorker askMessage
    (valueError "Handler 'llm_service' requires a string resolved_input.prompt.") :=
  (task_faults rfl (reachable_reached (sampleRetries 1) askingSteps) (m := askMessage)
    (by unfold Issued; decide +kernel) plainWorker _).1.1 rfl

/-! ## Runs of the built-in handlers -/

/-- The outcome of every handler that ends is the one of the executor in this environment. -/
def executes (env : WorkerEnv) (s : System) : Action → Bool
  | .work k outcome => (s.inFlight[k]?).all fun f =>
      decide (f.phase = .executing false → outcome = WorkerTaskExecutor.outcome env .builtIn f.task)
  | _ => true

/-- A task for the node; what its handler answers does not depend on the identifiers. -/
def nodeTask (n : WorkflowNode) (input : Dict Json) : NodeTaskMessage :=
  ⟨.v4 0, .v4 0, 1, .v4 0, n.id, n.handler, n.config, input⟩

theorem execute_congr {m' : NodeTaskMessage} (hne : m.handler ≠ "integration_barrier")
    (hhandler : m'.handler = m.handler) (hconfig : m'.handlerConfig = m.handlerConfig)
    (hinput : m'.resolvedInput = m.resolvedInput) :
    WorkerTaskExecutor.execute env .builtIn m' = WorkerTaskExecutor.execute env .builtIn m := by
  simp only [WorkerTaskExecutor.execute, NodeHandlerRegistry.resolve, NodeHandlerRegistry.builtIn,
    hhandler, if_neg hne]
  by_cases hin : m.handler = "input"
  · simp only [if_pos hin]
    exact congrArg Except.ok hinput
  by_cases hout : m.handler = "output"
  · simp only [if_neg hin, if_pos hout]
    exact congrArg Except.ok hinput
  by_cases hcall : m.handler = "call_external_service"
  · simp only [if_neg hin, if_neg hout, if_pos hcall]
    cases MockExternalServiceNodeHandler.settingsFromEnvironment env with
    | error e => rfl
    | ok settings =>
      simp only [bind, Except.bind, pure, Except.pure, MockExternalServiceNodeHandler.execute, hconfig, hinput]
  by_cases hllm : m.handler = "llm_service"
  · simp only [if_neg hin, if_neg hout, if_neg hcall, if_pos hllm]
    cases MockLlmServiceNodeHandler.settingsFromEnvironment env with
    | error e => rfl
    | ok settings => simp only [bind, Except.bind, pure, Except.pure, MockLlmServiceNodeHandler.execute, hinput]
  · simp only [if_neg hin, if_neg hout, if_neg hcall, if_neg hllm]
    rfl

/-- What the nodes of a workflow answer, on every attempt. -/
def builtInHandler (env : WorkerEnv) (w : Workflow) : Handler := fun i _ input =>
  ((w.nodes.find? fun n => decide (n.id = i)).map fun n =>
    WorkerTaskExecutor.outcome env .builtIn (nodeTask n input)).getD (.success .null)

theorem builtInHandler_node (hwell : w.WellFormed) {n : WorkflowNode} (hn : n ∈ w.nodes) (number : Nat)
    (input : Dict Json) :
    builtInHandler env w n.id number input = WorkerTaskExecutor.outcome env .builtIn (nodeTask n input) := by
  rw [builtInHandler, Interpreter.find_node hwell hn]
  rfl

/-- A task stays issued. -/
theorem issued_later (h : Reachable cfg anyStep s) (hm : s.db.Issued m)
    (hlater : Transition.Reachable (step cfg) anyStep s t) :
    t.db.Issued m := by
  induction hlater with
  | start => exact hm
  | next a hu _ hstep ih => exact (reachable_grows (h.trans hu) hstep).issued ih

/-- What the executor answers for a task is what the function says for its node. -/
theorem outcome_eq (hproduction : cfg.validation.integrationTest = false) (h : Reachable cfg anyStep s)
    (hm : s.db.Issued m) (hx : s.db.getExecutionById m.executionId = some x)
    (hw : s.db.getWorkflowById x.workflowId = some w) :
    WorkerTaskExecutor.outcome env .builtIn m = m.answer (builtInHandler env w) := by
  obtain ⟨x', w', n, hx', hw', hn, hid, hhandler, hconfig, hmet, -⟩ := issued_node h hm
  cases hx.symm.trans hx'
  cases hw.symm.trans hw'
  obtain ⟨w'', hw'', hwell, -⟩ := (reachable_consistent h).workflow hx
  cases hw.symm.trans hw''
  have hne : n.handler ≠ "integration_barrier" := by
    intro heq
    have hallowed := hmet.1
    simp [allowedHandlers, hproduction, heq] at hallowed
  rw [NodeTaskMessage.answer, ← hid, builtInHandler_node hwell hn, WorkerTaskExecutor.outcome,
    WorkerTaskExecutor.outcome, execute_congr (m := nodeTask n m.resolvedInput) hne hhandler.symm hconfig.symm rfl]

/-- A run of the built-in handlers is one whose handlers answer a function, the one of its workflow. -/
theorem executes_answers (hproduction : cfg.validation.integrationTest = false)
    (h : Reachable cfg (fun s a => executes env s a = true) s) (hlater : Transition.Reachable (step cfg) anyStep s t)
    (hx : t.db.getExecutionById e = some x) (hw : t.db.getWorkflowById x.workflowId = some w) :
    Reachable cfg (fun s a => answers e (builtInHandler env w) s a = true) s := by
  induction h with
  | start => exact .start
  | @next u v a hu ha hstep ih =>
    have hfrom : Transition.Reachable (step cfg) anyStep u t :=
      (Transition.Reachable.next a .start trivial hstep).trans hlater
    have hreach : Reachable cfg anyStep u := hu.mono fun _ _ _ => trivial
    refine .next a (ih hfrom) ?_ hstep
    cases a with
    | work k outcome =>
      simp only [executes, answers] at ha ⊢
      cases hk : u.inFlight[k]? with
      | none => rfl
      | some f =>
        rw [hk, Option.all_some, decide_eq_true_eq] at ha
        rw [Option.all_some, decide_eq_true_eq]
        intro hphase hexecution
        have hissued := issued_later hreach (flight_issued hreach (List.mem_of_getElem? hk)) hfrom
        rw [ha hphase]
        exact outcome_eq hproduction (hreach.trans hfrom) hissued (hexecution ▸ hx) hw
    | _ => rfl

/-- How a node ends: with a dependency that has failed, with the answer to its only attempt, or with a fault
that every attempt has met. -/
inductive Decided (cfg : Config) (env : WorkerEnv) (s : System) (e : Uuid) (x : WorkflowExecutionRecord)
    (n : WorkflowNode) :
    Prop where
  | blocked {d : String} (dep : d ∈ n.dependencies) (dep_failed : s.db.status e d = .failed)
      (status : s.db.status e n.id = .failed) (attempts : s.db.attemptCount e n.id = 0)
  | answered {input output : Dict Json} (resolves : inputFor cfg.strFloat s.db e x n = .ok input)
      (answers : WorkerTaskExecutor.execute env .builtIn (nodeTask n input) = .ok output)
      (status : s.db.status e n.id = .completed) (output_eq : s.db.outputOf e n.id = some (.obj output))
      (attempts : s.db.attemptCount e n.id = 1)
  | faulty {input : Dict Json} {error : HandlerError} (resolves : inputFor cfg.strFloat s.db e x n = .ok input)
      (fault : Fault env (nodeTask n input) error) (status : s.db.status e n.id = .failed)
      (output_eq : s.db.outputOf e n.id = some .null) (attempts : s.db.attemptCount e n.id = cfg.policy.maxAttempts)

theorem outcome_success {n : WorkflowNode} {input : Dict Json} {result : Json}
    (h : WorkerTaskExecutor.outcome env .builtIn (nodeTask n input) = .success result) :
    ∃ output, WorkerTaskExecutor.execute env .builtIn (nodeTask n input) = .ok output ∧ result = .obj output := by
  unfold WorkerTaskExecutor.outcome at h
  split at h
  · rename_i output heq
    cases h
    exact ⟨output, heq, rfl⟩
  · cases h

theorem outcome_fails {n : WorkflowNode} {input : Dict Json}
    (h : (WorkerTaskExecutor.outcome env .builtIn (nodeTask n input)).Fails) :
    ∃ error, WorkerTaskExecutor.execute env .builtIn (nodeTask n input) = .error error := by
  unfold WorkerTaskExecutor.outcome at h
  split at h
  · cases h
  · exact ⟨_, ‹_›⟩

theorem NodeEnd.decided {n : WorkflowNode} (h : NodeEnd cfg (builtInHandler env w) s e x n)
    (hproduction : cfg.validation.integrationTest = false) (hmet : HandlerMet cfg.validation n) (hwell : w.WellFormed)
    (hn : n ∈ w.nodes) : Decided cfg env s e x n := by
  have hanswer : ∀ number input,
      builtInHandler env w n.id number input = WorkerTaskExecutor.outcome env .builtIn (nodeTask n input) :=
    builtInHandler_node hwell hn
  cases h with
  | blocked dep dep_failed status _ _ attempts => exact .blocked dep dep_failed status attempts
  | @succeeded input k result _ resolves bounds before success status output _ attempts =>
    rw [hanswer] at success
    obtain ⟨answered, hexecute, rfl⟩ := outcome_success success
    -- a second attempt would have had the same answer as the first
    have hfirst : k = 1 := by
      by_contra hne
      have hfails := before 1 le_rfl (by omega)
      rw [hanswer, success] at hfails
      cases hfails
    exact .answered resolves hexecute status output (attempts.trans hfirst)
  | @exhausted input _ resolves fails status output _ attempts =>
    have hfails := fails 1 le_rfl cfg.policy.maxAttempts_pos
    rw [hanswer] at hfails
    obtain ⟨error, hexecute⟩ := outcome_fails hfails
    have hfault := (execute_error_iff (m := nodeTask n input) hproduction hmet rfl rfl resolves).1 hexecute
    exact .faulty resolves hfault status output attempts

/-- Outside the integration tests, and in an environment that does not change, a retry with the built-in
handlers never helps: whatever the interleaving, a node that has ended was blocked, or completed by its
first attempt, or had the same fault on each attempt; and at the bottom of every failed execution is a
node with a fault of its own. -/
theorem first_attempt_decides (hproduction : cfg.validation.integrationTest = false)
    (h : Reachable cfg (fun s a => executes env s a = true) s) (hx : s.db.getExecutionById e = some x)
    (hw : s.db.getWorkflowById x.workflowId = some w) :
    (∀ n ∈ w.nodes, s.db.Ended e n.id → Decided cfg env s e x n) ∧
      (x.status = .failed → ∃ n ∈ w.nodes, ∃ input error, inputFor cfg.strFloat s.db e x n = .ok input ∧
        Fault env (nodeTask n input) error ∧ s.db.status e n.id = .failed ∧
        s.db.attemptCount e n.id = cfg.policy.maxAttempts) := by
  have hr : Reachable cfg anyStep s := h.mono fun _ _ _ => trivial
  obtain ⟨w', hw', hwell, hrun⟩ := (reachable_consistent hr).workflow hx
  obtain rfl : w = w' := Option.some.inj (hw.symm.trans hw')
  have hanswered := reachable_answered (executes_answers hproduction h .start hx hw) fun _ _ ha => ha
  have hdecided : ∀ n ∈ w.nodes, s.db.Ended e n.id → Decided cfg env s e x n := fun n hn hended =>
    (hanswered.nodeEnd hr hx hw hwell hn hended).decided hproduction
      (reachable_handlers hr w (Table.lookup_some hw).1 n hn) hwell hn
  refine ⟨hdecided, fun hfailed => ?_⟩
  obtain ⟨i, hi, hdown⟩ := hrun.failed_sound ((run_status hx).trans hfailed)
  -- the first failed node on the way down to the roots was not blocked
  obtain ⟨rank, hranked⟩ := hwell.ranked
  obtain ⟨j, hj, hstatus, hminimal⟩ := hranked.minimal (P := fun i => s.db.status e i = .failed) hi hdown
  obtain ⟨n, hn, rfl⟩ := Workflow.mem_nodeIds.1 hj
  have hend := hdecided n hn (.inr hstatus)
  cases hend with
  | blocked dep dep_failed => exact absurd dep_failed (hminimal _ ⟨n, hn, rfl, dep⟩)
  | answered _ _ completed => cases completed.symm.trans hstatus
  | @faulty input error resolves fault status _ attempts =>
    exact ⟨n, hn, input, error, resolves, fault, status, attempts⟩

/-- Both attempts of `ask`, with a second between them. -/
def askedTwice : System :=
  reachedUnder (sampleRetries 1) (executes plainWorker) (askingSteps ++
    ([.publishRow (createTaskId (.v4 1) "ask"), .deliverTask "worker"] : List Action) ++
    List.replicate 7 (Action.work 0
      (.failure "Handler 'llm_service' requires a string resolved_input.prompt." "ValueError")) ++
    ([.deliverCompletion "orchestrator", .handle 0, .readReady 0, .acknowledge 0, .tick 1000000, .readRetries,
      .publishRetry 0, .markRetry (.v4 8), .deliverTask "worker"] : List Action) ++
    List.replicate 7 (Action.work 0
      (.failure "Handler 'llm_service' requires a string resolved_input.prompt." "ValueError")) ++
    ([.deliverCompletion "orchestrator", .handle 0] : List Action))

theorem first_attempt_decides_asked :
    askedTwice.db.attemptCount (.v4 1) "fetch" = 1 ∧ askedTwice.db.attemptCount (.v4 1) "ask" = 2 ∧
      ∃ n input error, Fault plainWorker (nodeTask n input) error ∧ askedTwice.db.status (.v4 1) n.id = .failed ∧
        askedTwice.db.attemptCount (.v4 1) n.id = 2 := by
  let x : WorkflowExecutionRecord := ⟨.v4 1, .v4 0, .failed, [("total", .int 3)], 0, some 0, some 1000000⟩
  let ask : WorkflowNode := ⟨"ask", "llm_service", ["fetch"], [("prompt", .str "\x7b\x7b fetch.total \x7d\x7d")]⟩
  let w : Workflow := ⟨.v4 0, "sample", [⟨"fetch", "input", [], []⟩, ask]⟩
  have hrun : askedTwice.db.getExecutionById (.v4 1) = some x ∧ askedTwice.db.getWorkflowById x.workflowId = some w ∧
      askedTwice.db.attemptCount (.v4 1) "fetch" = 1 ∧ askedTwice.db.attemptCount (.v4 1) "ask" = 2 := by
    decide +kernel
  obtain ⟨hx, hw, hfetch, hask⟩ := hrun
  obtain ⟨n, -, input, error, -, hfault, hstatus, hattempts⟩ :=
    (@first_attempt_decides (sampleRetries 1) askedTwice (.v4 1) x w plainWorker rfl
      (reachable_reachedUnder _ _ _) hx hw).2 rfl
  exact ⟨hfetch, hask, n, input, error, hfault, hstatus, hattempts⟩

end System

end WorkflowEngine
