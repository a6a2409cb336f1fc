import WorkflowEngine.Batches
import WorkflowEngine.Totality

/-!
# Completion events on the stream

What a worker publishes is read back by the orchestrator, as it was, unless the handler's
exception has a blank text: the encoder asks for a text that is there, the decoder for one
that is not blank. `json.dumps` sorts the keys of an output, which comes back equal as a Python
value: the same members in whatever order.
-/
namespace WorkflowEngine

open Database

namespace System

variable {cfg : Config} {s t : System} {event : TaskCompletionEvent}

/-- Every node of every stored workflow is named by an identifier. -/
def NamedNodes (s : System) : Prop := ∀ w ∈ s.db.workflows, ∀ i ∈ w.nodeIds, isIdentifier i = true

theorem processed_workflows {policy : RetryPolicy} {next : Uuid} {now : Time} {decision : TaskCompletionDecision}
    {db db' : Database} (h : Processed policy event next now db decision db') : db'.workflows = db.workflows := by
  cases h with
  | early _ consult => exact consult.sameRuns.workflows
  | late _ _ consult => exact consult.sameRuns.workflows
  | completed _ _ _ _ _ consult ends => exact ends.evolves.workflows.trans consult.sameRuns.workflows
  | failed _ _ _ _ _ consult ends => exact ends.evolves.workflows.trans consult.sameRuns.workflows

/-- Only a submission stores a workflow, and it has accepted it. -/
theorem Kind.workflows (hk : Kind cfg s t) (hc : Consistent s) (hd : Dispatches s) : t.db.workflows = s.db.workflows ∨
    ∃ w definition, accept cfg.validation (.v4 s.draws) definition = .ok w ∧
      t.db.workflows = s.db.workflows ++ [w] := by
  cases hk with
  | submit accepted _ _ _ eq => subst eq; exact .inr ⟨_, _, accepted, rfl⟩
  | trigger _ commit eq =>
    subst eq
    obtain ⟨-, rfl⟩ := triggerCommit_ok hc.sound commit
    exact .inl rfl
  | process _ _ _ processed eq =>
    subst eq
    exact .inl (processed_workflows (process_ok hc.sound hc.runs processed).2)
  | dispatch handling toDispatch node dispatched _ eq =>
    subst eq
    rcases dispatch_cases hc hd handling toDispatch node dispatched with ⟨rfl, -⟩ | ⟨_, _, -, -, -, -, rfl⟩
    · exact .inl rfl
    · exact .inl (by simp [registered, pushOutbox, claimPendingNodes])
  | evaluate _ _ _ eq => subst eq; exact .inl rfl
  | read _ _ _ eq => subst eq; exact .inl rfl
  | quiet hq => exact .inl hq.workflows

theorem reachable_namedNodes (h : Reachable cfg anyStep s) : NamedNodes s := by
  refine Transition.Reachable.invariant (fun w hw => ?_) (fun _ _ _ hr hs _ ht w hw => ?_) h
  · simp [init, Database.empty] at hw
  · have hkind := step_kind (reachable_consistent hr).sound ht
    rcases hkind.workflows (reachable_consistent hr) (reachable_dispatches hr) with heq | ⟨w', _, haccept, heq⟩
    · exact hs w (heq ▸ hw)
    · rw [heq] at hw
      rcases List.mem_append.1 hw with hw | hw
      · exact hs w hw
      · rw [List.mem_singleton.1 hw]
        exact accept_identifiers haccept

/-- A started node is named by an identifier. -/
theorem NamedNodes.started (h : NamedNodes s) (hc : Consistent s) {e : Uuid} {i : String}
    (hst : s.db.status e i ≠ .pending) :
    isIdentifier i = true := by
  obtain ⟨r, hr⟩ := exists_node_of_started hst
  obtain ⟨hmem, he, -⟩ := node_some hr
  obtain ⟨x, hx⟩ := hc.sound.node_execution r hmem
  rw [he] at hx
  obtain ⟨w, hw, -⟩ := hc.sound.workflow e x hx
  exact h w (Table.lookup_some hw).1 i ((hc.sound.mem_nodeIds hx hw).2 ⟨r, hr⟩)

/-- Every event that any worker has published, in any run, comes back from its stream fields
exactly when it is a success or its error texts are not blank. -/
theorem completion_round_trip_iff (h : Reachable cfg anyStep s) (hmem : event ∈ s.completions.entries) {text : Text}
    (hlossless : event.Lossless text) :
    (∃ event', (event.toStreamFields text).bind (TaskCompletionEvent.fromStreamFields text) = .ok event' ∧
        event'.SameEvent event) ↔
      (event.status = .failed → (∀ message ∈ event.errorMessage, blank message = false) ∧
        ∀ type ∈ event.errorType, blank type = false) := by
  obtain ⟨-, hbuilt, m, hm, hreports⟩ := (reachable_workers h).completions event hmem
  obtain ⟨htask, -, hst⟩ := (reachable_dispatches h).issued ((reachable_messages h).entries m hm)
  have hid : event.taskId = createTaskId event.executionId event.nodeId := by
    rw [hreports.taskId, hreports.executionId, hreports.nodeId, htask]
  have hnode : blank event.nodeId = false := by
    rw [hreports.nodeId]
    exact isIdentifier_not_blank ((reachable_namedNodes h).started (reachable_consistent h) hst)
  rw [TaskCompletionEvent.fromStreamFields_toStreamFields hbuilt hid hlossless]
  cases hbuilt with
  | completed status => simp [readable, hnode, status]
  | failed status _ message type => simp [readable, hnode, status, message, type]

/-- The identifiers of the runs below with their texts. -/
def wireIds : List (Uuid × String) :=
  [(.v4 1, "9d8c7b6a-5f4e-4d3c-9b2a-1f0e9d8c7b6a"), (.v4 3, "5e2f8b1c-3d4a-4b6c-8e9f-0a1b2c3d4e5f"),
    (.v4 4, "0b4e1f0e-7c57-4a53-9d0f-6a1f4b0c2d11"),
    (createTaskId (.v4 1) "fetch", "a4c5a1de-5f7b-5f39-8f6b-3d2c1b0a9f8e")]

/-- The values of these runs with their compact texts, the keys sorted. -/
def wireValues : List (Json × String) :=
  [(.null, "null"),
    (.obj [("input", .obj []), ("status", .str "mocked"), ("url", .str "https://host/a")],
      "\x7b\"input\":\x7b\x7d,\"status\":\"mocked\",\"url\":\"https://host/a\"\x7d")]

/-- The text conversions on the values of these runs. -/
def wireText : Text where
  str u := ((wireIds.find? fun p => decide (p.1 = u)).map (·.2)).getD "00000000-0000-4000-8000-000000000000"
  uuid value := (wireIds.find? fun p => decide (p.2 = value)).map (·.1)
  int value := if value = "1" then some 1 else none
  loads value := (wireValues.find? fun p => decide (p.2 = value)).map (·.1)
  dumps v := ((wireValues.find? fun p => decide (p.1 = v.sortKeys)).map (·.2)).getD "null"

/-- The event of a handler of `fetch` that has raised `ValueError(message)`. -/
def raisedWith (message : String) : TaskCompletionEvent :=
  ⟨.v4 4, createTaskId (.v4 1) "fetch", .v4 3, 1, .v4 1, "fetch", .failed, .null, some message, some "ValueError"⟩

theorem raisedWith_lossless (message : String) : (raisedWith message).Lossless wireText where
  uuid := by
    change ∀ u ∈ [Uuid.v4 4, .v4 3, .v4 1], wireText.uuid (wireText.str u) = some u
    decide +kernel
  str := by
    change ∀ u ∈ [Uuid.v4 4, createTaskId (.v4 1) "fetch", .v4 3, .v4 1], blank (wireText.str u) = false
    decide +kernel
  int := by
    change wireText.int (toString (1 : Int)) = some 1
    decide +kernel
  number := by
    change blank (toString (1 : Int)) = false
    decide +kernel
  loads := by
    change ∃ v, wireText.loads (wireText.dumps .null) = some v ∧ Json.Same v .null
    exact ⟨.null, by decide +kernel, rfl⟩
  dumps := by
    change blank (wireText.dumps .null) = false
    decide +kernel

/-- What the mock service answers, with keys that are not sorted. -/
def mockedOutput : Json := .obj [("status", .str "mocked"), ("url", .str "https://host/a"), ("input", .obj [])]

/-- The event of a handler of `fetch` that has answered this. -/
def mocked : TaskCompletionEvent :=
  ⟨.v4 4, createTaskId (.v4 1) "fetch", .v4 3, 1, .v4 1, "fetch", .completed, mockedOutput, none, none⟩

theorem mocked_lossless : mocked.Lossless wireText where
  uuid := by decide +kernel
  str := by decide +kernel
  int := by decide +kernel
  number := by decide +kernel
  loads := by
    refine ⟨.obj [("input", .obj []), ("status", .str "mocked"), ("url", .str "https://host/a")],
      by decide +kernel, ?_⟩
    unfold Json.Same
    decide +kernel
  dumps := by decide +kernel

/-- The output comes back with its keys sorted, and the event is the same. -/
theorem completion_round_trip_mocked :
    mocked ∈ (reached sampleConfig (fetched (.success mockedOutput))).completions.entries ∧
      wireText.loads (wireText.dumps mocked.outputData) ≠ some mocked.outputData ∧
      ∃ event, (mocked.toStreamFields wireText).bind (TaskCompletionEvent.fromStreamFields wireText) = .ok event ∧
        event.SameEvent mocked := by
  have hmem : mocked ∈ (reached sampleConfig (fetched (.success mockedOutput))).completions.entries := by
    decide +kernel
  exact ⟨hmem, by decide +kernel, (completion_round_trip_iff (reachable_reached _ _) hmem mocked_lossless).2 nofun⟩

/-- `raise ValueError()`: the worker publishes the event, and the orchestrator cannot read it. -/
theorem completion_round_trip_counterexample :
    let s := reached sampleConfig (fetched (.failure "" "ValueError"))
    Reachable sampleConfig anyStep s ∧ raisedWith "" ∈ s.completions.entries ∧ (raisedWith "").Lossless wireText ∧
      ((raisedWith "").toStreamFields wireText).bind (TaskCompletionEvent.fromStreamFields wireText) =
        .error (.valueError "Task completion event field 'error_message' is required.") := by
  exact ⟨reachable_reached _ _, by decide +kernel, raisedWith_lossless _, by decide +kernel⟩

end System

end WorkflowEngine
