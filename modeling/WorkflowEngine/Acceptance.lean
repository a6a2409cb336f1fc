import WorkflowEngine.CycleReports
import WorkflowEngine.Lib.Pointwise

/-!
# Accepted definitions are well formed

The rules speak about the raw payload. A payload on which all of them are silent lists nodes in
the types of the model, and of such a list the rules ask for a well-formed graph, no more and no
less. The workflow that `accept` builds has the same nodes, so it satisfies
`Workflow.WellFormed`.
-/
namespace WorkflowEngine

theorem isIdentifier_not_blank {i : String} (h : isIdentifier i = true) : blank i = false := by
  unfold isIdentifier at h
  unfold blank
  cases hi : i.toList with
  | nil => rw [hi] at h; cases h
  | cons c cs =>
    rw [hi] at h
    simp only [isIdentifierChars, Bool.and_eq_true, isAsciiLetter, Bool.or_eq_true, decide_eq_true_eq] at h
    have hspace : isSpace c = false := by
      simp only [isSpace]
      have := h.1
      simp
      omega
    simp [hspace]

namespace Validation

/-- A node of a payload in the types of the model, its configuration unchecked. -/
structure RawNode where
  id : String
  handler : String
  dependencies : List String
  config : Json
  deriving DecidableEq, Repr

structure Reads (m : Dict Json) (n : RawNode) : Prop where
  id : Dict.get? m "id" = some (.str n.id)
  handler : Dict.get? m "handler" = some (.str n.handler)
  dependencies : Dict.get? m "dependencies" = some (.arr (n.dependencies.map .str))
  config : (Dict.get? m "config").getD (.obj []) = n.config

/-- The payload has a string name and lists the given nodes. -/
structure Shape (definition : Dict Json) (name : String) (nodes : List RawNode) : Prop where
  name : Dict.get? definition "name" = some (.str name)
  nodes : ∃ dag maps, Dict.get? definition "dag" = some (.obj dag) ∧
    Dict.get? dag "nodes" = some (.arr (maps.map .obj)) ∧ List.Forall₂ Reads maps nodes

/-- The rule of each handler for its configuration. -/
def ConfigurationMet (n : RawNode) : Prop :=
  (n.handler = "call_external_service" → hasText n.config "url" = true) ∧
  (n.handler = "llm_service" → hasText n.config "prompt" = true) ∧
  (n.handler = "input" ∨ n.handler = "output" → n.config.truthy = false)

/-- One listed node depends on another by name. -/
def DeclaredEdge (nodes : List RawNode) (i d : String) : Prop := ∃ n ∈ nodes, n.id = i ∧ d ∈ n.dependencies

structure WellFormedDefinition (env : ValidationEnv) (name : String) (nodes : List RawNode) : Prop where
  named : blank name = false
  identifiers : ∀ n ∈ nodes, isIdentifier n.id = true
  distinct : (nodes.map (·.id)).Nodup
  handlers : ∀ n ∈ nodes, n.handler ∈ allowedHandlers env ∧ ConfigurationMet n
  dependencies : ∀ n ∈ nodes, (∀ d ∈ n.dependencies, d ∈ nodes.map (·.id) ∧ d ≠ n.id) ∧ n.dependencies.Nodup
  acyclic : ∀ i, ¬ Relation.TransGen (DeclaredEdge nodes) i i

variable {env : ValidationEnv} {definition : Dict Json} {name : String} {nodes : List RawNode}

theorem Reads.strId {m : Dict Json} {n : RawNode} (h : Reads m n) : strId m = some n.id := by
  simp [Validation.strId, h.id, Json.asStr?]

theorem filterMap_zipIdx (maps : List (Dict Json)) : ∀ k : Nat,
    (((maps.map Json.obj).zipIdx k).filterMap fun m => (m.1.asMapping?).map fun node => (m.2, node)) =
      (maps.zipIdx k).map fun m => (m.2, m.1) := by
  induction maps with
  | nil => simp
  | cons m maps ih =>
    intro k
    have hm : (Json.obj m).asMapping? = some m := rfl
    simp [hm, ih]

theorem filterMap_strId_zipIdx (maps : List (Dict Json)) : ∀ k : Nat,
    ((maps.zipIdx k).map fun m => (m.2, m.1)).filterMap (fun m => strId m.2) = maps.filterMap strId := by
  induction maps with
  | nil => simp
  | cons m maps ih =>
    intro k
    simp [List.filterMap_cons, ih]

theorem filterMap_strId {maps : List (Dict Json)} (h : List.Forall₂ Reads maps nodes) :
    maps.filterMap strId = nodes.map (·.id) := by
  induction h with
  | nil => rfl
  | cons hmn _ ih => simp [hmn.strId, ih]

theorem zipIdx_nodes {maps : List (Dict Json)} (h : rawNodes definition = some (maps.map .obj)) :
    nodesFrom definition = maps.zipIdx.map fun m => (m.2, m.1) := by
  rw [nodesFrom, h, Option.getD_some, filterMap_zipIdx]

/-- A rule that may raise on a node, over all nodes. -/
theorem mapM_flatten {α : Type} (f : α → Except AcceptError (List WorkflowValidationError)) (l : List α)
    (h : ∀ a ∈ l, ∃ es, f a = .ok es) : ∃ r, l.mapM f = .ok r ∧ (r.flatten = [] ↔ ∀ a ∈ l, f a = .ok []) := by
  obtain ⟨r, hr⟩ := Pointwise.exists_forall₂.2 h
  refine ⟨r, Pointwise.mapM_eq_ok.2 hr, ?_⟩
  rw [List.flatten_eq_nil_iff]
  constructor
  · intro hnil a ha
    obtain ⟨b, hb, hab⟩ := Pointwise.of_mem_left hr ha
    rw [hab, hnil b hb]
  · intro hall b hb
    obtain ⟨a, ha, hab⟩ := Pointwise.of_mem_right hr hb
    exact (Except.ok.inj ((hall a ha).symm.trans hab)).symm

theorem dependencyErrors_strings {known : List String} {context : Option String} {index : Nat} (ds : List String) :
    ∀ (position : Nat) (seen : List String),
      dependencyErrors env known context index position seen (ds.map .str) = [] ↔
        (∀ d ∈ ds, d ∈ known ∧ context ≠ some d ∧ d ∉ seen) ∧ ds.Nodup := by
  induction ds with
  | nil => simp [dependencyErrors]
  | cons d ds ih =>
    intro position seen
    have hstr : (Json.str d).asStr? = some d := rfl
    rw [List.map_cons, dependencyErrors, hstr]
    dsimp only
    by_cases hknown : d ∈ known
    · by_cases hself : context = some d
      · simp [hknown, hself]
      · by_cases hseen : d ∈ seen
        · simp [hknown, hself, hseen]
        · simp only [hknown, not_true, if_false, hself, hseen, ih, List.mem_cons, not_or, forall_eq_or_imp,
            List.nodup_cons, ne_eq, not_false_eq_true, true_and]
          constructor
          · rintro ⟨hall, hnodup⟩
            exact ⟨fun x hx => ⟨(hall x hx).1, (hall x hx).2.1, (hall x hx).2.2.2⟩,
              fun hd => (hall d hd).2.2.1 rfl, hnodup⟩
          · rintro ⟨hall, hd, hnodup⟩
            exact ⟨fun x hx => ⟨(hall x hx).1, (hall x hx).2.1, fun he => hd (he ▸ hx), (hall x hx).2.2⟩, hnodup⟩
    · simp [hknown]

namespace Shape

theorem maps (h : Shape definition name nodes) :
    ∃ maps, rawNodes definition = some (maps.map .obj) ∧ List.Forall₂ Reads maps nodes := by
  obtain ⟨dag, maps, hdag, hnodes, hreads⟩ := h.nodes
  exact ⟨maps, by simp [rawNodes, hdag, hnodes, Json.asMapping?, Json.asList?], hreads⟩

theorem reads_of_mem (h : Shape definition name nodes) {m : Nat × Dict Json} (hm : m ∈ nodesFrom definition) :
    ∃ n ∈ nodes, Reads m.2 n := by
  obtain ⟨maps, hraw, hreads⟩ := h.maps
  rw [zipIdx_nodes hraw] at hm
  obtain ⟨p, hp, rfl⟩ := List.mem_map.1 hm
  exact Pointwise.of_mem_left hreads (List.fst_mem_of_mem_zipIdx hp)

theorem listed_of_mem (h : Shape definition name nodes) {n : RawNode} (hn : n ∈ nodes) :
    ∃ m ∈ nodesFrom definition, Reads m.2 n := by
  obtain ⟨maps, hraw, hreads⟩ := h.maps
  obtain ⟨m, hm, hmn⟩ := Pointwise.of_mem_right hreads hn
  obtain ⟨k, hk⟩ := List.mem_iff_getElem?.1 hm
  refine ⟨(k, m), ?_, hmn⟩
  rw [zipIdx_nodes hraw]
  exact List.mem_map.2 ⟨(m, k), by simpa [List.mem_zipIdx_iff_getElem?] using hk, rfl⟩

theorem strIds (h : Shape definition name nodes) :
    ((nodesFrom definition).filterMap fun m => strId m.2) = nodes.map (·.id) := by
  obtain ⟨maps, hraw, hreads⟩ := h.maps
  rw [zipIdx_nodes hraw, filterMap_strId_zipIdx, filterMap_strId hreads]

/-- A rule that looks at one node at a time is silent when every node meets its condition. -/
theorem flatMap_nil (h : Shape definition name nodes) {f : Nat × Dict Json → List WorkflowValidationError}
    {P : RawNode → Prop} (hf : ∀ m n, Reads m.2 n → (f m = [] ↔ P n)) :
    (nodesFrom definition).flatMap f = [] ↔ ∀ n ∈ nodes, P n := by
  rw [List.flatMap_eq_nil_iff]
  constructor
  · intro hall n hn
    obtain ⟨m, hm, hmn⟩ := h.listed_of_mem hn
    exact (hf m n hmn).1 (hall m hm)
  · intro hall m hm
    obtain ⟨n, hn, hmn⟩ := h.reads_of_mem hm
    exact (hf m n hmn).2 (hall n hn)

/-! ## The rules one by one -/

theorem requiredWorkflowFields (h : Shape definition name nodes) :
    requiredWorkflowFieldsRule definition = [] ↔ blank name = false := by
  obtain ⟨dag, maps, hdag, hnodes, -⟩ := h.nodes
  cases hb : blank name with
  | false => simp [requiredWorkflowFieldsRule, h.name, hdag, hnodes, hb, Json.asStr?, Json.asMapping?, Json.asList?]
  | true => simp [requiredWorkflowFieldsRule, h.name, hb, Json.asStr?]

theorem requiredNodeFields (h : Shape definition name nodes) : requiredNodeFieldsRule definition = [] := by
  obtain ⟨maps, hraw, hreads⟩ := h.maps
  rw [requiredNodeFieldsRule, hraw, List.flatMap_eq_nil_iff]
  intro p hp
  obtain ⟨m, hm, hpm⟩ := List.mem_map.1 (List.fst_mem_of_mem_zipIdx hp)
  obtain ⟨n, -, hn⟩ := Pointwise.of_mem_left hreads hm
  have hhas : ∀ field, (Dict.get? m field).isSome = true → Dict.has m field = true := fun field hf =>
    (Dict.has_iff m field).2 ((Dict.get?_isSome m field).1 hf)
  have hid := hhas "id" (by rw [hn.id]; rfl)
  have hhandler := hhas "handler" (by rw [hn.handler]; rfl)
  have hdeps := hhas "dependencies" (by rw [hn.dependencies]; rfl)
  rw [← hpm]
  simp [Validation.requiredNodeFields, Json.asMapping?, hid, hhandler, hdeps, hn.dependencies]

theorem nodeIdValidity (h : Shape definition name nodes) :
    nodeIdValidityRule definition = [] ↔ ∀ n ∈ nodes, isIdentifier n.id = true := by
  refine h.flatMap_nil fun m n hmn => ?_
  simp [hmn.strId]

theorem countedIds_eq (h : Shape definition name nodes) (hid : ∀ n ∈ nodes, isIdentifier n.id = true) :
    countedIds definition = nodes.map (·.id) := by
  rw [countedIds, h.strIds, List.filter_eq_self]
  intro i hi
  obtain ⟨n, hn, rfl⟩ := List.mem_map.1 hi
  exact hid n hn

theorem validNodeIds_eq (h : Shape definition name nodes) (hid : ∀ n ∈ nodes, isIdentifier n.id = true) :
    validNodeIds definition = nodes.map (·.id) := by
  rw [validNodeIds, h.strIds, List.filter_eq_self]
  intro i hi
  obtain ⟨n, hn, rfl⟩ := List.mem_map.1 hi
  simp [isIdentifier_not_blank (hid n hn)]

theorem uniqueNodeIds (h : Shape definition name nodes) (hid : ∀ n ∈ nodes, isIdentifier n.id = true) :
    uniqueNodeIdsRule definition = [] ↔ (nodes.map (·.id)).Nodup := by
  have hrule : uniqueNodeIdsRule definition = [] ↔ ∀ n ∈ nodes, (nodes.map (·.id)).count n.id ≤ 1 := by
    refine h.flatMap_nil fun m n hmn => ?_
    simp [hmn.strId, h.countedIds_eq hid]
  rw [hrule, List.nodup_iff_count_le_one]
  constructor
  · intro hall i
    by_cases hi : i ∈ nodes.map (·.id)
    · obtain ⟨n, hn, rfl⟩ := List.mem_map.1 hi
      exact hall n hn
    · rw [List.count_eq_zero_of_not_mem hi]
      exact Nat.zero_le 1
  · exact fun hall n _ => hall n.id

theorem handlerDefinition (h : Shape definition name nodes) :
    handlerDefinitionRule env definition = [] ↔ ∀ n ∈ nodes, n.handler ∈ allowedHandlers env := by
  refine h.flatMap_nil fun m n hmn => ?_
  simp [hmn.handler, Json.asStr?]

theorem nodeConfiguration_eq {m : Nat × Dict Json} {n : RawNode} (hmn : Reads m.2 n) :
    ∃ es, nodeConfiguration m.1 m.2 = .ok es ∧ (es = [] ↔ ConfigurationMet n) := by
  unfold nodeConfiguration ConfigurationMet
  simp only [hmn.handler, hmn.config, Option.getD_some, Json.str.injEq, Json.hashable, Bool.not_true,
    Bool.false_eq_true, if_false]
  by_cases hcall : n.handler = "call_external_service"
  · simp [hcall]
  · by_cases hllm : n.handler = "llm_service"
    · simp [hllm]
    · simp [hcall, hllm]

theorem nodeConfigurations (h : Shape definition name nodes) :
    ∃ es, nodeConfigurationRule definition = .ok es ∧ (es = [] ↔ ∀ n ∈ nodes, ConfigurationMet n) := by
  obtain ⟨r, hr, hiff⟩ := mapM_flatten (fun m => nodeConfiguration m.1 m.2) (nodesFrom definition) fun m hm => by
    obtain ⟨n, -, hmn⟩ := h.reads_of_mem hm
    obtain ⟨es, hes, -⟩ := nodeConfiguration_eq hmn
    exact ⟨es, hes⟩
  refine ⟨r.flatten, by simp [nodeConfigurationRule, hr, bind, Except.bind, pure, Except.pure], hiff.trans ⟨?_, ?_⟩⟩
  · intro hall n hn
    obtain ⟨m, hm, hmn⟩ := h.listed_of_mem hn
    obtain ⟨es, hes, hnil⟩ := nodeConfiguration_eq hmn
    exact hnil.1 (Except.ok.inj (hes.symm.trans (hall m hm)))
  · intro hall m hm
    obtain ⟨n, hn, hmn⟩ := h.reads_of_mem hm
    obtain ⟨es, hes, hnil⟩ := nodeConfiguration_eq hmn
    rw [hes, hnil.2 (hall n hn)]

theorem dependencyReferences (h : Shape definition name nodes) (hid : ∀ n ∈ nodes, isIdentifier n.id = true) :
    dependencyReferenceRule env definition = [] ↔
      ∀ n ∈ nodes, (∀ d ∈ n.dependencies, d ∈ nodes.map (·.id) ∧ d ≠ n.id) ∧ n.dependencies.Nodup := by
  refine h.flatMap_nil fun m n hmn => ?_
  simp only [hmn.dependencies, Option.bind_some, Json.asList?, dependencyErrors_strings, hmn.strId,
    h.validNodeIds_eq hid, List.not_mem_nil, not_false_eq_true, and_true, ne_eq, Option.some.injEq,
    @eq_comm String n.id]

theorem dependencyLists (h : Shape definition name nodes) : DependencyLists definition := by
  intro m hm j hj
  obtain ⟨n, -, hmn⟩ := h.reads_of_mem hm
  exact ⟨_, Option.some.inj (hj.symm.trans hmn.dependencies)⟩

/-- Where the other rules are silent, the cycle rule sees every declared edge. -/
theorem cycleEdge_iff (h : Shape definition name nodes) (hid : ∀ n ∈ nodes, isIdentifier n.id = true)
    (hnodup : (nodes.map (·.id)).Nodup)
    (hdeps : ∀ n ∈ nodes, ∀ d ∈ n.dependencies, d ∈ nodes.map (·.id) ∧ d ≠ n.id) {i d : String} :
    CycleEdge definition i d ↔ DeclaredEdge nodes i d := by
  have hident : ∀ i ∈ nodes.map (·.id), Identified definition i := by
    intro i hi
    refine ⟨?_, by rw [h.strIds]; exact List.count_eq_one_of_mem hnodup hi⟩
    obtain ⟨n, hn, rfl⟩ := List.mem_map.1 hi
    exact hid n hn
  constructor
  · rintro ⟨-, -, -, m, hm, hmid, ds, hds, hmem⟩
    obtain ⟨n, hn, hmn⟩ := h.reads_of_mem hm
    rw [hmn.dependencies, Option.some.injEq, Json.arr.injEq] at hds
    rw [← hds] at hmem
    exact ⟨n, hn, Option.some.inj (hmn.strId.symm.trans hmid), by simpa using hmem⟩
  · rintro ⟨n, hn, rfl, hd⟩
    obtain ⟨m, hm, hmn⟩ := h.listed_of_mem hn
    obtain ⟨hknown, hne⟩ := hdeps n hn d hd
    exact ⟨hident _ (List.mem_map_of_mem hn), hident d hknown, hne, m, hm, hmn.strId, _, hmn.dependencies,
      List.mem_map_of_mem hd⟩

end Shape

theorem validate_nil_iff (env : ValidationEnv) {configuration cycles : List WorkflowValidationError}
    (hconf : nodeConfigurationRule definition = .ok configuration)
    (hcyc : cycleDetectionRule definition = .ok cycles) :
    ∃ errors, validate env definition = .ok errors ∧ (errors = [] ↔ requiredWorkflowFieldsRule definition = [] ∧
      requiredNodeFieldsRule definition = [] ∧ nodeIdValidityRule definition = [] ∧ uniqueNodeIdsRule definition = [] ∧
      handlerDefinitionRule env definition = [] ∧ configuration = [] ∧ dependencyReferenceRule env definition = [] ∧
        cycles = []) := by
  refine ⟨_, by simp only [validate, hconf, hcyc, bind, Except.bind]; rfl, ?_⟩
  simp only [List.append_eq_nil_iff, and_assoc]

/-- On payloads of the model's shape the rules ask for a well-formed graph, no more and no less. -/
theorem validate_shape (env : ValidationEnv) (h : Shape definition name nodes) :
    ∃ errors, validate env definition = .ok errors ∧ (errors = [] ↔ WellFormedDefinition env name nodes) := by
  obtain ⟨configuration, hconf, hconfIff⟩ := h.nodeConfigurations
  obtain ⟨cycles, hcyc, hcycIff, -⟩ := cycleDetectionRule_spec h.dependencyLists.iterates
  rw [h.dependencyLists.edge] at hcycIff
  obtain ⟨errors, herrors, hiff⟩ := validate_nil_iff env hconf hcyc
  refine ⟨errors, herrors, hiff.trans ⟨?_, ?_⟩⟩
  · rintro ⟨hfields, -, hvalid, hunique, hhandlers, hconfNil, hdeps, hcycNil⟩
    have hid := h.nodeIdValidity.1 hvalid
    have hnodup := (h.uniqueNodeIds hid).1 hunique
    have hknown := (h.dependencyReferences hid).1 hdeps
    refine ⟨h.requiredWorkflowFields.1 hfields, hid, hnodup,
      fun n hn => ⟨h.handlerDefinition.1 hhandlers n hn, hconfIff.1 hconfNil n hn⟩, hknown, fun i hi => ?_⟩
    refine hcycIff.2 ⟨i, ?_⟩ hcycNil
    exact Relation.TransGen.mono (fun a b hab => (h.cycleEdge_iff hid hnodup fun n hn => (hknown n hn).1).2 hab) _ _ hi
  · intro hw
    refine ⟨h.requiredWorkflowFields.2 hw.named, h.requiredNodeFields, h.nodeIdValidity.2 hw.identifiers,
      (h.uniqueNodeIds hw.identifiers).2 hw.distinct, h.handlerDefinition.2 fun n hn => (hw.handlers n hn).1,
      hconfIff.2 fun n hn => (hw.handlers n hn).2, (h.dependencyReferences hw.identifiers).2 hw.dependencies, ?_⟩
    by_contra hne
    obtain ⟨i, hi⟩ := hcycIff.1 hne
    refine hw.acyclic i (Relation.TransGen.mono (fun a b hab => ?_) _ _ hi)
    exact (h.cycleEdge_iff hw.identifiers hw.distinct fun n hn => (hw.dependencies n hn).1).1 hab

/-! ## Any payload -/

/-- `hash` of the handler is taken, so it must not be a list or an object. -/
def Hashes (definition : Dict Json) : Prop :=
  ∀ m ∈ nodesFrom definition, ∀ j, Dict.get? m.2 "handler" = some j → j.hashable = true

theorem nodeConfiguration_ok {index : Nat} {m : Dict Json} :
    (∃ es, nodeConfiguration index m = .ok es) ↔ ∀ j, Dict.get? m "handler" = some j → j.hashable = true := by
  unfold nodeConfiguration
  cases hj : Dict.get? m "handler" with
  | none => simp [Json.hashable]
  | some j =>
    simp only [Option.getD_some, Option.some.injEq, forall_eq']
    cases j with
    | str s =>
      simp only [Json.hashable, iff_true]
      split
      · exact ⟨_, rfl⟩
      · split
        · exact ⟨_, rfl⟩
        · exact ⟨_, rfl⟩
    | _ => simp [Json.hashable]

theorem nodeConfigurationRule_ok : (∃ es, nodeConfigurationRule definition = .ok es) ↔ Hashes definition := by
  have hmap : (∃ es, nodeConfigurationRule definition = .ok es) ↔
      ∃ r, (nodesFrom definition).mapM (fun m => nodeConfiguration m.1 m.2) = .ok r := by
    unfold nodeConfigurationRule
    cases (nodesFrom definition).mapM (fun m => nodeConfiguration m.1 m.2) with
    | error e => simp [bind, Except.bind]
    | ok r => simp [bind, Except.bind, pure, Except.pure]
  simp only [hmap, Pointwise.mapM_eq_ok, Pointwise.exists_forall₂]
  exact forall₂_congr fun m _ => nodeConfiguration_ok

theorem foldlM_ok_mem {α β : Type} {f : β → α → Except AcceptError β} (l : List α) :
    ∀ {acc r : β}, l.foldlM f acc = .ok r → ∀ a ∈ l, ∃ acc r, f acc a = .ok r := by
  induction l with
  | nil => exact fun _ a ha => absurd ha (by simp)
  | cons b l ih =>
    intro acc r h a ha
    cases hb : f acc b with
    | error e => simp [hb, bind, Except.bind] at h
    | ok acc' =>
      rcases List.mem_cons.1 ha with rfl | ha
      · exact ⟨acc, acc', hb⟩
      · exact ih (by simpa [hb, bind, Except.bind] using h) a ha

theorem cycleDetectionRule_ok : (∃ es, cycleDetectionRule definition = .ok es) ↔ Iterates definition := by
  constructor
  · rintro ⟨es, hes⟩ m hm i hid hident j hj
    cases hg : cycleGraph definition with
    | error e => simp [cycleDetectionRule, hg, bind, Except.bind] at hes
    | ok graph =>
      obtain ⟨acc, r, hstep⟩ := foldlM_ok_mem (nodesFrom definition) hg m hm
      simp only [hid, identified_iff.2 hident, if_true, cycleEdges, hj, Option.getD_some] at hstep
      cases hiter : j.iterate with
      | ok items => exact ⟨items, rfl⟩
      | error e => simp [hiter, bind, Except.bind] at hstep
  · intro h
    obtain ⟨es, hes, -⟩ := cycleDetectionRule_spec h
    exact ⟨es, hes⟩

theorem validate_ok (env : ValidationEnv) :
    (∃ errors, validate env definition = .ok errors) ↔ Hashes definition ∧ Iterates definition := by
  rw [← nodeConfigurationRule_ok, ← cycleDetectionRule_ok, validate]
  cases nodeConfigurationRule definition with
  | error e => simp [bind, Except.bind]
  | ok configuration =>
    cases cycleDetectionRule definition with
    | error e => simp [bind, Except.bind]
    | ok cycles => simp [bind, Except.bind, pure, Except.pure]

theorem dependencyErrors_nil_strings {known : List String} {context : Option String} {index : Nat} (ds : List Json) :
    ∀ {position : Nat} {seen : List String}, dependencyErrors env known context index position seen ds = [] →
      ∃ ss : List String, ds = ss.map .str := by
  induction ds with
  | nil => exact fun _ => ⟨[], rfl⟩
  | cons d ds ih =>
    intro position seen h
    rw [dependencyErrors] at h
    cases d with
    | str s =>
      have hstr : (Json.str s).asStr? = some s := rfl
      rw [hstr] at h
      dsimp only at h
      have hrest : ∃ seen', dependencyErrors env known context index (position + 1) seen' ds = [] := by
        split at h
        · cases h
        · split at h
          · cases h
          · split at h
            · cases h
            · exact ⟨_, h⟩
      obtain ⟨seen', hnil⟩ := hrest
      obtain ⟨ss, rfl⟩ := ih hnil
      exact ⟨s :: ss, rfl⟩
    | _ => simp [Json.asStr?] at h

theorem requiredNodeFields_nil {index : Nat} {m : Dict Json} (h : requiredNodeFields index (.obj m) = []) :
    ∃ ds, Dict.get? m "dependencies" = some (.arr ds) := by
  simp only [requiredNodeFields, Json.asMapping?, List.append_eq_nil_iff, List.map_eq_nil_iff,
    List.filter_eq_nil_iff] at h
  have hhas := h.1 "dependencies" (by simp)
  have hsome : (Dict.get? m "dependencies").isSome = true := by
    rw [Dict.get?_isSome, ← Dict.has_iff]
    simpa using hhas
  obtain ⟨j, hj⟩ := Option.isSome_iff_exists.1 hsome
  rw [hj] at h
  cases j with
  | arr ds => exact ⟨ds, hj⟩
  | _ => exact absurd h.2 (by simp)

theorem forall₂_of_mem (items : List Json) (h : ∀ j ∈ items, ∃ m n, j = .obj m ∧ Reads m n) :
    ∃ maps nodes, items = maps.map .obj ∧ List.Forall₂ Reads maps nodes := by
  induction items with
  | nil => exact ⟨[], [], rfl, .nil⟩
  | cons j items ih =>
    obtain ⟨m, n, rfl, hmn⟩ := h j (by simp)
    obtain ⟨maps, nodes, rfl, hreads⟩ := ih fun j' hj' => h j' (by simp [hj'])
    exact ⟨m :: maps, n :: nodes, rfl, .cons hmn hreads⟩

theorem str_of_any {field : Option Json} {p : String → Bool} (h : (field.bind Json.asStr?).any p = true) :
    ∃ s, field = some (.str s) := by
  cases field with
  | none => simp at h
  | some j =>
    cases j with
    | str s => exact ⟨s, rfl⟩
    | _ => simp [Json.asStr?] at h

/-- A payload on which no rule complains has the shape of the model. -/
theorem shape_of_validate (h : validate env definition = .ok []) : ∃ name nodes, Shape definition name nodes := by
  obtain ⟨hhash, hiter⟩ := (validate_ok env).1 ⟨_, h⟩
  obtain ⟨configuration, hconf⟩ := nodeConfigurationRule_ok.2 hhash
  obtain ⟨cycles, hcyc⟩ := cycleDetectionRule_ok.2 hiter
  obtain ⟨errors, herrors, hiff⟩ := validate_nil_iff env hconf hcyc
  obtain rfl : [] = errors := Except.ok.inj (h.symm.trans herrors)
  obtain ⟨hfields, hrequired, hvalid, -, hhandlers, -, hdeps, -⟩ := hiff.1 rfl
  simp only [requiredWorkflowFieldsRule, List.append_eq_nil_iff] at hfields
  obtain ⟨hname, hdag⟩ := hfields
  obtain ⟨name, hname⟩ : ∃ name, Dict.get? definition "name" = some (.str name) := by
    split at hname
    · exact str_of_any ‹_›
    · cases hname
  cases hget : (Dict.get? definition "dag").bind Json.asMapping? with
  | none => simp [hget] at hdag
  | some dag =>
    rw [hget] at hdag
    cases hlist : (Dict.get? dag "nodes").bind Json.asList? with
    | none => simp [hlist] at hdag
    | some items =>
      have hraw : rawNodes definition = some items := by simp [rawNodes, hget, hlist]
      simp only [requiredNodeFieldsRule, hraw, Option.getD_some, List.flatMap_eq_nil_iff] at hrequired
      have hreads : ∀ j ∈ items, ∃ m n, j = .obj m ∧ Reads m n := by
        intro j hj
        obtain ⟨k, hk⟩ := List.mem_iff_getElem?.1 hj
        have hindex : (j, k) ∈ items.zipIdx := List.mem_zipIdx_iff_getElem?.2 hk
        have hnode := hrequired (j, k) hindex
        cases j with
        | obj m =>
          have hmem : (k, m) ∈ nodesFrom definition := by
            rw [nodesFrom, hraw]
            exact List.mem_filterMap.2 ⟨(.obj m, k), hindex, rfl⟩
          obtain ⟨ds, hds⟩ := requiredNodeFields_nil hnode
          have hid := List.flatMap_eq_nil_iff.1 hvalid _ hmem
          have hhandler := List.flatMap_eq_nil_iff.1 hhandlers _ hmem
          have hdep := List.flatMap_eq_nil_iff.1 hdeps _ hmem
          simp only [hds, Option.bind_some, Json.asList?] at hdep
          obtain ⟨ss, rfl⟩ := dependencyErrors_nil_strings ds hdep
          obtain ⟨i, hi⟩ : ∃ i, Dict.get? m "id" = some (.str i) := by
            split at hid
            · rename_i hany
              exact str_of_any (show ((Dict.get? m "id").bind Json.asStr?).any isIdentifier = true from hany)
            · cases hid
          obtain ⟨handler, hh⟩ : ∃ handler, Dict.get? m "handler" = some (.str handler) := by
            split at hhandler
            · exact str_of_any ‹_›
            · cases hhandler
          exact ⟨m, ⟨i, handler, ss, _⟩, rfl, hi, hh, hds, rfl⟩
        | _ => simp [requiredNodeFields, Json.asMapping?] at hnode
      obtain ⟨maps, nodes, rfl, hforall⟩ := forall₂_of_mem items hreads
      obtain ⟨jd, hjd, hmapping⟩ := Option.bind_eq_some_iff.1 hget
      obtain ⟨jn, hjn, hlisting⟩ := Option.bind_eq_some_iff.1 hlist
      cases jd <;> cases hmapping
      cases jn <;> cases hlisting
      exact ⟨name, nodes, hname, dag, maps, hjd, hjn, hforall⟩

/-! ## The workflow that is built -/

/-- A node of the payload and the node that the model makes of it. -/
structure Models (n : RawNode) (node : WorkflowNode) : Prop where
  id : node.id = n.id
  handler : node.handler = n.handler
  dependencies : node.dependencies = n.dependencies

theorem mapM_asStr (ss : List String) : (ss.map Json.str).mapM Json.asStr? = some ss := by
  induction ss with
  | nil => rfl
  | cons s ss ih => simp [ih, Json.asStr?]

theorem modelNode_models {m : Dict Json} {n : RawNode} {node : WorkflowNode} (hmn : Reads m n)
    (h : modelNode env (.obj m) = some node) : Models n node := by
  simp only [modelNode, Json.asMapping?, Option.bind_eq_bind, Option.bind_some, Option.bind_eq_some_iff,
    hmn.dependencies, Option.getD_some, Json.asList?, mapM_asStr] at h
  obtain ⟨id, hid, handler, hhandler, config, -, -, -, hnode⟩ := h
  cases hnode
  have hfield : ∀ {field s t : String}, Dict.get? m field = some (.str s) → nonEmptyStr m field = some t → t = s := by
    intro field s t hget ht
    have hsome := (Option.filter_eq_some_iff.1 ht).1
    rw [hget] at hsome
    exact (Option.some.inj hsome).symm
  exact ⟨hfield hmn.id hid, hfield hmn.handler hhandler, rfl⟩

theorem modelWorkflow_models {freshId : Uuid} {w : Workflow} (h : Shape definition name nodes)
    (hmodel : modelWorkflow env freshId definition = some w) : List.Forall₂ Models nodes w.nodes := by
  obtain ⟨dag, maps, hdag, hnodes, hreads⟩ := h.nodes
  have hmapM : (maps.map Json.obj).mapM (modelNode env) = some w.nodes := by
    simp only [modelWorkflow, Option.bind_eq_bind, hdag, Option.getD_some, Json.asMapping?] at hmodel
    obtain ⟨name', -, hmodel⟩ := Option.bind_eq_some_iff.1 hmodel
    cases hid : Dict.get? definition "workflow_id" <;>
      simp only [hid, Option.bind_eq_some_iff, Option.some.injEq, exists_eq_left', hnodes, Option.getD_some,
        Json.asList?] at hmodel
    · obtain ⟨built, hbuilt, -, -, hw⟩ := hmodel
      cases hw
      exact hbuilt
    · obtain ⟨workflowId, -, built, hbuilt, -, -, hw⟩ := hmodel
      cases hw
      exact hbuilt
  rw [Pointwise.mapM_eq_some, List.forall₂_map_left_iff] at hmapM
  exact Pointwise.through hreads hmapM fun m n node hmn hnode => modelNode_models hmn hnode

end Validation

open Validation

section Accepted

variable {env : ValidationEnv} {freshId : Uuid} {definition : Dict Json} {w : Workflow}

/-- What `accept` returns is built from a well-formed list of nodes. -/
theorem accept_shape (h : accept env freshId definition = .ok w) : ∃ name nodes, Shape definition name nodes ∧
    WellFormedDefinition env name nodes ∧ List.Forall₂ Models nodes w.nodes := by
  cases hval : validate env definition with
  | error e => simp [accept, hval, bind, Except.bind] at h
  | ok errors =>
    simp only [accept, hval, bind, Except.bind] at h
    split at h
    · cases h
    · rename_i hnil
      obtain rfl := not_not.1 hnil
      obtain ⟨name, nodes, hshape⟩ := shape_of_validate hval
      obtain ⟨errors, herrors, hiff⟩ := validate_shape env hshape
      have hw := hiff.1 (Except.ok.inj (herrors.symm.trans hval))
      cases hmodel : modelWorkflow env freshId definition with
      | none => simp [hmodel] at h
      | some w' =>
        simp only [hmodel, Except.ok.injEq] at h
        subst h
        exact ⟨name, nodes, hshape, hw, modelWorkflow_models hshape hmodel⟩

theorem nodeIds_of_models {nodes : List RawNode} (h : List.Forall₂ Models nodes w.nodes) :
    w.nodeIds = nodes.map (·.id) := by
  rw [Workflow.nodeIds]
  generalize w.nodes = built at h
  induction h with
  | nil => rfl
  | cons hmodel _ ih => simp [hmodel.id, ih]

theorem accept_wellFormed (h : accept env freshId definition = .ok w) : w.WellFormed := by
  obtain ⟨name, nodes, -, hw, hmodels⟩ := accept_shape h
  have hids := nodeIds_of_models hmodels
  obtain ⟨rank, hrank⟩ : ∃ rank, Ranked (nodes.map (·.id)) (DeclaredEdge nodes) rank := by
    refine Ranked.of_acyclic (fun i _ d hd => ?_) hw.acyclic
    obtain ⟨n, hn, -, hd⟩ := hd
    exact ((hw.dependencies n hn).1 d hd).1
  refine ⟨hids ▸ hw.distinct, fun node hnode d hd => ?_, fun node hnode hself => ?_, fun node hnode => ?_, rank,
    fun node hnode d hd => ?_⟩
  all_goals obtain ⟨n, hn, hmodel⟩ := Pointwise.of_mem_right hmodels hnode
  · rw [hids]
    exact ((hw.dependencies n hn).1 d (hmodel.dependencies ▸ hd)).1
  · rw [hmodel.dependencies, hmodel.id] at hself
    exact ((hw.dependencies n hn).1 n.id hself).2 rfl
  · rw [hmodel.dependencies]
    exact (hw.dependencies n hn).2
  · rw [hmodel.id]
    exact (hrank n.id (List.mem_map_of_mem hn) d ⟨n, hn, rfl, hmodel.dependencies ▸ hd⟩).2

/-- The nodes of an accepted workflow are named by identifiers. -/
theorem accept_identifiers (h : accept env freshId definition = .ok w) : ∀ i ∈ w.nodeIds, isIdentifier i = true := by
  obtain ⟨name, nodes, -, hw, hmodels⟩ := accept_shape h
  intro i hi
  rw [nodeIds_of_models hmodels] at hi
  obtain ⟨n, hn, rfl⟩ := List.mem_map.1 hi
  exact hw.identifiers n hn

end Accepted

end WorkflowEngine
