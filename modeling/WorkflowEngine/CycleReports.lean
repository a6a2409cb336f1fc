import Mathlib.Data.List.Chain
import WorkflowEngine.CycleSearch

/-!
# The cycle search on any payload

In every run of the search, whether it reports or not, the open frames, the active set, the
traversal stack and the index of positions describe one path of the graph. So no lookup or
removal fails, the loop ends, and what is reported is a cycle. Completeness is the converse
of `Search.acyclic`.
-/
namespace WorkflowEngine

namespace Validation

/-- Distinct nodes from `head` on, at least two, each with an edge to the next and the last to `head`. -/
structure IsCycle (edge : String → String → Prop) (head : String) (rest : List String) : Prop where
  other : rest ≠ []
  distinct : (head :: rest).Nodup
  chain : (head :: rest ++ [head]).IsChain edge

/-- The error spells out a cycle. -/
def Reports (edge : String → String → Prop) (e : WorkflowValidationError) : Prop :=
  ∃ head rest, IsCycle edge head rest ∧ e.code = "cyclic_dependency" ∧
    e.metadata = [("cycle_path", String.intercalate "->" (head :: rest ++ [head]))]

theorem IsCycle.reaches {edge : String → String → Prop} {head : String} {rest : List String}
    (h : IsCycle edge head rest) :
    Relation.TransGen edge head head := by
  have hwalk : ∀ (l : List String) (a : String), (a :: l ++ [head]).IsChain edge → Relation.TransGen edge a head := by
    intro l
    induction l with
    | nil =>
      intro a ha
      exact .single (List.isChain_pair.1 ha)
    | cons b l ih =>
      intro a ha
      obtain ⟨hab, hb⟩ := List.isChain_cons_cons.1 ha
      exact .head hab (ih b hb)
  exact hwalk rest head h.chain

namespace Search

variable {graph : Dict (List String)}

/-- The edges that the search follows. -/
def Edge (graph : Dict (List String)) (i d : String) : Prop := d ∈ deps graph i

/-- What the rule's dict comprehension guarantees about the graph. -/
structure Simple (graph : Dict (List String)) : Prop where
  nodup : (graph.map (·.1)).Nodup
  edges : ∀ i ∈ graph.map (·.1), ∀ d ∈ deps graph i, d ∈ graph.map (·.1)
  irreflexive : ∀ i, i ∉ deps graph i

structure Tracks (graph : Dict (List String)) (s : Search) : Prop where
  active : s.active = s.frames.map (·.1)
  traversal : s.traversal = s.active.reverse
  nodup : s.active.Nodup
  keys : ∀ i ∈ s.active, i ∈ graph.map (·.1)
  visited : ∀ i ∈ s.active, i ∈ s.visited
  position : ∀ i ∈ s.active, ∃ p, Dict.get? s.stackIndex i = some p ∧ s.traversal[p]? = some i
  bounds : ∀ f ∈ s.frames, f.2 ≤ (deps graph f.1).length
  chain : s.traversal.IsChain (Edge graph)
  errors : ∀ e ∈ s.errors, Reports (Edge graph) e

/-- Removing a key leaves the others. -/
theorem get?_erase (d : Dict Nat) {i u : String} (h : i ≠ u) :
    Dict.get? (d.filter fun m => decide (m.1 ≠ u)) i = Dict.get? d i := by
  induction d with
  | nil => rfl
  | cons m d ih =>
    rw [List.filter_cons]
    by_cases hm : m.1 = u
    · simpa [Dict.get?, hm, Ne.symm h] using ih
    · by_cases hi : m.1 = i
      · simp [Dict.get?, hi, h]
      · simpa [Dict.get?, hm, hi] using ih

/-- A node on the path and what follows it form a cycle when the path's end depends on the node. -/
theorem cycle_of_back_edge (before : List String) {rest : List String} {d u : String} (hne : d ≠ u)
    (hnodup : (before ++ d :: rest).Nodup) (hchain : (before ++ d :: rest).IsChain (Edge graph))
    (hlast : (before ++ d :: rest).getLast? = some u) (hedge : Edge graph u d) : IsCycle (Edge graph) d rest := by
  have hend : (d :: rest).getLast? = some u := by simpa using hlast
  refine ⟨?_, hnodup.sublist (List.sublist_append_right _ _), ?_⟩
  · rintro rfl
    exact hne (by simpa using hend)
  · refine (hchain.suffix (List.suffix_append _ _)).append (List.isChain_singleton d) fun x hx y hy => ?_
    obtain rfl : d = y := Option.some.inj hy
    rw [hend] at hx
    exact Option.some.inj hx ▸ hedge

theorem enter_tracks {s : Search} (h : Tracks graph s) {d : String} (hd : d ∉ s.visited) (hkey : d ∈ graph.map (·.1))
    (hedge : ∀ u ∈ s.frames.head?, Edge graph u.1 d) : Tracks graph (s.enter d s.traversal.length) := by
  have hnot : d ∉ s.active := mt (h.visited d) hd
  refine ⟨by simp [enter, h.active], by simp [enter, h.traversal], List.nodup_cons.2 ⟨hnot, h.nodup⟩, ?_, ?_, ?_,
    ?_, ?_, h.errors⟩
  · intro i hi
    rcases List.mem_cons.1 hi with rfl | hi
    · exact hkey
    · exact h.keys i hi
  · intro i hi
    rcases List.mem_cons.1 hi with rfl | hi
    · exact List.mem_cons_self
    · exact List.mem_cons_of_mem _ (h.visited i hi)
  · intro i hi
    by_cases hid : i = d
    · exact ⟨s.traversal.length, by simp [enter, Dict.get?_set, hid], by simp [enter, hid]⟩
    · obtain ⟨p, hp, hget⟩ := h.position i ((List.mem_cons.1 hi).resolve_left hid)
      refine ⟨p, by simpa [enter, Dict.get?_set, hid] using hp, ?_⟩
      rw [enter, List.getElem?_append_left (List.getElem?_eq_some_iff.1 hget).1, hget]
  · intro f hf
    rcases List.mem_cons.1 hf with rfl | hf
    · exact Nat.zero_le _
    · exact h.bounds f hf
  · refine h.chain.append (List.isChain_singleton d) fun x hx y hy => ?_
    obtain rfl : d = y := Option.some.inj hy
    rw [h.traversal, List.getLast?_reverse, h.active, List.head?_map] at hx
    obtain ⟨f, hf, rfl⟩ := Option.map_eq_some_iff.1 hx
    exact hedge f hf

section Rounds

variable {s t : Search} {u : String} {k : Nat} {rest : List (String × Nat)}

/-- The frame is popped, and its node leaves the path. -/
theorem close_tracks (h : Tracks graph s) (hframes : s.frames = (u, k) :: rest) : Tracks graph
    { s with
      frames := rest
      active := s.active.erase u
      stackIndex := s.stackIndex.filter fun m => decide (m.1 ≠ u)
      traversal := s.traversal.dropLast } := by
  have hactive : s.active = u :: rest.map (·.1) := by simp [h.active, hframes]
  have htraversal : s.traversal = (rest.map (·.1)).reverse ++ [u] := by simp [h.traversal, hactive]
  have hfresh := List.nodup_cons.1 (hactive ▸ h.nodup)
  refine ⟨by simp [hactive], by simp [htraversal, hactive], by simpa [hactive] using hfresh.2, ?_, ?_, ?_,
    ?_, ?_, h.errors⟩
  · exact fun i hi => h.keys i (List.mem_of_mem_erase hi)
  · exact fun i hi => h.visited i (List.mem_of_mem_erase hi)
  · intro i hi
    have hi' : i ∈ rest.map (·.1) := by simpa [hactive] using hi
    have hne : i ≠ u := fun he => hfresh.1 (he ▸ hi')
    obtain ⟨p, hp, hget⟩ := h.position i (List.mem_of_mem_erase hi)
    refine ⟨p, by rw [get?_erase _ hne, hp], ?_⟩
    have hlt : p < (rest.map (·.1)).reverse.length := by
      by_contra hge
      rw [htraversal, List.getElem?_append_right (not_lt.1 hge)] at hget
      exact hne (by simpa using List.mem_of_getElem? hget)
    rw [htraversal, List.getElem?_append_left hlt] at hget
    simpa [htraversal] using hget
  · exact fun f hf => h.bounds f (by simp [hframes, hf])
  · exact h.chain.prefix (List.dropLast_prefix _)

/-- An edge back to an open frame is reported with the path from there on. -/
theorem cycleError_reports (hg : Simple graph) (h : Tracks graph s) (hframes : s.frames = (u, k) :: rest) {d : String}
    (hedge : Edge graph u d) {p : Nat} (hget : s.traversal[p]? = some d) :
    Reports (Edge graph) (s.cycleError u d p) := by
  have hactive : s.active = u :: rest.map (·.1) := by simp [h.active, hframes]
  have hu : u ∈ s.active := by simp [hactive]
  obtain ⟨hlen, hgetElem⟩ := List.getElem?_eq_some_iff.1 hget
  have hdrop : s.traversal.drop p = d :: s.traversal.drop (p + 1) := by
    rw [List.drop_eq_getElem_cons hlen, hgetElem]
  have hsplit : s.traversal.take p ++ d :: s.traversal.drop (p + 1) = s.traversal := by
    rw [← hdrop, List.take_append_drop]
  refine ⟨d, s.traversal.drop (p + 1), cycle_of_back_edge (s.traversal.take p) (u := u) ?_ ?_ ?_ ?_ hedge, rfl, ?_⟩
  · exact fun he => hg.irreflexive u (he ▸ hedge)
  · rw [hsplit, h.traversal]
    exact List.nodup_reverse.2 h.nodup
  · rw [hsplit]
    exact h.chain
  · rw [hsplit, h.traversal, hactive]
    simp
  · simp [cycleError, hdrop]

theorem Round.tracks (hg : Simple graph) (hround : Round graph s u k rest t) (h : Tracks graph s)
    (hframes : s.frames = (u, k) :: rest) : Tracks graph t := by
  have hu : u ∈ s.active := by simp [h.active, hframes]
  have hnext : ∀ {d}, (deps graph u)[k]? = some d → Tracks graph { s with frames := (u, k + 1) :: rest } := by
    intro d hd
    refine { h with active := by simp [h.active, hframes], bounds := fun f hf => ?_ }
    rcases List.mem_cons.1 hf with rfl | hf
    · exact (List.getElem?_eq_some_iff.1 hd).1
    · exact h.bounds f (by simp [hframes, hf])
  cases hround with
  | closes => exact close_tracks h hframes
  | @reports d start hd hopen hstart =>
    obtain ⟨p, hp, hget⟩ := h.position d hopen
    obtain rfl : p = start := Option.some.inj (hp.symm.trans hstart)
    refine { hnext hd with errors := fun e he => ?_ }
    rcases List.mem_append.1 he with he | he
    · exact h.errors e he
    · rw [List.mem_singleton.1 he]
      exact cycleError_reports hg h hframes (List.mem_of_getElem? hd) hget
  | skips hd => exact hnext hd
  | @enters d hd hfresh =>
    have hedge : Edge graph u d := List.mem_of_getElem? hd
    exact enter_tracks (hnext hd) hfresh (hg.edges u (h.keys u hu) d hedge) (by simpa using hedge)

/-- No lookup and no removal fails while the path is tracked. -/
theorem advance_total (h : Tracks graph s) (hframes : s.frames = (u, k) :: rest) :
    ∃ t, s.advance graph u k rest = .ok t := by
  have hu : u ∈ s.active := by simp [h.active, hframes]
  obtain ⟨ds, hds⟩ := Option.isSome_iff_exists.1 ((Dict.get?_isSome graph u).2 (h.keys u hu))
  simp only [advance, hds]
  cases ds[k]? with
  | none => exact ⟨_, if_pos hu⟩
  | some d =>
    dsimp only
    split
    · rename_i hopen
      obtain ⟨p, hp, -⟩ := h.position d hopen
      exact ⟨_, by rw [hp]⟩
    · split
      · exact ⟨_, rfl⟩
      · exact ⟨_, rfl⟩

/-- One round: it raises nothing, keeps the path and takes one unit of the work that is left. -/
theorem advance_tracks (hg : Simple graph) (h : Tracks graph s) (hframes : s.frames = (u, k) :: rest) :
    ∃ t, s.advance graph u k rest = .ok t ∧ Tracks graph t ∧ remaining graph t < remaining graph s := by
  obtain ⟨t, hstep⟩ := advance_total h hframes
  have hround := advance_round hstep
  have hu : u ∈ s.active := by simp [h.active, hframes]
  exact ⟨t, hstep, hround.tracks hg h hframes,
    hround.remaining hg.nodup (hg.edges u (h.keys u hu)) hframes (h.bounds (u, k) (by simp [hframes]))⟩

end Rounds

theorem loop_tracks (hg : Simple graph) (rounds : Nat) : ∀ {s : Search}, Tracks graph s → remaining graph s ≤ rounds →
    ∃ t, loop graph rounds s = .ok t ∧ Tracks graph t ∧ t.frames = [] := by
  induction rounds with
  | zero =>
    intro s h hfuel
    refine ⟨s, rfl, h, ?_⟩
    cases hf : s.frames with
    | nil => rfl
    | cons f rest =>
      have := h.bounds f (by simp [hf])
      simp only [remaining, hf, List.map_cons, List.sum_cons] at hfuel
      omega
  | succ rounds ih =>
    intro s h hfuel
    cases hf : s.frames with
    | nil => exact ⟨s, by simp [loop, hf], h, hf⟩
    | cons f rest =>
      obtain ⟨u, k⟩ := f
      obtain ⟨t, hstep, ht, hlt⟩ := advance_tracks hg h hf
      obtain ⟨t', hloop, ht', hend⟩ := ih ht (by omega)
      exact ⟨t', by simp [loop, hf, hstep, hloop, bind, Except.bind], ht', hend⟩

/-- From a state without open frames, a start node is searched to the end. -/
theorem fromStart_tracks (hg : Simple graph) {s : Search} (h : Tracks graph s) (hend : s.frames = []) {i : String}
    (hi : i ∈ graph.map (·.1)) : ∃ t, fromStart graph s i = .ok t ∧ Tracks graph t ∧ t.frames = [] := by
  unfold fromStart
  split
  · exact ⟨s, rfl, h, hend⟩
  · rename_i hv
    have htraversal : s.traversal.length = 0 := by simp [h.traversal, h.active, hend]
    have henter := enter_tracks h hv hi (by simp [hend])
    rw [htraversal] at henter
    have hfuel : remaining graph (s.enter i 0) ≤ rounds graph := by
      rw [enter_remaining hg.nodup hv hi]
      simp only [remaining, hend, List.map_nil, List.sum_nil, Nat.add_zero]
      exact unvisited_le graph s.visited
    exact loop_tracks hg _ henter hfuel

/-- The search is total, and the frame stack is empty after every start node. -/
theorem search_total (hg : Simple graph) (starts : List String) : ∀ {s : Search}, Tracks graph s → s.frames = [] →
    (∀ i ∈ starts, i ∈ graph.map (·.1)) →
    ∃ t, starts.foldlM (fromStart graph) s = .ok t ∧ Tracks graph t ∧ t.frames = [] := by
  induction starts with
  | nil => exact fun h hend _ => ⟨_, rfl, h, hend⟩
  | cons i starts ih =>
    intro s h hend hkeys
    obtain ⟨t, hstep, ht, htend⟩ := fromStart_tracks hg h hend (hkeys i (by simp))
    obtain ⟨t', hfold, ht', hend'⟩ := ih ht htend fun j hj => hkeys j (by simp [hj])
    exact ⟨t', by simp [hstep, hfold, bind, Except.bind], ht', hend'⟩

theorem tracks_empty : Tracks graph ⟨[], [], [], [], [], []⟩ := by
  constructor <;> simp

end Search

/-! ## The graph of a payload -/

variable {definition : Dict Json}

/-- Every node's `dependencies`, where given, is a list. -/
def DependencyLists (definition : Dict Json) : Prop :=
  ∀ m ∈ nodesFrom definition, ∀ j, Dict.get? m.2 "dependencies" = some j → ∃ ds, j = .arr ds

/-- A valid identifier that exactly one node carries. -/
def Identified (definition : Dict Json) (i : String) : Prop :=
  isIdentifier i = true ∧ ((nodesFrom definition).filterMap fun m => strId m.2).count i = 1

/-- A node lists another one, both validly and uniquely identified. -/
def CycleEdge (definition : Dict Json) (i d : String) : Prop :=
  Identified definition i ∧ Identified definition d ∧ d ≠ i ∧ ∃ m ∈ nodesFrom definition, strId m.2 = some i ∧
    ∃ ds, Dict.get? m.2 "dependencies" = some (.arr ds) ∧ .str d ∈ ds

theorem identified_iff {i : String} : (countedIds definition).count i = 1 ↔ Identified definition i := by
  rw [Identified, countedIds]
  by_cases hi : isIdentifier i = true
  · simp [List.count_filter, hi]
  · have hnot : i ∉ ((nodesFrom definition).filterMap fun m => strId m.2).filter isIdentifier :=
      fun hm => hi (List.mem_filter.1 hm).2
    simp [List.count_eq_zero_of_not_mem hnot, hi]

/-- What iterating the declared dependencies yields. -/
def declared (node : Dict Json) : List Json :=
  ((Dict.get? node "dependencies").getD (.arr [])).iterate.toOption.getD []

/-- The declared dependencies that the search follows. -/
def edgesOf (definition : Dict Json) (i : String) (node : Dict Json) : List String :=
  ((declared node).filterMap Json.asStr?).filter fun d =>
    decide (d ≠ i) && decide ((countedIds definition).count d = 1)

theorem mem_edgesOf {i d : String} {node : Dict Json} : d ∈ edgesOf definition i node ↔
    d ≠ i ∧ Identified definition d ∧ .str d ∈ declared node := by
  simp only [edgesOf, List.mem_filter, List.mem_filterMap, Bool.and_eq_true, decide_eq_true_eq, identified_iff]
  constructor
  · rintro ⟨⟨j, hj, hstr⟩, hne, hd⟩
    cases j <;> cases hstr
    exact ⟨hne, hd, hj⟩
  · rintro ⟨hne, hd, hmem⟩
    exact ⟨⟨.str d, hmem, rfl⟩, hne, hd⟩

/-- The entry of a node in the graph. -/
def graphEntry (definition : Dict Json) (node : Dict Json) : Option (String × List String) :=
  (strId node).bind fun i => if (countedIds definition).count i = 1 then some (i, edgesOf definition i node) else none

theorem graphEntry_eq_some {node : Dict Json} {i : String} {ds : List String} :
    graphEntry definition node = some (i, ds) ↔
      strId node = some i ∧ (countedIds definition).count i = 1 ∧ ds = edgesOf definition i node := by
  rw [graphEntry]
  cases strId node with
  | none => simp
  | some k =>
    by_cases hk : (countedIds definition).count k = 1
    · simp only [Option.bind_some, hk, if_true, Option.some.injEq, Prod.mk.injEq]
      constructor
      · rintro ⟨rfl, rfl⟩
        exact ⟨rfl, hk, rfl⟩
      · rintro ⟨rfl, -, rfl⟩
        exact ⟨rfl, rfl⟩
    · simp only [Option.bind_some, hk, if_false, reduceCtorEq, Option.some.injEq, false_iff]
      rintro ⟨rfl, hk', -⟩
      exact hk hk'

/-- The dependencies of every identified node can be iterated over. -/
def Iterates (definition : Dict Json) : Prop :=
  ∀ m ∈ nodesFrom definition, ∀ i, strId m.2 = some i → Identified definition i →
    ∀ j, Dict.get? m.2 "dependencies" = some j → ∃ items, j.iterate = .ok items

theorem cycleEdges_eq {node : Dict Json}
    (h : ∀ j, Dict.get? node "dependencies" = some j → ∃ items, j.iterate = .ok items)
    (i : String) : cycleEdges definition i node = .ok (edgesOf definition i node) := by
  rw [cycleEdges, edgesOf, declared]
  cases hj : Dict.get? node "dependencies" with
  | none => rfl
  | some j =>
    obtain ⟨items, hitems⟩ := h j hj
    rw [Option.getD_some, hitems]
    rfl

theorem map_fst_entries (l : List (Nat × Dict Json)) :
    (l.filterMap fun m => graphEntry definition m.2).map (·.1) =
      (l.filterMap fun m => strId m.2).filter fun i => decide ((countedIds definition).count i = 1) := by
  induction l with
  | nil => rfl
  | cons m l ih =>
    cases hid : strId m.2 with
    | none =>
      have hentry : graphEntry definition m.2 = none := by simp [graphEntry, hid]
      simp [hentry, hid, ih]
    | some i =>
      by_cases hi : (countedIds definition).count i = 1
      · have hentry := graphEntry_eq_some.2 ⟨hid, hi, rfl⟩
        simp [hentry, hid, hi, ih]
      · have hentry : graphEntry definition m.2 = none := by simp [graphEntry, hid, hi]
        simp [hentry, hid, hi, ih]

theorem nodup_entries :
    (((nodesFrom definition).filterMap fun m => graphEntry definition m.2).map (·.1)).Nodup := by
  rw [map_fst_entries, List.nodup_iff_count_le_one]
  intro i
  by_cases hi : (countedIds definition).count i = 1
  · rw [List.count_filter (by simpa using hi), (identified_iff.1 hi).2]
  · rw [List.count_eq_zero_of_not_mem]
    · exact Nat.zero_le 1
    · exact fun hm => hi (of_decide_eq_true (List.mem_filter.1 hm).2)

/-- Setting fresh keys one after the other appends the entries. -/
theorem foldlM_entries (f : Dict (List String) → Nat × Dict Json → Except AcceptError (Dict (List String)))
    (entry : Nat × Dict Json → Option (String × List String)) (l : List (Nat × Dict Json))
    (hf : ∀ acc, ∀ m ∈ l, f acc m = .ok (((entry m).map fun e => Dict.set acc e.1 e.2).getD acc)) :
    ∀ acc : Dict (List String), ((acc ++ l.filterMap entry).map (·.1)).Nodup →
      l.foldlM f acc = .ok (acc ++ l.filterMap entry) := by
  induction l with
  | nil =>
    intro acc _
    simp [pure, Except.pure]
  | cons m l ih =>
    intro acc hnodup
    have hrest := ih (fun acc m' hm' => hf acc m' (by simp [hm']))
    simp only [List.foldlM_cons, hf acc m (by simp), bind, Except.bind]
    cases he : entry m with
    | none =>
      rw [List.filterMap_cons_none he] at hnodup ⊢
      exact hrest acc hnodup
    | some e =>
      rw [List.filterMap_cons_some he] at hnodup ⊢
      have hnew : Dict.has acc e.1 = false := by
        rw [Bool.eq_false_iff, Ne, Dict.has_iff]
        intro hmem
        rw [List.map_append] at hnodup
        exact (List.nodup_append.1 hnodup).2.2 _ hmem _ (by simp) rfl
      have hset : Dict.set acc e.1 e.2 = acc ++ [e] := by simp [Dict.set, hnew]
      rw [List.append_cons] at hnodup ⊢
      simp only [Option.map_some, Option.getD_some, hset]
      exact hrest _ hnodup

/-- The dict comprehension, entry by entry. -/
theorem cycleGraph_entries (h : Iterates definition) :
    cycleGraph definition = .ok ((nodesFrom definition).filterMap fun m => graphEntry definition m.2) := by
  rw [cycleGraph, foldlM_entries _ (fun m => graphEntry definition m.2) _ _ [] (by simpa using nodup_entries)]
  · rfl
  · intro acc m hm
    cases hid : strId m.2 with
    | none => simp [graphEntry, hid]
    | some i =>
      by_cases hi : (countedIds definition).count i = 1
      · simp only [hi, if_true, cycleEdges_eq (h m hm i hid (identified_iff.1 hi)),
          graphEntry_eq_some.2 ⟨hid, hi, rfl⟩]
        rfl
      · simp [graphEntry, hid, hi]

/-- The graph that the search runs on. -/
def searchGraph (definition : Dict Json) : Dict (List String) :=
  (nodesFrom definition).filterMap fun m => graphEntry definition m.2

theorem mem_keys {i : String} : i ∈ (searchGraph definition).map (·.1) ↔ Identified definition i := by
  rw [searchGraph, map_fst_entries, List.mem_filter, decide_eq_true_eq, identified_iff, and_iff_right_iff_imp]
  intro hi
  exact List.count_pos_iff.1 (by rw [hi.2]; exact Nat.one_pos)

theorem get?_searchGraph {i : String} {ds : List String} :
    Dict.get? (searchGraph definition) i = some ds ↔ (i, ds) ∈ searchGraph definition := by
  constructor
  · intro hds
    obtain ⟨m, hm, rfl⟩ := Option.map_eq_some_iff.1 hds
    have hkey : m.1 = i := by simpa using List.find?_some hm
    exact hkey ▸ List.mem_of_find?_eq_some hm
  · intro hmem
    have hmap := Dict.get?_map (·.1) (·.2) (searchGraph definition) nodup_entries hmem
    simpa using hmap

theorem edge_searchGraph {i d : String} : Search.Edge (searchGraph definition) i d ↔
    Identified definition i ∧ Identified definition d ∧ d ≠ i ∧
      ∃ m ∈ nodesFrom definition, strId m.2 = some i ∧ .str d ∈ declared m.2 := by
  rw [Search.Edge, Search.deps]
  constructor
  · intro hd
    cases hds : Dict.get? (searchGraph definition) i with
    | none => simp [hds] at hd
    | some ds =>
      rw [hds, Option.getD_some] at hd
      obtain ⟨m, hm, hentry⟩ := List.mem_filterMap.1 (get?_searchGraph.1 hds)
      obtain ⟨hid, hcount, rfl⟩ := graphEntry_eq_some.1 hentry
      obtain ⟨hne, hd, hlisted⟩ := mem_edgesOf.1 hd
      exact ⟨identified_iff.1 hcount, hd, hne, m, hm, hid, hlisted⟩
  · rintro ⟨hi, hd, hne, m, hm, hid, hlisted⟩
    have hentry : (i, edgesOf definition i m.2) ∈ searchGraph definition :=
      List.mem_filterMap.2 ⟨m, hm, graphEntry_eq_some.2 ⟨hid, identified_iff.2 hi, rfl⟩⟩
    rw [get?_searchGraph.2 hentry, Option.getD_some]
    exact mem_edgesOf.2 ⟨hne, hd, hlisted⟩

theorem simple_searchGraph : Search.Simple (searchGraph definition) := by
  refine ⟨nodup_entries, fun i _ d hd => ?_, fun i hi => ?_⟩
  · exact mem_keys.2 (edge_searchGraph.1 hd).2.1
  · exact (edge_searchGraph.1 hi).2.2.1 rfl

/-- Where the dependencies can be iterated over, the rule answers, and it reports exactly the cycles
of the graph it has built. -/
theorem cycleDetectionRule_spec (h : Iterates definition) :
    ∃ errors, cycleDetectionRule definition = .ok errors ∧
      (errors ≠ [] ↔ ∃ i, Relation.TransGen (Search.Edge (searchGraph definition)) i i) ∧
      ∀ e ∈ errors, Reports (Search.Edge (searchGraph definition)) e := by
  obtain ⟨s, hfold, hs, -⟩ := Search.search_total simple_searchGraph ((searchGraph definition).map (·.1))
    Search.tracks_empty rfl fun i hi => hi
  refine ⟨s.errors, ?_, ⟨fun hne => ?_, fun hcycle hnil => ?_⟩, hs.errors⟩
  · simp only [cycleDetectionRule, cycleGraph_entries h, bind, Except.bind]
    rw [← searchGraph, hfold]
    rfl
  · obtain ⟨e, he⟩ := List.exists_mem_of_ne_nil _ hne
    obtain ⟨head, rest, hcycle, -⟩ := hs.errors e he
    exact ⟨head, hcycle.reaches⟩
  · obtain ⟨i, hi⟩ := hcycle
    obtain ⟨rank, hrank⟩ := Search.acyclic simple_searchGraph.nodup simple_searchGraph.edges hfold hnil
    have hranked : Ranked ((searchGraph definition).map (·.1)) (Search.Edge (searchGraph definition)) rank :=
      fun i hi d hd => ⟨simple_searchGraph.edges i hi d hd, hrank i hi d hd⟩
    obtain ⟨d, hd, -⟩ := Relation.TransGen.head'_iff.1 hi
    exact hranked.acyclic (mem_keys.2 (edge_searchGraph.1 hd).1) hi

theorem DependencyLists.iterates (h : DependencyLists definition) : Iterates definition := by
  intro m hm _ _ _ j hj
  obtain ⟨ds, rfl⟩ := h m hm j hj
  exact ⟨ds, rfl⟩

theorem DependencyLists.edge (h : DependencyLists definition) :
    Search.Edge (searchGraph definition) = CycleEdge definition := by
  have hdeclared : ∀ m ∈ nodesFrom definition, ∀ d, Json.str d ∈ declared m.2 ↔
      ∃ ds, Dict.get? m.2 "dependencies" = some (.arr ds) ∧ .str d ∈ ds := by
    intro m hm d
    rw [declared]
    cases hj : Dict.get? m.2 "dependencies" with
    | none => simp [Json.iterate, Except.toOption]
    | some j =>
      obtain ⟨ds, rfl⟩ := h m hm j hj
      simp [Json.iterate, Except.toOption]
  funext i d
  refine propext (edge_searchGraph.trans ?_)
  constructor
  · rintro ⟨hi, hd, hne, m, hm, hid, hmem⟩
    exact ⟨hi, hd, hne, m, hm, hid, (hdeclared m hm d).1 hmem⟩
  · rintro ⟨hi, hd, hne, m, hm, hid, hmem⟩
    exact ⟨hi, hd, hne, m, hm, hid, (hdeclared m hm d).2 hmem⟩

/-- No start node leaves a frame open, nothing is raised, an error is returned exactly when the
identified nodes have a cycle, and every error spells one out. -/
theorem cycle_detection_exact (h : DependencyLists definition) :
    ∃ graph errors, cycleGraph definition = .ok graph ∧ cycleDetectionRule definition = .ok errors ∧
      (∀ starts, starts <+: graph.map (·.1) →
        ∃ s, starts.foldlM (Search.fromStart graph) ⟨[], [], [], [], [], []⟩ = .ok s ∧ s.frames = []) ∧
      (errors ≠ [] ↔ ∃ i, Relation.TransGen (CycleEdge definition) i i) ∧
      ∀ e ∈ errors, Reports (CycleEdge definition) e := by
  obtain ⟨errors, herrors, hiff, hreports⟩ := cycleDetectionRule_spec h.iterates
  rw [h.edge] at hiff hreports
  refine ⟨searchGraph definition, errors, cycleGraph_entries h.iterates, herrors, fun starts hpre => ?_,
    hiff, hreports⟩
  obtain ⟨s, hs, -, hend⟩ :=
    Search.search_total simple_searchGraph starts Search.tracks_empty rfl fun i hi => hpre.subset hi
  exact ⟨s, hs, hend⟩

/-- `a` and `b` wait for each other, `b` also for itself and for a node that is listed twice. -/
def tangled : Dict Json := [("dag", .obj [("nodes", .arr [
  .obj [("id", .str "a"), ("dependencies", .arr [.str "b"])],
  .obj [("id", .str "b"), ("dependencies", .arr [.str "b", .str "c", .str "a", .int 3])],
  .obj [("id", .str "c"), ("dependencies", .arr [.str "b"])], .obj [("id", .str "c")]])])]

theorem cycle_detection_exact_tangled : DependencyLists tangled ∧ ∃ errors, cycleDetectionRule tangled = .ok errors ∧
    errors.map (·.metadata) = [[("cycle_path", "a->b->a")]] ∧ ∃ i, Relation.TransGen (CycleEdge tangled) i i := by
  have hlists : DependencyLists tangled := by
    intro m hm j hj
    have hall :
        (nodesFrom tangled).all (fun m => (Dict.get? m.2 "dependencies").all fun j => j.asList?.isSome) = true := by
      decide +kernel
    have hj' := List.all_eq_true.1 hall m hm
    rw [hj] at hj'
    cases j <;> cases hj'
    exact ⟨_, rfl⟩
  obtain ⟨-, errors, -, herrors, -, hiff, -⟩ := cycle_detection_exact hlists
  have hpaths : (cycleDetectionRule tangled).map (·.map (·.metadata)) = .ok [[("cycle_path", "a->b->a")]] := by
    decide +kernel
  rw [herrors] at hpaths
  have hmap : errors.map (·.metadata) = [[("cycle_path", "a->b->a")]] := Except.ok.inj hpaths
  refine ⟨hlists, errors, herrors, hmap, hiff.1 ?_⟩
  rintro rfl
  cases hmap

end Validation

end WorkflowEngine
