import WorkflowEngine.Lib.Scan
import WorkflowEngine.Templates

/-!
# The delimiters of template strings

The pattern search and the scan for stray delimiters, over one decomposition of the text into
blocks, each the text before a template and its expression, and the rest. The scan accepts
exactly the texts whose literal parts are free of both delimiters.
-/
namespace WorkflowEngine

namespace TemplateParser

/-! ## Occurrences of a delimiter -/

/-- The delimiter made of two `c` stands at position `i`. -/
def Twice (c : Char) (l : List Char) (i : Nat) : Prop := l[i]? = some c ∧ l[i + 1]? = some c

/-- The delimiter made of two `c` does not occur. -/
def Free (c : Char) (l : List Char) : Prop := ∀ i, ¬ Twice c l i

variable {c : Char} {l value rest tail : List Char} {i p start : Nat}

theorem Twice.lt (h : Twice c l i) : i + 1 < l.length := (List.getElem?_eq_some_iff.1 h.2).1

theorem twice_drop {k : Nat} : Twice c (value.drop k) i ↔ Twice c value (k + i) := by
  simp only [Twice, List.getElem?_drop, Nat.add_assoc]

theorem twice_append_right {a : List Char} (h : a.length ≤ i) : Twice c (a ++ l) i ↔ Twice c l (i - a.length) := by
  rw [Twice, Twice, List.getElem?_append_right h, List.getElem?_append_right (by omega)]
  rw [show i + 1 - a.length = i - a.length + 1 by omega]

theorem twice_append_left {a : List Char} (h : i + 1 < a.length) : Twice c (a ++ l) i ↔ Twice c a i := by
  rw [Twice, Twice, List.getElem?_append_left (by omega), List.getElem?_append_left h]

theorem isPrefixOf_pair : [c, c].isPrefixOf l = true ↔ Twice c l 0 := by
  rw [List.isPrefixOf_iff_prefix, Twice]
  cases l with
  | nil => simp
  | cons a l =>
    cases l with
    | nil => simp
    | cons b l => simp [List.cons_prefix_cons, eq_comm]

theorem findFrom_spec (c : Char) (l : List Char) : ∀ position,
    (∀ k, findFrom [c, c] l position = some k →
      ∃ i, k = position + i ∧ Twice c l i ∧ ∀ j < i, ¬ Twice c l j) ∧
    (findFrom [c, c] l position = none → Free c l) := by
  induction l with
  | nil =>
    intro position
    refine ⟨by simp [findFrom], fun _ i h => ?_⟩
    exact absurd h.lt (by simp)
  | cons a l ih =>
    intro position
    have hsucc : ∀ j, Twice c (a :: l) (j + 1) ↔ Twice c l j := fun j => by simp [Twice]
    rw [findFrom]
    by_cases hhere : [c, c].isPrefixOf (a :: l) = true
    · simp only [hhere, if_true, Option.some.injEq, reduceCtorEq, false_implies, and_true]
      rintro k rfl
      exact ⟨0, rfl, isPrefixOf_pair.1 hhere, by simp⟩
    · have hzero : ¬ Twice c (a :: l) 0 := mt isPrefixOf_pair.2 hhere
      rw [if_neg hhere]
      obtain ⟨hsome, hnone⟩ := ih (position + 1)
      constructor
      · intro k hk
        obtain ⟨i, rfl, hi, hfirst⟩ := hsome k hk
        refine ⟨i + 1, by omega, (hsucc i).2 hi, fun j hj => ?_⟩
        cases j with
        | zero => exact hzero
        | succ j => exact mt (hsucc j).1 (hfirst j (by omega))
      · intro hn i
        cases i with
        | zero => exact hzero
        | succ i => exact mt (hsucc i).1 (hnone hn i)

theorem find_some (h : find value [c, c] start = some p) :
    start ≤ p ∧ Twice c value p ∧ ∀ q, start ≤ q → q < p → ¬ Twice c value q := by
  obtain ⟨i, rfl, hi, hfirst⟩ := (findFrom_spec c (value.drop start) start).1 p h
  refine ⟨by omega, twice_drop.1 hi, fun q hq hlt htwice => hfirst (q - start) (by omega) (twice_drop.2 ?_)⟩
  rwa [Nat.add_sub_cancel' hq]

theorem find_none (h : find value [c, c] start = none) : ∀ q, start ≤ q → ¬ Twice c value q := by
  intro q hq htwice
  refine (findFrom_spec c (value.drop start) start).2 h (q - start) (twice_drop.2 ?_)
  rwa [Nat.add_sub_cancel' hq]

theorem find_eq_some (hle : start ≤ p) (hp : Twice c value p) (hfirst : ∀ q, start ≤ q → q < p → ¬ Twice c value q) :
    find value [c, c] start = some p := by
  cases hf : find value [c, c] start with
  | none => exact absurd hp (find_none hf p hle)
  | some q =>
    obtain ⟨hq, hhere, hmin⟩ := find_some hf
    rcases Nat.lt_trichotomy p q with hlt | rfl | hgt
    · exact absurd hp (hmin p hle hlt)
    · rfl
    · exact absurd hhere (hfirst q hq hgt)

/-- A position lies in one of the matched spans. -/
def CoveredAt (matched : List (Nat × Nat)) (p : Nat) : Prop := ∃ m ∈ matched, m.1 ≤ p ∧ p < m.2

theorem covered_iff (matched : List (Nat × Nat)) (fuel : Nat) : ∀ start, value.length < start + fuel →
    (covered value [c, c] matched fuel start = true ↔ Scanned (Twice c value) (CoveredAt matched) 2 start) := by
  induction fuel with
  | zero =>
    intro start hfuel
    simp only [covered, true_iff]
    exact .done fun p hp htwice => absurd htwice.lt (by omega)
  | succ fuel ih =>
    intro start hfuel
    rw [covered]
    cases hf : find value [c, c] start with
    | none => simpa using Scanned.done (find_none hf)
    | some q =>
      obtain ⟨hq, hhere, hfirst⟩ := find_some hf
      have hlt := hhere.lt
      simp only [Bool.and_eq_true, List.any_eq_true, decide_eq_true_eq, ih (q + 2) (by omega)]
      constructor
      · rintro ⟨hok, hrest⟩
        exact .next hq hhere hfirst hok hrest
      · intro h
        cases h with
        | done hnone => exact absurd hhere (hnone q hq)
        | @next _ q' le here first ok rest =>
          obtain rfl : q = q' := by
            rcases Nat.lt_trichotomy q q' with h | h | h
            · exact absurd hhere (first q hq h)
            · exact h
            · exact absurd here (hfirst q' le h)
          exact ⟨ok, rest⟩

/-! ## Blocks -/

theorem drop_of_twice (h : Twice c l i) : l.drop i = [c, c] ++ l.drop (i + 2) := by
  obtain ⟨h₁, e₁⟩ := List.getElem?_eq_some_iff.1 h.1
  obtain ⟨h₂, e₂⟩ := List.getElem?_eq_some_iff.1 h.2
  rw [List.drop_eq_getElem_cons h₁, List.drop_eq_getElem_cons h₂, e₁, e₂]
  rfl

/-- The first template of a text, with what stands before, between and after its delimiters. -/
structure Cut (text lit e rest : List Char) : Prop where
  eq : text = lit ++ (openDelimiter ++ (e ++ (closeDelimiter ++ rest)))
  opens : ∀ j < lit.length, ¬ Twice '\x7b' text j
  closes : ∀ j, lit.length + 2 ≤ j → j < lit.length + 2 + e.length → ¬ Twice '\x7d' text j

/-- The templates of a text from left to right and the text behind the last one. -/
inductive Blocks : List Char → List (List Char × List Char) → List Char → Prop where
  | done {text : List Char} (none : ∀ i, Twice '\x7b' text i → ∀ j, i + 2 ≤ j → ¬ Twice '\x7d' text j) :
      Blocks text [] text
  | block {text lit e rest : List Char} {bs : List (List Char × List Char)} {tail : List Char}
      (cut : Cut text lit e rest)
      (more : Blocks rest bs tail) : Blocks text ((lit, e) :: bs) tail

namespace Cut

variable {text lit e rest : List Char}

theorem opened (h : Cut text lit e rest) : Twice '\x7b' text lit.length := by
  rw [h.eq, twice_append_right le_rfl, Nat.sub_self]
  exact ⟨rfl, rfl⟩

theorem closed (h : Cut text lit e rest) : Twice '\x7d' text (lit.length + 2 + e.length) := by
  rw [h.eq, twice_append_right (by omega), twice_append_right (by simp [openDelimiter]; omega),
    twice_append_right (by simp [openDelimiter]; omega)]
  have hzero : lit.length + 2 + e.length - lit.length - openDelimiter.length - e.length = 0 := by
    simp [openDelimiter]
    omega
  rw [hzero]
  exact ⟨rfl, rfl⟩

theorem drop_eq (h : Cut text lit e rest) : text.drop (lit.length + 2 + e.length + 2) = rest := by
  have hlen : lit.length + 2 + e.length + 2 = (lit ++ (openDelimiter ++ (e ++ closeDelimiter))).length := by
    simp [openDelimiter, closeDelimiter]
    omega
  rw [h.eq, hlen]
  simp only [← List.append_assoc, List.drop_left]

theorem length_eq (h : Cut text lit e rest) : text.length = lit.length + 2 + e.length + 2 + rest.length := by
  rw [h.eq]
  simp [openDelimiter, closeDelimiter]
  omega

/-- A text whose first opening delimiter is followed by a closing one can be cut. -/
theorem of_find {i j : Nat} (hi : Twice '\x7b' text i) (hfirst : ∀ k < i, ¬ Twice '\x7b' text k) (hle : i + 2 ≤ j)
    (hj : Twice '\x7d' text j) (hmin : ∀ k, i + 2 ≤ k → k < j → ¬ Twice '\x7d' text k) :
    Cut text (text.take i) ((text.drop (i + 2)).take (j - (i + 2))) (text.drop (j + 2)) := by
  have hlt := hj.lt
  have hlit : (text.take i).length = i := by simp; omega
  have hexp : ((text.drop (i + 2)).take (j - (i + 2))).length = j - (i + 2) := by simp; omega
  refine ⟨?_, by rwa [hlit], ?_⟩
  · have hclose : (text.drop (i + 2)).drop (j - (i + 2)) = closeDelimiter ++ text.drop (j + 2) := by
      rw [List.drop_drop, Nat.add_sub_cancel' hle]
      exact drop_of_twice hj
    rw [← hclose, List.take_append_drop, show openDelimiter ++
      text.drop (i + 2) = text.drop i from (drop_of_twice hi).symm, List.take_append_drop]
  · rw [hlit, hexp]
    intro k hk hlt
    exact hmin k hk (by omega)

end Cut

/-- The spans of the blocks of a text that starts at `cursor`. -/
def spansOf (cursor : Nat) : List (List Char × List Char) → List (Nat × Nat)
  | [] => []
  | (lit, e) :: bs =>
    (cursor + lit.length, cursor + (lit.length + 2 + e.length + 2)) :: spansOf
      (cursor + (lit.length + 2 + e.length + 2)) bs

theorem exists_blocks (text : List Char) : ∃ bs tail, Blocks text bs tail := by
  induction hn : text.length using Nat.strong_induction_on generalizing text with
  | _ n ih =>
    by_cases h : ∃ i j, Twice '\x7b' text i ∧ i + 2 ≤ j ∧ Twice '\x7d' text j
    · classical
      have hopen : ∃ i, Twice '\x7b' text i := by
        obtain ⟨i, -, hi, -⟩ := h
        exact ⟨i, hi⟩
      have hclose : ∃ j, Nat.find hopen + 2 ≤ j ∧ Twice '\x7d' text j := by
        obtain ⟨i, j, hi, hle, hj⟩ := h
        exact ⟨j, by have := Nat.find_min' hopen hi; omega, hj⟩
      have hcut := Cut.of_find (Nat.find_spec hopen) (fun k hk => Nat.find_min hopen hk) (Nat.find_spec hclose).1
        (Nat.find_spec hclose).2 fun k hk hlt htwice => Nat.find_min hclose hlt ⟨hk, htwice⟩
      have hlen := hcut.length_eq
      obtain ⟨bs, tail, hmore⟩ := ih (text.drop (Nat.find hclose + 2)).length (by omega) _ rfl
      exact ⟨_, tail, .block hcut hmore⟩
    · refine ⟨[], text, .done fun i hi j hle hj => h ⟨i, j, hi, hle, hj⟩⟩

theorem spans_eq {text : List Char} {bs : List (List Char × List Char)} {tail : List Char} (h : Blocks text bs tail) :
    ∀ cursor fuel, value.drop cursor = text → text.length < fuel → spans value fuel cursor = spansOf cursor bs := by
  induction h with
  | @done text hnone =>
    intro cursor fuel hdrop hfuel
    obtain ⟨fuel, rfl⟩ : ∃ k, fuel = k + 1 := ⟨fuel - 1, by omega⟩
    rw [spans, spansOf]
    cases hf : find value openDelimiter cursor with
    | none => rfl
    | some i =>
      obtain ⟨hle, hi, -⟩ := find_some hf
      dsimp only
      cases hg : find value closeDelimiter (i + 2) with
      | none => rfl
      | some j =>
        obtain ⟨hle', hj, -⟩ := find_some hg
        have hshift : ∀ {c k}, cursor ≤ k → (Twice c value k ↔ Twice c text (k - cursor)) := by
          intro c k hk
          rw [← hdrop, twice_drop, Nat.add_sub_cancel' hk]
        exact absurd ((hshift (by omega)).1 hj) (hnone _ ((hshift hle).1 hi) _ (by omega))
  | @block text lit e rest bs tail cut more ih =>
    intro cursor fuel hdrop hfuel
    obtain ⟨fuel, rfl⟩ : ∃ k, fuel = k + 1 := ⟨fuel - 1, by omega⟩
    have hshift : ∀ {c k}, Twice c text k ↔ Twice c value (cursor + k) := by
      intro c k
      rw [← hdrop, twice_drop]
    have hopen : find value openDelimiter cursor = some (cursor + lit.length) := by
      refine find_eq_some (by omega) (hshift.1 cut.opened) fun q hq hlt htwice => ?_
      refine cut.opens (q - cursor) (by omega) (hshift.2 ?_)
      rwa [Nat.add_sub_cancel' hq]
    have hclose :
        find value closeDelimiter (cursor + lit.length + 2) = some (cursor + (lit.length + 2 + e.length)) := by
      refine find_eq_some (by omega) (hshift.1 cut.closed) fun q hq hlt htwice => ?_
      refine cut.closes (q - cursor) (by omega) (by omega) (hshift.2 ?_)
      rwa [Nat.add_sub_cancel' (by omega)]
    have hlen := cut.length_eq
    have hnext :=
      ih (cursor + (lit.length + 2 + e.length + 2)) fuel (by rw [← List.drop_drop, hdrop, cut.drop_eq]) (by omega)
    rw [spans, hopen]
    dsimp only
    rw [hclose, spansOf]
    dsimp only
    rw [show cursor + (lit.length + 2 + e.length) + 2 = cursor + (lit.length + 2 + e.length + 2) by omega, hnext]

/-! ## The scan for stray delimiters -/

/-- No literal text holds a delimiter. -/
structure Clean (bs : List (List Char × List Char)) (tail : List Char) : Prop where
  blocks : ∀ b ∈ bs, Free '\x7d' b.1
  opens : Free '\x7b' tail
  closes : Free '\x7d' tail

variable {matched : List (Nat × Nat)} {bs : List (List Char × List Char)} {text : List Char} {cursor : Nat}

theorem spansOf_start (bs : List (List Char × List Char)) : ∀ cursor, ∀ m ∈ spansOf cursor bs, cursor ≤ m.1 := by
  induction bs with
  | nil => exact fun _ m hm => absurd hm (by simp [spansOf])
  | cons b bs ih =>
    intro cursor m hm
    obtain ⟨lit, e⟩ := b
    rcases List.mem_cons.1 hm with rfl | hm
    · exact Nat.le_add_right _ _
    · exact (Nat.le_add_right _ _).trans (ih _ m hm)

/-- A stretch outside the spans is free of a delimiter if the scan passes over it. -/
theorem free_of_scanned {a b : List Char} (hscan : Scanned (Twice c value) (CoveredAt matched) 2 start)
    (hle : start ≤ cursor) (hbegin : start = cursor ∨ ¬ Twice c value (cursor - 1))
    (hdrop : value.drop cursor = a ++ b) (hout : ∀ q, cursor ≤ q → q < cursor + a.length → ¬ CoveredAt matched q) :
    Free c a := by
  have hshift : ∀ {k}, k + 1 < a.length → (Twice c a k ↔ Twice c value (cursor + k)) := by
    intro k hk
    rw [← twice_append_left (l := b) hk, ← hdrop, twice_drop]
  by_contra hnot
  have hex : ∃ i, Twice c a i := by simpa [Free] using hnot
  classical
  have hi := Nat.find_spec hex
  have hlt := hi.lt
  refine hout (cursor + Nat.find hex) (by omega) (by omega) (hscan.visits (by omega) ((hshift hlt).1 hi) ?_).1
  cases hk : Nat.find hex with
  | zero => exact hbegin.imp (fun h => h.symm) id
  | succ k =>
    refine .inr fun htwice => Nat.find_min hex (m := k) (by omega) ((hshift (by omega)).2 ?_)
    rwa [show cursor + (k + 1) - 1 = cursor + k by omega] at htwice

theorem clean_of_scanned (h : Blocks text bs tail)
    (hopen : Scanned (Twice '\x7b' value) (CoveredAt matched) 2 0) : ∀ pre cursor, value.drop cursor = text →
      matched = pre ++ spansOf cursor bs → (∀ m ∈ pre, m.2 ≤ cursor) →
        (0 = cursor ∨ value[cursor - 1]? ≠ some '\x7b') →
      Scanned (Twice '\x7d' value) (CoveredAt matched) 2 cursor → Clean bs tail := by
  induction h with
  | @done text hnone =>
    intro pre cursor hdrop hmatched hpre hbefore hclose
    have hout : ∀ q, cursor ≤ q → q < cursor + text.length → ¬ CoveredAt matched q := by
      rintro q hq - ⟨m, hm, -, hlt⟩
      have := hpre m (by simpa [hmatched, spansOf] using hm)
      omega
    refine ⟨by simp, ?_, ?_⟩
    · exact free_of_scanned (b := []) hopen (Nat.zero_le _) (hbefore.imp_right fun hne ht => hne ht.1)
        (by simpa using hdrop) hout
    · exact free_of_scanned (b := []) hclose le_rfl (.inl rfl) (by simpa using hdrop) hout
  | @block text lit e rest bs tail cut more ih =>
    intro pre cursor hdrop hmatched hpre hbefore hclose
    have hshift : ∀ {c k}, Twice c text k ↔ Twice c value (cursor + k) := by
      intro c k
      rw [← hdrop, twice_drop]
    have hlit : Free '\x7d' lit := by
      refine free_of_scanned hclose le_rfl (.inl rfl) (hdrop.trans cut.eq) ?_
      rintro q hq hlt ⟨m, hm, hmle, hmlt⟩
      rw [hmatched, spansOf, List.mem_append, List.mem_cons] at hm
      rcases hm with hm | rfl | hm
      · have := hpre m hm
        omega
      · dsimp only at hmle
        omega
      · have := spansOf_start _ _ m hm
        omega
    -- the scan meets the closing delimiter and goes on behind it
    have hnot : ¬ Twice '\x7d' value (cursor + (lit.length + 2 + e.length) - 1) := by
      rw [show cursor + (lit.length + 2 + e.length) - 1 = cursor + (lit.length + 1 + e.length) by omega, ← hshift]
      intro htwice
      cases he : e.length with
      | zero =>
        have hbrace := cut.opened.2
        rw [he, Nat.add_zero] at htwice
        rw [htwice.1] at hbrace
        cases hbrace
      | succ k => exact cut.closes _ (by omega) (by omega) htwice
    have hnext := (hclose.visits (by omega) (hshift.1 cut.closed) (.inr hnot)).2
    have hclean := ih (pre ++ [(cursor + lit.length, cursor + (lit.length + 2 + e.length + 2))])
      (cursor + (lit.length + 2 + e.length + 2)) (by rw [← List.drop_drop, hdrop, cut.drop_eq])
      (by simp [hmatched, spansOf]) ?_ (.inr ?_) hnext
    · refine ⟨fun b hb => ?_, hclean.opens, hclean.closes⟩
      rcases List.mem_cons.1 hb with rfl | hb
      · exact hlit
      · exact hclean.blocks b hb
    · intro m hm
      rcases List.mem_append.1 hm with hm | hm
      · exact (hpre m hm).trans (Nat.le_add_right _ _)
      · rw [List.mem_singleton.1 hm]
    · have hlast := (hshift.1 cut.closed).2
      rw [show cursor + (lit.length + 2 + e.length + 2) - 1 = cursor + (lit.length + 2 + e.length) + 1 by omega, hlast]
      decide

theorem coveredAt_of_clean (h : Blocks text bs tail) : ∀ cursor, Clean bs tail → value.drop cursor = text →
    (∀ m ∈ spansOf cursor bs, m ∈ matched) → ∀ c, c = '\x7b' ∨ c = '\x7d' → ∀ p, cursor ≤ p → Twice c value p →
      CoveredAt matched p := by
  induction h with
  | @done text hnone =>
    intro cursor hclean hdrop _ c hc p hle htwice
    have htext : Twice c text (p - cursor) := by rwa [← hdrop, twice_drop, Nat.add_sub_cancel' hle]
    rcases hc with rfl | rfl
    · exact absurd htext (hclean.opens _)
    · exact absurd htext (hclean.closes _)
  | @block text lit e rest bs tail cut more ih =>
    intro cursor hclean hdrop hmatched c hc p hle htwice
    have htext : Twice c text (p - cursor) := by rwa [← hdrop, twice_drop, Nat.add_sub_cancel' hle]
    by_cases hlit : p - cursor < lit.length
    · rcases hc with rfl | rfl
      · exact absurd htext (cut.opens _ hlit)
      · by_cases hin : p - cursor + 1 < lit.length
        · refine absurd ?_ (hclean.blocks (lit, e) (by simp) (p - cursor))
          rwa [cut.eq, twice_append_left hin] at htext
        · have hbrace := cut.opened.1
          rw [show lit.length = p - cursor + 1 by omega, htext.2] at hbrace
          cases hbrace
    · by_cases hspan : p < cursor + (lit.length + 2 + e.length + 2)
      · exact ⟨_, hmatched _ List.mem_cons_self, by dsimp only; omega, hspan⟩
      · exact ih _ ⟨fun b hb => hclean.blocks b (by simp [hb]), hclean.opens, hclean.closes⟩
          (by rw [← List.drop_drop, hdrop, cut.drop_eq]) (fun m hm => hmatched m (List.mem_cons_of_mem _ hm)) c hc p
            (by omega) htwice

/-- The scan accepts exactly the texts whose literals are free of delimiters. -/
theorem validateDelimiters_iff (h : Blocks value bs tail) :
    validateDelimiters value (spansOf 0 bs) = .ok () ↔ Clean bs tail := by
  have hopen : covered value openDelimiter (spansOf 0 bs) (value.length + 1) 0 = true ↔
      Scanned (Twice '\x7b' value) (CoveredAt (spansOf 0 bs)) 2 0 := covered_iff _ _ _ (by omega)
  have hclose : covered value closeDelimiter (spansOf 0 bs) (value.length + 1) 0 = true ↔
      Scanned (Twice '\x7d' value) (CoveredAt (spansOf 0 bs)) 2 0 := covered_iff _ _ _ (by omega)
  have hscan : validateDelimiters value (spansOf 0 bs) = .ok () ↔
      Scanned (Twice '\x7b' value) (CoveredAt (spansOf 0 bs)) 2 0 ∧
        Scanned (Twice '\x7d' value) (CoveredAt (spansOf 0 bs)) 2 0 := by
    rw [← hopen, ← hclose, validateDelimiters]
    cases covered value openDelimiter (spansOf 0 bs) (value.length + 1) 0 <;>
      cases covered value closeDelimiter (spansOf 0 bs) (value.length + 1) 0 <;> simp
  rw [hscan]
  constructor
  · rintro ⟨ho, hc⟩
    exact clean_of_scanned h ho [] 0 (by simp) (by simp) (by simp) (.inl rfl) hc
  · intro hclean
    have hbound : ∀ c p, Twice c value p → p < value.length := fun c p hp => by
      have := hp.lt
      omega
    have hall := coveredAt_of_clean h 0 hclean List.drop_zero fun m hm => hm
    exact ⟨.of_forall (hbound _) (hall _ (.inl rfl)) (by omega), .of_forall (hbound _) (hall _ (.inr rfl)) (by omega)⟩

end TemplateParser

end WorkflowEngine
