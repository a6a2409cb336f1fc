import Mathlib.Data.List.Chain
import WorkflowEngine.Lib.Pointwise
import WorkflowEngine.TemplateDelimiters

/-!
# The grammar of template strings

`TemplateParser.parse` reads exactly the renderings of segment lists in normal form: the
reference pattern reads the spellings of valid references, and the blocks of a text are the
segments it was rendered from.
-/
namespace WorkflowEngine

namespace TemplateParser

variable {c : Char} {l value text rest tail : List Char} {matched : List (Nat × Nat)}
  {bs : List (List Char × List Char)} {cursor : Nat}

/-! ## Reference expressions -/

/-- The name with white space around it. -/
def Padded (name piece : List Char) : Prop :=
  ∃ before after, before.all isSpace = true ∧ after.all isSpace = true ∧ piece = before ++ (name ++ after)

/-- A node identifier and at least one part, each part an identifier or a digit string. -/
structure ValidReference (r : TemplateReference) : Prop where
  nodeId : isIdentifier r.nodeId = true
  path : r.path ≠ []
  parts : ∀ part ∈ r.path, isPathSegment part.toList = true

/-- The identifier and the parts with dots between them and any white space around each. -/
def Spells (r : TemplateReference) (e : List Char) : Prop :=
  ∃ pieces, List.Forall₂ (fun name piece => Padded name.toList piece) (r.nodeId :: r.path) pieces ∧
    e = List.intercalate ['.'] pieces

theorem splitDots_cons (ch : Char) (cs : List Char) :
    ∃ part parts, splitDots cs = part :: parts ∧
      splitDots (ch :: cs) = if ch = '.' then [] :: part :: parts else (ch :: part) :: parts := by
  have hne : ∀ cs, splitDots cs ≠ [] := by
    intro cs
    cases cs with
    | nil => simp [splitDots]
    | cons a cs =>
      rw [splitDots]
      split
      · simp
      · split <;> simp
  cases h : splitDots cs with
  | nil => exact absurd h (hne cs)
  | cons part parts => exact ⟨part, parts, rfl, by simp [splitDots, h]⟩

theorem intercalate_splitDots (e : List Char) : List.intercalate ['.'] (splitDots e) = e := by
  induction e with
  | nil => rfl
  | cons ch cs ih =>
    obtain ⟨part, parts, hcs, hcons⟩ := splitDots_cons ch cs
    rw [hcs] at ih
    rw [hcons]
    split
    · rename_i hdot
      rw [List.intercalate_cons_cons, ih, hdot]
      rfl
    · cases parts with
      | nil => simpa [List.intercalate_singleton] using ih
      | cons q qs =>
        rw [List.intercalate_cons_cons] at ih ⊢
        simp [← ih]

theorem splitDots_append {a : List Char} (h : '.' ∉ a) (cs : List Char) :
    splitDots (a ++ '.' :: cs) = a :: splitDots cs := by
  induction a with
  | nil =>
    obtain ⟨part, parts, hcs, hcons⟩ := splitDots_cons '.' cs
    rw [List.nil_append, hcons, hcs]
    simp
  | cons b a ih =>
    obtain ⟨part, parts, hcs, hcons⟩ := splitDots_cons b (a ++ '.' :: cs)
    have hb : b ≠ '.' := fun he => h (by simp [he])
    rw [List.cons_append, hcons, if_neg hb]
    rw [ih fun hmem => h (by simp [hmem])] at hcs
    cases hcs
    rfl

theorem splitDots_self {a : List Char} (h : '.' ∉ a) : splitDots a = [a] := by
  induction a with
  | nil => rfl
  | cons b a ih =>
    obtain ⟨part, parts, hcs, hcons⟩ := splitDots_cons b a
    have hb : b ≠ '.' := fun he => h (by simp [he])
    rw [hcons, if_neg hb]
    rw [ih fun hmem => h (by simp [hmem])] at hcs
    cases hcs
    rfl

theorem splitDots_intercalate (pieces : List (List Char)) (hne : pieces ≠ []) (h : ∀ a ∈ pieces, '.' ∉ a) :
    splitDots (List.intercalate ['.'] pieces) = pieces := by
  induction pieces with
  | nil => exact absurd rfl hne
  | cons a pieces ih =>
    cases pieces with
    | nil => simpa [List.intercalate_singleton] using splitDots_self (h a (by simp))
    | cons b pieces =>
      rw [List.intercalate_cons_cons, List.append_assoc, List.singleton_append, splitDots_append (h a (by simp)),
        ih (by simp) fun x hx => h x (by simp [hx])]

/-- The characters of identifiers and digit strings. -/
def isWordChar (ch : Char) : Bool := isAsciiLetter ch || isAsciiDigit ch || ch == '_' || ch == '-'

theorem isPathSegment_word {name : List Char} (h : isPathSegment name = true) :
    name ≠ [] ∧ ∀ ch ∈ name, isWordChar ch = true := by
  rw [isPathSegment, Bool.or_eq_true] at h
  rcases h with h | h
  · cases name with
    | nil => cases h
    | cons a name =>
      simp only [isIdentifierChars, Bool.and_eq_true, List.all_eq_true] at h
      refine ⟨by simp, fun ch hch => ?_⟩
      rcases List.mem_cons.1 hch with rfl | hch
      · simp [isWordChar, h.1]
      · exact h.2 ch hch
  · simp only [isDigits, Bool.and_eq_true, Bool.not_eq_true', List.isEmpty_eq_false_iff, List.all_eq_true] at h
    exact ⟨h.1, fun ch hch => by simp [isWordChar, h.2 ch hch]⟩

theorem isWordChar_plain {ch : Char} (h : isWordChar ch = true) :
    isSpace ch = false ∧ ch ≠ '.' ∧ ch ≠ '\x7d' := by
  have hne : ∀ d : Char, isWordChar d = false → ch ≠ d := by
    rintro d hd rfl
    rw [h] at hd
    cases hd
  refine ⟨?_, hne _ (by decide), hne _ (by decide)⟩
  simp only [isWordChar, isAsciiLetter, isAsciiDigit, Bool.or_eq_true, Bool.and_eq_true, decide_eq_true_eq,
    beq_iff_eq] at h
  have hrange : 45 ≤ ch.toNat ∧ ch.toNat ≤ 122 := by
    rcases h with ((h | h) | rfl) | rfl
    · omega
    · omega
    · decide
    · decide
  simp only [isSpace, Bool.or_eq_false_iff, Bool.and_eq_false_iff, decide_eq_false_iff_not, beq_eq_false_iff_ne]
  omega

theorem isSpace_plain {ch : Char} (h : isSpace ch = true) : ch ≠ '.' ∧ ch ≠ '\x7d' := by
  constructor
  · rintro rfl
    exact absurd h (by decide)
  · rintro rfl
    exact absurd h (by decide)

theorem padded_strip (piece : List Char) : Padded (strip piece) piece := by
  refine ⟨piece.takeWhile isSpace, ((piece.dropWhile isSpace).reverse.takeWhile isSpace).reverse, ?_, ?_, ?_⟩
  · exact List.all_takeWhile
  · rw [List.all_reverse]
    exact List.all_takeWhile
  · rw [strip, ← List.reverse_append, List.takeWhile_append_dropWhile, List.reverse_reverse,
      List.takeWhile_append_dropWhile]

theorem strip_padded {name piece : List Char} (hne : name ≠ []) (hword : ∀ ch ∈ name, isSpace ch = false)
    (h : Padded name piece) : strip piece = name := by
  obtain ⟨before, after, hbefore, hafter, rfl⟩ := h
  have hstop : ∀ l :
      List Char, ∀ m, l ≠ [] → (∀ ch ∈ l, isSpace ch = false) → (l ++ m).dropWhile isSpace = l ++ m := by
    intro l m hl hall
    cases l with
    | nil => exact absurd rfl hl
    | cons a l => simp [hall a (by simp)]
  rw [strip, List.dropWhile_append_of_pos (List.all_eq_true.1 hbefore), hstop name after hne hword,
    List.reverse_append, List.dropWhile_append_of_pos (by simpa using hafter)]
  have hrev := hstop name.reverse [] (by simpa using hne) (by simpa using hword)
  rw [List.append_nil] at hrev
  rw [hrev, List.reverse_reverse]

theorem Padded.mem {name piece : List Char} (h : Padded name piece) {ch : Char} (hch : ch ∈ piece) :
    isSpace ch = true ∨ ch ∈ name := by
  obtain ⟨before, after, hbefore, hafter, rfl⟩ := h
  rcases List.mem_append.1 hch with hch | hch
  · exact .inl (List.all_eq_true.1 hbefore ch hch)
  · rcases List.mem_append.1 hch with hch | hch
    · exact .inr hch
    · exact .inl (List.all_eq_true.1 hafter ch hch)

theorem ValidReference.word {r : TemplateReference} (h : ValidReference r) : ∀ name ∈ r.nodeId :: r.path,
    name.toList ≠ [] ∧ ∀ ch ∈ name.toList, isWordChar ch = true := by
  intro name hname
  rcases List.mem_cons.1 hname with rfl | hname
  · exact isPathSegment_word (by rw [isPathSegment, Bool.or_eq_true]; exact .inl h.nodeId)
  · exact isPathSegment_word (h.parts name hname)

/-- The pieces of a spelled reference hold neither dots nor closing braces. -/
theorem Spells.plain {r : TemplateReference} (hr : ValidReference r) {pieces : List (List Char)}
    (h : List.Forall₂ (fun name piece => Padded name.toList piece) (r.nodeId :: r.path) pieces) :
    ∀ piece ∈ pieces, ∀ ch ∈ piece, ch ≠ '.' ∧ ch ≠ '\x7d' := by
  have hall : ∀ names : List String, (∀ name ∈ names, ∀ ch ∈ name.toList, isWordChar ch = true) → ∀ pieces,
      List.Forall₂ (fun name piece => Padded name.toList piece) names pieces →
      ∀ piece ∈ pieces, ∀ ch ∈ piece, ch ≠ '.' ∧ ch ≠ '\x7d' := by
    intro names hnames pieces hforall
    induction hforall with
    | nil => simp
    | @cons name piece names pieces hpad _ ih =>
      intro q hq ch hch
      rcases List.mem_cons.1 hq with rfl | hq
      · rcases hpad.mem hch with hspace | hmem
        · exact isSpace_plain hspace
        · exact (isWordChar_plain (hnames name (by simp) ch hmem)).2
      · exact ih (fun n hn => hnames n (by simp [hn])) q hq ch hch
  exact hall _ (fun name hname => (hr.word name hname).2) pieces h

theorem Spells.brace {r : TemplateReference} {e : List Char} (h : Spells r e) (hr : ValidReference r) :
    '\x7d' ∉ e := by
  obtain ⟨pieces, hforall, rfl⟩ := h
  have hplain := Spells.plain hr hforall
  clear hforall
  induction pieces with
  | nil => simp [List.intercalate]
  | cons a pieces ih =>
    have hrest := ih fun piece hp => hplain piece (by simp [hp])
    have ha : '\x7d' ∉ a := fun hmem => (hplain a (by simp) _ hmem).2 rfl
    cases pieces with
    | nil => simpa [List.intercalate_singleton] using ha
    | cons b pieces =>
      rw [List.intercalate_cons_cons]
      simp [ha, hrest]

theorem map_strip {names : List String} {pieces : List (List Char)}
    (h : List.Forall₂ (fun name piece => Padded name.toList piece) names pieces)
    (hnames : ∀ name ∈ names, name.toList ≠ [] ∧ ∀ ch ∈ name.toList, isWordChar ch = true) :
    pieces.map strip = names.map String.toList := by
  induction h with
  | nil => rfl
  | @cons name piece names pieces hpad _ ih =>
    obtain ⟨hne, hword⟩ := hnames name (by simp)
    rw [List.map_cons, List.map_cons, strip_padded hne (fun ch hch => (isWordChar_plain (hword ch hch)).1) hpad,
      ih fun n hn => hnames n (by simp [hn])]

/-- The pattern of an expression reads exactly the spellings of valid references. -/
theorem referenceExpression_iff {e : List Char} {r : TemplateReference} :
    referenceExpression e = some r ↔ ValidReference r ∧ Spells r e := by
  constructor
  · intro h
    rw [referenceExpression] at h
    split at h
    · rename_i nodeId part parts hmap
      split at h
      · rename_i hvalid
        cases h
        rw [Bool.and_eq_true] at hvalid
        refine ⟨⟨by simpa [isIdentifier] using hvalid.1, by simp, ?_⟩, splitDots e, ?_, (intercalate_splitDots e).symm⟩
        · intro q hq
          obtain ⟨p, hp, rfl⟩ := List.mem_map.1 hq
          simpa using List.all_eq_true.1 hvalid.2 p hp
        · have hnames :
              String.ofList nodeId :: (part :: parts).map String.ofList =
              (splitDots e).map (String.ofList ∘ strip) := by
            rw [← List.map_map, hmap]
            rfl
          show List.Forall₂ _ (String.ofList nodeId :: (part :: parts).map String.ofList) _
          rw [hnames, List.forall₂_map_left_iff, List.forall₂_same]
          intro piece _
          simpa using padded_strip piece
      · cases h
    · cases h
  · rintro ⟨hr, hspells⟩
    obtain ⟨pieces, hforall, rfl⟩ := hspells
    have hplain := Spells.plain hr hforall
    have hne : pieces ≠ [] := by
      rintro rfl
      cases hforall
    have hstrip := map_strip hforall hr.word
    rw [referenceExpression, splitDots_intercalate pieces hne fun a ha hmem => (hplain a ha _ hmem).1 rfl, hstrip]
    obtain ⟨nodeId, path⟩ := r
    cases path with
    | nil => exact absurd rfl hr.path
    | cons part parts =>
      have hid : isIdentifierChars nodeId.toList = true := hr.nodeId
      have hparts : ((part :: parts).map String.toList).all isPathSegment = true := by
        rw [List.all_map, List.all_eq_true]
        exact hr.parts
      rw [List.map_cons] at hparts
      simp only [List.map_cons, hid, hparts, Bool.and_self, if_true, String.ofList_toList, List.map_map,
        Option.some.injEq, TemplateReference.mk.injEq, List.cons.injEq, true_and]
      simp [Function.comp_def]

/-! ## Segments -/

/-- What may follow a segment: no literal follows a literal, and none that ends with an opening brace
stands before a reference. -/
def Follows : TemplateSegment → TemplateSegment → Prop
  | .literal _, .literal _ => False
  | .literal s, .reference _ => s.toList.getLast? ≠ some '\x7b'
  | .reference _, _ => True

/-- Segments in normal form. -/
structure Normal (segments : List TemplateSegment) : Prop where
  literals : ∀ s, .literal s ∈ segments → s ≠ "" ∧ Free '\x7b' s.toList ∧ Free '\x7d' s.toList
  references : ∀ r, .reference r ∈ segments → ValidReference r
  adjacent : segments.IsChain Follows

/-- The text of the segments, with any spelling of the references. -/
inductive Renders : List TemplateSegment → List Char → Prop where
  | nil : Renders [] []
  | literal {s : String} {segments : List TemplateSegment} {text : List Char} (rest : Renders segments text) :
      Renders (.literal s :: segments) (s.toList ++ text)
  | reference {r : TemplateReference} {e : List Char} {segments : List TemplateSegment} {text : List Char}
      (spelled : Spells r e)
      (rest : Renders segments text) :
      Renders (.reference r :: segments) (openDelimiter ++ (e ++ (closeDelimiter ++ text)))

/-- What `parse` returns for the segments of a text. -/
def outcome (text : String) : List TemplateSegment → ParsedTemplate
  | [.reference r] => .reference r
  | segments =>
    if segments.any (fun s => match s with | .reference _ => true | .literal _ => false) then
      .segments segments else .text text

def literalOf (l : List Char) : List TemplateSegment := if l = [] then [] else [.literal (String.ofList l)]

/-- The segments of blocks whose expressions have been read. -/
def segmentsOf : List (List Char × TemplateReference) → List Char → List TemplateSegment
  | [], tail => literalOf tail
  | (lit, r) :: rs, tail => literalOf lit ++ .reference r :: segmentsOf rs tail

/-- The text before a template with the reference in it. -/
def readBlock (b : List Char × List Char) : Option (List Char × TemplateReference) :=
  (referenceExpression b.2).map fun r => (b.1, r)

theorem parseReference_eq (e : List Char) : parseReference (openDelimiter ++ (e ++ closeDelimiter)) =
    match referenceExpression e with
    | some r => .ok r
    | none => .error (malformed (openDelimiter ++ (e ++ closeDelimiter))) := by
  have hslice :
      ((openDelimiter ++ (e ++ closeDelimiter)).drop 2).take
      ((openDelimiter ++ (e ++ closeDelimiter)).length - 4) = e := by
    simp [openDelimiter, closeDelimiter]
  cases hr : referenceExpression e with
  | some r => simp only [parseReference, hslice, hr]
  | none => simp only [parseReference, hslice, hr]

theorem slice_eq (before mid after : List Char) (hdrop : value.drop cursor = before ++ (mid ++ after)) :
    slice value (cursor + before.length) (cursor + (before.length + mid.length)) = mid := by
  rw [slice, ← List.drop_drop, hdrop, List.drop_left]
  rw [show cursor + (before.length + mid.length) - (cursor + before.length) = mid.length by omega]
  simp

theorem segmentsFrom_eq (h : Blocks text bs tail) : ∀ cursor, value.drop cursor = text →
    (∀ rs, bs.mapM readBlock = some rs → segmentsFrom value cursor (spansOf cursor bs) = .ok (segmentsOf rs tail)) ∧
    (bs.mapM readBlock = none → ∃ m, segmentsFrom value cursor (spansOf cursor bs) =
      .error (.templateResolution m)) := by
  induction h with
  | @done text hnone =>
    intro cursor hdrop
    refine ⟨fun rs hrs => ?_, by simp⟩
    obtain rfl : [] = rs := by simpa using hrs
    have hlen : cursor < value.length ↔ text ≠ [] := by
      rw [← hdrop, Ne, List.drop_eq_nil_iff, not_le]
    rw [spansOf, segmentsFrom, hdrop, segmentsOf, literalOf]
    by_cases ht : text = []
    · simp [hlen, ht]
    · simp [hlen, ht]
  | @block text lit e rest bs tail cut more ih =>
    intro cursor hdrop
    obtain ⟨hok, herr⟩ := ih (cursor + (lit.length + 2 + e.length + 2)) (by rw [← List.drop_drop, hdrop, cut.drop_eq])
    have hlit : slice value cursor (cursor + lit.length) = lit := by
      have hmid := slice_eq [] lit _ (hdrop.trans cut.eq)
      simpa using hmid
    have htemplate : slice value (cursor + lit.length) (cursor + (lit.length + 2 + e.length + 2)) =
        openDelimiter ++ (e ++ closeDelimiter) := by
      have hmid := slice_eq lit (openDelimiter ++ (e ++ closeDelimiter)) rest (hdrop.trans (by rw [cut.eq]; simp))
      have hlen : lit.length + 2 + e.length + 2 = lit.length + (openDelimiter ++ (e ++ closeDelimiter)).length := by
        simp [openDelimiter, closeDelimiter]
        omega
      rw [hlen, hmid]
    have hbefore : cursor < cursor + lit.length ↔ lit ≠ [] := by
      rw [← List.length_pos_iff]
      omega
    rw [spansOf, segmentsFrom, htemplate, parseReference_eq, List.mapM_cons]
    cases hr : referenceExpression e with
    | none => simp [readBlock, hr, bind, Except.bind, malformed]
    | some r =>
      cases hrs : bs.mapM readBlock with
      | none =>
        obtain ⟨m, hm⟩ := herr hrs
        simp [readBlock, hr, hm, bind, Except.bind]
      | some rs =>
        refine ⟨fun rs' hrs' => ?_, by simp [readBlock, hr]⟩
        obtain rfl : (lit, r) :: rs = rs' := by simpa [readBlock, hr] using hrs'
        simp only [hok rs hrs, bind, Except.bind, hlit, segmentsOf, literalOf, pure, Except.pure]
        by_cases hl : lit = []
        · simp [hl]
        · simp [hbefore.2 hl, hl]

theorem mem_literalOf {x : TemplateSegment} : x ∈ literalOf l ↔ l ≠ [] ∧ x = .literal (String.ofList l) := by
  rw [literalOf]
  split
  · simp_all
  · simp_all

theorem literalOf_eq (h : l ≠ []) : literalOf l = [.literal (String.ofList l)] := if_neg h

theorem Cut.literal {lit e : List Char} (h : Cut text lit e rest) : Free '\x7b' lit ∧ lit.getLast? ≠ some '\x7b' := by
  constructor
  · intro i htwice
    have hlt := htwice.lt
    refine h.opens i (by omega) ?_
    rwa [h.eq, twice_append_left hlt]
  · intro hlast
    have hne : lit ≠ [] := by
      rintro rfl
      cases hlast
    have hpos := List.length_pos_iff.2 hne
    refine h.opens (lit.length - 1) (by omega) ⟨?_, ?_⟩
    · rw [h.eq, List.getElem?_append_left (by omega), ← List.getLast?_eq_getElem?, hlast]
    · rw [Nat.sub_add_cancel hpos]
      exact h.opened.1

theorem Cut.of_literal {lit e : List Char} (hfree : Free '\x7b' lit) (hlast : lit.getLast? ≠ some '\x7b')
    (he : '\x7d' ∉ e) :
    Cut (lit ++ (openDelimiter ++ (e ++ (closeDelimiter ++ rest)))) lit e rest := by
  refine ⟨rfl, fun j hj htwice => ?_, fun j hle hlt htwice => ?_⟩
  · by_cases hin : j + 1 < lit.length
    · exact hfree j ((twice_append_left hin).1 htwice)
    · have hchar := htwice.1
      rw [List.getElem?_append_left hj, show j = lit.length - 1 by omega, ← List.getLast?_eq_getElem?] at hchar
      exact hlast hchar
  · have hchar := htwice.1
    have hopen : openDelimiter.length = 2 := rfl
    rw [List.getElem?_append_right (by omega), List.getElem?_append_right (by omega),
      List.getElem?_append_left (by omega)] at hchar
    exact he (List.mem_of_getElem? hchar)

/-- What was read from clean blocks is in normal form and renders to the text. -/
theorem normal_of_clean (h : Blocks text bs tail) : ∀ rs, bs.mapM readBlock = some rs → Clean bs tail →
    Normal (segmentsOf rs tail) ∧ Renders (segmentsOf rs tail) text := by
  induction h with
  | @done text hnone =>
    intro rs hrs hclean
    obtain rfl : [] = rs := by simpa using hrs
    rw [segmentsOf]
    by_cases ht : text = []
    · subst ht
      exact ⟨⟨by simp [literalOf], by simp [literalOf], by simp [literalOf]⟩, .nil⟩
    · rw [literalOf_eq ht]
      refine ⟨⟨fun s hs => ?_, by simp, by simp⟩, ?_⟩
      · obtain rfl : s = String.ofList text := by simpa using hs
        simp only [String.toList_ofList]
        exact ⟨by simpa [String.ofList_eq_empty_iff] using ht, hclean.opens, hclean.closes⟩
      · simpa using Renders.literal (s := String.ofList text) .nil
  | @block text lit e rest bs tail cut more ih =>
    intro rs hrs hclean
    cases hr : referenceExpression e with
    | none => simp [readBlock, hr] at hrs
    | some r =>
      cases hbs : bs.mapM readBlock with
      | none => simp [readBlock, hr, hbs] at hrs
      | some rs' =>
        obtain rfl : (lit, r) :: rs' = rs := by simpa [readBlock, hr, hbs] using hrs
        obtain ⟨hvalid, hspells⟩ := referenceExpression_iff.1 hr
        obtain ⟨hnormal, hrenders⟩ :=
          ih rs' hbs ⟨fun b hb => hclean.blocks b (by simp [hb]), hclean.opens, hclean.closes⟩
        have hchain : (.reference r :: segmentsOf rs' tail).IsChain Follows :=
          List.isChain_cons.2 ⟨fun _ _ => trivial, hnormal.adjacent⟩
        rw [segmentsOf, cut.eq]
        refine ⟨⟨fun s hs => ?_, fun r' hr' => ?_, ?_⟩, ?_⟩
        · rcases List.mem_append.1 hs with hs | hs
          · obtain ⟨hne, hlit⟩ := mem_literalOf.1 hs
            cases hlit
            simp only [String.toList_ofList]
            exact ⟨by simpa [String.ofList_eq_empty_iff] using hne, cut.literal.1, hclean.blocks (lit, e) (by simp)⟩
          · exact hnormal.literals s (by simpa using hs)
        · rcases List.mem_append.1 hr' with hr' | hr'
          · cases (mem_literalOf.1 hr').2
          · rcases List.mem_cons.1 hr' with he | hr'
            · cases he
              exact hvalid
            · exact hnormal.references r' hr'
        · by_cases hl : lit = []
          · simpa [literalOf, hl] using hchain
          · rw [literalOf_eq hl]
            refine List.isChain_cons_cons.2 ⟨?_, hchain⟩
            simpa [Follows] using cut.literal.2
        · by_cases hl : lit = []
          · subst hl
            exact .reference hspells hrenders
          · rw [literalOf_eq hl]
            have hlit := Renders.literal (s := String.ofList lit) (Renders.reference hspells hrenders)
            simpa using hlit

/-- A rendering of segments in normal form is cut back into them. -/
theorem blocks_of_normal (segments : List TemplateSegment) : ∀ text, Normal segments → Renders segments text →
    ∃ bs rs tail, Blocks text bs tail ∧ Clean bs tail ∧ bs.mapM readBlock = some rs ∧
      segments = segmentsOf rs tail := by
  induction hn : segments.length using Nat.strong_induction_on generalizing segments with
  | _ n ih =>
    intro text hnormal hrenders
    have hcut : ∀ {lit e rest : List Char} {r : TemplateReference} {segs : List TemplateSegment},
        Free '\x7b' lit → Free '\x7d' lit → lit.getLast? ≠ some '\x7b' → ValidReference r → Spells r e →
        segs.length < n →
        Normal segs → Renders segs rest → ∃ bs rs tail,
          Blocks (lit ++ (openDelimiter ++ (e ++ (closeDelimiter ++ rest)))) bs tail ∧ Clean bs tail ∧
            bs.mapM readBlock = some rs ∧ literalOf lit ++ .reference r :: segs = segmentsOf rs tail := by
      intro lit e rest r segs hopen hclose hlast hvalid hspells hlt hsegs hrest
      obtain ⟨bs, rs, tail, hblocks, hclean, hread, rfl⟩ := ih segs.length hlt segs rfl rest hsegs hrest
      refine ⟨(lit, e) :: bs, (lit, r) :: rs, tail, .block (.of_literal hopen hlast (hspells.brace hvalid)) hblocks,
        ⟨?_, hclean.opens, hclean.closes⟩, ?_, rfl⟩
      · intro b hb
        rcases List.mem_cons.1 hb with rfl | hb
        · exact hclose
        · exact hclean.blocks b hb
      · simp [readBlock, referenceExpression_iff.2 ⟨hvalid, hspells⟩, hread]
    cases hrenders with
    | nil =>
      have hempty : ∀ c i, ¬ Twice c [] i := fun c i h => absurd h.lt (by simp)
      exact ⟨[], [], [], .done fun i hi => absurd hi (hempty _ i), ⟨by simp, hempty _, hempty _⟩, rfl, rfl⟩
    | @reference r e segs rest hspells hrest =>
      have hempty : ∀ c, Free c [] := fun c i h => absurd h.lt (by simp)
      have hsegs : Normal segs :=
        ⟨fun s hs => hnormal.literals s (by simp [hs]), fun r hr => hnormal.references r (by simp [hr]),
          hnormal.adjacent.tail⟩
      have := hcut (hempty _) (hempty _) (by simp) (hnormal.references r (by simp)) hspells
          (by simp only [List.length_cons] at hn; omega) hsegs hrest
      simpa [literalOf] using this
    | @literal s segs rest hrest =>
      obtain ⟨hne, hopen, hclose⟩ := hnormal.literals s (by simp)
      cases hrest with
      | nil =>
        have hnil : s.toList ≠ [] := by simpa using hne
        refine ⟨[], [], s.toList, ?_, ⟨by simp, hopen, hclose⟩, rfl, ?_⟩
        · rw [List.append_nil]
          exact .done fun i hi => absurd hi (hopen i)
        · rw [segmentsOf, literalOf_eq hnil, String.ofList_toList]
      | literal _ => exact absurd (List.isChain_cons_cons.1 hnormal.adjacent).1 (by simp [Follows])
      | @reference r e segs rest hspells hrest =>
        have hnil : s.toList ≠ [] := by simpa using hne
        obtain ⟨hlast, hchain⟩ := List.isChain_cons_cons.1 hnormal.adjacent
        have hsegs : Normal segs :=
          ⟨fun s hs => hnormal.literals s (by simp [hs]), fun r hr => hnormal.references r (by simp [hr]), hchain.tail⟩
        have := hcut hopen hclose hlast (hnormal.references r (by simp)) hspells
            (by simp only [List.length_cons] at hn; omega) hsegs hrest
        rwa [literalOf_eq hnil, String.ofList_toList] at this

/-! ## Parsing -/

theorem find_isNone : (find value [c, c] 0).isNone = true ↔ Free c value := by
  rw [Option.isNone_iff_eq_none]
  constructor
  · exact fun h i => find_none h i (Nat.zero_le _)
  · intro h
    cases hf : find value [c, c] 0 with
    | none => rfl
    | some p => exact absurd (find_some hf).2.1 (h p)

theorem parse_text {text : String} (hopen : Free '\x7b' text.toList) (hclose : Free '\x7d' text.toList) :
    parse text = .ok (.text text) := by
  have ho : (find text.toList openDelimiter 0).isNone = true := find_isNone.2 hopen
  have hc : (find text.toList closeDelimiter 0).isNone = true := find_isNone.2 hclose
  simp [parse, ho, hc]

theorem parse_scan {text : String} (h : Blocks text.toList bs tail)
    (hocc : ¬ (Free '\x7b' text.toList ∧ Free '\x7d' text.toList)) :
    parse text = (validateDelimiters text.toList (spansOf 0 bs)).bind fun _ =>
      if spansOf 0 bs = [(0, text.toList.length)] then (parseReference text.toList).map .reference
      else (segmentsFrom text.toList 0 (spansOf 0 bs)).map .segments := by
  have hsome : ((find text.toList openDelimiter 0).isNone && (find text.toList closeDelimiter 0).isNone) = false := by
    rw [Bool.eq_false_iff, Ne, Bool.and_eq_true]
    exact fun hnone => hocc ⟨find_isNone.1 hnone.1, find_isNone.1 hnone.2⟩
  have hspans := spans_eq h 0 (text.toList.length + 1) List.drop_zero (by omega)
  simp only [parse, hsome, Bool.false_eq_true, if_false, hspans]
  cases validateDelimiters text.toList (spansOf 0 bs) with
  | error e => rfl
  | ok u =>
    simp only [bind, Except.bind]
    split
    · cases parseReference text.toList <;> rfl
    · cases segmentsFrom text.toList 0 (spansOf 0 bs) <;> rfl

theorem validateDelimiters_error {e : PyError} (h : validateDelimiters value matched = .error e) :
    ∃ m, e = .templateResolution m := by
  rw [validateDelimiters] at h
  split at h
  · cases h
    exact ⟨_, rfl⟩
  · split at h <;> cases h
    exact ⟨_, rfl⟩

/-- One span covers the whole text exactly when the text is one template. -/
theorem spansOf_whole (h : Blocks value bs tail) :
    spansOf 0 bs = [(0, value.length)] ↔ ∃ e, bs = [([], e)] ∧ tail = [] := by
  constructor
  · intro hspans
    cases h with
    | done _ => cases hspans
    | @block _ lit e rest bs _ cut more =>
      have hlen := cut.length_eq
      simp only [spansOf, List.cons.injEq, Prod.mk.injEq, Nat.zero_add] at hspans
      obtain ⟨⟨hlit, htotal⟩, hrest⟩ := hspans
      obtain rfl := List.length_eq_zero_iff.1 hlit
      obtain rfl : rest = [] := List.length_eq_zero_iff.1 (by omega)
      cases bs with
      | nil =>
        cases more
        exact ⟨e, rfl, rfl⟩
      | cons b bs =>
        obtain ⟨lit', e'⟩ := b
        cases hrest
  · rintro ⟨e, rfl, rfl⟩
    cases h with
    | block cut more =>
      cases more
      have hlen := cut.length_eq
      simp only [List.length_nil] at hlen
      simp [spansOf, hlen]

theorem segmentsOf_single {rs : List (List Char × TemplateReference)} {r : TemplateReference} :
    segmentsOf rs tail = [.reference r] ↔ rs = [([], r)] ∧ tail = [] := by
  constructor
  · intro h
    cases rs with
    | nil =>
      have hmem : TemplateSegment.reference r ∈ literalOf tail := by
        rw [segmentsOf] at h
        simp [h]
      cases (mem_literalOf.1 hmem).2
    | cons x rs =>
      obtain ⟨lit, r'⟩ := x
      rw [segmentsOf] at h
      by_cases hlit : lit = []
      · simp only [hlit, literalOf, if_true, List.nil_append, List.cons.injEq, TemplateSegment.reference.injEq] at h
        obtain ⟨rfl, hrest⟩ := h
        cases rs with
        | nil =>
          rw [segmentsOf, literalOf] at hrest
          split at hrest
          · exact ⟨by rw [hlit], ‹_›⟩
          · cases hrest
        | cons y rs => simp [segmentsOf] at hrest
      · simp [literalOf_eq hlit] at h
  · rintro ⟨rfl, rfl⟩
    rfl

theorem outcome_text {text : String} {segments : List TemplateSegment} (h : ∀ r, .reference r ∉ segments) :
    outcome text segments = .text text := by
  unfold outcome
  split
  · exact absurd List.mem_cons_self (h _)
  · rw [if_neg]
    rw [List.any_eq_true]
    rintro ⟨s, hs, hr⟩
    cases s with
    | literal t => cases hr
    | reference r => exact h r hs

theorem outcome_segments {text : String} {segments : List TemplateSegment} {r : TemplateReference}
    (hr : .reference r ∈ segments) (hne : ∀ r, segments ≠ [.reference r]) :
    outcome text segments = .segments segments := by
  unfold outcome
  split
  · exact absurd rfl (hne _)
  · rw [if_pos]
    exact List.any_eq_true.2 ⟨_, hr, rfl⟩

theorem parse_of_clean {text : String} (h : Blocks text.toList bs tail) (hclean : Clean bs tail)
    {rs : List (List Char × TemplateReference)} (hread : bs.mapM readBlock = some rs) :
    parse text = .ok (outcome text (segmentsOf rs tail)) := by
  cases hb : bs with
  | nil =>
    subst hb
    obtain rfl : [] = rs := by simpa using hread
    cases h
    have hno : ∀ r, TemplateSegment.reference r ∉ segmentsOf [] text.toList := fun r hr => by
      cases (mem_literalOf.1 hr).2
    rw [outcome_text hno, parse_text hclean.opens hclean.closes]
  | cons b bs' =>
    have hocc : ¬ (Free '\x7b' text.toList ∧ Free '\x7d' text.toList) := by
      rintro ⟨hfree, -⟩
      subst hb
      cases h with
      | block cut more => exact hfree _ cut.opened
    rw [parse_scan h hocc, (validateDelimiters_iff h).2 hclean]
    simp only [Except.bind]
    split
    · rename_i hwhole
      obtain ⟨e, rfl, rfl⟩ := (spansOf_whole h).1 hwhole
      cases h with
      | block cut more =>
        cases more
        have htext : text.toList = openDelimiter ++ (e ++ closeDelimiter) := by simpa using cut.eq
        rw [htext, parseReference_eq]
        cases hr : referenceExpression e with
        | none => simp [readBlock, hr] at hread
        | some r =>
          obtain rfl : [([], r)] = rs := by simpa [readBlock, hr] using hread
          rfl
    · rename_i hnot
      rw [(segmentsFrom_eq h 0 List.drop_zero).1 rs hread]
      have hforall := Pointwise.mapM_eq_some.1 hread
      rw [hb] at hforall
      cases hforall with
      | @cons _ x _ rs' hx hrest =>
        rw [outcome_segments (r := x.2)]
        · rfl
        · simp [segmentsOf]
        · intro r hsingle
          obtain ⟨hrs, htail⟩ := segmentsOf_single.1 hsingle
          cases hrs
          cases hrest
          refine hnot ((spansOf_whole h).2 ⟨b.2, ?_, htail⟩)
          obtain ⟨r', hr', hpair⟩ := Option.map_eq_some_iff.1 hx
          rw [hb, show b = ([], b.2) from Prod.ext (Prod.mk.inj hpair).1 rfl]

theorem parse_error {text : String} (h : Blocks text.toList bs tail)
    (hnot : ∀ rs, bs.mapM readBlock = some rs → ¬ Clean bs tail) :
    ∃ m, parse text = .error (.templateResolution m) := by
  have hocc : ¬ (Free '\x7b' text.toList ∧ Free '\x7d' text.toList) := by
    rintro ⟨hopen, hclose⟩
    cases h with
    | done _ => exact hnot [] rfl ⟨by simp, hopen, hclose⟩
    | block cut more => exact hopen _ cut.opened
  rw [parse_scan h hocc]
  cases hv : validateDelimiters text.toList (spansOf 0 bs) with
  | error e =>
    obtain ⟨m, rfl⟩ := validateDelimiters_error hv
    exact ⟨m, rfl⟩
  | ok u =>
    have hclean := (validateDelimiters_iff h).1 hv
    have hread : bs.mapM readBlock = none := by
      cases hr : bs.mapM readBlock with
      | none => rfl
      | some rs => exact absurd hclean (hnot rs hr)
    simp only [Except.bind]
    split
    · rename_i hwhole
      obtain ⟨e, rfl, rfl⟩ := (spansOf_whole h).1 hwhole
      cases h with
      | block cut more =>
        cases more
        have htext : text.toList = openDelimiter ++ (e ++ closeDelimiter) := by simpa using cut.eq
        rw [htext, parseReference_eq]
        cases hr : referenceExpression e with
        | none => exact ⟨_, rfl⟩
        | some r => simp [readBlock, hr] at hread
    · obtain ⟨m, hm⟩ := (segmentsFrom_eq h 0 List.drop_zero).2 hread
      exact ⟨m, by rw [hm]; rfl⟩

/-- The text is read as the segments it renders, or it is rejected. -/
theorem parse_cases (text : String) :
    (∃ segments, Normal segments ∧ Renders segments text.toList ∧ parse text = .ok (outcome text segments)) ∨
      ∃ m, parse text = .error (.templateResolution m) := by
  obtain ⟨bs, tail, hblocks⟩ := exists_blocks text.toList
  by_cases h : ∃ rs, bs.mapM readBlock = some rs ∧ Clean bs tail
  · obtain ⟨rs, hread, hclean⟩ := h
    obtain ⟨hnormal, hrenders⟩ := normal_of_clean hblocks rs hread hclean
    exact .inl ⟨_, hnormal, hrenders, parse_of_clean hblocks hclean hread⟩
  · exact .inr (parse_error hblocks fun rs hread hclean => h ⟨rs, hread, hclean⟩)

/-- A rendering of segments in normal form is read as these segments. -/
theorem parse_rendered {segments : List TemplateSegment} {text : String} (hnormal : Normal segments)
    (hrenders : Renders segments text.toList) : parse text = .ok (outcome text segments) := by
  obtain ⟨bs, rs, tail, hblocks, hclean, hread, rfl⟩ := blocks_of_normal segments text.toList hnormal hrenders
  exact parse_of_clean hblocks hclean hread

/-- Parsing is exact. What it returns is a list of segments in normal form whose rendering is the text
(soundness); every rendering of segments in normal form is parsed back into them (completeness); every
other text is rejected with the template error. -/
theorem parse_exact :
    (∀ text result, parse text = .ok result →
      ∃ segments, Normal segments ∧ Renders segments text.toList ∧ result = outcome text segments) ∧
    (∀ segments text, Normal segments → Renders segments text.toList → parse text = .ok (outcome text segments)) ∧
    ∀ text, (∀ segments, Normal segments → ¬ Renders segments text.toList) →
      ∃ m, parse text = .error (.templateResolution m) := by
  refine ⟨fun text result hresult => ?_, fun segments text hnormal hrenders => parse_rendered hnormal hrenders,
    fun text hnone => ?_⟩
  · rcases parse_cases text with ⟨segments, hnormal, hrenders, hparse⟩ | ⟨m, hm⟩
    · exact ⟨segments, hnormal, hrenders, Except.ok.inj (hresult.symm.trans hparse)⟩
    · cases hm.symm.trans hresult
  · rcases parse_cases text with ⟨segments, hnormal, hrenders, -⟩ | hm
    · exact absurd hrenders (hnone segments hnormal)
    · exact hm

end TemplateParser

end WorkflowEngine
