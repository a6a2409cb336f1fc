import Mathlib.Data.List.Forall2
import WorkflowEngine.TemplateGrammar

/-!
# Input resolution as substitution

Resolving a configuration makes one check after another, in the order of the traversal: a
string leaf has to parse, and each of its references has to be found, with a scalar if it is
embedded in text. The result is the configuration with the references replaced, and the first
check that fails decides the exception.
-/
namespace WorkflowEngine

namespace NodeInputResolver

open TemplateParser (isDigits parse)

/-! ## Looking up a reference -/

/-- The value at a path: members of objects by key, items of lists by decimal index. -/
inductive At : Json → List String → Json → Prop where
  | here {v : Json} : At v [] v
  | member {members : Dict Json} {key : String} {v u : Json} {rest : List String}
      (get : Dict.get? members key = some v)
      (more : At v rest u) : At (.obj members) (key :: rest) u
  | index {items : List Json} {key : String} {v u : Json} {rest : List String} (digits : isDigits key.toList = true)
      (get : items[decimalValue key]? = some v) (more : At v rest u) : At (.arr items) (key :: rest) u

/-- The walk along the path meets a list at a part with more digits than `int` converts. -/
inductive Overlong : Json → List String → Prop where
  | here {items : List Json} {key : String} {rest : List String} (digits : isDigits key.toList = true)
      (long : maxStrDigits < key.toList.length) : Overlong (.arr items) (key :: rest)
  | member {members : Dict Json} {key : String} {v : Json} {rest : List String} (get : Dict.get? members key = some v)
      (more : Overlong v rest) : Overlong (.obj members) (key :: rest)
  | index {items : List Json} {key : String} {v : Json} {rest : List String} (digits : isDigits key.toList = true)
      (get : items[decimalValue key]? = some v) (more : Overlong v rest) : Overlong (.arr items) (key :: rest)

theorem At.unique {v u u' : Json} {path : List String} (h : At v path u) (h' : At v path u') : u = u' := by
  induction h with
  | here =>
    cases h'
    rfl
  | member get _ ih =>
    cases h' with
    | member get' more' =>
      cases get.symm.trans get'
      exact ih more'
  | index _ get _ ih =>
    cases h' with
    | index _ get' more' =>
      cases get.symm.trans get'
      exact ih more'

/-- What one lookup can do: find the value, meet an overlong index, or miss the path. -/
inductive Walks (v : Json) (path : List String) : Except PyError Json → Prop where
  | found {u : Json} (at_ : At v path u) (short : ¬ Overlong v path) : Walks v path (.ok u)
  | overlong {m : String} (long : Overlong v path) : Walks v path (.error (.valueError m))
  | missing {m : String} (none : ∀ u, ¬ At v path u) (short : ¬ Overlong v path) :
      Walks v path (.error (.templateResolution m))

theorem Walks.member {members : Dict Json} {key : String} {v : Json} {rest : List String} {x : Except PyError Json}
    (hget : Dict.get? members key = some v) (h : Walks v rest x) : Walks (.obj members) (key :: rest) x := by
  have hlong : Overlong (.obj members) (key :: rest) → Overlong v rest := by
    intro hl
    cases hl with
    | member get more =>
      cases hget.symm.trans get
      exact more
  cases h with
  | found hat hshort => exact .found (.member hget hat) (mt hlong hshort)
  | overlong hl => exact .overlong (.member hget hl)
  | missing hnone hshort =>
    refine .missing (fun u hat => ?_) (mt hlong hshort)
    cases hat with
    | member get more =>
      cases hget.symm.trans get
      exact hnone u more

theorem Walks.index {items : List Json} {key : String} {v : Json} {rest : List String} {x : Except PyError Json}
    (hdigits : isDigits key.toList = true) (hlen : ¬ maxStrDigits < key.toList.length)
    (hget : items[decimalValue key]? = some v) (h : Walks v rest x) : Walks (.arr items) (key :: rest) x := by
  have hlong : Overlong (.arr items) (key :: rest) → Overlong v rest := by
    intro hl
    cases hl with
    | here _ long => exact absurd long hlen
    | index _ get more =>
      cases hget.symm.trans get
      exact more
  cases h with
  | found hat hshort => exact .found (.index hdigits hget hat) (mt hlong hshort)
  | overlong hl => exact .overlong (.index hdigits hget hl)
  | missing hnone hshort =>
    refine .missing (fun u hat => ?_) (mt hlong hshort)
    cases hat with
    | index _ get more =>
      cases hget.symm.trans get
      exact hnone u more

theorem walk_spec (r : TemplateReference) (path : List String) : ∀ v, Walks v path (walk r v path) := by
  induction path with
  | nil =>
    intro v
    have hshort : ¬ Overlong v [] := fun h => by cases h
    cases v <;> exact .found .here hshort
  | cons key rest ih =>
    intro v
    cases v with
    | obj members =>
      rw [walk]
      cases hget : Dict.get? members key with
      | none =>
        refine .missing (fun u h => ?_) fun h => ?_
        · cases h with
          | member get _ => cases hget.symm.trans get
        · cases h with
          | member get _ => cases hget.symm.trans get
      | some u => exact .member hget (ih u)
    | arr items =>
      rw [walk]
      by_cases hdigits : isDigits key.toList = true
      · rw [if_pos hdigits, intOf]
        by_cases hlen : maxStrDigits < key.toList.length
        · rw [if_pos hlen]
          exact .overlong (.here hdigits hlen)
        · rw [if_neg hlen]
          dsimp only
          cases hget : items[decimalValue key]? with
          | none =>
            refine .missing (fun u h => ?_) fun h => ?_
            · cases h with
              | index _ get _ => cases hget.symm.trans get
            · cases h with
              | here _ long => exact hlen long
              | index _ get _ => cases hget.symm.trans get
          | some u => exact .index hdigits hlen hget (ih u)
      · rw [if_neg hdigits]
        refine .missing (fun u h => ?_) fun h => ?_
        · cases h with
          | index digits _ _ => exact hdigits digits
        · cases h with
          | here digits _ => exact hdigits digits
          | index digits _ _ => exact hdigits digits
    | _ => exact .missing (fun u h => by cases h) fun h => by cases h

/-! ## Checks -/

/-- What a string leaf asks for. -/
inductive Check where
  | malformed (leaf : String)
  | whole (r : TemplateReference)
  | embedded (r : TemplateReference)
  deriving DecidableEq, Repr

def segmentCheck : TemplateSegment → Option Check
  | .literal _ => none
  | .reference r => some (.embedded r)

def leafChecks (s : String) : List Check :=
  match parse s with
  | .error _ => [.malformed s]
  | .ok (.text _) => []
  | .ok (.reference r) => [.whole r]
  | .ok (.segments segments) => segments.filterMap segmentCheck

mutual

/-- The checks of a value in the order of the traversal. -/
def checks : Json → List Check
  | .str s => leafChecks s
  | .arr items => itemChecks items
  | .obj members => objectChecks members
  | .null => []
  | .bool _ => []
  | .int _ => []
  | .float _ => []
  | .nonFinite _ => []

def itemChecks : List Json → List Check
  | [] => []
  | x :: xs => checks x ++ itemChecks xs

def objectChecks : List (String × Json) → List Check
  | [] => []
  | (_, x) :: xs => checks x ++ objectChecks xs

end

variable (strFloat : Rat → String) (outputs : Dict Json)

/-- The text of a scalar inside a string. -/
def scalarText : Json → Option String
  | .str s => some s
  | .null => some "null"
  | .bool b => some (if b then "true" else "false")
  | .int i => some (toString i)
  | .float q => some (strFloat q)
  | .nonFinite _ => none
  | .arr _ => none
  | .obj _ => none

/-- The reference names an output and a path in it. -/
def Finds (r : TemplateReference) (v : Json) : Prop :=
  ∃ root, Dict.get? outputs r.nodeId = some root ∧ At root r.path v

def Passes : Check → Prop
  | .malformed _ => False
  | .whole r => ∃ v, Finds outputs r v
  | .embedded r => ∃ v t, Finds outputs r v ∧ scalarText strFloat v = some t

/-- The lookup of the reference meets an overlong index. -/
def Exceeds : Check → Prop
  | .malformed _ => False
  | .whole r => ∃ root, Dict.get? outputs r.nodeId = some root ∧ Overlong root r.path
  | .embedded r => ∃ root, Dict.get? outputs r.nodeId = some root ∧ Overlong root r.path

def Good (c : Check) : Prop := Passes strFloat outputs c ∧ ¬ Exceeds outputs c

/-- The exception of a failed check. -/
def Fails (c : Check) (e : PyError) : Prop :=
  (Exceeds outputs c ∧ ∃ m, e = .valueError m) ∨
    (¬ Exceeds outputs c ∧ ¬ Passes strFloat outputs c ∧ ∃ m, e = .templateResolution m)

/-- The exception comes from the first check that is not good. -/
def Blames (cs : List Check) (e : PyError) : Prop :=
  ∃ before c after, cs = before ++ c :: after ∧ (∀ b ∈ before, Good strFloat outputs b) ∧ Fails strFloat outputs c e

/-- All checks are good and the value is as asked, or the first failing one is blamed. -/
def Answers {α : Type} (cs : List Check) (Q : α → Prop) : Except PyError α → Prop
  | .ok v => (∀ c ∈ cs, Good strFloat outputs c) ∧ Q v
  | .error e => Blames strFloat outputs cs e

variable {strFloat outputs}

theorem Blames.append_left {cs cs' : List Check} {e : PyError} (h : Blames strFloat outputs cs e) :
    Blames strFloat outputs (cs ++ cs') e := by
  obtain ⟨before, c, after, rfl, hbefore, hc⟩ := h
  exact ⟨before, c, after ++ cs', by simp, hbefore, hc⟩

theorem Blames.append_right {cs cs' : List Check} {e : PyError} (hall : ∀ c ∈ cs, Good strFloat outputs c)
    (h : Blames strFloat outputs cs' e) : Blames strFloat outputs (cs ++ cs') e := by
  obtain ⟨before, c, after, rfl, hbefore, hc⟩ := h
  refine ⟨cs ++ before, c, after, by simp, fun b hb => ?_, hc⟩
  rcases List.mem_append.1 hb with hb | hb
  · exact hall b hb
  · exact hbefore b hb

theorem Blames.single {c : Check} {e : PyError} (h : Fails strFloat outputs c e) : Blames strFloat outputs [c] e :=
  ⟨[], c, [], rfl, by simp, h⟩

/-- One computation after the other makes one list of checks after the other. -/
theorem Answers.bind {α β : Type} {cs cs' : List Check} {Q : α → Prop} {Q' : β → Prop} {x : Except PyError α}
    {f : α → Except PyError β} (hx : Answers strFloat outputs cs Q x)
    (hf : ∀ a, Q a → Answers strFloat outputs cs' Q' (f a)) : Answers strFloat outputs (cs ++ cs') Q' (x >>= f) := by
  cases x with
  | error e => exact Blames.append_left hx
  | ok a =>
    obtain ⟨hall, ha⟩ := hx
    have hfa := hf a ha
    show Answers strFloat outputs (cs ++ cs') Q' (f a)
    cases hr : f a with
    | error e =>
      rw [hr] at hfa
      exact Blames.append_right hall hfa
    | ok b =>
      rw [hr] at hfa
      refine ⟨fun c hc => ?_, hfa.2⟩
      rcases List.mem_append.1 hc with hc | hc
      · exact hall c hc
      · exact hfa.1 c hc

theorem Answers.pure {α : Type} {Q : α → Prop} {a : α} (h : Q a) : Answers strFloat outputs [] Q (.ok a) :=
  ⟨by simp, h⟩

theorem Answers.map {α β : Type} {cs : List Check} {Q : α → Prop} {Q' : β → Prop} {x : Except PyError α} {g : α → β}
    (h : Answers strFloat outputs cs Q x) (himp : ∀ a, Q a → Q' (g a)) :
    Answers strFloat outputs cs Q' (x >>= fun a => Pure.pure (g a)) := by
  cases x with
  | error e => exact h
  | ok a => exact ⟨h.1, himp a h.2⟩

theorem Answers.mono {α : Type} {cs : List Check} {Q Q' : α → Prop} {x : Except PyError α}
    (h : Answers strFloat outputs cs Q x) (himp : ∀ a, Q a → Q' a) : Answers strFloat outputs cs Q' x := by
  cases x with
  | error e => exact h
  | ok a => exact ⟨h.1, himp a h.2⟩

/-! ## Leaves -/

/-- The lookup behind a check of a reference. -/
theorem lookup_spec (outputs : Dict Json) (r : TemplateReference) :
    (∃ v, lookup r outputs = .ok v ∧ Finds outputs r v ∧ ¬ Exceeds outputs (.whole r)) ∨
    (∃ m, lookup r outputs = .error (.valueError m) ∧ Exceeds outputs (.whole r)) ∨
    ∃ m, lookup r outputs = .error (.templateResolution m) ∧ (∀ v, ¬ Finds outputs r v) ∧
      ¬ Exceeds outputs (.whole r) := by
  rw [lookup]
  cases hroot : Dict.get? outputs r.nodeId with
  | none =>
    refine .inr (.inr ⟨_, rfl, ?_, ?_⟩)
    · rintro v ⟨root, hget, -⟩
      cases hroot.symm.trans hget
    · rintro ⟨root, hget, -⟩
      cases hroot.symm.trans hget
  | some root =>
    dsimp only
    have hexceeds : Exceeds outputs (.whole r) → Overlong root r.path := by
      rintro ⟨root', hget, hlong⟩
      cases hroot.symm.trans hget
      exact hlong
    generalize hw : walk r root r.path = x
    have hwalk := hw ▸ walk_spec r r.path root
    cases hwalk with
    | found hat hshort => exact .inl ⟨_, rfl, ⟨root, hroot, hat⟩, mt hexceeds hshort⟩
    | overlong hlong => exact .inr (.inl ⟨_, rfl, root, hroot, hlong⟩)
    | missing hnone hshort =>
      refine .inr (.inr ⟨_, rfl, ?_, mt hexceeds hshort⟩)
      rintro v ⟨root', hget, hat⟩
      cases hroot.symm.trans hget
      exact hnone v hat

mutual

/-- All numbers in the value are finite. -/
def finite : Json → Bool
  | .nonFinite _ => false
  | .arr items => finiteItems items
  | .obj members => finiteMembers members
  | .null => true
  | .bool _ => true
  | .int _ => true
  | .float _ => true
  | .str _ => true

def finiteItems : List Json → Bool
  | [] => true
  | x :: xs => finite x && finiteItems xs

def finiteMembers : List (String × Json) → Bool
  | [] => true
  | (_, x) :: xs => finite x && finiteMembers xs

end

def notFinite : PyError := .templateResolution "Task input must contain only finite JSON numbers."

mutual

/-- A copy is the value itself, if there is one. -/
theorem copyJsonValue_eq : ∀ j : Json, copyJsonValue j = if finite j then .ok j else .error notFinite
  | .nonFinite _ => rfl
  | .arr items => by
    rw [copyJsonValue, copyItems_eq items, finite]
    cases finiteItems items <;> rfl
  | .obj members => by
    rw [copyJsonValue, copyObject_eq members, finite]
    cases finiteMembers members <;> rfl
  | .null => rfl
  | .bool _ => rfl
  | .int _ => rfl
  | .float _ => rfl
  | .str _ => rfl

theorem copyItems_eq : ∀ items : List Json, copyItems items = if finiteItems items then .ok items else .error notFinite
  | [] => rfl
  | x :: xs => by
    rw [copyItems, copyJsonValue_eq x, copyItems_eq xs, finiteItems]
    cases finite x <;> cases finiteItems xs <;> rfl

theorem copyObject_eq : ∀ members : List (String × Json),
    copyObject members = if finiteMembers members then .ok members else .error notFinite
  | [] => rfl
  | (key, x) :: xs => by
    rw [copyObject, copyJsonValue_eq x, copyObject_eq xs, finiteMembers]
    cases finite x <;> cases finiteMembers xs <;> rfl

end

theorem copyJsonValue_finite {j : Json} (h : finite j = true) : copyJsonValue j = .ok j := by
  rw [copyJsonValue_eq, if_pos h]

theorem finite_get {members : Dict Json} (h : finiteMembers members = true) {key : String} {v : Json}
    (hget : Dict.get? members key = some v) : finite v = true := by
  induction members with
  | nil => cases hget
  | cons m members ih =>
    obtain ⟨k, x⟩ := m
    rw [finiteMembers, Bool.and_eq_true] at h
    by_cases hk : k = key
    · simp only [Dict.get?, hk, decide_true, List.find?_cons_of_pos, Option.map_some, Option.some.injEq] at hget
      exact hget ▸ h.1
    · refine ih h.2 ?_
      simpa [Dict.get?, hk] using hget

theorem finite_item {items : List Json} (h : finiteItems items = true) :
    ∀ {i : Nat} {v : Json}, items[i]? = some v → finite v = true := by
  induction items with
  | nil => simp
  | cons x items ih =>
    rw [finiteItems, Bool.and_eq_true] at h
    intro i v hget
    cases i with
    | zero => exact Option.some.inj hget ▸ h.1
    | succ i => exact ih h.2 (i := i) (by simpa using hget)

theorem At.finite {v u : Json} {path : List String} (h : At v path u) (hv : finite v = true) : finite u = true := by
  induction h with
  | here => exact hv
  | member get _ ih => exact ih (finite_get hv get)
  | index _ get _ ih => exact ih (finite_item hv get)

theorem Finds.finite {r : TemplateReference} {v : Json} (h : Finds outputs r v) (hout : finiteMembers outputs = true) :
    finite v = true := by
  obtain ⟨root, hget, hat⟩ := h
  exact hat.finite (finite_get hout hget)

theorem Finds.unique {r : TemplateReference} {v v' : Json} (h : Finds outputs r v) (h' : Finds outputs r v') :
    v = v' := by
  obtain ⟨root, hget, hat⟩ := h
  obtain ⟨root', hget', hat'⟩ := h'
  cases hget.symm.trans hget'
  exact hat.unique hat'

variable (strFloat outputs)

/-- The text that takes the place of a segment. -/
def SegmentText : TemplateSegment → String → Prop
  | .literal s, t => t = s
  | .reference r, t => ∃ v, Finds outputs r v ∧ scalarText strFloat v = some t

/-- What takes the place of a string leaf. -/
def LeafSubstituted (s : String) (j : Json) : Prop :=
  match parse s with
  | .error _ => False
  | .ok (.text _) => j = .str s
  | .ok (.reference r) => Finds outputs r j
  | .ok (.segments segments) =>
    ∃ ts, List.Forall₂ (SegmentText strFloat outputs) segments ts ∧ j = .str (String.join ts)

variable {strFloat outputs}

theorem interpolate_spec (hout : finiteMembers outputs = true) (r : TemplateReference) :
    Answers strFloat outputs [.embedded r] (fun t => SegmentText strFloat outputs (.reference r) t)
      (interpolate strFloat r outputs) := by
  rw [interpolate]
  rcases lookup_spec outputs r with ⟨v, hlook, hfinds, hshort⟩ | ⟨m, hlook, hlong⟩ | ⟨m, hlook, hnone, hshort⟩
  · rw [hlook]
    have hfinite := hfinds.finite hout
    have hgood : ∀ t, scalarText strFloat v = some t → Answers strFloat outputs [.embedded r]
        (fun t => SegmentText strFloat outputs (.reference r) t) (.ok t) := by
      intro t ht
      exact ⟨by simpa using ⟨⟨v, t, hfinds, ht⟩, hshort⟩, v, hfinds, ht⟩
    have hbad : scalarText strFloat v = none → ∀ m, Blames strFloat outputs [.embedded r] (.templateResolution m) := by
      intro hnone m
      refine .single (.inr ⟨hshort, ?_, m, rfl⟩)
      rintro ⟨v', t, hfinds', ht⟩
      rw [hfinds'.unique hfinds, hnone] at ht
      cases ht
    cases v with
    | nonFinite l => cases hfinite
    | arr items => exact hbad rfl _
    | obj members => exact hbad rfl _
    | _ => exact hgood _ rfl
  · rw [hlook]
    exact .single (.inl ⟨hlong, m, rfl⟩)
  · rw [hlook]
    refine Blames.single (.inr ⟨hshort, ?_, m, rfl⟩)
    rintro ⟨v, t, hfinds, -⟩
    exact hnone v hfinds

theorem interpolateSegments_spec (hout : finiteMembers outputs = true) (segments : List TemplateSegment) :
    Answers strFloat outputs (segments.filterMap segmentCheck)
      (fun text => ∃ ts, List.Forall₂ (SegmentText strFloat outputs) segments ts ∧ text = String.join ts)
      (interpolateSegments strFloat outputs segments) := by
  induction segments with
  | nil => exact .pure ⟨[], .nil, rfl⟩
  | cons x segments ih =>
    cases x with
    | literal s =>
      rw [interpolateSegments]
      refine ih.map ?_
      rintro text ⟨ts, hts, rfl⟩
      exact ⟨s :: ts, .cons rfl hts, String.join_cons.symm⟩
    | reference r =>
      rw [interpolateSegments]
      refine (interpolate_spec hout r).bind fun t ht => ih.map ?_
      rintro text ⟨ts, hts, rfl⟩
      exact ⟨t :: ts, .cons ht hts, String.join_cons.symm⟩

theorem parse_eq_text {s t : String} (h : parse s = .ok (.text t)) : t = s := by
  rcases TemplateParser.parse_cases s with ⟨segments, -, -, hparse⟩ | ⟨m, hm⟩
  · have houtcome := Except.ok.inj (h.symm.trans hparse)
    unfold TemplateParser.outcome at houtcome
    split at houtcome
    · cases houtcome
    · split at houtcome
      · cases houtcome
      · cases houtcome
        rfl
  · cases h.symm.trans hm

theorem parse_eq_error {s : String} {e : PyError} (h : parse s = .error e) : ∃ m, e = .templateResolution m := by
  rcases TemplateParser.parse_cases s with ⟨segments, -, -, hparse⟩ | ⟨m, hm⟩
  · cases h.symm.trans hparse
  · exact ⟨m, Except.error.inj (h.symm.trans hm)⟩

theorem resolveString_spec (hout : finiteMembers outputs = true) (s : String) :
    Answers strFloat outputs (leafChecks s) (LeafSubstituted strFloat outputs s)
      (resolveString strFloat s outputs) := by
  unfold resolveString leafChecks LeafSubstituted
  cases hp : parse s with
  | error e =>
    obtain ⟨m, rfl⟩ := parse_eq_error hp
    exact Blames.single (.inr ⟨id, id, m, rfl⟩)
  | ok parsed =>
    cases parsed with
    | text t => exact .pure (by rw [parse_eq_text hp])
    | reference r =>
      dsimp only [bind, Except.bind]
      rcases lookup_spec outputs r with ⟨v, hlook, hfinds, hshort⟩ | ⟨m, hlook, hlong⟩ | ⟨m, hlook, hnone, hshort⟩
      · rw [hlook]
        dsimp only
        rw [copyJsonValue_finite (hfinds.finite hout)]
        exact ⟨by simpa using ⟨⟨v, hfinds⟩, hshort⟩, hfinds⟩
      · rw [hlook]
        exact Blames.single (.inl ⟨hlong, m, rfl⟩)
      · rw [hlook]
        exact Blames.single (.inr ⟨hshort, fun ⟨v, hfinds⟩ => hnone v hfinds, m, rfl⟩)
    | segments segments =>
      refine (interpolateSegments_spec hout segments).map ?_
      rintro text ⟨ts, hts, rfl⟩
      exact ⟨ts, hts, rfl⟩

variable (strFloat outputs)

mutual

/-- The value with its string leaves replaced: the same keys, list lengths and other leaves. -/
def Substituted : Json → Json → Prop
  | .str s, j => LeafSubstituted strFloat outputs s j
  | .arr items, .arr items' => ItemsSubstituted items items'
  | .obj members, .obj members' => ObjectSubstituted members members'
  | .null, j => j = .null
  | .bool b, j => j = .bool b
  | .int i, j => j = .int i
  | .float q, j => j = .float q
  | .nonFinite l, j => j = .nonFinite l
  | .arr _, _ => False
  | .obj _, _ => False

def ItemsSubstituted : List Json → List Json → Prop
  | [], [] => True
  | x :: xs, y :: ys => Substituted x y ∧ ItemsSubstituted xs ys
  | _, _ => False

def ObjectSubstituted : List (String × Json) → List (String × Json) → Prop
  | [], [] => True
  | (key, x) :: xs, (key', y) :: ys => key = key' ∧ Substituted x y ∧ ObjectSubstituted xs ys
  | _, _ => False

end

variable {strFloat outputs}

mutual

theorem resolveValue_spec (hout : finiteMembers outputs = true) : ∀ j : Json, finite j = true →
    Answers strFloat outputs (checks j) (Substituted strFloat outputs j) (resolveValue strFloat outputs j)
  | .str s, _ => by
    rw [checks, resolveValue]
    exact (resolveString_spec hout s).mono fun j hj => by rwa [Substituted]
  | .arr items, h => by
    rw [checks, resolveValue]
    exact (resolveItems_spec hout items h).map fun items' h' => by rwa [Substituted]
  | .obj members, h => by
    rw [checks, resolveValue]
    exact (resolveObject_spec hout members h).map fun members' h' => by rwa [Substituted]
  | .null, _ => .pure (by rw [Substituted])
  | .bool _, _ => .pure (by rw [Substituted])
  | .int _, _ => .pure (by rw [Substituted])
  | .float _, _ => .pure (by rw [Substituted])
  | .nonFinite _, h => by cases h

theorem resolveItems_spec (hout : finiteMembers outputs = true) : ∀ items : List Json, finiteItems items = true →
    Answers strFloat outputs (itemChecks items) (ItemsSubstituted strFloat outputs items)
      (resolveItems strFloat outputs items)
  | [], _ => .pure (by rw [ItemsSubstituted]; trivial)
  | x :: xs, h => by
    rw [finiteItems, Bool.and_eq_true] at h
    rw [itemChecks, resolveItems]
    refine (resolveValue_spec hout x h.1).bind fun y hy => (resolveItems_spec hout xs h.2).map fun ys hys => ?_
    rw [ItemsSubstituted]
    exact ⟨hy, hys⟩

theorem resolveObject_spec (hout : finiteMembers outputs = true) :
    ∀ members : List (String × Json), finiteMembers members = true →
    Answers strFloat outputs (objectChecks members) (ObjectSubstituted strFloat outputs members)
      (resolveObject strFloat outputs members)
  | [], _ => .pure (by rw [ObjectSubstituted]; trivial)
  | (key, x) :: xs, h => by
    rw [finiteMembers, Bool.and_eq_true] at h
    rw [objectChecks, resolveObject]
    refine (resolveValue_spec hout x h.1).bind fun y hy => (resolveObject_spec hout xs h.2).map fun ys hys => ?_
    rw [ObjectSubstituted]
    exact ⟨rfl, hy, hys⟩

end

/-! ## The whole configuration -/

/-- Resolution is the exact substitution: it succeeds when every check passes, raises the template
error otherwise, and replaces string leaves only. -/
structure ExactSubstitution (strFloat : Rat → String) (outputs config : Dict Json)
    (result : Except PyError (Dict Json)) : Prop where
  succeeds : (∃ resolved, result = .ok resolved) ↔ ∀ c ∈ objectChecks config, Passes strFloat outputs c
  otherwise : ∀ e, result = .error e → ∃ m, e = .templateResolution m
  substituted : ∀ resolved, result = .ok resolved → ObjectSubstituted strFloat outputs config resolved

/-- Every reference that meets an overlong index comes after a check that fails. -/
def Shielded (strFloat : Rat → String) (outputs : Dict Json) (cs : List Check) : Prop :=
  ∀ before c after, cs = before ++ c :: after → Exceeds outputs c → ∃ b ∈ before, ¬ Passes strFloat outputs b

theorem shielded_of_fails {before after : List Check} {c : Check} (hbefore : ∀ b ∈ before, Good strFloat outputs b)
    (hshort : ¬ Exceeds outputs c) (hfail : ¬ Passes strFloat outputs c) :
    Shielded strFloat outputs (before ++ c :: after) := by
  intro before' c' after' heq hexceeds
  rcases List.append_eq_append_iff.1 heq with ⟨as, rfl, hsplit⟩ | ⟨as, rfl, hsplit⟩
  · cases as with
    | nil =>
      cases hsplit
      exact absurd hexceeds hshort
    | cons a as =>
      cases hsplit
      exact ⟨c, by simp, hfail⟩
  · cases as with
    | nil =>
      cases hsplit
      exact absurd hexceeds hshort
    | cons a as =>
      cases hsplit
      exact absurd hexceeds (hbefore c' (by simp)).2

theorem resolve_exact_iff (strFloat : Rat → String) (node : WorkflowNode) (executionInput outputs : Dict Json)
    (hinput : node.handler ≠ "input") (houtput : node.handler ≠ "output") (hconfig : finiteMembers node.config = true)
    (hout : finiteMembers outputs = true) :
    ExactSubstitution strFloat outputs node.config (resolve strFloat node executionInput outputs) ↔
      Shielded strFloat outputs (objectChecks node.config) := by
  rw [resolve, if_neg hinput, if_neg houtput]
  have hspec : Answers strFloat outputs (objectChecks node.config) (ObjectSubstituted strFloat outputs node.config)
      (resolveObject strFloat outputs node.config) := resolveObject_spec hout node.config hconfig
  cases hr : resolveObject strFloat outputs node.config with
  | ok resolved =>
    rw [hr] at hspec
    obtain ⟨hgood, hsub⟩ := hspec
    refine ⟨fun _ before c after heq hexceeds => ?_, fun _ => ⟨?_, ?_, ?_⟩⟩
    · exact absurd hexceeds (hgood c (by simp [heq])).2
    · exact ⟨fun _ c hc => (hgood c hc).1, fun _ => ⟨resolved, rfl⟩⟩
    · exact fun e he => by cases he
    · rintro _ ⟨⟩
      exact hsub
  | error e =>
    rw [hr] at hspec
    obtain ⟨before, c, after, heq, hbefore, hfails⟩ := hspec
    rw [heq]
    rcases hfails with ⟨hexceeds, m, rfl⟩ | ⟨hshort, hfail, m, rfl⟩
    · refine ⟨fun h => ?_, fun h => ?_⟩
      · obtain ⟨m', hm'⟩ := h.otherwise _ rfl
        cases hm'
      · obtain ⟨b, hb, hnot⟩ := h before c after rfl hexceeds
        exact absurd (hbefore b hb).1 hnot
    · refine ⟨fun _ => shielded_of_fails hbefore hshort hfail, fun _ => ⟨?_, ?_, ?_⟩⟩
      · constructor
        · rintro ⟨resolved, h⟩
          cases h
        · intro h
          exact absurd (h c (by simp [heq])) hfail
      · rintro _ ⟨⟩
        exact ⟨m, rfl⟩
      · exact fun resolved h => by cases h

theorem Overlong.part {v : Json} {path : List String} (h : Overlong v path) :
    ∃ key ∈ path, maxStrDigits < key.toList.length := by
  induction h with
  | here _ long => exact ⟨_, by simp, long⟩
  | member _ _ ih =>
    obtain ⟨key, hkey, hlong⟩ := ih
    exact ⟨key, by simp [hkey], hlong⟩
  | index _ _ _ ih =>
    obtain ⟨key, hkey, hlong⟩ := ih
    exact ⟨key, by simp [hkey], hlong⟩

/-- The parts of the path that a check follows. -/
def Check.path : Check → List String
  | .malformed _ => []
  | .whole r => r.path
  | .embedded r => r.path

/-- References with parts of ordinary length are never affected. -/
theorem shielded_of_short {cs : List Check} (h : ∀ c ∈ cs, ∀ key ∈ c.path, key.toList.length ≤ maxStrDigits) :
    Shielded strFloat outputs cs := by
  intro before c after heq hexceeds
  have hpath : ∃ key ∈ c.path, maxStrDigits < key.toList.length := by
    cases c with
    | malformed s => exact absurd hexceeds id
    | whole r =>
      obtain ⟨root, -, hlong⟩ := hexceeds
      exact hlong.part
    | embedded r =>
      obtain ⟨root, -, hlong⟩ := hexceeds
      exact hlong.part
  obtain ⟨key, hkey, hlong⟩ := hpath
  exact absurd (h c (by simp [heq]) key hkey) (not_le.2 hlong)

/-- A prompt with an embedded and a bare reference to the output of `fetch`. -/
def summaryNode : WorkflowNode :=
  ⟨"summary", "llm_service", ["fetch"], [("prompt", .str "Sum up \x7b\x7b fetch.items.1 \x7d\x7d."),
    ("raw", .str "\x7b\x7bfetch.items\x7d\x7d")]⟩

def fetchOutputs : Dict Json := [("fetch", .obj [("items", .arr [.str "a", .bool true])])]

theorem resolve_exact_iff_summary : finiteMembers summaryNode.config = true ∧ finiteMembers fetchOutputs = true ∧
    ExactSubstitution (fun _ => "") fetchOutputs summaryNode.config
      (resolve (fun _ => "") summaryNode [] fetchOutputs) ∧
    resolve (fun _ => "") summaryNode [] fetchOutputs =
      .ok [("prompt", .str "Sum up true."), ("raw", .arr [.str "a", .bool true])] := by
  refine ⟨by decide, by decide, (resolve_exact_iff _ _ _ _ (by decide) (by decide) (by decide) (by decide)).2 ?_,
    by decide +kernel⟩
  exact shielded_of_short (by decide +kernel)

/-- The index zero written with `n` digits. -/
def zeros (n : Nat) : String := String.ofList (List.replicate n '0')

/-- A bare reference to an item of the output of `a`. -/
def itemText (index : String) : String :=
  String.ofList (TemplateParser.openDelimiter ++
    (('a' :: '.' :: index.toList) ++ (TemplateParser.closeDelimiter ++ [])))

def itemNode (index : String) : WorkflowNode := ⟨"n", "llm_service", ["a"], [("prompt", .str (itemText index))]⟩

theorem isDigits_zeros {n : Nat} (hn : 0 < n) : isDigits (zeros n).toList = true := by
  rw [isDigits, zeros, String.toList_ofList, Bool.and_eq_true, Bool.not_eq_true', List.isEmpty_eq_false_iff,
    List.all_eq_true]
  refine ⟨fun h => by simp [List.replicate_eq_nil_iff] at h; omega, fun c hc => ?_⟩
  rw [List.eq_of_mem_replicate hc]
  decide

theorem parse_itemText {index : String} (h : isDigits index.toList = true) :
    parse (itemText index) = .ok (.reference ⟨"a", [index]⟩) := by
  have hvalid : TemplateParser.ValidReference ⟨"a", [index]⟩ := by
    have hid : isIdentifier "a" = true := by decide
    exact ⟨hid, by simp, by simp [TemplateParser.isPathSegment, h]⟩
  have hspells : TemplateParser.Spells ⟨"a", [index]⟩ ('a' :: '.' :: index.toList) := by
    have hpad : ∀ name, TemplateParser.Padded name name := fun name => ⟨[], [], rfl, rfl, by simp⟩
    have hname : "a".toList = ['a'] := by decide
    exact ⟨["a".toList, index.toList], .cons (hpad _) (.cons (hpad _) .nil),
      by simp [hname, List.intercalate_cons_cons]⟩
  have hnormal : TemplateParser.Normal [.reference ⟨"a", [index]⟩] := ⟨by simp, by simpa using hvalid, by simp⟩
  refine TemplateParser.parse_rendered hnormal ?_
  rw [itemText, String.toList_ofList]
  exact .reference hspells .nil

/-- A bare reference to an item of a list resolves to an error when the index is too long. -/
theorem resolve_itemNode {index : String} (h : isDigits index.toList = true)
    (hlong : maxStrDigits < index.toList.length) :
    ∃ m, resolve (fun _ => "") (itemNode index) [] [("a", .arr [.null])] = .error (.valueError m) := by
  have hlookup : ∃ m, lookup ⟨"a", [index]⟩ [("a", .arr [.null])] = .error (.valueError m) := by
    have hroot : Dict.get? [("a", Json.arr [.null])] "a" = some (.arr [.null]) := by decide
    simp [lookup, hroot, walk, h, intOf, hlong]
  obtain ⟨m, hm⟩ := hlookup
  refine ⟨m, ?_⟩
  simp [resolve, itemNode, resolveObject, resolveValue, resolveString, parse_itemText h, hm, bind, Except.bind]

/-- The first item exists, but `int` does not take an index of 4301 digits. -/
theorem resolve_exact_counterexample :
    (∃ m, resolve (fun _ => "") (itemNode (zeros 4301)) [] [("a", .arr [.null])] = .error (.valueError m)) ∧
    Passes (fun _ => "") [("a", .arr [.null])] (.whole ⟨"a", [zeros 4301]⟩) ∧
    ¬ ExactSubstitution (fun _ => "") [("a", .arr [.null])] (itemNode (zeros 4301)).config
      (resolve (fun _ => "") (itemNode (zeros 4301)) [] [("a", .arr [.null])]) := by
  have hdigits : isDigits (zeros 4301).toList = true := isDigits_zeros (by decide)
  have hlen : maxStrDigits < (zeros 4301).toList.length := by
    rw [zeros, String.toList_ofList, List.length_replicate, maxStrDigits]
    decide
  obtain ⟨m, hm⟩ := resolve_itemNode hdigits hlen
  refine ⟨⟨m, hm⟩, ⟨.null, .arr [.null], rfl, .index hdigits ?_ .here⟩, fun h => ?_⟩
  · have hzero : ∀ n, decimalValue (zeros n) = 0 := by
      intro n
      rw [decimalValue, zeros, String.toList_ofList]
      induction n with
      | zero => rfl
      | succ n ih => simpa [List.replicate_succ] using ih
    rw [hzero]
    rfl
  · obtain ⟨m', hm'⟩ := h.otherwise _ hm
    cases hm'

end NodeInputResolver

end WorkflowEngine
