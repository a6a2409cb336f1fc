import Mathlib.Data.List.Basic

/-!
# Streams with one consumer group

An append-only log and its consumer group: how many entries were delivered, and the list of
delivered entries that are not acknowledged yet, each with its consumer and the time of its
last delivery. Reading with id `>` returns entries never delivered to the group; claiming
takes over a pending entry that has been idle long enough.
-/

structure PendingEntry where
  index : Nat
  consumer : String
  deliveredAt : Int
  deriving DecidableEq, Repr

structure GroupStream (α : Type) where
  entries : List α
  lastDelivered : Nat
  pending : List PendingEntry
  deriving DecidableEq, Repr

namespace GroupStream

variable {α : Type}

def empty : GroupStream α := ⟨[], 0, []⟩

def xadd (s : GroupStream α) (a : α) : GroupStream α := { s with entries := s.entries ++ [a] }

/-- The group after its next entry has gone to `consumer`. -/
def deliver (s : GroupStream α) (consumer : String) (now : Int) : GroupStream α :=
  { s with
    lastDelivered := s.lastDelivered + 1
    pending := s.pending ++ [⟨s.lastDelivered, consumer, now⟩] }

/-- Deliver the next entry that the group has not seen. -/
def xreadgroup (s : GroupStream α) (consumer : String) (now : Int) : Option (Nat × α × GroupStream α) :=
  (s.entries[s.lastDelivered]?).map fun a => (s.lastDelivered, a, s.deliver consumer now)

def xack (s : GroupStream α) (index : Nat) : GroupStream α :=
  { s with pending := s.pending.filter fun p => decide (p.index ≠ index) }

/-- The group after a pending entry has gone over to `consumer`. -/
def reclaim (s : GroupStream α) (consumer : String) (now : Int) (index : Nat) : GroupStream α :=
  { s with pending := s.pending.map fun p => if p.index = index then ⟨index, consumer, now⟩ else p }

/-- Take over a pending entry that nobody has been given for `minIdle`. -/
def xautoclaim (s : GroupStream α) (consumer : String) (minIdle now : Int) (index : Nat) :
    Option (α × GroupStream α) :=
  if s.pending.any fun p => decide (p.index = index ∧ minIdle ≤ now - p.deliveredAt) then
    (s.entries[index]?).map fun a => (a, s.reclaim consumer now index)
  else none

/-- Not yet delivered, or delivered and still in the pending list. -/
def Unacknowledged (s : GroupStream α) (index : Nat) : Prop :=
  index < s.entries.length ∧ (s.lastDelivered ≤ index ∨ ∃ p ∈ s.pending, p.index = index)

variable {s : GroupStream α} {a : α} {consumer : String} {now : Int} {i index : Nat}

theorem Unacknowledged.xadd (h : s.Unacknowledged i) : (s.xadd a).Unacknowledged i := by
  obtain ⟨hlt, hrest⟩ := h
  refine ⟨?_, hrest⟩
  rw [GroupStream.xadd, List.length_append]
  exact Nat.lt_add_right _ hlt

theorem Unacknowledged.deliver (h : s.Unacknowledged i) : (s.deliver consumer now).Unacknowledged i := by
  obtain ⟨hlt, hrest⟩ := h
  refine ⟨hlt, ?_⟩
  rcases hrest with hle | ⟨p, hp, hi⟩
  · rcases Nat.lt_or_eq_of_le hle with hlt' | rfl
    · exact .inl hlt'
    · exact .inr ⟨_, List.mem_append_right _ (List.mem_singleton.2 rfl), rfl⟩
  · exact .inr ⟨p, List.mem_append_left _ hp, hi⟩

theorem Unacknowledged.reclaim (h : s.Unacknowledged i) : (s.reclaim consumer now index).Unacknowledged i := by
  obtain ⟨hlt, hrest⟩ := h
  refine ⟨hlt, hrest.imp_right ?_⟩
  rintro ⟨p, hp, hi⟩
  refine ⟨_, List.mem_map_of_mem hp, ?_⟩
  split
  · rename_i he
    exact he.symm.trans hi
  · exact hi

/-- Acknowledging one entry leaves the others as they are. -/
theorem Unacknowledged.xack (h : s.Unacknowledged i) (hne : i ≠ index) : (s.xack index).Unacknowledged i := by
  obtain ⟨hlt, hrest⟩ := h
  refine ⟨hlt, hrest.imp_right ?_⟩
  rintro ⟨p, hp, hi⟩
  exact ⟨p, List.mem_filter.2 ⟨hp, by simpa [hi] using hne⟩, hi⟩

theorem unacknowledged_of_last (s : GroupStream α) (a : α) (h : s.lastDelivered ≤ s.entries.length) :
    (s.xadd a).Unacknowledged s.entries.length :=
  ⟨by simp [GroupStream.xadd], .inl h⟩

/-- A new entry is unacknowledged; the older ones are as they were. -/
theorem unacknowledged_xadd_or {m : α} (h : s.lastDelivered ≤ s.entries.length)
    (hm : (s.xadd a).entries[i]? = some m) :
    (s.xadd a).Unacknowledged i ∨ (s.entries[i]? = some m ∧ ¬ s.Unacknowledged i) := by
  have hlt : i < s.entries.length + 1 := by
    simpa [GroupStream.xadd] using (List.getElem?_eq_some_iff.1 hm).1
  rcases Nat.lt_or_ge i s.entries.length with hi | hi
  · by_cases hu : s.Unacknowledged i
    · exact .inl hu.xadd
    · exact .inr ⟨(List.getElem?_append_left hi).symm.trans hm, hu⟩
  · obtain rfl : i = s.entries.length := by omega
    exact .inl (s.unacknowledged_of_last a h)

/-! ## Backlog -/

/-- How many entries the group has not seen. -/
def backlog (s : GroupStream α) : Nat := s.entries.length - s.lastDelivered

@[simp] theorem backlog_xack : (s.xack index).backlog = s.backlog := rfl

theorem backlog_xadd : (s.xadd a).backlog ≤ s.backlog + 1 := by
  simp only [backlog, xadd, List.length_append, List.length_singleton]
  omega

variable (consumer now) in
theorem backlog_deliver (h : s.entries[s.lastDelivered]? = some a) :
    (s.deliver consumer now).backlog + 1 = s.backlog := by
  have := (List.getElem?_eq_some_iff.1 h).1
  simp only [backlog, deliver]
  omega

end GroupStream
