import WorkflowEngine.Lib.Stream
import Mathlib.Data.List.Nodup
import Mathlib.Logic.Relation

/-!
# Consumers that read in batches

A consumer reads a batch with id `>`, which delivers all of it at once, then handles and
acknowledges entry by entry; an exception leaves the loop. A later read only returns entries
that were never delivered, so what an exception has cut off stays behind.
-/

namespace GroupStream

variable {α : Type} {s t : GroupStream α} {consumer : String} {now : Int} {count i : Nat}

/-- The next entries of the group, at most `count`, with their positions. -/
def batch (s : GroupStream α) (count : Nat) : List (α × Nat) :=
  ((s.entries.drop s.lastDelivered).take count).zipIdx s.lastDelivered

/-- The group after a batch has gone to `consumer`. -/
def deliverBatch (s : GroupStream α) (consumer : String) (now : Int) (count : Nat) : GroupStream α :=
  { s with
    lastDelivered := s.lastDelivered + (s.batch count).length
    pending := s.pending ++ (s.batch count).map fun m => ⟨m.2, consumer, now⟩ }

/-- Entries are added, batches read and entries acknowledged. -/
inductive Moves : GroupStream α → GroupStream α → Prop where
  | xadd {s : GroupStream α} (a : α) : Moves s (s.xadd a)
  | read {s : GroupStream α} (consumer : String) (now : Int) (count : Nat) :
      Moves s (s.deliverBatch consumer now count)
  | xack {s : GroupStream α} (index : Nat) : Moves s (s.xack index)

abbrev Later : GroupStream α → GroupStream α → Prop := Relation.ReflTransGen Moves

theorem nodup_batch : ((s.batch count).map (·.2)).Nodup := by
  simp only [batch, List.zipIdx_map_snd]
  exact List.nodup_range'

theorem mem_batch {m : α × Nat} (h : m ∈ s.batch count) :
    s.lastDelivered ≤ m.2 ∧ m.2 < s.lastDelivered + (s.batch count).length ∧ m.2 < s.entries.length := by
  obtain ⟨hle, hlt, -⟩ := List.mem_zipIdx h
  have hlen : (s.batch count).length = ((s.entries.drop s.lastDelivered).take count).length := by simp [batch]
  refine ⟨hle, hlen ▸ hlt, ?_⟩
  simp only [List.length_take, List.length_drop] at hlt
  omega

theorem Later.lastDelivered_le (h : Later s t) : s.lastDelivered ≤ t.lastDelivered := by
  induction h with
  | refl => exact Nat.le_refl _
  | tail _ hmove ih =>
    cases hmove with
    | read => exact Nat.le_trans ih (Nat.le_add_right _ _)
    | xadd => exact ih
    | xack => exact ih

/-- A delivered entry is in no later batch. -/
theorem Later.not_mem_batch (h : Later s t) {m : α × Nat} (hm : m ∈ t.batch count) : s.lastDelivered ≤ m.2 :=
  Nat.le_trans h.lastDelivered_le (mem_batch hm).1

theorem unacknowledged_deliverBatch {m : α × Nat} (hm : m ∈ s.batch count) :
    (s.deliverBatch consumer now count).Unacknowledged m.2 :=
  ⟨(mem_batch hm).2.2, .inr ⟨_, List.mem_append_right _ (List.mem_map_of_mem hm), rfl⟩⟩

theorem not_unacknowledged_xack (h : i < s.lastDelivered) : ¬ (s.xack i).Unacknowledged i := by
  rintro ⟨-, hle | ⟨p, hp, hi⟩⟩
  · exact absurd h (Nat.not_lt.2 hle)
  · exact absurd hi (by simpa [GroupStream.xack] using (List.mem_filter.1 hp).2)

theorem Unacknowledged.of_xack {index : Nat} (h : (s.xack index).Unacknowledged i) : s.Unacknowledged i :=
  ⟨h.1, h.2.imp_right fun ⟨p, hp, hi⟩ => ⟨p, List.mem_of_mem_filter hp, hi⟩⟩

end GroupStream

/-! ## The loop over a batch -/

/-- What becomes of an acknowledgement: it returns, or raises before or after the server has it. -/
inductive AckFate where
  | returned | lost | replyLost
  deriving DecidableEq, Repr

/-- How a loop over a batch has ended. -/
structure Consumed (α σ ε : Type) where
  state : σ
  stream : GroupStream α
  processed : List Nat
  error : Option ε

namespace Consumer

open GroupStream

variable {α σ ε : Type} (handle : Nat → α → σ → Except ε Unit × σ) (ack : Nat → AckFate) (ackError : ε)

def consumeEntries : List (α × Nat) → σ → GroupStream α → Consumed α σ ε
  | [], state, stream => ⟨state, stream, [], none⟩
  | (a, i) :: rest, state, stream =>
    match handle i a state with
    | (.error e, state) => ⟨state, stream, [], some e⟩
    | (.ok _, state) =>
      match ack i with
      | .returned =>
        let c := consumeEntries rest state (stream.xack i)
        { c with processed := i :: c.processed }
      | .lost => ⟨state, stream, [i], some ackError⟩
      | .replyLost => ⟨state, stream.xack i, [i], some ackError⟩

/-- A read, and the loop over what it returns. -/
def consumeOnce (consumer : String) (now : Int) (count : Nat) (state : σ) (stream : GroupStream α) : Consumed α σ ε :=
  consumeEntries handle ack ackError (stream.batch count) state (stream.deliverBatch consumer now count)

/-- No handling raises, and no acknowledgement but that of the last entry, which the server has
got. Each handling starts from the state the ones before it have left. -/
def Undisturbed : List (α × Nat) → σ → Prop
  | [], _ => True
  | (a, i) :: rest, state => (handle i a state).1.isOk = true ∧
      ((ack i = .returned ∧ Undisturbed rest (handle i a state).2) ∨ (ack i = .replyLost ∧ rest = []))

instance decidableUndisturbed : (b : List (α × Nat)) → (state : σ) → Decidable (Undisturbed handle ack b state)
  | [], _ => .isTrue trivial
  | (a, i) :: rest, state =>
    have := decidableUndisturbed rest (handle i a state).2
    have : Decidable (rest = []) := decidable_of_iff (rest.isEmpty = true) List.isEmpty_iff
    inferInstanceAs (Decidable (_ ∧ (_ ∨ _)))

variable {handle ack ackError} {b : List (α × Nat)} {state : σ} {stream : GroupStream α}

/-- What is acknowledged stays so. -/
theorem unacknowledged_of_consumeEntries {j : Nat}
    (h : (consumeEntries handle ack ackError b state stream).stream.Unacknowledged j) : stream.Unacknowledged j := by
  induction b generalizing state stream with
  | nil => exact h
  | cons m rest ih =>
    obtain ⟨a, i⟩ := m
    unfold consumeEntries at h
    split at h
    · exact h
    · split at h
      · exact (ih h).of_xack
      · exact h
      · exact h.of_xack

/-- Every entry is acknowledged after it was processed exactly when nothing has raised. -/
theorem consumeEntries_settled_iff (ackError : ε) (hnodup : (b.map (·.2)).Nodup)
    (hlt : ∀ m ∈ b, m.2 < stream.lastDelivered) (hun : ∀ m ∈ b, stream.Unacknowledged m.2) :
    (∀ m ∈ b, m.2 ∈ (consumeEntries handle ack ackError b state stream).processed ∧
      ¬ (consumeEntries handle ack ackError b state stream).stream.Unacknowledged m.2) ↔
        Undisturbed handle ack b state := by
  induction b generalizing state stream with
  | nil => simp [Undisturbed]
  | cons m rest ih =>
    obtain ⟨a, i⟩ := m
    obtain ⟨hi, hnodup⟩ := List.nodup_cons.1 (by simpa only [List.map_cons] using hnodup)
    have hfirst : (a, i) ∈ (a, i) :: rest := List.mem_cons_self
    have hne : ∀ m ∈ rest, m.2 ≠ i := fun m hm he => hi (he ▸ List.mem_map_of_mem hm)
    have hih := @ih (handle i a state).2 (stream.xack i) hnodup (fun m hm => hlt m (List.mem_cons_of_mem _ hm))
      fun m hm => (hun m (List.mem_cons_of_mem _ hm)).xack (hne m hm)
    unfold consumeEntries Undisturbed
    rcases hresult : handle i a state with ⟨e | _, state'⟩
    · -- the handling raises, and not even the first entry is processed
      simp only [Except.isOk, Except.toBool, Bool.false_eq_true, false_and, iff_false]
      exact fun h => absurd (h _ hfirst).1 List.not_mem_nil
    · rw [hresult] at hih
      simp only [Except.isOk, Except.toBool, true_and]
      cases hack : ack i with
      | returned =>
        simp only [true_and, reduceCtorEq, false_and, or_false, ← hih]
        constructor
        · intro h m hm
          obtain ⟨hp, hu⟩ := h m (List.mem_cons_of_mem _ hm)
          exact ⟨(List.mem_cons.1 hp).resolve_left (hne m hm), hu⟩
        · intro h m hm
          rcases List.mem_cons.1 hm with rfl | hm
          · exact ⟨List.mem_cons_self, fun hu =>
              not_unacknowledged_xack (hlt _ hfirst) (unacknowledged_of_consumeEntries hu)⟩
          · exact ⟨List.mem_cons_of_mem _ (h m hm).1, (h m hm).2⟩
      | lost =>
        simp only [reduceCtorEq, false_and, or_false, iff_false]
        exact fun h => absurd (hun _ hfirst) (h _ hfirst).2
      | replyLost =>
        simp only [reduceCtorEq, false_and, true_and, false_or]
        constructor
        · -- whatever follows the last acknowledgement was not processed
          intro h
          refine List.eq_nil_iff_forall_not_mem.2 fun m hm => ?_
          exact hne m hm (List.mem_singleton.1 (h m (List.mem_cons_of_mem _ hm)).1)
        · rintro rfl m hm
          rw [List.mem_singleton.1 hm]
          exact ⟨List.mem_singleton.2 rfl, not_unacknowledged_xack (hlt _ hfirst)⟩

theorem consumeEntries_lastDelivered :
    (consumeEntries handle ack ackError b state stream).stream.lastDelivered = stream.lastDelivered := by
  induction b generalizing state stream with
  | nil => rfl
  | cons m rest ih =>
    obtain ⟨a, i⟩ := m
    unfold consumeEntries
    split
    · rfl
    · split
      · exact ih
      · rfl
      · rfl

/-- An entry that was acknowledged after it was processed, or that some later read returns. -/
def Recovered (c : Consumed α σ ε) (i : Nat) : Prop :=
  (i ∈ c.processed ∧ ¬ c.stream.Unacknowledged i) ∨
    ∃ later count, Later c.stream later ∧ ∃ m ∈ later.batch count, m.2 = i

/-- A batch is recovered exactly when nothing has raised: no read returns it again. -/
theorem consumeOnce_recovered_iff {consumer : String} {now : Int} {count : Nat} :
    (∀ m ∈ stream.batch count, Recovered (consumeOnce handle ack ackError consumer now count state stream) m.2) ↔
      Undisturbed handle ack (stream.batch count) state := by
  have hlt : ∀ m ∈ stream.batch count, m.2 < (stream.deliverBatch consumer now count).lastDelivered :=
    fun m hm => (mem_batch hm).2.1
  refine Iff.trans ?_ (consumeEntries_settled_iff ackError nodup_batch hlt fun m hm => unacknowledged_deliverBatch hm)
  refine forall₂_congr fun m hm => or_iff_left ?_
  rintro ⟨later, count', hlater, m', hm', he⟩
  have hle := hlater.not_mem_batch hm'
  rw [consumeOnce, consumeEntries_lastDelivered, he] at hle
  exact absurd (hlt m hm) (Nat.not_lt.2 hle)

end Consumer
