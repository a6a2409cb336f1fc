import Mathlib.Data.List.Nodup

/-!
# Relational tables

A table is the list of its rows. `lookup` reads by key, `updateWhere` is `UPDATE .. WHERE`,
and `returning` lists a column of the rows the condition selects. The lemmas say how a
lookup sees an update or an insertion, so that a table can be reasoned about as a map.
-/
namespace Table

variable {ρ κ β : Type} [DecidableEq κ] {key : ρ → κ} {k : κ} {t u : List ρ} {r : ρ} {p : ρ → Bool} {f : ρ → ρ}

def lookup (key : ρ → κ) (k : κ) (t : List ρ) : Option ρ := t.find? fun r => decide (key r = k)

def updateWhere (p : ρ → Bool) (f : ρ → ρ) (t : List ρ) : List ρ := t.map fun r => if p r then f r else r

def returning (p : ρ → Bool) (g : ρ → β) (t : List ρ) : List β := (t.filter p).map g

/-- No two rows have the same key. -/
def Keyed (key : ρ → κ) (t : List ρ) : Prop := (t.map key).Nodup

/-! ## Lookups -/

theorem lookup_some (h : lookup key k t = some r) : r ∈ t ∧ key r = k :=
  ⟨List.mem_of_find?_eq_some h, by simpa using List.find?_some h⟩

theorem lookup_none : lookup key k t = none ↔ ∀ r ∈ t, key r ≠ k := by
  simp [lookup]

theorem Keyed.lookup (h : Keyed key t) (hr : r ∈ t) : Table.lookup key (key r) t = some r := by
  cases hl : Table.lookup key (key r) t with
  | none => exact absurd rfl (lookup_none.1 hl r hr)
  | some r' =>
    obtain ⟨hmem, hkey⟩ := lookup_some hl
    rw [List.inj_on_of_nodup_map h hmem hr hkey]

theorem Keyed.lookup_iff (h : Keyed key t) : Table.lookup key k t = some r ↔ r ∈ t ∧ key r = k :=
  ⟨lookup_some, fun ⟨hr, hk⟩ => hk ▸ h.lookup hr⟩

omit [DecidableEq κ] in
theorem Keyed.ext (h : Keyed key t) {r' : ρ} (hr : r ∈ t) (hr' : r' ∈ t) (hk : key r = key r') : r = r' :=
  List.inj_on_of_nodup_map h hr hr' hk

/-- A condition that fixes the key selects a row exactly when the row of that key satisfies it. -/
theorem Keyed.any_iff (h : Keyed key t) (hp : ∀ r, p r = true → key r = k) :
    t.any p = true ↔ ∃ r, Table.lookup key k t = some r ∧ p r = true := by
  rw [List.any_eq_true]
  constructor
  · rintro ⟨r, hr, hpr⟩
    exact ⟨r, h.lookup_iff.2 ⟨hr, hp r hpr⟩, hpr⟩
  · rintro ⟨r, hr, hpr⟩
    exact ⟨r, (lookup_some hr).1, hpr⟩

/-! ## Insertions -/

theorem lookup_append : lookup key k (t ++ u) = (lookup key k t).or (lookup key k u) := by
  simp [lookup, List.find?_append]

theorem lookup_append_of_some (h : lookup key k t = some r) : lookup key k (t ++ u) = some r := by
  simp [lookup_append, h]

theorem lookup_single : lookup key k [r] = if key r = k then some r else none := by
  by_cases h : key r = k <;> simp [lookup, h]

omit [DecidableEq κ] in
theorem Keyed.append (h : Keyed key t) (hr : ∀ r' ∈ t, key r' ≠ key r) : Keyed key (t ++ [r]) := by
  simp only [Keyed, List.map_append, List.map_cons, List.map_nil]
  refine List.nodup_append.2 ⟨h, by simp, ?_⟩
  intro a ha b hb
  obtain ⟨r', hr', rfl⟩ := List.mem_map.1 ha
  rw [List.mem_singleton.1 hb]
  exact hr r' hr'

/-! ## Updates -/

theorem lookup_updateWhere (hf : ∀ r, key (f r) = key r) :
    lookup key k (updateWhere p f t) = (lookup key k t).map fun r => if p r then f r else r := by
  induction t with
  | nil => rfl
  | cons r t ih =>
    have hkey : key (if p r then f r else r) = key r := by split <;> simp [hf]
    by_cases hk : key r = k
    · simp [lookup, updateWhere, hkey, hk]
    · simpa [lookup, updateWhere, hkey, hk] using ih

theorem map_updateWhere {g : ρ → β} (hg : ∀ r ∈ t, p r = true → g (f r) = g r) :
    (updateWhere p f t).map g = t.map g := by
  rw [updateWhere, List.map_map]
  refine List.map_congr_left fun r hr => ?_
  by_cases hp : p r = true <;> simp [hp]
  exact hg r hr hp

omit [DecidableEq κ] in
theorem Keyed.updateWhere (h : Keyed key t) (hf : ∀ r, key (f r) = key r) :
    Keyed key (updateWhere p f t) := by
  rw [Keyed, map_updateWhere fun r _ _ => hf r]
  exact h

theorem updateWhere_eq_self (h : t.any p = false) : updateWhere p f t = t := by
  rw [updateWhere]
  conv_rhs => rw [← List.map_id t]
  refine List.map_congr_left fun r hr => ?_
  have := List.any_eq_false.1 h r hr
  simp [this]

theorem mem_updateWhere : r ∈ updateWhere p f t ↔ ∃ r₀ ∈ t, r = if p r₀ then f r₀ else r₀ := by
  simp only [updateWhere, List.mem_map, eq_comm]

theorem filter_updateWhere {q : ρ → Bool} (hq : ∀ r, q (f r) = q r) :
    (updateWhere p f t).filter q = updateWhere p f (t.filter q) := by
  induction t with
  | nil => rfl
  | cons r t ih =>
    have hr : q (if p r then f r else r) = q r := by split <;> simp [hq]
    simp only [updateWhere, List.map_cons, List.filter_cons, hr] at ih ⊢
    split <;> simp [ih]

/-- An update whose rows come to satisfy `q` adds them to the rows of `q`. -/
theorem filter_updateWhere_perm {q : ρ → Bool} (hq : ∀ r, p r = true → q r = false ∧ q (f r) = true) :
    ((updateWhere p f t).filter q).Perm (t.filter q ++ (t.filter p).map f) := by
  induction t with
  | nil => exact .refl _
  | cons r t ih =>
    rw [updateWhere, List.map_cons]
    by_cases hp : p r = true
    · simp only [hp, if_true, List.filter_cons, (hq r hp).1, (hq r hp).2, Bool.false_eq_true, if_false, List.map_cons]
      exact (ih.cons _).trans List.perm_middle.symm
    · by_cases hr : q r = true
      · simp only [hp, hr, List.filter_cons, if_true, Bool.false_eq_true, if_false]
        exact ih.cons _
      · simp only [hp, hr, List.filter_cons, Bool.false_eq_true, if_false]
        exact ih

/-- An update away from `q` leaves the rows of `q` alone. -/
theorem filter_updateWhere_of_not {q : ρ → Bool} (hq : ∀ r, p r = true → q r = false ∧ q (f r) = false) :
    (updateWhere p f t).filter q = t.filter q := by
  induction t with
  | nil => rfl
  | cons r t ih =>
    rw [updateWhere, List.map_cons]
    by_cases hp : p r = true
    · simp only [hp, if_true, List.filter_cons, (hq r hp).1, (hq r hp).2, Bool.false_eq_true, if_false]
      exact ih
    · simp only [hp, List.filter_cons, Bool.false_eq_true, if_false]
      rw [← ih]
      rfl

/-- A condition that fixes the key selects one row, if the row of that key satisfies it. -/
theorem Keyed.filter_perm (h : Keyed key t) (hr : Table.lookup key k t = some r) (hp : ∀ r, p r = true → key r = k)
    (hpr : p r = true) : (t.filter p).Perm [r] := by
  refine (List.perm_ext_iff_of_nodup (h.of_map.filter _) (List.nodup_singleton _)).2 fun r' => ?_
  rw [List.mem_filter, List.mem_singleton]
  constructor
  · rintro ⟨hmem, hpr'⟩
    exact h.ext hmem (lookup_some hr).1 ((hp r' hpr').trans (lookup_some hr).2.symm)
  · rintro rfl
    exact ⟨(lookup_some hr).1, hpr⟩

end Table
