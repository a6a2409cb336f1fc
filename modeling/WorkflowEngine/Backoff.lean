import Mathlib.Algebra.Order.Archimedean.Basic
import Mathlib.Data.Rat.Floor
import WorkflowEngine.Guarantees

/-!
# Backoff

The delay before a retry grows by a factor with every attempt and is cut at the cap where the
policy has one. The power is computed before the cap is applied, so its exponent and its value
have to be finite doubles even where nothing but the cap is left of it.
-/
namespace WorkflowEngine

namespace RetryPolicy

/-- `RetryPolicy(..)`, with the checks of `__post_init__` in their order. -/
def create (maxAttempts : Int) (initialDelaySeconds backoffMultiplier : Rat) (maxDelaySeconds : Option Rat) :
    Except PyError RetryPolicy :=
  if hattempts : maxAttempts < 1 then .error (.valueError "max_attempts must be at least one.")
  else if hinitial : initialDelaySeconds < 0 then .error (.valueError "initial_delay_seconds must not be negative.")
  else if hmultiplier : backoffMultiplier < 1 then .error (.valueError "backoff_multiplier must be at least one.")
  else if hcap : maxDelaySeconds.any (fun d => decide (d < 0)) = true then
    .error (.valueError "max_delay_seconds must not be negative.")
  else .ok
    { maxAttempts := maxAttempts.toNat
      initialDelaySeconds := initialDelaySeconds
      backoffMultiplier := backoffMultiplier
      maxDelaySeconds := maxDelaySeconds
      maxAttempts_pos := by omega
      initialDelay_nonneg := not_lt.1 hinitial
      multiplier_ge_one := not_lt.1 hmultiplier
      maxDelay_nonneg := fun d hd => by simpa [Option.mem_def.1 hd] using hcap }

variable {policy : RetryPolicy} {cap d : Rat} {m n : Int}

/-- `__post_init__` accepts exactly the policies. -/
theorem create_self (policy : RetryPolicy) :
    create policy.maxAttempts policy.initialDelaySeconds policy.backoffMultiplier
    policy.maxDelaySeconds = .ok policy := by
  have hattempts : ¬ (policy.maxAttempts : Int) < 1 := by
    have := policy.maxAttempts_pos
    omega
  have hcap : ¬ policy.maxDelaySeconds.any (fun d => decide (d < 0)) = true := by
    cases hmax : policy.maxDelaySeconds with
    | none => simp
    | some cap => simpa using policy.maxDelay_nonneg cap hmax
  rw [create, dif_neg hattempts, dif_neg (not_lt.2 policy.initialDelay_nonneg),
    dif_neg (not_lt.2 policy.multiplier_ge_one), dif_neg hcap]
  simp

/-- An accepted policy holds the arguments as they were given. -/
theorem of_create {maxAttempts : Int} {initialDelaySeconds backoffMultiplier : Rat} {maxDelaySeconds : Option Rat}
    (h : create maxAttempts initialDelaySeconds backoffMultiplier maxDelaySeconds = .ok policy) :
    (policy.maxAttempts : Int) = maxAttempts ∧ policy.initialDelaySeconds = initialDelaySeconds ∧
      policy.backoffMultiplier = backoffMultiplier ∧ policy.maxDelaySeconds = maxDelaySeconds := by
  unfold create at h
  split at h
  · cases h
  · rename_i hattempts
    split at h
    · cases h
    · split at h
      · cases h
      · split at h
        · cases h
        · cases h
          exact ⟨Int.toNat_of_nonneg (by omega), rfl, rfl, rfl⟩

/-- The factor by which the first delay has grown before the retry of attempt `n`. -/
def growth (policy : RetryPolicy) (n : Int) : Rat := policy.backoffMultiplier ^ (n - 1).toNat

/-- The delay in exact arithmetic. -/
def exactDelay (policy : RetryPolicy) (n : Int) : Rat :=
  match policy.maxDelaySeconds with
  | none => policy.initialDelaySeconds * policy.growth n
  | some cap => min (policy.initialDelaySeconds * policy.growth n) cap

theorem one_le_growth : 1 ≤ policy.growth n := one_le_pow₀ policy.multiplier_ge_one

theorem growth_mono (h : m ≤ n) : policy.growth m ≤ policy.growth n :=
  pow_le_pow_right₀ policy.multiplier_ge_one (Int.toNat_le_toNat (by omega))

theorem exactDelay_of_cap (hcap : policy.maxDelaySeconds = some cap) :
    policy.exactDelay n = min (policy.initialDelaySeconds * policy.growth n) cap := by
  simp [exactDelay, hcap]

theorem exactDelay_mono (h : m ≤ n) : policy.exactDelay m ≤ policy.exactDelay n := by
  have hbackoff : policy.initialDelaySeconds * policy.growth m ≤ policy.initialDelaySeconds * policy.growth n :=
    mul_le_mul_of_nonneg_left (growth_mono h) policy.initialDelay_nonneg
  unfold exactDelay
  split
  · exact hbackoff
  · exact min_le_min_right _ hbackoff

theorem exactDelay_nonneg : 0 ≤ policy.exactDelay n := by
  have hbackoff : 0 ≤ policy.initialDelaySeconds * policy.growth n :=
    mul_nonneg policy.initialDelay_nonneg (zero_le_one.trans one_le_growth)
  unfold exactDelay
  split
  · exact hbackoff
  · exact le_min hbackoff (policy.maxDelay_nonneg _ ‹_›)

/-- `pow` returns: the exponent and the value are finite doubles. -/
structure FinitePower (base : Rat) (exponent : Nat) : Prop where
  double : (exponent : Rat) < intOverflow
  value : base ^ exponent ≤ maxDouble

theorem pow_eq_ok {base q : Rat} {k : Nat} : pow base k = .ok q ↔ FinitePower base k ∧ q = base ^ k := by
  unfold pow
  split
  · rename_i hlarge
    exact ⟨nofun, fun h => absurd h.1.double (not_lt.2 hlarge)⟩
  · rename_i hsmall
    split
    · rename_i hlt
      exact ⟨nofun, fun h => absurd h.1.value (not_le.2 hlt)⟩
    · rename_i hle
      exact ⟨fun h => ⟨⟨not_le.1 hsmall, not_lt.1 hle⟩, (Except.ok.inj h).symm⟩, fun h => by rw [h.2]⟩

theorem FinitePower.mono {base : Rat} {j k : Nat} (hbase : 1 ≤ base) (h : FinitePower base k) (hle : j ≤ k) :
    FinitePower base j :=
  ⟨(Nat.cast_le.2 hle).trans_lt h.double, (pow_le_pow_right₀ hbase hle).trans h.value⟩

/-- `delay_for` returns the exact delay or nothing. -/
theorem delayFor_eq_ok : policy.delayFor n = .ok d ↔
    1 ≤ n ∧ FinitePower policy.backoffMultiplier (n - 1).toNat ∧ d = policy.exactDelay n := by
  unfold delayFor
  split
  · rename_i hlt
    simp [not_le.2 hlt]
  · rename_i hle
    rw [Except.bind_eq_ok]
    constructor
    · rintro ⟨power, hpow, hd⟩
      obtain ⟨hfinite, rfl⟩ := pow_eq_ok.1 hpow
      exact ⟨not_lt.1 hle, hfinite, (Except.ok.inj hd).symm⟩
    · rintro ⟨-, hfinite, rfl⟩
      exact ⟨_, pow_eq_ok.2 ⟨hfinite, rfl⟩, rfl⟩

/-- The law of a capped backoff at attempt `n`. -/
structure Capped (policy : RetryPolicy) (cap : Rat) (n : Int) (d : Rat) : Prop where
  returns : policy.delayFor n = .ok d
  least : d = min (policy.initialDelaySeconds * policy.backoffMultiplier ^ (n - 1).toNat) cap
  nonneg : 0 ≤ d
  le_cap : d ≤ cap
  mono : ∀ m d', 1 ≤ m → m ≤ n → policy.delayFor m = .ok d' → d' ≤ d

theorem capped_iff (hcap : policy.maxDelaySeconds = some cap) (hn : 1 ≤ n) :
    (∃ d, policy.Capped cap n d) ↔ FinitePower policy.backoffMultiplier (n - 1).toNat := by
  constructor
  · rintro ⟨d, h⟩
    exact (delayFor_eq_ok.1 h.returns).2.1
  · intro hfinite
    have hexact : policy.exactDelay n = min (policy.initialDelaySeconds * policy.growth n) cap :=
      exactDelay_of_cap hcap
    exact ⟨policy.exactDelay n,
      { returns := delayFor_eq_ok.2 ⟨hn, hfinite, rfl⟩
        least := hexact
        nonneg := exactDelay_nonneg
        le_cap := hexact ▸ min_le_right _ _
        mono := fun m d' _ hm hd' => (delayFor_eq_ok.1 hd').2.2 ▸ exactDelay_mono hm }⟩

theorem maxDouble_between : 2 ^ 1023 ≤ maxDouble ∧ maxDouble < 2 ^ 1024 := by
  have hlow : (2 : Rat) ^ 1023 = 2 ^ 52 * 2 ^ 971 := by rw [← pow_add]
  have hhigh : (2 : Rat) ^ 1024 = 2 ^ 53 * 2 ^ 971 := by rw [← pow_add]
  have hpos : (0 : Rat) < 2 ^ 971 := pow_pos (by norm_num) _
  constructor
  · rw [hlow]
    exact mul_le_mul_of_nonneg_right (by norm_num) hpos.le
  · rw [hhigh]
    exact mul_lt_mul_of_pos_right (by norm_num) hpos

theorem lt_intOverflow {k : Nat} (h : k ≤ 2 ^ 20) : (k : Rat) < intOverflow := by
  have hcast : (k : Rat) ≤ 2 ^ 20 := by exact_mod_cast h
  calc (k : Rat) ≤ 2 ^ 20 := hcast
    _ ≤ 2 ^ 1023 := pow_le_pow_right₀ (by norm_num) (by decide)
    _ ≤ maxDouble := maxDouble_between.1
    _ < intOverflow := lt_add_of_pos_right _ (pow_pos (by norm_num) _)

/-- No power is finite at all attempts. -/
theorem exists_not_finitePower (base : Rat) : ∃ n : Int, 1 ≤ n ∧ ¬ FinitePower base (n - 1).toNat := by
  obtain ⟨k, hk⟩ := exists_nat_ge intOverflow
  refine ⟨k + 1, by omega, fun h => ?_⟩
  have hdouble := h.double
  rw [add_sub_cancel_right, Int.toNat_natCast] at hdouble
  exact absurd hdouble (not_lt.2 hk)

/-- A capped backoff obeys its law at an attempt exactly if the power is finite there: for all the
attempts a policy admits exactly if it is finite at the last of them, and never for all numbers. -/
theorem capped_backoff_iff (policy : RetryPolicy) (maxAttempts : Int) (initialDelaySeconds backoffMultiplier cap : Rat)
    (h : create maxAttempts initialDelaySeconds backoffMultiplier (some cap) = .ok policy) :
    (∀ n, 1 ≤ n → ((∃ d, policy.Capped cap n d) ↔ FinitePower backoffMultiplier (n - 1).toNat)) ∧
    ((∀ n, 1 ≤ n → n ≤ maxAttempts → ∃ d, policy.Capped cap n d) ↔
      FinitePower backoffMultiplier (maxAttempts - 1).toNat) ∧
    ¬ ∀ n, 1 ≤ n → ∃ d, policy.Capped cap n d := by
  obtain ⟨hattempts, -, rfl, hcap⟩ := of_create h
  have hpos : 1 ≤ maxAttempts := by
    have := policy.maxAttempts_pos
    omega
  refine ⟨fun n hn => capped_iff hcap hn, ⟨fun hall => ?_, fun hlast n hn hle => ?_⟩, fun hall => ?_⟩
  · exact (capped_iff hcap hpos).1 (hall maxAttempts hpos le_rfl)
  · exact (capped_iff hcap hn).2 (hlast.mono policy.multiplier_ge_one (Int.toNat_le_toNat (by omega)))
  · obtain ⟨n, hn, hinfinite⟩ := exists_not_finitePower policy.backoffMultiplier
    exact hinfinite ((capped_iff hcap hn).1 (hall n hn))

/-- 1100 attempts with a delay that doubles, up to ten seconds. -/
def doubling : RetryPolicy :=
  { System.sampleConfig.policy with
    maxAttempts := 1100
    maxDelaySeconds := some 10
    maxAttempts_pos := by decide
    maxDelay_nonneg := by simp }

theorem capped_backoff_iff_doubling :
    create 1100 1 2 (some 10) = .ok doubling ∧ ∃ d, doubling.Capped 10 1024 d :=
  ⟨create_self doubling, ((capped_backoff_iff doubling 1100 1 2 10 (create_self doubling)).1 1024 (by decide)).2
    ⟨lt_intOverflow (by norm_num), maxDouble_between.1⟩⟩

/-- The retry of attempt 1025 raises although the delay would be the cap. -/
theorem capped_backoff_counterexample :
    doubling.delayFor 1025 = .error (.overflowError "math range error") ∧
    min (doubling.initialDelaySeconds * doubling.backoffMultiplier ^ (1025 - 1 : Int).toNat) 10 = 10 ∧
    ¬ ∀ (policy : RetryPolicy) (cap : Rat), policy.maxDelaySeconds = some cap →
      ∀ n : Int, 1 ≤ n → n ≤ policy.maxAttempts → ∃ d, policy.Capped cap n d := by
  have hraises : doubling.delayFor 1025 = .error (.overflowError "math range error") := by
    have hpow :
        pow System.sampleConfig.policy.backoffMultiplier 1024 = .error (.overflowError "math range error") := by
      change pow 2 1024 = _
      rw [pow, if_neg (not_le.2 (lt_intOverflow (by norm_num))), if_pos maxDouble_between.2]
    simp [delayFor, doubling, hpow, bind, Except.bind]
  refine ⟨hraises, ?_, fun hall => ?_⟩
  · have hexponent : (1025 - 1 : Int).toNat = 1024 := rfl
    rw [hexponent]
    change min (1 * 2 ^ 1024 : Rat) 10 = 10
    rw [one_mul]
    refine min_eq_right ?_
    calc (10 : Rat) ≤ 2 ^ 4 := by norm_num
      _ ≤ 2 ^ 1024 := pow_le_pow_right₀ (by norm_num) (by decide)
  · obtain ⟨d, h⟩ := hall doubling 10 rfl 1025 (by decide) (by decide)
    rw [h.returns] at hraises
    cases hraises

/-! ## The instant of a retry -/

/-- The delay in microseconds, rounded as `timedelta` rounds it. -/
def delayMicros (policy : RetryPolicy) (n : Int) : Int := roundHalfEven (policy.exactDelay n * 1000000)

/-- The next retry has an instant: the attempt has a number, the power is finite, and neither
the delay nor the instant leaves the range of its type. -/
structure Schedulable (policy : RetryPolicy) (now : Time) (n : Int) : Prop where
  numbered : 1 ≤ n
  finite : FinitePower policy.backoffMultiplier (n - 1).toNat
  delay : (policy.delayMicros n).natAbs < 1000000000 * 86400 * 1000000
  instant : now + policy.delayMicros n ≤ datetimeMax

theorem retryAt_ok_iff {now : Time} : (∃ at', retryAt policy now n = .ok at') ↔ policy.Schedulable now n := by
  constructor
  · rintro ⟨at', h⟩
    obtain ⟨d, hd, h⟩ := Except.bind_eq_ok.1 h
    obtain ⟨delta, hdelta, h⟩ := Except.bind_eq_ok.1 h
    obtain ⟨hn, hfinite, rfl⟩ := delayFor_eq_ok.1 hd
    simp only [timedelta] at hdelta
    split at hdelta
    · cases hdelta
    · rename_i hrange
      cases hdelta
      split at h
      · cases h
      · rename_i hmax
        exact ⟨hn, hfinite, Nat.not_le.1 hrange, Int.not_lt.1 hmax⟩
  · rintro ⟨hn, hfinite, hrange, hmax⟩
    have hdelta : timedelta (policy.exactDelay n) = .ok (policy.delayMicros n) := if_neg (Nat.not_le.2 hrange)
    refine ⟨now + policy.delayMicros n, Except.bind_eq_ok.2 ⟨_, delayFor_eq_ok.2 ⟨hn, hfinite, rfl⟩, ?_⟩⟩
    exact Except.bind_eq_ok.2 ⟨_, hdelta, if_neg (Int.not_lt.2 hmax)⟩

end RetryPolicy

end WorkflowEngine
