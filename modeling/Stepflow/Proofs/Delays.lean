import Stepflow.Config
import Stepflow.Proofs.Rounding

/-!
# Delays never shrink

The delay after a failure lies between the base delay after it and the one after the next, and base
delays double up to a minute. So the waits between the tries of a step never shrink, whatever is added to
them at random, and the configuration can only cut them. This is so where the reckoning is exact, and
stays so where every operation is rounded as floating-point numbers are (`Precise`): a delay is a whole
number of nanoseconds, and seconds in floating-point numbers are fine enough to give it back.

The reckoning starts from numbers that may be infinite or none at all, and ends in a conversion that
takes neither, nor anything below zero. `Extended` has all of them, so that it can be said that no
conversion ever meets one (`baseDelay?_eq`, `delay?_eq`, `retryCap?_eq`).
-/

namespace Stepflow

open Decimal

namespace Retry

variable {round : Rat → Rat} {x y : Rat} {m n : Nat}

theorem nanosPerSecond_cast : (nanosPerSecond : Rat) = 10 ^ 9 := by norm_num [nanosPerSecond]

theorem lesser_eq_min (x y : Rat) : lesser x y = min x y := (min_def x y).symm

theorem greater_eq_max (x y : Rat) : greater x y = max x y := (max_def x y).symm

/-! ## Nanoseconds and seconds -/

theorem nanosOf_mono (hx : 0 ≤ x) (h : x ≤ y) : nanosOf x ≤ nanosOf y :=
  roundHalfEven_mono (by positivity) (by gcongr)

/-- Whole nanoseconds are found again if their seconds are known up to less than half a nanosecond. -/
theorem nanosOf_eq (hx : 0 ≤ x) (h : |x - n / 10 ^ 9| < 1 / (2 * 10 ^ 9)) : nanosOf x = n := by
  refine roundHalfEven_eq (by positivity) ?_
  rw [nanosPerSecond_cast]
  rw [abs_lt] at h ⊢
  constructor <;> linarith

theorem le_nanosOf (hx : 0 ≤ x) (h : (n : Rat) / 10 ^ 9 - 1 / (2 * 10 ^ 9) < x) : n ≤ nanosOf x := by
  refine le_roundHalfEven (by positivity) ?_
  rw [nanosPerSecond_cast]
  linarith

/-- Seconds are whole seconds and the rest. -/
theorem seconds_split (n : Nat) : (n : Rat) / 10 ^ 9 =
    (n / nanosPerSecond : Nat) + (n % nanosPerSecond : Nat) / nanosPerSecond := by
  have hdiv : ((n / nanosPerSecond : Nat) : Rat) * 10 ^ 9 + (n % nanosPerSecond : Nat) = n := by
    rw [← nanosPerSecond_cast]
    exact_mod_cast Nat.div_add_mod' n nanosPerSecond
  rw [nanosPerSecond_cast, div_eq_iff (by positivity), add_mul, div_mul_cancel₀ _ (by positivity), hdiv]

theorem secondsOf_id (n : Nat) : secondsOf id n = n / 10 ^ 9 := (seconds_split n).symm

/-- A whole number of seconds. -/
theorem nanosOf_natCast (n : Nat) : nanosOf n = n * nanosPerSecond := by
  refine roundHalfEven_eq (by positivity) ?_
  push_cast
  rw [sub_self, abs_zero]
  positivity

/-! ## Base delays -/

/-- The seconds of a base delay do not shrink. -/
theorem baseSeconds_mono (backoff : Rat) {a b : Nat} (h : a ≤ b) :
    baseSeconds backoff a ≤ baseSeconds backoff b := by
  have hpow : (Nat.pow 2 (min (a - 1) 32) : Rat) ≤ Nat.pow 2 (min (b - 1) 32) :=
    Nat.cast_le.2 (Nat.pow_le_pow_right (by decide) (by omega))
  rw [baseSeconds, baseSeconds, lesser_eq_min, lesser_eq_min, greater_eq_max]
  gcongr

theorem baseSeconds_nonneg (backoff : Rat) (a : Nat) : 0 ≤ baseSeconds backoff a := by
  rw [baseSeconds, lesser_eq_min, greater_eq_max]
  positivity

theorem baseSeconds_le (backoff : Rat) (a : Nat) : baseSeconds backoff a ≤ capSeconds := by
  rw [baseSeconds, lesser_eq_min]
  exact min_le_right _ _

/-! ## Precise rounding -/

/-- **Rounding that is precise enough for delays**: fractions that are not negative stay so, and those
of 100 at most are off by very little. -/
structure Precise (round : Rat → Rat) : Prop where
  nonneg : ∀ x, 0 ≤ x → x ≤ 100 → 0 ≤ round x
  near : ∀ x, 0 ≤ x → x ≤ 100 → |round x - x| ≤ 1 / 10 ^ 13

theorem precise_id : Precise id where
  nonneg _ h _ := h
  near x _ _ := by rw [id, sub_self, abs_zero]; positivity

theorem precise_nearest : Precise Binary.nearest where
  nonneg _ h hle := (Binary.nearest_near h (hle.trans (by norm_num))).1
  near _ h hle := (Binary.nearest_near h (hle.trans (by norm_num))).2.trans (by norm_num)

namespace Precise

theorem bounds (hr : Precise round) (hx : 0 ≤ x) (hle : x ≤ 100) :
    0 ≤ round x ∧ x - 1 / 10 ^ 13 ≤ round x ∧ round x ≤ x + 1 / 10 ^ 13 := by
  have hnear := abs_le.1 (hr.near x hx hle)
  exact ⟨hr.nonneg x hx hle, by linarith, by linarith⟩

/-- The seconds of a delay are known with precision. -/
theorem secondsOf_near (hr : Precise round) (hn : n ≤ cap) :
    0 ≤ secondsOf round n ∧ |secondsOf round n - n / 10 ^ 9| ≤ 2 / 10 ^ 13 := by
  have hwhole : ((n / nanosPerSecond : Nat) : Rat) ≤ 60 := by
    have : n / nanosPerSecond ≤ 60 := Nat.div_le_of_le_mul (by rwa [cap, Nat.mul_comm] at hn)
    exact_mod_cast this
  have hrest : ((n % nanosPerSecond : Nat) : Rat) / nanosPerSecond ≤ 1 := by
    rw [div_le_one (by rw [nanosPerSecond_cast]; positivity)]
    exact Nat.cast_le.2 (Nat.mod_lt n (by decide)).le
  obtain ⟨hnonneg, hge, hle⟩ := hr.bounds (by positivity) (hrest.trans (by norm_num))
  obtain ⟨hnonneg', hge', hle'⟩ := hr.bounds (x := (n / nanosPerSecond : Nat) +
    round ((n % nanosPerSecond : Nat) / nanosPerSecond)) (by positivity) (by linarith)
  refine ⟨hnonneg', ?_⟩
  rw [secondsOf, seconds_split, abs_le]
  constructor <;> linarith

/-- What is added at random is not below zero, and less than the seconds themselves leave room for. -/
theorem added_bounds (hr : Precise round) (hx : 0 ≤ x) (hle : x ≤ 61) (share : Rat) :
    0 ≤ round (round (x * round jitterShare) * greater 0 (lesser share 1)) ∧
      round (round (x * round jitterShare) * greater 0 (lesser share 1)) ≤ 15 := by
  have hshare : greater 0 (lesser share 1) ∈ Set.Icc 0 1 := by
    rw [greater_eq_max, lesser_eq_min]
    exact ⟨le_max_left _ _, max_le zero_le_one (min_le_right _ _)⟩
  obtain ⟨htenth, -, htenthLe⟩ : 0 ≤ round jitterShare ∧ _ ∧ round jitterShare ≤ _ :=
    hr.bounds (by norm_num [jitterShare]) (by norm_num [jitterShare])
  have htenthLe : round jitterShare ≤ 1 / 5 := htenthLe.trans (by norm_num [jitterShare])
  have hpart : x * round jitterShare ≤ 61 * (1 / 5) := by gcongr
  obtain ⟨hpartNonneg, -, hpartLe⟩ := hr.bounds (mul_nonneg hx htenth) (hpart.trans (by norm_num))
  have hpartLe : round (x * round jitterShare) ≤ 14 := by linarith
  have hproduct : round (x * round jitterShare) * greater 0 (lesser share 1) ≤ 14 * 1 :=
    mul_le_mul hpartLe hshare.2 hshare.1 (by norm_num)
  obtain ⟨hnonneg, -, haddedLe⟩ := hr.bounds (mul_nonneg hpartNonneg hshare.1)
    (hproduct.trans (by norm_num))
  exact ⟨hnonneg, by linarith⟩

/-- **Delays survive the way to seconds and back.** -/
theorem nanosOf_secondsOf (hr : Precise round) (hn : n ≤ cap) : nanosOf (secondsOf round n) = n := by
  obtain ⟨hnonneg, hnear⟩ := hr.secondsOf_near hn
  exact nanosOf_eq hnonneg (hnear.trans_lt (by norm_num))

end Precise

end Retry

namespace RetryPolicy

open Retry

variable {p : RetryPolicy} {round : Rat → Rat} {a b : Nat}

/-- **Base delays do not shrink.** -/
theorem baseDelay_mono (h : a ≤ b) : p.baseDelay a ≤ p.baseDelay b := by
  unfold baseDelay
  split_ifs
  · exact Nat.le_refl _
  · exact Nat.le_refl _
  · exact Nat.le_refl _
  · exact nanosOf_mono (baseSeconds_nonneg _ _) (baseSeconds_mono _ h)

/-- **And stay under the cap.** -/
theorem baseDelay_le_cap : p.baseDelay a ≤ cap := by
  unfold baseDelay
  split_ifs
  · exact Nat.zero_le _
  · exact Nat.le_refl _
  · exact Nat.zero_le _
  · exact (nanosOf_mono (baseSeconds_nonneg _ _) (baseSeconds_le _ _)).trans_eq (nanosOf_natCast _)

/-! ## Delays between base delays -/

/-- **A delay lies between two base delays**, for any share of the addition. -/
theorem delayWith_between (hr : Precise round) (a : Nat) (share : Rat) :
    p.baseDelay a ≤ p.delayWith round a share ∧ p.delayWith round a share ≤ p.baseDelay (a + 1) := by
  obtain ⟨hbase, hbaseNear⟩ := hr.secondsOf_near (p.baseDelay_le_cap (a := a))
  obtain ⟨hceiling, hceilingNear⟩ := hr.secondsOf_near (p.baseDelay_le_cap (a := a + 1))
  rw [abs_le] at hbaseNear hceilingNear
  have hcap : (p.baseDelay a : Rat) ≤ 60 * 10 ^ 9 := by
    have hle : (p.baseDelay a : Rat) ≤ cap := Nat.cast_le.2 p.baseDelay_le_cap
    exact hle.trans_eq (by norm_num [cap, capSeconds, nanosPerSecond])
  have hnext : (p.baseDelay a : Rat) ≤ p.baseDelay (a + 1) :=
    Nat.cast_le.2 (p.baseDelay_mono (Nat.le_succ a))
  obtain ⟨hadded, haddedLe⟩ := hr.added_bounds hbase (by linarith) share
  obtain ⟨hsum, hsumGe, -⟩ := hr.bounds (add_nonneg hbase hadded) (by linarith)
  rw [delayWith, lesser_eq_min]
  constructor
  · exact le_nanosOf (le_min hsum hceiling) (lt_min (by linarith) (by linarith))
  · calc nanosOf _
      _ ≤ nanosOf (secondsOf round (p.baseDelay (a + 1))) :=
        nanosOf_mono (le_min hsum hceiling) (min_le_right _ _)
      _ = p.baseDelay (a + 1) := hr.nanosOf_secondsOf p.baseDelay_le_cap

/-- And so does the delay for a share that is a floating-point number, whatever it is. -/
theorem delay_between (a : Nat) (share : Float) :
    p.baseDelay a ≤ p.delay a share ∧ p.delay a share ≤ p.baseDelay (a + 1) := by
  unfold delay
  split_ifs
  · rw [precise_nearest.nanosOf_secondsOf p.baseDelay_le_cap]
    exact ⟨p.baseDelay_mono (Nat.le_succ a), Nat.le_refl _⟩
  · exact delayWith_between precise_nearest a 1
  · exact delayWith_between precise_nearest a 0
  · exact delayWith_between precise_nearest a _

end RetryPolicy

/-! ## The cap of a configuration -/

/-- **A configuration can only lower the cap.** -/
theorem Config.retryCap_le (c : Config) : c.retryCap ≤ Retry.cap := by
  unfold retryCap
  dsimp only
  split_ifs with _ hneg
  · exact Nat.le_refl _
  · exact Nat.le_refl _
  · rw [Retry.lesser_eq_min]
    have hnonneg : (0 : Rat) ≤ min (Binary.ofFloat c.maxRetryDelay).toRat Retry.capSeconds :=
      le_min (not_lt.1 hneg) (by positivity)
    exact (Retry.nanosOf_mono hnonneg (min_le_right _ _)).trans_eq (Retry.nanosOf_natCast _)

/-! ## Conversions -/

/-- A number that a reckoning may start from: a fraction, infinite, or no number at all. -/
inductive Extended where
  | fraction (x : Rat)
  | infinite (negative : Bool)
  | nan

namespace Extended

open Retry

/-- What a floating-point number is exactly. -/
def ofFloat (x : Float) : Extended :=
  if x.isNaN then .nan
  else if x.isInf then .infinite (!decide (0 < x))
  else .fraction (Binary.ofFloat x).toRat

/-- The greater of a number and a bound; the bound, if it is no number. -/
def atLeast (bound : Rat) : Extended → Extended
  | .fraction x => .fraction (greater x bound)
  | .infinite true => .fraction bound
  | .infinite false => .infinite false
  | .nan => .fraction bound

/-- The smaller of a number and a bound; the bound, if it is no number. -/
def atMost (bound : Rat) : Extended → Extended
  | .fraction x => .fraction (lesser x bound)
  | .infinite true => .infinite true
  | .infinite false => .fraction bound
  | .nan => .fraction bound

/-- The product with a fraction above zero. -/
def times (factor : Rat) : Extended → Extended
  | .fraction x => .fraction (x * factor)
  | .infinite negative => .infinite negative
  | .nan => .nan

/-- **The conversion of seconds** to nanoseconds. It takes fractions that are not negative and have less
than 64 binary digits before the point, and nothing else. -/
def toNanos? : Extended → Option Nat
  | .fraction x => if 0 ≤ x ∧ x < 2 ^ 64 then some (nanosOf x) else none
  | .infinite _ => none
  | .nan => none

/-- The base delay after `attempt` failures, if its conversion takes what it is given. -/
def baseDelay? (backoff : Extended) (attempt : Nat) : Option Nat :=
  (((backoff.atLeast 0).times (Nat.pow 2 (min (attempt - 1) 32))).atMost capSeconds).toNanos?

/-- The greatest number of failures that is counted. -/
def lastAttempt : Nat := UInt32.size - 1

/-- The delay after `attempt` failures, if all conversions take what they are given. -/
def delay? (backoff : Extended) (attempt : Nat) (share : Rat) : Option Nat := do
  let base ← backoff.baseDelay? attempt
  let ceiling ← backoff.baseDelay? (min (attempt + 1) lastAttempt)
  let seconds : Rat := base / 10 ^ 9
  let added := seconds * jitterShare * greater 0 (lesser share 1)
  toNanos? (.fraction (lesser (seconds + added) (ceiling / 10 ^ 9)))

/-- The cap that a limit in seconds stands for, if its conversion takes what it is given. -/
def retryCap? (limit : Extended) : Option Nat :=
  match limit with
  | .fraction x => if 0 ≤ x then (limit.atMost capSeconds).toNanos? else toNanos? (.fraction capSeconds)
  | .infinite _ | .nan => toNanos? (.fraction capSeconds)

/-- Up to the cap every conversion is possible. -/
theorem toNanos?_of_le {x : Rat} (hx : 0 ≤ x) (h : x ≤ capSeconds) :
    toNanos? (.fraction x) = some (nanosOf x) := by
  have hcap : (capSeconds : Rat) < 2 ^ 64 := by norm_num [capSeconds]
  exact if_pos ⟨hx, h.trans_lt hcap⟩

theorem toNanos?_cap : toNanos? (.fraction capSeconds) = some cap := by
  rw [toNanos?_of_le (by positivity) (le_refl _), nanosOf_natCast, cap]

/-- **The base delay is always there.** -/
theorem baseDelay?_eq (p : RetryPolicy) (a : Nat) :
    baseDelay? (ofFloat p.backoff) a = some (p.baseDelay a) := by
  have hzero : toNanos? (.fraction (lesser (0 * (Nat.pow 2 (min (a - 1) 32) : Nat)) capSeconds)) =
      some 0 := by
    have hmin : lesser (0 * (Nat.pow 2 (min (a - 1) 32) : Nat)) capSeconds = (0 : Nat) := by
      rw [lesser_eq_min, zero_mul, min_eq_left (by positivity), Nat.cast_zero]
    rw [hmin, toNanos?_of_le (by positivity) (by positivity), nanosOf_natCast, Nat.zero_mul]
  unfold baseDelay? ofFloat RetryPolicy.baseDelay
  split_ifs with hnan hinf hpos
  · exact hzero
  · rw [decide_eq_true hpos]
    exact toNanos?_cap
  · rw [decide_eq_false hpos]
    exact hzero
  · exact toNanos?_of_le (baseSeconds_nonneg _ a) (baseSeconds_le _ a)

/-- The delay after the last failure that is counted is that after the one before. -/
theorem baseDelay_saturated (p : RetryPolicy) {a : Nat} (h : a ≤ lastAttempt) :
    p.baseDelay (min (a + 1) lastAttempt) = p.baseDelay (a + 1) := by
  have hlast : 34 ≤ lastAttempt := by decide
  have hexponent : min (min (a + 1) lastAttempt - 1) 32 = min (a + 1 - 1) 32 := by omega
  unfold RetryPolicy.baseDelay baseSeconds
  rw [hexponent]

/-- **So is the delay**, and it is the one that is reckoned exactly. -/
theorem delay?_eq (p : RetryPolicy) {a : Nat} (h : a ≤ lastAttempt) (share : Rat) :
    delay? (ofFloat p.backoff) a share = some (p.delayWith id a share) := by
  have hbase : (0 : Rat) ≤ p.baseDelay a / 10 ^ 9 := by positivity
  have hceiling : (p.baseDelay (a + 1) : Rat) / 10 ^ 9 ≤ capSeconds := by
    rw [div_le_iff₀ (by positivity), ← nanosPerSecond_cast]
    exact_mod_cast p.baseDelay_le_cap
  have hshare : 0 ≤ greater 0 (lesser share 1) := by
    rw [greater_eq_max]
    exact le_max_left _ _
  have hadded : 0 ≤ (p.baseDelay a : Rat) / 10 ^ 9 * jitterShare * greater 0 (lesser share 1) :=
    mul_nonneg (mul_nonneg hbase (by norm_num [jitterShare])) hshare
  simp only [delay?, baseDelay?_eq, baseDelay_saturated p h, RetryPolicy.delayWith, secondsOf_id, id,
    Option.bind_eq_bind, Option.bind_some]
  refine toNanos?_of_le ?_ ?_
  · rw [lesser_eq_min]
    exact le_min (add_nonneg hbase hadded) (by positivity)
  · rw [lesser_eq_min]
    exact (min_le_right _ _).trans hceiling

/-- **And so is the cap.** -/
theorem retryCap?_eq (c : Config) : retryCap? (ofFloat c.maxRetryDelay) = some c.retryCap := by
  unfold ofFloat Config.retryCap
  cases c.maxRetryDelay.isNaN with
  | true =>
    rw [if_pos rfl, Bool.true_or, if_pos rfl]
    exact toNanos?_cap
  | false =>
    rw [if_neg Bool.false_ne_true, Bool.false_or]
    cases c.maxRetryDelay.isInf with
    | true =>
      rw [if_pos rfl, if_pos rfl]
      exact toNanos?_cap
    | false =>
      rw [if_neg Bool.false_ne_true, if_neg Bool.false_ne_true]
      dsimp only
      by_cases hneg : (Binary.ofFloat c.maxRetryDelay).toRat < 0
      · rw [if_pos hneg, retryCap?, if_neg (not_le.2 hneg)]
        exact toNanos?_cap
      · have hnonneg := not_lt.1 hneg
        rw [if_neg hneg, retryCap?, if_pos hnonneg, atMost, lesser_eq_min]
        exact toNanos?_of_le (le_min hnonneg (by positivity)) (min_le_right _ _)

end Extended

/-! ## Waits -/

open Retry Extended

/-- **The delays of a policy grow**: from base delay to base delay, and so do the waits that a
configuration makes of them. -/
structure Grows (p : RetryPolicy) (c : Config) (delay : Nat → Nat) : Prop where
  base_le : ∀ a, 1 ≤ a → p.baseDelay a ≤ delay a
  le_base : ∀ a, 1 ≤ a → delay a ≤ p.baseDelay (a + 1)
  wait_mono : ∀ a b, 1 ≤ a → a ≤ b → min (delay a) c.retryCap ≤ min (delay b) c.retryCap
  wait_le : ∀ a, min (delay a) c.retryCap ≤ c.retryCap

theorem grows_of_between {p : RetryPolicy} {c : Config} {delay : Nat → Nat}
    (h : ∀ a, p.baseDelay a ≤ delay a ∧ delay a ≤ p.baseDelay (a + 1)) : Grows p c delay where
  base_le a _ := (h a).1
  le_base a _ := (h a).2
  wait_mono a b _ hab := by
    obtain rfl | hlt := hab.eq_or_lt
    · exact Nat.le_refl _
    · have hle : delay a ≤ delay b := calc delay a
        _ ≤ p.baseDelay (a + 1) := (h a).2
        _ ≤ p.baseDelay b := p.baseDelay_mono hlt
        _ ≤ delay b := (h b).1
      exact min_le_min_right _ hle
  wait_le _ := min_le_right _ _

/-- **Waits never shrink and stay capped.** For every policy and every configuration, and whatever is
added at random, every delay lies between the base delay after the same failure and the one after the
next, all under a minute; so the waits do not shrink from one failure to the next, nor exceed the cap of
the configuration, itself a minute at most. And no conversion is ever given a number that it does not
take. It is so for delays that are reckoned exactly, and for those that a program reckons. -/
theorem waits_grow (p : RetryPolicy) (c : Config) :
    (∀ share : Nat → Rat, Grows p c fun a => p.delayWith id a (share a)) ∧
    (∀ share : Nat → Float, Grows p c fun a => p.delay a (share a)) ∧
    (∀ a, p.baseDelay a ≤ cap) ∧ c.retryCap ≤ cap ∧
    (∀ a, baseDelay? (ofFloat p.backoff) a = some (p.baseDelay a)) ∧
    (∀ a ≤ lastAttempt, ∀ share, delay? (ofFloat p.backoff) a share = some (p.delayWith id a share)) ∧
    retryCap? (ofFloat c.maxRetryDelay) = some c.retryCap :=
  ⟨fun share => grows_of_between fun a => p.delayWith_between precise_id a (share a),
    fun share => grows_of_between fun a => p.delay_between a (share a), fun _ => p.baseDelay_le_cap,
    c.retryCap_le, baseDelay?_eq p, fun _ h share => delay?_eq p h share, retryCap?_eq c⟩

end Stepflow
