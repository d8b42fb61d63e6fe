import AsyncJobs.Model.RetryPolicy
import Mathlib.Tactic.Linarith
import Mathlib.Tactic.Positivity

/-!
# Linear retry policies

The words of `linearPolicy` never wrap for positive durations, so its intervals rise from the
smaller duration and stay below the larger one. `Duration` picks one of them and returns the
jittered value to the nearest millisecond, or the first interval where that is zero. The draw
and the sum are floats, so what rounding to a millisecond may add grows with the spacing of
floats once the durations pass `2 ^ 53` nanoseconds.
-/

namespace AsyncJobs

theorem toUint64_of_nonneg {d : Int} (h : 0 ≤ d) (hd : d < 2 ^ 64) : (toUint64 d : Int) = d := by
  unfold toUint64
  omega

theorem ofUint64_of_lt {x : Nat} (h : x < 2 ^ 63) : ofUint64 x = x := by
  unfold ofUint64
  omega

/-- Rounding keeps a duration that is not negative so and moves it by half a unit at most. -/
theorem durationRound_spec {d m : Int} (hd : 0 ≤ d) (hm : 0 < m) (hmax : d + m ≤ maxDuration) :
    0 ≤ durationRound d m ∧ 2 * durationRound d m ≤ 2 * d + m ∧
      2 * d < 2 * durationRound d m + m := by
  have htmod : d.tmod m = d % m := Int.tmod_eq_emod_of_nonneg hd
  have hnonneg : 0 ≤ d % m := Int.emod_nonneg d hm.ne'
  have hlt : d % m < m := Int.emod_lt_of_pos d hm
  have hle : d % m ≤ d := by
    have := Int.mul_ediv_add_emod d m
    have := Int.mul_nonneg hm.le (Int.ediv_nonneg hd hm.le)
    omega
  unfold durationRound
  rw [if_neg (by omega)]
  simp only [htmod, if_neg (Int.not_lt.mpr hd)]
  split_ifs with hhalf
  · omega
  · rw [min_eq_right (by omega)]
    omega

section

variable {steps : UInt64} {jitter : ℚ} {lo hi : Int} {i : Nat}

/-- The intervals of `linearPolicy` in integers, for durations in order. -/
def linearIntervals (steps : UInt64) (lo hi : Int) : List Int :=
  (List.range steps.toNat).map fun i : Nat => lo + i * ((hi - lo) / steps.toNat)

/-- What a step of the loop adds to the smaller duration stays within the range. -/
theorem mul_stepSize_le (hle : lo ≤ hi) (hi' : i < steps.toNat) :
    0 ≤ i * ((hi - lo) / steps.toNat) ∧ i * ((hi - lo) / steps.toNat) ≤ hi - lo := by
  have hwidth : 0 ≤ hi - lo := by omega
  have hsize : 0 ≤ (hi - lo) / steps.toNat := Int.ediv_nonneg hwidth (Int.natCast_nonneg _)
  constructor
  · exact Int.mul_nonneg (Int.natCast_nonneg _) hsize
  · calc i * ((hi - lo) / steps.toNat)
        ≤ steps.toNat * ((hi - lo) / steps.toNat) := by
          apply Int.mul_le_mul_of_nonneg_right _ hsize
          exact_mod_cast hi'.le
      _ ≤ hi - lo := Int.mul_ediv_self_le (by omega)

theorem linearPolicy_eq (hsteps : steps ≠ 0) {min max : Int} (hmin : 0 < min) (hmax : 0 < max)
    (hlo : min ⊓ max = lo) (hhi : min ⊔ max = hi) (hbound : hi < 2 ^ 63) :
    linearPolicy steps jitter min max = .ok ⟨linearIntervals steps lo hi, jitter⟩ := by
  have hsorted : (if max < min then (max, min) else (min, max)) = (lo, hi) := by
    split_ifs with h
    · rw [← hlo, ← hhi, min_eq_right h.le, max_eq_left h.le]
    · rw [← hlo, ← hhi, min_eq_left (not_lt.mp h), max_eq_right (not_lt.mp h)]
  have hpos : 0 < lo := hlo ▸ lt_min hmin hmax
  have hle : lo ≤ hi := hlo ▸ hhi ▸ min_le_max
  unfold linearPolicy
  simp only [hsorted, if_neg hsteps, linearIntervals, Except.ok.injEq,
    RetryPolicy.mk.injEq, and_true]
  apply List.map_congr_left
  intro i hi'
  -- no word wraps, so the words are the integers
  have hlow : (toUint64 lo : Int) = lo := toUint64_of_nonneg hpos.le (by omega)
  have hsize : ((toUint64 (hi - lo) / steps.toNat : Nat) : Int) = (hi - lo) / steps.toNat := by
    rw [Int.natCast_ediv, toUint64_of_nonneg (by omega) (by omega)]
  have hsum : ((toUint64 lo + i * (toUint64 (hi - lo) / steps.toNat) : Nat) : Int) =
      lo + i * ((hi - lo) / steps.toNat) := by
    rw [Int.natCast_add, Int.natCast_mul, hlow, hsize]
  obtain ⟨-, hstep⟩ := mul_stepSize_le hle (List.mem_range.mp hi')
  rw [ofUint64_of_lt (by omega), hsum]

@[simp] theorem length_linearIntervals : (linearIntervals steps lo hi).length = steps.toNat := by
  simp [linearIntervals]

theorem linearIntervals_sorted (hle : lo ≤ hi) :
    (linearIntervals steps lo hi).Pairwise (· ≤ ·) := by
  apply List.Pairwise.map _ _ List.pairwise_lt_range
  intro i j hij
  have hsize : 0 ≤ (hi - lo) / steps.toNat :=
    Int.ediv_nonneg (by omega) (Int.natCast_nonneg _)
  have hmul : i * ((hi - lo) / steps.toNat) ≤ j * ((hi - lo) / steps.toNat) := by
    apply Int.mul_le_mul_of_nonneg_right _ hsize
    exact_mod_cast hij.le
  omega

theorem toNat_pos (hsteps : steps ≠ 0) : 0 < steps.toNat := by
  have : steps.toNat ≠ 0 := fun h => hsteps (UInt64.toNat_inj.mp h)
  omega

theorem linearIntervals_first (hsteps : steps ≠ 0) :
    (linearIntervals steps lo hi)[0]? = some lo := by
  simp [linearIntervals, toNat_pos hsteps]

theorem mem_linearIntervals (hle : lo ≤ hi) {d : Int} (hd : d ∈ linearIntervals steps lo hi) :
    lo ≤ d ∧ d ≤ hi := by
  obtain ⟨i, hi', rfl⟩ := List.mem_map.mp hd
  obtain ⟨hnonneg, hstep⟩ := mul_stepSize_le hle (List.mem_range.mp hi')
  omega

end

namespace RetryPolicy

variable {p : RetryPolicy} (rand : Int63n) {d lo : Int}

/-- The value `jitter` truncates, a float. -/
def jitteredFloat (p : RetryPolicy) (rand : Int63n) (d : Int) : ℚ :=
  Binary64.rounded (d * p.jitter + Binary64.rounded (rand.draw d))

/-- The interval, the factor and the draw give a value in the range before it is rounded. -/
theorem jittered_range (hd : 0 < d) :
    p.jitter * d ≤ d * p.jitter + rand.draw d ∧
      (d * p.jitter + rand.draw d : ℚ) + 1 ≤ (1 + p.jitter) * d := by
  have hnonneg : (0 : ℚ) ≤ rand.draw d := by exact_mod_cast rand.nonneg hd
  have hlt : (rand.draw d : ℚ) + 1 ≤ d := by exact_mod_cast rand.lt hd
  constructor <;> linarith

theorem jitteredFloat_nonneg (hd : 0 < d) (hjitter : 0 ≤ p.jitter) :
    0 ≤ p.jitteredFloat rand d := by
  have hdraw : (0 : ℚ) ≤ Binary64.rounded (rand.draw d) :=
    Binary64.rounded_nonneg (by exact_mod_cast rand.nonneg hd)
  have hproduct : (0 : ℚ) ≤ d * p.jitter := mul_nonneg (by exact_mod_cast hd.le) hjitter
  exact Binary64.rounded_nonneg (add_nonneg hproduct hdraw)

theorem abs_sub_jitteredFloat_le (hd : 0 < d) (hjitter : 0 ≤ p.jitter)
    (hbound : (1 + p.jitter) * d ≤ 2 ^ 62) :
    |d * p.jitter + rand.draw d - p.jitteredFloat rand d| ≤ 768 := by
  have hdraw : (0 : ℚ) ≤ rand.draw d := by exact_mod_cast rand.nonneg hd
  have hproduct : (0 : ℚ) ≤ d * p.jitter := mul_nonneg (by exact_mod_cast hd.le) hjitter
  obtain ⟨-, hhigh⟩ := jittered_range (p := p) rand hd
  have hfirst : |(rand.draw d : ℚ) - Binary64.rounded (rand.draw d)| ≤ 256 := by
    have hlt : |(rand.draw d : ℚ)| < 2 ^ (62 : ℤ) := by
      rw [abs_of_nonneg hdraw]
      norm_num at hbound ⊢
      linarith
    have herror := Binary64.abs_sub_rounded_le_of_lt (by norm_num) hlt
    norm_num at herror ⊢
    exact herror
  have hsum := abs_le.mp hfirst
  have hsecond : |d * p.jitter + Binary64.rounded (rand.draw d) - p.jitteredFloat rand d|
      ≤ 512 := by
    have hlt : |d * p.jitter + Binary64.rounded (rand.draw d)| < 2 ^ (63 : ℤ) := by
      rw [abs_of_nonneg (add_nonneg hproduct (Binary64.rounded_nonneg hdraw))]
      norm_num at hbound ⊢
      linarith
    have herror := Binary64.abs_sub_rounded_le_of_lt (by norm_num) hlt
    norm_num at herror ⊢
    exact herror
  rw [abs_le] at hsecond ⊢
  constructor <;> linarith

/-- Below `2 ^ 53` the draw is exact and the float reaches every integer the exact value does. -/
theorem jitteredFloat_of_le (hd : 0 < d) (hjitter : 0 ≤ p.jitter)
    (hbound : (1 + p.jitter) * d ≤ 2 ^ 53) :
    ⌊p.jitter * d⌋ ≤ p.jitteredFloat rand d ∧ p.jitteredFloat rand d < (1 + p.jitter) * d := by
  have hdraw : (0 : ℚ) ≤ rand.draw d := by exact_mod_cast rand.nonneg hd
  have hproduct : (0 : ℚ) ≤ d * p.jitter := mul_nonneg (by exact_mod_cast hd.le) hjitter
  obtain ⟨hlow, hhigh⟩ := jittered_range (p := p) rand hd
  have hexact : p.jitteredFloat rand d = Binary64.rounded (d * p.jitter + rand.draw d) := by
    have hsmall : |rand.draw d| ≤ 2 ^ 53 := by
      have hcast : |(rand.draw d : ℚ)| ≤ 2 ^ 53 := by
        rw [abs_of_nonneg hdraw]
        linarith
      exact_mod_cast hcast
    rw [jitteredFloat, Binary64.rounded_intCast hsmall]
  have hlt : |d * p.jitter + rand.draw d| < 2 ^ 53 := by
    rw [abs_of_nonneg (add_nonneg hproduct hdraw)]
    linarith
  rw [hexact]
  constructor
  · exact Binary64.intCast_le_rounded hlt ((Int.floor_le _).trans hlow)
  · have herror := Binary64.abs_sub_rounded_le_of_lt (k := 53) le_rfl (by exact_mod_cast hlt)
    rw [sub_self, zpow_zero, abs_le] at herror
    linarith

/-- `jitter` at a positive interval: the float rounded to a millisecond. -/
theorem jittered_eq (hd : 0 < d) :
    p.jittered rand d = .ok (durationRound (truncate (p.jitteredFloat rand d)) millisecond) := by
  simp only [jittered, if_neg hd.ne', if_neg (not_lt.mpr hd.le), jitteredFloat]

/-- The fraction that is cut off is less than the integer slack of rounding down: every value
between the float's floor and the next integer is within half a millisecond. -/
theorem durationRound_truncate {z : ℚ} (hz : 0 ≤ z) (hmax : z < 2 ^ 62 + 2 ^ 61) :
    0 ≤ durationRound (truncate z) millisecond ∧
      ∀ x : ℚ, ⌊z⌋ ≤ x → x ≤ ⌊z⌋ + 1 →
        |(durationRound (truncate z) millisecond : ℚ) - x| ≤ millisecond / 2 := by
  have hfloor : truncate z = ⌊z⌋ := if_pos hz
  have hmax' : ⌊z⌋ + millisecond ≤ maxDuration := by
    have hlt : ⌊z⌋ < 2 ^ 62 + 2 ^ 61 := by
      rw [Int.floor_lt]
      exact_mod_cast hmax
    norm_num [millisecond, maxDuration] at hlt ⊢
    omega
  obtain ⟨hv, hupper, hlower⟩ :=
    durationRound_spec (Int.floor_nonneg.mpr hz) (by decide : 0 < millisecond) hmax'
  rw [hfloor]
  refine ⟨hv, fun x hlow hhigh => ?_⟩
  have hupper' : (2 * durationRound ⌊z⌋ millisecond : ℚ) ≤ 2 * ⌊z⌋ + millisecond := by
    exact_mod_cast hupper
  have hlower' : (2 * ⌊z⌋ + 2 : ℚ) ≤ 2 * durationRound ⌊z⌋ millisecond + millisecond := by
    have hslack : 2 * ⌊z⌋ + 2 ≤ 2 * durationRound ⌊z⌋ millisecond + millisecond := by
      have heven : millisecond = 2 * 500000 := by decide
      omega
    exact_mod_cast hslack
  rw [abs_le]
  constructor <;> linarith

theorem jittered_spec (hd : 0 < d) (hjitter : 0 ≤ p.jitter)
    (hbound : (1 + p.jitter) * d ≤ 2 ^ 62) :
    ∃ (w : Int) (x : ℚ), p.jittered rand d = .ok w ∧ 0 ≤ w ∧ p.jitter * d ≤ x ∧
      x < (1 + p.jitter) * d ∧ |(w : ℚ) - x| ≤ millisecond / 2 + 768 ∧
      ((1 + p.jitter) * d ≤ 2 ^ 53 → |(w : ℚ) - x| ≤ millisecond / 2) := by
  set z : ℚ := p.jitteredFloat rand d with hz
  have hnonneg : 0 ≤ z := jitteredFloat_nonneg rand hd hjitter
  have hfloor := Int.floor_le z
  have hfloor' := (Int.lt_floor_add_one z).le
  have herror := abs_sub_jitteredFloat_le rand hd hjitter hbound
  obtain ⟨hlow, hhigh⟩ := jittered_range (p := p) rand hd
  have hmax : z < 2 ^ 62 + 2 ^ 61 := by
    rw [← hz, abs_le] at herror
    norm_num at hbound ⊢
    linarith
  obtain ⟨hw, hclose⟩ := durationRound_truncate hnonneg hmax
  by_cases hsmall : (1 + p.jitter) * d ≤ 2 ^ 53
  · -- the part of the range between the float's floor and the next integer is not empty
    obtain ⟨hreached, hbelow⟩ := jitteredFloat_of_le rand hd hjitter hsmall
    have hnext : p.jitter * d ≤ ⌊z⌋ + 1 := by
      have hle : (⌊p.jitter * d⌋ : ℚ) ≤ ⌊z⌋ := by exact_mod_cast Int.le_floor.mpr hreached
      have hlt := Int.lt_floor_add_one (p.jitter * d)
      linarith
    have hwidth : p.jitter * d < (1 + p.jitter) * d := by
      have hcast : (0 : ℚ) < d := by exact_mod_cast hd
      linarith
    have hx := hclose (p.jitter * d ⊔ ⌊z⌋) (le_max_right _ _) (max_le hnext (by linarith))
    exact ⟨_, _, jittered_eq rand hd, hw, le_max_left _ _,
      max_lt hwidth (hfloor.trans_lt hbelow), by linarith, fun _ => hx⟩
  · refine ⟨_, d * p.jitter + rand.draw d, jittered_eq rand hd, hw, hlow, by linarith, ?_,
      fun hle => absurd hle hsmall⟩
    have hx := hclose z hfloor hfloor'
    rw [← hz, abs_le] at herror
    rw [abs_le] at hx ⊢
    constructor <;> linarith

theorem interval_natCast {i : Nat} (h : p.intervals[i]? = some d) : p.interval i = .ok d := by
  simp only [interval, h]

theorem duration_eq (n : Nat) (hne : p.intervals ≠ []) :
    p.duration rand n = (do
      let delay ← p.jittered rand (← p.interval (n ⊓ (p.intervals.length - 1) : Nat))
      if delay = 0 then p.interval 0 else .ok delay) := by
  have hlength : 0 < p.intervals.length := List.length_pos_of_ne_nil hne
  have hindex : (if (p.intervals.length : Int) ≤ n then (p.intervals.length : Int) - 1 else n) =
      (n ⊓ (p.intervals.length - 1) : Nat) := by
    split_ifs with h <;> omega
  simp only [duration, hindex]

/-- `Duration` at a positive interval of a policy with a positive first interval. -/
theorem duration_of_jittered {n : Nat} {w : Int} (hlo : p.intervals[0]? = some lo)
    (hd : p.intervals[n ⊓ (p.intervals.length - 1)]? = some d)
    (hw : p.jittered rand d = .ok w) :
    p.duration rand n = .ok (if w = 0 then lo else w) := by
  have hne : p.intervals ≠ [] := by
    intro hnil
    simp [hnil] at hlo
  rw [duration_eq rand n hne, interval_natCast hd]
  simp only [bind, Except.bind, hw]
  by_cases hzero : w = 0
  · rw [if_pos hzero, if_pos hzero]
    exact interval_natCast hlo
  · rw [if_neg hzero, if_neg hzero]

end RetryPolicy

section

variable {steps : UInt64} {jitter : ℚ} {lo hi : Int} (rand : Int63n)

theorem lt_of_jitter_bound (hpos : 0 ≤ hi) (hjitter : 0 ≤ jitter)
    (hbound : (1 + jitter) * hi ≤ 2 ^ 62) : hi < 2 ^ 63 := by
  have hproduct : (0 : ℚ) ≤ jitter * hi := mul_nonneg hjitter (by exact_mod_cast hpos)
  have hrat : (hi : ℚ) ≤ 2 ^ 62 := by linarith
  have hint : hi ≤ 2 ^ 62 := by exact_mod_cast hrat
  omega

theorem linearIntervals_duration (hsteps : steps ≠ 0) (hlo : 0 < lo) (hle : lo ≤ hi)
    (hjitter : 0 ≤ jitter) (hbound : (1 + jitter) * hi ≤ 2 ^ 62) (n : Nat) :
    ∃ (d w v : Int) (x : ℚ), (linearIntervals steps lo hi)[n ⊓ (steps.toNat - 1)]? = some d ∧
      RetryPolicy.jittered ⟨linearIntervals steps lo hi, jitter⟩ rand d = .ok w ∧
      jitter * d ≤ x ∧ x < (1 + jitter) * d ∧ |(w : ℚ) - x| ≤ millisecond / 2 + 768 ∧
      ((1 + jitter) * hi ≤ 2 ^ 53 → |(w : ℚ) - x| ≤ millisecond / 2) ∧
      RetryPolicy.duration ⟨linearIntervals steps lo hi, jitter⟩ rand n = .ok v ∧ 0 < v ∧
      v = if w = 0 then lo else w := by
  have hindex : n ⊓ (steps.toNat - 1) < (linearIntervals steps lo hi).length := by
    have := toNat_pos hsteps
    rw [length_linearIntervals]
    omega
  obtain ⟨d, hd⟩ : ∃ d, (linearIntervals steps lo hi)[n ⊓ (steps.toNat - 1)]? = some d :=
    ⟨_, List.getElem?_eq_getElem hindex⟩
  obtain ⟨hlow, hhigh⟩ := mem_linearIntervals hle (List.mem_of_getElem? hd)
  have hdpos : 0 < d := hlo.trans_le hlow
  have hscaled : (1 + jitter) * d ≤ (1 + jitter) * hi := by
    apply mul_le_mul_of_nonneg_left _ (by linarith)
    exact_mod_cast hhigh
  obtain ⟨w, x, hw, hnonneg, hleft, hright, hclose, hsmall⟩ := RetryPolicy.jittered_spec
    (p := ⟨linearIntervals steps lo hi, jitter⟩) rand hdpos hjitter (hscaled.trans hbound)
  have hduration := RetryPolicy.duration_of_jittered
    (p := ⟨linearIntervals steps lo hi, jitter⟩) rand (n := n)
    (linearIntervals_first hsteps) (by rwa [length_linearIntervals]) hw
  refine ⟨d, w, _, x, hd, hw, hleft, hright, hclose, fun h => hsmall (hscaled.trans h),
    hduration, ?_, rfl⟩
  split_ifs with hzero <;> omega

end

/-- The intervals of a linear policy and the duration of every try, for every random draw. The
jittered value is within half a millisecond of its range while the sum is at most `2 ^ 53`;
beyond that the spacing of floats comes on top. -/
theorem linearPolicy_duration (steps : UInt64) (jitter : ℚ) (min max : Int) (n : Nat)
    (rand : Int63n) (hsteps : 1 ≤ steps) (hmin : 0 < min) (hmax : 0 < max)
    (hjitter : 0 ≤ jitter) (hbound : (1 + jitter) * (min ⊔ max : Int) ≤ 2 ^ 62) :
    ∃ p, linearPolicy steps jitter min max = .ok p ∧
      p.intervals = linearIntervals steps (min ⊓ max) (min ⊔ max) ∧
      p.intervals.length = steps.toNat ∧ p.intervals.Pairwise (· ≤ ·) ∧
      p.intervals[0]? = some (min ⊓ max) ∧
      (∀ d ∈ p.intervals, min ⊓ max ≤ d ∧ d ≤ min ⊔ max) ∧
      ∃ (d w v : Int) (x : ℚ), p.intervals[n ⊓ (steps.toNat - 1)]? = some d ∧
        p.jittered rand d = .ok w ∧ jitter * d ≤ x ∧ x < (1 + jitter) * d ∧
        |(w : ℚ) - x| ≤ millisecond / 2 + 768 ∧
        ((1 + jitter) * (min ⊔ max : Int) ≤ 2 ^ 53 → |(w : ℚ) - x| ≤ millisecond / 2) ∧
        p.duration rand n = .ok v ∧ 0 < v ∧ v = if w = 0 then min ⊓ max else w := by
  have hle : min ⊓ max ≤ min ⊔ max := min_le_max
  have hpos : 0 < min ⊓ max := lt_min hmin hmax
  have hne : steps ≠ 0 := by
    intro hzero
    subst hzero
    exact absurd hsteps (by decide)
  have hhi : min ⊔ max < 2 ^ 63 := lt_of_jitter_bound (by omega) hjitter hbound
  obtain ⟨d, w, v, x, hvalue⟩ := linearIntervals_duration rand hne hpos hle hjitter hbound n
  exact ⟨_, linearPolicy_eq hne hmin hmax rfl rfl hhi, rfl, length_linearIntervals,
    linearIntervals_sorted hle, linearIntervals_first hne,
    fun d hd => mem_linearIntervals hle hd, d, w, v, x, hvalue⟩

/-- Three intervals between durations in the wrong order, at a try past the last. -/
theorem linearPolicy_duration_three : ∃ (p : RetryPolicy) (d w v : Int) (x : ℚ),
    linearPolicy 3 (1 / 2) minute second = .ok p ∧ p.intervals.length = 3 ∧
      p.intervals[2]? = some d ∧ 1 / 2 * d ≤ x ∧ x < (1 + 1 / 2) * d ∧
      |(w : ℚ) - x| ≤ millisecond / 2 ∧ p.duration .zero 7 = .ok v ∧ 0 < v ∧
      v = if w = 0 then second else w := by
  have hsmall : (1 + 1 / 2) * ((minute ⊔ second : Int) : ℚ) ≤ 2 ^ 53 := by
    norm_num [minute, second]
  obtain ⟨p, hp, -, hlength, -, -, -, d, w, v, x, hd, -, hlow, hhigh, -, hclose, hv, hpos, hw⟩ :=
    linearPolicy_duration 3 (1 / 2) minute second 7 .zero (by decide) (by decide) (by decide)
      (by norm_num) (hsmall.trans (by norm_num))
  exact ⟨p, d, w, v, x, hp, hlength, hd, hlow, hhigh, hclose hsmall, hv, hpos, hw⟩

def Int63n.greatest : Int63n where
  draw d := d - 1
  nonneg h := Int.le_sub_one_of_lt h
  lt _ := Int.sub_one_lt_of_le le_rfl

/-- One interval of some 126 years without jitter. The draw is rounded up to a float, the float
up to a millisecond, and the duration is more than half a millisecond beyond the range. -/
theorem linearPolicy_duration_beyond_range :
    ∃ p, linearPolicy 1 0 4000000000003499778 4000000000003499778 = .ok p ∧
      p.intervals = [4000000000003499778] ∧
      p.duration .greatest 0 = .ok 4000000000004000000 ∧
      ∀ x : ℚ, 0 * 4000000000003499778 ≤ x → x < (1 + 0) * 4000000000003499778 →
        millisecond / 2 < |((4000000000004000000 : Int) : ℚ) - x| := by
  refine ⟨⟨[4000000000003499778], 0⟩, by decide +kernel, rfl, by decide +kernel, ?_⟩
  intro x hlow hhigh
  rw [lt_abs]
  left
  norm_num [millisecond] at hhigh ⊢
  linarith

theorem policies_linear {entry : String × Except Fault RetryPolicy} (h : entry ∈ policies) :
    ∃ (steps : UInt64) (jitter : ℚ) (lo hi : Int), steps ≠ 0 ∧ 0 < lo ∧ lo ≤ hi ∧ 0 ≤ jitter ∧
      (1 + jitter) * hi ≤ 2 ^ 62 ∧ linearPolicy steps jitter lo hi = entry.2 := by
  simp only [policies, List.mem_cons, List.not_mem_nil, or_false] at h
  obtain rfl | rfl | rfl | rfl := h
  · exact ⟨50, 9 / 10, minute, 10 * minute, by decide, by decide, by decide, by norm_num,
      by norm_num [minute, second], by simp only [retryDefault, retryLinearTenMinutes]⟩
  · exact ⟨20, 1 / 2, second, minute, by decide, by decide, by decide, by norm_num,
      by norm_num [minute, second], by simp only [retryLinearOneMinute]⟩
  · exact ⟨50, 9 / 10, minute, 10 * minute, by decide, by decide, by decide, by norm_num,
      by norm_num [minute, second], by simp only [retryLinearTenMinutes]⟩
  · exact ⟨20, 9 / 10, 10 * minute, 60 * minute, by decide, by decide, by decide, by norm_num,
      by norm_num [minute, second], by simp only [retryLinearOneHour]⟩

theorem retryPolicyLookup_duration {name : String} {p : RetryPolicy}
    (h : retryPolicyLookup name = .ok p) (rand : Int63n) (n : Nat) :
    ∃ v, p.duration rand n = .ok v ∧ 0 < v := by
  obtain ⟨policy, hlookup⟩ : ∃ policy, policies.lookup name = some policy := by
    cases hlookup : policies.lookup name with
    | none => simp [retryPolicyLookup, hlookup] at h
    | some policy => exact ⟨policy, rfl⟩
  obtain rfl : policy = .ok p := by simpa only [retryPolicyLookup, hlookup] using h
  have hmem : (name, .ok p) ∈ policies := by
    obtain ⟨before, after, hsplit, -⟩ := List.lookup_eq_some_iff.mp hlookup
    rw [hsplit]
    exact List.mem_append_right before List.mem_cons_self
  obtain ⟨steps, jitter, lo, hi, hsteps, hlo, hle, hjitter, hbound, hp⟩ := policies_linear hmem
  rw [linearPolicy_eq hsteps hlo (hlo.trans_le hle) (min_eq_left hle) (max_eq_right hle)
    (lt_of_jitter_bound (hlo.le.trans hle) hjitter hbound), Except.ok.injEq] at hp
  subst hp
  obtain ⟨-, -, v, -, -, -, -, -, -, -, hv, hpos, -⟩ :=
    linearIntervals_duration rand hsteps hlo hle hjitter hbound n
  exact ⟨v, hv, hpos⟩

end AsyncJobs
