import Mathlib.Algebra.Order.Round
import Mathlib.Data.Int.Log
import Mathlib.Data.Rat.Floor
import Mathlib.Tactic.Linarith
import Mathlib.Tactic.NormNum
import Mathlib.Tactic.Positivity
import Mathlib.Tactic.Ring

/-!
# Numbers of the format binary64

Finite numbers of the format are taken as the rationals they are; the sign of a zero is left
out. `nearest` rounds a rational to the format, ties to even, and fails where the format
overflows. `shortest` is the decimal with the fewest digits that rounds to a given number,
and the closest one to it among those.
-/

namespace Binary64

def IsFinite (f : ℚ) : Prop :=
  |f| < 2 ^ 1024 ∧ ∃ m e : ℤ, f = m * 2 ^ e ∧ |m| < 2 ^ 53 ∧ -1074 ≤ e

section Rounding

def roundEven (a : ℚ) : ℤ :=
  if a - ⌊a⌋ < 1 / 2 then ⌊a⌋
  else if 1 / 2 < a - ⌊a⌋ then ⌊a⌋ + 1
  else if ⌊a⌋ % 2 = 0 then ⌊a⌋ else ⌊a⌋ + 1

@[simp] theorem roundEven_intCast (n : ℤ) : roundEven n = n := by
  simp [roundEven]

theorem abs_sub_roundEven_le (a : ℚ) : |a - roundEven a| ≤ 1 / 2 := by
  have hfloor := Int.floor_le a
  have hlt := Int.lt_floor_add_one a
  unfold roundEven
  rw [abs_le]
  split_ifs <;> push_cast <;> constructor <;> linarith

theorem floor_le_roundEven (a : ℚ) : ⌊a⌋ ≤ roundEven a := by
  unfold roundEven
  split_ifs <;> omega

/-- The exponent of the last place of the numbers of this magnitude. -/
def unit (x : ℚ) : ℤ := max (Int.log 2 |x| - 52) (-1074)

def ulp (x : ℚ) : ℚ := 2 ^ unit x

def significand (x : ℚ) : ℤ := roundEven (x / ulp x)

def rounded (x : ℚ) : ℚ := significand x * ulp x

def nearest (x : ℚ) : Option ℚ := if |rounded x| < 2 ^ 1024 then some (rounded x) else none

theorem unit_ge (x : ℚ) : -1074 ≤ unit x := le_max_right _ _

theorem ulp_pos (x : ℚ) : 0 < ulp x := zpow_pos two_pos _

theorem abs_sub_rounded_le (x : ℚ) : |x - rounded x| ≤ ulp x / 2 := by
  have hpos := ulp_pos x
  have hsplit : x - rounded x = (x / ulp x - significand x) * ulp x := by
    rw [rounded, sub_mul, div_mul_cancel₀ x hpos.ne']
  have hhalf : |x / ulp x - significand x| ≤ 1 / 2 := abs_sub_roundEven_le _
  rw [hsplit, abs_mul, abs_of_pos hpos]
  nlinarith

theorem rounded_eq_self {x : ℚ} {n : ℤ} (h : x = n * ulp x) : rounded x = x := by
  have hn : x / ulp x = n := by
    rw [div_eq_iff (ulp_pos x).ne']
    exact h
  rw [rounded, significand, hn, roundEven_intCast]
  exact h.symm

theorem abs_lt_ulp (x : ℚ) : |x| < 2 ^ 53 * ulp x := by
  have hunit : Int.log 2 |x| + 1 ≤ 53 + unit x := by
    have hmax := le_max_left (Int.log 2 |x| - 52) (-1074)
    unfold unit
    omega
  calc |x| < ((2 : ℕ) : ℚ) ^ (Int.log 2 |x| + 1) := Int.lt_zpow_succ_log_self one_lt_two _
    _ = 2 ^ (Int.log 2 |x| + 1) := by norm_num
    _ ≤ 2 ^ (53 + unit x) := zpow_le_zpow_right₀ one_le_two hunit
    _ = 2 ^ 53 * ulp x := by rw [zpow_add₀ two_ne_zero, ulp]; norm_num

theorem abs_significand_le (x : ℚ) : |significand x| ≤ 2 ^ 53 := by
  have hpos := ulp_pos x
  have hlt : |x / ulp x| < 2 ^ 53 := by
    rw [abs_div, abs_of_pos hpos, div_lt_iff₀ hpos]
    exact abs_lt_ulp x
  have hround : |x / ulp x - significand x| ≤ 1 / 2 := abs_sub_roundEven_le _
  have hcast : (|significand x| : ℚ) < 2 ^ 53 + 1 := by
    rw [abs_le] at hround
    rw [abs_lt] at hlt ⊢
    constructor <;> linarith
  have hint : |significand x| < 2 ^ 53 + 1 := by exact_mod_cast hcast
  omega

theorem isFinite_of_nearest {x f : ℚ} (h : nearest x = some f) : IsFinite f := by
  unfold nearest at h
  split_ifs at h with hbound
  cases h
  have hunit : -1074 ≤ unit x + 1 := by
    have hge := unit_ge x
    omega
  refine ⟨hbound, ?_⟩
  obtain hlt | heq := (abs_significand_le x).lt_or_eq
  · exact ⟨significand x, unit x, rfl, hlt, unit_ge x⟩
  · -- the carry into the next power of two
    obtain hcarry | hcarry := (abs_eq (by norm_num)).mp heq
    · refine ⟨2 ^ 52, unit x + 1, ?_, by norm_num, hunit⟩
      rw [rounded, hcarry, ulp, zpow_add_one₀ two_ne_zero]
      push_cast
      ring
    · refine ⟨-2 ^ 52, unit x + 1, ?_, by norm_num, hunit⟩
      rw [rounded, hcarry, ulp, zpow_add_one₀ two_ne_zero]
      push_cast
      ring

theorem exists_mul_zpow {m e u : ℤ} (h : u ≤ e) : ∃ n : ℤ, (m : ℚ) * 2 ^ e = n * 2 ^ u := by
  refine ⟨m * 2 ^ (e - u).toNat, ?_⟩
  have hpow : (2 : ℚ) ^ (e - u).toNat = 2 ^ (e - u) := by
    rw [← zpow_natCast, Int.toNat_of_nonneg (by omega)]
  push_cast
  rw [hpow, mul_assoc, ← zpow_add₀ two_ne_zero, sub_add_cancel]

theorem IsFinite.multiple {f : ℚ} (h : IsFinite f) : ∃ n : ℤ, f = n * ulp f := by
  obtain ⟨-, m, e, hf, hm, he⟩ := h
  by_cases hzero : f = 0
  · exact ⟨0, by simp [hzero]⟩
  have hunit : unit f ≤ e := by
    apply max_le _ he
    have hlt : |f| < ((2 : ℕ) : ℚ) ^ (53 + e) := by
      have hpos : (0 : ℚ) < 2 ^ e := zpow_pos two_pos e
      have hcast : |(m : ℚ)| < 2 ^ (53 : ℤ) := by exact_mod_cast hm
      rw [hf, abs_mul, abs_of_pos hpos, Nat.cast_ofNat, zpow_add₀ two_ne_zero]
      exact mul_lt_mul_of_pos_right hcast hpos
    have hlog := (Int.lt_zpow_iff_log_lt one_lt_two (abs_pos.mpr hzero)).mp hlt
    omega
  obtain ⟨n, hn⟩ := exists_mul_zpow (m := m) hunit
  exact ⟨n, hf.trans hn⟩

theorem nearest_eq_self {f : ℚ} (h : IsFinite f) : nearest f = some f := by
  obtain ⟨n, hn⟩ := h.multiple
  rw [nearest, rounded_eq_self hn, if_pos h.1]

end Rounding

section Decimals

/-- `coefficient * 10 ^ exponent`. -/
structure Decimal where
  coefficient : ℤ
  exponent : ℤ
  deriving DecidableEq, Repr

def Decimal.value (d : Decimal) : ℚ := d.coefficient * 10 ^ d.exponent

def neighbour (s : ℚ) : ℤ := if roundEven s ≤ s then roundEven s + 1 else roundEven s - 1

/-- The multiple of `10 ^ q` that rounds to `f`, the closer one if there are two. -/
def multipleFor (f : ℚ) (q : ℤ) : Option ℤ :=
  if nearest (roundEven (f / 10 ^ q) * 10 ^ q) = some f then some (roundEven (f / 10 ^ q))
  else if nearest (neighbour (f / 10 ^ q) * 10 ^ q) = some f then some (neighbour (f / 10 ^ q))
  else none

/-- Every number of the format has as many decimal places. -/
def places : ℕ := 1074

/-- The search for the greatest exponent, from `n - places` downwards. -/
def shortestBelow (f : ℚ) : ℕ → Decimal
  | 0 => ⟨roundEven (f * 10 ^ places), -places⟩
  | n + 1 =>
    (multipleFor f (n + 1 - places)).elim (shortestBelow f n) fun d => ⟨d, n + 1 - places⟩

/-- No number of the format is beyond `10 ^ 309`. -/
def shortest (f : ℚ) : Decimal := shortestBelow f (309 + places)

theorem nearest_of_multipleFor {f : ℚ} {q d : ℤ} (h : multipleFor f q = some d) :
    nearest (d * 10 ^ q) = some f := by
  unfold multipleFor at h
  split_ifs at h with hnear hother
  · cases h
    exact hnear
  · cases h
    exact hother

theorem roundEven_mul_ten_pow (n : ℤ) (k : ℕ) :
    roundEven (n * 2 ^ (-k : ℤ) * 10 ^ k) * (10 : ℚ) ^ (-k : ℤ) = n * 2 ^ (-k : ℤ) := by
  have hten : (10 : ℚ) ^ k = 2 ^ k * 5 ^ k := by
    rw [← mul_pow]
    norm_num
  have hint : (n : ℚ) * 2 ^ (-k : ℤ) * 10 ^ k = ((n * 5 ^ k : ℤ) : ℚ) := by
    rw [hten, zpow_neg, zpow_natCast]
    push_cast
    field_simp
  rw [hint, roundEven_intCast, ← hint, zpow_neg, zpow_neg, zpow_natCast, zpow_natCast]
  field_simp

theorem IsFinite.decimalPlaces {f : ℚ} (h : IsFinite f) : ∃ n : ℤ, f = n * 2 ^ (-places : ℤ) := by
  obtain ⟨-, m, e, rfl, -, he⟩ := h
  apply exists_mul_zpow
  unfold places
  exact he

theorem nearest_shortestBelow {f : ℚ} (h : IsFinite f) (n : ℕ) :
    nearest (shortestBelow f n).value = some f := by
  induction n with
  | zero =>
    obtain ⟨n, hn⟩ := h.decimalPlaces
    have hexact : (shortestBelow f 0).value = f := by
      rw [shortestBelow, Decimal.value, hn]
      exact roundEven_mul_ten_pow n places
    rw [hexact]
    exact nearest_eq_self h
  | succ n ih =>
    rw [shortestBelow]
    cases hmultiple : multipleFor f (n + 1 - places) with
    | none => exact ih
    | some d => exact nearest_of_multipleFor hmultiple

theorem nearest_shortest {f : ℚ} (h : IsFinite f) : nearest (shortest f).value = some f :=
  nearest_shortestBelow h _

end Decimals

section Integers

theorem isFinite_intCast {n : ℤ} (hn : |n| ≤ 2 ^ 53) : IsFinite n := by
  have hbound : |(n : ℚ)| < 2 ^ 1024 := by
    have hcast : |(n : ℚ)| ≤ 2 ^ 53 := by exact_mod_cast hn
    exact hcast.trans_lt (pow_lt_pow_right₀ one_lt_two (by norm_num))
  refine ⟨hbound, ?_⟩
  obtain hlt | heq := hn.lt_or_eq
  · exact ⟨n, 0, by simp, hlt, by norm_num⟩
  · obtain rfl | rfl := (abs_eq (by norm_num)).mp heq
    · exact ⟨2 ^ 52, 1, by norm_num, by norm_num, by norm_num⟩
    · exact ⟨-2 ^ 52, 1, by norm_num, by norm_num, by norm_num⟩

theorem isFinite_of_abs_eq {y : ℚ} (hy : |y| = 2 ^ 53) : IsFinite y := by
  obtain hy | hy := (abs_eq (by norm_num)).mp hy
  · have hcast : y = ((2 ^ 53 : ℤ) : ℚ) := by
      rw [hy]
      norm_num
    rw [hcast]
    exact isFinite_intCast (by norm_num)
  · have hcast : y = ((-2 ^ 53 : ℤ) : ℚ) := by
      rw [hy]
      norm_num
    rw [hcast]
    exact isFinite_intCast (by norm_num)

theorem unit_le {y : ℚ} {k : ℤ} (hk : 53 ≤ k) (hy : |y| < 2 ^ k) : unit y ≤ k - 53 := by
  apply max_le
  · by_cases hzero : y = 0
    · rw [hzero, abs_zero, Int.log_zero_right]
      omega
    · have hcast : |y| < ((2 : ℕ) : ℚ) ^ k := by exact_mod_cast hy
      have hlog := (Int.lt_zpow_iff_log_lt one_lt_two (abs_pos.mpr hzero)).mp hcast
      omega
  · omega

theorem ulp_le {y : ℚ} {k : ℤ} (hk : 53 ≤ k) (hy : |y| < 2 ^ k) : ulp y ≤ 2 ^ (k - 53) :=
  zpow_le_zpow_right₀ one_le_two (unit_le hk hy)

/-- Up to `2 ^ 53` a number is not rounded below an integer it has reached. -/
theorem intCast_le_rounded {y : ℚ} {n : ℤ} (hy : |y| < 2 ^ 53) (hn : (n : ℚ) ≤ y) :
    (n : ℚ) ≤ rounded y := by
  have hpos := ulp_pos y
  have hunit : unit y ≤ 0 := unit_le (k := 53) le_rfl (by exact_mod_cast hy)
  obtain ⟨m, hm⟩ := exists_mul_zpow (m := n) hunit
  rw [zpow_zero, mul_one] at hm
  have hfloor : m ≤ ⌊y / ulp y⌋ := by
    rw [Int.le_floor, le_div_iff₀ hpos]
    exact hm.symm.le.trans hn
  have hsignificand : (m : ℚ) ≤ significand y := by
    exact_mod_cast hfloor.trans (floor_le_roundEven _)
  calc (n : ℚ) = m * ulp y := hm
    _ ≤ significand y * ulp y := mul_le_mul_of_nonneg_right hsignificand hpos.le

theorem rounded_intCast {n : ℤ} (hn : |n| ≤ 2 ^ 53) : rounded n = n := by
  obtain ⟨m, hm⟩ := (isFinite_intCast hn).multiple
  exact rounded_eq_self hm

theorem abs_sub_rounded_le_of_lt {y : ℚ} {k : ℤ} (hk : 53 ≤ k) (hy : |y| < 2 ^ k) :
    |y - rounded y| ≤ 2 ^ (k - 53) / 2 := by
  have herror := abs_sub_rounded_le y
  have hulp := ulp_le hk hy
  linarith

theorem rounded_nonneg {y : ℚ} (hy : 0 ≤ y) : 0 ≤ rounded y := by
  have hpos := ulp_pos y
  have hfloor : 0 ≤ ⌊y / ulp y⌋ := Int.floor_nonneg.mpr (div_nonneg hy hpos.le)
  have hsignificand : (0 : ℚ) ≤ significand y := by
    exact_mod_cast hfloor.trans (floor_le_roundEven _)
  exact mul_nonneg hsignificand hpos.le

theorem ulp_le_abs {y : ℚ} (hy : 2 ^ 54 ≤ |y|) : ulp y ≤ |y| / 2 ^ 52 := by
  have hpos : 0 < |y| := lt_of_lt_of_le (by norm_num) hy
  have hlog : 54 ≤ Int.log 2 |y| := by
    apply (Int.zpow_le_iff_le_log one_lt_two hpos).mp
    exact_mod_cast hy
  have hunit : unit y = Int.log 2 |y| - 52 := max_eq_left (by omega)
  have hself := Int.zpow_log_le_self (b := 2) one_lt_two hpos
  rw [ulp, hunit, zpow_sub₀ two_ne_zero]
  rw [Nat.cast_ofNat] at hself
  norm_num
  linarith

theorem abs_sub_le_of_nearest {y f : ℚ} (h : nearest y = some f) : |y - f| ≤ ulp y / 2 := by
  unfold nearest at h
  split_ifs at h
  cases h
  exact abs_sub_rounded_le y

theorem abs_sub_intCast_le {y : ℚ} {n : ℤ} (hn : |n| ≤ 2 ^ 53) (h : nearest y = some (n : ℚ)) :
    |y - n| ≤ 1 := by
  have herr := abs_sub_le_of_nearest h
  have hcast : |(n : ℚ)| ≤ 2 ^ 53 := by exact_mod_cast hn
  have htriangle : |y| ≤ |y - n| + |(n : ℚ)| := by
    have hadd := abs_add_le (y - n) (n : ℚ)
    rwa [sub_add_cancel] at hadd
  have hy : |y| < 2 ^ 54 := by
    by_contra hlarge
    have hulp := ulp_le_abs (not_lt.mp hlarge)
    norm_num at *
    linarith
  have hulp := ulp_le (k := 54) (by norm_num) (by exact_mod_cast hy)
  norm_num at hulp
  linarith

theorem abs_sub_intCast_le_half {y : ℚ} {n : ℤ} (hn : |n| < 2 ^ 53)
    (h : nearest y = some (n : ℚ)) : |y - n| ≤ 1 / 2 := by
  have herr := abs_sub_le_of_nearest h
  have hone := abs_sub_intCast_le hn.le h
  have hcast : |(n : ℚ)| ≤ 2 ^ 53 - 1 := by exact_mod_cast Int.le_sub_one_of_lt hn
  have htriangle : |y| ≤ |y - n| + |(n : ℚ)| := by
    have hadd := abs_add_le (y - n) (n : ℚ)
    rwa [sub_add_cancel] at hadd
  have hle : |y| ≤ 2 ^ 53 := by linarith
  have hy : |y| < 2 ^ 53 := by
    refine lt_of_le_of_ne hle fun heq => ?_
    -- the power of two itself is not changed
    rw [nearest_eq_self (isFinite_of_abs_eq heq), Option.some.injEq] at h
    rw [← h, heq] at hcast
    norm_num at hcast
  have hulp := ulp_le (k := 53) le_rfl (by exact_mod_cast hy)
  norm_num at hulp
  linarith

/-- Up to `2 ^ 53` no other multiple of a power of ten rounds to an integer. -/
theorem mul_ten_pow_eq {d n : ℤ} {k : ℕ} (hn : |n| ≤ 2 ^ 53) (hk : k ≠ 0)
    (h : nearest ((d * 10 ^ k : ℤ) : ℚ) = some (n : ℚ)) : d * 10 ^ k = n := by
  obtain hlt | heq := hn.lt_or_eq
  · have hhalf := abs_sub_intCast_le_half hlt h
    have hint : |d * 10 ^ k - n| < 1 := by
      have hcast : |(d * 10 ^ k : ℤ) - (n : ℚ)| < 1 := by linarith
      exact_mod_cast hcast
    have hzero := Int.abs_lt_one_iff.mp hint
    omega
  · have hone : |d * 10 ^ k - n| ≤ 1 := by exact_mod_cast abs_sub_intCast_le hn h
    obtain ⟨j, rfl⟩ := Nat.exists_eq_succ_of_ne_zero hk
    have hten : d * 10 ^ (j + 1) = 10 * (d * 10 ^ j) := by ring
    rw [hten] at hone ⊢
    generalize d * 10 ^ j = c at hone ⊢
    rw [abs_le] at hone
    obtain rfl | rfl := (abs_eq (by norm_num)).mp heq <;> omega

theorem multipleFor_intCast {n d q : ℤ} (hn : |n| ≤ 2 ^ 53) (hq : 0 ≤ q)
    (h : multipleFor n q = some d) : (d : ℚ) * 10 ^ q = n := by
  obtain ⟨k, rfl⟩ := Int.eq_ofNat_of_zero_le hq
  by_cases hk : k = 0
  · subst hk
    have hself : nearest (n : ℚ) = some (n : ℚ) := nearest_eq_self (isFinite_intCast hn)
    simp only [multipleFor, Nat.cast_zero, zpow_zero, div_one, mul_one,
      roundEven_intCast, hself, if_true, Option.some.injEq] at h
    simp [h]
  · have hnearest := nearest_of_multipleFor h
    rw [zpow_natCast] at hnearest ⊢
    exact_mod_cast mul_ten_pow_eq hn hk (by exact_mod_cast hnearest)

theorem shortestBelow_intCast {n : ℤ} (hn : |n| ≤ 2 ^ 53) (k : ℕ) (hk : places ≤ k + 1) :
    (shortestBelow n (k + 1)).value = n := by
  induction k with
  | zero =>
    unfold places at hk
    omega
  | succ k ih =>
    have hq : 0 ≤ ((k + 1 : ℕ) : ℤ) + 1 - places := by omega
    rw [shortestBelow]
    cases hmultiple : multipleFor n ((k + 1 : ℕ) + 1 - places) with
    | some d =>
      rw [Option.elim_some, Decimal.value]
      exact multipleFor_intCast hn hq hmultiple
    | none =>
      rw [Option.elim_none]
      apply ih
      by_contra hlow
      have hzero : ((k + 1 : ℕ) : ℤ) + 1 - places = 0 := by omega
      have hself : nearest (n : ℚ) = some (n : ℚ) := nearest_eq_self (isFinite_intCast hn)
      rw [hzero] at hmultiple
      simp [multipleFor, hself] at hmultiple

theorem shortest_intCast {n : ℤ} (hn : |n| ≤ 2 ^ 53) : (shortest n).value = n := by
  have hsteps : 309 + places = (308 + places) + 1 := by omega
  rw [shortest, hsteps]
  exact shortestBelow_intCast hn (308 + places) (by omega)

end Integers

end Binary64
