import AsyncJobs.Codec.Binary64
import AsyncJobs.Model.Scheduler
import Mathlib.Algebra.Order.Field.Rat
import Mathlib.Data.Rat.Floor

/-!
# Retry policies

The intervals of a policy are computed in unsigned 64 bit words and read back as durations.
The jitter is a rational and its product with an interval is exact; the random draw and the sum
of both are rounded to floats. Durations are nanoseconds.
-/

namespace AsyncJobs

def millisecond : Int := 10 ^ 6

def minute : Int := 60 * second

/-- The conversion of a signed word to an unsigned one. -/
def toUint64 (d : Int) : Nat := (d % 2 ^ 64).toNat

/-- The conversion of an unsigned word to a duration. -/
def ofUint64 (x : Nat) : Int := if x % 2 ^ 64 < 2 ^ 63 then x % 2 ^ 64 else x % 2 ^ 64 - 2 ^ 64

/-- The conversion of a float to an integer drops the fraction. -/
def truncate (x : ℚ) : Int := if 0 ≤ x then ⌊x⌋ else ⌈x⌉

/-- The results of `rand.Int63n`, which are below its argument. -/
structure Int63n where
  draw : Int → Int
  nonneg : ∀ {d}, 0 < d → 0 ≤ draw d
  lt : ∀ {d}, 0 < d → draw d < d

def Int63n.zero : Int63n := ⟨fun _ => 0, fun _ => le_rfl, id⟩

structure RetryPolicy where
  intervals : List Int
  jitter : ℚ
  deriving DecidableEq, Repr

/-- A division by zero panics. -/
def linearPolicy (steps : UInt64) (jitter : ℚ) (min max : Int) : Except Fault RetryPolicy :=
  let (min, max) := if max < min then (max, min) else (min, max)
  if steps = 0 then .error (.panic "runtime error: integer divide by zero")
  else
    let stepSize := toUint64 (max - min) / steps.toNat
    .ok ⟨(List.range steps.toNat).map fun i => ofUint64 (toUint64 min + i * stepSize), jitter⟩

namespace RetryPolicy

/-- `jitter` of the source; `rand.Int63n` panics unless its argument is positive. -/
def jittered (p : RetryPolicy) (rand : Int63n) (d : Int) : Except Fault Int :=
  if d = 0 then .ok 0
  else if d < 0 then .error (.panic "invalid argument to Int63n")
  else
    let jf := Binary64.rounded (d * p.jitter + Binary64.rounded (rand.draw d))
    .ok (durationRound (truncate jf) millisecond)

/-- An interval of the policy; an index outside of it panics. -/
def interval (p : RetryPolicy) (n : Int) : Except Fault Int :=
  match n with
  | .ofNat i =>
    match p.intervals[i]? with
    | some d => .ok d
    | none => .error (.panic "runtime error: index out of range")
  | .negSucc _ => .error (.panic "runtime error: index out of range")

def duration (p : RetryPolicy) (rand : Int63n) (n : Int) : Except Fault Int := do
  let n := if p.intervals.length ≤ n then (p.intervals.length : Int) - 1 else n
  let delay ← p.jittered rand (← p.interval n)
  if delay = 0 then p.interval 0 else .ok delay

end RetryPolicy

def retryLinearTenMinutes : Except Fault RetryPolicy :=
  linearPolicy 50 (9 / 10) minute (10 * minute)

def retryLinearOneHour : Except Fault RetryPolicy :=
  linearPolicy 20 (9 / 10) (10 * minute) (60 * minute)

def retryLinearOneMinute : Except Fault RetryPolicy := linearPolicy 20 (1 / 2) second minute

def retryDefault : Except Fault RetryPolicy := retryLinearTenMinutes

def policies : List (String × Except Fault RetryPolicy) :=
  [("default", retryDefault), ("1m", retryLinearOneMinute), ("10m", retryLinearTenMinutes),
    ("1h", retryLinearOneHour)]

def retryPolicyLookup (name : String) : Except Fault RetryPolicy :=
  match policies.lookup name with
  | none => .error (.error (Sentinel.unknownRetryPolicy.error.wrap (": " ++ name)))
  | some policy => policy

end AsyncJobs
