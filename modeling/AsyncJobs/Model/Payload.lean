import AsyncJobs.Codec.Binary64
import AsyncJobs.Codec.JsonText
import AsyncJobs.Model.Api

/-!
# Payloads that are JSON values

The `payload` of a request is decoded into an untyped value, in which every number is a
`float64` and every object a map, and `NewTask` encodes that value again. The two functions
of `encoding/json` are given here: a value that was sent is a JSON value over the exact
numbers, an untyped value is one over the finite floats with its maps sorted.
-/

namespace AsyncJobs

open Binary64 Numeral

/-- A finite `float64`; the sign of a zero is left out. -/
structure Float64 where
  value : ℚ
  finite : IsFinite value

/-- The untyped values of `encoding/json`. -/
abbrev Any := Json Float64

/-- `strconv.ParseFloat`, which fails beyond the range. -/
def parseFloat (x : ℚ) : Option Float64 :=
  match h : nearest x with
  | none => none
  | some f => some ⟨f, isFinite_of_nearest h⟩

theorem parseFloat_value {x : ℚ} {f : Float64} (h : nearest x = some f.value) :
    parseFloat x = some f := by
  unfold parseFloat
  split
  · rename_i hnone
    rw [h] at hnone
    cases hnone
  · rename_i g hsome
    rw [h] at hsome
    cases hsome
    rfl

def Float64.zero : Float64 := ⟨0, by exact_mod_cast isFinite_intCast (n := 0) (by norm_num)⟩

/-- The number is left out of the text. -/
def numberOutOfRange : Error :=
  .plain "json: cannot unmarshal number into Go value of type float64"

/-- Decoding goes on behind a number that is out of range and returns its error at the end. -/
def unmarshalAny (v : Json ℚ) : Except Error Any :=
  if v.numbers.all fun x => (parseFloat x).isSome then
    .ok (v.map fun x => (parseFloat x).getD .zero).canonical
  else
    .error numberOutOfRange

section Formatting

/-- The format without an exponent. A shortest decimal does not end in 0. -/
def plainLiteral (d : Decimal) : Literal :=
  if 0 ≤ d.exponent then
    { negative := d.coefficient < 0
      integer := d.coefficient.natAbs * 10 ^ d.exponent.toNat }
  else
    { negative := d.coefficient < 0
      integer := d.coefficient.natAbs / 10 ^ (-d.exponent).toNat
      places := (-d.exponent).toNat
      fraction := d.coefficient.natAbs }

/-- The format with one digit in front of the point. -/
def scientificLiteral (d : Decimal) : Literal :=
  let places := Nat.log 10 d.coefficient.natAbs
  { negative := d.coefficient < 0
    integer := d.coefficient.natAbs / 10 ^ places
    places := places
    fraction := d.coefficient.natAbs
    exponent := some (d.exponent + places) }

/-- How `encoding/json` writes a float; the lower limit is itself a float. -/
def formatFloat (f : Float64) : Literal :=
  if f.value ≠ 0 ∧ (|f.value| < rounded (1 / 10 ^ 6) ∨ 10 ^ 21 ≤ |f.value|) then
    scientificLiteral (shortest f.value)
  else
    plainLiteral (shortest f.value)

theorem sign_mul_natAbs (c : ℤ) : sign (c < 0) * (c.natAbs : ℚ) = c := by
  rw [Nat.cast_natAbs, Int.cast_abs]
  unfold sign
  by_cases hneg : c < 0
  · have hcast : (c : ℚ) < 0 := by exact_mod_cast hneg
    simp [hneg, abs_of_neg hcast]
  · have hcast : 0 ≤ (c : ℚ) := by exact_mod_cast not_lt.mp hneg
    simp [hneg, abs_of_nonneg hcast]

theorem plainLiteral_value (d : Decimal) : (plainLiteral d).value = d.value := by
  unfold plainLiteral
  split_ifs with hexponent
  · have hpow : (10 : ℚ) ^ d.exponent.toNat = 10 ^ d.exponent := by
      rw [← zpow_natCast, Int.toNat_of_nonneg hexponent]
    have hdigits : d.coefficient.natAbs * 10 ^ d.exponent.toNat * 10 ^ 0 + 0 % 10 ^ 0 =
        d.coefficient.natAbs * 10 ^ d.exponent.toNat := by
      simp
    simp only [Literal.value, hdigits, Nat.cast_mul, Nat.cast_pow, Nat.cast_ofNat, hpow,
      ← mul_assoc, sign_mul_natAbs, Option.getD_none, Nat.cast_zero, sub_self, zpow_zero, mul_one,
      Decimal.value]
  · have hplaces : ((-d.exponent).toNat : ℤ) = -d.exponent := Int.toNat_of_nonneg (by omega)
    have hdigits : d.coefficient.natAbs / 10 ^ (-d.exponent).toNat * 10 ^ (-d.exponent).toNat +
        d.coefficient.natAbs % 10 ^ (-d.exponent).toNat = d.coefficient.natAbs :=
      Nat.div_add_mod' _ _
    simp only [Literal.value, hdigits, hplaces, Option.getD_none, sign_mul_natAbs, Decimal.value]
    simp

theorem scientificLiteral_value (d : Decimal) : (scientificLiteral d).value = d.value := by
  unfold scientificLiteral
  generalize Nat.log 10 d.coefficient.natAbs = places
  have hdigits : d.coefficient.natAbs / 10 ^ places * 10 ^ places +
      d.coefficient.natAbs % 10 ^ places = d.coefficient.natAbs :=
    Nat.div_add_mod' _ _
  simp only [Literal.value, hdigits, Option.getD_some, sign_mul_natAbs, Decimal.value,
    add_sub_cancel_right]

theorem formatFloat_value (f : Float64) : (formatFloat f).value = (shortest f.value).value := by
  unfold formatFloat
  split_ifs
  · exact scientificLiteral_value _
  · exact plainLiteral_value _

end Formatting

/-- `json.Marshal` of an untyped value. -/
def jsonMarshalAny (a : Any) : Except Error Bytes := .ok (a.encode formatFloat)

/-- A JSON null is no payload. -/
def unmarshalPayload : Option (Json ℚ) → Except Error (Option Any)
  | none | some .null => .ok none
  | some v =>
    match unmarshalAny v with
    | .error err => .error err
    | .ok a => .ok (some a)

/-- The decoded body of a request that sends a payload. -/
def TaskCreateRequest.unmarshal (sent : TaskCreateRequest (Json ℚ)) :
    Except Error (TaskCreateRequest Any) :=
  match unmarshalPayload sent.payload with
  | .error err => .error err
  | .ok payload => .ok {
      deadline := sent.deadline
      dependencies := sent.dependencies
      loadDependencies := sent.loadDependencies
      maxTries := sent.maxTries
      payload
      payloadBase64 := sent.payloadBase64
      queue := sent.queue
      signature := sent.signature
      type := sent.type }

def ScheduleCreateRequest.unmarshal (sent : ScheduleCreateRequest (Json ℚ)) :
    Except Error (ScheduleCreateRequest Any) :=
  match unmarshalPayload sent.payload with
  | .error err => .error err
  | .ok payload => .ok {
      name := sent.name
      schedule := sent.schedule
      queue := sent.queue
      taskType := sent.taskType
      deadlineOffset := sent.deadlineOffset
      maxTries := sent.maxTries
      payload
      payloadBase64 := sent.payloadBase64 }

end AsyncJobs
