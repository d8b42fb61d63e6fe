import Mathlib.Data.List.Induction
import Mathlib.Data.Nat.Log
import Mathlib.Data.Rat.Defs
import Mathlib.Algebra.Field.Rat
import Mathlib.Tactic.FieldSimp
import Mathlib.Tactic.IntervalCases
import Mathlib.Tactic.Linarith
import Mathlib.Tactic.NormNum
import Mathlib.Tactic.Ring

/-!
# Numerals

Decimal numerals as they stand in JSON: a sign, an integer without leading zeros, places
behind the point and an exponent. Reading a numeral takes as many characters as belong to it
and gives its exact value, its sign and whether it is written as an integer.
-/

namespace Numeral

section Digits

def digit (n : ℕ) : Char := Char.ofNat (48 + n % 10)

def digitValue (c : Char) : ℕ := c.toNat - 48

theorem digit_spec (n : ℕ) : (digit n).isDigit = true ∧ digitValue (digit n) = n % 10 := by
  have hlt : n % 10 < 10 := Nat.mod_lt n (by norm_num)
  unfold digit
  generalize n % 10 = d at hlt
  interval_cases d <;> decide

theorem digit_ne_zero {n : ℕ} (h : n % 10 ≠ 0) : digit n ≠ '0' := by
  intro hzero
  have hvalue := (digit_spec n).2
  rw [hzero] at hvalue
  exact h hvalue.symm

/-- The last `k` digits. -/
def padded : ℕ → ℕ → List Char
  | 0, _ => []
  | k + 1, n => padded k (n / 10) ++ [digit n]

def ofDigits (text : List Char) : ℕ := text.foldl (fun n c => 10 * n + digitValue c) 0

theorem ofDigits_append_singleton (text : List Char) (c : Char) :
    ofDigits (text ++ [c]) = 10 * ofDigits text + digitValue c := by
  simp [ofDigits]

theorem foldl_digits (start : ℕ) (text : List Char) :
    text.foldl (fun n c => 10 * n + digitValue c) start =
      start * 10 ^ text.length + ofDigits text := by
  induction text using List.reverseRecOn with
  | nil => simp [ofDigits]
  | append_singleton text c ih =>
    rw [List.foldl_append, ih, ofDigits_append_singleton, List.length_append]
    simp only [List.foldl_cons, List.foldl_nil, List.length_singleton]
    ring

theorem ofDigits_append (text more : List Char) :
    ofDigits (text ++ more) = ofDigits text * 10 ^ more.length + ofDigits more := by
  rw [ofDigits, List.foldl_append]
  exact foldl_digits _ more

theorem digitValue_le {c : Char} (h : c.isDigit = true) : digitValue c ≤ 9 := by
  have hle : c.val ≤ 57 := by
    unfold Char.isDigit at h
    simp only [Bool.and_eq_true, decide_eq_true_eq] at h
    exact h.2
  have hnat : c.toNat ≤ 57 := UInt32.le_iff_toNat_le.mp hle
  unfold digitValue
  omega

theorem ofDigits_lt {text : List Char} (h : ∀ c ∈ text, c.isDigit = true) :
    ofDigits text < 10 ^ text.length := by
  induction text using List.reverseRecOn with
  | nil => simp [ofDigits]
  | append_singleton text c ih =>
    have hc : digitValue c ≤ 9 := digitValue_le (h c (by simp))
    have htext := ih fun c hc => h c (by simp [hc])
    rw [ofDigits_append_singleton, List.length_append, List.length_singleton, Nat.pow_succ]
    omega

@[simp] theorem length_padded (k n : ℕ) : (padded k n).length = k := by
  induction k generalizing n with
  | zero => rfl
  | succ k ih => simp [padded, ih]

theorem isDigit_of_mem_padded {k n : ℕ} {c : Char} (h : c ∈ padded k n) : c.isDigit = true := by
  induction k generalizing n with
  | zero => simp [padded] at h
  | succ k ih =>
    rw [padded, List.mem_append, List.mem_singleton] at h
    obtain h | rfl := h
    · exact ih h
    · exact (digit_spec n).1

theorem ofDigits_padded (k n : ℕ) : ofDigits (padded k n) = n % 10 ^ k := by
  induction k generalizing n with
  | zero => simp [padded, ofDigits, Nat.mod_one]
  | succ k ih =>
    rw [padded, ofDigits_append_singleton, ih, (digit_spec n).2, pow_succ', Nat.mod_mul]
    ring

def natText (n : ℕ) : List Char := padded (Nat.log 10 n + 1) n

theorem ofDigits_natText (n : ℕ) : ofDigits (natText n) = n := by
  rw [natText, ofDigits_padded]
  exact Nat.mod_eq_of_lt (Nat.lt_pow_succ_log_self (by norm_num) n)

theorem padded_succ (k n : ℕ) : padded (k + 1) n = digit (n / 10 ^ k) :: padded k n := by
  induction k generalizing n with
  | zero => simp [padded]
  | succ k ih =>
    rw [padded, ih, Nat.div_div_eq_div_mul, ← pow_succ', padded]
    rfl

theorem natText_eq_cons (n : ℕ) :
    natText n = digit (n / 10 ^ Nat.log 10 n) :: padded (Nat.log 10 n) n :=
  padded_succ _ n

/-- An integer starts with `0` only if that is all. -/
def WellFormed (text : List Char) : Prop := text ≠ [] ∧ (text.head? = some '0' → text.length = 1)

instance (text : List Char) : Decidable (WellFormed text) :=
  inferInstanceAs (Decidable (_ ∧ _))

theorem wellFormed_natText (n : ℕ) : WellFormed (natText n) := by
  rw [natText_eq_cons]
  refine ⟨List.cons_ne_nil _ _, fun hhead => ?_⟩
  by_cases hn : n = 0
  · simp [hn]
  · exfalso
    have hle := Nat.pow_log_le_self 10 hn
    have hlt := Nat.lt_pow_succ_log_self (b := 10) (by norm_num) n
    rw [pow_succ'] at hlt
    have hpos : 0 < n / 10 ^ Nat.log 10 n := Nat.div_pos hle (by positivity)
    have hten : n / 10 ^ Nat.log 10 n < 10 := Nat.div_lt_of_lt_mul (by linarith)
    exact digit_ne_zero (by omega) (Option.some.inj hhead)

end Digits

section Text

/-- A numeral; the digits behind the point are the last `places` of `fraction`. -/
structure Literal where
  negative : Bool
  integer : ℕ
  places : ℕ := 0
  fraction : ℕ := 0
  exponent : Option ℤ := none
  deriving DecidableEq, Repr

def sign (negative : Bool) : ℚ := if negative then -1 else 1

def exponentText : Option ℤ → List Char
  | none => []
  | some e => 'e' :: (if e < 0 then '-' else '+') :: natText e.natAbs

def fractionText (places fraction : ℕ) : List Char :=
  if places = 0 then [] else '.' :: padded places fraction

namespace Literal

variable (l : Literal)

def value : ℚ :=
  sign l.negative * (l.integer * 10 ^ l.places + l.fraction % 10 ^ l.places : ℕ) *
    10 ^ (l.exponent.getD 0 - l.places)

def integral : Bool := l.places = 0 && l.exponent.isNone

def text : List Char :=
  (if l.negative then ['-'] else []) ++ natText l.integer ++
    fractionText l.places l.fraction ++ exponentText l.exponent

end Literal

def digits (text : List Char) : List Char × List Char :=
  (text.takeWhile Char.isDigit, text.dropWhile Char.isDigit)

def readSign : List Char → Bool × List Char
  | '-' :: rest => (true, rest)
  | text => (false, text)

def readFraction : List Char → Option (List Char × List Char)
  | '.' :: text =>
    if (digits text).1 = [] then none else some (digits text)
  | text => some ([], text)

structure Scanned where
  value : ℚ
  negative : Bool
  integral : Bool
  deriving DecidableEq, Repr

def Literal.scanned (l : Literal) : Scanned := ⟨l.value, l.negative, l.integral⟩

def readExponentDigits (negative : Bool) (text : List Char) : Option (Option ℤ × List Char) :=
  if (digits text).1 = [] then none
  else
    let e : ℤ := ofDigits (digits text).1
    some (some (if negative then -e else e), (digits text).2)

def readExponent : List Char → Option (Option ℤ × List Char)
  | 'e' :: '+' :: text | 'E' :: '+' :: text => readExponentDigits false text
  | 'e' :: '-' :: text | 'E' :: '-' :: text => readExponentDigits true text
  | 'e' :: text | 'E' :: text => readExponentDigits false text
  | text => some (none, text)

/-- The numeral at the start of a text and the rest. -/
def scan (text : List Char) : Option (Scanned × List Char) := do
  let (negative, text) := readSign text
  let (integer, text) := digits text
  if WellFormed integer then
    let (fraction, text) ← readFraction text
    let (exponent, text) ← readExponent text
    let value := sign negative * ofDigits (integer ++ fraction) *
      10 ^ (exponent.getD 0 - fraction.length)
    return (⟨value, negative, fraction.isEmpty && exponent.isNone⟩, text)
  else
    none

/-- The text does not go on with a character of a numeral. -/
def Stops (text : List Char) : Prop :=
  ∀ c, text.head? = some c → c.isDigit = false ∧ c ≠ '.' ∧ c ≠ 'e' ∧ c ≠ 'E'

theorem digits_append {ds rest : List Char} (hds : ∀ c ∈ ds, c.isDigit = true)
    (hrest : ∀ c, rest.head? = some c → c.isDigit = false) : digits (ds ++ rest) = (ds, rest) := by
  rw [digits, List.takeWhile_append_of_pos hds, List.dropWhile_append_of_pos hds]
  cases rest with
  | nil => simp
  | cons c rest => simp [hrest c rfl]

theorem isDigit_of_mem_natText {n : ℕ} {c : Char} (h : c ∈ natText n) : c.isDigit = true :=
  isDigit_of_mem_padded h

theorem readExponentDigits_natText (negative : Bool) (n : ℕ) {rest : List Char}
    (hrest : Stops rest) :
    readExponentDigits negative (natText n ++ rest) =
      some (some (if negative then -(n : ℤ) else n), rest) := by
  have hdigits := digits_append (fun c => isDigit_of_mem_natText (n := n) (c := c))
    fun c hc => (hrest c hc).1
  rw [readExponentDigits, hdigits, if_neg (wellFormed_natText n).1, ofDigits_natText]

theorem readExponent_text (e : Option ℤ) {rest : List Char} (hrest : Stops rest) :
    readExponent (exponentText e ++ rest) = some (e, rest) := by
  cases e with
  | none =>
    cases rest with
    | nil => rfl
    | cons c rest =>
      obtain ⟨-, -, he, hE⟩ := hrest c rfl
      simp only [exponentText, List.nil_append]
      unfold readExponent
      split <;> simp_all
  | some e =>
    by_cases hneg : e < 0
    · have hread := readExponentDigits_natText true e.natAbs hrest
      have habs : -(e.natAbs : ℤ) = e := by omega
      simp only [exponentText, if_pos hneg, List.cons_append]
      rw [readExponent, hread, if_pos rfl, habs]
    · have hread := readExponentDigits_natText false e.natAbs hrest
      have habs : (e.natAbs : ℤ) = e := by omega
      simp only [exponentText, if_neg hneg, List.cons_append]
      rw [readExponent, hread, if_neg Bool.false_ne_true, habs]

theorem head_exponentText {e : Option ℤ} {rest : List Char} (hrest : Stops rest) :
    ∀ c, (exponentText e ++ rest).head? = some c → c.isDigit = false ∧ c ≠ '.' := by
  intro c hc
  cases e with
  | none =>
    obtain ⟨hdigit, hpoint, -⟩ := hrest c hc
    exact ⟨hdigit, hpoint⟩
  | some e =>
    cases hc
    decide

theorem readFraction_text (places fraction : ℕ) {rest : List Char}
    (hrest : ∀ c, rest.head? = some c → c.isDigit = false ∧ c ≠ '.') :
    readFraction (fractionText places fraction ++ rest) = some (padded places fraction, rest) := by
  unfold fractionText
  split_ifs with hplaces
  · subst hplaces
    rw [List.nil_append]
    cases rest with
    | nil => rfl
    | cons c rest =>
      obtain ⟨-, hpoint⟩ := hrest c rfl
      unfold readFraction
      split
      · rename_i heq
        cases heq
        exact absurd rfl hpoint
      · rfl
  · have hdigits := digits_append
      (fun c => isDigit_of_mem_padded (k := places) (n := fraction) (c := c))
      fun c hc => (hrest c hc).1
    have hne : padded places fraction ≠ [] := by
      intro hnil
      have hlength := length_padded places fraction
      rw [hnil] at hlength
      exact hplaces hlength.symm
    rw [List.cons_append, readFraction, hdigits, if_neg hne]

theorem readSign_text (negative : Bool) (n : ℕ) (rest : List Char) :
    readSign ((if negative then ['-'] else []) ++ (natText n ++ rest)) =
      (negative, natText n ++ rest) := by
  cases negative with
  | true => rfl
  | false =>
    have hdigit := (digit_spec (n / 10 ^ Nat.log 10 n)).1
    rw [natText_eq_cons]
    simp only [Bool.false_eq_true, if_false, List.nil_append, List.cons_append]
    unfold readSign
    split
    · rename_i heq
      rw [List.cons.injEq] at heq
      rw [heq.1] at hdigit
      exact absurd hdigit (by decide)
    · rfl

theorem isEmpty_padded (places n : ℕ) : (padded places n).isEmpty = decide (places = 0) := by
  cases places with
  | zero => rfl
  | succ places => simp [padded_succ]

theorem scan_text (l : Literal) {rest : List Char} (hrest : Stops rest) :
    scan (l.text ++ rest) = some (l.scanned, rest) := by
  have hexponent := readExponent_text l.exponent hrest
  have hfraction := readFraction_text l.places l.fraction
    (head_exponentText (e := l.exponent) hrest)
  have hhead : ∀ c, (fractionText l.places l.fraction ++ (exponentText l.exponent ++ rest)).head? =
      some c → c.isDigit = false := by
    intro c hc
    unfold fractionText at hc
    split_ifs at hc
    · exact (head_exponentText hrest c hc).1
    · cases hc
      decide
  have hinteger := digits_append (fun c => isDigit_of_mem_natText (n := l.integer) (c := c)) hhead
  have hdigits : ofDigits (natText l.integer ++ padded l.places l.fraction) =
      l.integer * 10 ^ l.places + l.fraction % 10 ^ l.places := by
    rw [ofDigits_append, ofDigits_natText, ofDigits_padded, length_padded]
  rw [Literal.text, List.append_assoc, List.append_assoc, List.append_assoc, scan, readSign_text]
  simp only [hinteger, if_pos (wellFormed_natText l.integer), hfraction, Option.bind_eq_bind,
    Option.bind_some, hexponent, hdigits, length_padded, isEmpty_padded, Option.pure_def,
    Literal.scanned, Literal.value, Literal.integral]

end Text

end Numeral
