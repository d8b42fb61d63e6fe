import Mathlib.Tactic.Common
import Mathlib.Tactic.IntervalCases

/-!
# Base64

Standard base64 with padding: three bytes become four characters, and one or two bytes at
the end are padded with `=`. Decoding inverts encoding. It accepts any bits under the
padding and ignores line breaks.
-/

namespace Base64

def char (n : Nat) : Char :=
  if n < 26 then Char.ofNat ('A'.toNat + n)
  else if n < 52 then Char.ofNat ('a'.toNat + (n - 26))
  else if n < 62 then Char.ofNat ('0'.toNat + (n - 52))
  else if n = 62 then '+' else '/'

def value (c : Char) : Option Nat :=
  if 'A' ≤ c ∧ c ≤ 'Z' then some (c.toNat - 'A'.toNat)
  else if 'a' ≤ c ∧ c ≤ 'z' then some (c.toNat - 'a'.toNat + 26)
  else if '0' ≤ c ∧ c ≤ '9' then some (c.toNat - '0'.toNat + 52)
  else if c = '+' then some 62
  else if c = '/' then some 63
  else none

@[simp] theorem value_char {n : Nat} (h : n < 64) : value (char n) = some n := by
  interval_cases n <;> decide

@[simp] theorem value_pad : value '=' = none := by decide

theorem char_toNat_lt (n : Nat) : (char n).toNat < 128 := by
  by_cases h : n < 63
  · interval_cases n <;> decide
  · have hlast : char n = '/' := by
      unfold char
      split_ifs <;> first | omega | rfl
    rw [hlast]
    decide

def encode : List UInt8 → List Char
  | [] => []
  | [a] =>
    [char (a.toNat / 4), char (a.toNat % 4 * 16), '=', '=']
  | [a, b] =>
    [char (a.toNat / 4), char (a.toNat % 4 * 16 + b.toNat / 16), char (b.toNat % 16 * 4), '=']
  | a :: b :: c :: rest =>
    char (a.toNat / 4) :: char (a.toNat % 4 * 16 + b.toNat / 16) ::
      char (b.toNat % 16 * 4 + c.toNat / 64) :: char (c.toNat % 64) :: encode rest

/-- The bytes of a group of four values, or of two or three of them before the padding. -/
def decodeGroups : List Char → Option (List UInt8)
  | [] => some []
  | p :: q :: r :: s :: rest =>
    match value p, value q, value r, value s with
    | some a, some b, some c, some d =>
      (decodeGroups rest).map fun bytes =>
        UInt8.ofNat (a * 4 + b / 16) :: UInt8.ofNat (b % 16 * 16 + c / 4) ::
          UInt8.ofNat (c % 4 * 64 + d) :: bytes
    | some a, some b, some c, none =>
      if s = '=' ∧ rest = [] then
        some [UInt8.ofNat (a * 4 + b / 16), UInt8.ofNat (b % 16 * 16 + c / 4)]
      else none
    | some a, some b, none, none =>
      if r = '=' ∧ s = '=' ∧ rest = [] then some [UInt8.ofNat (a * 4 + b / 16)] else none
    | _, _, _, _ => none
  | _ => none

def isLineBreak (c : Char) : Bool := c = '\r' || c = '\n'

def decode (text : List Char) : Option (List UInt8) :=
  decodeGroups (text.filter fun c => !isLineBreak c)

theorem ofNat_eq {n : Nat} {a : UInt8} (h : n = a.toNat) : UInt8.ofNat n = a := by
  subst h
  exact UInt8.ofNat_toNat

theorem decodeGroups_encode (bytes : List UInt8) : decodeGroups (encode bytes) = some bytes := by
  induction bytes using encode.induct with
  | case1 => rfl
  | case2 a =>
    have ha := a.toNat_lt
    have h : UInt8.ofNat (a.toNat / 4 * 4 + a.toNat % 4 * 16 / 16) = a := ofNat_eq (by omega)
    simp (disch := omega) only [encode, decodeGroups, value_char, value_pad, h, and_self, if_true]
  | case3 a b =>
    have ha := a.toNat_lt
    have hb := b.toNat_lt
    have h1 : UInt8.ofNat (a.toNat / 4 * 4 + (a.toNat % 4 * 16 + b.toNat / 16) / 16) = a :=
      ofNat_eq (by omega)
    have h2 : UInt8.ofNat ((a.toNat % 4 * 16 + b.toNat / 16) % 16 * 16 +
        b.toNat % 16 * 4 / 4) = b := ofNat_eq (by omega)
    simp (disch := omega) only [encode, decodeGroups, value_char, value_pad, h1, h2, and_self,
      if_true]
  | case4 a b c rest ih =>
    have ha := a.toNat_lt
    have hb := b.toNat_lt
    have hc := c.toNat_lt
    have h1 : UInt8.ofNat (a.toNat / 4 * 4 + (a.toNat % 4 * 16 + b.toNat / 16) / 16) = a :=
      ofNat_eq (by omega)
    have h2 : UInt8.ofNat ((a.toNat % 4 * 16 + b.toNat / 16) % 16 * 16 +
        (b.toNat % 16 * 4 + c.toNat / 64) / 4) = b := ofNat_eq (by omega)
    have h3 : UInt8.ofNat ((b.toNat % 16 * 4 + c.toNat / 64) % 4 * 64 + c.toNat % 64) = c :=
      ofNat_eq (by omega)
    simp (disch := omega) only [encode, decodeGroups, value_char, ih, h1, h2, h3, Option.map_some]

theorem length_le_encode (bytes : List UInt8) : bytes.length ≤ (encode bytes).length := by
  induction bytes using encode.induct with
  | case1 => simp [encode]
  | case2 a => simp [encode]
  | case3 a b => simp [encode]
  | case4 a b c rest ih =>
    simp only [encode, List.length_cons]
    omega

theorem encode_ascii (bytes : List UInt8) : ∀ c ∈ encode bytes, c.toNat < 128 := by
  induction bytes using encode.induct with
  | case1 => simp [encode]
  | case2 a => simp [encode, char_toNat_lt]
  | case3 a b => simp [encode, char_toNat_lt]
  | case4 a b c rest ih =>
    simp only [encode, List.mem_cons, forall_eq_or_imp]
    exact ⟨char_toNat_lt _, char_toNat_lt _, char_toNat_lt _, char_toNat_lt _, ih⟩

theorem value_char_ne_none (n : Nat) : value (char n) ≠ none := by
  by_cases h : n < 64
  · rw [value_char h]
    exact Option.some_ne_none n
  · have hlast : char n = '/' := by
      unfold char
      split_ifs <;> first | omega | rfl
    rw [hlast]
    decide

theorem encode_alphabet (bytes : List UInt8) : ∀ c ∈ encode bytes, value c ≠ none ∨ c = '=' := by
  induction bytes using encode.induct with
  | case1 => simp [encode]
  | case2 a => simp [encode, value_char_ne_none]
  | case3 a b => simp [encode, value_char_ne_none]
  | case4 a b c rest ih =>
    simp only [encode, List.mem_cons]
    rintro d (rfl | rfl | rfl | rfl | hd)
    · exact Or.inl (value_char_ne_none _)
    · exact Or.inl (value_char_ne_none _)
    · exact Or.inl (value_char_ne_none _)
    · exact Or.inl (value_char_ne_none _)
    · exact ih d hd

theorem decode_encode (bytes : List UInt8) : decode (encode bytes) = some bytes := by
  have hfilter : (encode bytes).filter (fun c => !isLineBreak c) = encode bytes := by
    apply List.filter_eq_self.mpr
    intro c hc
    by_contra hbreak
    simp only [isLineBreak, Bool.not_eq_true', Bool.not_eq_false, Bool.or_eq_true,
      decide_eq_true_eq] at hbreak
    have halphabet := encode_alphabet bytes c hc
    obtain rfl | rfl := hbreak <;> exact absurd halphabet (by decide)
  rw [decode, hfilter]
  exact decodeGroups_encode bytes

theorem encode_injective {a b : List UInt8} (h : encode a = encode b) : a = b := by
  apply Option.some.inj
  rw [← decode_encode a, h, decode_encode b]

end Base64
