import AsyncJobs.Codec.Base64
import AsyncJobs.Model.Error

/-!
# Byte encodings

Hexadecimal text for keys and signatures, and the JSON form of a byte slice, which is a
base64 string or `null` for a nil slice.
-/

namespace AsyncJobs

abbrev Bytes := List UInt8

def hexDigit (c : Char) : Option Nat :=
  if '0' ≤ c ∧ c ≤ '9' then some (c.toNat - '0'.toNat)
  else if 'a' ≤ c ∧ c ≤ 'f' then some (c.toNat - 'a'.toNat + 10)
  else if 'A' ≤ c ∧ c ≤ 'F' then some (c.toNat - 'A'.toNat + 10)
  else none

def hexChar (n : Nat) : Char :=
  Char.ofNat (if n < 10 then '0'.toNat + n else 'a'.toNat + (n - 10))

def firstByte (c : Char) : Nat :=
  if c.toNat < 0x80 then c.toNat
  else if c.toNat < 0x800 then 0xC0 + c.toNat / 0x40
  else if c.toNat < 0x10000 then 0xE0 + c.toNat / 0x1000
  else 0xF0 + c.toNat / 0x40000

/-- A byte in the format `%#U`, with the character of that number if it can be printed. -/
def formatByte (b : Nat) : String :=
  let number := "U+00" ++ String.ofList [(hexChar (b / 16)).toUpper, (hexChar (b % 16)).toUpper]
  if (0x20 ≤ b ∧ b < 0x7F) ∨ (0xA1 ≤ b ∧ b ≠ 0xAD) then
    number ++ " '" ++ String.ofList [Char.ofNat b] ++ "'"
  else number

def hexInvalidByte (c : Char) : Error :=
  .plain ("encoding/hex: invalid byte: " ++ formatByte (firstByte c))

/-- `hex.DecodeString`: pairs of digits, a bad digit reported before an odd length. -/
def hexDecode : List Char → Except Error Bytes
  | [] => .ok []
  | [p] =>
    match hexDigit p with
    | none => .error (hexInvalidByte p)
    | some _ => .error (.plain "encoding/hex: odd length hex string")
  | p :: q :: rest =>
    match hexDigit p, hexDigit q with
    | none, _ => .error (hexInvalidByte p)
    | some _, none => .error (hexInvalidByte q)
    | some a, some b =>
      match hexDecode rest with
      | .ok bytes => .ok (UInt8.ofNat (16 * a + b) :: bytes)
      | .error e => .error e

/-- `hex.EncodeToString`. -/
def hexEncode (bytes : Bytes) : String :=
  String.ofList (bytes.flatMap fun b => [hexChar (b.toNat / 16), hexChar (b.toNat % 16)])

theorem hexDigit_hexChar {n : Nat} (h : n < 16) : hexDigit (hexChar n) = some n := by
  have hall : ∀ k : Fin 16, hexDigit (hexChar k) = some k.val := by decide
  exact hall ⟨n, h⟩

theorem hexDecode_hexEncode (bytes : Bytes) : hexDecode (hexEncode bytes).toList = .ok bytes := by
  unfold hexEncode
  rw [String.toList_ofList]
  induction bytes with
  | nil => rfl
  | cons b bytes ih =>
    have hlt := b.toNat_lt
    have hhigh : hexDigit (hexChar (b.toNat / 16)) = some (b.toNat / 16) :=
      hexDigit_hexChar (by omega)
    have hlow : hexDigit (hexChar (b.toNat % 16)) = some (b.toNat % 16) :=
      hexDigit_hexChar (by omega)
    have hbyte : 16 * (b.toNat / 16) + b.toNat % 16 = b.toNat := by omega
    rw [List.flatMap_cons, List.cons_append, List.cons_append, List.nil_append, hexDecode, hhigh,
      hlow]
    simp only [ih, hbyte, UInt8.ofNat_toNat]

/-- The bytes of a text whose characters are all ASCII. -/
def asciiBytes (text : List Char) : Bytes := text.map fun c => UInt8.ofNat c.toNat

/-- `json.Marshal` of a byte slice, with `none` for the nil slice. -/
def jsonMarshalBytes : Option Bytes → Bytes
  | none => asciiBytes "null".toList
  | some bytes => asciiBytes ('"' :: Base64.encode bytes ++ ['"'])

def asciiText (bytes : Bytes) : List Char := bytes.map fun b => Char.ofNat b.toNat

theorem asciiText_asciiBytes {text : List Char} (h : ∀ c ∈ text, c.toNat < 128) :
    asciiText (asciiBytes text) = text := by
  induction text with
  | nil => rfl
  | cons c text ih =>
    simp only [List.mem_cons, forall_eq_or_imp] at h
    have hc : (UInt8.ofNat c.toNat).toNat = c.toNat := by
      simp only [UInt8.toNat_ofNat']
      omega
    have hrest := ih h.2
    simp only [asciiText, asciiBytes, List.map_cons, List.cons.injEq] at hrest ⊢
    rw [hc, Char.ofNat_toNat]
    exact ⟨rfl, hrest⟩

/-- `json.Unmarshal` into a byte slice, for texts without escape sequences. -/
def jsonUnmarshalBytes (json : Bytes) : Except Error (Option Bytes) :=
  if asciiText json = "null".toList then .ok none
  else
    match asciiText json with
    | '"' :: rest =>
      -- no line break can stand in a JSON string
      match Base64.decodeGroups rest.dropLast with
      | some bytes => if rest.getLast? = some '"' then .ok (some bytes) else
          .error (.plain "unexpected end of JSON input")
      | none => .error (.plain "illegal base64 data")
    | _ => .error (.plain "json: cannot unmarshal into Go value of type []uint8")

theorem jsonUnmarshalBytes_jsonMarshalBytes (slice : Option Bytes) :
    jsonUnmarshalBytes (jsonMarshalBytes slice) = .ok slice := by
  cases slice with
  | none => decide
  | some bytes =>
    have htext : asciiText (jsonMarshalBytes (some bytes)) =
        '"' :: (Base64.encode bytes ++ ['"']) := by
      apply asciiText_asciiBytes
      intro c hc
      simp only [List.cons_append, List.mem_cons, List.mem_append, List.not_mem_nil,
        or_false] at hc
      rcases hc with hc | hc | hc
      · subst hc
        decide
      · exact Base64.encode_ascii bytes c hc
      · subst hc
        decide
    have hnull : '"' :: (Base64.encode bytes ++ ['"']) ≠ "null".toList := by
      intro heq
      have hhead := congrArg List.head? heq
      revert hhead
      simp
    simp only [jsonUnmarshalBytes, htext, hnull, if_false, List.dropLast_concat,
      List.getLast?_concat, Base64.decodeGroups_encode, if_true]

/-- Re-encoding a byte slice as JSON makes it longer, so it is never the identity. -/
theorem jsonMarshalBytes_length (slice : Option Bytes) :
    (slice.getD []).length < (jsonMarshalBytes slice).length := by
  cases slice with
  | none => decide
  | some bytes =>
    have h := Base64.length_le_encode bytes
    simp only [Option.getD_some, jsonMarshalBytes, asciiBytes, List.length_map,
      List.length_append, List.length_cons, List.length_nil]
    omega

end AsyncJobs
