import Mathlib.Data.List.DropRight
import AsyncJobs.Codec.Json
import AsyncJobs.Codec.Numeral

/-!
# JSON texts

A writer of JSON values, for any way of writing numbers, and a reader of JSON documents that
takes numbers at their exact values. The writer leaves no blanks and escapes what must not
stand in an HTML page. The reader replaces bytes that are not UTF-8 and surrogates without a
partner. What was written is read as the same value, its members in their order.
-/

namespace Json

section Strings

def hexChar (n : ℕ) : Char :=
  if n % 16 < 10 then Char.ofNat (48 + n % 16) else Char.ofNat (87 + n % 16)

def hexValue (c : Char) : Option ℕ :=
  if '0' ≤ c ∧ c ≤ '9' then some (c.toNat - 48)
  else if 'a' ≤ c ∧ c ≤ 'f' then some (c.toNat - 87)
  else if 'A' ≤ c ∧ c ≤ 'F' then some (c.toNat - 55)
  else none

theorem hexValue_hexChar (n : ℕ) : hexValue (hexChar n) = some (n % 16) := by
  have hlt : n % 16 < 16 := Nat.mod_lt n (by norm_num)
  unfold hexChar
  generalize n % 16 = d at hlt
  interval_cases d <;> decide

def hex4 (a b c d : Char) : Option ℕ := do
  let a ← hexValue a
  let b ← hexValue b
  let c ← hexValue c
  let d ← hexValue d
  return ((a * 16 + b) * 16 + c) * 16 + d

theorem hex4_hexChar {n : ℕ} (h : n < 65536) :
    hex4 (hexChar (n / 4096)) (hexChar (n / 256)) (hexChar (n / 16)) (hexChar n) = some n := by
  have hvalue : ((n / 4096 % 16 * 16 + n / 256 % 16) * 16 + n / 16 % 16) * 16 + n % 16 = n := by
    omega
  simp only [hex4, hexValue_hexChar, Option.bind_eq_bind, Option.bind_some, Option.pure_def, hvalue]

def unescape (c : Char) : Option Char :=
  if c = '"' ∨ c = '\\' ∨ c = '/' then some c
  else if c = 'b' then some '\x08'
  else if c = 'f' then some '\x0c'
  else if c = 'n' then some '\n'
  else if c = 'r' then some '\r'
  else if c = 't' then some '\t'
  else none

def prepend (c : Char) (r : Option (List Char × List Char)) : Option (List Char × List Char) :=
  r.map fun (text, rest) => (c :: text, rest)

/-- What stands for a character that cannot be decoded. -/
def replacement : Char := '\uFFFD'

def readString : List Char → Option (List Char × List Char)
  | [] => none
  | '"' :: rest => some ([], rest)
  | '\\' :: 'u' :: a :: b :: c :: d :: rest =>
    match hex4 a b c d with
    | none => none
    | some n =>
      if 0xD800 ≤ n ∧ n < 0xDC00 then
        match rest with
        | '\\' :: 'u' :: e :: f :: g :: h :: rest =>
          match hex4 e f g h with
          | none => none
          | some m =>
            if 0xDC00 ≤ m ∧ m < 0xE000 then
              prepend (Char.ofNat (0x10000 + (n - 0xD800) * 0x400 + (m - 0xDC00))) (readString rest)
            else
              prepend replacement (readString ('\\' :: 'u' :: e :: f :: g :: h :: rest))
        | rest => prepend replacement (readString rest)
      else if 0xDC00 ≤ n ∧ n < 0xE000 then prepend replacement (readString rest)
      else prepend (Char.ofNat n) (readString rest)
  | '\\' :: c :: rest =>
    match unescape c with
    | none => none
    | some c => prepend c (readString rest)
  | c :: rest => if c.toNat < 32 ∨ c = '\\' then none else prepend c (readString rest)

def unicodeEscape (n : ℕ) : List Char :=
  ['\\', 'u', hexChar (n / 4096), hexChar (n / 256), hexChar (n / 16), hexChar n]

/-- The characters that are written by their number. -/
def needsUnicode (c : Char) : Bool :=
  c.toNat < 32 || c = '<' || c = '>' || c = '&' || c.toNat = 0x2028 || c.toNat = 0x2029

def escape (c : Char) : List Char :=
  if c = '"' ∨ c = '\\' then ['\\', c]
  else if c = '\x08' then ['\\', 'b']
  else if c = '\x0c' then ['\\', 'f']
  else if c = '\n' then ['\\', 'n']
  else if c = '\r' then ['\\', 'r']
  else if c = '\t' then ['\\', 't']
  else if needsUnicode c then unicodeEscape c.toNat
  else [c]

def stringText (s : String) : List Char := '"' :: s.toList.flatMap escape ++ ['"']

theorem readString_letter {c d : Char} (hunescape : unescape d = some c) (rest : List Char) :
    readString ('\\' :: d :: rest) = prepend c (readString rest) := by
  have hd : d ≠ 'u' := by
    rintro rfl
    cases hunescape
  rw [readString, hunescape]
  intro _ _ _ _ _ hu
  exact absurd hu hd

theorem readString_unicode {n : ℕ} (hn : n < 0xD800) (rest : List Char) :
    readString (unicodeEscape n ++ rest) = prepend (Char.ofNat n) (readString rest) := by
  have hhex := hex4_hexChar (n := n) (by omega)
  simp only [unicodeEscape, List.cons_append, List.nil_append]
  rw [readString, hhex]
  simp only
  rw [if_neg (by omega), if_neg (by omega)]

theorem needsUnicode_lt {c : Char} (h : needsUnicode c = true) : c.toNat < 0xD800 := by
  simp only [needsUnicode, Bool.or_eq_true, decide_eq_true_eq] at h
  obtain ((((h | rfl) | rfl) | rfl) | h) | h := h
  · omega
  · decide
  · decide
  · decide
  · omega
  · omega

theorem readString_plain {c : Char} (hquote : c ≠ '"') (hslash : c ≠ '\\') (hc : 32 ≤ c.toNat)
    (rest : List Char) : readString (c :: rest) = prepend c (readString rest) := by
  have hcontrol : ¬ (c.toNat < 32 ∨ c = '\\') := by
    rintro (hlt | heq)
    · omega
    · exact hslash heq
  rw [readString.eq_def]
  split <;> simp_all

theorem readString_escape (c : Char) (rest : List Char) :
    readString (escape c ++ rest) = prepend c (readString rest) := by
  unfold escape
  split_ifs with hself hb hf hn hr ht hunicode
  · apply readString_letter
    obtain rfl | rfl := hself <;> decide
  · exact readString_letter (by rw [hb]; decide) rest
  · exact readString_letter (by rw [hf]; decide) rest
  · exact readString_letter (by rw [hn]; decide) rest
  · exact readString_letter (by rw [hr]; decide) rest
  · exact readString_letter (by rw [ht]; decide) rest
  · have hread := readString_unicode (needsUnicode_lt hunicode) rest
    rwa [Char.ofNat_toNat] at hread
  · obtain ⟨hquote, hslash⟩ := not_or.mp hself
    have hc : 32 ≤ c.toNat := by
      by_contra hlt
      simp [needsUnicode, not_le.mp hlt] at hunicode
    exact readString_plain hquote hslash hc rest

theorem readString_text (text rest : List Char) :
    readString (text.flatMap escape ++ '"' :: rest) = some (text, rest) := by
  induction text with
  | nil => rw [List.flatMap_nil, List.nil_append, readString]
  | cons c text ih =>
    rw [List.flatMap_cons, List.append_assoc, readString_escape, ih]
    rfl

end Strings

section Writing

variable {ν : Type} (literal : ν → Numeral.Literal)

mutual

/-- The text of a value; the brackets are closed by the text of what follows the first item. -/
def text : Json ν → List Char
  | null => ['n', 'u', 'l', 'l']
  | bool true => ['t', 'r', 'u', 'e']
  | bool false => ['f', 'a', 'l', 's', 'e']
  | number x => (literal x).text
  | string s => stringText s
  | array [] => ['[', ']']
  | array (v :: items) => '[' :: (text v ++ itemsText items)
  | object [] => ['\x7b', '\x7d']
  | object ((name, v) :: members) =>
    '\x7b' :: (stringText name ++ ':' :: (text v ++ membersText members))

def itemsText : List (Json ν) → List Char
  | [] => [']']
  | v :: items => ',' :: (text v ++ itemsText items)

def membersText : List (String × Json ν) → List Char
  | [] => ['\x7d']
  | (name, v) :: members => ',' :: (stringText name ++ ':' :: (text v ++ membersText members))

end

end Writing

section Reading

def isBlank (c : Char) : Bool := c = ' ' || c = '\t' || c = '\n' || c = '\r'

def skipBlanks (text : List Char) : List Char := text.dropWhile isBlank

def readWord : List Char → Option (Json Numeral.Scanned × List Char)
  | 'n' :: 'u' :: 'l' :: 'l' :: rest => some (null, rest)
  | 't' :: 'r' :: 'u' :: 'e' :: rest => some (bool true, rest)
  | 'f' :: 'a' :: 'l' :: 's' :: 'e' :: rest => some (bool false, rest)
  | _ => none

def readName (text : List Char) : Option (String × List Char) :=
  match skipBlanks text with
  | '"' :: rest =>
    match readString rest with
    | none => none
    | some (name, rest) =>
      match skipBlanks rest with
      | ':' :: rest => some (String.ofList name, rest)
      | _ => none
  | _ => none

mutual

/-- The value at the start of a text and the rest; `n` bounds the depth. -/
def readValue : ℕ → List Char → Option (Json Numeral.Scanned × List Char)
  | 0, _ => none
  | n + 1, text =>
    match skipBlanks text with
    | [] => none
    | c :: rest =>
      if c = '-' ∨ c.isDigit then
        (Numeral.scan (c :: rest)).map fun r => (number r.1, r.2)
      else if c = '"' then
        (readString rest).map fun r => (string (String.ofList r.1), r.2)
      else if c = '[' then
        if (skipBlanks rest).head? = some ']' then some (array [], (skipBlanks rest).tail)
        else (readItem n rest).map fun r => (array r.1, r.2)
      else if c = '\x7b' then
        if (skipBlanks rest).head? = some '\x7d' then some (object [], (skipBlanks rest).tail)
        else (readMember n rest).map fun r => (object r.1, r.2)
      else readWord (c :: rest)

/-- An item and those behind it, up to the closing bracket. -/
def readItem : ℕ → List Char → Option (List (Json Numeral.Scanned) × List Char)
  | 0, _ => none
  | n + 1, text =>
    match readValue n text with
    | none => none
    | some (v, rest) =>
      match skipBlanks rest with
      | ']' :: rest => some ([v], rest)
      | ',' :: rest => (readItem n rest).map fun r => (v :: r.1, r.2)
      | _ => none

def readMember : ℕ → List Char → Option (List (String × Json Numeral.Scanned) × List Char)
  | 0, _ => none
  | n + 1, text =>
    match readName text with
    | none => none
    | some (name, rest) =>
      match readValue n rest with
      | none => none
      | some (v, rest) =>
        match skipBlanks rest with
        | '\x7d' :: rest => some ([(name, v)], rest)
        | ',' :: rest => (readMember n rest).map fun r => ((name, v) :: r.1, r.2)
        | _ => none

end

def read (text : List Char) : Option (Json Numeral.Scanned) :=
  match readValue (text.length + 1) text with
  | none => none
  | some (v, rest) => if skipBlanks rest = [] then some v else none

end Reading

section RoundTrip

variable {ν : Type} {literal : ν → Numeral.Literal}

theorem skipBlanks_cons {c : Char} (h : isBlank c = false) (rest : List Char) :
    skipBlanks (c :: rest) = c :: rest := by
  simp [skipBlanks, h]

theorem stops_cons {c : Char} (hdigit : c.isDigit = false) (hpoint : c ≠ '.') (he : c ≠ 'e')
    (hE : c ≠ 'E') (rest : List Char) : Numeral.Stops (c :: rest) := by
  intro d hd
  cases hd
  exact ⟨hdigit, hpoint, he, hE⟩

theorem digit_of_literal (l : Numeral.Literal) :
    ∃ c rest, l.text = c :: rest ∧ (c = '-' ∨ c.isDigit = true) := by
  unfold Numeral.Literal.text
  rw [Numeral.natText_eq_cons]
  cases l.negative with
  | true => exact ⟨'-', _, rfl, Or.inl rfl⟩
  | false => exact ⟨_, _, rfl, Or.inr (Numeral.digit_spec _).1⟩

theorem not_blank_of_digit {c : Char} (h : c = '-' ∨ c.isDigit = true) :
    isBlank c = false ∧ c ≠ ']' := by
  obtain rfl | h := h
  · decide
  · constructor
    · by_contra hblank
      simp only [isBlank, Bool.not_eq_false, Bool.or_eq_true, decide_eq_true_eq] at hblank
      obtain ((rfl | rfl) | rfl) | rfl := hblank <;> cases h
    · rintro rfl
      cases h

theorem text_eq_cons (literal : ν → Numeral.Literal) (v : Json ν) :
    ∃ c rest, v.text literal = c :: rest ∧ isBlank c = false ∧ c ≠ ']' := by
  cases v with
  | null => exact ⟨_, _, by rw [text], by decide⟩
  | bool b => cases b <;> exact ⟨_, _, by rw [text], by decide⟩
  | number x =>
    obtain ⟨c, rest, htext, hdigit⟩ := digit_of_literal (literal x)
    exact ⟨c, rest, by rw [text, htext], not_blank_of_digit hdigit⟩
  | string s => exact ⟨'"', s.toList.flatMap escape ++ ['"'], by rw [text]; rfl, by decide⟩
  | array items => cases items <;> exact ⟨'[', _, by rw [text], by decide⟩
  | object members =>
    cases members with
    | nil => exact ⟨_, _, by rw [text], by decide⟩
    | cons m members => exact ⟨'\x7b', _, by rw [text], by decide⟩

theorem length_text_pos (literal : ν → Numeral.Literal) (v : Json ν) :
    0 < (v.text literal).length := by
  obtain ⟨c, rest, htext, -⟩ := text_eq_cons literal v
  rw [htext]
  exact Nat.succ_pos _

/-- The value is read back from its text with enough depth, whatever follows it. -/
def ReadBack (literal : ν → Numeral.Literal) (v : Json ν) : Prop :=
  ∀ n rest, (v.text literal).length ≤ n → Numeral.Stops rest →
    readValue n (v.text literal ++ rest) = some (v.map fun x => (literal x).scanned, rest)

theorem readItem_text {v : Json ν} {items : List (Json ν)} (hv : ReadBack literal v)
    (hitems : ∀ w ∈ items, ReadBack literal w) (n : ℕ) (rest : List Char)
    (hn : (v.text literal ++ itemsText literal items).length ≤ n) :
    readItem n (v.text literal ++ (itemsText literal items ++ rest)) =
      some ((v :: items).map (Json.map fun x => (literal x).scanned), rest) := by
  induction items generalizing v n with
  | nil =>
    rw [itemsText, List.length_append, List.length_singleton] at hn
    obtain ⟨n, rfl⟩ := Nat.exists_eq_succ_of_ne_zero (n := n) (by omega)
    have hread := hv n (']' :: rest) (by omega)
      (stops_cons (by decide) (by decide) (by decide) (by decide) rest)
    rw [itemsText, List.singleton_append, readItem, hread]
    simp only [skipBlanks_cons (c := ']') (by decide)]
    rfl
  | cons w items ih =>
    rw [itemsText, List.length_append, List.length_cons] at hn
    obtain ⟨n, rfl⟩ := Nat.exists_eq_succ_of_ne_zero (n := n) (by omega)
    obtain ⟨hw, hitems⟩ := List.forall_mem_cons.mp hitems
    have hpos := length_text_pos literal v
    have hread := hv n (',' :: (w.text literal ++ (itemsText literal items ++ rest))) (by omega)
      (stops_cons (by decide) (by decide) (by decide) (by decide) _)
    have hrest := ih hw hitems n (by omega)
    rw [itemsText, List.cons_append, List.append_assoc, readItem, hread]
    simp only [skipBlanks_cons (c := ',') (by decide), hrest]
    rfl

theorem readName_text (name : String) (rest : List Char) :
    readName (stringText name ++ ':' :: rest) = some (name, rest) := by
  have hread := readString_text name.toList (':' :: rest)
  rw [stringText, List.cons_append, List.cons_append, List.append_assoc, List.singleton_append,
    readName, skipBlanks_cons (by decide)]
  simp only [hread, skipBlanks_cons (c := ':') (by decide), String.ofList_toList]

theorem readMember_text (name : String) {v : Json ν} {members : List (String × Json ν)}
    (hv : ReadBack literal v) (hmembers : ∀ m ∈ members, ReadBack literal m.2) (n : ℕ)
    (rest : List Char)
    (hn : (':' :: (v.text literal ++ membersText literal members)).length ≤ n) :
    readMember n
        (stringText name ++ ':' :: (v.text literal ++ (membersText literal members ++ rest))) =
      some (((name, v) :: members).map (Prod.map id (Json.map fun x => (literal x).scanned)),
        rest) := by
  induction members generalizing name v n with
  | nil =>
    rw [membersText, List.length_cons, List.length_append, List.length_singleton] at hn
    obtain ⟨n, rfl⟩ := Nat.exists_eq_succ_of_ne_zero (n := n) (by omega)
    have hread := hv n ('\x7d' :: rest) (by omega)
      (stops_cons (by decide) (by decide) (by decide) (by decide) rest)
    rw [membersText, List.singleton_append, readMember, readName_text]
    simp only [hread, skipBlanks_cons (c := '\x7d') (by decide)]
    rfl
  | cons m members ih =>
    obtain ⟨name', w⟩ := m
    rw [membersText, List.length_cons, List.length_append, List.length_cons, List.length_append,
      List.length_cons] at hn
    obtain ⟨n, rfl⟩ := Nat.exists_eq_succ_of_ne_zero (n := n) (by omega)
    obtain ⟨hw, hmembers⟩ := List.forall_mem_cons.mp hmembers
    have hread := hv n (',' :: (stringText name' ++ ':' :: (w.text literal ++
      (membersText literal members ++ rest)))) (by omega)
      (stops_cons (by decide) (by decide) (by decide) (by decide) _)
    have hlength : (':' :: (w.text literal ++ membersText literal members)).length ≤ n := by
      rw [List.length_cons]
      omega
    have hrest := ih name' hw hmembers n hlength
    rw [membersText, List.cons_append, List.append_assoc, List.cons_append, List.append_assoc,
      readMember, readName_text]
    simp only [hread, skipBlanks_cons (c := ',') (by decide), hrest]
    rfl

theorem readBack_of_succ {v : Json ν}
    (h : ∀ n rest, (v.text literal).length ≤ n + 1 → Numeral.Stops rest →
      readValue (n + 1) (v.text literal ++ rest) =
        some (v.map fun x => (literal x).scanned, rest)) : ReadBack literal v := by
  intro n rest hn hrest
  have hpos := length_text_pos literal v
  cases n with
  | zero => omega
  | succ n => exact h n rest hn hrest

theorem readBack_number (x : ν) : ReadBack literal (number x) := by
  apply readBack_of_succ
  intro n rest _ hrest
  obtain ⟨c, tail, htext, hdigit⟩ := digit_of_literal (literal x)
  have hread := Numeral.scan_text (literal x) hrest
  rw [text]
  rw [htext, List.cons_append] at hread ⊢
  rw [readValue, skipBlanks_cons (not_blank_of_digit hdigit).1]
  simp only [if_pos hdigit, hread]
  rfl

theorem readBack_string (s : String) : ReadBack literal (string s : Json ν) := by
  apply readBack_of_succ
  intro n rest _ _
  have hread := readString_text s.toList rest
  rw [text, stringText, List.cons_append, List.cons_append, List.append_assoc,
    List.singleton_append, readValue, skipBlanks_cons (by decide)]
  simp only [hread]
  simp [map, rebuild]

theorem readBack_array {items : List (Json ν)} (h : ∀ v ∈ items, ReadBack literal v) :
    ReadBack literal (array items) := by
  apply readBack_of_succ
  intro n rest hn _
  cases items with
  | nil =>
    rw [text]
    rfl
  | cons v items =>
    obtain ⟨hv, hitems⟩ := List.forall_mem_cons.mp h
    obtain ⟨c, tail, hfirst, hblank, hclose⟩ := text_eq_cons literal v
    rw [text, List.length_cons] at hn
    have hread := readItem_text hv hitems n rest (by omega)
    have hopen : (skipBlanks (v.text literal ++ (itemsText literal items ++ rest))).head? ≠
        some ']' := by
      rw [hfirst, List.cons_append, skipBlanks_cons hblank]
      exact fun hhead => hclose (Option.some.inj hhead)
    rw [text, List.cons_append, List.append_assoc, readValue, skipBlanks_cons (by decide)]
    simp only [if_neg hopen, hread]
    simp [map]

theorem readBack_object {members : List (String × Json ν)}
    (h : ∀ m ∈ members, ReadBack literal m.2) : ReadBack literal (object members) := by
  apply readBack_of_succ
  intro n rest hn _
  cases members with
  | nil =>
    rw [text]
    rfl
  | cons m members =>
    obtain ⟨name, v⟩ := m
    obtain ⟨hv, hmembers⟩ := List.forall_mem_cons.mp h
    have hlength : (':' :: (v.text literal ++ membersText literal members)).length ≤ n := by
      rw [text, List.length_cons, List.length_append] at hn
      omega
    have hread := readMember_text name hv hmembers n rest hlength
    have hopen : (skipBlanks (stringText name ++
        ':' :: (v.text literal ++ (membersText literal members ++ rest)))).head? ≠ some '\x7d' := by
      rw [stringText, List.cons_append, List.cons_append, skipBlanks_cons (by decide),
        List.head?_cons]
      decide
    rw [text, List.cons_append, List.append_assoc, List.cons_append, List.append_assoc, readValue,
      skipBlanks_cons (by decide)]
    simp only [if_neg hopen, hread]
    simp [map]

theorem readBack (literal : ν → Numeral.Literal) (v : Json ν) : ReadBack literal v := by
  induction v using Json.induction with
  | null =>
    apply readBack_of_succ
    intro n rest _ _
    rw [text]
    rfl
  | bool b =>
    apply readBack_of_succ
    intro n rest _ _
    cases b with
    | true =>
      rw [text]
      rfl
    | false =>
      rw [text]
      rfl
  | number x => exact readBack_number x
  | string s => exact readBack_string s
  | array items ih => exact readBack_array ih
  | object members ih => exact readBack_object ih

theorem read_text (literal : ν → Numeral.Literal) (v : Json ν) :
    read (v.text literal) = some (v.map fun x => (literal x).scanned) := by
  have hread := readBack literal v ((v.text literal).length + 1) [] (by omega) nofun
  rw [List.append_nil] at hread
  rw [read, hread]
  rfl

end RoundTrip

section Bytes

variable {ν : Type}

def encode (literal : ν → Numeral.Literal) (v : Json ν) : List UInt8 :=
  (String.ofList (v.text literal)).toUTF8.data.toList

/-- The bits of a byte behind the first of a character. -/
def continuation (b : UInt8) : Option ℕ :=
  if 0x80 ≤ b.toNat ∧ b.toNat < 0xC0 then some (b.toNat - 0x80) else none

/-- The code point of a first byte and those behind it, in the shortest form only. -/
def codePoint : List UInt8 → Option ℕ
  | [a] => if a.toNat < 0x80 then some a.toNat else none
  | [a, b] => do
    let b ← continuation b
    if 0xC2 ≤ a.toNat ∧ a.toNat < 0xE0 then return (a.toNat - 0xC0) * 0x40 + b else none
  | [a, b, c] => do
    let b ← continuation b
    let c ← continuation c
    let n := ((a.toNat - 0xE0) * 0x40 + b) * 0x40 + c
    if 0xE0 ≤ a.toNat ∧ a.toNat < 0xF0 ∧ 0x800 ≤ n ∧ ¬ (0xD800 ≤ n ∧ n < 0xE000) then return n
    else none
  | [a, b, c, d] => do
    let b ← continuation b
    let c ← continuation c
    let d ← continuation d
    let n := (((a.toNat - 0xF0) * 0x40 + b) * 0x40 + c) * 0x40 + d
    if 0xF0 ≤ a.toNat ∧ 0x10000 ≤ n ∧ n < 0x110000 then return n else none
  | _ => none

/-- The characters of bytes of which some are not UTF-8; each of those is replaced. The number
bounds the bytes. -/
def lossy : ℕ → List UInt8 → List Char
  | 0, _ | _, [] => []
  | n + 1, a :: rest =>
    let lengths := [1, 2, 3, 4].filter fun k => (codePoint ((a :: rest).take k)).isSome
    match lengths.head? with
    | some k => Char.ofNat ((codePoint ((a :: rest).take k)).getD 0) :: lossy n ((a :: rest).drop k)
    | none => replacement :: lossy n rest

def decodeText (bytes : List UInt8) : List Char :=
  match String.fromUTF8? ⟨bytes.toArray⟩ with
  | none => lossy bytes.length bytes
  | some s => s.toList

theorem decodeText_utf8 (text : List Char) :
    decodeText (String.ofList text).toUTF8.data.toList = text := by
  have hutf8 : String.fromUTF8? ⟨((String.ofList text).toUTF8.data.toList).toArray⟩ =
      some (String.ofList text) := dif_pos (String.ofList text).isValidUTF8
  rw [decodeText, hutf8]
  exact String.toList_ofList

/-- The value of a document, with its numbers as they were read. -/
def scan (bytes : List UInt8) : Option (Json Numeral.Scanned) := read (decodeText bytes)

def decode (bytes : List UInt8) : Option (Json ℚ) :=
  (scan bytes).map (map Numeral.Scanned.value)

theorem scan_encode (literal : ν → Numeral.Literal) (v : Json ν) :
    scan (encode literal v) = some (v.map fun x => (literal x).scanned) := by
  rw [scan, encode, decodeText_utf8, read_text]

theorem decode_encode (literal : ν → Numeral.Literal) (v : Json ν) :
    decode (encode literal v) = some (v.map fun x => (literal x).value) := by
  rw [decode, scan_encode, Option.map_some, map_map]
  rfl

def encodeLines (literal : ν → Numeral.Literal) (values : List (Json ν)) : List UInt8 :=
  values.flatMap fun v => v.encode literal ++ [10]

/-- Values are read up to the end of the text, with blanks between them. -/
def readStream : ℕ → List Char → Option (List (Json Numeral.Scanned))
  | 0, _ => none
  | n + 1, text =>
    if skipBlanks text = [] then some []
    else
      match readValue (text.length + 1) text with
      | none => none
      | some (v, rest) => (readStream n rest).map (v :: ·)

def decodeStream (bytes : List UInt8) : Option (List (Json Numeral.Scanned)) :=
  readStream ((decodeText bytes).length + 1) (decodeText bytes)

def linesText (literal : ν → Numeral.Literal) (values : List (Json ν)) : List Char :=
  values.flatMap fun v => v.text literal ++ ['\n']

theorem encodeLines_eq (literal : ν → Numeral.Literal) (values : List (Json ν)) :
    encodeLines literal values =
      (String.ofList (linesText literal values)).toUTF8.data.toList := by
  induction values with
  | nil => rfl
  | cons v values ih =>
    have hnewline : (String.ofList ['\n']).toUTF8.data.toList = [10] := by decide
    have hfirst : linesText literal (v :: values) =
      v.text literal ++ (['\n'] ++ linesText literal values) := by simp [linesText]
    have hbytes : encodeLines literal (v :: values) =
      v.encode literal ++ ([10] ++ encodeLines literal values) := by simp [encodeLines]
    rw [hbytes, hfirst, ih, ← hnewline, String.ofList_append, String.ofList_append]
    simp only [encode, String.toUTF8, String.toByteArray_append, ByteArray.data_append,
      Array.toList_append]

theorem readValue_skipBlanks (n : ℕ) (text : List Char) :
    readValue n (skipBlanks text) = readValue n text := by
  have hskip : skipBlanks (skipBlanks text) = skipBlanks text := by
    unfold skipBlanks
    exact List.dropWhile_idempotent isBlank text
  cases n with
  | zero => simp only [readValue]
  | succ n => rw [readValue, readValue, hskip]

/-- A value is read off a stream, after blanks and with anything behind it that ends it. -/
theorem readStream_value (literal : ν → Numeral.Literal) (v : Json ν) {text rest : List Char}
    (htext : skipBlanks text = v.text literal ++ rest) (hrest : Numeral.Stops rest) (n : ℕ) :
    readStream (n + 1) text =
      (readStream n rest).map ((v.map fun x => (literal x).scanned) :: ·) := by
  have hne : skipBlanks text ≠ [] := by
    have hpos := length_text_pos literal v
    rw [htext]
    apply List.ne_nil_of_length_pos
    rw [List.length_append]
    omega
  have hlength : (v.text literal).length ≤ text.length + 1 := by
    have hle : (skipBlanks text).length ≤ text.length := (List.dropWhile_sublist isBlank).length_le
    rw [htext, List.length_append] at hle
    omega
  rw [readStream, if_neg hne, ← readValue_skipBlanks, htext,
    readBack literal v _ rest hlength hrest]

theorem readStream_lines (literal : ν → Numeral.Literal) (values : List (Json ν)) {n : ℕ}
    (hn : values.length < n) {text : List Char}
    (htext : skipBlanks text = skipBlanks (linesText literal values)) :
    readStream n text = some (values.map fun v => v.map fun x => (literal x).scanned) := by
  obtain ⟨n, rfl⟩ := Nat.exists_eq_add_one_of_ne_zero (Nat.ne_zero_of_lt hn)
  induction values generalizing n text with
  | nil =>
    have hnil : skipBlanks text = [] := htext
    rw [readStream, if_pos hnil, List.map_nil]
  | cons v values ih =>
    rw [List.length_cons] at hn
    obtain ⟨c, tail, hfirst, hblank, -⟩ := text_eq_cons literal v
    have hlines : linesText literal (v :: values) =
        v.text literal ++ '\n' :: linesText literal values := by simp [linesText]
    rw [hlines, hfirst, List.cons_append, skipBlanks_cons hblank, ← List.cons_append,
      ← hfirst] at htext
    obtain ⟨n, rfl⟩ := Nat.exists_eq_add_one_of_ne_zero (n := n) (by omega)
    -- the rest starts with the line break, a blank that the reader of the next value skips
    have hstops : Numeral.Stops ('\n' :: linesText literal values) :=
      stops_cons (by decide) (by decide) (by decide) (by decide) _
    have hskip : skipBlanks ('\n' :: linesText literal values) =
        skipBlanks (linesText literal values) := rfl
    rw [readStream_value literal v htext hstops, ih hskip n (by omega)]
    rfl

theorem length_le_linesText (literal : ν → Numeral.Literal) (values : List (Json ν)) :
    values.length ≤ (linesText literal values).length := by
  induction values with
  | nil => exact Nat.zero_le _
  | cons v values ih =>
    have hlines : linesText literal (v :: values) =
      v.text literal ++ '\n' :: linesText literal values := by simp [linesText]
    rw [hlines, List.length_append, List.length_cons, List.length_cons]
    omega

theorem decodeStream_encodeLines (literal : ν → Numeral.Literal) (values : List (Json ν)) :
    decodeStream (encodeLines literal values) =
      some (values.map fun v => v.map fun x => (literal x).scanned) := by
  have hlength := length_le_linesText literal values
  rw [decodeStream, encodeLines_eq, decodeText_utf8]
  exact readStream_lines literal values (by omega) rfl

def Denotes (bytes : List UInt8) (v : Json ℚ) : Prop :=
  ∃ w, decode bytes = some w ∧ w.canonical = v.canonical

end Bytes

end Json
