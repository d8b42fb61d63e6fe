import AsyncJobs.Codec.Calendar
import AsyncJobs.Codec.Numeral
import Mathlib.Data.List.DropRight

/-!
# Timestamps

An instant in nanoseconds since the Unix epoch with the offset of a time zone in seconds, and
its text by RFC 3339: the date and the time of day in that zone, the fraction of the second
without trailing zeros, and the offset in whole minutes. Only the years 0 to 9999 and offsets
of less than a day have a text. Reading the text gives the time of day back with the minutes of
the offset. The reader takes offsets up to 24 hours and 60 minutes, hours of one digit and a
comma before the fraction; what it reads has a text if the offset is less than a day.
-/

namespace Rfc3339

open Calendar Numeral

structure Timestamp where
  instant : ℤ
  offset : ℤ
  deriving DecidableEq, Repr

namespace Timestamp

def nanosPerSecond : ℤ := 1000000000

def nanosPerDay : ℤ := 86400 * nanosPerSecond

def epochDay : ℤ := 719468

variable (t : Timestamp)

def localNanos : ℤ := t.instant + t.offset * nanosPerSecond

/-- The minutes of the offset; its seconds are not written. -/
def zone : ℤ := t.offset.tdiv 60

/-- The time with the same date and time of day in the zone that is written. -/
def wholeMinutes : Timestamp := ⟨t.localNanos - t.zone * 60 * nanosPerSecond, t.zone * 60⟩

def date : Date := Date.ofDays (t.localNanos / nanosPerDay + epochDay)

def timeOfDay : ℕ := (t.localNanos % nanosPerDay).toNat

def nanosecond : ℕ := t.timeOfDay % 1000000000

def second : ℕ := t.timeOfDay / 1000000000 % 60

def minute : ℕ := t.timeOfDay / 60000000000 % 60

def hour : ℕ := t.timeOfDay / 3600000000000

end Timestamp

section Fraction

def isZero (c : Char) : Bool := c = '0'

/-- The fraction of a second without trailing zeros, and nothing for a whole second. -/
def fractionText (nanosecond : ℕ) : List Char :=
  if nanosecond = 0 then [] else '.' :: (padded 9 nanosecond).rdropWhile isZero

/-- Digits behind the point in units of the given place; those behind it are ignored. -/
def fractionValue (places : ℕ) (text : List Char) : ℕ :=
  ofDigits (text.take places) * 10 ^ (places - text.length)

def isPoint (c : Char) : Bool := c = '.' || c = ','

/-- The nanoseconds at the start of a text and the rest. A point without digits is left. -/
def readFraction : List Char → ℕ × List Char
  | [] => (0, [])
  | c :: text =>
    if isPoint c ∧ (digits text).1 ≠ [] then (fractionValue 9 (digits text).1, (digits text).2)
    else (0, c :: text)

theorem ofDigits_zeros {zeros : List Char} (h : ∀ c ∈ zeros, isZero c = true) :
    ofDigits zeros = 0 := by
  induction zeros using List.reverseRecOn with
  | nil => rfl
  | append_singleton zeros c ih =>
    have hc : c = '0' := of_decide_eq_true (h c (by simp))
    have hzeros : ofDigits zeros = 0 := ih fun c hc => h c (by simp [hc])
    rw [ofDigits_append_singleton, hzeros, hc]
    decide

theorem fractionValue_dropped (places n : ℕ) :
    fractionValue places ((padded places n).rdropWhile isZero) = n % 10 ^ places := by
  have hsplit : (padded places n).rdropWhile isZero ++ (padded places n).rtakeWhile isZero =
    padded places n := List.rdropWhile_append_rtakeWhile ..
  have hzeros : ofDigits ((padded places n).rtakeWhile isZero) = 0 :=
    ofDigits_zeros fun c => List.mem_rtakeWhile_imp
  have hlength := congrArg List.length hsplit
  have hvalue := congrArg ofDigits hsplit
  rw [List.length_append, length_padded] at hlength
  rw [ofDigits_append, hzeros, ofDigits_padded, Nat.add_zero] at hvalue
  have hplaces : places - ((padded places n).rdropWhile isZero).length =
    ((padded places n).rtakeWhile isZero).length := by omega
  rw [fractionValue, List.take_of_length_le (by omega), hplaces, hvalue]

theorem readFraction_text {n : ℕ} (hn : n < 10 ^ 9) {rest : List Char}
    (hrest : ∀ c, rest.head? = some c → c.isDigit = false ∧ isPoint c = false) :
    readFraction (fractionText n ++ rest) = (n, rest) := by
  unfold fractionText
  split_ifs with hzero
  · subst hzero
    cases rest with
    | nil => rfl
    | cons c rest =>
      rw [List.nil_append, readFraction, (hrest c rfl).2, if_neg (by simp)]
  · have hvalue := fractionValue_dropped 9 n
    rw [Nat.mod_eq_of_lt hn] at hvalue
    have hdigits : ∀ c ∈ (padded 9 n).rdropWhile isZero, c.isDigit = true := fun c hc =>
      isDigit_of_mem_padded ((List.rdropWhile_prefix isZero _).subset hc)
    generalize (padded 9 n).rdropWhile isZero = ds at hvalue hdigits
    have hread : digits (ds ++ rest) = (ds, rest) :=
      digits_append hdigits fun c hc => (hrest c hc).1
    have hne : ds ≠ [] := by
      rintro rfl
      apply hzero
      rw [← hvalue]
      rfl
    have hpoint : isPoint '.' = true ∧ (digits (ds ++ rest)).1 ≠ [] := by
      rw [hread]
      exact ⟨rfl, hne⟩
    rw [List.cons_append, readFraction, if_pos hpoint, hread, hvalue]

theorem fractionValue_lt {places : ℕ} {text : List Char} (h : ∀ c ∈ text, c.isDigit = true) :
    fractionValue places text < 10 ^ places := by
  have hdigits : ofDigits (text.take places) < 10 ^ (text.take places).length :=
    ofDigits_lt fun c hc => h c (List.mem_of_mem_take hc)
  have hlength : (text.take places).length + (places - text.length) = places := by
    rw [List.length_take]
    omega
  calc fractionValue places text
      < 10 ^ (text.take places).length * 10 ^ (places - text.length) :=
        Nat.mul_lt_mul_of_pos_right hdigits (by positivity)
    _ = 10 ^ places := by rw [← Nat.pow_add, hlength]

theorem readFraction_lt (text : List Char) : (readFraction text).1 < 10 ^ 9 := by
  unfold readFraction
  split
  · norm_num
  · split_ifs
    · exact fractionValue_lt fun c => List.mem_takeWhile_imp
    · norm_num

end Fraction

section Zone

/-- The offset as `Z` if there is none, or the minutes with a sign, two digits for the hours and
two for the rest. -/
def zoneText (offset zone : ℤ) : List Char :=
  if offset = 0 then ['Z']
  else (if zone < 0 then '-' else '+') ::
    padded 2 (zone.natAbs / 60) ++ ':' :: padded 2 (zone.natAbs % 60)

/-- A number of so many digits at the start of a text and the rest. -/
def readDigits (count : ℕ) (text : List Char) : Option (ℕ × List Char) :=
  let head := text.take count
  if head.length = count ∧ head.all Char.isDigit then some (ofDigits head, text.drop count)
  else none

def expect (c : Char) : List Char → Option (List Char)
  | d :: rest => if d = c then some rest else none
  | [] => none

/-- The seconds of an offset: two numbers of two digits each with a colon in between. -/
def readOffset (sign : ℤ) (text : List Char) : Option ℤ := do
  let (hours, text) ← readDigits 2 text
  let text ← expect ':' text
  let (minutes, text) ← readDigits 2 text
  if text = [] ∧ hours ≤ 24 ∧ minutes ≤ 60 then return sign * (hours * 60 + minutes) * 60 else none

def readZone : List Char → Option ℤ
  | ['Z'] => some 0
  | '+' :: text => readOffset 1 text
  | '-' :: text => readOffset (-1) text
  | _ => none

theorem readDigits_padded (count n : ℕ) (rest : List Char) :
    readDigits count (padded count n ++ rest) = some (n % 10 ^ count, rest) := by
  have htake : (padded count n ++ rest).take count = padded count n := by
    rw [List.take_append_of_le_length (by simp), List.take_of_length_le (by simp)]
  have hdrop : (padded count n ++ rest).drop count = rest := by
    rw [List.drop_append_of_le_length (by simp), List.drop_of_length_le (by simp), List.nil_append]
  have hall : (padded count n).all Char.isDigit = true :=
    List.all_eq_true.mpr fun c => isDigit_of_mem_padded
  simp only [readDigits, htake, hdrop, length_padded, hall, and_self, if_true, ofDigits_padded]

theorem readDigits_lt {count n : ℕ} {text rest : List Char}
    (h : readDigits count text = some (n, rest)) : n < 10 ^ count := by
  unfold readDigits at h
  dsimp only at h
  split_ifs at h with hdigits
  cases h
  obtain ⟨hlength, hall⟩ := hdigits
  have hlt := ofDigits_lt (List.all_eq_true.mp hall)
  rwa [hlength] at hlt

theorem readOffset_spec {sign offset : ℤ} {text : List Char}
    (h : readOffset sign text = some offset) : offset.tdiv 60 * 60 = offset := by
  simp only [readOffset, Option.bind_eq_bind, Option.bind_eq_some_iff] at h
  obtain ⟨⟨hours, _⟩, -, _, -, ⟨minutes, _⟩, -, h⟩ := h
  split_ifs at h
  cases h
  rw [Int.mul_tdiv_cancel _ (by decide)]

theorem readZone_spec {offset : ℤ} {text : List Char} (h : readZone text = some offset) :
    offset.tdiv 60 * 60 = offset := by
  unfold readZone at h
  split at h
  · cases h
    rfl
  · exact readOffset_spec h
  · exact readOffset_spec h
  · cases h

theorem readOffset_text {sign : ℤ} {minutes : ℕ} (h : minutes < 1440) :
    readOffset sign (padded 2 (minutes / 60) ++ ':' :: padded 2 (minutes % 60)) =
      some (sign * minutes * 60) := by
  have hhours : minutes / 60 % 10 ^ 2 = minutes / 60 := by omega
  have hminutes : minutes % 60 % 10 ^ 2 = minutes % 60 := by omega
  have hlast := readDigits_padded 2 (minutes % 60) []
  rw [List.append_nil] at hlast
  have hbounds : minutes / 60 ≤ 24 ∧ minutes % 60 ≤ 60 := by omega
  have hvalue : ((minutes / 60 : ℕ) : ℤ) * 60 + ((minutes % 60 : ℕ) : ℤ) = minutes := by omega
  unfold readOffset
  simp only [readDigits_padded, hhours, Option.bind_eq_bind, Option.bind_some, expect, if_true,
    hlast, hminutes, hbounds, and_self, hvalue, Option.pure_def]

theorem readZone_text {offset zone : ℤ} (hzone : zone.natAbs < 1440)
    (hutc : offset = 0 → zone = 0) : readZone (zoneText offset zone) = some (zone * 60) := by
  unfold zoneText
  split_ifs with hzero hneg
  · rw [hutc hzero]
    rfl
  · have hread : readZone ('-' :: padded 2 (zone.natAbs / 60) ++
        ':' :: padded 2 (zone.natAbs % 60)) = some (-1 * (zone.natAbs : ℤ) * 60) :=
      readOffset_text hzone
    rw [hread]
    congr 1
    omega
  · have hread : readZone ('+' :: padded 2 (zone.natAbs / 60) ++
        ':' :: padded 2 (zone.natAbs % 60)) = some (1 * (zone.natAbs : ℤ) * 60) :=
      readOffset_text hzone
    rw [hread]
    congr 1
    omega

theorem head_zoneText (offset zone : ℤ) (c : Char) (h : (zoneText offset zone).head? = some c) :
    c.isDigit = false ∧ isPoint c = false := by
  unfold zoneText at h
  split_ifs at h
  · cases h
    decide
  · cases h
    decide
  · cases h
    decide

end Zone

section DateAndTime

def dateText (year month day : ℕ) : List Char :=
  padded 4 year ++ '-' :: padded 2 month ++ '-' :: padded 2 day

/-- A date at the start of a text, if there is such a day, and the rest. -/
def readDate (text : List Char) : Option (Date × List Char) := do
  let (year, text) ← readDigits 4 text
  let text ← expect '-' text
  let (month, text) ← readDigits 2 text
  let text ← expect '-' text
  let (day, text) ← readDigits 2 text
  if h : (1 ≤ month ∧ month ≤ 12) ∧ 1 ≤ day ∧ day ≤ daysIn year month then
    return (⟨year, month, day, h.1, h.2⟩, text)
  else none

def clockText (hour minute second : ℕ) : List Char :=
  padded 2 hour ++ ':' :: padded 2 minute ++ ':' :: padded 2 second

def readHour (text : List Char) : Option (ℕ × List Char) :=
  match readDigits 2 text with
  | some r => some r
  | none => readDigits 1 text

/-- The seconds since midnight at the start of a text and the rest. -/
def readClock (text : List Char) : Option (ℕ × List Char) := do
  let (hour, text) ← readHour text
  let text ← expect ':' text
  let (minute, text) ← readDigits 2 text
  let text ← expect ':' text
  let (second, text) ← readDigits 2 text
  if hour ≤ 23 ∧ minute ≤ 59 ∧ second ≤ 59 then
    return (hour * 3600 + minute * 60 + second, text)
  else none

theorem daysIn_le (year : ℤ) (month : ℕ) : daysIn year month ≤ 31 := by
  unfold daysIn
  split_ifs <;> omega

theorem readDate_text (d : Date) (hyear : 0 ≤ d.year ∧ d.year ≤ 9999) (rest : List Char) :
    readDate (dateText d.year.toNat d.month d.day ++ rest) = some (d, rest) := by
  obtain ⟨year, month, day, hmonth, hday⟩ := d
  have hle := daysIn_le year month
  have hyear' : year.toNat % 10 ^ 4 = year.toNat := by
    simp only at hyear
    omega
  have hmonth' : month % 10 ^ 2 = month := by omega
  have hday' : day % 10 ^ 2 = day := by omega
  have hcast : (year.toNat : ℤ) = year := Int.toNat_of_nonneg hyear.1
  have hvalid : (1 ≤ month ∧ month ≤ 12) ∧ 1 ≤ day ∧ day ≤ daysIn (year.toNat : ℤ) month := by
    rw [hcast]
    exact ⟨hmonth, hday⟩
  unfold readDate dateText
  simp only [List.append_assoc, List.cons_append, readDigits_padded, hyear', hmonth', hday',
    Option.bind_eq_bind, Option.bind_some, expect, if_true]
  rw [dif_pos hvalid]
  simp only [hcast, Option.pure_def]

theorem readDate_spec {d : Date} {text rest : List Char} (h : readDate text = some (d, rest)) :
    0 ≤ d.year ∧ d.year ≤ 9999 := by
  simp only [readDate, Option.bind_eq_bind, Option.bind_eq_some_iff] at h
  obtain ⟨⟨year, _⟩, hyear, _, -, ⟨month, _⟩, -, _, -, ⟨day, _⟩, -, h⟩ := h
  have hlt := readDigits_lt hyear
  split_ifs at h
  cases h
  dsimp only
  omega

theorem readClock_spec {seconds : ℕ} {text rest : List Char}
    (h : readClock text = some (seconds, rest)) : seconds < 86400 := by
  simp only [readClock, Option.bind_eq_bind, Option.bind_eq_some_iff] at h
  obtain ⟨⟨hour, _⟩, -, _, -, ⟨minute, _⟩, -, _, -, ⟨second, _⟩, -, h⟩ := h
  split_ifs at h with hbounds
  cases h
  omega

theorem readClock_text {hour minute second : ℕ} (hhour : hour ≤ 23) (hminute : minute ≤ 59)
    (hsecond : second ≤ 59) (rest : List Char) :
    readClock (clockText hour minute second ++ rest) =
      some (hour * 3600 + minute * 60 + second, rest) := by
  have hhour' : hour % 10 ^ 2 = hour := by omega
  have hminute' : minute % 10 ^ 2 = minute := by omega
  have hsecond' : second % 10 ^ 2 = second := by omega
  unfold readClock clockText
  simp only [List.append_assoc, List.cons_append, readHour, readDigits_padded, hhour', hminute',
    hsecond',
    Option.bind_eq_bind, Option.bind_some, expect, if_true, hhour, hminute, hsecond, and_self,
    Option.pure_def]

end DateAndTime

namespace Timestamp

/-- The text, unless the year or the offset has none. -/
def text (t : Timestamp) : Except String (List Char) :=
  if t.date.year < 0 ∨ 9999 < t.date.year then .error "year outside of range [0,9999]"
  else if 1440 ≤ t.zone.natAbs then .error "timezone hour outside of range [0,23]"
  else .ok (dateText t.date.year.toNat t.date.month t.date.day ++
    'T' :: clockText t.hour t.minute t.second ++ fractionText t.nanosecond ++
    zoneText t.offset t.zone)

def read (text : List Char) : Option Timestamp := do
  let (date, text) ← readDate text
  let text ← expect 'T' text
  let (seconds, text) ← readClock text
  let (nanos, text) := readFraction text
  let offset ← readZone text
  return ⟨((date.toDays - epochDay) * 86400 + seconds) * nanosPerSecond + nanos -
    offset * nanosPerSecond, offset⟩

theorem date_eq {d : Date} {t : Timestamp} {nanos : ℤ} (h : 0 ≤ nanos ∧ nanos < nanosPerDay)
    (ht : t.localNanos = (d.toDays - epochDay) * nanosPerDay + nanos) : t.date = d := by
  have hday : t.localNanos / nanosPerDay + epochDay = d.toDays := by
    rw [ht]
    unfold nanosPerDay nanosPerSecond at *
    omega
  rw [date, hday, Date.ofDays_toDays]

theorem exists_text {t : Timestamp} (hzone : t.zone.natAbs < 1440)
    (hfirst : -719528 * nanosPerDay ≤ t.localNanos)
    (hlast : t.localNanos < 2932897 * nanosPerDay) : ∃ written, t.text = .ok written := by
  have hday : -60 ≤ t.localNanos / nanosPerDay + epochDay ∧
      t.localNanos / nanosPerDay + epochDay ≤ 3652364 := by
    unfold nanosPerDay nanosPerSecond epochDay at *
    omega
  have hyear : 0 ≤ t.date.year ∧ t.date.year ≤ 9999 := by
    unfold date
    exact Date.year_ofDays hday
  unfold text
  rw [if_neg (by omega), if_neg (by omega)]
  exact ⟨_, rfl⟩

/-- What reading a text can give: an offset of whole minutes, and a time that can be written if
its offset is less than a day. -/
structure IsRead (t : Timestamp) : Prop where
  offset : t.zone * 60 = t.offset
  exists_text : t.zone.natAbs < 1440 → ∃ written, t.text = .ok written

theorem isRead_of_read {t : Timestamp} {s : List Char} (h : read s = some t) : t.IsRead := by
  simp only [read, Option.bind_eq_bind, Option.bind_eq_some_iff, Option.pure_def,
    Option.some.injEq] at h
  obtain ⟨⟨d, _⟩, hdate, _, -, ⟨seconds, rest⟩, hclock, offset, hzone, rfl⟩ := h
  have hyear := readDate_spec hdate
  have hseconds := readClock_spec hclock
  have hnanos := readFraction_lt rest
  dsimp only at hyear hseconds hnanos ⊢
  generalize (readFraction rest).1 = nanos at hnanos ⊢
  have hday : 0 ≤ seconds * nanosPerSecond + nanos ∧
      seconds * nanosPerSecond + nanos < nanosPerDay := by
    unfold nanosPerDay nanosPerSecond
    omega
  have hsame := date_eq (d := d)
    (t := ⟨((d.toDays - epochDay) * 86400 + seconds) * nanosPerSecond + nanos -
      offset * nanosPerSecond, offset⟩) hday (by
      unfold localNanos nanosPerDay nanosPerSecond
      ring)
  refine ⟨readZone_spec hzone, fun hshort => ?_⟩
  unfold text
  rw [hsame, if_neg (by omega), if_neg (Nat.not_le.mpr hshort)]
  exact ⟨_, rfl⟩

theorem wholeMinutes_eq {t : Timestamp} (h : t.zone * 60 = t.offset) : t.wholeMinutes = t := by
  unfold wholeMinutes localNanos
  rw [h, Int.add_sub_cancel]

theorem IsRead.wholeMinutes {t : Timestamp} (h : t.IsRead) : t.wholeMinutes = t :=
  wholeMinutes_eq h.offset

theorem clock_parts (t : Timestamp) : t.hour ≤ 23 ∧ t.minute ≤ 59 ∧ t.second ≤ 59 ∧
    t.nanosecond < 10 ^ 9 ∧
    ((t.hour * 3600 + t.minute * 60 + t.second : ℕ) : ℤ) * nanosPerSecond + t.nanosecond =
      t.localNanos % nanosPerDay := by
  have hrange : 0 ≤ t.localNanos % nanosPerDay ∧ t.localNanos % nanosPerDay < nanosPerDay := by
    unfold nanosPerDay nanosPerSecond
    omega
  unfold hour minute second nanosecond timeOfDay
  unfold nanosPerDay nanosPerSecond at *
  omega

theorem read_text {t : Timestamp} {text : List Char} (h : t.text = .ok text) :
    read text = some t.wholeMinutes := by
  unfold Timestamp.text at h
  split_ifs at h with hyear hoffset
  cases h
  obtain ⟨hhour, hminute, hsecond, hnanos, hclock⟩ := t.clock_parts
  have hdate : 0 ≤ t.date.year ∧ t.date.year ≤ 9999 := by omega
  have hdays : t.date.toDays - epochDay = t.localNanos / nanosPerDay := by
    unfold date
    rw [Date.toDays_ofDays]
    omega
  have hinstant : ((t.date.toDays - epochDay) * 86400 +
      ((t.hour * 3600 + t.minute * 60 + t.second : ℕ) : ℤ)) * nanosPerSecond + t.nanosecond -
        t.zone * 60 * nanosPerSecond = t.localNanos - t.zone * 60 * nanosPerSecond := by
    rw [hdays]
    unfold nanosPerDay nanosPerSecond at *
    omega
  have hutc : t.offset = 0 → t.zone = 0 := by
    intro hzero
    rw [zone, hzero, Int.zero_tdiv]
  unfold read
  simp only [List.append_assoc, List.cons_append, readDate_text _ hdate, Option.bind_eq_bind,
    Option.bind_some, expect, if_true, readClock_text hhour hminute hsecond,
    readFraction_text hnanos (head_zoneText t.offset t.zone),
    readZone_text (Nat.not_le.mp hoffset) hutc, hinstant, Option.pure_def, wholeMinutes]

end Timestamp

end Rfc3339
