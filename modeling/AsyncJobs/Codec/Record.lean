import AsyncJobs.Codec.Base64
import AsyncJobs.Codec.JsonText
import AsyncJobs.Codec.Rfc3339

/-!
# Typed values as JSON

Decoding stores a JSON value into a variable that already has a value. A null leaves most
variables alone and empties pointers, slices and maps. A record takes the members of an object
one after the other: a member goes to the field of its name, or else to the first one whose
name differs in case only, or is ignored. A record is written with one member for each of its
fields in their order, some of which may be left out.
-/

namespace Record

open Numeral Rfc3339

section Computations

variable {ε α β : Type}

/-- The computation gives the value if the test holds, and fails otherwise. -/
def GivesIf (ok : Bool) (a : α) (x : Except ε α) : Prop :=
  if ok then x = .ok a else ∃ err, x = .error err

theorem GivesIf.pure (a : α) : GivesIf true a (.ok a : Except ε α) := rfl

theorem GivesIf.bind {ok ok' : Bool} {a : α} {b : β} {x : Except ε α} {f : α → Except ε β}
    (h : GivesIf ok a x) (hf : GivesIf ok' b (f a)) : GivesIf (ok && ok') b (x >>= f) := by
  cases ok with
  | false =>
    obtain ⟨err, rfl⟩ := h
    exact ⟨err, rfl⟩
  | true =>
    cases h
    exact hf

theorem GivesIf.map {ok : Bool} {a : α} {x : Except ε α} (h : GivesIf ok a x) (g : α → β) :
    GivesIf ok (g a) (x >>= fun a => .ok (g a)) := by
  have hbind := h.bind (f := fun a => .ok (g a)) (GivesIf.pure (g a))
  rwa [Bool.and_true] at hbind

theorem GivesIf.option {ok : α → Bool} {g : α → β} {f : α → Except ε β}
    (h : ∀ a, GivesIf (ok a) (g a) (f a)) (o : Option α) :
    GivesIf (o.all ok) (o.map g) (o.mapM f) := by
  cases o with
  | none => rfl
  | some a => exact (h a).map some

theorem GivesIf.list {ok : α → Bool} {g : α → β} {f : α → Except ε β}
    (h : ∀ a, GivesIf (ok a) (g a) (f a)) (l : List α) :
    GivesIf (l.all ok) (l.map g) (l.mapM f) := by
  induction l with
  | nil => rfl
  | cons a l ih =>
    rw [List.mapM_cons, List.all_cons, List.map_cons]
    exact (h a).bind (ih.map (g a :: ·))

end Computations

/-- Stores a value into a variable, given what it holds. -/
abbrev Decoder (α : Type) := Json Scanned → α → Option α

section Decoders

variable {α : Type}

def string : Decoder String
  | .string s, _ => some s
  | .null, s => some s
  | _, _ => none

def bool : Decoder Bool
  | .bool b, _ => some b
  | .null, b => some b
  | _, _ => none

/-- An integer of 64 bits; other numbers do not fit the variable, nor do integers with a point or
an exponent. -/
def int64 : Decoder Int64
  | .number x, _ =>
    if x.integral ∧ Int64.minValue.toInt ≤ x.value.num ∧ x.value.num ≤ Int64.maxValue.toInt then
      some (Int64.ofInt x.value.num)
    else none
  | .null, n => some n
  | _, _ => none

def uint8 : Decoder UInt8
  | .number x, _ =>
    if x.integral ∧ x.negative = false ∧ x.value.num ≤ 255 then
      some (UInt8.ofNat x.value.num.toNat)
    else none
  | .null, n => some n
  | _, _ => none

/-- The items of a slice are stored over those it has, as far as these reach. -/
def sliceItems (zero : α) (d : Decoder α) : List (Json Scanned) → List α → Option (List α)
  | [], _ => some []
  | v :: items, old => do
    let x ← d v (old.head?.getD zero)
    return x :: (← sliceItems zero d items old.tail)

/-- A slice of bytes is a base64 string or an array of numbers; `none` is the nil slice. -/
def bytes : Decoder (Option (List UInt8))
  | .string s, _ => (Base64.decode s.toList).map some
  | .array items, old => (sliceItems 0 uint8 items (old.getD [])).map some
  | .null, _ => some none
  | _, _ => none

def timestamp : Decoder Timestamp
  | .string s, _ => Timestamp.read s.toList
  | .null, t => some t
  | _, _ => none

/-- A pointer; what it points to is made if there is nothing yet. -/
def pointer (zero : α) (d : Decoder α) : Decoder (Option α)
  | .null, _ => some none
  | v, old => (d v (old.getD zero)).map some

def slice (zero : α) (d : Decoder α) : Decoder (List α)
  | .array items, old => sliceItems zero d items old
  | .null, _ => some []
  | _, _ => none

/-- The entries of a map in the order of their keys. -/
structure Entries (α : Type) where
  list : List (String × α)
  sorted : Json.SortedKeys list

namespace Entries

variable {β : Type}

def empty : Entries α := ⟨[], List.Pairwise.nil⟩

def insert (entries : Entries α) (key : String) (x : α) : Entries α where
  list := Json.insertMember key x entries.list
  sorted := Json.sortedKeys_insertMember entries.sorted key x

protected def map (g : α → β) (entries : Entries α) : Entries β where
  list := entries.list.map fun e => (e.1, g e.2)
  sorted := by
    unfold Json.SortedKeys
    rw [List.pairwise_map]
    exact entries.sorted

def filterMap (g : α → Option β) (entries : Entries α) : Entries β where
  list := entries.list.filterMap fun e => (g e.2).map fun x => (e.1, x)
  sorted := by
    unfold Json.SortedKeys
    rw [List.pairwise_filterMap]
    apply entries.sorted.imp
    intro a b hlt a' ha b' hb
    obtain ⟨x, -, rfl⟩ := Option.map_eq_some_iff.mp ha
    obtain ⟨y, -, rfl⟩ := Option.map_eq_some_iff.mp hb
    exact hlt

theorem ext {a b : Entries α} (h : a.list = b.list) : a = b := by
  cases a
  cases b
  cases h
  rfl

end Entries

/-- A map takes the members one after the other; each value is decoded afresh. -/
def mapMembers (zero : α) (d : Decoder α) :
    Entries α → List (String × Json Scanned) → Option (Entries α)
  | entries, [] => some entries
  | entries, m :: members =>
    match d m.2 zero with
    | none => none
    | some x => mapMembers zero d (entries.insert m.1 x) members

def map (zero : α) (d : Decoder α) : Decoder (Entries α)
  | .object members, entries => mapMembers zero d entries members
  | .null, _ => some .empty
  | _, _ => none

end Decoders

section Fields

variable {σ α : Type}

structure FieldOf (σ : Type) where
  name : String
  decode : Decoder σ

structure Lens (σ α : Type) where
  get : σ → α
  set : α → σ → σ
  set_get : ∀ s, set (get s) s = s := by exact fun _ => rfl

def field (name : String) (l : Lens σ α) (d : Decoder α) : FieldOf σ where
  name := name
  decode v s := (d v (l.get s)).map fun x => l.set x s

/-- The characters that fold to an ASCII letter are the letter in both cases, the long s and
the Kelvin sign. -/
def foldChar (c : Char) : Char :=
  if c = 'ſ' then 's' else if c = 'K' then 'k' else c.toLower

def foldName (name : String) : List Char := name.toList.map foldChar

def find (fields : List (FieldOf σ)) (name : String) : Option (FieldOf σ) :=
  match fields.find? (·.name = name) with
  | some f => some f
  | none => fields.find? fun f => foldName f.name = foldName name

def assign (fields : List (FieldOf σ)) : σ → List (String × Json Scanned) → Option σ
  | s, [] => some s
  | s, m :: members =>
    match find fields m.1 with
    | none => assign fields s members
    | some f =>
      match f.decode m.2 s with
      | none => none
      | some s => assign fields s members

def object (fields : List (FieldOf σ)) : Decoder σ
  | .object members, s => assign fields s members
  | .null, s => some s
  | _, _ => none

/-- The member of a field, or nothing if it is left out. -/
def member (name : String) (v : Option (Json Literal)) : List (String × Json Literal) :=
  v.toList.map fun v => (name, v)

end Fields

def written (v : Json Literal) : Json Scanned := v.map Literal.scanned

def writtenMembers (members : List (String × Json Literal)) : List (String × Json Scanned) :=
  members.map fun m => (m.1, written m.2)

def document (v : Json Literal) : List UInt8 := v.encode fun l => l

theorem scan_document (v : Json Literal) : Json.scan (document v) = some (written v) :=
  Json.scan_encode _ v

def intLiteral (n : ℤ) : Literal := { negative := n < 0, integer := n.natAbs }

/-- A value that is left out if it is the empty one. -/
def omitIf (empty : Bool) (v : Json Literal) : Option (Json Literal) :=
  if empty then none else some v

section Values

variable {α : Type}

def ofInt64 (n : Int64) : Json Literal := .number (intLiteral n.toInt)

def ofBytes : Option (List UInt8) → Json Literal
  | none => .null
  | some bytes => .string (String.ofList (Base64.encode bytes))

def ofText (text : List Char) : Json Literal := .string (String.ofList text)

theorem intLiteral_value (n : ℤ) : (intLiteral n).value = n := by
  have hdigits : n.natAbs * 10 ^ 0 + 0 % 10 ^ 0 = n.natAbs := by simp
  simp only [Literal.value, intLiteral, hdigits, Option.getD_none, Nat.cast_zero, sub_self,
    zpow_zero, mul_one]
  rw [Nat.cast_natAbs, Int.cast_abs]
  unfold sign
  by_cases hneg : n < 0
  · have hcast : (n : ℚ) < 0 := by exact_mod_cast hneg
    simp [hneg, abs_of_neg hcast]
  · have hcast : 0 ≤ (n : ℚ) := by exact_mod_cast not_lt.mp hneg
    simp [hneg, abs_of_nonneg hcast]

theorem int64_written (n old : Int64) : int64 (written (ofInt64 n)) old = some n := by
  have hwritten : written (ofInt64 n) = .number ⟨((n.toInt : ℤ) : ℚ), n.toInt < 0, true⟩ := by
    rw [← intLiteral_value]
    rfl
  have hrange : Int64.minValue.toInt ≤ n.toInt ∧ n.toInt ≤ Int64.maxValue.toInt :=
    ⟨n.minValue_le_toInt, n.toInt_le⟩
  rw [hwritten, int64, Rat.num_intCast, if_pos ⟨rfl, hrange⟩, Int64.ofInt_toInt]

theorem bytes_written (x old : Option (List UInt8)) : bytes (written (ofBytes x)) old = some x := by
  cases x with
  | none => rfl
  | some x =>
    show (Base64.decode (String.ofList (Base64.encode x)).toList).map some = some (some x)
    rw [String.toList_ofList, Base64.decode_encode, Option.map_some]

theorem timestamp_written {t : Timestamp} {text : List Char} (h : t.text = .ok text)
    (old : Timestamp) : timestamp (written (ofText text)) old = some t.wholeMinutes := by
  show Timestamp.read (String.ofList text).toList = some t.wholeMinutes
  rw [String.toList_ofList, Timestamp.read_text h]

/-- A pointer to something reads like the thing itself, if that is not written as null. -/
theorem pointer_written {zero x : α} {d : Decoder α} {v : Json Literal} (hv : v ≠ .null)
    (h : d (written v) zero = some x) : pointer zero d (written v) none = some (some x) := by
  cases v with
  | null => exact absurd rfl hv
  | _ => exact congrArg (Option.map some) h

theorem mapM_written {β : Type} {zero : α} {d : Decoder α} {f : β → Json Literal} {g : β → α}
    {xs : List β} (h : ∀ x ∈ xs, d (written (f x)) zero = some (g x)) :
    (xs.map fun x => written (f x)).mapM (fun v => d v zero) = some (xs.map g) := by
  induction xs with
  | nil => rfl
  | cons x xs ih =>
    have hrest := ih fun x hx => h x (List.mem_cons_of_mem _ hx)
    rw [List.map_cons, List.mapM_cons, h x (List.mem_cons_self ..), hrest]
    rfl

theorem sliceItems_nil (zero : α) (d : Decoder α) (items : List (Json Scanned)) :
    sliceItems zero d items [] = items.mapM fun v => d v zero := by
  induction items with
  | nil => rfl
  | cons v items ih =>
    rw [List.mapM_cons, sliceItems, List.tail_nil, ih]
    rfl

theorem slice_written {β : Type} {zero : α} {d : Decoder α} {f : β → Json Literal} {g : β → α}
    {xs : List β} (h : ∀ x ∈ xs, d (written (f x)) zero = some (g x)) :
    slice zero d (written (.array (xs.map f))) [] = some (xs.map g) := by
  have hitems : written (.array (xs.map f)) = .array (xs.map fun x => written (f x)) := by
    simp [written, Json.map, Json.rebuild, Json.rebuildItems_eq]
  rw [hitems, slice, sliceItems_nil, mapM_written h]

theorem strings_written (xs : List String) :
    slice "" string (written (.array (xs.map .string))) [] = some xs := by
  have hread : slice "" string (written (.array (xs.map .string))) [] =
    some (xs.map fun s => s) := slice_written fun _ _ => rfl
  rwa [List.map_id'] at hread

theorem written_object (members : List (String × Json Literal)) :
    written (.object members) = .object (writtenMembers members) := by
  simp [written, writtenMembers, Json.map, Json.rebuild, Json.rebuildMembers_eq]

/-- The entries of a map are stored in their order, as far as each of them can be. -/
theorem mapMembers_written {β : Type} {zero : β} {d : Decoder β} {f : α → Json Literal}
    {ok : α → Bool} {g : α → β} {done : Entries β} {entries : List (String × α)}
    (h : ∀ e ∈ entries, d (written (f e.2)) zero = if ok e.2 then some (g e.2) else none)
    (hsorted : Json.SortedKeys entries)
    (hdone : ∀ m ∈ done.list, ∀ e ∈ entries, m.1 < e.1) :
    (mapMembers zero d done (writtenMembers (entries.map fun e => (e.1, f e.2)))).map (·.list) =
      if entries.all fun e => ok e.2 then some (done.list ++ entries.map fun e => (e.1, g e.2))
      else none := by
  induction entries generalizing done with
  | nil => simp [writtenMembers, mapMembers]
  | cons e entries ih =>
    obtain ⟨hfirst, hentries⟩ := List.pairwise_cons.mp hsorted
    have hlast : (done.insert e.1 (g e.2)).list = done.list ++ [(e.1, g e.2)] := by
      apply Json.insertMember_last
      intro m hm
      exact hdone m hm e (List.mem_cons_self ..)
    have hbelow : ∀ m ∈ (done.insert e.1 (g e.2)).list, ∀ e' ∈ entries, m.1 < e'.1 := by
      intro m hm e' he'
      rw [hlast, List.mem_append, List.mem_singleton] at hm
      rcases hm with hm | rfl
      · exact hdone m hm e' (List.mem_cons_of_mem _ he')
      · exact hfirst e' he'
    have hrest := ih (fun e' he' => h e' (List.mem_cons_of_mem _ he')) hentries hbelow
    rw [hlast] at hrest
    simp only [writtenMembers, List.map_cons, mapMembers, h e (List.mem_cons_self ..)] at hrest ⊢
    cases hok : ok e.2 with
    | false => simp [hok]
    | true =>
      simp only [hok, if_true, List.all_cons, Bool.true_and, hrest, List.append_assoc,
        List.singleton_append]

/-- A map that was written is read as the same map with its values changed. -/
theorem map_written {β : Type} {zero : β} {d : Decoder β} (f : α → Json Literal) (ok : α → Bool)
    (g : α → β) {entries : Entries α}
    (h : ∀ e ∈ entries.list, d (written (f e.2)) zero = if ok e.2 then some (g e.2) else none) :
    map zero d (written (.object (entries.list.map fun e => (e.1, f e.2)))) .empty =
      if entries.list.all fun e => ok e.2 then some (entries.map g) else none := by
  have hnothing : ∀ m ∈ (Entries.empty : Entries β).list, ∀ e ∈ entries.list, m.1 < e.1 := by
    intro m hm
    cases hm
  have hlist := mapMembers_written h entries.sorted hnothing
  rw [written_object, map]
  generalize mapMembers zero d .empty _ = result at hlist ⊢
  cases result with
  | none =>
    split_ifs at hlist ⊢ <;> first | rfl | cases hlist
  | some entries' =>
    split_ifs at hlist ⊢
    · exact congrArg some (Entries.ext (Option.some.inj hlist))
    · cases hlist

end Values

section Members

variable {σ α : Type}

/-- A field is stored, unless it is left out. -/
def store (f : FieldOf σ) (v : Option (Json Literal)) (s : σ) : Option σ :=
  match v with
  | none => some s
  | some x => f.decode (written x) s

theorem assign_member (fields : List (FieldOf σ)) (name : String) {f : FieldOf σ}
    (hfind : find fields name = some f) (v : Option (Json Literal)) (s : σ)
    (rest : List (List (String × Json Literal))) :
    assign fields s (writtenMembers (member name v :: rest).flatten) =
      (store f v s).bind fun s => assign fields s (writtenMembers rest.flatten) := by
  cases v with
  | none => rfl
  | some x =>
    show assign fields s ((name, written x) :: writtenMembers rest.flatten) = _
    simp only [assign, hfind, store]
    cases f.decode (written x) s <;> rfl

variable {name : String} {l : Lens σ α} {d : Decoder α} {val : α} {s : σ}

theorem store_some {x : Json Literal} (h : d (written x) (l.get s) = some val) :
    store (field name l d) (some x) s = some (l.set val s) :=
  congrArg (Option.map fun x => l.set x s) h

theorem store_none {x : Json Literal} (h : d (written x) (l.get s) = none) :
    store (field name l d) (some x) s = none :=
  congrArg (Option.map fun x => l.set x s) h

section Steps

variable (fields : List (FieldOf σ)) (hfind : find fields name = some (field name l d))
  (rest : List (List (String × Json Literal)))
include hfind

theorem assign_some {x : Json Literal} (h : d (written x) (l.get s) = some val) :
    assign fields s (writtenMembers (member name (some x) :: rest).flatten) =
      assign fields (l.set val s) (writtenMembers rest.flatten) := by
  rw [assign_member fields name hfind, store_some h, Option.bind_some]

theorem assign_option {v : Option (Json Literal)}
    (hsome : ∀ x, v = some x → d (written x) (l.get s) = some val)
    (hnone : v = none → val = l.get s) :
    assign fields s (writtenMembers (member name v :: rest).flatten) =
      assign fields (l.set val s) (writtenMembers rest.flatten) := by
  cases v with
  | none =>
    rw [hnone rfl, l.set_get]
    rfl
  | some x => exact assign_some fields hfind rest (hsome x rfl)

theorem assign_omitIf {empty : Bool} {x : Json Literal} (h : d (written x) (l.get s) = some val)
    (hempty : empty = true → val = l.get s) :
    assign fields s (writtenMembers (member name (omitIf empty x) :: rest).flatten) =
      assign fields (l.set val s) (writtenMembers rest.flatten) := by
  cases empty with
  | true =>
    rw [hempty rfl, l.set_get]
    rfl
  | false => exact assign_some fields hfind rest h

end Steps

end Members

section Invariants

variable {σ α : Type} {P : α → Prop} {zero : α} {d : Decoder α}

/-- What a variable satisfies is kept by storing a value to it. -/
def Decoder.Keeps (P : α → Prop) (d : Decoder α) : Prop :=
  ∀ v old x, P old → d v old = some x → P x

theorem Decoder.Keeps.trivial (d : Decoder α) : d.Keeps fun _ => True := fun _ _ _ _ _ => True.intro

theorem keeps_timestamp : timestamp.Keeps Timestamp.IsRead := by
  intro v old t hold ht
  cases v with
  | null =>
    cases ht
    exact hold
  | string s => exact Timestamp.isRead_of_read ht
  | _ => cases ht

theorem keeps_pointer (hzero : P zero) (h : d.Keeps P) :
    (pointer zero d).Keeps fun o => ∀ x ∈ o, P x := by
  intro v old o hold ho
  have hstart : P (old.getD zero) := by
    cases old with
    | none => exact hzero
    | some x => exact hold x rfl
  cases v with
  | null =>
    cases ho
    intro x hx
    cases hx
  | _ =>
    obtain ⟨x, hx, rfl⟩ := Option.map_eq_some_iff.mp ho
    intro y hy
    cases hy
    exact h _ _ _ hstart hx

theorem keeps_map (hzero : P zero) (h : d.Keeps P) :
    (map zero d).Keeps fun entries => ∀ e ∈ entries.list, P e.2 := by
  intro v old entries hold hentries
  cases v with
  | null =>
    cases hentries
    intro e he
    cases he
  | object members =>
    rw [map] at hentries
    induction members generalizing old with
    | nil =>
      cases hentries
      exact hold
    | cons m members ih =>
      unfold mapMembers at hentries
      split at hentries
      · cases hentries
      · rename_i x hx
        apply ih _ _ hentries
        intro e he
        rcases Json.mem_insertMember he with rfl | hmem
        · exact h _ _ _ hzero hx
        · exact hold e hmem
  | _ => cases hentries

theorem keeps_field {Q : σ → Prop} {l : Lens σ α} (name : String)
    (h : d.Keeps P) (hget : ∀ s, Q s → P (l.get s)) (hset : ∀ s x, Q s → P x → Q (l.set x s)) :
    (field name l d).decode.Keeps Q := by
  intro v s s' hs hdecode
  obtain ⟨x, hx, rfl⟩ := Option.map_eq_some_iff.mp hdecode
  exact hset s x hs (h _ _ _ (hget s hs) hx)

theorem keeps_other {Q : σ → Prop} {l : Lens σ α} (name : String) (d : Decoder α)
    (hset : ∀ s x, Q s → Q (l.set x s)) : (field name l d).decode.Keeps Q :=
  keeps_field name (Decoder.Keeps.trivial d) (fun _ _ => True.intro) fun s x hs _ => hset s x hs

theorem mem_of_find {fields : List (FieldOf σ)} {name : String} {f : FieldOf σ}
    (h : find fields name = some f) : f ∈ fields := by
  unfold find at h
  split at h
  · rename_i g hfind
    cases h
    exact List.mem_of_find?_eq_some hfind
  · exact List.mem_of_find?_eq_some h

theorem keeps_object {Q : σ → Prop} {fields : List (FieldOf σ)}
    (h : ∀ f ∈ fields, f.decode.Keeps Q) : (object fields).Keeps Q := by
  intro v s s' hs hobject
  cases v with
  | null =>
    cases hobject
    exact hs
  | object members =>
    rw [object] at hobject
    induction members generalizing s with
    | nil =>
      cases hobject
      exact hs
    | cons m members ih =>
      unfold assign at hobject
      split at hobject
      · exact ih _ hs hobject
      · rename_i f hfind
        split at hobject
        · cases hobject
        · rename_i next hnext
          exact ih _ (h f (mem_of_find hfind) _ _ _ hs hnext) hobject
  | _ => cases hobject

end Invariants

section Projection

variable {σ τ : Type} {p : τ → σ}

/-- A field of the larger record is the field of the smaller one it contains. -/
def Refines (p : τ → σ) (f : FieldOf σ) (g : FieldOf τ) : Prop :=
  f.name = g.name ∧ ∀ v s s', g.decode v s = some s' → f.decode v (p s) = some (p s')

def Leaves (p : τ → σ) (g : FieldOf τ) : Prop := ∀ v s s', g.decode v s = some s' → p s' = p s

theorem refines_field {α : Type} {l : Lens σ α} {l' : Lens τ α} (name : String) (d : Decoder α)
    (hget : ∀ s, l.get (p s) = l'.get s) (hset : ∀ x s, p (l'.set x s) = l.set x (p s)) :
    Refines p (field name l d) (field name l' d) := by
  constructor
  · rfl
  · intro v s s' hdecode
    obtain ⟨x, hx, rfl⟩ := Option.map_eq_some_iff.mp hdecode
    simp only [field, hget, hx, hset, Option.map_some]

theorem leaves_field {α : Type} {l : Lens τ α} (name : String) (d : Decoder α)
    (h : ∀ x s, p (l.set x s) = p s) : Leaves p (field name l d) := by
  intro v s s' hdecode
  obtain ⟨x, -, rfl⟩ := Option.map_eq_some_iff.mp hdecode
  exact h x s

theorem rel_find? {α β : Type} {R : α → β → Prop} {as : List α} {bs : List β} {p : α → Bool}
    {q : β → Bool} (h : List.Forall₂ R as bs) (hpq : ∀ a b, R a b → p a = q b) :
    Option.Rel R (as.find? p) (bs.find? q) := by
  induction h with
  | nil => exact .none
  | cons hfirst hrest ih =>
    rw [List.find?_cons, List.find?_cons, hpq _ _ hfirst]
    split
    · exact .some hfirst
    · exact ih

/-- A member is stored to the field of the smaller record, if it has such a field. -/
theorem find_refines {small : List (FieldOf σ)} {large own : List (FieldOf τ)}
    (h : List.Forall₂ (Refines p) small large)
    (hnames : ∀ f ∈ small, ∀ g ∈ own, foldName f.name ≠ foldName g.name) (name : String) :
    (∃ f g, find small name = some f ∧ find (large ++ own) name = some g ∧ Refines p f g) ∨
      (find small name = none ∧ ∀ g, find (large ++ own) name = some g → g ∈ own) := by
  have hexact := rel_find? h (p := fun f => f.name = name) (q := fun g => g.name = name)
    fun f g hrefines => by rw [hrefines.1]
  have hfold := rel_find? h (p := fun f => foldName f.name = foldName name)
    (q := fun g => foldName g.name = foldName name) fun f g hrefines => by rw [hrefines.1]
  unfold find
  rw [List.find?_append, List.find?_append]
  generalize hsmall : small.find? (fun f => decide (f.name = name)) = smallExact at hexact ⊢
  generalize large.find? (fun g => decide (g.name = name)) = largeExact at hexact ⊢
  cases hexact with
  | some hrefines => exact .inl ⟨_, _, rfl, rfl, hrefines⟩
  | none =>
    generalize hfind : small.find? (fun f => decide (foldName f.name = foldName name)) = smallFold
      at hfold ⊢
    generalize large.find? (fun g => decide (foldName g.name = foldName name)) = largeFold
      at hfold ⊢
    cases hown : own.find? (fun g => decide (g.name = name)) with
    | some g =>
      have hmem : g ∈ own := List.mem_of_find?_eq_some hown
      have hname : g.name = name := by simpa using List.find?_some hown
      cases hfold with
      | some hrefines =>
        rename_i f _
        have hf : foldName f.name = foldName name := by simpa using List.find?_some hfind
        rw [← hname] at hf
        exact absurd hf (hnames f (List.mem_of_find?_eq_some hfind) g hmem)
      | none =>
        refine .inr ⟨rfl, fun g' hg' => ?_⟩
        cases hg'
        exact hmem
    | none =>
      cases hfold with
      | some hrefines => exact .inl ⟨_, _, rfl, rfl, hrefines⟩
      | none => exact .inr ⟨rfl, fun g hg => List.mem_of_find?_eq_some hg⟩

/-- What is read into a record that contains a smaller one is read into that one as well. -/
theorem object_refines {small : List (FieldOf σ)} {large own : List (FieldOf τ)}
    (h : List.Forall₂ (Refines p) small large)
    (hnames : ∀ f ∈ small, ∀ g ∈ own, foldName f.name ≠ foldName g.name)
    (hown : ∀ g ∈ own, Leaves p g) {v : Json Scanned} {s s' : τ}
    (hread : object (large ++ own) v s = some s') : object small v (p s) = some (p s') := by
  cases v with
  | null =>
    cases hread
    rfl
  | object members =>
    rw [object] at hread ⊢
    induction members generalizing s with
    | nil =>
      cases hread
      rfl
    | cons m members ih =>
      unfold assign at hread ⊢
      obtain ⟨f, g, hf, hg, -, hrefines⟩ | ⟨hnone, hmem⟩ := find_refines h hnames m.1
      · simp only [hf, hg] at hread ⊢
        cases hdecode : g.decode m.2 s with
        | none =>
          rw [hdecode] at hread
          cases hread
        | some next =>
          rw [hdecode] at hread
          rw [hrefines _ _ _ hdecode]
          exact ih hread
      · simp only [hnone]
        cases hg : find (large ++ own) m.1 with
        | none =>
          rw [hg] at hread
          exact ih hread
        | some g =>
          simp only [hg] at hread
          cases hdecode : g.decode m.2 s with
          | none =>
            rw [hdecode] at hread
            cases hread
          | some next =>
            rw [hdecode] at hread
            rw [← hown g (hmem g hg) _ _ _ hdecode]
            exact ih hread
  | _ => cases hread

end Projection

end Record
