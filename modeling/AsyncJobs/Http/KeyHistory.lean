import AsyncJobs.Model.Http
import Mathlib.Data.List.Pairwise

/-!
# What the key store remembers

The store drops entries in two places: `lookup` deletes an expired key it meets, and `store`
sweeps all expired keys before it adds one. Under a clock that does not go back neither can
be observed. The store answers every lookup as the plain history of the calls does, in which
nothing is ever deleted.
-/

namespace AsyncJobs

inductive StoreCall where
  | lookup (key : String)
  | store (key taskID : String)
  deriving DecidableEq, Repr

structure TimedCall where
  time : Int
  call : StoreCall
  deriving DecidableEq, Repr

def TimedCall.stored (key : String) (c : TimedCall) : Option (Int × String) :=
  match c.call with
  | .lookup _ => none
  | .store k taskID => if k = key then some (c.time, taskID) else none

/-- The abstract store is the list of its calls: a key answers with the task of its latest
`store` for as long as that is not older than the TTL. -/
def recalled (key : String) (now : Int) (earlier : List TimedCall) : Option String :=
  match (earlier.filterMap (TimedCall.stored key)).getLast? with
  | none => none
  | some (time, taskID) => if now ≤ time + idempotencyTTL then some taskID else none

/-- The answers to the lookups of a sequence of calls, by the history before each. -/
def recalls (earlier : List TimedCall) : List TimedCall → List (Option String)
  | [] => []
  | c :: later =>
    match c.call with
    | .lookup key => recalled key c.time earlier :: recalls (earlier ++ [c]) later
    | .store _ _ => recalls (earlier ++ [c]) later

namespace IdempotencyStore

/-- The answers of the store to the lookups of a sequence of calls. -/
def answers (s : IdempotencyStore) : List TimedCall → List (Option String)
  | [] => []
  | c :: later =>
    match c.call with
    | .lookup key => (s.lookup c.time key).1 :: answers (s.lookup c.time key).2 later
    | .store key taskID => answers (s.store c.time key taskID) later

variable {s : IdempotencyStore} {now t : Int} {key k taskID : String}

theorem lookup_fst (s : IdempotencyStore) (t : Int) (key : String) : (s.lookup t key).1 =
    ((s.entries key).filter fun e => ¬ e.expires < t).map IdempotencyEntry.taskID := by
  unfold lookup
  cases hentry : s.entries key with
  | none => rfl
  | some e => by_cases hexpired : e.expires < t <;> simp [hexpired, Option.filter]

theorem lookup_sweep (h : now ≤ t) : ((s.sweep now).lookup t key).1 = (s.lookup t key).1 := by
  simp only [lookup_fst, sweep, Option.filter_filter]
  congr 2
  funext e
  have : e.expires < now → e.expires < t := fun hlt => by omega
  by_cases hexpired : e.expires < t <;> simp_all

theorem lookup_store_self :
    ((s.store now key taskID).lookup t key).1 =
      if t ≤ now + idempotencyTTL then some taskID else none := by
  by_cases h : t ≤ now + idempotencyTTL <;> simp [lookup_fst, store, Option.filter, h]

theorem lookup_store_of_ne (h : now ≤ t) (hk : k ≠ key) :
    ((s.store now k taskID).lookup t key).1 = (s.lookup t key).1 := by
  calc ((s.store now k taskID).lookup t key).1
      = ((s.sweep now).lookup t key).1 := by
        simp only [lookup_fst, store, Function.update_of_ne hk.symm]
    _ = (s.lookup t key).1 := lookup_sweep h

theorem lookup_lookup (h : now ≤ t) :
    ((s.lookup now k).2.lookup t key).1 = (s.lookup t key).1 := by
  cases hentry : s.entries k with
  | none => simp only [lookup, hentry]
  | some e =>
    by_cases hexpired : e.expires < now
    · have hlater : e.expires < t := by omega
      by_cases hk : key = k
      · subst hk
        simp [lookup, hentry, hexpired, hlater]
      · have hdeleted : (s.lookup now k).2 = ⟨Function.update s.entries k none⟩ := by
          simp only [lookup, hentry, hexpired, if_true]
        simp only [hdeleted, lookup_fst, Function.update_of_ne hk]
    · simp only [lookup, hentry, hexpired, if_false]

end IdempotencyStore

theorem recalled_append (key : String) (t : Int) (earlier : List TimedCall) (c : TimedCall) :
    recalled key t (earlier ++ [c]) =
      match c.stored key with
      | none => recalled key t earlier
      | some (time, taskID) => if t ≤ time + idempotencyTTL then some taskID else none := by
  cases hstored : c.stored key <;> simp [recalled, List.filterMap_append, hstored]

namespace IdempotencyStore

variable {s : IdempotencyStore} {now : Int} {earlier later : List TimedCall}

/-- The store has the answers of the history for every key and every time from now on. -/
def Recalls (s : IdempotencyStore) (now : Int) (earlier : List TimedCall) : Prop :=
  ∀ key t, now ≤ t → (s.lookup t key).1 = recalled key t earlier

theorem Recalls.init (now : Int) : Recalls {} now [] := by
  intro key t _
  rfl

theorem Recalls.lookup (h : Recalls s now earlier) {c : TimedCall} {key : String}
    (hc : c.call = .lookup key) (hnow : now ≤ c.time) :
    Recalls (s.lookup c.time key).2 c.time (earlier ++ [c]) := by
  intro k t ht
  have hstored : c.stored k = none := by simp only [TimedCall.stored, hc]
  rw [lookup_lookup ht, recalled_append, hstored]
  exact h k t (hnow.trans ht)

theorem Recalls.store (h : Recalls s now earlier) {c : TimedCall} {key taskID : String}
    (hc : c.call = .store key taskID) (hnow : now ≤ c.time) :
    Recalls (s.store c.time key taskID) c.time (earlier ++ [c]) := by
  intro k t ht
  by_cases hk : key = k
  · subst hk
    have hstored : c.stored key = some (c.time, taskID) := by
      simp only [TimedCall.stored, hc, if_true]
    rw [lookup_store_self, recalled_append, hstored]
  · have hstored : c.stored k = none := by simp only [TimedCall.stored, hc, hk, if_false]
    rw [lookup_store_of_ne ht hk, recalled_append, hstored]
    exact h k t (hnow.trans ht)

theorem Recalls.answers_eq (h : Recalls s now earlier) (hlater : ∀ c ∈ later, now ≤ c.time)
    (hclock : later.Pairwise fun c d => c.time ≤ d.time) :
    s.answers later = recalls earlier later := by
  induction later generalizing s now earlier with
  | nil => rfl
  | cons c later ih =>
    obtain ⟨hnow, -⟩ := List.forall_mem_cons.mp hlater
    obtain ⟨hnext, hclock⟩ := List.pairwise_cons.mp hclock
    cases hc : c.call with
    | lookup key =>
      simp only [answers, recalls, hc]
      rw [h key c.time hnow, ih (h.lookup hc hnow) hnext hclock]
    | store key taskID =>
      simp only [answers, recalls, hc]
      exact ih (h.store hc hnow) hnext hclock

end IdempotencyStore

/-- A new store answers every sequence of calls as their history does. -/
theorem answers_eq_recalls (calls : List TimedCall)
    (hclock : calls.Pairwise fun c d => c.time ≤ d.time) :
    IdempotencyStore.answers {} calls = recalls [] calls := by
  cases calls with
  | nil => rfl
  | cons c later =>
    apply (IdempotencyStore.Recalls.init c.time).answers_eq _ hclock
    intro d hd
    obtain rfl | hd := List.mem_cons.mp hd
    · exact le_rfl
    · exact List.rel_of_pairwise_cons hclock hd

/-- Two keys around the instant at which the first expires: the store of the second sweeps
only after that instant. -/
def boundaryCalls : List TimedCall :=
  [⟨0, .store "a" "t1"⟩, ⟨5, .store "b" "t2"⟩, ⟨idempotencyTTL, .lookup "a"⟩,
    ⟨idempotencyTTL, .store "b" "t3"⟩, ⟨idempotencyTTL, .lookup "a"⟩,
    ⟨idempotencyTTL + 1, .lookup "a"⟩, ⟨idempotencyTTL + 6, .lookup "b"⟩]

theorem boundaryCalls_answers :
    IdempotencyStore.answers {} boundaryCalls = [some "t1", some "t1", none, some "t3"] := by
  rw [answers_eq_recalls boundaryCalls (by decide)]
  decide

end AsyncJobs
