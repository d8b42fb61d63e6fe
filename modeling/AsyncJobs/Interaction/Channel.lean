import Mathlib.Tactic.Common

/-!
# Buffered channels

A channel holds at most as many values as its capacity. A send waits while the buffer is
full and panics once the channel is closed. A receive waits while the buffer is empty; of a
closed channel it yields the zero value.
-/

namespace Interaction

structure Chan (α : Type*) (cap : Nat) where
  buffer : List α := []
  closed : Bool := false
  bounded : buffer.length ≤ cap := by simp

inductive Sending (α : Type*) (cap : Nat) where
  | blocked
  | panicked
  | sent (c : Chan α cap)

namespace Chan

variable {α : Type*} {cap : Nat} {c c' : Chan α cap} {a : α}

def send (c : Chan α cap) (a : α) : Sending α cap :=
  if c.closed then .panicked
  else if h : c.buffer.length < cap then
    have hbound : (c.buffer ++ [a]).length ≤ cap := by
      rw [List.length_append]
      exact h
    .sent { c with buffer := c.buffer ++ [a], bounded := hbound }
  else .blocked

/-- The value received, `none` for the zero value, and the channel after it. -/
def receive (c : Chan α cap) : Option (Option α × Chan α cap) :=
  match h : c.buffer with
  | [] => if c.closed then some (none, c) else none
  | a :: rest =>
    have hrest : rest.length ≤ cap := by
      have := c.bounded
      rw [h, List.length_cons] at this
      omega
    some (some a, { c with buffer := rest, bounded := hrest })

/-- Closing a closed channel panics. -/
def close (c : Chan α cap) : Option (Chan α cap) :=
  if c.closed then none else some { c with closed := true }

theorem send_sent (h : c.send a = .sent c') :
    c.closed = false ∧ c.buffer.length < cap ∧ c'.closed = false ∧ c'.buffer = c.buffer ++ [a] := by
  unfold send at h
  split_ifs at h with hclosed hroom
  have hopen : c.closed = false := by simpa using hclosed
  cases h
  exact ⟨hopen, hroom, hopen, rfl⟩

theorem send_blocked (h : c.send a = .blocked) : c.closed = false ∧ c.buffer.length = cap := by
  unfold send at h
  split_ifs at h with hclosed hroom
  have hbound := c.bounded
  exact ⟨by simpa using hclosed, by omega⟩

theorem send_panicked (h : c.send a = .panicked) : c.closed = true := by
  unfold send at h
  split_ifs at h with hclosed
  exact hclosed

theorem exists_send (hopen : c.closed = false) (hroom : c.buffer.length < cap) :
    ∃ c', c.send a = .sent c' := by
  simp [send, hopen, hroom]

theorem receive_some {r : Option α} (h : c.receive = some (r, c')) :
    (∃ a, r = some a ∧ c.buffer = a :: c'.buffer ∧ c'.closed = c.closed) ∨
      (r = none ∧ c.buffer = [] ∧ c.closed = true ∧ c' = c) := by
  unfold receive at h
  split at h
  · rename_i hempty
    split_ifs at h with hclosed
    cases h
    exact .inr ⟨rfl, hempty, hclosed, rfl⟩
  · rename_i a rest hbuffer
    cases h
    exact .inl ⟨a, rfl, hbuffer, rfl⟩

theorem exists_receive (h : c.buffer ≠ []) : ∃ r c', c.receive = some (r, c') := by
  unfold receive
  split
  · exact absurd ‹_› h
  · exact ⟨_, _, rfl⟩

theorem close_some (h : c.close = some c') :
    c.closed = false ∧ c'.closed = true ∧ c'.buffer = c.buffer := by
  unfold close at h
  split_ifs at h with hclosed
  cases h
  exact ⟨by simpa using hclosed, rfl, rfl⟩

theorem close_none (h : c.close = none) : c.closed = true := by
  unfold close at h
  split_ifs at h with hclosed
  exact hclosed

end Chan

end Interaction
