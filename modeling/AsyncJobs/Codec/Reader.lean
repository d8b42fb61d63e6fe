import Mathlib.Data.List.Basic
import Mathlib.Tactic.Common

/-!
# Reading one value off a stream

The input arrives in chunks of any size. A decoder looks at what has arrived and either has
its result or needs more; what it has once decided does not depend on what follows. A limited
stream ends in an error after a number of symbols.
-/

namespace Reader

variable {σ ρ : Type}

/-- What a piece of input says about the value it starts with. -/
inductive Decoded (ρ : Type) where
  | value (result : ρ)
  | incomplete
  deriving DecidableEq, Repr

def Decoded.isIncomplete : Decoded ρ → Bool
  | value _ => false
  | incomplete => true

/-- A decoder that reads only as far as the first complete value. -/
structure Decoder (σ ρ : Type) where
  decode : List σ → Decoded ρ
  stops : ∀ {input : List σ} {result : ρ}, decode input = .value result →
    ∀ rest, decode (input ++ rest) = .value result

namespace Decoder

variable (d : Decoder σ ρ)

def read (buffer : List σ) : List (List σ) → Decoded ρ
  | [] => d.decode buffer
  | chunk :: chunks =>
    match d.decode buffer with
    | .value result => .value result
    | .incomplete => read (buffer ++ chunk) chunks

theorem read_eq (buffer : List σ) (chunks : List (List σ)) :
    d.read buffer chunks = d.decode (buffer ++ chunks.flatten) := by
  induction chunks generalizing buffer with
  | nil => simp [read]
  | cons chunk chunks ih =>
    rw [read]
    cases hdecode : d.decode buffer with
    | value result => exact (d.stops hdecode _).symm
    | incomplete =>
      simp only
      rw [ih, List.flatten_cons, List.append_assoc]

end Decoder

/-- The chunks of at most `limit` symbols, and whether there were more. -/
def limited (limit : ℕ) : List (List σ) → List (List σ) × Bool
  | [] => ([], false)
  | chunk :: chunks =>
    if chunk.length ≤ limit then
      let rest := limited (limit - chunk.length) chunks
      (chunk :: rest.1, rest.2)
    else
      ([chunk.take limit], true)

theorem limited_flatten (limit : ℕ) (chunks : List (List σ)) :
    (limited limit chunks).1.flatten = chunks.flatten.take limit := by
  induction chunks generalizing limit with
  | nil => simp [limited]
  | cons chunk chunks ih =>
    rw [limited, List.flatten_cons, List.take_append]
    split_ifs with hfits
    · rw [List.flatten_cons, ih, List.take_of_length_le hfits]
    · have hrest : limit - chunk.length = 0 := by omega
      simp [hrest]

theorem limited_exceeded (limit : ℕ) (chunks : List (List σ)) :
    (limited limit chunks).2 = true ↔ limit < chunks.flatten.length := by
  induction chunks generalizing limit with
  | nil => simp [limited]
  | cons chunk chunks ih =>
    rw [limited, List.flatten_cons, List.length_append]
    split_ifs with hfits
    · rw [ih]
      omega
    · simp only [true_iff]
      omega

end Reader
