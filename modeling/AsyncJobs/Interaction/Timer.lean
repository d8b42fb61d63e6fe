import Mathlib.Tactic.Common

/-!
# One-shot timers

A timer that was given a function starts it, in a goroutine of its own, some time after
its deadline. Resetting the timer sets a new deadline whether or not it has fired, and
stopping it keeps it from firing; neither stops a function that was started before.
-/

namespace Interaction

/-- `fired` counts the functions that were started and `finished` those of them that ran. -/
structure Timer where
  deadline : Int
  armed : Bool := true
  fired : Nat := 0
  finished : Nat := 0
  deriving DecidableEq, Repr

namespace Timer

def fire (t : Timer) (now : Int) : Option Timer :=
  if t.armed ∧ t.deadline ≤ now then some { t with armed := false, fired := t.fired + 1 } else none

def finish (t : Timer) : Option Timer :=
  if t.finished < t.fired then some { t with finished := t.finished + 1 } else none

def reset (t : Timer) (now duration : Int) : Timer :=
  { t with deadline := now + duration, armed := true }

def stop (t : Timer) : Timer := { t with armed := false }

/-- The timer has not fired before this instant and will not before it. -/
structure QuietUntil (t : Timer) (now instant : Int) : Prop where
  deadline : instant ≤ t.deadline
  fired : 0 < t.fired → instant ≤ now

variable {t t' : Timer} {now now' instant duration : Int}

theorem fire_some (h : t.fire now = some t') :
    t.armed = true ∧ t.deadline ≤ now ∧ t' = { t with armed := false, fired := t.fired + 1 } := by
  unfold fire at h
  split_ifs at h with hdue
  exact ⟨hdue.1, hdue.2, (Option.some.inj h).symm⟩

theorem finish_some (h : t.finish = some t') :
    t.finished < t.fired ∧ t' = { t with finished := t.finished + 1 } := by
  unfold finish at h
  split_ifs at h with hstarted
  exact ⟨hstarted, (Option.some.inj h).symm⟩

theorem finish_of_lt (h : t.finished < t.fired) :
    t.finish = some { t with finished := t.finished + 1 } := if_pos h

namespace QuietUntil

theorem pass (h : t.QuietUntil now instant) (hnow : now ≤ now') : t.QuietUntil now' instant where
  deadline := h.deadline
  fired hfired := Int.le_trans (h.fired hfired) hnow

theorem fire (h : t.QuietUntil now instant) (hfire : t.fire now = some t') :
    t'.QuietUntil now instant := by
  obtain ⟨-, hdue, rfl⟩ := fire_some hfire
  exact ⟨h.deadline, fun _ => Int.le_trans h.deadline hdue⟩

theorem finish (h : t.QuietUntil now instant) (hfinish : t.finish = some t') :
    t'.QuietUntil now instant := by
  obtain ⟨-, rfl⟩ := finish_some hfinish
  exact ⟨h.deadline, h.fired⟩

theorem reset (h : t.QuietUntil now instant) (hlater : instant ≤ now + duration) :
    (t.reset now duration).QuietUntil now instant := ⟨hlater, h.fired⟩

theorem stop (h : t.QuietUntil now instant) : t.stop.QuietUntil now instant :=
  ⟨h.deadline, h.fired⟩

theorem of_reset (h : t.fired = 0) :
    (t.reset now duration).QuietUntil now (now + duration) where
  deadline := Int.le_refl _
  fired hfired := absurd h (Nat.ne_of_gt hfired)

end QuietUntil

end Timer

end Interaction
