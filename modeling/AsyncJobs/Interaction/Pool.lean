import AsyncJobs.Interaction.Prog

/-!
# Pools of threads

Threads carry a tag that selects their context. A pool is safe when every thread
meets its own specification from the current world on. A step of one thread
keeps the pool safe if the other threads rely on no more than what it leaves
intact, and the threads it starts are safe to begin with.

A server is a pool with a thread for each request, numbered in the order of their
arrival, and a log of what the requests did.
-/

namespace Interaction

structure Thread (S : Signature) (τ : Type) where
  tag : τ
  prog : Prog S Unit

variable {S : Signature} {W τ : Type} {X : τ → Context S W}

def Safe (X : τ → Context S W) (w : W) (threads : List (Thread S τ)) : Prop :=
  ∀ th ∈ threads, Holds (X th.tag) (fun _ _ => True) th.prog w

namespace Safe

variable {w w' : W} {threads : List (Thread S τ)}

theorem nil : Safe X w [] := by
  intro th hth
  cases hth

theorem rely (h : Safe X w threads) (hr : ∀ th ∈ threads, (X th.tag).rely w w') :
    Safe X w' threads := by
  intro th hth
  exact Holds.stable th.prog (h th hth) (hr th hth)

theorem append {started : List (Thread S τ)} (h : Safe X w threads)
    (hs : Safe X w started) : Safe X w (threads ++ started) := by
  intro th hth
  rcases List.mem_append.mp hth with hth | hth
  · exact h th hth
  · exact hs th hth

theorem crash (h : Safe X w threads) (i : ℕ) (tag : τ) :
    Safe X w (threads.set i ⟨tag, .ret ()⟩) := by
  intro th hth
  rcases List.mem_or_eq_of_mem_set hth with hth | rfl
  · exact h th hth
  · intro v hv hi
    trivial

theorem next (h : Safe X w threads) {tag : τ} {c : S.Call} {k : S.Reply c → Prog S Unit}
    (hmem : ⟨tag, .call c k⟩ ∈ threads) (hi : (X tag).inv w) :
    (X tag).permit w c ∧ ∀ r v, (X tag).exec w c r v →
      Holds (X tag) (fun _ _ => True) (k r) v :=
  h _ hmem w ((X tag).rely_refl w) hi

/-- One call of thread `i`; the others see it as interference. -/
theorem step (h : Safe X w threads) {i : ℕ} {tag : τ} {c : S.Call}
    {k : S.Reply c → Prog S Unit} {r : S.Reply c}
    (hget : threads[i]? = some ⟨tag, .call c k⟩) (hi : (X tag).inv w)
    (hexec : (X tag).exec w c r w')
    (hother : ∀ j th, threads[j]? = some th → j ≠ i → (X th.tag).rely w w') :
    Safe X w' (threads.set i ⟨tag, k r⟩) := by
  intro th hth
  obtain ⟨j, hj⟩ := List.mem_iff_getElem?.mp hth
  by_cases hji : j = i
  · subst hji
    rw [List.getElem?_set_self' , hget] at hj
    cases hj
    exact (h.next (List.mem_of_getElem? hget) hi).2 r w' hexec
  · rw [List.getElem?_set_ne (Ne.symm hji)] at hj
    exact Holds.stable th.prog (h th (List.mem_of_getElem? hj)) (hother j th hj hji)

end Safe

section Numbered

variable {threads : List (Thread S τ)} {f : τ → ℕ}

theorem numbered_set {i : ℕ} {tag : τ} {p : Prog S Unit}
    (h : ∀ (j : ℕ) th, threads[j]? = some th → f th.tag = j)
    (hget : threads[i]? = some ⟨tag, p⟩) (q : Prog S Unit) :
    ∀ (j : ℕ) th, (threads.set i ⟨tag, q⟩)[j]? = some th → f th.tag = j := by
  intro j th hj
  by_cases hij : i = j
  · subst hij
    have hnumber := h i _ hget
    rw [List.getElem?_set_self', hget] at hj
    cases hj
    exact hnumber
  · rw [List.getElem?_set_ne hij] at hj
    exact h j th hj

theorem numbered_append {tag : τ}
    (h : ∀ (j : ℕ) th, threads[j]? = some th → f th.tag = j)
    (htag : f tag = threads.length) (p : Prog S Unit) :
    ∀ (j : ℕ) th, (threads ++ [⟨tag, p⟩])[j]? = some th → f th.tag = j := by
  intro j th hj
  obtain hlt | heq | hgt := Nat.lt_trichotomy j threads.length
  · rw [List.getElem?_append_left hlt] at hj
    exact h j th hj
  · subst heq
    rw [List.getElem?_concat_length] at hj
    cases hj
    exact htag
  · rw [List.getElem?_eq_none (by simp; omega)] at hj
    cases hj

end Numbered

section Servers

variable {O E : Type}

/-- Thread `i` makes its next call, with the given outcome. -/
def stepThread (exec : W → τ → (c : S.Call) → O → Option (S.Reply c × W)) (w : W)
    (threads : List (Thread S τ)) (i : ℕ) (o : O) : Option (W × List (Thread S τ)) :=
  match threads[i]? with
  | some ⟨tag, .call c k⟩ => (exec w tag c o).map fun a => (a.2, threads.set i ⟨tag, k a.1⟩)
  | _ => none

def nextCall (threads : List (Thread S τ)) (i : ℕ) : Option (τ × S.Call) :=
  match threads[i]? with
  | some ⟨tag, .call c _⟩ => some (tag, c)
  | _ => none

theorem nextCall_eq {threads : List (Thread S τ)} {i : ℕ} {tag : τ} {c : S.Call}
    {k : S.Reply c → Prog S Unit} (h : threads[i]? = some ⟨tag, .call c k⟩) :
    nextCall threads i = some (tag, c) := by
  simp only [nextCall, h]

theorem stepThread_call {exec : W → τ → (c : S.Call) → O → Option (S.Reply c × W)} {w w' : W}
    {threads threads' : List (Thread S τ)} {i : ℕ} {o : O}
    (h : stepThread exec w threads i o = some (w', threads')) :
    ∃ tag c k r, threads[i]? = some ⟨tag, .call c k⟩ ∧ exec w tag c o = some (r, w') ∧
      threads' = threads.set i ⟨tag, k r⟩ := by
  unfold stepThread at h
  split at h
  · rename_i tag c k hget
    obtain ⟨⟨r, w''⟩, hexec, heq⟩ := Option.map_eq_some_iff.mp h
    cases heq
    exact ⟨tag, c, k, r, hget, hexec, rfl⟩
  · cases h

/-- What holds of a server at any time: an invariant of the world, the threads are numbered,
the log tells of no other threads, and each thread meets its specification. -/
structure Serves (X : τ → Context S W) (inv : W → Prop) (number : τ → ℕ) (log : W → List E)
    (author : E → ℕ) (w : W) (threads : List (Thread S τ)) : Prop where
  world : inv w
  numbered : ∀ (i : ℕ) th, threads[i]? = some th → number th.tag = i
  fresh : ∀ e ∈ log w, author e < threads.length
  safe : Safe X w threads

namespace Serves

variable {inv : W → Prop} {number : τ → ℕ} {log : W → List E} {author : E → ℕ} {w w' : W}
  {threads : List (Thread S τ)}

theorem start (hinv : inv w) (hlog : log w = []) : Serves X inv number log author w [] where
  world := hinv
  numbered i th h := by cases h
  fresh e he := by
    rw [hlog] at he
    cases he
  safe := Safe.nil

variable (h : Serves X inv number log author w threads)
include h

theorem permitted {i : ℕ} {tag : τ} {c : S.Call} {k : S.Reply c → Prog S Unit}
    (hget : threads[i]? = some ⟨tag, .call c k⟩) (hX : (X tag).inv w) : (X tag).permit w c :=
  (h.safe.next (List.mem_of_getElem? hget) hX).1

/-- A call of one thread, which adds to the log in its own name only. -/
theorem call {i : ℕ} {tag : τ} {c : S.Call} {k : S.Reply c → Prog S Unit} {r : S.Reply c}
    (hget : threads[i]? = some ⟨tag, .call c k⟩) (hX : (X tag).inv w)
    (hexec : (X tag).exec w c r w') (hinv : inv w')
    (hlog : ∃ es, log w' = es ++ log w ∧ ∀ e ∈ es, author e = number tag)
    (hrely : ∀ tag', number tag' ≠ number tag → (X tag').rely w w') :
    Serves X inv number log author w' (threads.set i ⟨tag, k r⟩) where
  world := hinv
  numbered := numbered_set h.numbered hget (k r)
  fresh := by
    intro e he
    obtain ⟨es, hlog, hes⟩ := hlog
    rw [List.length_set]
    rw [hlog] at he
    rcases List.mem_append.mp he with he | he
    · rw [hes e he, h.numbered i _ hget]
      exact (List.getElem?_eq_some_iff.mp hget).1
    · exact h.fresh e he
  safe := by
    apply h.safe.step hget hX hexec
    intro j th hj hij
    apply hrely
    rw [h.numbered j th hj, h.numbered i _ hget]
    exact hij

theorem arrive {tag : τ} {p : Prog S Unit} (htag : number tag = threads.length)
    (hp : (∀ e ∈ log w, author e ≠ number tag) → Holds (X tag) (fun _ _ => True) p w) :
    Serves X inv number log author w (threads ++ [⟨tag, p⟩]) where
  world := h.world
  numbered := numbered_append h.numbered htag p
  fresh := by
    intro e he
    have hlt := h.fresh e he
    rw [List.length_append, List.length_singleton]
    omega
  safe := by
    apply h.safe.append
    intro th hth
    rw [List.mem_singleton.mp hth]
    apply hp
    intro e he
    have hlt := h.fresh e he
    omega

theorem environment (hinv : inv w') (hlog : log w' = log w)
    (hrely : ∀ tag, (X tag).rely w w') : Serves X inv number log author w' threads where
  world := hinv
  numbered := h.numbered
  fresh := by
    rw [hlog]
    exact h.fresh
  safe := h.safe.rely fun th _ => hrely th.tag

end Serves

end Servers

end Interaction
