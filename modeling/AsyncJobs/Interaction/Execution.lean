import AsyncJobs.Interaction.Prog

/-!
# Single executions of a program

`Follows` relates a program to the calls it makes, with their replies, and to what it
returns; the replies are arbitrary. `execute` runs a program alone on a state, given what
becomes of each of its calls, and `evaluate` on a state that determines every reply.
-/

namespace Interaction

variable {S : Signature} {α β σ ρ : Type}

abbrev Answered (S : Signature) := Sigma S.Reply

/-- The program makes these calls, gets these replies and returns this. -/
inductive Prog.Follows : Prog S α → List (Answered S) → α → Prop
  | ret (a : α) : Follows (.ret a) [] a
  | call {c : S.Call} {k : S.Reply c → Prog S α} {r : S.Reply c} {trace : List (Answered S)} {a : α}
      (h : Follows (k r) trace a) : Follows (.call c k) (⟨c, r⟩ :: trace) a

namespace Prog.Follows

theorem of_ret {a b : α} {trace : List (Answered S)} (h : (Prog.ret a : Prog S α).Follows trace b) :
    trace = [] ∧ b = a := by
  cases h
  exact ⟨rfl, rfl⟩

theorem of_call {c : S.Call} {k : S.Reply c → Prog S α} {trace : List (Answered S)} {a : α}
    (h : (Prog.call c k).Follows trace a) :
    ∃ r rest, trace = ⟨c, r⟩ :: rest ∧ (k r).Follows rest a := by
  cases h with
  | @call _ _ r rest _ h => exact ⟨r, rest, rfl, h⟩

theorem of_bind {p : Prog S α} {f : α → Prog S β} {trace : List (Answered S)} {b : β}
    (h : (p >>= f).Follows trace b) :
    ∃ first rest a, trace = first ++ rest ∧ p.Follows first a ∧ (f a).Follows rest b := by
  induction p generalizing trace with
  | ret a => exact ⟨[], trace, a, rfl, .ret a, h⟩
  | call c k ih =>
    obtain ⟨r, tail, rfl, htail⟩ := of_call h
    obtain ⟨first, rest, a, rfl, hfirst, hrest⟩ := ih r htail
    exact ⟨⟨c, r⟩ :: first, rest, a, rfl, .call hfirst, hrest⟩

end Prog.Follows

/-- What holds of every call and result of a program holds along every execution. -/
theorem Prog.Yields.follows {C : S.Call → Prop} {Q : α → Prop} {p : Prog S α}
    {trace : List (Answered S)} {a : α} (hp : p.Yields C Q) (h : p.Follows trace a) :
    (∀ e ∈ trace, C e.1) ∧ Q a := by
  induction h with
  | ret a => exact ⟨List.forall_mem_nil _, hp⟩
  | call _ ih =>
    obtain ⟨hrest, ha⟩ := ih (hp.2 _)
    exact ⟨List.forall_mem_cons.mpr ⟨hp.1, hrest⟩, ha⟩

/-- Whatever the replies are, the program makes one call of kind `D`, as its last, and that
call is good. -/
def Prog.Concludes (D P : S.Call → Prop) : Prog S α → Prop
  | .ret _ => False
  | .call c k => D c ∧ P c ∧ (∀ r, ∃ a, k r = .ret a) ∨ ¬ D c ∧ ∀ r, (k r).Concludes D P

namespace Prog.Concludes

variable {D P : S.Call → Prop} {p : Prog S α}

theorem invoke {c : S.Call} (hD : D c) (hP : P c) : (Prog.invoke c).Concludes D P :=
  Or.inl ⟨hD, hP, fun r => ⟨r, rfl⟩⟩

theorem bind {Q : α → Prop} {f : α → Prog S β} (hp : p.Yields (¬ D ·) Q)
    (hf : ∀ a, Q a → (f a).Concludes D P) : (p >>= f).Concludes D P := by
  induction p with
  | ret a => exact hf a hp
  | call c k ih => exact Or.inr ⟨hp.1, fun r => ih r (hp.2 r)⟩

/-- The last call of an execution is its only one of this kind. -/
theorem follows (h : p.Concludes D P) {trace : List (Answered S)} {a : α}
    (hrun : p.Follows trace a) :
    ∃ before last, trace = before ++ [last] ∧ (∀ e ∈ before, ¬ D e.1) ∧ D last.1 ∧ P last.1 := by
  induction p generalizing trace with
  | ret b => cases h
  | call c k ih =>
    obtain ⟨r, rest, rfl, hrest⟩ := Follows.of_call hrun
    obtain ⟨hD, hP, hlast⟩ | ⟨hD, hmore⟩ := h
    · obtain ⟨b, hb⟩ := hlast r
      rw [hb] at hrest
      obtain ⟨rfl, -⟩ := Follows.of_ret hrest
      exact ⟨[], ⟨c, r⟩, rfl, List.forall_mem_nil _, hD, hP⟩
    · obtain ⟨before, last, rfl, hbefore, hlast⟩ := ih r (hmore r) hrest
      exact ⟨⟨c, r⟩ :: before, last, rfl, List.forall_mem_cons.mpr ⟨hD, hbefore⟩, hlast⟩

theorem interpret {T : Signature} {f : S.Call → T.Call}
    {g : (c : S.Call) → T.Reply (f c) → S.Reply c} {E R : T.Call → Prop} (h : p.Concludes D P)
    (hD : ∀ c, E (f c) ↔ D c) (hP : ∀ c, P c → R (f c)) :
    (p.interpret fun c => Prog.call (f c) fun r => .ret (g c r)).Concludes E R := by
  induction p with
  | ret a => exact h
  | call c k ih =>
    obtain ⟨hc, hgood, hlast⟩ | ⟨hc, hrest⟩ := h
    · refine Or.inl ⟨(hD c).mpr hc, hP c hgood, fun r => ?_⟩
      obtain ⟨a, ha⟩ := hlast (g c r)
      refine ⟨a, ?_⟩
      change (k (g c r)).interpret _ = _
      rw [ha]
      rfl
    · exact Or.inr ⟨mt (hD c).mp hc, fun r => ih (g c r) (hrest (g c r))⟩

end Prog.Concludes

/-- The execution in which every call gets the reply that is fixed for it, if there is one. -/
def Prog.transcript (reply : (c : S.Call) → Option (S.Reply c)) :
    Prog S α → Option (List (Answered S) × α)
  | .ret a => some ([], a)
  | .call c k =>
    match reply c with
    | none => none
    | some r => ((k r).transcript reply).map fun rest => (⟨c, r⟩ :: rest.1, rest.2)

theorem Prog.Follows.of_transcript {reply : (c : S.Call) → Option (S.Reply c)} {p : Prog S α}
    {trace : List (Answered S)} {a : α} (h : p.transcript reply = some (trace, a)) :
    p.Follows trace a := by
  induction p generalizing trace with
  | ret b =>
    cases h
    exact .ret a
  | call c k ih =>
    rw [transcript] at h
    cases hreply : reply c with
    | none =>
      rw [hreply] at h
      cases h
    | some r =>
      rw [hreply] at h
      obtain ⟨rest, hrest, heq⟩ := Option.map_eq_some_iff.mp h
      cases heq
      exact .call (ih r hrest)

theorem Prog.Follows.of_isSome {reply : (c : S.Call) → Option (S.Reply c)} {p : Prog S Unit}
    (h : (p.transcript reply).isSome = true) :
    p.Follows (((p.transcript reply).map Prod.fst).getD []) () := by
  obtain ⟨⟨trace, result⟩, hrun⟩ := Option.isSome_iff_exists.mp h
  rw [hrun]
  exact Prog.Follows.of_transcript hrun

/-- Runs the program on a state with one outcome for each call; what is left of the outcomes
is returned with the result. -/
def Prog.execute (handle : (c : S.Call) → ρ → σ → Option (S.Reply c × σ)) :
    Prog S α → List ρ → σ → Option (α × List ρ × σ)
  | .ret a, outcomes, s => some (a, outcomes, s)
  | .call _ _, [], _ => none
  | .call c k, o :: outcomes, s =>
    match handle c o s with
    | none => none
    | some (r, s') => (k r).execute handle outcomes s'

variable {handle : (c : S.Call) → ρ → σ → Option (S.Reply c × σ)}

theorem Prog.execute_call {c : S.Call} {k : S.Reply c → Prog S α} {o : ρ} {outcomes : List ρ}
    {s s' : σ} {r : S.Reply c} (h : handle c o s = some (r, s')) :
    (Prog.call c k).execute handle (o :: outcomes) s = (k r).execute handle outcomes s' := by
  simp [execute, h]

theorem Prog.of_execute_call {c : S.Call} {k : S.Reply c → Prog S α} {outcomes rest : List ρ}
    {s s' : σ} {a : α} (h : (Prog.call c k).execute handle outcomes s = some (a, rest, s')) :
    ∃ o os r u, outcomes = o :: os ∧ handle c o s = some (r, u) ∧
      (k r).execute handle os u = some (a, rest, s') := by
  cases outcomes with
  | nil => cases h
  | cons o os =>
    rw [execute] at h
    cases hanswer : handle c o s with
    | none =>
      rw [hanswer] at h
      cases h
    | some answer =>
      rw [hanswer] at h
      exact ⟨o, os, answer.1, answer.2, rfl, hanswer, h⟩

theorem Prog.execute_bind (p : Prog S α) (f : α → Prog S β) (outcomes : List ρ) (s : σ) :
    (p >>= f).execute handle outcomes s =
      (p.execute handle outcomes s).bind fun r => (f r.1).execute handle r.2.1 r.2.2 := by
  induction p generalizing outcomes s with
  | ret a => rfl
  | call c k ih =>
    cases outcomes with
    | nil => rfl
    | cons o outcomes =>
      rw [call_bind, execute, execute]
      cases handle c o s with
      | none => rfl
      | some answer => exact ih answer.1 outcomes answer.2

theorem Prog.Yields.of_execute {C : S.Call → Prop} {Q : α → Prop} {P : σ → Prop}
    (hstep : ∀ c o s r s', C c → P s → handle c o s = some (r, s') → P s') {p : Prog S α}
    (hp : p.Yields C Q) {outcomes rest : List ρ} {s s' : σ} {a : α} (hs : P s)
    (h : p.execute handle outcomes s = some (a, rest, s')) : P s' ∧ Q a := by
  induction p generalizing outcomes s with
  | ret b =>
    cases h
    exact ⟨hs, hp⟩
  | call c k ih =>
    obtain ⟨o, os, r, u, -, hcall, hrest⟩ := Prog.of_execute_call h
    exact ih r (hp.2 r) (hstep c o s r u hp.1 hs hcall) hrest

/-- Runs the program on a state that answers its calls. -/
def Prog.evaluate (answer : (c : S.Call) → σ → Option (S.Reply c × σ)) :
    Prog S α → σ → Option (α × σ)
  | .ret a, s => some (a, s)
  | .call c k, s =>
    match answer c s with
    | none => none
    | some (r, s') => (k r).evaluate answer s'

section Evaluate

variable {answer : (c : S.Call) → σ → Option (S.Reply c × σ)}

theorem Prog.evaluate_call {c : S.Call} {k : S.Reply c → Prog S α} {s s' : σ} {r : S.Reply c}
    (h : answer c s = some (r, s')) :
    (Prog.call c k).evaluate answer s = (k r).evaluate answer s' := by
  simp [evaluate, h]

theorem Prog.evaluate_bind {p : Prog S α} {f : α → Prog S β} {s s' : σ} {a : α}
    (h : p.evaluate answer s = some (a, s')) :
    (p >>= f).evaluate answer s = (f a).evaluate answer s' := by
  induction p generalizing s with
  | ret b =>
    cases h
    rfl
  | call c k ih =>
    rw [evaluate] at h
    rw [call_bind, evaluate]
    cases hreply : answer c s with
    | none =>
      rw [hreply] at h
      cases h
    | some reply =>
      rw [hreply] at h
      exact ih reply.1 h

end Evaluate

end Interaction
