import AsyncJobs.Interaction.Prog

/-!
# Programs that are bound to make a call

`Reaches` follows a program along the replies that are admitted and asks for a call of
some kind before it returns; results that satisfy the postcondition are let through, so
that programs can be put one after the other. `LeadsTo` asks for the same from every
point where the program has just made a call of another kind. Neither looks at a world.
-/

namespace Interaction

variable {S : Signature} {α β : Type}

/-- Along every admitted reply the program makes a call of kind `D` or returns a result
that satisfies the postcondition. -/
def Prog.Reaches (A : (c : S.Call) → S.Reply c → Prop) (D : S.Call → Prop) (Q : α → Prop) :
    Prog S α → Prop
  | .ret a => Q a
  | .call c k => D c ∨ ∀ r, A c r → (k r).Reaches A D Q

/-- After every call of kind `C` the rest of the program reaches one of kind `D`. -/
def Prog.LeadsTo (C : S.Call → Prop) (A : (c : S.Call) → S.Reply c → Prop) (D : S.Call → Prop)
    (Q : α → Prop) : Prog S α → Prop
  | .ret _ => True
  | .call c k => (C c → ∀ r, A c r → (k r).Reaches A D Q) ∧ ∀ r, (k r).LeadsTo C A D Q

namespace Prog

variable {A : (c : S.Call) → S.Reply c → Prop} {C D : S.Call → Prop} {Q : α → Prop}
  {R : β → Prop} {p : Prog S α} {f : α → Prog S β}

theorem Reaches.mono {A' : (c : S.Call) → S.Reply c → Prop} {D' : S.Call → Prop} {Q' : α → Prop}
    (h : p.Reaches A D Q) (hA : ∀ c r, A' c r → A c r) (hD : ∀ c, D c → D' c)
    (hQ : ∀ a, Q a → Q' a) : p.Reaches A' D' Q' := by
  induction p with
  | ret a => exact hQ a h
  | call c k ih =>
    rcases h with hdone | hrest
    · exact Or.inl (hD c hdone)
    · exact Or.inr fun r hr => ih r (hrest r (hA c r hr))

theorem Reaches.bind (h : p.Reaches A D Q) (hf : ∀ a, Q a → (f a).Reaches A D R) :
    (p >>= f).Reaches A D R := by
  induction p with
  | ret a => exact hf a h
  | call c k ih =>
    rcases h with hdone | hrest
    · exact Or.inl hdone
    · exact Or.inr fun r hr => ih r (hrest r hr)

/-- A program that only returns good results reaches the call or one of them. -/
theorem Yields.reaches {K : S.Call → Prop} (h : p.Yields K Q) : p.Reaches A D Q := by
  induction p with
  | ret a => exact h
  | call c k ih => exact Or.inr fun r _ => ih r (h.2 r)

theorem Yields.leadsTo {K : S.Call → Prop} (h : p.Yields K Q) : p.LeadsTo C A D Q := by
  induction p with
  | ret a => trivial
  | call c k ih => exact ⟨fun _ r _ => (h.2 r).reaches, fun r => ih r (h.2 r)⟩

theorem Yields.leadsTo_of_not {P : α → Prop} (h : p.Yields (¬ C ·) P) : p.LeadsTo C A D Q := by
  induction p with
  | ret a => trivial
  | call c k ih => exact ⟨fun hc => absurd hc h.1, fun r => ih r (h.2 r)⟩

theorem LeadsTo.bind (h : p.LeadsTo C A D Q) (hreaches : ∀ a, Q a → (f a).Reaches A D R)
    (hf : ∀ a, (f a).LeadsTo C A D R) : (p >>= f).LeadsTo C A D R := by
  induction p with
  | ret a => exact hf a
  | call c k ih =>
    refine ⟨fun hc r hr => ?_, fun r => ih r (h.2 r)⟩
    exact (h.1 hc r hr).bind hreaches

end Prog

end Interaction
