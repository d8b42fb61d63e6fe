import Mathlib.Tactic.Common

/-!
# Programs that call out, and a logic for them under interference

A program is a tree of calls: it either returns a value or makes a call and
continues with the reply. The meaning of a call is not fixed here. A `Context`
supplies it for one thread, together with the interference of the other
threads between two of its calls, an invariant every reachable world keeps,
and the permission a call needs. `Holds` is the resulting total-branching
precondition: every permission is met and every returning path establishes the
postcondition, whatever the replies and whatever happens in between.
-/

namespace Interaction

/-- The calls a program may make and the type of each reply. -/
structure Signature where
  Call : Type
  Reply : Call → Type

inductive Prog (S : Signature) (α : Type) where
  | ret (a : α)
  | call (c : S.Call) (k : S.Reply c → Prog S α)

namespace Prog

variable {S : Signature} {α β : Type}

def bind (p : Prog S α) (f : α → Prog S β) : Prog S β :=
  match p with
  | ret a => f a
  | call c k => call c fun r => (k r).bind f

def invoke (c : S.Call) : Prog S (S.Reply c) := call c ret

instance : Monad (Prog S) where
  pure := ret
  bind := bind

@[simp] theorem pure_eq (a : α) : (pure a : Prog S α) = ret a := rfl

@[simp] theorem ret_bind (a : α) (f : α → Prog S β) : (ret a >>= f) = f a := rfl

@[simp] theorem call_bind (c : S.Call) (k : S.Reply c → Prog S α) (f : α → Prog S β) :
    (call c k >>= f) = call c fun r => k r >>= f := rfl

theorem bind_ret (p : Prog S α) : (p >>= ret) = p := by
  induction p with
  | ret a => rfl
  | call c k ih =>
    rw [call_bind]
    exact congrArg (call c) (funext ih)

theorem bind_assoc {γ : Type} (p : Prog S α) (f : α → Prog S β) (g : β → Prog S γ) :
    (p >>= f >>= g) = p >>= fun a => f a >>= g := by
  induction p with
  | ret a => rfl
  | call c k ih =>
    simp only [call_bind]
    exact congrArg (call c) (funext ih)

instance : LawfulMonad (Prog S) :=
  LawfulMonad.mk' (Prog S) bind_ret (fun _ _ => rfl) bind_assoc

end Prog

/-- What one thread may rely on and must respect. Interference is reflexive
and transitive, so any number of foreign steps is one step of `rely`. `later`
orders the worlds by what can only be gained: interference and calls both go up. -/
structure Context (S : Signature) (W : Type) where
  rely : W → W → Prop
  inv : W → Prop
  permit : W → S.Call → Prop
  exec : W → (c : S.Call) → S.Reply c → W → Prop
  later : W → W → Prop
  rely_refl : ∀ w, rely w w
  rely_trans : ∀ {u v w}, rely u v → rely v w → rely u w
  later_trans : ∀ {u v w}, later u v → later v w → later u w
  rely_later : ∀ {u v}, rely u v → later u v
  exec_later : ∀ {u c r v}, exec u c r v → later u v

variable {S : Signature} {W : Type} {α β : Type}

theorem Context.call_later (X : Context S W) {u v w : W} {c : S.Call} {r : S.Reply c}
    (hr : X.rely u v) (he : X.exec v c r w) : X.later u w :=
  X.later_trans (X.rely_later hr) (X.exec_later he)

/-- Every call is permitted when it is made and every return meets `post`. -/
def Holds (X : Context S W) (post : α → W → Prop) : Prog S α → W → Prop
  | .ret a, w => ∀ w', X.rely w w' → X.inv w' → post a w'
  | .call c k, w => ∀ w₁, X.rely w w₁ → X.inv w₁ →
      X.permit w₁ c ∧ ∀ r w₂, X.exec w₁ c r w₂ → Holds X post (k r) w₂

/-- An assertion that survives the interference of other threads. -/
def Stable (X : Context S W) (P : W → Prop) : Prop :=
  ∀ ⦃w w'⦄, P w → X.rely w w' → P w'

namespace Holds

variable {X : Context S W} {post post' : α → W → Prop}

theorem stable (p : Prog S α) : Stable X (Holds X post p) := by
  intro w w' h hr
  cases p with
  | ret a =>
    intro v hv hi
    exact h v (X.rely_trans hr hv) hi
  | call c k =>
    intro v hv hi
    exact h v (X.rely_trans hr hv) hi

theorem intro {p : Prog S α} {w : W}
    (h : ∀ v, X.rely w v → X.inv v → Holds X post p v) : Holds X post p w := by
  cases p with
  | ret a =>
    intro v hv hi
    exact h v hv hi v (X.rely_refl v) hi
  | call c k =>
    intro v hv hi
    exact h v hv hi v (X.rely_refl v) hi

theorem mono {p : Prog S α} {w : W} (h : Holds X post p w)
    (hpost : ∀ a w, X.inv w → post a w → post' a w) : Holds X post' p w := by
  induction p generalizing w with
  | ret a =>
    intro v hv hi
    exact hpost a v hi (h v hv hi)
  | call c k ih =>
    intro v hv hi
    obtain ⟨hp, hk⟩ := h v hv hi
    exact ⟨hp, fun r u hu => ih r (hk r u hu)⟩

/-- Sequencing: the continuation is verified wherever the first part can return. -/
theorem bind {p : Prog S α} {f : α → Prog S β} {Q : β → W → Prop} {w : W}
    (h : Holds X (fun a w => Holds X Q (f a) w) p w) : Holds X Q (p >>= f) w := by
  induction p generalizing w with
  | ret a => exact intro h
  | call c k ih =>
    intro v hv hi
    obtain ⟨hp, hk⟩ := h v hv hi
    exact ⟨hp, fun r u hu => ih r (hk r u hu)⟩

theorem later {p : Prog S α} {w : W} (h : Holds X post p w) :
    Holds X (fun a v => post a v ∧ X.later w v) p w := by
  induction p generalizing w with
  | ret a =>
    intro v hv hi
    exact ⟨h v hv hi, X.rely_later hv⟩
  | call c k ih =>
    intro v hv hi
    obtain ⟨hp, hk⟩ := h v hv hi
    refine ⟨hp, fun r u hu => mono (ih r (hk r u hu)) ?_⟩
    rintro a x - ⟨hpost, hlater⟩
    exact ⟨hpost, X.later_trans (X.call_later hv hu) hlater⟩

/-- Sequencing after a verified part: what it establishes and all that was
gained before are at hand for the rest. -/
theorem seq {p : Prog S α} {f : α → Prog S β} {Q : β → W → Prop} {w : W}
    (h : Holds X post p w)
    (hf : ∀ a v, X.inv v → X.later w v → post a v → Holds X Q (f a) v) :
    Holds X Q (p >>= f) w :=
  bind (mono h.later fun a v hi hv => hf a v hi hv.2 hv.1)

theorem call {c : S.Call} {f : S.Reply c → Prog S α} {w : W}
    (h : ∀ v, X.rely w v → X.inv v →
      X.permit v c ∧ ∀ r u, X.exec v c r u → Holds X post (f r) u) :
    Holds X post (Prog.invoke c >>= f) w :=
  h

end Holds

/-- One execution of a program among the steps of others: its calls, each with the worlds
before and after it. -/
inductive Performs (X : Context S W) : Prog S α → W → List (W × S.Call × W) → Prop
  | ret (a : α) (w : W) : Performs X (.ret a) w []
  | call {c : S.Call} {k : S.Reply c → Prog S α} {r : S.Reply c} {w w₁ w₂ : W}
      {steps : List (W × S.Call × W)} (rely : X.rely w w₁) (inv : X.inv w₁)
      (exec : X.exec w₁ c r w₂) (rest : Performs X (k r) w₂ steps) :
      Performs X (.call c k) w ((w₁, c, w₂) :: steps)

/-- Whatever the replies are, every call of the program is of the given kind and every
result satisfies the postcondition. -/
def Prog.Yields (C : S.Call → Prop) (Q : α → Prop) : Prog S α → Prop
  | .ret a => Q a
  | .call c k => C c ∧ ∀ r, (k r).Yields C Q

namespace Prog.Yields

variable {C : S.Call → Prop} {Q : α → Prop} {R : β → Prop} {p : Prog S α}

theorem invoke {c : S.Call} {Q : S.Reply c → Prop} (hc : C c) (hQ : ∀ r, Q r) :
    (Prog.invoke c).Yields C Q :=
  ⟨hc, hQ⟩

theorem mono {D : S.Call → Prop} {R : α → Prop} (hC : ∀ c, C c → D c) (hQ : ∀ a, Q a → R a)
    (hp : p.Yields C Q) : p.Yields D R := by
  induction p with
  | ret a => exact hQ a hp
  | call c k ih => exact ⟨hC c hp.1, fun r => ih r (hp.2 r)⟩

theorem bind {f : α → Prog S β} (hp : p.Yields C Q) (hf : ∀ a, Q a → (f a).Yields C R) :
    (p >>= f).Yields C R := by
  induction p with
  | ret a => exact hf a hp
  | call c k ih => exact ⟨hp.1, fun r => ih r (hp.2 r)⟩

theorem trivial (p : Prog S α) : p.Yields (fun _ => True) fun _ => True := by
  induction p with
  | ret a => exact True.intro
  | call c k ih => exact ⟨True.intro, ih⟩

/-- An assertion that every call of this kind keeps holds throughout the program. -/
theorem holds {X : Context S W} {P : W → Prop} (hP : Stable X P)
    (hC : ∀ {w c}, C c → P w → X.permit w c ∧ ∀ r v, X.exec w c r v → P v)
    (hp : p.Yields C Q) {w : W} (hw : P w) : Holds X (fun _ v => P v) p w := by
  induction p generalizing w with
  | ret a => exact fun v hv _ => hP hw hv
  | call c k ih =>
    intro v hv _
    obtain ⟨hpermit, hexec⟩ := hC hp.1 (hP hw hv)
    exact ⟨hpermit, fun r u hu => ih r (hp.2 r) (hexec r u hu)⟩

end Prog.Yields

/-- Whatever the replies are, at most one call of the given kind is made. -/
def Prog.Once (C : S.Call → Prop) : Prog S α → Prop
  | .ret _ => True
  | .call c k => (C c → ∀ r, (k r).Yields (¬ C ·) fun _ => True) ∧ ∀ r, (k r).Once C

namespace Prog

variable {C : S.Call → Prop} {Q : α → Prop} {p : Prog S α} {f : α → Prog S β}

theorem Yields.once (hp : p.Yields (¬ C ·) Q) : p.Once C := by
  induction p with
  | ret a => trivial
  | call c k ih => exact ⟨fun hc => absurd hc hp.1, fun r => ih r (hp.2 r)⟩

theorem Yields.once_bind (hp : p.Yields (¬ C ·) Q) (hf : ∀ a, Q a → (f a).Once C) :
    (p >>= f).Once C := by
  induction p with
  | ret a => exact hf a hp
  | call c k ih => exact ⟨fun hc => absurd hc hp.1, fun r => ih r (hp.2 r)⟩

theorem Once.bind (hp : p.Once C) (hf : ∀ a, (f a).Yields (¬ C ·) fun _ => True) :
    (p >>= f).Once C := by
  induction p with
  | ret a => exact (hf a).once
  | call c k ih =>
    refine ⟨fun hc r => ?_, fun r => ih r (hp.2 r)⟩
    exact (hp.1 hc r).bind fun a _ => hf a

end Prog

/-- A program run over another interface: every call is replaced by a program for it. -/
def Prog.interpret {T : Signature} (f : (c : S.Call) → Prog T (S.Reply c)) :
    Prog S α → Prog T α
  | .ret a => .ret a
  | .call c k => f c >>= fun r => (k r).interpret f

/-- What the programs for its calls yield, the program yields over the other interface. -/
theorem Prog.Yields.interpret {T : Signature} {f : (c : S.Call) → Prog T (S.Reply c)}
    {C : S.Call → Prop} {D : T.Call → Prop} {Q : α → Prop} {p : Prog S α} (hp : p.Yields C Q)
    (hf : ∀ c, C c → (f c).Yields D fun _ => True) : (p.interpret f).Yields D Q := by
  induction p with
  | ret a => exact hp
  | call c k ih => exact (hf c hp.1).bind fun r _ => ih r (hp.2 r)

theorem Prog.Yields.interpret_congr {T : Signature} {f g : (c : S.Call) → Prog T (S.Reply c)}
    {C : S.Call → Prop} {Q : α → Prop} {p : Prog S α} (hp : p.Yields C Q)
    (hfg : ∀ c, C c → f c = g c) : p.interpret f = p.interpret g := by
  induction p with
  | ret a => rfl
  | call c k ih =>
    have hrest : (fun r => (k r).interpret f) = fun r => (k r).interpret g :=
      funext fun r => ih r (hp.2 r)
    simp only [Prog.interpret]
    rw [hfg c hp.1, hrest]

end Interaction
