import Mathlib.Data.List.Forall2

/-!
# Simulation of a system that answers its requests

A system takes requests one after the other and answers each of them. Another system simulates
it if related states answer corresponding requests with related answers and stay related. Then
the answers of whole runs are related.
-/

namespace Interaction

variable {σ τ α β ρ ξ : Type*}

/-- The answers to a list of requests and the last state. -/
def respond (step : σ → α → Option (ρ × σ)) : σ → List α → Option (List ρ × σ)
  | s, [] => some ([], s)
  | s, a :: requests =>
    match step s a with
    | none => none
    | some (r, next) => (respond step next requests).map fun run => (r :: run.1, run.2)

/-- Related states answer the requests of kind `A` with related answers. -/
def Simulates (step : σ → α → Option (ρ × σ)) (step' : τ → β → Option (ξ × τ)) (A : α → Prop)
    (translate : α → β) (R : σ → τ → Prop) (Q : ρ → ξ → Prop) : Prop :=
  ∀ (s : σ) (t : τ) (a : α) (r : ρ) (s' : σ), R s t → A a → step s a = some (r, s') →
    ∃ r' t', step' t (translate a) = some (r', t') ∧ Q r r' ∧ R s' t'

variable {step : σ → α → Option (ρ × σ)} {step' : τ → β → Option (ξ × τ)} {A : α → Prop}
  {translate : α → β} {R : σ → τ → Prop} {Q : ρ → ξ → Prop}

theorem Simulates.respond (h : Simulates step step' A translate R Q) {requests : List α}
    (hA : ∀ a ∈ requests, A a) {s s' : σ} {t : τ} {replies : List ρ} (hR : R s t)
    (hrun : Interaction.respond step s requests = some (replies, s')) :
    ∃ replies' t', Interaction.respond step' t (requests.map translate) = some (replies', t') ∧
      List.Forall₂ Q replies replies' ∧ R s' t' := by
  induction requests generalizing s t replies with
  | nil =>
    cases hrun
    exact ⟨[], t, rfl, .nil, hR⟩
  | cons a requests ih =>
    unfold Interaction.respond at hrun
    split at hrun
    · cases hrun
    · rename_i r next hnext
      obtain ⟨⟨rest, last⟩, hrest, hsame⟩ := Option.map_eq_some_iff.mp hrun
      cases hsame
      obtain ⟨r', t', hstep, hQ, hR'⟩ := h _ _ _ _ _ hR (hA a (List.mem_cons_self ..)) hnext
      obtain ⟨rest', last', hrun', hall, hlast⟩ :=
        ih (fun b hb => hA b (List.mem_cons_of_mem _ hb)) hR' hrest
      refine ⟨r' :: rest', last', ?_, .cons hQ hall, hlast⟩
      simp only [List.map_cons, Interaction.respond, hstep, hrun', Option.map_some]

end Interaction
