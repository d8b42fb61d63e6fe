import Mathlib.Data.List.Basic

/-!
# Subjects and wildcards

A subject is a list of tokens separated by dots. In a pattern the token `*` stands for any
one token and a last token `>` for one or more.
-/

namespace Interaction

def tokens (subject : String) : List (List Char) := subject.toList.splitOn '.'

def tokensMatch : List (List Char) → List (List Char) → Bool
  | [], subject => subject.isEmpty
  | _ :: _, [] => false
  | token :: pattern, t :: subject =>
    if token = ['>'] ∧ pattern = [] then true
    else (token = ['*'] ∨ token = t) && tokensMatch pattern subject

def subjectMatches (pattern subject : String) : Bool :=
  tokensMatch (tokens pattern) (tokens subject)

theorem tokens_append (stem rest : String) :
    tokens (stem ++ "." ++ rest) = tokens stem ++ tokens rest := by
  have hchars : (stem ++ "." ++ rest).toList = stem.toList ++ '.' :: rest.toList := by simp
  rw [tokens, hchars, List.splitOn_append_cons_self]
  rfl

theorem tokens_of_not_mem {name : String} (h : '.' ∉ name.toList) : tokens name = [name.toList] :=
  List.splitOn_eq_singleton h

theorem eq_of_tokens_eq {name : String} {token : List Char} (h : tokens name = [token]) :
    name.toList = token := by
  have hjoin : ['.'].intercalate (tokens name) = name.toList := List.intercalate_splitOn '.'
  rw [h] at hjoin
  simpa using hjoin.symm

/-- Equal tokens without wildcards in front of a pattern and a subject do not matter. -/
theorem tokensMatch_append {stem : List (List Char)} (hstem : ∀ t ∈ stem, t ≠ ['>'])
    (pattern subject : List (List Char)) :
    tokensMatch (stem ++ pattern) (stem ++ subject) = tokensMatch pattern subject := by
  induction stem with
  | nil => rfl
  | cons t stem ih =>
    have hrest : ∀ t ∈ stem, t ≠ ['>'] := fun u hu => hstem u (List.mem_cons_of_mem t hu)
    have ht : t ≠ ['>'] := hstem t (List.mem_cons_self ..)
    simp [tokensMatch, ht, ih hrest]

theorem tokensMatch_singleton (pattern : List (List Char)) (t : List Char) :
    tokensMatch pattern [t] = true ↔ pattern = [['>']] ∨ pattern = [['*']] ∨ pattern = [t] := by
  cases pattern with
  | nil => simp [tokensMatch]
  | cons token pattern =>
    cases pattern with
    | nil =>
      by_cases htail : token = ['>']
      · simp [tokensMatch, htail]
      · simp [tokensMatch, htail]
    | cons token' pattern => simp [tokensMatch]

theorem subjectMatches_iff {stem name : String} (hstem : ∀ t ∈ tokens stem, t ≠ ['>'])
    (hname : '.' ∉ name.toList) (token : String) :
    subjectMatches (stem ++ "." ++ token) (stem ++ "." ++ name) = true ↔
      token = ">" ∨ token = "*" ∨ token = name := by
  have hsingle : ∀ {s : String}, '.' ∉ s.toList → (tokens token = [s.toList] ↔ token = s) := by
    intro s hs
    constructor
    · intro h
      exact String.toList_injective (eq_of_tokens_eq h)
    · rintro rfl
      exact tokens_of_not_mem hs
  rw [subjectMatches, tokens_append, tokens_append, tokensMatch_append hstem,
    tokens_of_not_mem hname, tokensMatch_singleton]
  exact or_congr (hsingle (s := ">") (by decide)) (or_congr (hsingle (s := "*") (by decide))
    (hsingle hname))

end Interaction
