import AsyncJobs.Model.Client
import Mathlib.Tactic.Common

/-!
# What a signature binds

The signed message joins seven fields with colons. The last four never hold one, so the
message determines them, as they are printed, and the text that joins the three names before
them. The names themselves may hold colons. Where one name ends and the next begins is not
part of the message, nor is what two instants with the same 64-bit count differ in, nor
whether a deadline printed as 0 is set.
-/

namespace AsyncJobs

section Separators

variable {α : Type} [DecidableEq α] {sep : α} {a b x y : List α}

/-- A list can be cut at a separator once it is known how many are in front of it. -/
theorem append_cons_inj_of_count (h : a ++ sep :: x = b ++ sep :: y)
    (hcount : a.count sep = b.count sep) : a = b ∧ x = y := by
  induction a generalizing b with
  | nil =>
    cases b with
    | nil =>
      injection h with _ hx
      exact ⟨rfl, hx⟩
    | cons d b =>
      injection h with hd _
      subst hd
      rw [List.count_nil, List.count_cons_self] at hcount
      omega
  | cons c a ih =>
    cases b with
    | nil =>
      injection h with hc _
      subst hc
      rw [List.count_nil, List.count_cons_self] at hcount
      omega
    | cons d b =>
      injection h with hcd hrest
      subst hcd
      rw [List.count_cons, List.count_cons] at hcount
      obtain ⟨hab, hxy⟩ := ih hrest (by omega)
      exact ⟨congrArg (c :: ·) hab, hxy⟩

theorem append_cons_inj_of_count_after (h : a ++ sep :: x = b ++ sep :: y)
    (hcount : x.count sep = y.count sep) : a = b ∧ x = y := by
  have htotal := congrArg (List.count sep) h
  simp only [List.count_append, List.count_cons_self] at htotal
  exact append_cons_inj_of_count h (by omega)

end Separators

def colons (s : String) : Nat := s.toList.count ':'

section Texts

variable {s s' x y : String}

theorem toList_joined (s x : String) : (s ++ ":" ++ x).toList = s.toList ++ ':' :: x.toList := by
  simp [String.toList_append]

theorem joined_inj (h : s ++ ":" ++ x = s' ++ ":" ++ y) (hcolons : colons x = colons y) :
    s = s' ∧ x = y := by
  have hlist := congrArg String.toList h
  rw [toList_joined, toList_joined] at hlist
  obtain ⟨hs, hx⟩ := append_cons_inj_of_count_after hlist hcolons
  exact ⟨String.toList_inj.mp hs, String.toList_inj.mp hx⟩

theorem joined_inj_of_first (h : s ++ ":" ++ x = s' ++ ":" ++ y)
    (hcolons : colons s = colons s') : s = s' ∧ x = y := by
  have hlist := congrArg String.toList h
  rw [toList_joined, toList_joined] at hlist
  obtain ⟨hs, hx⟩ := append_cons_inj_of_count hlist hcolons
  exact ⟨String.toList_inj.mp hs, String.toList_inj.mp hx⟩

theorem colons_natRepr (n : Nat) : colons n.repr = 0 := by
  apply List.count_eq_zero_of_not_mem
  intro hmem
  rw [Nat.toList_repr] at hmem
  have hdigit := Nat.isDigit_of_mem_toDigits (by decide) (by decide) hmem
  exact absurd hdigit (by decide)

theorem colons_toString (n : Int) : colons (toString n) = 0 := by
  rw [Int.toString_eq_repr, Int.repr_eq_if]
  split_ifs
  · exact colons_natRepr _
  · have hrepr := colons_natRepr (-n).toNat
    unfold colons at hrepr ⊢
    rw [String.toList_append, List.count_append, hrepr]
    decide

theorem colons_base64 (bytes : Bytes) : colons (String.ofList (Base64.encode bytes)) = 0 := by
  apply List.count_eq_zero_of_not_mem
  intro hmem
  rw [String.toList_ofList] at hmem
  rcases Base64.encode_alphabet bytes ':' hmem with hvalue | hpad
  · exact hvalue (by decide)
  · exact absurd hpad (by decide)

theorem natRepr_inj {m n : Nat} (h : m.repr.toList = n.repr.toList) : m = n := by
  rw [Nat.toList_repr, Nat.toList_repr] at h
  rw [← Nat.ofDigitChars_ten_toDigits (n := m), h, Nat.ofDigitChars_ten_toDigits]

theorem minus_ne_repr (m n : Nat) : "-" ++ m.repr ≠ n.repr := by
  intro h
  have hmem : '-' ∈ Nat.toDigits 10 n := by
    rw [← Nat.toList_repr, ← h]
    simp
  exact absurd (Nat.isDigit_of_mem_toDigits (by decide) (by decide) hmem) (by decide)

theorem toString_inj {m n : Int} (h : toString m = toString n) : m = n := by
  rw [Int.toString_eq_repr, Int.toString_eq_repr, Int.repr_eq_if, Int.repr_eq_if] at h
  split_ifs at h
  · have hnat := natRepr_inj (congrArg String.toList h)
    omega
  · exact absurd h.symm (minus_ne_repr _ _)
  · exact absurd h (minus_ne_repr _ _)
  · have hlist := congrArg String.toList h
    rw [String.toList_append, String.toList_append, List.append_cancel_left_eq] at hlist
    have hnat := natRepr_inj hlist
    omega

end Texts

namespace Task

variable {t t' : Task}

def joinedNames (t : Task) : String := t.id ++ ":" ++ t.queue ++ ":" ++ t.type

def deadlineNano (t : Task) : Int :=
  match t.deadline with
  | none => 0
  | some deadline => unixNano deadline

/-- The two tasks agree on everything that is signed. -/
structure SameSigned (t t' : Task) : Prop where
  id : t.id = t'.id
  queue : t.queue = t'.queue
  type : t.type = t'.type
  maxTries : t.maxTries = t'.maxTries
  createdAt : t.createdAt = t'.createdAt
  deadline : t.deadline = t'.deadline
  payload : t.payload.getD [] = t'.payload.getD []

structure SameText (t t' : Task) : Prop where
  names : t.joinedNames = t'.joinedNames
  maxTries : t.maxTries = t'.maxTries
  createdAt : unixNano t.createdAt = unixNano t'.createdAt
  deadline : t.deadlineNano = t'.deadlineNano
  payload : t.payload.getD [] = t'.payload.getD []

theorem signatureMessage_eq (hqueue : t.queue ≠ "") :
    t.signatureMessage = .ok (t.joinedNames ++ ":" ++ toString t.maxTries ++ ":" ++
      toString (unixNano t.createdAt) ++ ":" ++ toString t.deadlineNano ++ ":" ++
      String.ofList (Base64.encode (t.payload.getD []))) := by
  unfold signatureMessage
  rw [if_neg hqueue]
  rfl

theorem signatureMessage_eq_iff (hqueue : t.queue ≠ "") (hqueue' : t'.queue ≠ "") :
    t.signatureMessage = t'.signatureMessage ↔ t.SameText t' := by
  rw [signatureMessage_eq hqueue, signatureMessage_eq hqueue', Except.ok.injEq]
  constructor
  · intro h
    -- the four printed fields are taken off the end one after the other
    obtain ⟨h, hpayload⟩ := joined_inj h (by rw [colons_base64, colons_base64])
    obtain ⟨h, hdeadline⟩ := joined_inj h (by rw [colons_toString, colons_toString])
    obtain ⟨h, hcreated⟩ := joined_inj h (by rw [colons_toString, colons_toString])
    obtain ⟨hnames, htries⟩ := joined_inj h (by rw [colons_toString, colons_toString])
    exact ⟨hnames, toString_inj htries, toString_inj hcreated, toString_inj hdeadline,
      Base64.encode_injective (String.ofList_injective hpayload)⟩
  · intro h
    rw [h.names, h.maxTries, h.createdAt, h.deadline, h.payload]

/-- The joined names are cut in the same places when the first and the last hold equally
many colons. -/
theorem names_eq_of_colons (h : t.joinedNames = t'.joinedNames)
    (hid : colons t.id = colons t'.id) (htype : colons t.type = colons t'.type) :
    t.id = t'.id ∧ t.queue = t'.queue ∧ t.type = t'.type := by
  obtain ⟨h, htype⟩ := joined_inj h htype
  obtain ⟨hid, hqueue⟩ := joined_inj_of_first h hid
  exact ⟨hid, hqueue, htype⟩

/-- Tasks that are signed by the same text although the names are cut in different places, or
the times differ. -/
structure Confusable (t t' : Task) : Prop extends SameText t t' where
  differ : colons t.id ≠ colons t'.id ∨ colons t.type ≠ colons t'.type ∨
    t.createdAt ≠ t'.createdAt ∨ t.deadline ≠ t'.deadline

theorem SameText.sameSigned (h : t.SameText t') (hconfusable : ¬ t.Confusable t') :
    t.SameSigned t' := by
  have hsame : ¬ (colons t.id ≠ colons t'.id ∨ colons t.type ≠ colons t'.type ∨
      t.createdAt ≠ t'.createdAt ∨ t.deadline ≠ t'.deadline) :=
    fun hdiffer => hconfusable ⟨h, hdiffer⟩
  push Not at hsame
  obtain ⟨hid, htype, hcreated, hdeadline⟩ := hsame
  obtain ⟨hid, hqueue, htype⟩ := names_eq_of_colons h.names hid htype
  exact ⟨hid, hqueue, htype, h.maxTries, hcreated, hdeadline, h.payload⟩

end Task

/-- A signature made for one task is good for another one exactly when they agree on all
signed fields, unless the two are confusable. -/
theorem signature_binds_iff_not_confusable (t t' : Task) (hqueue : t.queue ≠ "")
    (hqueue' : t'.queue ≠ "") :
    (t.signatureMessage = t'.signatureMessage → t.SameSigned t') ↔ ¬ t.Confusable t' := by
  rw [Task.signatureMessage_eq_iff hqueue hqueue']
  constructor
  · intro hbinds hconfusable
    have hsame := hbinds hconfusable.toSameText
    rcases hconfusable.differ with hid | htype | hcreated | hdeadline
    · exact hid (congrArg colons hsame.id)
    · exact htype (congrArg colons hsame.type)
    · exact hcreated hsame.createdAt
    · exact hdeadline hsame.deadline
  · intro hconfusable htext
    exact htext.sameSigned hconfusable

def newEmailTask : Task :=
  { id := "T1", queue := "Q", type := "email:new", maxTries := 10, state := .new, createdAt := 0 }

def oldEmailTask : Task := { newEmailTask with type := "email:old" }

theorem signature_binds_new_email :
    newEmailTask.signatureMessage ≠ oldEmailTask.signatureMessage := by
  have hconfusable : ¬ newEmailTask.Confusable oldEmailTask := by
    intro h
    exact absurd h.names (by decide)
  have hbinds := (signature_binds_iff_not_confusable newEmailTask oldEmailTask (by decide)
    (by decide)).mpr hconfusable
  intro hmessage
  exact absurd (hbinds hmessage).type (by decide)

/-- The first half of the type, moved to the queue. -/
def movedTask : Task := { newEmailTask with queue := "Q:email", type := "new" }

theorem signature_is_good_for_moved_task :
    isValidName newEmailTask.id ∧ isValidName newEmailTask.type ∧ newEmailTask.queue ≠ "" ∧
    isValidName movedTask.id ∧ isValidName movedTask.type ∧ movedTask.queue ≠ "" ∧
    newEmailTask.signatureMessage = movedTask.signatureMessage ∧
    newEmailTask.queue ≠ movedTask.queue ∧ newEmailTask.type ≠ movedTask.type := by
  decide +kernel

end AsyncJobs
