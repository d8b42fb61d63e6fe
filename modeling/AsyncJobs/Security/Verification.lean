import AsyncJobs.Model.Client

/-!
# Loaded tasks and their signatures

A client that names a source of public keys is meant to load only tasks that verify under its
key. The source is a public key, a file with one or the file of a seed, and `validate` leaves
at most one of them. The seed file is never consulted: without one of the others the whole
check counts as disabled.
-/

namespace AsyncJobs

open Interaction

inductive KeySource where
  | publicKey (key : Bytes)
  | publicKeyFile (path : String)
  | seedFile (path : String)
  deriving DecidableEq, Repr

theorem ClientOpts.validate_eq_none {o : ClientOpts} (h : o.validate = none) :
    ¬ (o.publicKey ≠ none ∧ o.publicKeyFile ≠ "") ∧
      ¬ (o.seedFile ≠ "" ∧ (o.publicKeyFile ≠ "" ∨ o.publicKey ≠ none)) := by
  unfold validate at h
  split_ifs at h with hprivate hpublic hseed
  exact ⟨hpublic, hseed⟩

def ClientOpts.Names (o : ClientOpts) : KeySource → Prop
  | .publicKey key => o.publicKey = some key
  | .publicKeyFile path => path ≠ "" ∧ o.publicKeyFile = path
  | .seedFile path => path ≠ "" ∧ o.seedFile = path

def Host.publicKeyOf (h : Host) : KeySource → Except Error Bytes
  | .publicKey key => .ok key
  | .publicKeyFile path => h.readPublicKeyFile path
  | .seedFile path => (h.readSeedFile path).map publicOf

namespace Client

variable {c : Client} {source : KeySource} {t : Task}

/-- The signature verifies over the message under the key of the source. -/
def Verified (c : Client) (source : KeySource) (t : Task) : Prop :=
  ∃ key message sig, c.host.publicKeyOf source = .ok key ∧ t.signatureMessage = .ok message ∧
    hexDecode t.signature.toList = .ok sig ∧ c.host.ed25519Verify key message sig = .ok true

def Trusts (c : Client) (source : KeySource) (t : Task) : Prop :=
  c.Verified source t ∨ t.signature = "" ∧ c.opts.optionalTaskSignatures = true

theorem verified_of_verifyWith {key : Bytes} (hkey : c.host.publicKeyOf source = .ok key)
    (h : c.verifyWith key t = .ok ()) : c.Verified source t := by
  unfold verifyWith at h
  split at h
  · cases h
  · rename_i message hmessage
    split at h
    · cases h
    · rename_i sig hsig
      split at h
      · cases h
      · rename_i hverify
        exact ⟨key, message, sig, hkey, hmessage, hsig, hverify⟩
      · cases h

/-- Once the check is enabled, only the choice of the key is left for a signed task. -/
theorem verifyTaskSignature_enabled (hkey : ¬ (c.opts.publicKey = none ∧ c.opts.publicKeyFile = ""))
    (h : c.verifyTaskSignature t = .ok ()) :
    t.signature = "" ∧ c.opts.optionalTaskSignatures = true ∨
      (∃ key, c.opts.publicKey = some key ∧ c.verifyWith key t = .ok ()) ∨
      c.opts.publicKey = none ∧ ∃ key,
        c.host.readPublicKeyFile c.opts.publicKeyFile = .ok key ∧ c.verifyWith key t = .ok () := by
  unfold verifyTaskSignature at h
  rw [if_neg hkey] at h
  by_cases hempty : t.signature = ""
  · cases hoptional : c.opts.optionalTaskSignatures with
    | false => simp [hempty, hoptional] at h
    | true => exact Or.inl ⟨hempty, rfl⟩
  · right
    cases hpublic : c.opts.publicKey with
    | some key =>
      simp only [hempty, hpublic, and_false, if_false] at h
      exact Or.inl ⟨key, rfl, h⟩
    | none =>
      have hfile : c.opts.publicKeyFile ≠ "" := by simpa [hpublic] using hkey
      simp only [hempty, hpublic, hfile, and_false, if_false, ne_eq, not_false_eq_true,
        if_true] at h
      cases hread : c.host.readPublicKeyFile c.opts.publicKeyFile with
      | error err => simp [hread] at h
      | ok key =>
        simp only [hread] at h
        exact Or.inr ⟨rfl, key, rfl, h⟩

/-- The two sources that are consulted let only trusted tasks through. -/
theorem trusts_of_verifyTaskSignature (hvalid : c.opts.validate = none)
    (hsource : c.opts.Names source) (hkind : ∀ path, source ≠ .seedFile path)
    (h : c.verifyTaskSignature t = .ok ()) : c.Trusts source t := by
  cases source with
  | seedFile path => exact absurd rfl (hkind path)
  | publicKey key =>
    have hpublic : c.opts.publicKey = some key := hsource
    rcases verifyTaskSignature_enabled (by simp [hpublic]) h with hfree | hchosen | hfile
    · exact Or.inr hfree
    · obtain ⟨key', hkey', hverify⟩ := hchosen
      rw [hpublic, Option.some.injEq] at hkey'
      subst hkey'
      exact Or.inl (verified_of_verifyWith rfl hverify)
    · simp [hpublic] at hfile
  | publicKeyFile path =>
    obtain ⟨hpath, hnamed⟩ := hsource
    have hpublic : c.opts.publicKey = none := by
      simpa [hnamed, hpath] using (ClientOpts.validate_eq_none hvalid).1
    rcases verifyTaskSignature_enabled (by simp [hnamed, hpath]) h with hfree | hchosen | hfile
    · exact Or.inr hfree
    · simp [hpublic] at hchosen
    · obtain ⟨-, key, hread, hverify⟩ := hfile
      rw [hnamed] at hread
      exact Or.inl (verified_of_verifyWith hread hverify)

theorem verifyTaskSignature_seedFile {path : String} (hvalid : c.opts.validate = none)
    (hsource : c.opts.Names (.seedFile path)) (t : Task) : c.verifyTaskSignature t = .ok () := by
  obtain ⟨hpath, hnamed⟩ := hsource
  have hnone : c.opts.publicKey = none ∧ c.opts.publicKeyFile = "" := by
    simpa [hnamed, hpath, and_comm] using (ClientOpts.validate_eq_none hvalid).2
  simp [verifyTaskSignature, hnone]

/-- Whatever is stored, a task is returned only if it passes the check. -/
theorem loadTaskByID_checks (c : Client) (use : ReadUse) (id : String) :
    (c.loadTaskByID use id).Yields (S := jobs) (fun _ => True)
      fun result => ∀ copy, result = .ok copy → c.verifyTaskSignature copy.toTask = .ok () := by
  apply Prog.Yields.bind (Q := fun _ => True)
  · apply Prog.Yields.bind (Prog.Yields.invoke (Q := fun _ => True) trivial fun _ => trivial)
    intro reply _
    rcases reply with (_ | _) | _ <;> trivial
  · intro loaded _
    cases loaded with
    | error err => simp [Prog.Yields]
    | ok task =>
      cases hcheck : c.verifyTaskSignature task.toTask with
      | ok u =>
        simp only [hcheck]
        intro copy hcopy
        injection hcopy with hcopy
        rw [← hcopy, hcheck]
      | error fault =>
        cases fault with
        | error err => simp [hcheck, Prog.Yields]
        | panic message =>
          simp only [hcheck]
          exact ⟨trivial, fun impossible => (impossible : Empty).elim⟩

theorem loadTaskByID_ok {use : ReadUse} {id : String} {P : Except Error Copy → Prop}
    (h : (c.loadTaskByID use id).Yields (S := jobs) (fun _ => True) P) (seq : Nat)
    (hcheck : c.verifyTaskSignature t = .ok ()) : P (.ok ⟨t, some seq⟩) := by
  have hreply := h.2 (.ok ⟨seq, t⟩)
  simp only [Prog.bind, Prog.pure_eq, hcheck] at hreply
  exact hreply

end Client

def forgedTask : Task := { sampleTask with queue := "EMAIL", signature := "zz" }

theorem forgedTask_not_trusted (c : Client) (source : KeySource) :
    ¬ c.Trusts source forgedTask := by
  rintro (⟨key, message, sig, -, -, hsig, -⟩ | ⟨hempty, -⟩)
  · cases hsig
  · revert hempty
    decide

/-- A client that names a source loads only tasks that it trusts by it, exactly if the source
is not a seed file. -/
theorem loads_only_trusted_iff (c : Client) (hvalid : c.opts.validate = none)
    (source : KeySource) (hsource : c.opts.Names source) :
    (∀ use id, (c.loadTaskByID use id).Yields (S := jobs) (fun _ => True)
      fun result => ∀ copy, result = .ok copy → c.Trusts source copy.toTask) ↔
      ∀ path, source ≠ .seedFile path := by
  constructor
  · intro hloads path hseed
    subst hseed
    have hcheck := Client.verifyTaskSignature_seedFile hvalid hsource forgedTask
    have hreturned := Client.loadTaskByID_ok (hloads .task "T1") 1 hcheck
    exact forgedTask_not_trusted c _ (hreturned _ rfl)
  · intro hkind use id
    apply Prog.Yields.mono (fun _ _ => trivial) _ (c.loadTaskByID_checks use id)
    intro result hresult copy hcopy
    exact Client.trusts_of_verifyTaskSignature hvalid hsource hkind (hresult copy hcopy)

/-- A host whose key file and seed file hold 32 zero bytes, and whose signatures have 64 bytes. -/
def zeroHost : Host where
  readFile _ := .ok (String.ofList (List.replicate 64 '0'))
  newKeyFromSeed seed := seed ++ seed
  sign _ _ := List.replicate 64 0
  verify _ _ sig := sig.length = 64

def keyFileClient : Client := ⟨{ queue := sampleQueue, publicKeyFile := "key.pub" }, zeroHost⟩

theorem loads_only_trusted_keyFile :
    (keyFileClient.loadTaskByID .task "T1").Yields (S := jobs) (fun _ => True)
      fun result => ∀ copy, result = .ok copy →
        keyFileClient.Trusts (.publicKeyFile "key.pub") copy.toTask := by
  have hvalid : keyFileClient.opts.validate = none := by decide
  have hnames : keyFileClient.opts.Names (.publicKeyFile "key.pub") := by
    constructor <;> decide
  apply (loads_only_trusted_iff keyFileClient hvalid _ hnames).mpr
  simp

def seedFileClient : Client := ⟨{ queue := sampleQueue, seedFile := "key.seed" }, zeroHost⟩

def unsignedTask : Task := { sampleTask with queue := "EMAIL" }

/-- A client with a seed file returns an unsigned task although signatures are not optional. -/
theorem seed_file_client_loads_unsigned_task :
    seedFileClient.opts.validate = none ∧
    seedFileClient.opts.Names (.seedFile "key.seed") ∧
    (∃ k, seedFileClient.loadTaskByID .task "T1" = .call (.readLast .task "T1") k ∧
      k (.ok ⟨1, unsignedTask⟩) = .ret (.ok ⟨unsignedTask, some 1⟩)) ∧
    ¬ seedFileClient.Trusts (.seedFile "key.seed") unsignedTask := by
  refine ⟨by decide, by constructor <;> decide, ⟨_, rfl, rfl⟩, ?_⟩
  rintro (⟨key, message, sig, -, -, hsig, hverify⟩ | ⟨-, hoptional⟩)
  · have hempty : sig = [] := by
      injection hsig with hsig
      exact hsig.symm
    simp only [hempty, Host.ed25519Verify, seedFileClient, zeroHost] at hverify
    split_ifs at hverify
    simp at hverify
  · cases hoptional

end AsyncJobs
