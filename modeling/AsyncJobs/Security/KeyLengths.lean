import AsyncJobs.Interaction.Execution
import AsyncJobs.Model.ClientOptions
import AsyncJobs.Security.StoredSignatures

/-!
# Key lengths

The ed25519 functions panic on a key of the wrong length. Keys read from files are checked
where they are read, keys given as options are checked nowhere. So a client panics on some
task exactly when an option gave it a key of the wrong length.
-/

namespace AsyncJobs

open Interaction

def Panics {α : Type} (result : Except Fault α) : Prop :=
  ∃ message, result = .error (.panic message)

theorem not_panics_ok {α : Type} (a : α) : ¬ Panics (.ok a : Except Fault α) := by
  rintro ⟨message, h⟩
  cases h

theorem not_panics_error {α : Type} (err : Error) :
    ¬ Panics (.error (.error err) : Except Fault α) := by
  rintro ⟨message, h⟩
  cases h

namespace Host

variable {h : Host} {key : Bytes} {path : String}

/-- `ed25519.NewKeyFromSeed` makes a private key of every seed it accepts. -/
def MakesKeys (h : Host) : Prop :=
  ∀ seed : Bytes, seed.length = seedSize → (h.newKeyFromSeed seed).length = privateKeySize

theorem readPublicKeyFile_length (hread : h.readPublicKeyFile path = .ok key) :
    key.length = publicKeySize := by
  unfold readPublicKeyFile at hread
  split at hread
  · cases hread
  · split_ifs at hread with hlength
    cases hread
    exact not_not.mp hlength

theorem readSeedFile_length (hmakes : h.MakesKeys) (hread : h.readSeedFile path = .ok key) :
    key.length = privateKeySize := by
  unfold readSeedFile at hread
  split at hread
  · cases hread
  · split_ifs at hread with hlength
    cases hread
    exact hmakes _ (not_not.mp hlength)

end Host

/-- Signing panics on a key of another length and a task that gets as far. -/
theorem Task.sign_panics_iff {host : Host} {t : Task} {key : Bytes} :
    Panics (t.sign host key) ↔
      t.signature = "" ∧ t.queue ≠ "" ∧ key.length ≠ Host.privateKeySize := by
  unfold Task.sign
  by_cases hsigned : t.signature = ""
  · rw [if_neg (not_not.mpr hsigned)]
    by_cases hqueue : t.queue = ""
    · have hmessage : t.signatureMessage = .error Sentinel.taskSignatureRequiresQueue.error :=
        if_pos hqueue
      simp only [hmessage, hqueue, not_panics_error, ne_eq, not_true_eq_false, false_and,
        and_false]
    · simp only [signatureMessage_eq hqueue, Host.ed25519Sign]
      by_cases hlength : key.length = Host.privateKeySize
      · simp [hlength, not_panics_ok]
      · simp [hlength, hsigned, hqueue, Panics]
  · rw [if_pos hsigned]
    simp only [not_panics_error, hsigned, false_and]

namespace Client

variable {c : Client} {t : Task} {key : Bytes}

theorem verifyWith_not_panics (hlength : key.length = Host.publicKeySize) :
    ¬ Panics (c.verifyWith key t) := by
  unfold verifyWith
  split
  · exact not_panics_error _
  · split
    · exact not_panics_error _
    · rw [Host.ed25519Verify, if_neg (not_not.mpr hlength)]
      cases c.host.verify key _ _ with
      | true => exact not_panics_ok _
      | false => exact not_panics_error _

/-- A key that was read has the right length, so only the option can be at fault. -/
theorem signTask_not_panics (hmakes : c.host.MakesKeys)
    (hkey : ∀ key, c.opts.privateKey = some key → key.length = Host.privateKeySize) :
    ¬ Panics (c.signTask t) := by
  unfold signTask
  cases hprivate : c.opts.privateKey with
  | some key =>
    rw [Task.sign_panics_iff]
    exact fun h => h.2.2 (hkey key hprivate)
  | none =>
    simp only
    split_ifs
    · cases hread : c.host.readSeedFile c.opts.seedFile with
      | error err => exact not_panics_error err
      | ok key =>
        simp only [Task.sign_panics_iff]
        exact fun h => h.2.2 (Host.readSeedFile_length hmakes hread)
    · exact not_panics_ok t

theorem verifyTaskSignature_not_panics (hmakes : c.host.MakesKeys)
    (hkey : ∀ key, c.opts.publicKey = some key → key.length = Host.publicKeySize) :
    ¬ Panics (c.verifyTaskSignature t) := by
  unfold verifyTaskSignature
  cases hpublic : c.opts.publicKey with
  | some key =>
    have hverify : ¬ Panics (c.verifyWith key t) := verifyWith_not_panics (hkey key hpublic)
    simp only [reduceCtorEq, false_and, if_false]
    split_ifs
    · exact not_panics_error _
    · exact not_panics_ok _
    · exact hverify
  | none =>
    simp only
    split_ifs
    · exact not_panics_ok _
    · exact not_panics_error _
    · exact not_panics_ok _
    · cases hread : c.host.readPublicKeyFile c.opts.publicKeyFile with
      | error err => exact not_panics_error err
      | ok key => exact verifyWith_not_panics (Host.readPublicKeyFile_length hread)
    · cases hread : c.host.readSeedFile c.opts.seedFile with
      | error err => exact not_panics_error err
      | ok key =>
        exact verifyWith_not_panics (Host.publicOf_length (Host.readSeedFile_length hmakes hread))
    · exact not_panics_error _
    · exact not_panics_ok _

theorem signTask_panics (hprivate : c.opts.privateKey = some key)
    (hlength : key.length ≠ Host.privateKeySize) (hsigned : t.signature = "")
    (hqueue : t.queue ≠ "") : Panics (c.signTask t) := by
  simp only [signTask, hprivate, Task.sign_panics_iff]
  exact ⟨hsigned, hqueue, hlength⟩

theorem verifyTaskSignature_panics (hpublic : c.opts.publicKey = some key)
    (hlength : key.length ≠ Host.publicKeySize) {sig : Bytes} (hsigned : t.signature ≠ "")
    (hsig : hexDecode t.signature.toList = .ok sig) (hqueue : t.queue ≠ "") :
    Panics (c.verifyTaskSignature t) := by
  have hwith : Panics (c.verifyWith key t) := by
    simp only [verifyWith, Task.signatureMessage_eq hqueue, hsig, Host.ed25519Verify,
      if_pos hlength]
    exact ⟨_, rfl⟩
  simpa only [verifyTaskSignature, hpublic, hsigned, reduceCtorEq, false_and, and_false,
    if_false] using hwith

end Client

namespace ClientOpt

/-- The key an option puts in the place of the signing key. -/
def signingKey : ClientOpt → Option (Option Bytes)
  | taskSigningKey pk => some pk
  | _ => none

/-- The key an option puts in the place of the verification key. -/
def verificationKey : ClientOpt → Option (Option Bytes)
  | taskVerificationKey pk => some pk
  | taskVerificationKeyHexEncoded pks =>
    if pks = "" then none else some (hexDecode pks.toList).toOption
  | _ => none

/-- The signing key the options give, the last one if there are several. -/
def lastSigningKey (opts : List ClientOpt) : Option Bytes :=
  opts.foldl (fun last opt => opt.signingKey.getD last) none

/-- The verification key the options give, the last one if there are several. -/
def lastVerificationKey (opts : List ClientOpt) : Option Bytes :=
  opts.foldl (fun last opt => opt.verificationKey.getD last) none

end ClientOpt

namespace ClientSettings

variable {rand : Int63n} {s s' : ClientSettings}

def Keys (s : ClientSettings) (signing verification : Option Bytes) : Prop :=
  s.privateKey = signing ∧ s.publicKey = verification

theorem discardTaskStates_keys {states : List TaskState}
    (h : s.discardTaskStates states = .ok s') : s'.Keys s.privateKey s.publicKey := by
  unfold discardTaskStates at h
  split_ifs at h
  cases h
  exact ⟨rfl, rfl⟩

theorem discardTaskStatesByName_keys {names : List String}
    (h : s.discardTaskStatesByName names = .ok s') : s'.Keys s.privateKey s.publicKey := by
  induction names generalizing s with
  | nil =>
    cases h
    exact ⟨rfl, rfl⟩
  | cons name names ih =>
    unfold discardTaskStatesByName at h
    split at h
    · cases h
    · cases hone : s.discardTaskStates [_] with
      | error f =>
        rw [hone] at h
        cases h
      | ok one =>
        rw [hone] at h
        obtain ⟨hprivate, hpublic⟩ := discardTaskStates_keys hone
        obtain ⟨hprivate', hpublic'⟩ := ih h
        exact ⟨hprivate'.trans hprivate, hpublic'.trans hpublic⟩

theorem apply_keys {opt : ClientOpt} (h : opt.apply rand s = .ok s') :
    s'.Keys (opt.signingKey.getD s.privateKey) (opt.verificationKey.getD s.publicKey) := by
  cases opt with
  | discardTaskStates states => exact discardTaskStates_keys h
  | discardTaskStatesByName names => exact discardTaskStatesByName_keys h
  | natsConn nc =>
    cases nc with
    | none => cases h
    | some nc =>
      simp only [ClientOpt.apply] at h
      split_ifs at h
      cases h
      exact ⟨rfl, rfl⟩
  | natsContext connected =>
    cases connected with
    | error err => cases h
    | ok nc =>
      cases h
      exact ⟨rfl, rfl⟩
  | retryBackoffPolicyName name =>
    simp only [ClientOpt.apply] at h
    cases hlookup : retryPolicyLookup name with
    | error f =>
      rw [hlookup] at h
      cases h
    | ok p =>
      rw [hlookup] at h
      cases h
      exact ⟨rfl, rfl⟩
  | storeReplicas r | workQueue queue | bindWorkQueue queue =>
    simp only [ClientOpt.apply] at h
    split_ifs at h
    cases h
    exact ⟨rfl, rfl⟩
  | taskVerificationKeyHexEncoded pks =>
    simp only [ClientOpt.apply] at h
    split_ifs at h with hempty
    · cases h
      simp only [ClientOpt.verificationKey, hempty, if_true]
      exact ⟨rfl, rfl⟩
    · cases hdecode : hexDecode pks.toList with
      | error err =>
        rw [hdecode] at h
        cases h
      | ok pk =>
        rw [hdecode] at h
        cases h
        simp only [ClientOpt.verificationKey, hempty, hdecode, if_false]
        exact ⟨rfl, rfl⟩
  | _ =>
    cases h
    exact ⟨rfl, rfl⟩

theorem foldlM_keys {opts : List ClientOpt}
    (h : opts.foldlM (fun s opt => ClientOpt.apply rand s opt) s = .ok s') :
    s'.Keys (opts.foldl (fun last opt => opt.signingKey.getD last) s.privateKey)
      (opts.foldl (fun last opt => opt.verificationKey.getD last) s.publicKey) := by
  induction opts generalizing s with
  | nil =>
    cases h
    exact ⟨rfl, rfl⟩
  | cons opt opts ih =>
    rw [List.foldlM_cons] at h
    cases hone : ClientOpt.apply rand s opt with
    | error f =>
      rw [hone] at h
      cases h
    | ok one =>
      rw [hone] at h
      obtain ⟨hprivate, hpublic⟩ := apply_keys hone
      rw [List.foldl_cons, List.foldl_cons, ← hprivate, ← hpublic]
      exact ih h

theorem configure_keys {opts : List ClientOpt} (h : configure rand opts = .ok s) :
    s.Keys (ClientOpt.lastSigningKey opts) (ClientOpt.lastVerificationKey opts) := by
  unfold configure at h
  cases hinitial : initial rand with
  | error f =>
    rw [hinitial] at h
    cases h
  | ok start =>
    rw [hinitial] at h
    have hkeys := foldlM_keys h
    unfold initial at hinitial
    cases hdefault : retryDefault with
    | error f =>
      rw [hdefault] at hinitial
      cases hinitial
    | ok p =>
      rw [hdefault] at hinitial
      cases hinitial
      exact hkeys

end ClientSettings

theorem newClient_ok {host : Host} {rand : Int63n} {opts : List ClientOpt}
    {trace : List (Answered setup)} {c : Client} {b : Bindings}
    (h : (newClient host rand opts).Follows trace (.ok (c, b))) :
    ∃ s queue, ClientSettings.configure rand opts = .ok s ∧ c = ⟨s.clientOpts queue, host⟩ := by
  unfold newClient at h
  cases hconfigure : ClientSettings.configure rand opts with
  | error f =>
    cases f with
    | error err =>
      simp only [hconfigure] at h
      cases (Prog.Follows.of_ret h).2
    | panic message =>
      simp only [hconfigure] at h
      obtain ⟨impossible, -⟩ := Prog.Follows.of_call h
      exact nomatch (impossible : Empty)
  | ok s =>
    simp only [hconfigure] at h
    split at h
    · cases (Prog.Follows.of_ret h).2
    · split at h
      · cases (Prog.Follows.of_ret h).2
      · split_ifs at h
        · cases (Prog.Follows.of_ret h).2
          exact ⟨s, _, rfl, rfl⟩
        · obtain ⟨_, _, result, -, -, h⟩ := Prog.Follows.of_bind h
          cases result with
          | error err => cases (Prog.Follows.of_ret h).2
          | ok prepared =>
            cases (Prog.Follows.of_ret h).2
            exact ⟨s, prepared.2, rfl, rfl⟩

/-- A task the client signs, and with a signature one it verifies. -/
def queuedTask : Task := { sampleTask with queue := "EMAIL" }

/-- A client signs and verifies every task without a panic if and only if the keys its options
gave have the right length. -/
theorem keys_never_panic_iff (host : Host) (hmakes : host.MakesKeys) (rand : Int63n)
    (opts : List ClientOpt) (trace : List (Answered setup)) (c : Client) (b : Bindings)
    (hnew : (newClient host rand opts).Follows trace (.ok (c, b))) :
    (∀ task, ¬ Panics (c.signTask task) ∧ ¬ Panics (c.verifyTaskSignature task)) ↔
      (∀ key, ClientOpt.lastSigningKey opts = some key → key.length = Host.privateKeySize) ∧
        ∀ key, ClientOpt.lastVerificationKey opts = some key →
          key.length = Host.publicKeySize := by
  obtain ⟨s, queue, hconfigure, rfl⟩ := newClient_ok hnew
  obtain ⟨hprivate, hpublic⟩ := ClientSettings.configure_keys hconfigure
  rw [← hprivate, ← hpublic]
  constructor
  · intro hsafe
    constructor
    · intro key hkey
      by_contra hlength
      exact (hsafe queuedTask).1
        (Client.signTask_panics hkey hlength rfl (by decide))
    · intro key hkey
      by_contra hlength
      exact (hsafe { queuedTask with signature := "00" }).2
        (Client.verifyTaskSignature_panics hkey hlength (by decide) rfl (by decide))
  · intro ⟨hsigning, hverification⟩ task
    exact ⟨Client.signTask_not_panics hmakes hsigning,
      Client.verifyTaskSignature_not_panics hmakes hverification⟩

def connectedOpts : List ClientOpt :=
  [.natsConn (some { useOldRequestStyle := true }), .noStorageInit]

/-- The second signing key replaces the first, which is too short. -/
def fullKeyOpts : List ClientOpt :=
  connectedOpts ++ [.taskSigningKey (some [1, 2, 3]),
    .taskSigningKey (some (List.replicate 64 7)),
    .taskVerificationKeyHexEncoded (hexEncode (List.replicate 32 7))]

theorem keys_never_panic_full : sampleHost.MakesKeys ∧ ∃ c b,
    (newClient sampleHost .zero fullKeyOpts).Follows [] (.ok (c, b)) ∧
      ∀ task, ¬ Panics (c.signTask task) ∧ ¬ Panics (c.verifyTaskSignature task) := by
  have hmakes : sampleHost.MakesKeys := by
    intro seed hlength
    simp [sampleHost, hlength, Host.seedSize, Host.privateKeySize]
  obtain ⟨c, b, hnew⟩ : ∃ c b,
      (newClient sampleHost .zero fullKeyOpts).Follows [] (.ok (c, b)) := ⟨_, _, .ret _⟩
  refine ⟨hmakes, c, b, hnew, ?_⟩
  rw [keys_never_panic_iff sampleHost hmakes .zero fullKeyOpts [] c b hnew]
  have hsigning : ClientOpt.lastSigningKey fullKeyOpts = some (List.replicate 64 7) := rfl
  have hverification : ClientOpt.lastVerificationKey fullKeyOpts = some (List.replicate 32 7) := by
    decide
  constructor
  · intro key hkey
    rw [hsigning] at hkey
    cases hkey
    rfl
  · intro key hkey
    rw [hverification] at hkey
    cases hkey
    rfl

/-- A verification key of two bytes is accepted and the first signed task is a panic. -/
theorem short_key_panics : ∃ c b,
    (newClient sampleHost .zero
      (connectedOpts ++ [.taskVerificationKeyHexEncoded "abcd"])).Follows [] (.ok (c, b)) ∧
      Panics (c.verifyTaskSignature { queuedTask with signature := "00" }) :=
  ⟨_, _, .ret _, _, rfl⟩

end AsyncJobs
