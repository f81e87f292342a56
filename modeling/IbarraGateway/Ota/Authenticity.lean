import IbarraGateway.Lib.ShellQuoting
import IbarraGateway.Ota.Manager

/-!
# Which commands are authentic

`validate` lets a command through when its four checks do (`validate_ok_iff`). The one about the signature asks for
nothing where there is no signature, key or no key; where there is one, `openssl` gets the key and the message only. So
what is let through is authentic exactly when the command carries a signature that `openssl` did not misjudge, or another
check stops it (`authentic_iff`).
-/

namespace IbarraGateway.Ota

variable (openssl : Text → Text → Bool)

/-- There is always a key: that of the build. -/
theorem Device.loadPublicKey_ne_nil (d : Device) : d.loadPublicKey ≠ [] := by
  unfold loadPublicKey
  split
  · decide
  · rename_i key hne _
    exact fun hnil => hne hnil
  · decide

theorem Outcome.andThen_ok_iff (r : Outcome) (error : Option Text) :
    (r.andThen error).ok = true ↔ r.ok = true ∧ error = none := by
  unfold andThen
  split
  · rename_i hok
    cases error <;> simp [hok]
  · rename_i hok
    simp [hok]

theorem validate_ok_iff (env : Answers) (d : Device) (cmd : OtaCommand) :
    (validate openssl env d cmd).ok = true ↔ versionError d.currentVersion cmd = none ∧
      (checkSignature openssl env d cmd).ok = true ∧ diskError env = none ∧ urlError cmd = none := by
  unfold validate
  split
  · rename_i e he
    simp [he]
  · rename_i he
    rw [Outcome.andThen_ok_iff, Outcome.andThen_ok_iff]
    simp [he, and_assoc]

/-- `openssl` accepts the message under the active key, or under the next key if there is one. -/
def OpensslAccepts (env : Answers) (d : Device) (message : Text) : Prop :=
  env.keyTmpActive = true ∧ (openssl d.loadPublicKey message = true ∨
    d.loadNextKey ≠ [] ∧ env.keyTmpNext = true ∧ openssl d.loadNextKey message = true)

theorem verifySignature_ok_iff (env : Answers) (d : Device) (message : Text) :
    (verifySignature openssl env d message).ok = true ↔ OpensslAccepts openssl env d message := by
  unfold verifySignature OpensslAccepts
  rw [if_neg d.loadPublicKey_ne_nil]
  by_cases htmp : env.keyTmpActive = true
  · by_cases hactive : openssl d.loadPublicKey message = true
    · by_cases hnew : d.pendingCmd.nextPublicKey = [] <;> simp [htmp, hactive, hnew]
    · by_cases hnext : d.loadNextKey = []
      · simp [htmp, hactive, hnext]
      · by_cases htmp' : env.keyTmpNext = true
        · by_cases hverify : openssl d.loadNextKey message = true <;> simp [htmp, hactive, hnext, htmp', hverify]
        · simp [htmp, hactive, hnext, htmp']
  · simp [htmp]

theorem checkSignature_ok_iff (env : Answers) (d : Device) (cmd : OtaCommand) :
    (checkSignature openssl env d cmd).ok = true ↔
      (cmd.signature ≠ [] → OpensslAccepts openssl env d (signedMessage cmd)) := by
  rw [← verifySignature_ok_iff]
  unfold checkSignature
  by_cases hsig : cmd.signature = []
  · simp [hsig]
  · by_cases hok : (verifySignature openssl env d (signedMessage cmd)).ok = true <;> simp [hsig, hok]

/-! ## What validation does -/

/-- The key changes that a check of the message can come with. -/
inductive KeyChange (env : Answers) (d : Device) (message : Text) : Device × List Effect → Prop
  | kept : KeyChange env d message (d, [])
  | saved (hactive : openssl d.loadPublicKey message = true) :
    KeyChange env d message (d.saveNextKey env d.pendingCmd.nextPublicKey)
  | promoted : KeyChange env d message (d.promoteNextKey env)

/-- An outcome that is `r` in the midst of reports and command lines. -/
def Wraps (r : Device × List Effect) (o : Outcome) : Prop :=
  o.device = r.1 ∧ ∃ before after, o.effects = before ++ r.2 ++ after ∧ (∀ e ∈ before, e.Outward) ∧
    ∀ e ∈ after, e.Outward

theorem wraps_nil {d : Device} {effects : List Effect} (h : ∀ e ∈ effects, e.Outward) (ok : Bool) :
    Wraps (d, []) ⟨ok, d, effects⟩ :=
  ⟨rfl, effects, [], by simp, h, by simp⟩

theorem Wraps.report {r : Device × List Effect} {o : Outcome} (h : Wraps r o) (ok : Bool) (status message : Text) :
    Wraps r ⟨ok, o.device, o.effects ++ [.report status message]⟩ := by
  obtain ⟨hdevice, before, after, heffects, hbefore, hafter⟩ := h
  refine ⟨hdevice, before, after ++ [.report status message], by rw [heffects, List.append_assoc], hbefore, ?_⟩
  exact List.forall_mem_append.mpr ⟨hafter, by simp [Effect.Outward]⟩

theorem Wraps.andThen {r : Device × List Effect} {o : Outcome} (h : Wraps r o) (error : Option Text) :
    Wraps r (o.andThen error) := by
  unfold Outcome.andThen
  split
  · split
    · exact h.report false _ _
    · exact h
  · exact h

theorem verifySignature_change (env : Answers) (d : Device) (message : Text) :
    ∃ r, Wraps r (verifySignature openssl env d message) ∧ KeyChange openssl env d message r := by
  unfold verifySignature
  rw [if_neg d.loadPublicKey_ne_nil]
  split
  · exact ⟨_, wraps_nil (by simp) _, .kept⟩
  split
  · rename_i hactive
    split
    · exact ⟨_, wraps_nil (by simp [Effect.Outward]) _, .kept⟩
    · exact ⟨_, ⟨rfl, [_], [], (List.append_nil _).symm, by simp [Effect.Outward], by simp⟩, .saved hactive⟩
  split
  · exact ⟨_, wraps_nil (by simp [Effect.Outward]) _, .kept⟩
  split
  · exact ⟨_, wraps_nil (by simp [Effect.Outward]) _, .kept⟩
  split
  · exact ⟨_, ⟨rfl, [_, _, _], [], (List.append_nil _).symm, by simp [Effect.Outward], by simp⟩, .promoted⟩
  · exact ⟨_, wraps_nil (by simp [Effect.Outward]) _, .kept⟩

/-- The keys change with a signed command whose version is accepted, or not at all. -/
theorem validate_change (env : Answers) (d : Device) (cmd : OtaCommand) :
    ∃ r, Wraps r (validate openssl env d cmd) ∧ (r = (d, []) ∨ versionError d.currentVersion cmd = none ∧
      cmd.signature ≠ [] ∧ KeyChange openssl env d (signedMessage cmd) r) := by
  unfold validate
  split
  · exact ⟨_, wraps_nil (by simp [Effect.Outward]) _, Or.inl rfl⟩
  rename_i hversion
  unfold checkSignature
  split
  · rename_i hsig
    obtain ⟨r, hwraps, hchange⟩ := verifySignature_change openssl env d (signedMessage cmd)
    refine ⟨r, Wraps.andThen (Wraps.andThen ?_ _) _, Or.inr ⟨hversion, hsig, hchange⟩⟩
    dsimp only
    split
    · exact hwraps
    · exact hwraps.report _ _ _
  · exact ⟨_, ((wraps_nil (by simp [Effect.Outward]) _).andThen _).andThen _, Or.inl rfl⟩

/-! ## What `openssl` reads -/

/-- The bytes that the signature is checked over: what the shell writes of the message between double quotes. -/
def verifiedBytes (sh : Shell.Echo) (cmd : OtaCommand) : Text := sh.written (signedMessage cmd)

/-- The shell takes the three values for themselves. -/
def PlainValues (cmd : OtaCommand) : Prop :=
  Shell.Verbatim cmd.version ∧ Shell.Verbatim cmd.url ∧ Shell.Verbatim cmd.sha256

instance (cmd : OtaCommand) : Decidable (PlainValues cmd) := inferInstanceAs (Decidable (_ ∧ _ ∧ _))

theorem plainValues_iff {cmd : OtaCommand} : PlainValues cmd ↔ Shell.Verbatim (signedMessage cmd) := by
  have hversion : Shell.Verbatim "version=".toList := by decide
  have hurl : Shell.Verbatim "&url=".toList := by decide
  have hsha256 : Shell.Verbatim "&sha256=".toList := by decide
  unfold PlainValues signedMessage
  simp only [Shell.verbatim_append_iff, hversion, hurl, hsha256, true_and, and_true, and_assoc]

theorem verifiedBytes_of_plain (sh : Shell.Echo) {cmd : OtaCommand} (h : PlainValues cmd) :
    verifiedBytes sh cmd = signedMessage cmd :=
  sh.verbatim _ (plainValues_iff.mp h)

/-! ## Authenticity -/

/-- Neither an active nor a next key can be loaded. -/
def NoKey (d : Device) : Prop := d.loadPublicKey = [] ∧ d.loadNextKey = []

/-- The signature of the command verifies over version, url and checksum under the active or the next key. -/
def Verifies (verify : Text → Text → Text → Bool) (d : Device) (cmd : OtaCommand) : Prop :=
  verify d.loadPublicKey (signedMessage cmd) cmd.signature = true ∨
    d.loadNextKey ≠ [] ∧ verify d.loadNextKey (signedMessage cmd) cmd.signature = true

def Authentic (verify : Text → Text → Text → Bool) (d : Device) (cmd : OtaCommand) : Prop :=
  cmd.signature ≠ [] ∧ Verifies verify d cmd

/-- The checks of `validate` that do not concern the signature. -/
def PassesOtherChecks (env : Answers) (d : Device) (cmd : OtaCommand) : Prop :=
  versionError d.currentVersion cmd = none ∧ diskError env = none ∧ urlError cmd = none

/-- `openssl`, which is not given the signature, accepts the message although the signature does not verify. -/
def Misjudged (verify : Text → Text → Text → Bool) (env : Answers) (d : Device) (cmd : OtaCommand) : Prop :=
  OpensslAccepts openssl env d (signedMessage cmd) ∧ ¬ Verifies verify d cmd

/-- **Authenticity.** What `validate` accepts is authentic, or there is no key, exactly when a command that passes the
other checks has a signature, and one that is not misjudged. -/
theorem authentic_iff (verify : Text → Text → Text → Bool) (env : Answers) (d : Device) (json : Text) :
    ((validate openssl env { d with pendingCmd := parseOtaCommand json } (parseOtaCommand json)).ok = true →
      NoKey d ∨ Authentic verify d (parseOtaCommand json)) ↔
      (PassesOtherChecks env d (parseOtaCommand json) →
        (parseOtaCommand json).signature ≠ [] ∧ ¬ Misjudged openssl verify env d (parseOtaCommand json)) := by
  rw [validate_ok_iff, checkSignature_ok_iff]
  constructor
  · rintro himp ⟨hversion, hdisk, hurl⟩
    have hauth (hcheck : (parseOtaCommand json).signature ≠ [] →
        OpensslAccepts openssl env d (signedMessage (parseOtaCommand json))) :
        Authentic verify d (parseOtaCommand json) := by
      exact (himp ⟨hversion, hcheck, hdisk, hurl⟩).resolve_left fun hnone => d.loadPublicKey_ne_nil hnone.1
    refine ⟨fun hsig => ?_, fun hmis => ?_⟩
    · exact (hauth fun hne => absurd hsig hne).1 hsig
    · exact hmis.2 (hauth fun _ => hmis.1).2
  · rintro hcond ⟨hversion, hcheck, hdisk, hurl⟩
    obtain ⟨hsig, hmis⟩ := hcond ⟨hversion, hdisk, hurl⟩
    exact Or.inr ⟨hsig, not_not.mp fun hfalse => hmis ⟨hcheck hsig, hfalse⟩⟩

/-- All calls succeed, on a disk with 64 MiB free. -/
def allWell : Answers where
  keyTmpActive := true
  keyTmpNext := true
  saveOpen := true
  saveRename := true
  promoteRename := true
  statvfs := .ok (4096, 16384)
  lock := .ok true
  wget := 0
  sha256sum := 0
  cp := 0
  backupSha256 := 0
  mvFinal := 0
  mvBinary := 0
  systemctlRestart := 0
  systemctlIsActive := 0

def unsigned : Text :=
  ("\x7b\"version\":\"9.9.9\",\"url\":\"http://e\",\"sha256\":\"" ++
    "11507a0e2f5e69d5dfa40a62a1bd7b6ee57e6bcd85c67c9b8431b36fff21c437\"\x7d").toList

/-- An unsigned command is accepted on a device with a key that verifies nothing. -/
theorem unsigned_command_validates :
    ¬ ∀ openssl verify env d json,
      (validate openssl env { d with pendingCmd := parseOtaCommand json } (parseOtaCommand json)).ok = true →
        NoKey d ∨ Authentic verify d (parseOtaCommand json) := by
  intro hall
  rcases hall (fun _ _ => false) (fun _ _ _ => false) allWell (.start (some "key".toList) none) unsigned
    (by decide +kernel) with hnone | hauth
  · exact absurd hnone.1 (by decide +kernel)
  · exact absurd hauth.1 (by decide +kernel)

end IbarraGateway.Ota
