import IbarraGateway.Lib.Machine
import IbarraGateway.Ota.Command

/-!
# The OTA agent

`OtaManager` with the key files it keeps, and the loop of `main_ota` around it. A line of the FIFO is an input, with what
the system answers to the calls that processing it makes (`Answers`); the verdict of `openssl` on a key and a message is
a parameter. Effects are the transitions, the reports, the command lines and the changes of the key files.

A process handles one command: `SUCCESS` and `FAILED` are left by a restart only.
-/

namespace IbarraGateway.Ota

inductive State
  | idle
  | validating
  | downloading
  | verifying
  | backingUp
  | applying
  | restarting
  | confirming
  | success
  | failed
  deriving DecidableEq, Repr

/-- The manager and the two key files (`none` when a file cannot be opened). -/
structure Device where
  state : State
  currentVersion : Version
  pendingCmd : OtaCommand
  lockHeld : Bool
  keyActive : Option Text
  keyNext : Option Text
  deriving DecidableEq, Repr

/-- A new `OtaManager` over the key files. -/
def Device.start (keyActive keyNext : Option Text) : Device where
  state := .idle
  currentVersion := ⟨0, 0, 0⟩
  pendingCmd := ⟨[], [], [], [], []⟩
  lockHeld := false
  keyActive := keyActive
  keyNext := keyNext

inductive Effect
  | enter (state : State) (version : Text)
  | report (status message : Text)
  | system (command : Text)
  | savedNextKey (key : Text)
  | promotedKey (key : Text)
  deriving DecidableEq, Repr

/-- What the system answers while one command is processed. -/
structure Answers where
  /-- The temporary file for the active key, and for the next key, can be opened. -/
  keyTmpActive : Bool
  keyTmpNext : Bool
  /-- The temporary file for the key to save can be opened, and renamed. -/
  saveOpen : Bool
  saveRename : Bool
  promoteRename : Bool
  /-- `f_frsize` and `f_bfree`, or the error. -/
  statvfs : Except Text (Nat × Nat)
  /-- The lock: held now, held by another process, or the error of `open`. -/
  lock : Except Text Bool
  /-- Exit codes of the commands. -/
  wget : Int
  sha256sum : Int
  cp : Int
  backupSha256 : Int
  mvFinal : Int
  mvBinary : Int
  systemctlRestart : Int
  systemctlIsActive : Int

/-- A step of the manager: whether it succeeded, and what it did. -/
structure Outcome where
  ok : Bool
  device : Device
  effects : List Effect

def exitCode (rc : Int) : Text := (toString rc).toList

/-! ## Keys -/

/-- `kOtaBuiltinPublicKey`. -/
def builtinPublicKey : Text := "-----BEGIN PUBLIC KEY-----\nMCowBQYDKD2VAwEh\n-----END PUBLIC KEY-----\n".toList

namespace Device

/-- `load_public_key`: the file, or the key of the build where the file is missing or empty. -/
def loadPublicKey (d : Device) : Text :=
  match d.keyActive with
  | some [] => builtinPublicKey
  | some key => key
  | none => builtinPublicKey

/-- `load_next_key`. -/
def loadNextKey (d : Device) : Text := d.keyNext.getD []

/-- `save_next_key`: a new file takes the place of the old one, or nothing changes. -/
def saveNextKey (d : Device) (env : Answers) (pem : Text) : Device × List Effect :=
  let mkdir := Effect.system "mkdir -p /userdata/ota/trusted_keys".toList
  if env.saveOpen && env.saveRename then ({ d with keyNext := some pem }, [mkdir, .savedNextKey pem])
  else (d, [mkdir])

/-- `promote_next_key`: one rename. -/
def promoteNextKey (d : Device) (env : Answers) : Device × List Effect :=
  match d.keyNext with
  | some key =>
    if env.promoteRename then ({ d with keyActive := some key, keyNext := none }, [.promotedKey key]) else (d, [])
  | none => (d, [])

end Device

/-! ## Validation -/

def verifyKeyTmp : Text := "/userdata/ota_tmp/.verify_key.pub".toList

/-- The command line of the verification. The signature is not part of it. -/
def opensslCommand (message : Text) : Text :=
  "echo -n \"".toList ++ message ++ "\" | openssl dgst -ed25519-verify ".toList ++ verifyKeyTmp ++
    " -signature /dev/stdin 2>/dev/null".toList

/-- `verify_signature`: the active key, then the next key. A new next key comes with the first, a rotation with the
second. -/
def verifySignature (openssl : Text → Text → Bool) (env : Answers) (d : Device) (message : Text) : Outcome :=
  let verify := Effect.system (opensslCommand message)
  if d.loadPublicKey = [] then
    ⟨true, d, [.report "warning".toList "No public key available — skipping signature verification".toList]⟩
  else if !env.keyTmpActive then ⟨false, d, []⟩
  else if openssl d.loadPublicKey message then
    if d.pendingCmd.nextPublicKey = [] then ⟨true, d, [verify]⟩
    else
      let saved := d.saveNextKey env d.pendingCmd.nextPublicKey
      ⟨true, saved.1, verify :: saved.2⟩
  else if d.loadNextKey = [] then
    ⟨false, d, [verify, .report "error".toList "Signature verification failed and no next key available".toList]⟩
  else if !env.keyTmpNext then ⟨false, d, [verify]⟩
  else if openssl d.loadNextKey message then
    let promoted := d.promoteNextKey env
    ⟨true, promoted.1, [verify, verify, .report "info".toList "Rotating to new public key".toList] ++ promoted.2⟩
  else
    ⟨false, d, [verify, verify,
      .report "error".toList "Signature verification failed with all available keys".toList]⟩

/-- The message of a signature, as it is put between the double quotes of the command line. -/
def signedMessage (cmd : OtaCommand) : Text :=
  "version=".toList ++ cmd.version ++ "&url=".toList ++ cmd.url ++ "&sha256=".toList ++ cmd.sha256

/-- The anti-rollback check. -/
def versionError (current : Version) (cmd : OtaCommand) : Option Text :=
  if parseVersion cmd.version = ⟨0, 0, 0⟩ then
    some ("Cannot parse version string: \"".toList ++ cmd.version ++ ['"'])
  else if !(parseVersion cmd.version).greater current then
    some ("Rejecting downgrade: new version ".toList ++ cmd.version ++ " is not greater than current version ".toList ++
      current.toText)
  else none

/-- `kMinDiskBytes`. -/
def minDiskBytes : Nat := 50 * 1024 * 1024

def diskError (env : Answers) : Option Text :=
  match env.statvfs with
  | .error e => some ("Cannot check disk space on /userdata/ota_tmp: ".toList ++ e)
  | .ok (frsize, bfree) =>
    let freeBytes := frsize * bfree % 2 ^ 64
    if freeBytes < minDiskBytes then
      some ("Insufficient disk space: ".toList ++ (toString freeBytes).toList ++ " bytes free, need at least ".toList ++
        (toString minDiskBytes).toList)
    else none

def urlError (cmd : OtaCommand) : Option Text :=
  if cmd.url.length < 5 ∨ cmd.url.take 4 ≠ "http".toList ∧ cmd.url.take 5 ≠ "https".toList then
    some ("Invalid URL scheme in: \"".toList ++ cmd.url ++ ['"'])
  else none

/-- The part of `validate` about the signature: a command without one is let through. -/
def checkSignature (openssl : Text → Text → Bool) (env : Answers) (d : Device) (cmd : OtaCommand) : Outcome :=
  if cmd.signature ≠ [] then
    let r := verifySignature openssl env d (signedMessage cmd)
    if r.ok then r
    else { r with effects := r.effects ++ [.report "error".toList "Manifest signature verification failed".toList] }
  else ⟨true, d, [.report "warning".toList "OTA manifest has no signature — accepting unsigned (dev mode)".toList]⟩

/-- A check that reports its error. -/
def Outcome.andThen (r : Outcome) (error : Option Text) : Outcome :=
  if r.ok then
    match error with
    | some e => { r with ok := false, effects := r.effects ++ [.report "error".toList e] }
    | none => r
  else r

/-- `validate`. -/
def validate (openssl : Text → Text → Bool) (env : Answers) (d : Device) (cmd : OtaCommand) : Outcome :=
  match versionError d.currentVersion cmd with
  | some e => ⟨false, d, [.report "error".toList e]⟩
  | none => ((checkSignature openssl env d cmd).andThen (diskError env)).andThen (urlError cmd)

/-! ## The steps behind the lock -/

def tempArtifact : Text := "/userdata/ota_tmp/artifact.tmp".toList
def finalBinary : Text := "/userdata/ota_tmp/artifact.bin".toList
def binaryPath : Text := "/userdata/bin/gema-ota".toList
def quiet : Text := " > /dev/null 2>&1".toList
def flushBufs : Effect := .system "blockdev --flushbufs /dev/mmcblk0 2>/dev/null || true".toList

/-- A command that must succeed, what follows it, and the report of its failure. -/
def mustSucceed (command : Text) (rc : Int) (error : Text) (next : Bool × List Effect) : Bool × List Effect :=
  if rc ≠ 0 then (false, [.system command, .report "error".toList error]) else (next.1, .system command :: next.2)

def download (env : Answers) (cmd : OtaCommand) : Bool × List Effect :=
  mustSucceed ("wget -c -O ".toList ++ tempArtifact ++ [' '] ++ cmd.url ++ quiet) env.wget
    ("wget failed with exit code ".toList ++ exitCode env.wget) (true, [flushBufs])

def verifyChecksum (env : Answers) (cmd : OtaCommand) : Bool × List Effect :=
  mustSucceed ("echo \"".toList ++ cmd.sha256 ++ "  ".toList ++ tempArtifact ++ "\" | sha256sum -c -s".toList ++ quiet)
    env.sha256sum "SHA-256 checksum mismatch".toList (true, [])

/-- The checksum of the backup may fail. -/
def backup (env : Answers) (current : Version) : Bool × List Effect :=
  let backupFile := "/backup/gema-vision.".toList ++ current.toText
  let sha256 := Effect.system ("sha256sum ".toList ++ backupFile ++ " > ".toList ++ backupFile ++
    ".sha256 2>/dev/null".toList)
  let warning := if env.backupSha256 ≠ 0 then
      [.report "warning".toList ("Could not generate backup SHA-256 (exit code ".toList ++ exitCode env.backupSha256 ++
        [')'])]
    else []
  mustSucceed ("cp ".toList ++ binaryPath ++ [' '] ++ backupFile ++ quiet) env.cp
    ("Backup copy failed (exit code ".toList ++ exitCode env.cp ++ [')']) (true, sha256 :: warning ++ [flushBufs])

def apply (env : Answers) : Bool × List Effect :=
  mustSucceed ("mv ".toList ++ tempArtifact ++ [' '] ++ finalBinary ++ quiet) env.mvFinal
    ("mv failed (exit code ".toList ++ exitCode env.mvFinal ++ [')'])
    (mustSucceed ("mv ".toList ++ finalBinary ++ [' '] ++ binaryPath ++ quiet) env.mvBinary
      ("Final rename failed (exit code ".toList ++ exitCode env.mvBinary ++ [')'])
      (true, [.system ("chmod 755 ".toList ++ binaryPath ++ quiet), flushBufs]))

def restartVision (env : Answers) : Bool × List Effect :=
  mustSucceed ("systemctl restart gema-vision".toList ++ quiet) env.systemctlRestart
    ("systemctl restart failed (exit code ".toList ++ exitCode env.systemctlRestart ++ [')']) (true, [])

def confirmHealth (env : Answers) : Bool × List Effect :=
  mustSucceed ("systemctl is-active gema-vision".toList ++ quiet) env.systemctlIsActive
    ("gema-vision is not active after restart (exit code ".toList ++ exitCode env.systemctlIsActive ++ [')'])
    (true, [.system ("fw_setenv bootcount 0".toList ++ quiet ++ " || true".toList)])

/-- One of the steps 2 to 7 of `on_ota_command`. -/
structure Stage where
  state : State
  status : Text
  announcement : Text
  failure : Text
  run : Bool × List Effect

def stages (env : Answers) (current : Version) (cmd : OtaCommand) : List Stage :=
  [⟨.downloading, "downloading".toList, "Downloading ".toList ++ cmd.url, "Download failed".toList, download env cmd⟩,
    ⟨.verifying, "verifying".toList, "Verifying SHA-256 checksum".toList, "Checksum verification failed".toList,
      verifyChecksum env cmd⟩,
    ⟨.backingUp, "backing_up".toList, "Creating backup of current binary".toList, "Backup failed".toList,
      backup env current⟩,
    ⟨.applying, "applying".toList, "Applying update".toList, "Apply failed — system may be inconsistent".toList,
      apply env⟩,
    ⟨.restarting, "restarting".toList, "Restarting vision service".toList, "Restart failed".toList, restartVision env⟩,
    ⟨.confirming, "confirming".toList, "Confirming post-restart health".toList,
      "Health check failed after restart".toList, confirmHealth env⟩]

/-- The state `FAILED` with its report. -/
def Device.fail (d : Device) (version message : Text) : Device × List Effect :=
  ({ d with state := .failed }, [.enter .failed version, .report "failed".toList message])

/-- The stages in order, up to the first that fails; the lock is released at the end. -/
def runStages (version : Text) : Device → List Stage → Device × List Effect
  | d, [] => ({ d with state := .success, lockHeld := false }, [.enter .success version,
      .report "success".toList ("OTA update to version ".toList ++ version ++ " applied successfully".toList)])
  | d, stage :: rest =>
    let entered := { d with state := stage.state }
    let begun := .enter stage.state version :: .report stage.status stage.announcement :: stage.run.2
    let r := if stage.run.1 then runStages version entered rest
      else { entered with lockHeld := false }.fail version stage.failure
    (r.1, begun ++ r.2)

/-- `acquire_lock` and what it guards. -/
def underLock (env : Answers) (d : Device) (cmd : OtaCommand) : Device × List Effect :=
  match env.lock with
  | .ok true => runStages cmd.version { d with lockHeld := true } (stages env d.currentVersion cmd)
  | .ok false =>
    let r := d.fail cmd.version "Could not acquire OTA lock".toList
    (r.1, .report "error".toList "Another OTA operation is already in progress".toList :: r.2)
  | .error e =>
    let r := d.fail cmd.version "Could not acquire OTA lock".toList
    (r.1, .report "error".toList ("Cannot create lock file: ".toList ++ e) :: r.2)

/-- `on_ota_command`. -/
def onOtaCommand (openssl : Text → Text → Bool) (env : Answers) (d : Device) (json : Text) : Device × List Effect :=
  if d.state ≠ .idle then (d, [.report "busy".toList "OTA already in progress — ignoring command".toList])
  else
    let cmd := parseOtaCommand json
    let d := { d with state := .validating }
    if cmd.version = [] ∨ cmd.url = [] ∨ cmd.sha256 = [] then
      let r := d.fail cmd.version "Invalid OTA command: missing 'version', 'url', or 'sha256'".toList
      (r.1, .enter .validating cmd.version :: r.2)
    else
      let d := { d with pendingCmd := cmd }
      let begun := [.enter .validating cmd.version,
        .report "validating".toList ("Validating OTA update to version ".toList ++ cmd.version)]
      let valid := validate openssl env d cmd
      let r := if valid.ok then underLock env valid.device cmd
        else valid.device.fail cmd.version "Validation failed — aborting".toList
      (r.1, begun ++ valid.effects ++ r.2)

/-! ## The process -/

/-- A line that `main_ota` reads; empty lines are skipped. -/
def onLine (openssl : Text → Text → Bool) (env : Answers) (d : Device) (text : Text) : Device × List Effect :=
  if text = [] then (d, []) else onOtaCommand openssl env d text

/-- The key files after some effects. -/
def Device.afterEffects (d : Device) : List Effect → Device
  | [] => d
  | .savedNextKey key :: h => { d with keyNext := some key }.afterEffects h
  | .promotedKey key :: h => { d with keyActive := some key, keyNext := none }.afterEffects h
  | _ :: h => d.afterEffects h

/-- A new process keeps nothing but the key files. -/
def Device.restarted (d : Device) : Device := .start d.keyActive d.keyNext

/-- A line of the FIFO; a line that the process does not survive, with the number of its effects that take place; or the
end of the process between two lines. -/
inductive Input
  | line (text : Text) (env : Answers)
  | killed (text : Text) (env : Answers) (effects : Nat)
  | restart

def Input.command : Input → Option OtaCommand
  | .line text _ => some (parseOtaCommand text)
  | .killed text _ _ => some (parseOtaCommand text)
  | .restart => none

/-- `main_ota`, started again whenever it ends. -/
def mainOta (openssl : Text → Text → Bool) : Machine Device Input Effect where
  step d
    | .line text env => some (onLine openssl env d text)
    | .killed text env effects =>
      let h := (onLine openssl env d text).2.take effects
      some ((d.afterEffects h).restarted, h)
    | .restart => some (d.restarted, [])

theorem run_line (openssl : Text → Text → Bool) (d : Device) (text : Text) (env : Answers) (h : text ≠ []) :
    (mainOta openssl).run d [.line text env] =
      some ((onOtaCommand openssl env d text).1, (onOtaCommand openssl env d text).2) := by
  rw [Machine.run_cons_iff]
  refine ⟨_, _, [], ?_, rfl, (List.append_nil _).symm⟩
  show some (onLine openssl env d text) = _
  rw [onLine, if_neg h]

/-! ## What the steps do not do -/

/-- Reports and command lines: no transition, and no change of a key file. -/
def Effect.Outward : Effect → Prop
  | .report _ _ => True
  | .system _ => True
  | _ => False

theorem mustSucceed_outward {command error : Text} {rc : Int} {next : Bool × List Effect}
    (h : ∀ e ∈ next.2, e.Outward) : ∀ e ∈ (mustSucceed command rc error next).2, e.Outward := by
  unfold mustSucceed
  split
  · simp [Effect.Outward]
  · intro e he
    rcases List.mem_cons.mp he with rfl | he
    · trivial
    · exact h e he

theorem stages_outward (env : Answers) (current : Version) (cmd : OtaCommand) :
    ∀ stage ∈ stages env current cmd, stage.state ≠ .success ∧ ∀ e ∈ stage.run.2, e.Outward := by
  intro stage hstage
  simp only [stages, List.mem_cons, List.not_mem_nil, or_false] at hstage
  rcases hstage with rfl | rfl | rfl | rfl | rfl | rfl
  · exact ⟨nofun, mustSucceed_outward (by simp [flushBufs, Effect.Outward])⟩
  · exact ⟨nofun, mustSucceed_outward (by simp)⟩
  · refine ⟨nofun, mustSucceed_outward ?_⟩
    by_cases hsha : env.backupSha256 ≠ 0 <;> simp [hsha, flushBufs, Effect.Outward]
  · exact ⟨nofun, mustSucceed_outward (mustSucceed_outward (by simp [flushBufs, Effect.Outward]))⟩
  · exact ⟨nofun, mustSucceed_outward (by simp)⟩
  · exact ⟨nofun, mustSucceed_outward (by simp [Effect.Outward])⟩

end IbarraGateway.Ota
