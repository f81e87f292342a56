import IbarraGateway.Ota.Authenticity
import Mathlib.Logic.Function.Basic

/-!
# What an update installs

The command lines of an update that ends in `SUCCESS` (`onOtaCommand_lines`), and what they do to the files when the
programs do what their names say. A file system gives the contents of a path; what `wget` receives is free, and SHA-256 is
a parameter.

`kBinaryPath` is the binary of `gema-ota.service`, while `gema-vision.service` executes `kVisionBin`, which no step
names: `installs_iff`.
-/

namespace IbarraGateway.Ota

/-! ## Files -/

/-- The contents of the paths that have a file. -/
abbrev Files := Text → Option Text

/-- The programs that the steps of the manager call. -/
inductive Command
  | wget (out url : Text)
  | sha256sumCheck (sha256 file : Text)
  | cp (src dst : Text)
  | sha256sum (file out : Text)
  | mv (src dst : Text)
  | chmod (path : Text)
  | flushBufs
  | systemctl (verb : Text)
  | resetBootcount
  deriving DecidableEq, Repr

namespace Command

def line : Command → Text
  | wget out url => "wget -c -O ".toList ++ out ++ [' '] ++ url ++ quiet
  | sha256sumCheck sha256 file =>
    "echo \"".toList ++ sha256 ++ "  ".toList ++ file ++ "\" | sha256sum -c -s".toList ++ quiet
  | cp src dst => "cp ".toList ++ src ++ [' '] ++ dst ++ quiet
  | sha256sum file out => "sha256sum ".toList ++ file ++ " > ".toList ++ out ++ " 2>/dev/null".toList
  | mv src dst => "mv ".toList ++ src ++ [' '] ++ dst ++ quiet
  | chmod path => "chmod 755 ".toList ++ path ++ quiet
  | flushBufs => "blockdev --flushbufs /dev/mmcblk0 2>/dev/null || true".toList
  | systemctl verb => "systemctl ".toList ++ verb ++ " gema-vision".toList ++ quiet
  | resetBootcount => "fw_setenv bootcount 0".toList ++ quiet ++ " || true".toList

/-- The files after a command that exits with 0; the shell opens the output of `sha256sum` in any case. -/
def perform (sha256 : Text → Text) (artifact : Text) (fs : Files) : Command → Option Files
  | wget out _ => some (Function.update fs out (some artifact))
  | sha256sumCheck expected file => (fs file).bind fun contents => if sha256 contents = expected then some fs else none
  | cp src dst => (fs src).map fun contents => Function.update fs dst (some contents)
  | sha256sum file out =>
    some (Function.update fs out
      (some (((fs file).map fun contents => sha256 contents ++ "  ".toList ++ file ++ ['\n']).getD [])))
  | mv src dst => (fs src).map fun contents => Function.update (Function.update fs src none) dst (some contents)
  | _ => some fs

end Command

def execute (sha256 : Text → Text) (artifact : Text) : List Command → Files → Option Files
  | [], fs => some fs
  | command :: commands, fs => (command.perform sha256 artifact fs).bind (execute sha256 artifact commands)

/-- The paths that a command may change. -/
def Command.writes : Command → List Text
  | wget out _ => [out]
  | cp _ dst => [dst]
  | sha256sum _ out => [out]
  | mv src dst => [src, dst]
  | _ => []

variable {sha256 : Text → Text} {artifact : Text} {fs fs' : Files}

theorem Command.perform_frame {command : Command} (h : command.perform sha256 artifact fs = some fs') {path : Text}
    (hpath : path ∉ command.writes) : fs' path = fs path := by
  cases command with
  | wget out url =>
    obtain rfl := Option.some.inj h
    exact Function.update_of_ne (List.ne_of_not_mem_cons hpath) _ _
  | cp src dst =>
    obtain ⟨contents, -, rfl⟩ := Option.map_eq_some_iff.mp h
    exact Function.update_of_ne (List.ne_of_not_mem_cons hpath) _ _
  | sha256sum file out =>
    obtain rfl := Option.some.inj h
    exact Function.update_of_ne (List.ne_of_not_mem_cons hpath) _ _
  | mv src dst =>
    obtain ⟨contents, -, rfl⟩ := Option.map_eq_some_iff.mp h
    rw [Command.writes, List.mem_pair, not_or] at hpath
    rw [Function.update_of_ne hpath.2, Function.update_of_ne hpath.1]
  | sha256sumCheck expected file =>
    obtain ⟨contents, -, hcheck⟩ := Option.bind_eq_some_iff.mp h
    split at hcheck
    · rw [Option.some.inj hcheck]
    · cases hcheck
  | chmod path => rw [← Option.some.inj h]
  | flushBufs => rw [← Option.some.inj h]
  | systemctl verb => rw [← Option.some.inj h]
  | resetBootcount => rw [← Option.some.inj h]

theorem perform_mv_iff {src dst : Text} : (Command.mv src dst).perform sha256 artifact fs = some fs' ↔
    ∃ contents, fs src = some contents ∧
      Function.update (Function.update fs src none) dst (some contents) = fs' :=
  Option.map_eq_some_iff

theorem execute_cons_iff {command : Command} {commands : List Command} :
    execute sha256 artifact (command :: commands) fs = some fs' ↔
      ∃ fs₁, command.perform sha256 artifact fs = some fs₁ ∧ execute sha256 artifact commands fs₁ = some fs' :=
  Option.bind_eq_some_iff

theorem execute_append_iff {first second : List Command} :
    execute sha256 artifact (first ++ second) fs = some fs' ↔
      ∃ fs₁, execute sha256 artifact first fs = some fs₁ ∧ execute sha256 artifact second fs₁ = some fs' := by
  induction first generalizing fs with
  | nil => simp [execute]
  | cons command first ih =>
    rw [List.cons_append, execute_cons_iff]
    simp only [ih, execute_cons_iff]
    constructor
    · rintro ⟨fs₁, hperform, fs₂, hfirst, hsecond⟩
      exact ⟨fs₂, ⟨fs₁, hperform, hfirst⟩, hsecond⟩
    · rintro ⟨fs₂, ⟨fs₁, hperform, hfirst⟩, hsecond⟩
      exact ⟨fs₁, hperform, fs₂, hfirst, hsecond⟩

theorem execute_frame {commands : List Command} (h : execute sha256 artifact commands fs = some fs') {path : Text}
    (hpath : ∀ command ∈ commands, path ∉ command.writes) : fs' path = fs path := by
  induction commands generalizing fs with
  | nil => rw [← Option.some.inj h]
  | cons command commands ih =>
    obtain ⟨fs₁, hperform, hrest⟩ := execute_cons_iff.mp h
    obtain ⟨hnow, hlater⟩ := List.forall_mem_cons.mp hpath
    rw [ih hrest hlater, Command.perform_frame hperform hnow]

/-! ## The commands of an update -/

def backupFile (current : Version) : Text := "/backup/gema-vision.".toList ++ current.toText

def fetching (cmd : OtaCommand) : List Command :=
  [.wget tempArtifact cmd.url, .flushBufs, .sha256sumCheck cmd.sha256 tempArtifact]

def saving (current : Version) : List Command :=
  [.cp binaryPath (backupFile current), .sha256sum (backupFile current) (backupFile current ++ ".sha256".toList),
    .flushBufs]

def replacing : List Command :=
  [.mv tempArtifact finalBinary, .mv finalBinary binaryPath, .chmod binaryPath, .flushBufs, .systemctl "restart".toList,
    .systemctl "is-active".toList, .resetBootcount]

/-- The commands behind the lock. -/
def installation (cmd : OtaCommand) (current : Version) : List Command := fetching cmd ++ (saving current ++ replacing)

def commandLines (h : List Effect) : List Text :=
  h.filterMap fun
    | .system command => some command
    | _ => none

theorem commandLines_append (h h' : List Effect) : commandLines (h ++ h') = commandLines h ++ commandLines h' :=
  List.filterMap_append

theorem mustSucceed_lines_eq (command error : Text) (rc : Int) (next : Bool × List Effect) :
    commandLines (mustSucceed command rc error next).2 = command :: if rc = 0 then commandLines next.2 else [] := by
  unfold mustSucceed
  by_cases hrc : rc = 0
  · simp [hrc, commandLines]
  · simp [hrc, commandLines]

theorem mustSucceed_ok (command error : Text) (rc : Int) (next : Bool × List Effect) :
    (mustSucceed command rc error next).1 = true ↔ rc = 0 ∧ next.1 = true := by
  unfold mustSucceed
  by_cases hrc : rc = 0 <;> simp [hrc]

theorem mustSucceed_lines {command error : Text} {rc : Int} {next : Bool × List Effect}
    (h : (mustSucceed command rc error next).1 = true) :
    next.1 = true ∧ commandLines (mustSucceed command rc error next).2 = command :: commandLines next.2 := by
  obtain ⟨hrc, hnext⟩ := (mustSucceed_ok command error rc next).mp h
  rw [mustSucceed_lines_eq, if_pos hrc]
  exact ⟨hnext, rfl⟩

/-- A run of stages that succeeds issues the lines of all of them. -/
theorem runStages_lines {version : Text} {d : Device} {sts : List Stage}
    (h : (runStages version d sts).1.state = .success) :
    (∀ stage ∈ sts, stage.run.1 = true) ∧
      commandLines (runStages version d sts).2 = sts.flatMap fun stage => commandLines stage.run.2 := by
  induction sts generalizing d with
  | nil => exact ⟨fun _ hmem => absurd hmem List.not_mem_nil, rfl⟩
  | cons stage rest ih =>
    unfold runStages at h ⊢
    cases hrun : stage.run.1 with
    | false =>
      rw [hrun] at h
      cases h
    | true =>
      rw [hrun] at h
      obtain ⟨hall, hlines⟩ := ih h
      refine ⟨List.forall_mem_cons.mpr ⟨hrun, hall⟩, ?_⟩
      dsimp only
      rw [if_pos rfl, commandLines_append, hlines, List.flatMap_cons]
      rfl

theorem sha256sum_line (file : Text) : Command.line (.sha256sum file (file ++ ".sha256".toList)) =
    "sha256sum ".toList ++ file ++ " > ".toList ++ file ++ ".sha256 2>/dev/null".toList := by
  have hsuffix : ".sha256".toList ++ " 2>/dev/null".toList = ".sha256 2>/dev/null".toList := by decide
  show "sha256sum ".toList ++ file ++ " > ".toList ++ (file ++ ".sha256".toList) ++ " 2>/dev/null".toList = _
  rw [← List.append_assoc _ file, List.append_assoc _ ".sha256".toList, hsuffix]

theorem warning_lines (env : Answers) (command message : Text) (h : List Effect) :
    commandLines (.system command ::
      (if env.backupSha256 ≠ 0 then [.report "warning".toList message] else []) ++ h) = command :: commandLines h := by
  split <;> rfl

theorem stages_lines {env : Answers} {current : Version} {cmd : OtaCommand}
    (h : ∀ stage ∈ stages env current cmd, stage.run.1 = true) :
    ((stages env current cmd).flatMap fun stage => commandLines stage.run.2) =
      (installation cmd current).map Command.line := by
  unfold stages at h ⊢
  simp only [List.forall_mem_cons] at h
  obtain ⟨hdownload, hverify, hbackup, hfinal, hrestart, hhealth, -⟩ := h
  have hdownload := (mustSucceed_lines hdownload).2
  have hverify := (mustSucceed_lines hverify).2
  have hbackup := (mustSucceed_lines hbackup).2
  have hbinary := (mustSucceed_lines (mustSucceed_lines hfinal).1).2
  have hfinal := (mustSucceed_lines hfinal).2
  have hrestart := (mustSucceed_lines hrestart).2
  have hhealth := (mustSucceed_lines hhealth).2
  simp only [List.flatMap_cons, List.flatMap_nil]
  unfold download verifyChecksum backup apply restartVision confirmHealth
  rw [hdownload, hverify, hbackup, hfinal, hbinary, hrestart, hhealth, warning_lines]
  simp only [installation, fetching, saving, List.cons_append, List.nil_append, List.map_cons, sha256sum_line]
  rfl

/-- The lines of a verification. -/
def Verifying (line : Text) : Prop :=
  line = "mkdir -p /userdata/ota/trusted_keys".toList ∨ ∃ message, line = opensslCommand message

variable (openssl : Text → Text → Bool)

/-- Only the message of the command is verified. -/
def VerifyingOf (message line : Text) : Prop :=
  line = "mkdir -p /userdata/ota/trusted_keys".toList ∨ line = opensslCommand message

theorem VerifyingOf.verifying {message line : Text} (h : VerifyingOf message line) : Verifying line :=
  h.imp_right fun hline => ⟨message, hline⟩

theorem verifySignature_lines (env : Answers) (d : Device) (message : Text) :
    ∀ line ∈ commandLines (verifySignature openssl env d message).effects, VerifyingOf message line := by
  have hopenssl : VerifyingOf message (opensslCommand message) := Or.inr rfl
  unfold verifySignature
  rw [if_neg d.loadPublicKey_ne_nil]
  split
  · simp [commandLines]
  split
  · split
    · simpa [commandLines] using hopenssl
    · have hsave : ∀ line ∈ commandLines (d.saveNextKey env d.pendingCmd.nextPublicKey).2, VerifyingOf message line := by
        unfold Device.saveNextKey
        dsimp only
        split <;> simp [commandLines, VerifyingOf]
      exact List.forall_mem_cons.mpr ⟨hopenssl, hsave⟩
  split
  · simpa [commandLines] using hopenssl
  split
  · simpa [commandLines] using hopenssl
  split
  · have hpromote : commandLines (d.promoteNextKey env).2 = [] := by
      unfold Device.promoteNextKey
      split
      · split <;> rfl
      · rfl
    rw [commandLines_append, hpromote]
    simpa [commandLines] using hopenssl
  · simpa [commandLines] using hopenssl

theorem andThen_lines (r : Outcome) (error : Option Text) :
    commandLines (r.andThen error).effects = commandLines r.effects := by
  unfold Outcome.andThen
  split
  · split
    · rw [commandLines_append]
      exact List.append_nil _
    · rfl
  · rfl

/-- The lines of a validation are those of the signature, when the version is let through and there is one. -/
theorem validate_lines_eq (env : Answers) (d : Device) (cmd : OtaCommand) :
    commandLines (validate openssl env d cmd).effects =
      if versionError d.currentVersion cmd = none ∧ cmd.signature ≠ [] then
        commandLines (verifySignature openssl env d (signedMessage cmd)).effects
      else [] := by
  unfold validate
  split
  · rename_i e he
    simp [he, commandLines]
  rename_i he
  rw [andThen_lines, andThen_lines]
  unfold checkSignature
  by_cases hsig : cmd.signature = []
  · simp [hsig, commandLines]
  have hboth : versionError d.currentVersion cmd = none ∧ cmd.signature ≠ [] := ⟨he, hsig⟩
  rw [if_pos hsig, if_pos hboth]
  dsimp only
  split
  · rfl
  · rw [commandLines_append]
    exact List.append_nil _

theorem validate_lines (env : Answers) (d : Device) (cmd : OtaCommand) :
    ∀ line ∈ commandLines (validate openssl env d cmd).effects, VerifyingOf (signedMessage cmd) line := by
  rw [validate_lines_eq]
  split
  · exact verifySignature_lines openssl env d _
  · simp

theorem validate_currentVersion (env : Answers) (d : Device) (cmd : OtaCommand) :
    (validate openssl env d cmd).device.currentVersion = d.currentVersion := by
  obtain ⟨r, ⟨hdevice, -⟩, hr⟩ := validate_change openssl env d cmd
  rw [hdevice]
  rcases hr with rfl | ⟨-, -, hchange⟩
  · rfl
  cases hchange with
  | kept => rfl
  | saved =>
    unfold Device.saveNextKey
    split <;> rfl
  | promoted =>
    unfold Device.promoteNextKey
    split
    · split <;> rfl
    · rfl

theorem underLock_lines {env : Answers} {d : Device} {cmd : OtaCommand}
    (h : (underLock env d cmd).1.state = .success) :
    commandLines (underLock env d cmd).2 = (installation cmd d.currentVersion).map Command.line := by
  unfold underLock at h ⊢
  split at h
  · obtain ⟨hall, hlines⟩ := runStages_lines h
    exact hlines.trans (stages_lines hall)
  · cases h
  · cases h

/-- The lines of a command that completes. -/
theorem onOtaCommand_lines (env : Answers) (d : Device) (json : Text) (hnew : d.state ≠ .success)
    (h : (onOtaCommand openssl env d json).1.state = .success) :
    ∃ checks, (∀ line ∈ checks, Verifying line) ∧ commandLines (onOtaCommand openssl env d json).2 =
      checks ++ (installation (parseOtaCommand json) d.currentVersion).map Command.line := by
  unfold onOtaCommand at h ⊢
  split at h
  · exact absurd h hnew
  rename_i hidle
  rw [if_neg hidle]
  dsimp only at h ⊢
  split at h
  · cases h
  rename_i hgiven
  rw [if_neg hgiven]
  split at h
  · rename_i hok
    rw [if_pos hok, commandLines_append, commandLines_append, underLock_lines h, validate_currentVersion]
    exact ⟨_, fun line hline => (validate_lines openssl env _ _ line hline).verifying, rfl⟩
  · cases h

/-! ## The files of an update -/

/-- `kVisionBin`, and `ExecStart` of `gema-vision.service`. -/
def visionBin : Text := "/usr/bin/gema-vision".toList

/-- The service executes the artifact, and the backup is what it executed before. -/
def Installed (artifact : Text) (current : Version) (fs fs' : Files) : Prop :=
  fs' visionBin = some artifact ∧ fs' (backupFile current) = fs visionBin

theorem ne_backupFile {path : Text} (h : path[1]? ≠ some 'b') (current : Version) (suffix : Text) :
    path ≠ backupFile current ++ suffix := by
  rintro rfl
  exact h rfl

theorem fetching_files {cmd : OtaCommand} (h : execute sha256 artifact (fetching cmd) fs = some fs') :
    sha256 artifact = cmd.sha256 ∧ fs' tempArtifact = some artifact ∧ ∀ path ≠ tempArtifact, fs' path = fs path := by
  have hframe : ∀ path ≠ tempArtifact, fs' path = fs path := fun path hne =>
    execute_frame h (by simpa [fetching, Command.writes] using hne)
  obtain ⟨fs₁, hwget, h⟩ := execute_cons_iff.mp h
  obtain ⟨fs₂, hflush, h⟩ := execute_cons_iff.mp h
  obtain ⟨fs₃, hcheck, hend⟩ := execute_cons_iff.mp h
  cases hflush
  cases hend
  have htemp : fs₁ tempArtifact = some artifact := by rw [← Option.some.inj hwget, Function.update_self]
  obtain ⟨contents, hread, hcheck⟩ := Option.bind_eq_some_iff.mp hcheck
  cases htemp.symm.trans hread
  split at hcheck
  · rename_i hequal
    cases hcheck
    exact ⟨hequal, htemp, hframe⟩
  · cases hcheck

theorem saving_files {current : Version} (h : execute sha256 artifact (saving current) fs = some fs') :
    ∃ old, fs binaryPath = some old ∧ fs' (backupFile current) = some old ∧
      ∀ path : Text, path[1]? ≠ some 'b' → fs' path = fs path := by
  have hframe : ∀ path : Text, path[1]? ≠ some 'b' → fs' path = fs path := by
    intro path hpath
    have hbackup := ne_backupFile hpath current []
    rw [List.append_nil] at hbackup
    exact execute_frame h (by simpa [saving, Command.writes] using ⟨hbackup, ne_backupFile hpath current _⟩)
  obtain ⟨fs₁, hcp, h⟩ := execute_cons_iff.mp h
  obtain ⟨old, hold, rfl⟩ := Option.map_eq_some_iff.mp hcp
  refine ⟨old, hold, ?_, hframe⟩
  rw [execute_frame h (by simp [Command.writes]), Function.update_self]

theorem replacing_files (h : execute sha256 artifact replacing fs = some fs') :
    fs' binaryPath = fs tempArtifact ∧
      ∀ path, path ≠ tempArtifact → path ≠ finalBinary → path ≠ binaryPath → fs' path = fs path := by
  have hframe : ∀ path, path ≠ tempArtifact → path ≠ finalBinary → path ≠ binaryPath → fs' path = fs path :=
    fun path htemp hfinal hbinary =>
      execute_frame h (by simpa [replacing, Command.writes] using ⟨⟨htemp, hfinal⟩, hfinal, hbinary⟩)
  obtain ⟨fs₁, hfinal, h⟩ := execute_cons_iff.mp h
  obtain ⟨fs₂, hbinary, h⟩ := execute_cons_iff.mp h
  obtain ⟨new, hnew, rfl⟩ := perform_mv_iff.mp hfinal
  obtain ⟨moved, hmoved, rfl⟩ := perform_mv_iff.mp hbinary
  rw [Function.update_self] at hmoved
  cases hmoved
  refine ⟨?_, hframe⟩
  rw [execute_frame h (by simp [Command.writes]), Function.update_self, hnew]

/-- The binary of the agent is saved and replaced; the binary of the service stays as it is. -/
theorem installation_files {cmd : OtaCommand} {current : Version}
    (h : execute sha256 artifact (installation cmd current) fs = some fs') :
    sha256 artifact = cmd.sha256 ∧ fs' binaryPath = some artifact ∧ fs' visionBin = fs visionBin ∧
      ∃ old, fs binaryPath = some old ∧ fs' (backupFile current) = some old := by
  obtain ⟨fs₁, hfetch, h⟩ := execute_append_iff.mp h
  obtain ⟨fs₂, hsave, hreplace⟩ := execute_append_iff.mp h
  obtain ⟨hverified, htemp, hfetch⟩ := fetching_files hfetch
  obtain ⟨old, hold, hbackup, hsave⟩ := saving_files hsave
  obtain ⟨hbinary, hreplace⟩ := replacing_files hreplace
  have hne (path : Text) (hpath : path[1]? ≠ some 'b') : backupFile current ≠ path := by
    simpa using (ne_backupFile hpath current []).symm
  refine ⟨hverified, ?_, ?_, old, ?_, ?_⟩
  · rw [hbinary, hsave _ (by decide), htemp]
  · rw [hreplace _ (by decide) (by decide) (by decide), hsave _ (by decide), hfetch _ (by decide)]
  · rw [← hfetch _ (by decide), hold]
  · rw [hreplace _ (hne _ (by decide)) (hne _ (by decide)) (hne _ (by decide)), hbackup]

/-- **What an update installs.** The service executes the verified artifact, and the backup is what it executed before,
exactly when both binaries have been the artifact all along. -/
theorem installs_iff (openssl : Text → Text → Bool) (env : Answers) (d : Device) (json : Text) (sha256 : Text → Text)
    (artifact : Text) (fs fs' : Files) (hnew : d.state ≠ .success)
    (hsuccess : (onOtaCommand openssl env d json).1.state = .success)
    (hfiles : execute sha256 artifact (installation (parseOtaCommand json) d.currentVersion) fs = some fs') :
    (∃ checks, (∀ line ∈ checks, Verifying line) ∧ commandLines (onOtaCommand openssl env d json).2 =
        checks ++ (installation (parseOtaCommand json) d.currentVersion).map Command.line) ∧
      sha256 artifact = (parseOtaCommand json).sha256 ∧
      (Installed artifact d.currentVersion fs fs' ↔ fs visionBin = some artifact ∧ fs binaryPath = some artifact) := by
  obtain ⟨hverified, -, hvision, old, hold, hbackup⟩ := installation_files hfiles
  refine ⟨onOtaCommand_lines openssl env d json hnew hsuccess, hverified, ?_⟩
  rw [Installed, hvision, hbackup, hold]
  constructor
  · rintro ⟨hexecuted, hsaved⟩
    exact ⟨hexecuted, hsaved.trans hexecuted⟩
  · rintro ⟨hexecuted, hsaved⟩
    exact ⟨hexecuted, hsaved.trans hexecuted.symm⟩

/-- The binaries that `install.sh` copies. -/
def installed (vision agent : Text) : Files := fun path =>
  if path = visionBin then some vision else if path = binaryPath then some agent else none

/-- SHA-256 where the contents are these three. -/
def knownSha256 (contents : Text) : Text :=
  if contents = "new".toList then "11507a0e2f5e69d5dfa40a62a1bd7b6ee57e6bcd85c67c9b8431b36fff21c437".toList
  else if contents = "agent".toList then "d4f0bc5a29de06b510f9aa428f1eedba926012b591fef7a518e776a7c9bd1824".toList
  else if contents = "vision".toList then "5944ae849448011ca08c3785f1de1a54c8a96d6c23f787f9d962b624edd4151d".toList
  else []

theorem installs_same : ∃ fs',
    execute knownSha256 "new".toList (installation (parseOtaCommand unsigned) ⟨0, 0, 0⟩)
        (installed "new".toList "new".toList) = some fs' ∧
      Installed "new".toList ⟨0, 0, 0⟩ (installed "new".toList "new".toList) fs' := by
  have hsome : (execute knownSha256 "new".toList (installation (parseOtaCommand unsigned) ⟨0, 0, 0⟩)
      (installed "new".toList "new".toList)).isSome = true := by decide +kernel
  obtain ⟨fs', hfiles⟩ := Option.isSome_iff_exists.mp hsome
  exact ⟨fs', hfiles, (installs_iff (fun _ _ => false) allWell (.start none none) unsigned _ _ _ _ nofun
    (by decide +kernel) hfiles).2.2.mpr ⟨rfl, rfl⟩⟩

/-- The artifact replaces the agent, and the service runs what it ran. -/
theorem wrong_binary_replaced :
    ¬ ∀ openssl env d json sha256 artifact fs fs', d.state ≠ .success →
      (onOtaCommand openssl env d json).1.state = .success →
      execute sha256 artifact (installation (parseOtaCommand json) d.currentVersion) fs = some fs' →
      Installed artifact d.currentVersion fs fs' := by
  intro hall
  have hsome : (execute knownSha256 "new".toList (installation (parseOtaCommand unsigned) ⟨0, 0, 0⟩)
      (installed "vision".toList "agent".toList)).isSome = true := by decide +kernel
  obtain ⟨fs', hfiles⟩ := Option.isSome_iff_exists.mp hsome
  have hvision := (hall (fun _ _ => false) allWell (.start none none) unsigned _ _ _ _ nofun (by decide +kernel) hfiles).1
  rw [(installation_files hfiles).2.2.1] at hvision
  exact absurd hvision (by decide)

end IbarraGateway.Ota
