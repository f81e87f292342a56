import IbarraGateway.Lib.ShellQuoting
import IbarraGateway.Ota.Installation

/-!
# Values of a command in command lines

Three of the lines that the agent passes to `system` hold values of the command (`templates`), the others are its own
(`onOtaCommand_lines_cases`). Nothing looks at the characters of a value, so it is passed as data exactly when none of
them is active where the line puts it, or the line is not reached: `passed_as_data_iff`.
-/

namespace IbarraGateway.Ota

open Shell

/-! ## The lines with values -/

def opensslLine (cmd : OtaCommand) : List Piece :=
  [.fixed ("echo -n \"".toList ++ "version=".toList), .value cmd.version, .fixed "&url=".toList, .value cmd.url,
    .fixed "&sha256=".toList, .value cmd.sha256,
    .fixed ("\" | openssl dgst -ed25519-verify ".toList ++ verifyKeyTmp ++ " -signature /dev/stdin 2>/dev/null".toList)]

def wgetLine (cmd : OtaCommand) : List Piece :=
  [.fixed ("wget -c -O ".toList ++ tempArtifact ++ [' ']), .value cmd.url, .fixed quiet]

def checksumLine (cmd : OtaCommand) : List Piece :=
  [.fixed "echo \"".toList, .value cmd.sha256,
    .fixed ("  ".toList ++ tempArtifact ++ "\" | sha256sum -c -s".toList ++ quiet)]

def templates (cmd : OtaCommand) : List (List Piece) := [opensslLine cmd, wgetLine cmd, checksumLine cmd]

theorem opensslLine_text (cmd : OtaCommand) : opensslCommand (signedMessage cmd) = lineText (opensslLine cmd) := by
  unfold opensslCommand signedMessage opensslLine lineText
  simp only [List.flatMap_cons, List.flatMap_nil, Piece.text, List.append_assoc, List.append_nil]

theorem wgetLine_text (cmd : OtaCommand) :
    "wget -c -O ".toList ++ tempArtifact ++ [' '] ++ cmd.url ++ quiet = lineText (wgetLine cmd) := by
  unfold wgetLine lineText
  simp only [List.flatMap_cons, List.flatMap_nil, Piece.text, List.append_assoc, List.append_nil]

theorem checksumLine_text (cmd : OtaCommand) :
    "echo \"".toList ++ cmd.sha256 ++ "  ".toList ++ tempArtifact ++ "\" | sha256sum -c -s".toList ++ quiet =
      lineText (checksumLine cmd) := by
  unfold checksumLine lineText
  simp only [List.flatMap_cons, List.flatMap_nil, Piece.text, List.append_assoc, List.append_nil]

/-- No character is active between double quotes. -/
def Quotable (s : Text) : Prop := ∀ c ∈ s, Quoting.double.isActive c = false

/-- No character is active outside of quotes. -/
def Unquoted (s : Text) : Prop := ∀ c ∈ s, Quoting.bare.isActive c = false

instance (s : Text) : Decidable (Quotable s) := List.decidableBAll (fun c => Quoting.double.isActive c = false) s

instance (s : Text) : Decidable (Unquoted s) := List.decidableBAll (fun c => Quoting.bare.isActive c = false) s

theorem passesData_opensslLine (cmd : OtaCommand) :
    PassesData .bare (opensslLine cmd) ↔ Quotable cmd.version ∧ Quotable cmd.url ∧ Quotable cmd.sha256 := by
  have hdouble : Quoting.double.Plain := .inr (.inr rfl)
  have hfirst : Quoting.bare.after ("echo -n \"".toList ++ "version=".toList) = .double := by decide
  have hurl : Quoting.double.after "&url=".toList = .double := by decide
  have hsha256 : Quoting.double.after "&sha256=".toList = .double := by decide
  unfold opensslLine
  rw [passesData_fixed_iff hfirst, passesData_value_iff hdouble, passesData_fixed_iff hurl, passesData_value_iff hdouble,
    passesData_fixed_iff hsha256, passesData_value_iff hdouble, inert_iff hdouble, inert_iff hdouble, inert_iff hdouble]
  simp only [passesData_last, and_true]
  rfl

theorem passesData_wgetLine (cmd : OtaCommand) : PassesData .bare (wgetLine cmd) ↔ Unquoted cmd.url := by
  have hbare : Quoting.bare.Plain := .inl rfl
  have hfirst : Quoting.bare.after ("wget -c -O ".toList ++ tempArtifact ++ [' ']) = .bare := by decide
  unfold wgetLine
  rw [passesData_fixed_iff hfirst, passesData_value_iff hbare, inert_iff hbare]
  simp only [passesData_last, and_true]
  rfl

theorem passesData_checksumLine (cmd : OtaCommand) : PassesData .bare (checksumLine cmd) ↔ Quotable cmd.sha256 := by
  have hdouble : Quoting.double.Plain := .inr (.inr rfl)
  have hfirst : Quoting.bare.after "echo \"".toList = .double := by decide
  unfold checksumLine
  rw [passesData_fixed_iff hfirst, passesData_value_iff hdouble, inert_iff hdouble]
  simp only [passesData_last, and_true]
  rfl

/-! ## The lines of a call -/

/-- The lines that hold nothing of the command. -/
def ownLines (current : Version) : List Text :=
  "mkdir -p /userdata/ota/trusted_keys".toList :: (saving current ++ replacing).map Command.line

theorem mem_mustSucceed {command error line : Text} {rc : Int} {next : Bool × List Effect}
    (h : line ∈ commandLines (mustSucceed command rc error next).2) : line = command ∨ line ∈ commandLines next.2 := by
  rw [mustSucceed_lines_eq] at h
  rcases List.mem_cons.mp h with rfl | h
  · exact .inl rfl
  · split at h
    · exact .inr h
    · cases h

/-- The lines of stages up to the first that fails. -/
def stageLines : List Stage → List Text
  | [] => []
  | stage :: rest => commandLines stage.run.2 ++ if stage.run.1 then stageLines rest else []

theorem runStages_lines_eq (version : Text) (d : Device) (sts : List Stage) :
    commandLines (runStages version d sts).2 = stageLines sts := by
  induction sts generalizing d with
  | nil => rfl
  | cons stage rest ih =>
    unfold runStages stageLines
    dsimp only
    rw [commandLines_append]
    cases stage.run.1 with
    | true =>
      rw [if_pos rfl, if_pos rfl, ih]
      rfl
    | false => rfl

theorem stageLines_forall {P : Text → Prop} {sts : List Stage}
    (h : ∀ stage ∈ sts, ∀ line ∈ commandLines stage.run.2, P line) : ∀ line ∈ stageLines sts, P line := by
  induction sts with
  | nil => nofun
  | cons stage rest ih =>
    obtain ⟨hstage, hrest⟩ := List.forall_mem_cons.mp h
    unfold stageLines
    refine List.forall_mem_append.mpr ⟨hstage, ?_⟩
    split
    · exact ih hrest
    · nofun

/-- The stages behind the checksum. -/
def laterStages (env : Answers) (current : Version) (cmd : OtaCommand) : List Stage := (stages env current cmd).drop 2

theorem mem_ownLines (current : Version) (command : Command) (h : command ∈ saving current ++ replacing) :
    command.line ∈ ownLines current :=
  List.mem_cons_of_mem _ (List.mem_map_of_mem h)

theorem laterStages_lines (env : Answers) (current : Version) (cmd : OtaCommand) :
    ∀ line ∈ stageLines (laterStages env current cmd), line ∈ ownLines current := by
  have hcp := mem_ownLines current (.cp binaryPath (backupFile current)) (by simp [saving])
  have hsha := mem_ownLines current (.sha256sum (backupFile current) (backupFile current ++ ".sha256".toList))
    (by simp [saving])
  have hfinal := mem_ownLines current (.mv tempArtifact finalBinary) (by simp [replacing])
  have hbinary := mem_ownLines current (.mv finalBinary binaryPath) (by simp [replacing])
  have hchmod := mem_ownLines current (.chmod binaryPath) (by simp [replacing])
  have hflush := mem_ownLines current .flushBufs (by simp [saving])
  have hrestart := mem_ownLines current (.systemctl "restart".toList) (by simp [replacing])
  have hactive := mem_ownLines current (.systemctl "is-active".toList) (by simp [replacing])
  have hreset := mem_ownLines current .resetBootcount (by simp [replacing])
  have hrestartLine : Command.line (.systemctl "restart".toList) = "systemctl restart gema-vision".toList ++ quiet := by
    decide +kernel
  have hactiveLine : Command.line (.systemctl "is-active".toList) = "systemctl is-active gema-vision".toList ++ quiet := by
    decide +kernel
  rw [sha256sum_line] at hsha
  rw [hrestartLine] at hrestart
  rw [hactiveLine] at hactive
  apply stageLines_forall
  intro stage hstage line hline
  simp only [laterStages, stages, List.drop_succ_cons, List.drop_zero, List.mem_cons, List.not_mem_nil, or_false] at hstage
  rcases hstage with rfl | rfl | rfl | rfl
  · rcases mem_mustSucceed hline with rfl | hline
    · exact hcp
    rw [warning_lines] at hline
    rcases List.mem_cons.mp hline with rfl | hline
    · exact hsha
    · rw [List.mem_singleton.mp hline]
      exact hflush
  · rcases mem_mustSucceed hline with rfl | hline
    · exact hfinal
    rcases mem_mustSucceed hline with rfl | hline
    · exact hbinary
    rcases List.mem_pair.mp hline with rfl | rfl
    · exact hchmod
    · exact hflush
  · rcases mem_mustSucceed hline with rfl | hline
    · exact hrestart
    · cases hline
  · rcases mem_mustSucceed hline with rfl | hline
    · exact hactive
    · rw [List.mem_singleton.mp hline]
      exact hreset

/-- The lines behind the lock. -/
theorem stages_lines_eq (env : Answers) (current : Version) (cmd : OtaCommand) :
    stageLines (stages env current cmd) = lineText (wgetLine cmd) ::
      if env.wget = 0 then
        Command.line .flushBufs :: lineText (checksumLine cmd) ::
          if env.sha256sum = 0 then stageLines (laterStages env current cmd) else []
      else [] := by
  have hdownload : commandLines (download env cmd).2 =
      lineText (wgetLine cmd) :: if env.wget = 0 then [Command.line .flushBufs] else [] := by
    unfold download
    rw [mustSucceed_lines_eq, wgetLine_text]
    rfl
  have hverify : commandLines (verifyChecksum env cmd).2 = [lineText (checksumLine cmd)] := by
    unfold verifyChecksum
    rw [mustSucceed_lines_eq, checksumLine_text]
    split <;> rfl
  have hdownloaded : (download env cmd).1 = true ↔ env.wget = 0 := by
    unfold download
    rw [mustSucceed_ok, and_iff_left rfl]
  have hverified : (verifyChecksum env cmd).1 = true ↔ env.sha256sum = 0 := by
    unfold verifyChecksum
    rw [mustSucceed_ok, and_iff_left rfl]
  have hsplit : stages env current cmd = _ :: _ :: laterStages env current cmd := rfl
  rw [hsplit, stageLines, stageLines]
  dsimp only
  rw [hdownload, hverify]
  by_cases hwget : env.wget = 0
  · rw [if_pos (hdownloaded.mpr hwget), if_pos hwget, if_pos hwget]
    by_cases hsha : env.sha256sum = 0
    · rw [if_pos (hverified.mpr hsha), if_pos hsha]
      rfl
    · rw [if_neg (mt hverified.mp hsha), if_neg hsha]
      rfl
  · rw [if_neg (mt hdownloaded.mp hwget), if_neg hwget, if_neg hwget]
    rfl

/-! ## Which lines are reached -/

def Complete (cmd : OtaCommand) : Prop := cmd.version ≠ [] ∧ cmd.url ≠ [] ∧ cmd.sha256 ≠ []

instance (cmd : OtaCommand) : Decidable (Complete cmd) := inferInstanceAs (Decidable (_ ∧ _ ∧ _))

/-- The signature of the command is checked. -/
def Verified (env : Answers) (d : Device) (cmd : OtaCommand) : Prop :=
  d.state = .idle ∧ Complete cmd ∧ versionError d.currentVersion cmd = none ∧ cmd.signature ≠ [] ∧
    env.keyTmpActive = true

/-- The artifact is downloaded. -/
def Downloaded (openssl : Text → Text → Bool) (env : Answers) (d : Device) (cmd : OtaCommand) : Prop :=
  d.state = .idle ∧ Complete cmd ∧ PassesOtherChecks env d cmd ∧
    (cmd.signature ≠ [] → OpensslAccepts openssl env d (signedMessage cmd)) ∧ env.lock = .ok true

variable (openssl : Text → Text → Bool)

theorem verifySignature_mem (env : Answers) (d : Device) (message : Text) :
    opensslCommand message ∈ commandLines (verifySignature openssl env d message).effects ↔ env.keyTmpActive = true := by
  unfold verifySignature
  rw [if_neg d.loadPublicKey_ne_nil]
  cases htmp : env.keyTmpActive with
  | false => simp [commandLines]
  | true =>
    simp only [Bool.not_true, Bool.false_eq_true, if_false, iff_true]
    split
    · split <;> exact List.mem_cons_self
    split
    · exact List.mem_cons_self
    split
    · exact List.mem_cons_self
    split <;> exact List.mem_cons_self

/-- The lines behind the lock, if it is held. -/
def lockedLines (env : Answers) (current : Version) (cmd : OtaCommand) : List Text :=
  if env.lock = .ok true then stageLines (stages env current cmd) else []

theorem underLock_lines_eq (env : Answers) (d : Device) (cmd : OtaCommand) :
    commandLines (underLock env d cmd).2 = lockedLines env d.currentVersion cmd := by
  unfold underLock lockedLines
  split
  · rename_i hlock
    rw [if_pos hlock, runStages_lines_eq]
  · rename_i hlock
    rw [if_neg (by rw [hlock]; nofun)]
    rfl
  · rename_i hlock
    rw [if_neg (by rw [hlock]; nofun)]
    rfl

/-- The device that validates a command. -/
def validating (d : Device) (cmd : OtaCommand) : Device := { d with state := .validating, pendingCmd := cmd }

/-- The lines of a call: those of the validation, and those behind the lock. -/
theorem onOtaCommand_lines_eq (env : Answers) (d : Device) (json : Text) :
    commandLines (onOtaCommand openssl env d json).2 =
      if d.state = .idle ∧ Complete (parseOtaCommand json) then
        commandLines (validate openssl env (validating d (parseOtaCommand json)) (parseOtaCommand json)).effects ++
          if (validate openssl env (validating d (parseOtaCommand json)) (parseOtaCommand json)).ok then
            lockedLines env d.currentVersion (parseOtaCommand json)
          else []
      else [] := by
  unfold onOtaCommand
  by_cases hidle : d.state = .idle
  · rw [if_neg (not_not_intro hidle)]
    dsimp only
    by_cases hcomplete : Complete (parseOtaCommand json)
    · have hgiven : ¬((parseOtaCommand json).version = [] ∨ (parseOtaCommand json).url = [] ∨
          (parseOtaCommand json).sha256 = []) := by
        rw [not_or, not_or]
        exact hcomplete
      have hreached : d.state = .idle ∧ Complete (parseOtaCommand json) := ⟨hidle, hcomplete⟩
      rw [if_neg hgiven, if_pos hreached, commandLines_append, commandLines_append]
      unfold validating
      split
      · rw [underLock_lines_eq, validate_currentVersion]
        rfl
      · rfl
    · have hmissing : (parseOtaCommand json).version = [] ∨ (parseOtaCommand json).url = [] ∨
          (parseOtaCommand json).sha256 = [] := by
        unfold Complete at hcomplete
        tauto
      have hnot : ¬(d.state = .idle ∧ Complete (parseOtaCommand json)) := fun h => hcomplete h.2
      rw [if_pos hmissing, if_neg hnot]
      rfl
  · have hnot : ¬(d.state = .idle ∧ Complete (parseOtaCommand json)) := fun h => hidle h.1
    rw [if_pos hidle, if_neg hnot]
    rfl

/-- The artifact is downloaded when the validation succeeds and the lock is held. -/
theorem downloaded_iff (env : Answers) (d : Device) (cmd : OtaCommand) : Downloaded openssl env d cmd ↔
    (d.state = .idle ∧ Complete cmd) ∧ (validate openssl env (validating d cmd) cmd).ok = true ∧ env.lock = .ok true := by
  rw [validate_ok_iff, checkSignature_ok_iff]
  constructor
  · rintro ⟨hidle, hcomplete, ⟨hversion, hdisk, hurl⟩, hsignature, hlock⟩
    exact ⟨⟨hidle, hcomplete⟩, ⟨hversion, hsignature, hdisk, hurl⟩, hlock⟩
  · rintro ⟨⟨hidle, hcomplete⟩, ⟨hversion, hsignature, hdisk, hurl⟩, hlock⟩
    exact ⟨hidle, hcomplete, ⟨hversion, hdisk, hurl⟩, hsignature, hlock⟩

/-! The lines are told apart by their first six characters. -/

theorem ownLines_head {current : Version} {text : Text} (h : text ∈ ownLines current) :
    text[0]? ≠ some 'e' ∧ text[0]? ≠ some 'w' := by
  simp only [ownLines, saving, replacing, List.cons_append, List.nil_append, List.map_cons, List.map_nil, List.mem_cons,
    List.not_mem_nil, or_false] at h
  rcases h with rfl | rfl | rfl | rfl | rfl | rfl | rfl | rfl | rfl | rfl | rfl <;>
    exact ⟨mt Option.some.inj (by decide), mt Option.some.inj (by decide)⟩

theorem verifyingOf_head {message text : Text} (h : VerifyingOf message text) :
    text[0]? ≠ some 'w' ∧ text[5]? ≠ some '"' := by
  rcases h with rfl | rfl <;> exact ⟨mt Option.some.inj (by decide), mt Option.some.inj (by decide)⟩

theorem ne_of_getElem? {text text' : Text} (i : Nat) (h : text[i]? ≠ text'[i]?) : text ≠ text' := by
  rintro rfl
  exact h rfl

/-- The line of `openssl` is none of those behind the lock. -/
theorem opensslLine_not_locked (env : Answers) (current : Version) (cmd : OtaCommand) :
    lineText (opensslLine cmd) ∉ stageLines (stages env current cmd) := by
  have hflush : Command.line .flushBufs ∈ ownLines current := mem_ownLines current .flushBufs (by simp [saving])
  have hown : ∀ line ∈ ownLines current, lineText (opensslLine cmd) ≠ line := by
    rintro line hline rfl
    exact (ownLines_head hline).1 rfl
  rw [stages_lines_eq, List.mem_cons, not_or]
  refine ⟨ne_of_getElem? 0 (mt Option.some.inj (by decide)), ?_⟩
  split
  · rw [List.mem_cons, List.mem_cons, not_or, not_or]
    refine ⟨hown _ hflush, ne_of_getElem? 5 (mt Option.some.inj (by decide)), ?_⟩
    split
    · exact fun h => hown _ (laterStages_lines env current cmd _ h) rfl
    · exact List.not_mem_nil
  · exact List.not_mem_nil

section Reached
variable {openssl} {env : Answers} {d : Device} {json line : Text}

/-- A line of a call is one of the validation, or one behind the lock. -/
theorem mem_onOtaCommand_iff :
    line ∈ commandLines (onOtaCommand openssl env d json).2 ↔
      ((d.state = .idle ∧ Complete (parseOtaCommand json)) ∧
        line ∈ commandLines (validate openssl env (validating d (parseOtaCommand json)) (parseOtaCommand json)).effects) ∨
      Downloaded openssl env d (parseOtaCommand json) ∧
        line ∈ stageLines (stages env d.currentVersion (parseOtaCommand json)) := by
  rw [onOtaCommand_lines_eq, downloaded_iff]
  unfold lockedLines
  by_cases hreached : d.state = .idle ∧ Complete (parseOtaCommand json)
  · rw [if_pos hreached, List.mem_append]
    by_cases hvalid : (validate openssl env (validating d (parseOtaCommand json)) (parseOtaCommand json)).ok = true
    · by_cases hlock : env.lock = .ok true <;> simp [hreached, hvalid, hlock]
    · simp [hreached, hvalid]
  · simp [hreached]

theorem opensslLine_reached : lineText (opensslLine (parseOtaCommand json)) ∈
    commandLines (onOtaCommand openssl env d json).2 ↔ Verified env d (parseOtaCommand json) := by
  rw [mem_onOtaCommand_iff, or_iff_left (fun h => opensslLine_not_locked _ _ _ h.2), ← opensslLine_text, validate_lines_eq,
    and_assoc]
  unfold Verified
  refine and_congr_right fun hidle => and_congr_right fun hcomplete => ?_
  have hversion : (validating d (parseOtaCommand json)).currentVersion = d.currentVersion := rfl
  rw [hversion]
  split
  · rename_i hsigned
    rw [verifySignature_mem]
    simp [hsigned]
  · rename_i hsigned
    simp only [List.not_mem_nil, false_iff]
    exact fun h => hsigned ⟨h.1, h.2.1⟩

theorem wgetLine_reached : lineText (wgetLine (parseOtaCommand json)) ∈
    commandLines (onOtaCommand openssl env d json).2 ↔ Downloaded openssl env d (parseOtaCommand json) := by
  rw [mem_onOtaCommand_iff, or_iff_right, and_iff_left]
  · rw [stages_lines_eq]
    exact List.mem_cons_self
  · rintro ⟨-, hline⟩
    exact (verifyingOf_head (validate_lines openssl env _ _ _ hline)).1 rfl

theorem checksumLine_reached : lineText (checksumLine (parseOtaCommand json)) ∈
    commandLines (onOtaCommand openssl env d json).2 ↔ Downloaded openssl env d (parseOtaCommand json) ∧ env.wget = 0 := by
  rw [mem_onOtaCommand_iff, or_iff_right]
  · refine and_congr_right fun _ => ?_
    have hwgetLine : lineText (checksumLine (parseOtaCommand json)) ≠ lineText (wgetLine (parseOtaCommand json)) :=
      ne_of_getElem? 0 (mt Option.some.inj (by decide))
    rw [stages_lines_eq, List.mem_cons, or_iff_right hwgetLine]
    split
    · rename_i hwget
      simp [hwget]
    · rename_i hwget
      simp [hwget]
  · rintro ⟨-, hline⟩
    exact (verifyingOf_head (validate_lines openssl env _ _ _ hline)).2 rfl

/-- Every line is the agent's own, or one of the three with values of the command. -/
theorem onOtaCommand_lines_cases (hline : line ∈ commandLines (onOtaCommand openssl env d json).2) :
    line ∈ ownLines d.currentVersion ∨ ∃ template ∈ templates (parseOtaCommand json), line = lineText template := by
  rcases mem_onOtaCommand_iff.mp hline with ⟨-, hvalidate⟩ | ⟨-, hlocked⟩
  · rcases validate_lines openssl env _ _ _ hvalidate with rfl | rfl
    · exact .inl List.mem_cons_self
    · exact .inr ⟨_, List.mem_cons_self, opensslLine_text _⟩
  rw [stages_lines_eq] at hlocked
  rcases List.mem_cons.mp hlocked with rfl | hlocked
  · exact .inr ⟨_, by simp [templates], rfl⟩
  split at hlocked
  · rcases List.mem_cons.mp hlocked with rfl | hlocked
    · exact .inl (mem_ownLines _ .flushBufs (by simp [saving]))
    rcases List.mem_cons.mp hlocked with rfl | hlocked
    · exact .inr ⟨_, by simp [templates], rfl⟩
    split at hlocked
    · exact .inl (laterStages_lines env _ _ _ hlocked)
    · cases hlocked
  · cases hlocked

end Reached

/-! ## Values as data -/

/-- The scheme that is asked for by name. -/
def HttpUrl (url : Text) : Prop := "http://".toList <+: url ∨ "https://".toList <+: url

/-- Each value of the command stands as data in every line of the call that holds it, and `wget` gets a URL. -/
def PassedAsData (env : Answers) (d : Device) (json : Text) : Prop :=
  (∀ line ∈ templates (parseOtaCommand json), lineText line ∈ commandLines (onOtaCommand openssl env d json).2 →
    PassesData .bare line) ∧
  (lineText (wgetLine (parseOtaCommand json)) ∈ commandLines (onOtaCommand openssl env d json).2 →
    HttpUrl (parseOtaCommand json).url)

/-- Nothing is active in the lines that are reached. -/
structure Harmless (env : Answers) (d : Device) (cmd : OtaCommand) : Prop where
  signature : Verified env d cmd → Quotable cmd.version ∧ Quotable cmd.url ∧ Quotable cmd.sha256
  download : Downloaded openssl env d cmd → Unquoted cmd.url ∧ HttpUrl cmd.url
  checksum : Downloaded openssl env d cmd → env.wget = 0 → Quotable cmd.sha256

/-- **Values as data.** Every line is the agent's own or holds values of the command; and these are passed as data, with a
URL to `wget`, exactly when their characters are harmless in the lines that are reached. -/
theorem passed_as_data_iff (env : Answers) (d : Device) (json : Text) :
    (∀ line ∈ commandLines (onOtaCommand openssl env d json).2, line ∈ ownLines d.currentVersion ∨
      ∃ template ∈ templates (parseOtaCommand json), line = lineText template) ∧
    (PassedAsData openssl env d json ↔ Harmless openssl env d (parseOtaCommand json)) := by
  refine ⟨fun line hline => onOtaCommand_lines_cases hline, ?_⟩
  unfold PassedAsData templates
  simp only [List.forall_mem_cons, List.not_mem_nil, false_imp_iff, implies_true, and_true]
  rw [opensslLine_reached, wgetLine_reached, checksumLine_reached, passesData_opensslLine, passesData_wgetLine,
    passesData_checksumLine]
  constructor
  · rintro ⟨⟨hopenssl, hwget, hchecksum⟩, hurl⟩
    exact ⟨hopenssl, fun h => ⟨hwget h, hurl h⟩, fun h hzero => hchecksum ⟨h, hzero⟩⟩
  · rintro ⟨hopenssl, hwget, hchecksum⟩
    exact ⟨⟨hopenssl, fun h => (hwget h).1, fun h => hchecksum h.1 h.2⟩, fun h => (hwget h).2⟩

def rebooting : Text :=
  "\x7b\"version\":\"9.9.9\",\"url\":\"http://e;reboot\",\"sha256\":\"0\"\x7d".toList

/-- A URL with a second command behind it goes to the shell as it is. -/
theorem url_ends_command : ¬∀ openssl env d json, PassedAsData openssl env d json := by
  intro h
  have hline := (h (fun _ _ => false) allWell (.start none none) rebooting).1 (wgetLine (parseOtaCommand rebooting))
    (by simp [templates]) (by decide +kernel)
  rw [passesData_wgetLine] at hline
  have hsemicolon : ';' ∈ (parseOtaCommand rebooting).url := by decide +kernel
  exact absurd (hline ';' hsemicolon) (by decide)

end IbarraGateway.Ota
