import IbarraGateway.Ota.Injection

/-!
# Power loss

The files under a sequence of commands, each of which may end anywhere: a step fails, the process is killed, or the power
goes in the middle of a command line. Renames within `/userdata` happen or do not happen; a download, a copy and the output
of `sha256sum` can be left in any state. The commands are harmless: no value has a character that the shell acts on in a line
that is reached, so the programs are called with the values, and a line of the verification changes no file.

* `onLine_issues` : a line of the FIFO issues the lines of its verification and a beginning of its installation.
* `binary_always_whole` : what `kBinaryPath` holds, at every moment of every run.
-/

namespace IbarraGateway.Ota

/-! ## Commands that are cut -/

/-- The paths that a command which does not end well leaves in any state. -/
def Command.tornPaths : Command → List Text
  | wget out _ => [out]
  | cp _ dst => [dst]
  | sha256sum _ out => [out]
  | _ => []

/-- Nothing waits for these to succeed. -/
def Command.Ignored : Command → Prop
  | sha256sum _ _ => True
  | chmod _ => True
  | flushBufs => True
  | resetBootcount => True
  | _ => False

/-- What a command that does not end well may leave. -/
def Torn (command : Command) (fs fs' : Files) : Prop := ∀ path, path ∉ command.tornPaths → fs' path = fs path

section
variable (sha256 : Text → Text)

/-- Commands that were all run, so those that must succeed did. What `wget` receives is free. -/
inductive Through : List Command → Files → Files → Prop
  | nil (fs : Files) : Through [] fs fs
  | done {command : Command} {commands : List Command} {artifact : Text} {fs fs₁ fs' : Files}
      (hperform : command.perform sha256 artifact fs = some fs₁) (hrest : Through commands fs₁ fs') :
      Through (command :: commands) fs fs'
  | ignored {command : Command} {commands : List Command} {fs fs₁ fs' : Files} (hignored : command.Ignored)
      (htorn : Torn command fs fs₁) (hrest : Through commands fs₁ fs') : Through (command :: commands) fs fs'

/-- Commands of which the last may not have ended well. -/
inductive Ran (commands : List Command) (fs fs' : Files) : Prop
  | whole (hthrough : Through sha256 commands fs fs')
  | cut {before : List Command} {last : Command} {fs₁ : Files} (heq : commands = before ++ [last])
      (hthrough : Through sha256 before fs fs₁) (htorn : Torn last fs₁ fs')

end

/-! ## The lines of a command that ends anywhere -/

/-- A beginning of the lines, all of them when it succeeds. -/
def Issues (r : Bool × List Effect) (lines : List Text) : Prop :=
  commandLines r.2 <+: lines ∧ (r.1 = true → commandLines r.2 = lines)

theorem mustSucceed_issues {command error : Text} {rc : Int} {next : Bool × List Effect} {lines : List Text}
    (h : Issues next lines) : Issues (mustSucceed command rc error next) (command :: lines) := by
  rw [Issues, mustSucceed_lines_eq, mustSucceed_ok]
  by_cases hrc : rc = 0
  · rw [if_pos hrc]
    exact ⟨List.cons_prefix_cons.mpr ⟨rfl, h.1⟩, fun hok => by rw [h.2 hok.2]⟩
  · rw [if_neg hrc]
    exact ⟨List.cons_prefix_cons.mpr ⟨rfl, List.nil_prefix⟩, fun hok => absurd hok.1 hrc⟩

/-- A run of stages ends in one of them. -/
theorem runStages_issues (version : Text) {sts : List Stage} {lines : List (List Text)}
    (h : List.Forall₂ (fun stage lines => Issues stage.run lines) sts lines) (d : Device) :
    commandLines (runStages version d sts).2 <+: lines.flatten := by
  induction h generalizing d with
  | nil => exact List.prefix_refl _
  | @cons stage first rest others hfirst _ ih =>
    rw [runStages, List.flatten_cons]
    dsimp only
    cases hrun : stage.run.1 with
    | false =>
      rw [if_neg (by simp), commandLines_append]
      have hfail : commandLines (({ d with state := stage.state, lockHeld := false } : Device).fail version stage.failure).2 = [] :=
        rfl
      rw [hfail, List.append_nil]
      exact hfirst.1.trans (List.prefix_append _ _)
    | true =>
      rw [if_pos rfl, commandLines_append]
      have hwhole : commandLines (.enter stage.state version :: .report stage.status stage.announcement :: stage.run.2) =
          first := hfirst.2 hrun
      rw [hwhole]
      exact List.prefix_append_right_inj first |>.mpr (ih { d with state := stage.state })

theorem stages_issue (env : Answers) (current : Version) (cmd : OtaCommand) :
    List.Forall₂ (fun stage lines => Issues stage.run lines) (stages env current cmd)
      (([[.wget tempArtifact cmd.url, .flushBufs], [.sha256sumCheck cmd.sha256 tempArtifact], saving current,
        [.mv tempArtifact finalBinary, .mv finalBinary binaryPath, .chmod binaryPath, .flushBufs],
        [.systemctl "restart".toList], [.systemctl "is-active".toList, .resetBootcount]] : List (List Command)).map
          (List.map Command.line)) := by
  have hwhole (ok : Bool) (effects : List Effect) : Issues (ok, effects) (commandLines effects) :=
    ⟨List.prefix_refl _, fun _ => rfl⟩
  refine .cons (mustSucceed_issues (hwhole _ _)) (.cons (mustSucceed_issues (hwhole _ _)) (.cons ?_ (.cons
    (mustSucceed_issues (mustSucceed_issues (hwhole _ _))) (.cons (mustSucceed_issues (hwhole _ _)) (.cons
      (mustSucceed_issues (hwhole _ _)) .nil)))))
  refine mustSucceed_issues ?_
  have hlines := hwhole true (.system (Command.line (.sha256sum (backupFile current) (backupFile current ++ ".sha256".toList))) ::
    (if env.backupSha256 ≠ 0 then
      [.report "warning".toList ("Could not generate backup SHA-256 (exit code ".toList ++ exitCode env.backupSha256 ++ [')'])]
    else []) ++ [flushBufs])
  rw [warning_lines] at hlines
  rw [sha256sum_line] at hlines
  simp only [List.map_cons, List.map_nil, sha256sum_line]
  exact hlines

theorem underLock_issues (env : Answers) (d : Device) (cmd : OtaCommand) :
    commandLines (underLock env d cmd).2 <+: (installation cmd d.currentVersion).map Command.line := by
  unfold underLock
  split
  · have hissues := runStages_issues cmd.version (stages_issue env d.currentVersion cmd) { d with lockHeld := true }
    rwa [← List.map_flatten] at hissues
  · exact List.nil_prefix
  · exact List.nil_prefix

variable (openssl : Text → Text → Bool)

/-- The command that gets past the guard and the validation. -/
def validated (d : Device) (text : Text) (env : Answers) : Option OtaCommand :=
  if d.state = .idle ∧
      (validate openssl env { d with state := .validating, pendingCmd := parseOtaCommand text } (parseOtaCommand text)).ok then
    some (parseOtaCommand text)
  else none

/-- Lines of verifications, and then the first commands of the installation of a validated command. -/
structure IssuedBy (cmd : Option OtaCommand) (current : Version) (lines : List Text) (commands : List Command) : Prop where
  lines_eq : ∃ checks, (∀ line ∈ checks, Verifying line) ∧ lines = checks ++ commands.map Command.line
  installing : commands = [] ∨ ∃ c, cmd = some c ∧ commands <+: installation c current

theorem prefix_map_iff {α β : Type} {f : α → β} {l : List α} {l' : List β} (h : l' <+: l.map f) :
    ∃ front, front <+: l ∧ l' = front.map f := by
  rw [List.prefix_iff_eq_take] at h
  exact ⟨l.take l'.length, List.take_prefix _ _, by rw [List.map_take]; exact h⟩

theorem onLine_issues (env : Answers) (d : Device) (text : Text) :
    ∃ commands, IssuedBy (validated openssl d text env) d.currentVersion (commandLines (onLine openssl env d text).2) commands := by
  have hnone : IssuedBy (validated openssl d text env) d.currentVersion [] [] :=
    ⟨⟨[], by simp, rfl⟩, .inl rfl⟩
  unfold onLine
  split
  · exact ⟨[], hnone⟩
  · unfold onOtaCommand
    split
    · exact ⟨[], hnone⟩
    · rename_i hidle
      dsimp only
      split
      · exact ⟨[], hnone⟩
      · generalize hvalid : validate openssl env { d with state := .validating, pendingCmd := parseOtaCommand text }
          (parseOtaCommand text) = valid
        have hchecks : ∀ line ∈ commandLines valid.effects, Verifying line := fun line hline =>
          (validate_lines openssl env { d with state := .validating, pendingCmd := parseOtaCommand text } _ line
            (by rw [hvalid]; exact hline)).verifying
        have hcurrent : valid.device.currentVersion = d.currentVersion := by
          rw [← hvalid, validate_currentVersion]
        have hlines (h : List Effect) : commandLines ([.enter .validating (parseOtaCommand text).version,
            .report "validating".toList ("Validating OTA update to version ".toList ++ (parseOtaCommand text).version)] ++
              valid.effects ++ h) = commandLines valid.effects ++ commandLines h := by
          rw [commandLines_append, commandLines_append]
          rfl
        rw [hlines]
        split
        · rename_i hok
          obtain ⟨commands, hprefix, heq⟩ := prefix_map_iff (underLock_issues env valid.device (parseOtaCommand text))
          rw [hcurrent] at hprefix
          refine ⟨commands, ⟨_, hchecks, by rw [heq]⟩, .inr ⟨_, if_pos ⟨not_not.mp hidle, ?_⟩, hprefix⟩⟩
          rw [hvalid]
          exact hok
        · exact ⟨[], ⟨_, hchecks, rfl⟩, .inl rfl⟩

/-- The command of an input that gets past the guard and the validation. -/
def accepted (d : Device) : Input → Option OtaCommand
  | .line text env => validated openssl d text env
  | .killed text env _ => validated openssl d text env
  | .restart => none

/-- Less is issued where the process ends early. -/
theorem IssuedBy.take {cmd : Option OtaCommand} {current : Version} {lines : List Text} {commands : List Command}
    (h : IssuedBy cmd current lines commands) (n : Nat) : ∃ fewer, IssuedBy cmd current (lines.take n) fewer := by
  obtain ⟨checks, hchecks, rfl⟩ := h.lines_eq
  refine ⟨commands.take (n - checks.length), ⟨checks.take n, fun line hline => hchecks line (List.mem_of_mem_take hline), ?_⟩, ?_⟩
  · rw [List.take_append, List.map_take]
  · rcases h.installing with rfl | ⟨c, hc, hprefix⟩
    · exact .inl List.take_nil
    · exact .inr ⟨c, hc, (List.take_prefix _ _).trans hprefix⟩

/-- **Step lemma** for the lines. -/
theorem step_issues {d d' : Device} {a : Input} {h : List Effect} (hstep : (mainOta openssl).step d a = some (d', h)) :
    ∃ commands, IssuedBy (accepted openssl d a) d.currentVersion (commandLines h) commands := by
  cases a with
  | line text env =>
    have heffects : (onLine openssl env d text).2 = h := congrArg Prod.snd (Option.some.inj hstep)
    rw [← heffects]
    exact onLine_issues openssl env d text
  | killed text env effects =>
    have heffects : (onLine openssl env d text).2.take effects = h := congrArg Prod.snd (Option.some.inj hstep)
    rw [← heffects]
    obtain ⟨commands, hissued⟩ := onLine_issues openssl env d text
    have hprefix : commandLines ((onLine openssl env d text).2.take effects) <+: commandLines (onLine openssl env d text).2 :=
      (List.take_prefix _ _).filterMap _
    rw [List.prefix_iff_eq_take.mp hprefix]
    exact hissued.take _
  | restart =>
    cases hstep
    exact ⟨[], ⟨[], by simp, rfl⟩, .inl rfl⟩

/-! ## The files of a command that ends anywhere -/

section
variable {sha256 : Text → Text} {fs fs' : Files}

/-- A command that was run and is followed by another. -/
def Ended (sha256 : Text → Text) (command : Command) (fs fs' : Files) : Prop :=
  (∃ artifact, command.perform sha256 artifact fs = some fs') ∨ command.Ignored ∧ Torn command fs fs'

theorem through_cons_iff {command : Command} {commands : List Command} :
    Through sha256 (command :: commands) fs fs' ↔ ∃ fs₁, Ended sha256 command fs fs₁ ∧ Through sha256 commands fs₁ fs' := by
  constructor
  · intro h
    cases h with
    | done hperform hrest => exact ⟨_, .inl ⟨_, hperform⟩, hrest⟩
    | ignored hignored htorn hrest => exact ⟨_, .inr ⟨hignored, htorn⟩, hrest⟩
  · rintro ⟨fs₁, ⟨artifact, hperform⟩ | ⟨hignored, htorn⟩, hrest⟩
    · exact .done hperform hrest
    · exact .ignored hignored htorn hrest

theorem through_append_iff {first second : List Command} :
    Through sha256 (first ++ second) fs fs' ↔ ∃ fs₁, Through sha256 first fs fs₁ ∧ Through sha256 second fs₁ fs' := by
  induction first generalizing fs with
  | nil =>
    constructor
    · exact fun h => ⟨fs, .nil fs, h⟩
    · rintro ⟨fs₁, hnil, h⟩
      cases hnil
      exact h
  | cons command first ih =>
    rw [List.cons_append, through_cons_iff]
    constructor
    · rintro ⟨fs₁, hended, hrest⟩
      obtain ⟨fs₂, hfirst, hsecond⟩ := ih.mp hrest
      exact ⟨fs₂, through_cons_iff.mpr ⟨fs₁, hended, hfirst⟩, hsecond⟩
    · rintro ⟨fs₂, hfirst, hsecond⟩
      obtain ⟨fs₁, hended, hrest⟩ := through_cons_iff.mp hfirst
      exact ⟨fs₁, hended, ih.mpr ⟨fs₂, hrest, hsecond⟩⟩

/-- Commands that all succeed were all run. -/
theorem through_of_execute {artifact : Text} {commands : List Command}
    (h : execute sha256 artifact commands fs = some fs') : Through sha256 commands fs fs' := by
  induction commands generalizing fs with
  | nil =>
    cases h
    exact .nil _
  | cons command commands ih =>
    obtain ⟨fs₁, hperform, hrest⟩ := execute_cons_iff.mp h
    exact .done hperform (ih hrest)

theorem Torn.frame {command : Command} (h : Torn command fs fs') {path : Text} (hpath : path ∉ command.writes) :
    fs' path = fs path := by
  refine h path fun hmem => hpath ?_
  cases command with
  | wget out url => exact hmem
  | cp src dst => exact hmem
  | sha256sum file out => exact hmem
  | _ => exact absurd hmem List.not_mem_nil

theorem Ended.frame {command : Command} (h : Ended sha256 command fs fs') {path : Text} (hpath : path ∉ command.writes) :
    fs' path = fs path := by
  rcases h with ⟨artifact, hperform⟩ | ⟨-, htorn⟩
  · exact Command.perform_frame hperform hpath
  · exact htorn.frame hpath

theorem Through.frame {commands : List Command} (h : Through sha256 commands fs fs') {path : Text}
    (hpath : ∀ command ∈ commands, path ∉ command.writes) : fs' path = fs path := by
  induction commands generalizing fs with
  | nil =>
    cases h
    rfl
  | cons command commands ih =>
    obtain ⟨fs₁, hended, hrest⟩ := through_cons_iff.mp h
    obtain ⟨hnow, hlater⟩ := List.forall_mem_cons.mp hpath
    rw [ih hrest hlater, hended.frame hnow]

theorem Ran.frame {commands : List Command} (h : Ran sha256 commands fs fs') {path : Text}
    (hpath : ∀ command ∈ commands, path ∉ command.writes) : fs' path = fs path := by
  cases h with
  | whole hthrough => exact hthrough.frame hpath
  | cut heq hthrough htorn =>
    subst heq
    rw [htorn.frame (hpath _ (by simp)), hthrough.frame fun command hmem => hpath command (List.mem_append_left _ hmem)]

/-- What is followed by a command was run to its end. -/
theorem Ran.split (first : List Command) {second : List Command} (h : Ran sha256 (first ++ second) fs fs') (hne : second ≠ []) :
    ∃ fs₁, Through sha256 first fs fs₁ ∧ Ran sha256 second fs₁ fs' := by
  cases h with
  | whole hthrough =>
    obtain ⟨fs₁, hfirst, hsecond⟩ := through_append_iff.mp hthrough
    exact ⟨fs₁, hfirst, .whole hsecond⟩
  | @cut before last fs₂ heq hthrough htorn =>
    rw [← List.dropLast_append_getLast hne, ← List.append_assoc] at heq
    obtain ⟨rfl, hlast⟩ := List.append_inj' heq rfl
    obtain ⟨fs₁, hfirst, hsecond⟩ := through_append_iff.mp hthrough
    refine ⟨fs₁, hfirst, .cut (List.dropLast_append_getLast hne).symm hsecond ?_⟩
    rw [List.head_eq_of_cons_eq hlast]
    exact htorn

/-! ## The binary of the agent -/

/-- The commands up to the rename that puts the new binary in its place. -/
def preparing (cmd : OtaCommand) (current : Version) : List Command :=
  fetching cmd ++ saving current ++ [.mv tempArtifact finalBinary]

def afterRename : List Command :=
  [.chmod binaryPath, .flushBufs, .systemctl "restart".toList, .systemctl "is-active".toList, .resetBootcount]

theorem installation_eq (cmd : OtaCommand) (current : Version) :
    installation cmd current = preparing cmd current ++ .mv finalBinary binaryPath :: afterRename := by
  simp only [installation, preparing, replacing, afterRename, List.append_assoc, List.cons_append, List.nil_append]

/-- A path that no part of an update but the last rename names. -/
theorem not_mem_preparing {path : Text} (hb : path[1]? ≠ some 'b') (htemp : path ≠ tempArtifact) (hfinal : path ≠ finalBinary)
    (cmd : OtaCommand) (current : Version) : ∀ command ∈ preparing cmd current, path ∉ command.writes := by
  have hbackup := ne_backupFile hb current []
  rw [List.append_nil] at hbackup
  simpa [preparing, fetching, saving, Command.writes] using ⟨htemp, hbackup, ne_backupFile hb current _, htemp, hfinal⟩

/-- What is renamed into place was verified. -/
theorem Through.preparing_files {cmd : OtaCommand} {current : Version} (h : Through sha256 (preparing cmd current) fs fs') :
    ∃ contents, fs' finalBinary = some contents ∧ sha256 contents = cmd.sha256 := by
  obtain ⟨fs₂, hready, hmv⟩ := through_append_iff.mp h
  obtain ⟨fs₁, hfetch, hsave⟩ := through_append_iff.mp hready
  have hverified : ∃ contents, fs₁ tempArtifact = some contents ∧ sha256 contents = cmd.sha256 := by
    obtain ⟨_, -, hrest⟩ := through_cons_iff.mp hfetch
    obtain ⟨fs₃, -, hrest⟩ := through_cons_iff.mp hrest
    obtain ⟨_, hcheck, hnil⟩ := through_cons_iff.mp hrest
    cases hnil
    rcases hcheck with ⟨artifact, hperform⟩ | ⟨hignored, -⟩
    · obtain ⟨contents, hread, hcheck⟩ := Option.bind_eq_some_iff.mp hperform
      split at hcheck
      · rename_i hequal
        cases hcheck
        exact ⟨contents, hread, hequal⟩
      · cases hcheck
    · exact False.elim hignored
  obtain ⟨contents, htemp, hequal⟩ := hverified
  have hkept : fs₂ tempArtifact = fs₁ tempArtifact := by
    have hnot : tempArtifact[1]? ≠ some 'b' := by decide
    have hbackup := ne_backupFile hnot current []
    rw [List.append_nil] at hbackup
    exact hsave.frame (by simpa [saving, Command.writes] using ⟨hbackup, ne_backupFile hnot current _⟩)
  obtain ⟨_, hmoved, hnil⟩ := through_cons_iff.mp hmv
  cases hnil
  rcases hmoved with ⟨artifact, hperform⟩ | ⟨hignored, -⟩
  · obtain ⟨moved, hmoved, rfl⟩ := perform_mv_iff.mp hperform
    rw [hkept, htemp] at hmoved
    cases hmoved
    exact ⟨contents, Function.update_self _ _ _, hequal⟩
  · exact False.elim hignored

/-- **Command lemma**: wherever an update ends, the binary is the old one or a verified one. -/
theorem Ran.binary {cmd : OtaCommand} {current : Version} {commands : List Command} (hcommands : commands <+: installation cmd current)
    (h : Ran sha256 commands fs fs') :
    fs' binaryPath = fs binaryPath ∨ ∃ contents, fs' binaryPath = some contents ∧ sha256 contents = cmd.sha256 := by
  have hunnamed : ∀ command ∈ preparing cmd current, binaryPath ∉ command.writes :=
    not_mem_preparing (by decide) (by decide) (by decide) cmd current
  have hfront : preparing cmd current <+: installation cmd current := by
    rw [installation_eq]
    exact List.prefix_append _ _
  rcases List.prefix_or_prefix_of_prefix hcommands hfront with hshort | ⟨rest, rfl⟩
  · exact .inl (h.frame fun command hmem => hunnamed command (hshort.subset hmem))
  · rw [installation_eq, List.prefix_append_right_inj] at hcommands
    rcases rest with _ | ⟨last, rest⟩
    · rw [List.append_nil] at h
      exact .inl (h.frame hunnamed)
    · obtain ⟨rfl, hrest⟩ := List.cons_prefix_cons.mp hcommands
      obtain ⟨fs₁, hready, hran⟩ := h.split _ (by simp)
      have hold := hready.frame hunnamed
      obtain ⟨contents, hfinal, hequal⟩ := hready.preparing_files
      have hlater : ∀ command ∈ rest, binaryPath ∉ command.writes := fun command hmem => by
        have hafter := hrest.subset hmem
        simp only [afterRename, List.mem_cons, List.not_mem_nil, or_false] at hafter
        rcases hafter with rfl | rfl | rfl | rfl | rfl <;> simp [Command.writes]
      have hrenamed {fs₂ : Files} (hended : Ended sha256 (.mv finalBinary binaryPath) fs₁ fs₂) : fs₂ binaryPath = some contents := by
        rcases hended with ⟨artifact, hperform⟩ | ⟨hignored, -⟩
        · obtain ⟨moved, hmoved, rfl⟩ := perform_mv_iff.mp hperform
          rw [hfinal] at hmoved
          cases hmoved
          exact Function.update_self _ _ _
        · exact False.elim hignored
      rcases List.eq_nil_or_concat rest with rfl | hmore
      · cases hran with
        | whole hthrough =>
          obtain ⟨_, hended, hnil⟩ := through_cons_iff.mp hthrough
          cases hnil
          exact .inr ⟨contents, hrenamed hended, hequal⟩
        | @cut before last fs₂ heq hthrough htorn =>
          -- the rename itself is cut, and has not happened
          obtain ⟨rfl, hlast⟩ : before = [] ∧ [last] = [.mv finalBinary binaryPath] :=
            List.append_inj' (by rw [List.nil_append, ← heq]) rfl
          cases hlast
          cases hthrough
          exact .inl ((htorn binaryPath List.not_mem_nil).trans hold)
      · have hne : rest ≠ [] := by
          rintro rfl
          obtain ⟨_, _, hcontra⟩ := hmore
          simp at hcontra
        obtain ⟨fs₂, hthrough, hran⟩ := Ran.split [.mv finalBinary binaryPath] hran hne
        obtain ⟨_, hended, hnil⟩ := through_cons_iff.mp hthrough
        cases hnil
        rw [hran.frame hlater]
        exact .inr ⟨contents, hrenamed hended, hequal⟩

theorem Ran.visionBin {cmd : OtaCommand} {current : Version} {commands : List Command}
    (hcommands : commands <+: installation cmd current) (h : Ran sha256 commands fs fs') : fs' visionBin = fs visionBin := by
  refine h.frame fun command hmem => ?_
  have hinstall := hcommands.subset hmem
  rw [installation_eq, List.mem_append, List.mem_cons] at hinstall
  rcases hinstall with hinstall | rfl | hinstall
  · exact not_mem_preparing (by decide) (by decide) (by decide) cmd current command hinstall
  · decide
  · simp only [afterRename, List.mem_cons, List.not_mem_nil, or_false] at hinstall
    rcases hinstall with rfl | rfl | rfl | rfl | rfl <;> simp [Command.writes]

end

/-! ## Runs -/

/-- The shell takes the values of the command for themselves, in every line that it is given. -/
def Input.Harmless (d : Device) : Input → Prop
  | .line text env => Ota.Harmless openssl env d (parseOtaCommand text)
  | .killed text env _ => Ota.Harmless openssl env d (parseOtaCommand text)
  | .restart => True

/-- A run of the agent and its files, with the commands that were let through. -/
inductive History (sha256 : Text → Text) (d₀ : Device) (fs₀ : Files) : List OtaCommand → Device → Files → Prop
  | start : History sha256 d₀ fs₀ [] d₀ fs₀
  | step {cmds : List OtaCommand} {d d' : Device} {fs fs' : Files} {a : Input} {h : List Effect} {commands : List Command}
      (hhistory : History sha256 d₀ fs₀ cmds d fs) (hharmless : a.Harmless openssl d)
      (hstep : (mainOta openssl).step d a = some (d', h))
      (hissued : IssuedBy (accepted openssl d a) d.currentVersion (commandLines h) commands)
      (hran : Ran sha256 commands fs fs') : History sha256 d₀ fs₀ (cmds ++ (accepted openssl d a).toList) d' fs'

/-- **The binary is always whole.** At every moment of every run of harmless commands, wherever they are cut, the agent's binary
is the one it had at the start or has the checksum of a command that was let through, and the service's is as it was. -/
theorem binary_always_whole (sha256 : Text → Text) (d₀ d : Device) (fs₀ fs : Files) (agent : Text) (cmds : List OtaCommand)
    (hagent : fs₀ binaryPath = some agent) (hhistory : History openssl sha256 d₀ fs₀ cmds d fs) :
    (∃ contents, fs binaryPath = some contents ∧ (contents = agent ∨ ∃ cmd ∈ cmds, sha256 contents = cmd.sha256)) ∧
      fs visionBin = fs₀ visionBin := by
  induction hhistory with
  | start => exact ⟨⟨agent, hagent, .inl rfl⟩, rfl⟩
  | @step cmds d d' fs fs' a h commands _ _ _ hissued hran ih =>
    obtain ⟨⟨contents, hbinary, hwhole⟩, hvision⟩ := ih
    have hkept : contents = agent ∨ ∃ cmd ∈ cmds ++ (accepted openssl d a).toList, sha256 contents = cmd.sha256 :=
      hwhole.imp_right fun ⟨cmd, hcmd, hequal⟩ => ⟨cmd, List.mem_append_left _ hcmd, hequal⟩
    rcases hissued.installing with rfl | ⟨cmd, hcmd, hprefix⟩
    · have hsame (path : Text) : fs' path = fs path := hran.frame (by simp)
      rw [hsame, hsame]
      exact ⟨⟨contents, hbinary, hkept⟩, hvision⟩
    · rw [hran.visionBin hprefix]
      refine ⟨?_, hvision⟩
      rcases hran.binary hprefix with hold | ⟨new, hnew, hequal⟩
      · exact ⟨contents, hold.trans hbinary, hkept⟩
      · refine ⟨new, hnew, .inr ⟨cmd, List.mem_append_right _ ?_, hequal⟩⟩
        rw [hcmd]
        exact List.mem_singleton_self cmd

/-- The power goes in front of the last rename. -/
theorem cut_rename_whole : ∃ fs : Files,
    (∃ contents, fs binaryPath = some contents ∧
      (contents = "agent".toList ∨ ∃ cmd ∈ [parseOtaCommand unsigned], knownSha256 contents = cmd.sha256)) ∧
      fs visionBin = installed "vision".toList "agent".toList visionBin := by
  have hsome : (execute knownSha256 "new".toList (preparing (parseOtaCommand unsigned) ⟨0, 0, 0⟩)
      (installed "vision".toList "agent".toList)).isSome = true := by decide +kernel
  obtain ⟨fs, hfiles⟩ := Option.isSome_iff_exists.mp hsome
  have hissued : IssuedBy (accepted (fun _ _ => false) (.start none none) (.killed unsigned allWell 19)) ⟨0, 0, 0⟩
      (commandLines ((onLine (fun _ _ => false) allWell (.start none none) unsigned).2.take 19))
      (preparing (parseOtaCommand unsigned) ⟨0, 0, 0⟩ ++ [.mv finalBinary binaryPath]) :=
    ⟨⟨[], by simp, by decide +kernel⟩, .inr ⟨parseOtaCommand unsigned, by decide +kernel, by decide +kernel⟩⟩
  have hharmless : (Input.killed unsigned allWell 19).Harmless (fun _ _ => false) (.start none none) := by
    refine ⟨fun hverified => absurd hverified.2.2.2.1 (by decide +kernel), fun _ => ⟨?_, .inl (by decide +kernel)⟩, fun _ _ => ?_⟩
    · show Unquoted (parseOtaCommand unsigned).url
      decide +kernel
    · show Quotable (parseOtaCommand unsigned).sha256
      decide +kernel
  have haccepted : [] ++ (accepted (fun _ _ => false) (.start none none) (.killed unsigned allWell 19)).toList =
      [parseOtaCommand unsigned] := by decide +kernel
  have hhistory := History.step .start hharmless rfl hissued
    (.cut rfl (through_of_execute hfiles) fun _ _ => rfl)
  rw [haccepted] at hhistory
  exact ⟨fs, binary_always_whole (fun _ _ => false) knownSha256 (.start none none) _ _ fs "agent".toList _ (by decide +kernel)
    hhistory⟩

end IbarraGateway.Ota
