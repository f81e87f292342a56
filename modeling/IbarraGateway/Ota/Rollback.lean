import IbarraGateway.Ota.Authenticity

/-!
# No way back to an older version

`on_ota_command` compares with `current_version_`, which no step ever sets: a new process starts from `0.0.0`. What stops
a second command within one process is the state alone, as `SUCCESS` is never left (`onOtaCommand_of_ne_idle`). So the
device does not go back as long as a process that starts after an update is not given an older version
(`OnlyNewerAccepted`).
-/

namespace IbarraGateway.Ota

variable (openssl : Text → Text → Bool)

/-- The version of the last update that completed. -/
def lastSuccess (h : List Effect) : Option Text :=
  h.reverse.findSome? fun
    | .enter .success version => some version
    | _ => none

/-- No command reaches the apply step unless its version is greater than that of the last completed update. -/
def NoRollback (h : List Effect) : Prop :=
  ∀ before version after last, h = before ++ .enter .applying version :: after → lastSuccess before = some last →
    (parseVersion version).greater (parseVersion last) = true

def IsSuccess (e : Effect) : Prop := ∃ version, e = .enter .success version

theorem lastSuccess_append {h out : List Effect} (hnone : ∀ e ∈ out, ¬ IsSuccess e) :
    lastSuccess (h ++ out) = lastSuccess h := by
  have hout : out.reverse.findSome? (fun
      | .enter .success version => some version
      | _ => none) = none := by
    rw [List.findSome?_eq_none_iff]
    intro e he
    split
    · exact absurd ⟨_, rfl⟩ (hnone _ (List.mem_reverse.mp he))
    · rfl
  unfold lastSuccess
  rw [List.reverse_append, List.findSome?_append, hout, Option.none_or]

/-! ## A completed update is the end -/

/-- An update completes with its last effects, in the state `SUCCESS`, or not at all. -/
def EndsInSuccess (r : Device × List Effect) : Prop :=
  (∀ e ∈ r.2, ¬ IsSuccess e) ∨
    r.1.state = .success ∧ ∃ before status message version, (∀ e ∈ before, ¬ IsSuccess e) ∧
      r.2 = before ++ [.enter .success version, .report status message]

theorem EndsInSuccess.prepend {r : Device × List Effect} (hr : EndsInSuccess r) {effects : List Effect}
    (h : ∀ e ∈ effects, ¬ IsSuccess e) : EndsInSuccess (r.1, effects ++ r.2) := by
  rcases hr with hnone | ⟨hstate, before, status, message, version, hbefore, heq⟩
  · left
    intro e he
    rcases List.mem_append.mp he with he | he
    · exact h e he
    · exact hnone e he
  · right
    refine ⟨hstate, effects ++ before, status, message, version, fun e he => ?_, by rw [heq, List.append_assoc]⟩
    rcases List.mem_append.mp he with he | he
    · exact h e he
    · exact hbefore e he

theorem EndsInSuccess.cons {r : Device × List Effect} (hr : EndsInSuccess r) {e : Effect} (h : ¬ IsSuccess e) :
    EndsInSuccess (r.1, e :: r.2) :=
  hr.prepend (List.forall_mem_singleton.mpr h)

theorem EndsInSuccess.none_before {r : Device × List Effect} (hr : EndsInSuccess r) {before after : List Effect}
    {version : Text} (h : r.2 = before ++ .enter .applying version :: after) : ∀ e ∈ before, ¬ IsSuccess e := by
  intro e he
  rcases hr with hnone | ⟨-, pre, status, message, v, hpre, heq⟩
  · exact hnone e (by rw [h]; exact List.mem_append_left _ he)
  rcases List.append_eq_append_iff.mp (h.symm.trans heq) with ⟨x, rfl, -⟩ | ⟨x, rfl, hx⟩
  · exact hpre e (List.mem_append_left _ he)
  · -- the apply step would stand in the last two effects
    exfalso
    have hmem : Effect.enter .applying version ∈ [Effect.enter .success v, .report status message] := by
      rw [hx]
      simp
    simp at hmem

def IsEnter (e : Effect) : Prop := ∃ state version, e = .enter state version

theorem IsSuccess.isEnter {e : Effect} (h : IsSuccess e) : IsEnter e := ⟨.success, h⟩

theorem Effect.Outward.not_enter {e : Effect} (h : e.Outward) : ¬ IsEnter e := by
  rintro ⟨state, version, rfl⟩
  exact h

theorem fail_ends (d : Device) (version message : Text) : EndsInSuccess (d.fail version message) := by
  left
  intro e he
  rcases List.mem_pair.mp he with rfl | rfl
  · exact nofun
  · exact nofun

theorem runStages_ends (version : Text) (d : Device) (sts : List Stage)
    (h : ∀ stage ∈ sts, stage.state ≠ .success ∧ ∀ e ∈ stage.run.2, e.Outward) :
    EndsInSuccess (runStages version d sts) := by
  induction sts generalizing d with
  | nil => exact Or.inr ⟨rfl, [], _, _, version, by simp, rfl⟩
  | cons stage rest ih =>
    obtain ⟨hstate, hout⟩ := h stage List.mem_cons_self
    have hbegun : ∀ e ∈ Effect.enter stage.state version :: .report stage.status stage.announcement :: stage.run.2,
        ¬ IsSuccess e := by
      intro e he
      rcases List.mem_cons.mp he with rfl | he
      · rintro ⟨v, heq⟩
        exact hstate (Effect.enter.inj heq).1
      rcases List.mem_cons.mp he with rfl | he
      · exact nofun
      · exact fun hsuccess => (hout e he).not_enter hsuccess.isEnter
    unfold runStages
    refine EndsInSuccess.prepend ?_ hbegun
    split
    · exact ih _ fun s hs => h s (List.mem_cons_of_mem _ hs)
    · exact fail_ends _ _ _

theorem underLock_ends (env : Answers) (d : Device) (cmd : OtaCommand) : EndsInSuccess (underLock env d cmd) := by
  unfold underLock
  split
  · exact runStages_ends _ _ _ (stages_outward env _ cmd)
  · exact (fail_ends d _ _).cons nofun
  · exact (fail_ends d _ _).cons nofun

/-- What is entered is the version of the command. -/
theorem runStages_version (version : Text) (d : Device) (sts : List Stage)
    (h : ∀ stage ∈ sts, stage.state ≠ .success ∧ ∀ e ∈ stage.run.2, e.Outward) {s : State} {v : Text}
    (hmem : .enter s v ∈ (runStages version d sts).2) : v = version := by
  induction sts generalizing d with
  | nil => simp_all [runStages]
  | cons stage rest ih =>
    have hout := (h stage List.mem_cons_self).2
    have hrest : ∀ s ∈ rest, s.state ≠ .success ∧ ∀ e ∈ s.run.2, e.Outward :=
      fun s hs => h s (List.mem_cons_of_mem _ hs)
    unfold runStages at hmem
    rcases List.mem_append.mp hmem with hbegun | hlater
    · rcases List.mem_cons.mp hbegun with heq | hbegun
      · exact (Effect.enter.inj heq).2
      rcases List.mem_cons.mp hbegun with heq | hbegun
      · cases heq
      · exact False.elim (hout _ hbegun)
    · split at hlater
      · exact ih _ hrest hlater
      · simp_all [Device.fail]

theorem underLock_version (env : Answers) (d : Device) (cmd : OtaCommand) {s : State} {v : Text}
    (h : .enter s v ∈ (underLock env d cmd).2) : v = cmd.version := by
  unfold underLock at h
  split at h
  · exact runStages_version _ _ _ (stages_outward env _ cmd) h
  · simp_all [Device.fail]
  · simp_all [Device.fail]

/-! ## Commands -/

theorem KeyChange.not_enter {env : Answers} {d : Device} {message : Text} {r : Device × List Effect}
    (h : KeyChange openssl env d message r) : ∀ e ∈ r.2, ¬ IsEnter e := by
  cases h with
  | kept => simp
  | saved =>
    unfold Device.saveNextKey
    split <;> simp [IsEnter]
  | promoted =>
    unfold Device.promoteNextKey
    split
    · split <;> simp [IsEnter]
    · simp

theorem validate_not_enter (env : Answers) (d : Device) (cmd : OtaCommand) :
    ∀ e ∈ (validate openssl env d cmd).effects, ¬ IsEnter e := by
  obtain ⟨r, ⟨-, before, after, heffects, hbefore, hafter⟩, hr⟩ := validate_change openssl env d cmd
  have hchange : ∀ e ∈ r.2, ¬ IsEnter e := by
    rcases hr with rfl | ⟨-, -, hchange⟩
    · simp
    · exact hchange.not_enter
  rw [heffects]
  exact List.forall_mem_append.mpr ⟨List.forall_mem_append.mpr ⟨fun e he => (hbefore e he).not_enter, hchange⟩,
    fun e he => (hafter e he).not_enter⟩

theorem onLine_ends (env : Answers) (d : Device) (json : Text) : EndsInSuccess (onLine openssl env d json) := by
  unfold onLine onOtaCommand
  split
  · exact Or.inl (by simp)
  split
  · exact Or.inl (by simp [IsSuccess])
  dsimp only
  split
  · exact (fail_ends _ _ _).cons nofun
  · have hbegun : ∀ v s m, ∀ e ∈ [Effect.enter .validating v, .report s m], ¬ IsSuccess e := by simp [IsSuccess]
    have hvalid := fun e he hsuccess =>
      validate_not_enter openssl env { d with state := .validating, pendingCmd := parseOtaCommand json }
        (parseOtaCommand json) e he (IsSuccess.isEnter hsuccess)
    refine EndsInSuccess.prepend ?_ (List.forall_mem_append.mpr ⟨hbegun _ _ _, hvalid⟩)
    split
    · exact underLock_ends _ _ _
    · exact fail_ends _ _ _

theorem onOtaCommand_of_ne_idle (env : Answers) {d : Device} (h : d.state ≠ .idle) (json : Text) :
    onOtaCommand openssl env d json =
      (d, [.report "busy".toList "OTA already in progress — ignoring command".toList]) := by
  unfold onOtaCommand
  rw [if_pos h]

/-- A manager that is idle takes the command up and finds its version acceptable. -/
def Accepts (d : Device) (cmd : OtaCommand) : Prop := d.state = .idle ∧ versionError d.currentVersion cmd = none

/-- Only an accepted command reaches the apply step. -/
theorem onLine_applying (env : Answers) (d : Device) (json v : Text)
    (h : .enter .applying v ∈ (onLine openssl env d json).2) :
    Accepts d (parseOtaCommand json) ∧ v = (parseOtaCommand json).version := by
  unfold onLine at h
  split at h
  · exact absurd h List.not_mem_nil
  by_cases hidle : d.state = .idle
  swap
  · rw [onOtaCommand_of_ne_idle openssl env hidle] at h
    simp at h
  unfold onOtaCommand at h
  rw [if_neg (not_not.mpr hidle)] at h
  dsimp only at h
  split at h
  · simp [Device.fail] at h
  rcases List.mem_append.mp h with hbegun | hlater
  · rcases List.mem_append.mp hbegun with hbegun | hvalid
    · simp at hbegun
    · exact absurd ⟨_, _, rfl⟩ (validate_not_enter openssl env _ _ _ hvalid)
  · split at hlater
    · rename_i hok
      exact ⟨⟨hidle, ((validate_ok_iff openssl env _ _).mp hok).1⟩, underLock_version env _ _ hlater⟩
    · simp [Device.fail] at hlater

/-! ## Runs -/

theorem NoRollback.at {h : List Effect} (hn : NoRollback h) (i : Nat) (version last : Text)
    (hi : h[i]? = some (.enter .applying version)) (hlast : lastSuccess (h.take i) = some last) :
    (parseVersion version).greater (parseVersion last) = true := by
  obtain ⟨hlt, hget⟩ := List.getElem?_eq_some_iff.mp hi
  refine hn (h.take i) version (h.drop (i + 1)) last ?_ hlast
  rw [← hget, ← List.drop_eq_getElem_cons hlt, List.take_append_drop]

theorem NoRollback.shorten {h h' : List Effect} (hn : NoRollback h) (hp : h' <+: h) : NoRollback h' := by
  intro before version after last heq
  obtain ⟨rest, rfl⟩ := hp
  exact hn before version (after ++ rest) last (by rw [heq]; simp)

/-- A step that completes an update at its end only adds no way back when what it applies is newer. -/
theorem NoRollback.append {h : List Effect} {r : Device × List Effect} (hn : NoRollback h) (hr : EndsInSuccess r)
    (hnewer : ∀ version last, .enter .applying version ∈ r.2 → lastSuccess h = some last →
      (parseVersion version).greater (parseVersion last) = true) : NoRollback (h ++ r.2) := by
  intro before version after last heq hlast
  rcases List.append_eq_append_iff.mp heq with ⟨x, rfl, hx⟩ | ⟨x, rfl, hx⟩
  · rw [lastSuccess_append (hr.none_before hx)] at hlast
    exact hnewer version last (by rw [hx]; simp) hlast
  · rcases x with _ | ⟨e, x⟩
    · rw [List.append_nil] at hnewer
      exact hnewer version last (by rw [← List.nil_append r.2, ← hx]; simp) hlast
    · obtain ⟨rfl, -⟩ := List.cons.inj hx
      exact hn before version x last rfl hlast

/-- Each command that the version check of an idle manager lets through is newer than the last completed update. -/
def OnlyNewerAccepted (d₀ : Device) (inputs : List Input) : Prop :=
  ∀ before a cmd after d h last, inputs = before ++ a :: after → a.command = some cmd →
    (mainOta openssl).run d₀ before = some (d, h) → lastSuccess h = some last → Accepts d cmd →
      (parseVersion cmd.version).greater (parseVersion last) = true

theorem OnlyNewerAccepted.init {d₀ : Device} {inputs : List Input} {a : Input}
    (h : OnlyNewerAccepted openssl d₀ (inputs ++ [a])) : OnlyNewerAccepted openssl d₀ inputs := by
  intro before b cmd after d out last heq
  exact h before b cmd (after ++ [a]) d out last (by rw [heq]; simp)

/-- **No rollback.** When a process that starts after a completed update accepts newer versions only, no command reaches
the apply step that is not newer than the last completed update. -/
theorem no_rollback (keyActive keyNext : Option Text) (inputs : List Input) (d : Device) (h : List Effect)
    (hrun : (mainOta openssl).run (.start keyActive keyNext) inputs = some (d, h))
    (hnewer : OnlyNewerAccepted openssl (.start keyActive keyNext) inputs) : NoRollback h := by
  have hnil : NoRollback [] := by
    intro before version after last heq
    simp at heq
  refine (mainOta openssl).run_snoc_induction
    (I := fun inputs h _ => OnlyNewerAccepted openssl (.start keyActive keyNext) inputs → NoRollback h)
    (fun _ => hnil) (fun inputs h d a t out hrun hI _ hstep hnewer => ?_)
    ((mainOta openssl).along_of_mem (p := fun _ => True) (fun _ _ => trivial) _) hrun hnewer
  have hn := hI hnewer.init
  have hline : ∀ json env, a.command = some (parseOtaCommand json) → NoRollback (h ++ (onLine openssl env d json).2) := by
    intro json env hcmd
    refine hn.append (onLine_ends openssl env d json) fun version last happlying hlast => ?_
    obtain ⟨haccepts, rfl⟩ := onLine_applying openssl env d json version happlying
    exact hnewer inputs a _ [] d h last rfl hcmd hrun hlast haccepts
  cases a with
  | restart =>
    cases hstep
    rw [List.append_nil]
    exact hn
  | line json env =>
    have hout := hline json env rfl
    rw [Option.some.inj hstep] at hout
    exact hout
  | killed json env n =>
    cases hstep
    exact (hline json env rfl).shorten ((List.prefix_append_right_inj h).mpr (List.take_prefix n _))

/-- An input that the process survives. -/
def Input.IsLine (a : Input) : Prop := ∃ text env, a = .line text env

/-- One process completes one update at most: then it takes up nothing more. -/
theorem single_process {keyActive keyNext : Option Text} {inputs : List Input} {d : Device} {h : List Effect}
    (hlines : ∀ a ∈ inputs, a.IsLine) (hrun : (mainOta openssl).run (.start keyActive keyNext) inputs = some (d, h)) :
    (∀ e ∈ h, ¬ IsSuccess e) ∨ d.state = .success := by
  have hinv := (mainOta openssl).run_induction (I := fun h d => (∀ e ∈ h, ¬ IsSuccess e) ∨ d.state = .success)
    (h := []) (fun h d a t out hI hline hstep => ?_) (Or.inl (by simp)) ((mainOta openssl).along_of_mem hlines _)
    hrun
  · exact hinv
  obtain ⟨text, env, rfl⟩ := hline
  have hout := Option.some.inj hstep
  rcases hI with hnone | hsuccess
  · have hends := onLine_ends openssl env d text
    rw [hout] at hends
    rcases hends with hnone' | ⟨hstate, -⟩
    · exact Or.inl (List.forall_mem_append.mpr ⟨hnone, hnone'⟩)
    · exact Or.inr hstate
  · right
    unfold onLine at hout
    split at hout
    · cases hout
      exact hsuccess
    · rw [onOtaCommand_of_ne_idle openssl env (by rw [hsuccess]; decide)] at hout
      cases hout
      exact hsuccess

/-- Without a restart there is no way back, whatever the commands. -/
theorem onlyNewerAccepted_of_lines (keyActive keyNext : Option Text) {inputs : List Input}
    (hlines : ∀ a ∈ inputs, a.IsLine) : OnlyNewerAccepted openssl (.start keyActive keyNext) inputs := by
  intro before a cmd after d h last heq hcmd hrun hlast haccepts
  have hbefore : ∀ b ∈ before, b.IsLine := fun b hb => hlines b (by rw [heq]; exact List.mem_append_left _ hb)
  rcases single_process openssl hbefore hrun with hnone | hsuccess
  · rw [← List.nil_append h, lastSuccess_append hnone] at hlast
    cases hlast
  · rw [haccepts.1] at hsuccess
    cases hsuccess

def versionOne : Text :=
  ("\x7b\"version\":\"1.0.0\",\"url\":\"http://e\",\"sha256\":\"" ++
    "7692c3ad3540bb803c020b3aee66cd8887123234ea0c6e7143c0add73ff431ed\"\x7d").toList

def versionTwo : Text :=
  ("\x7b\"version\":\"2.0.0\",\"url\":\"http://e\",\"sha256\":\"" ++
    "3fc4ccfe745870e2c0d99f71f30ff0656c8dedd41cc1d7d3d376b0dbe685e2f3\"\x7d").toList

/-- Two lines, each for a process of its own. -/
theorem run_restarted (first second : Text) (h₁ : first ≠ []) (h₂ : second ≠ []) :
    let d := (onOtaCommand openssl allWell (.start none none) first).1
    (mainOta openssl).run (.start none none) [.line first allWell, .restart, .line second allWell] =
      some ((onOtaCommand openssl allWell (.start d.keyActive d.keyNext) second).1,
        (onOtaCommand openssl allWell (.start none none) first).2 ++
          (onOtaCommand openssl allWell (.start d.keyActive d.keyNext) second).2) := by
  rw [← List.singleton_append, Machine.run_append_iff]
  refine ⟨_, _, _, run_line openssl _ first allWell h₁, ?_, rfl⟩
  rw [Machine.run_cons_iff]
  exact ⟨_, [], _, rfl, run_line openssl _ second allWell h₂, rfl⟩

theorem no_rollback_two : ∃ d h,
    (mainOta fun _ _ => false).run (.start none none)
        [.line versionOne allWell, .restart, .line versionTwo allWell] = some (d, h) ∧
      lastSuccess h = some "2.0.0".toList ∧ NoRollback h := by
  have hrun := run_restarted (fun _ _ => false) versionOne versionTwo (by decide +kernel) (by decide +kernel)
  refine ⟨_, _, hrun, by decide +kernel, ?_⟩
  apply no_rollback (fun _ _ => false) none none [.line versionOne allWell, .restart, .line versionTwo allWell] _ _ hrun
  intro before a cmd after d h last heq hcmd hbefore hlast haccepts
  rcases before with _ | ⟨b, _ | ⟨c, _ | ⟨e, before⟩⟩⟩
  · cases hbefore
    cases hlast
  · simp only [List.cons_append, List.nil_append, List.cons.injEq] at heq
    obtain ⟨-, rfl, -⟩ := heq
    cases hcmd
  · simp only [List.cons_append, List.nil_append, List.cons.injEq] at heq
    obtain ⟨rfl, rfl, rfl, -⟩ := heq
    cases hcmd
    have hfirst : lastSuccess h = some "1.0.0".toList := by
      rw [← List.singleton_append, Machine.run_append_iff] at hbefore
      obtain ⟨t, out, outs, hone, hrestart, rfl⟩ := hbefore
      have hline := run_line (fun _ _ => false) (.start none none) versionOne allWell (by decide +kernel)
      obtain ⟨rfl, rfl⟩ := Prod.mk.inj (Option.some.inj (hline.symm.trans hone))
      cases hrestart
      decide +kernel
    rw [hlast] at hfirst
    cases hfirst
    decide +kernel
  · have hlen := congrArg List.length heq
    simp only [List.length_cons, List.length_append, List.length_nil] at hlen
    omega

/-- After an update to 2.0.0 and a restart, 1.0.0 is applied. -/
theorem rollback_after_restart :
    ¬ ∀ openssl keyActive keyNext inputs d h, (mainOta openssl).run (.start keyActive keyNext) inputs = some (d, h) →
      NoRollback h := by
  intro hall
  have hno := hall (fun _ _ => false) none none [.line versionTwo allWell, .restart, .line versionOne allWell] _ _
    (run_restarted (fun _ _ => false) versionTwo versionOne (by decide +kernel) (by decide +kernel))
  exact absurd (hno.at 45 "1.0.0".toList "2.0.0".toList (by decide +kernel) (by decide +kernel)) (by decide +kernel)

end IbarraGateway.Ota
