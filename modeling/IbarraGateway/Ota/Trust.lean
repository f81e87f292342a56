import IbarraGateway.Ota.Authenticity

/-!
# Where the keys come from

A key gets into the next-key file with a command that the active key verified, and becomes active from that file
(`onOtaCommand_keys`). The bytes that were verified are what the shell makes of version, url and checksum
(`verifiedBytes`); `next_public_key` is not among them. Under the condition that it is contained in them nevertheless
(`CoversNextKey`), every key ever installed is vouched for.
-/

namespace IbarraGateway.Ota

variable (openssl : Text → Text → Bool)

/-- The keys written to the next-key file or promoted to active. -/
def keysIn (h : List Effect) : List Text :=
  h.filterMap fun
    | .savedNextKey key => some key
    | .promotedKey key => some key
    | _ => none

@[simp] theorem keysIn_append (h h' : List Effect) : keysIn (h ++ h') = keysIn h ++ keysIn h' := List.filterMap_append

@[simp] theorem keysIn_nil : keysIn [] = [] := rfl

@[simp] theorem keysIn_enter (s : State) (v : Text) (h : List Effect) : keysIn (.enter s v :: h) = keysIn h := rfl

@[simp] theorem keysIn_report (s m : Text) (h : List Effect) : keysIn (.report s m :: h) = keysIn h := rfl

@[simp] theorem keysIn_system (c : Text) (h : List Effect) : keysIn (.system c :: h) = keysIn h := rfl

/-! ## The steps leave the keys alone -/

theorem keysIn_of_outward {h : List Effect} (hout : ∀ e ∈ h, e.Outward) : keysIn h = [] := by
  unfold keysIn
  rw [List.filterMap_eq_nil_iff]
  intro e he
  have hplain := hout e he
  cases e with
  | report => rfl
  | system => rfl
  | enter => exact False.elim hplain
  | savedNextKey => exact False.elim hplain
  | promotedKey => exact False.elim hplain

/-- What happens behind `validate` changes no key file. -/
structure KeepsKeys (d : Device) (r : Device × List Effect) : Prop where
  effects : keysIn r.2 = []
  files : r.1.restarted = d.restarted

theorem fail_keeps (d : Device) (version message : Text) : KeepsKeys d (d.fail version message) := ⟨rfl, rfl⟩

theorem runStages_keeps (version : Text) (d : Device) (sts : List Stage)
    (h : ∀ stage ∈ sts, ∀ e ∈ stage.run.2, e.Outward) : KeepsKeys d (runStages version d sts) := by
  induction sts generalizing d with
  | nil => exact ⟨rfl, rfl⟩
  | cons stage rest ih =>
    have hrest : ∀ s ∈ rest, ∀ e ∈ s.run.2, e.Outward := fun s hs => h s (List.mem_cons_of_mem _ hs)
    have hrun := keysIn_of_outward (h stage List.mem_cons_self)
    unfold runStages
    split
    · exact ⟨by simp [hrun, (ih _ hrest).effects], (ih _ hrest).files⟩
    · exact ⟨by simp [hrun, (fail_keeps _ _ _).effects], rfl⟩

theorem underLock_keeps (env : Answers) (d : Device) (cmd : OtaCommand) : KeepsKeys d (underLock env d cmd) := by
  have hrun := runStages_keeps cmd.version { d with lockHeld := true } _
    fun stage hstage => (stages_outward env d.currentVersion cmd stage hstage).2
  unfold underLock
  split
  · exact ⟨hrun.effects, hrun.files⟩
  · exact ⟨rfl, rfl⟩
  · exact ⟨rfl, rfl⟩

/-! ## The effects account for the key files -/

theorem afterEffects_append (d : Device) (h h' : List Effect) :
    d.afterEffects (h ++ h') = (d.afterEffects h).afterEffects h' := by
  induction h generalizing d with
  | nil => rfl
  | cons e h ih =>
    cases e with
    | enter => exact ih d
    | report => exact ih d
    | system => exact ih d
    | savedNextKey => exact ih _
    | promotedKey => exact ih _

theorem afterEffects_restarted (d : Device) (h : List Effect) :
    (d.restarted.afterEffects h).restarted = (d.afterEffects h).restarted := by
  induction h generalizing d with
  | nil => rfl
  | cons e h ih =>
    cases e with
    | enter => exact ih d
    | report => exact ih d
    | system => exact ih d
    | savedNextKey key =>
      exact (ih { d.restarted with keyNext := some key }).symm.trans (ih { d with keyNext := some key })
    | promotedKey key =>
      exact (ih { d.restarted with keyActive := some key, keyNext := none }).symm.trans
        (ih { d with keyActive := some key, keyNext := none })

theorem afterEffects_of_keysIn_nil {d : Device} {h : List Effect} (hnone : keysIn h = []) : d.afterEffects h = d := by
  induction h with
  | nil => rfl
  | cons e h ih =>
    cases e with
    | enter => exact ih hnone
    | report => exact ih hnone
    | system => exact ih hnone
    | savedNextKey => cases hnone
    | promotedKey => cases hnone

/-- A key in the next-key file was there before or has been installed since. -/
theorem afterEffects_keyNext {d : Device} {h : List Effect} {k : Text} (hk : (d.afterEffects h).keyNext = some k) :
    d.keyNext = some k ∨ k ∈ keysIn h := by
  induction h generalizing d with
  | nil => exact Or.inl hk
  | cons e h ih =>
    rw [← List.singleton_append, afterEffects_append] at hk
    have hrest := ih hk
    cases e with
    | enter => exact hrest
    | report => exact hrest
    | system => exact hrest
    | savedNextKey key =>
      right
      rcases hrest with hsaved | hlater
      · exact List.mem_cons.mpr (Or.inl (Option.some.inj hsaved).symm)
      · exact List.mem_cons_of_mem _ hlater
    | promotedKey key =>
      right
      rcases hrest with hnone | hlater
      · cases hnone
      · exact List.mem_cons_of_mem _ hlater

/-- The key files of the result are those that its effects lead to. -/
def Accounts (d : Device) (r : Device × List Effect) : Prop := (d.afterEffects r.2).restarted = r.1.restarted

theorem KeepsKeys.accounts {d : Device} {r : Device × List Effect} (h : KeepsKeys d r) : Accounts d r := by
  rw [Accounts, afterEffects_of_keysIn_nil h.effects, h.files]

theorem Accounts.trans {d : Device} {r r' : Device × List Effect} (h : Accounts d r) (h' : Accounts r.1 r') :
    Accounts d (r'.1, r.2 ++ r'.2) := by
  unfold Accounts at *
  rw [afterEffects_append, ← afterEffects_restarted, h, afterEffects_restarted, h']

theorem KeyChange.accounts {env : Answers} {d : Device} {message : Text} {r : Device × List Effect}
    (h : KeyChange openssl env d message r) : Accounts d r := by
  cases h with
  | kept => rfl
  | saved =>
    unfold Device.saveNextKey
    split <;> rfl
  | promoted =>
    unfold Device.promoteNextKey
    split
    · split <;> rfl
    · rfl

theorem Wraps.accounts {d : Device} {r : Device × List Effect} {o : Outcome} (h : Wraps r o) (hr : Accounts d r) :
    Accounts d (o.device, o.effects) := by
  obtain ⟨hdevice, before, after, heffects, hbefore, hafter⟩ := h
  have hfirst : Accounts d (d, before) := KeepsKeys.accounts ⟨keysIn_of_outward hbefore, rfl⟩
  have hlast : Accounts r.1 (r.1, after) := KeepsKeys.accounts ⟨keysIn_of_outward hafter, rfl⟩
  rw [heffects, hdevice]
  exact (hfirst.trans hr).trans hlast

theorem validate_accounts (env : Answers) (d : Device) (cmd : OtaCommand) :
    Accounts d ((validate openssl env d cmd).device, (validate openssl env d cmd).effects) := by
  obtain ⟨r, hwraps, hr⟩ := validate_change openssl env d cmd
  apply hwraps.accounts
  rcases hr with rfl | ⟨-, -, hchange⟩
  · rfl
  · exact hchange.accounts

theorem onLine_accounts (env : Answers) (d : Device) (text : Text) : Accounts d (onLine openssl env d text) := by
  unfold onLine onOtaCommand
  split
  · rfl
  split
  · rfl
  dsimp only
  split
  · rfl
  have hbegun : Accounts d ({ d with state := .validating, pendingCmd := parseOtaCommand text },
      [.enter .validating (parseOtaCommand text).version, .report "validating".toList
        ("Validating OTA update to version ".toList ++ (parseOtaCommand text).version)]) := rfl
  have hvalid := hbegun.trans (validate_accounts openssl env _ (parseOtaCommand text))
  split
  · exact hvalid.trans (underLock_keeps _ _ _).accounts
  · exact hvalid.trans (fail_keeps _ _ _).accounts

/-- Killed after its last effect, a line has done the same as before a restart. -/
theorem killed_eq_restart (d : Device) (text : Text) (env : Answers) (n : Nat)
    (hn : (onLine openssl env d text).2.length ≤ n) :
    (mainOta openssl).run d [.killed text env n] = (mainOta openssl).run d [.line text env, .restart] := by
  have hkilled : (mainOta openssl).step d (.killed text env n) =
      some ((onLine openssl env d text).1.restarted, (onLine openssl env d text).2) := by
    simp only [mainOta, List.take_of_length_le hn]
    rw [onLine_accounts]
  have hrestart : (mainOta openssl).run d [.line text env, .restart] =
      some ((onLine openssl env d text).1.restarted, (onLine openssl env d text).2) := by
    rw [Machine.run_cons_iff]
    exact ⟨_, _, [], rfl, rfl, (List.append_nil _).symm⟩
  rw [hrestart, Machine.run_cons_iff]
  exact ⟨_, _, [], hkilled, rfl, (List.append_nil _).symm⟩

/-! ## What a command can install -/

/-- A key comes from the next-key file, or from the pending command when the active key verified the message. -/
theorem KeyChange.keys {env : Answers} {d : Device} {message k : Text} {r : Device × List Effect}
    (h : KeyChange openssl env d message r) (hk : k ∈ keysIn r.2) :
    d.keyNext = some k ∨ k = d.pendingCmd.nextPublicKey ∧ openssl d.loadPublicKey message = true := by
  cases h with
  | kept => exact absurd hk List.not_mem_nil
  | saved hactive =>
    unfold Device.saveNextKey at hk
    split at hk
    · exact Or.inr ⟨List.mem_singleton.mp hk, hactive⟩
    · exact absurd hk List.not_mem_nil
  | promoted =>
    unfold Device.promoteNextKey at hk
    split at hk
    · rename_i key hnext
      split at hk
      · rw [hnext, List.mem_singleton.mp hk]
        exact Or.inl rfl
      · exact absurd hk List.not_mem_nil
    · exact absurd hk List.not_mem_nil

/-- The command brings a next key with a signature that the active key verifies, and gets as far as that. -/
def BringsKey (d : Device) (cmd : OtaCommand) : Prop :=
  d.state = .idle ∧ versionError d.currentVersion cmd = none ∧ cmd.signature ≠ [] ∧
    openssl d.loadPublicKey (signedMessage cmd) = true

theorem validate_keys {env : Answers} {d : Device} {cmd : OtaCommand} {k : Text}
    (h : k ∈ keysIn (validate openssl env d cmd).effects) : d.keyNext = some k ∨ k = d.pendingCmd.nextPublicKey ∧
      versionError d.currentVersion cmd = none ∧ cmd.signature ≠ [] ∧
        openssl d.loadPublicKey (signedMessage cmd) = true := by
  obtain ⟨r, ⟨-, before, after, heffects, hbefore, hafter⟩, hr⟩ := validate_change openssl env d cmd
  rw [heffects, keysIn_append, keysIn_append, keysIn_of_outward hbefore, keysIn_of_outward hafter, List.nil_append,
    List.append_nil] at h
  rcases hr with rfl | ⟨hversion, hsig, hchange⟩
  · exact absurd h List.not_mem_nil
  · exact (hchange.keys openssl h).imp_right fun hk => ⟨hk.1, hversion, hsig, hk.2⟩

/-- A line installs the next key it brings, or the one that waits in the file. -/
theorem onLine_keys {env : Answers} {d : Device} {text k : Text} (h : k ∈ keysIn (onLine openssl env d text).2) :
    d.keyNext = some k ∨ k = (parseOtaCommand text).nextPublicKey ∧ BringsKey openssl d (parseOtaCommand text) := by
  unfold onLine onOtaCommand at h
  split at h
  · exact absurd h List.not_mem_nil
  split at h
  · exact absurd h List.not_mem_nil
  rename_i hidle
  dsimp only at h
  split at h
  · exact absurd h List.not_mem_nil
  have hvalid : k ∈ keysIn (validate openssl env
      { d with state := .validating, pendingCmd := parseOtaCommand text } (parseOtaCommand text)).effects := by
    split at h
    · rw [keysIn_append, (underLock_keeps _ _ _).effects, List.append_nil] at h
      exact h
    · rw [keysIn_append, (fail_keeps _ _ _).effects, List.append_nil] at h
      exact h
  exact (validate_keys openssl hvalid).imp_right fun hk => ⟨hk.1, not_not.mp hidle, hk.2⟩

theorem keysIn_take {h : List Effect} {n : Nat} {k : Text} (hk : k ∈ keysIn (h.take n)) : k ∈ keysIn h := by
  rw [← List.take_append_drop n h, keysIn_append]
  exact List.mem_append_left _ hk

/-- A step installs the next key that its command brings, or the one that waits in the file; and no other gets into the
file. -/
theorem step_keys {d t : Device} {a : Input} {out : List Effect} (hstep : (mainOta openssl).step d a = some (t, out)) :
    (∀ k ∈ keysIn out, d.keyNext = some k ∨
      ∃ cmd, a.command = some cmd ∧ k = cmd.nextPublicKey ∧ BringsKey openssl d cmd) ∧
    ∀ k, t.keyNext = some k → d.keyNext = some k ∨ k ∈ keysIn out := by
  cases a with
  | restart =>
    cases hstep
    exact ⟨fun k hk => absurd hk List.not_mem_nil, fun k hk => Or.inl hk⟩
  | line text env =>
    have hout := Option.some.inj hstep
    have haccounts := onLine_accounts openssl env d text
    rw [hout] at haccounts
    refine ⟨fun k hk => ?_, fun k hk => afterEffects_keyNext ?_⟩
    · exact (onLine_keys openssl (by rw [hout]; exact hk)).imp_right fun h => ⟨_, rfl, h⟩
    · have hfiles : (d.afterEffects out).restarted = t.restarted := haccounts
      exact (congrArg Device.keyNext hfiles).trans hk
  | killed text env n =>
    cases hstep
    exact ⟨fun k hk => (onLine_keys openssl (keysIn_take hk)).imp_right fun h => ⟨_, rfl, h⟩,
      fun k hk => afterEffects_keyNext hk⟩

/-! ## The chain of trust -/

variable (sh : Shell.Echo)

/-- A key that a command brings is contained in the bytes that the shell passes to `openssl` for it. -/
def CoversNextKey (d : Device) (a : Input) : Prop :=
  ∀ cmd, a.command = some cmd → BringsKey openssl d cmd → cmd.nextPublicKey <:+: verifiedBytes sh cmd

/-- Where the shell takes the values for themselves, these bytes are the message. -/
theorem coversNextKey_of_plain {d : Device} {a : Input}
    (h : ∀ cmd, a.command = some cmd → BringsKey openssl d cmd → PlainValues cmd ∧ cmd.nextPublicKey <:+: signedMessage cmd) :
    CoversNextKey openssl sh d a := by
  intro cmd hcmd hbrings
  obtain ⟨hplain, hcovered⟩ := h cmd hcmd hbrings
  rw [verifiedBytes_of_plain sh hplain]
  exact hcovered

/-- The bytes of a signed command of the run, which `openssl` verifies under a key trusted then, contain the key. -/
def Vouched (d₀ : Device) (inputs : List Input) (k : Text) : Prop :=
  ∃ before a cmd after d h, inputs = before ++ a :: after ∧ a.command = some cmd ∧
    (mainOta openssl).run d₀ before = some (d, h) ∧ Authentic (fun key message _ => openssl key message) d cmd ∧
      k <:+: verifiedBytes sh cmd

theorem Vouched.snoc {d₀ : Device} {inputs : List Input} {k : Text} (h : Vouched openssl sh d₀ inputs k) (a : Input) :
    Vouched openssl sh d₀ (inputs ++ [a]) k := by
  obtain ⟨before, b, cmd, after, d, out, rfl, hcmd, hrun, hauth, hk⟩ := h
  exact ⟨before, b, cmd, after ++ [a], d, out, by simp, hcmd, hrun, hauth, hk⟩

/-- **Chain of trust.** When every next key is contained in the verified bytes of the command it comes with, every key that
is ever installed was contained in bytes that verified under a key trusted at that moment, or is the next key that the
device had. -/
theorem chain_of_trust (keyActive keyNext : Option Text) (inputs : List Input) (d : Device) (h : List Effect)
    (hrun : (mainOta openssl).run (.start keyActive keyNext) inputs = some (d, h))
    (hcovers : (mainOta openssl).Along (CoversNextKey openssl sh) (.start keyActive keyNext) inputs) :
    ∀ k ∈ keysIn h, keyNext = some k ∨ Vouched openssl sh (.start keyActive keyNext) inputs k := by
  have hinv := (mainOta openssl).run_snoc_induction
    (I := fun inputs h d =>
      (∀ k ∈ keysIn h, keyNext = some k ∨ Vouched openssl sh (.start keyActive keyNext) inputs k) ∧
        ∀ k, d.keyNext = some k → keyNext = some k ∨ Vouched openssl sh (.start keyActive keyNext) inputs k)
    ⟨fun k hk => absurd hk List.not_mem_nil, fun k hk => Or.inl hk⟩ (fun inputs h d a t out hrun hI hok hstep => ?_)
    hcovers hrun
  · exact hinv.1
  obtain ⟨hinstalled, hfile⟩ := step_keys openssl hstep
  have hsnoc : ∀ k, keyNext = some k ∨ Vouched openssl sh (.start keyActive keyNext) inputs k →
      keyNext = some k ∨ Vouched openssl sh (.start keyActive keyNext) (inputs ++ [a]) k :=
    fun k hk => hk.imp_right fun hv => hv.snoc openssl sh a
  have hout : ∀ k ∈ keysIn out, keyNext = some k ∨ Vouched openssl sh (.start keyActive keyNext) (inputs ++ [a]) k := by
    intro k hk
    obtain hnext | ⟨cmd, hcmd, rfl, hbrings⟩ := hinstalled k hk
    · exact hsnoc k (hI.2 k hnext)
    · have hcovered := hok cmd hcmd hbrings
      obtain ⟨-, -, hsig, hverified⟩ := hbrings
      exact Or.inr ⟨inputs, a, cmd, [], d, h, rfl, hcmd, hrun, ⟨hsig, Or.inl hverified⟩, hcovered⟩
  refine ⟨fun k hk => ?_, fun k hk => ?_⟩
  · rw [keysIn_append] at hk
    rcases List.mem_append.mp hk with hold | hnew
    · exact hsnoc k (hI.1 k hold)
    · exact hout k hnew
  · rcases hfile k hk with hold | hnew
    · exact hsnoc k (hI.2 k hold)
    · exact hout k hnew

/-- Signed, with a key that the signature does not cover. -/
def bringsUnsignedKey : Text :=
  "\x7b\"version\":\"2.0.0\",\"url\":\"http://e\",\"sha256\":\"0\",\"signature\":\"s\",\"next_public_key\":\"EVIL\"\x7d".toList

/-- Signed, with a key that stands in the address too. -/
def bringsSignedKey : Text :=
  "\x7b\"version\":\"2.0.0\",\"url\":\"http://NEXT\",\"sha256\":\"0\",\"signature\":\"s\",\"next_public_key\":\"NEXT\"\x7d".toList

theorem chain_of_trust_one : ∃ d h,
    (mainOta fun _ _ => true).run (.start none none) [.line bringsSignedKey allWell] = some (d, h) ∧
      keysIn h = ["NEXT".toList] ∧
      ∀ k ∈ keysIn h,
        none = some k ∨ Vouched (fun _ _ => true) .plain (.start none none) [.line bringsSignedKey allWell] k := by
  have hrun := run_line (fun _ _ => true) (.start none none) bringsSignedKey allWell (by decide)
  refine ⟨_, _, hrun, by decide +kernel, ?_⟩
  apply chain_of_trust (fun _ _ => true) .plain none none [.line bringsSignedKey allWell] _ _ hrun
  refine ⟨coversNextKey_of_plain _ _ fun cmd hcmd _ => ?_, fun _ _ _ => trivial⟩
  cases hcmd
  exact ⟨by decide +kernel, by decide +kernel⟩

/-- The next key of a signed command is installed, whatever was signed. -/
theorem uncovered_key_installed :
    ¬ ∀ openssl sh keyActive inputs d h, (mainOta openssl).run (.start keyActive none) inputs = some (d, h) →
      ∀ k ∈ keysIn h, Vouched openssl sh (.start keyActive none) inputs k := by
  intro hall
  obtain ⟨before, a, cmd, after, d, h, hinputs, hcmd, -, -, hk⟩ :=
    hall (fun _ _ => true) .plain none [.line bringsUnsignedKey allWell] _ _
      (run_line _ (.start none none) bringsUnsignedKey allWell (by decide)) "EVIL".toList (by decide +kernel)
  rcases before with _ | ⟨b, before⟩
  · obtain ⟨rfl, -⟩ := List.cons.inj hinputs
    cases hcmd
    exact absurd hk (by decide +kernel)
  · have hlen := congrArg List.length hinputs
    simp only [List.length_cons, List.length_append, List.length_nil] at hlen
    omega

end IbarraGateway.Ota
