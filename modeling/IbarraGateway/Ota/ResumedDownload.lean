import IbarraGateway.Ota.Injection

/-!
# Resumed downloads

`wget -c` keeps what is in the artifact file and appends what the server has behind that length, and only an update that
gets as far as `apply` takes the file away. So what an update leaves behind stands in front of what the next one fetches:
a download is exact when that is how the served content begins, and only then (`resume_exact_iff`).

The lines are taken to call the programs that they name with the values of the command.
-/

namespace IbarraGateway.Ota

open Shell

/-! ## The artifact file -/

/-- What the server has for the URL of a command, the bytes that arrive when the transfer breaks off, and the answers of
the system; `wget` exits with 0 exactly when it does not break off. -/
structure Delivery where
  served : Text
  arrived : Nat
  env : Answers

namespace Delivery

/-- The file after `wget -c`. -/
def appended (dl : Delivery) (file : Text) : Text :=
  file ++ if dl.env.wget = 0 then dl.served.drop file.length else (dl.served.drop file.length).take dl.arrived

/-- The answers, with the verdict of `sha256sum` on the file. -/
def answers (dl : Delivery) (sha256 : Text → Text) (file : Text) (cmd : OtaCommand) : Answers :=
  { dl.env with sha256sum := if sha256 (dl.appended file) = cmd.sha256 then 0 else 1 }

end Delivery

/-- The file after a command line, `none` when there is none. -/
def afterLine (cmd : OtaCommand) (dl : Delivery) (file : Option Text) (line : Text) : Option Text :=
  if line = lineText (wgetLine cmd) then some (dl.appended (file.getD []))
  else if line = Command.line (.mv tempArtifact finalBinary) ∧ dl.env.mvFinal = 0 then none
  else file

/-- The agent with the artifact file. -/
structure Host where
  device : Device
  artifact : Option Text

/-- As the inputs of `mainOta`. -/
inductive HostInput
  | line (text : Text) (dl : Delivery)
  | killed (text : Text) (dl : Delivery) (effects : Nat)
  | restart

/-- A download that was not interrupted: what the server had, what is in the file, and the verdict of the checksum. -/
structure Fetched where
  served : Text
  artifact : Text
  expected : Text
  verified : Bool
  deriving DecidableEq, Repr

/-- The file holds what the server has, and its checksum decides. -/
def Fetched.Exact (sha256 : Text → Text) (f : Fetched) : Prop :=
  f.artifact = f.served ∧ (f.verified = true ↔ sha256 f.served = f.expected)

variable (openssl : Text → Text → Bool) (sha256 : Text → Text)

namespace Host

/-- The download of a line, if the line gets there and nothing interrupts the transfer. -/
def fetched (host : Host) (text : Text) (dl : Delivery) : List Fetched :=
  let cmd := parseOtaCommand text
  let env := dl.answers sha256 (host.artifact.getD []) cmd
  if lineText (wgetLine cmd) ∈ commandLines (onLine openssl env host.device text).2 ∧ dl.env.wget = 0 then
    [⟨dl.served, dl.appended (host.artifact.getD []), cmd.sha256, (verifyChecksum env cmd).1⟩]
  else []

/-- The input of the agent, with what the file makes the system answer. -/
def input (host : Host) : HostInput → Input
  | .line text dl => .line text (dl.answers sha256 (host.artifact.getD []) (parseOtaCommand text))
  | .killed text dl effects => .killed text (dl.answers sha256 (host.artifact.getD []) (parseOtaCommand text)) effects
  | .restart => .restart

/-- The file after the command lines of an input. -/
def artifactAfter (host : Host) (lines : List Text) : HostInput → Option Text
  | .line text dl => lines.foldl (afterLine (parseOtaCommand text) dl) host.artifact
  | .killed text dl _ => lines.foldl (afterLine (parseOtaCommand text) dl) host.artifact
  | .restart => host.artifact

end Host

/-- The agent with its artifact file; the outputs are the downloads that were not interrupted. -/
def hosts : Machine Host HostInput Fetched where
  step host a :=
    ((mainOta openssl).step host.device (host.input sha256 a)).map fun r =>
      (⟨r.1, host.artifactAfter (commandLines r.2) a⟩,
        match a with
        | .line text dl => host.fetched openssl sha256 text dl
        | _ => [])

/-! ## Exact downloads -/

variable {openssl sha256}

theorem Delivery.appended_eq_iff {dl : Delivery} (hwget : dl.env.wget = 0) (file : Text) :
    dl.appended file = dl.served ↔ file <+: dl.served := by
  unfold Delivery.appended
  rw [if_pos hwget]
  exact List.prefix_iff_eq_append.symm

theorem Delivery.verified_iff (dl : Delivery) (file : Text) (cmd : OtaCommand) :
    (verifyChecksum (dl.answers sha256 file cmd) cmd).1 = true ↔ sha256 (dl.appended file) = cmd.sha256 := by
  unfold verifyChecksum
  rw [mustSucceed_ok, and_iff_left rfl]
  unfold Delivery.answers
  split <;> simp_all

/-- The condition on a line: if its artifact is downloaded without interruption, what is in the file already is how the
served content begins. -/
def Resumable (openssl : Text → Text → Bool) (host : Host) : HostInput → Prop
  | .line text dl => Downloaded openssl dl.env host.device (parseOtaCommand text) → dl.env.wget = 0 →
      host.artifact.getD [] <+: dl.served
  | _ => True

/-- The checksum is behind the download. -/
theorem downloaded_answers_iff {dl : Delivery} {file : Text} {d : Device} {cmd : OtaCommand} :
    Downloaded openssl (dl.answers sha256 file cmd) d cmd ↔ Downloaded openssl dl.env d cmd := Iff.rfl

theorem not_downloaded_nil {env : Answers} {d : Device} : ¬Downloaded openssl env d (parseOtaCommand []) := by
  have hversion : (parseOtaCommand []).version = [] := by decide +kernel
  exact fun h => h.2.1.1 hversion

theorem onLine_wgetLine {env : Answers} {d : Device} {text : Text} :
    lineText (wgetLine (parseOtaCommand text)) ∈ commandLines (onLine openssl env d text).2 ↔
      Downloaded openssl env d (parseOtaCommand text) := by
  unfold onLine
  split
  · rename_i htext
    subst htext
    exact iff_of_false (by simp [commandLines]) not_downloaded_nil
  · exact wgetLine_reached

theorem fetched_exact_iff (host : Host) (text : Text) (dl : Delivery) :
    (∀ f ∈ host.fetched openssl sha256 text dl, f.Exact sha256) ↔ Resumable openssl host (.line text dl) := by
  have hline : lineText (wgetLine (parseOtaCommand text)) ∈ commandLines (onLine openssl
        (dl.answers sha256 (host.artifact.getD []) (parseOtaCommand text)) host.device text).2 ↔
      Downloaded openssl dl.env host.device (parseOtaCommand text) := onLine_wgetLine.trans downloaded_answers_iff
  unfold Host.fetched Resumable
  dsimp only
  split
  · rename_i hfetched
    have hprefix := dl.appended_eq_iff hfetched.2 (host.artifact.getD [])
    rw [List.forall_mem_singleton, ← hline, imp_iff_right hfetched.1, imp_iff_right hfetched.2, ← hprefix]
    unfold Fetched.Exact
    dsimp only
    rw [dl.verified_iff]
    refine and_iff_left_of_imp fun hserved => ?_
    rw [hserved]
  · rename_i hfetched
    refine iff_of_true (by simp) fun hdownloaded hwget => absurd ⟨hline.mpr hdownloaded, hwget⟩ hfetched

/-- **Resumed downloads.** In every run, from any leftover and through any earlier attempts, the downloads that are not
interrupted leave what the server has, checked as such, exactly when each finds a beginning of it in the file. -/
theorem resume_exact_iff {host host' : Host} {inputs : List HostInput} {downloads : List Fetched}
    (hrun : (hosts openssl sha256).run host inputs = some (host', downloads)) :
    (∀ f ∈ downloads, f.Exact sha256) ↔ (hosts openssl sha256).Along (Resumable openssl) host inputs := by
  refine (hosts openssl sha256).forall_outputs_iff (fun host a t out hstep => ?_) hrun
  obtain ⟨r, -, heq⟩ := Option.map_eq_some_iff.mp hstep
  cases heq
  cases a with
  | line text dl => exact fetched_exact_iff host text dl
  | killed text dl effects => exact iff_of_true (by simp) trivial
  | restart => exact iff_of_true (by simp) trivial

/-- An update to the served content, with the checksum of another one. -/
def update (url sha256 : Text) : Text :=
  "\x7b\"version\":\"1.0.0\",\"url\":\"".toList ++ url ++ "\",\"sha256\":\"".toList ++ sha256 ++ "\"\x7d".toList

/-- A download that is rejected, a restart, and the right one. -/
def rejectedFirst : List HostInput :=
  [.line (update "http://a".toList "right".toList) ⟨"wrong".toList, 0, allWell⟩, .restart,
    .line (update "http://b".toList "right".toList) ⟨"right".toList, 0, allWell⟩]

/-- The same with a leftover that the right one continues. -/
def interruptedFirst : List HostInput :=
  [.line (update "http://b".toList "right".toList) ⟨"right".toList, 2, { allWell with wget := 4 }⟩, .restart,
    .line (update "http://b".toList "right".toList) ⟨"right".toList, 0, allWell⟩]

def freshHost : Host := ⟨.start none none, none⟩

/-- What is left of a rejected artifact stays in front of the next one, which is rejected as well. -/
theorem rejected_dooms_next : ¬∀ openssl sha256 (host host' : Host) inputs downloads,
    (hosts openssl sha256).run host inputs = some (host', downloads) → ∀ f ∈ downloads, f.Exact sha256 := by
  intro h
  have hdownloads : ((hosts (fun _ _ => false) id).run freshHost rejectedFirst).map (·.2) =
      some [⟨"wrong".toList, "wrong".toList, "right".toList, false⟩,
        ⟨"right".toList, "wrong".toList, "right".toList, false⟩] := by decide +kernel
  obtain ⟨⟨host', downloads⟩, hrun, rfl⟩ := Option.map_eq_some_iff.mp hdownloads
  have hright := h _ _ _ _ _ _ hrun _ (List.mem_cons_of_mem _ (List.mem_singleton_self _))
  exact absurd hright.1 (by decide)

theorem resume_exact_iff_interrupted : ∃ host' downloads,
    (hosts (fun _ _ => false) id).run freshHost interruptedFirst = some (host', downloads) ∧
    ((∀ f ∈ downloads, f.Exact id) ↔
      (hosts (fun _ _ => false) id).Along (Resumable fun _ _ => false) freshHost interruptedFirst) :=
  ⟨_, _, rfl, resume_exact_iff rfl⟩

end IbarraGateway.Ota
