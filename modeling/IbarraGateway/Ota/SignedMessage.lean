import IbarraGateway.Lib.TextSearch
import IbarraGateway.Ota.Authenticity

/-!
# What a signature covers

`version=…&url=…&sha256=…` does not say where its parts end. `parse_version` stops at an ampersand, the URL is looked at
up to its fifth character and the checksum not at all, so a message can be cut in another way into parts that `validate`
lets through. Where the shell takes the values for themselves, `message_unambiguous_iff` says when; where it does not, it
can make the bytes of any command of those of another.
-/

namespace IbarraGateway.Ota

open DecimalText (scanSign scanSign_plain)
open TextSearch

/-! ## An ampersand ends a version -/

theorem scanSign_amp (w t : Text) : scanSign (w ++ '&' :: t) = ((scanSign w).1, (scanSign w).2 ++ '&' :: t) := by
  cases w with
  | nil => rfl
  | cons c w =>
    by_cases hminus : c = '-'
    · subst hminus
      rfl
    · by_cases hplus : c = '+'
      · subst hplus
        rfl
      · rw [List.cons_append, scanSign_plain hminus hplus, scanSign_plain hminus hplus, List.cons_append]

theorem scanInt_amp (w t : Text) :
    scanInt (w ++ '&' :: t) = (scanInt w).map fun r => (r.1, r.2 ++ '&' :: t) := by
  unfold scanInt
  rw [dropWhile_stop (by decide), scanSign_amp]
  dsimp only
  rw [takeWhile_stop (by decide), dropWhile_stop (by decide)]
  split <;> rfl

theorem scanDot_amp (w t : Text) : scanDot (w ++ '&' :: t) = (scanDot w).map fun r => r ++ '&' :: t := by
  cases w with
  | nil => rfl
  | cons c w =>
    by_cases hdot : c = '.'
    · subst hdot
      rfl
    · simp [scanDot, hdot]

theorem scanVersion_amp (w t : Text) : scanVersion (w ++ '&' :: t) = scanVersion w := by
  unfold scanVersion
  rw [scanInt_amp]
  cases scanInt w with
  | none => rfl
  | some major =>
    simp only [Option.map_some, Option.bind_some]
    rw [scanDot_amp]
    cases scanDot major.2 with
    | none => rfl
    | some s₁ =>
      simp only [Option.map_some, Option.bind_some]
      rw [scanInt_amp]
      cases scanInt s₁ with
      | none => rfl
      | some minor =>
        simp only [Option.map_some, Option.bind_some]
        rw [scanDot_amp]
        cases scanDot minor.2 with
        | none => rfl
        | some s₂ =>
          simp only [Option.map_some, Option.bind_some]
          rw [scanInt_amp]
          cases scanInt s₂ <;> rfl

/-- What follows an ampersand does not matter to `parse_version`. -/
theorem parseVersion_amp (w t : Text) : parseVersion (w ++ '&' :: t) = parseVersion w := by
  unfold parseVersion
  by_cases hnul : '\x00' ∈ w
  · have hsame : cStr (w ++ '&' :: t) = cStr w := by
      unfold cStr
      obtain ⟨before, after, rfl, -⟩ := List.eq_append_cons_of_mem hnul
      rw [List.append_assoc, List.cons_append, takeWhile_stop (by simp), takeWhile_stop (by simp)]
    rw [hsame]
  · have hleft : cStr w = w := takeWhile_ne_eq_self_iff.mpr hnul
    have hright : cStr (w ++ '&' :: t) = w ++ '&' :: cStr t := by
      unfold cStr
      rw [List.takeWhile_append_of_pos (forall_ne_of_not_mem hnul)]
      rfl
    rw [hleft, hright, scanVersion_amp]

/-! ## The checks -/

theorem versionError_none_iff {current : Version} {cmd : OtaCommand} : versionError current cmd = none ↔
    parseVersion cmd.version ≠ ⟨0, 0, 0⟩ ∧ (parseVersion cmd.version).greater current = true := by
  unfold versionError
  split
  · rename_i hzero
    simp [hzero]
  · rename_i hne
    cases hgreater : (parseVersion cmd.version).greater current <;> simp [hne]

/-- Two versions that are read alike pass alike. -/
theorem versionError_congr {current : Version} {cmd cmd' : OtaCommand}
    (h : parseVersion cmd'.version = parseVersion cmd.version) (hok : versionError current cmd = none) :
    versionError current cmd' = none := by
  rw [versionError_none_iff] at hok ⊢
  rwa [h]

/-- Of the URL only `http` and one more character are asked for. -/
theorem urlError_none_iff {cmd : OtaCommand} :
    urlError cmd = none ↔ ∃ rest, rest ≠ [] ∧ cmd.url = "http".toList ++ rest := by
  unfold urlError
  constructor
  · intro h
    split at h
    · cases h
    rename_i hok
    rw [not_or, not_and_or, not_not, not_not] at hok
    obtain ⟨hlength, hscheme⟩ := hok
    have htake : cmd.url.take 4 = "http".toList := by
      rcases hscheme with hhttp | hhttps
      · exact hhttp
      · have hcut := congrArg (List.take 4) hhttps
        rw [List.take_take] at hcut
        exact hcut
    refine ⟨cmd.url.drop 4, ?_, ?_⟩
    · rw [ne_eq, List.drop_eq_nil_iff]
      omega
    · rw [← htake, List.take_append_drop]
  · rintro ⟨rest, hrest, hurl⟩
    rw [if_neg]
    rw [hurl, not_or, not_and_or, not_not, not_not]
    have hlength := List.length_pos_iff.mpr hrest
    refine ⟨?_, .inl rfl⟩
    rw [List.length_append]
    show ¬4 + rest.length < 5
    omega

/-! ## Cutting the message -/

def urlMark : Text := "&url=".toList
def sha256Mark : Text := "&sha256=".toList

/-- The same version, URL and checksum. -/
def SameManifest (c c' : OtaCommand) : Prop := c.version = c'.version ∧ c.url = c'.url ∧ c.sha256 = c'.sha256

instance (c c' : OtaCommand) : Decidable (SameManifest c c') := inferInstanceAs (Decidable (_ ∧ _))

theorem signedMessage_eq (cmd : OtaCommand) :
    signedMessage cmd = "version=".toList ++ (cmd.version ++ (urlMark ++ (cmd.url ++ (sha256Mark ++ cmd.sha256)))) := by
  unfold signedMessage urlMark sha256Mark
  generalize "version=".toList = first
  generalize "&url=".toList = second
  generalize "&sha256=".toList = third
  simp only [List.append_assoc]

theorem signedMessage_eq_iff {c c' : OtaCommand} : signedMessage c = signedMessage c' ↔
    c.version ++ (urlMark ++ (c.url ++ (sha256Mark ++ c.sha256))) =
      c'.version ++ (urlMark ++ (c'.url ++ (sha256Mark ++ c'.sha256))) := by
  rw [signedMessage_eq, signedMessage_eq, List.append_cancel_left_eq]

section Cuts
variable {a b a' b' : Text}

theorem urlMark_cases (h : a ++ (urlMark ++ b) = a' ++ (urlMark ++ b')) :
    (a = a' ∧ b = b') ∨ (∃ x, a' = a ++ (urlMark ++ x) ∧ b = x ++ (urlMark ++ b')) ∨
      ∃ x, a = a' ++ (urlMark ++ x) ∧ b' = x ++ (urlMark ++ b) :=
  mark_cases (d := '&') (D := "url=".toList) (by decide) h

theorem sha256Mark_cases (h : a ++ (sha256Mark ++ b) = a' ++ (sha256Mark ++ b')) :
    (a = a' ∧ b = b') ∨ (∃ x, a' = a ++ (sha256Mark ++ x) ∧ b = x ++ (sha256Mark ++ b')) ∨
      ∃ x, a = a' ++ (sha256Mark ++ x) ∧ b' = x ++ (sha256Mark ++ b) :=
  mark_cases (d := '&') (D := "sha256=".toList) (by decide) h

end Cuts

/-- The parts hold no mark at which the message could be cut: no mark of a URL with `http` behind it, and none of a
checksum, unless what would be the URL is too short. -/
structure Unmarked (cmd : OtaCommand) : Prop where
  version : ∀ x y, cmd.version ≠ x ++ (urlMark ++ ("http".toList ++ y))
  url : ∀ x y, cmd.url = x ++ (urlMark ++ ("http".toList ++ y)) → y = []
  short : ∀ x y, cmd.url = x ++ (sha256Mark ++ y) → x.length < 5
  sha256 : ∀ x y, cmd.sha256 ≠ x ++ (sha256Mark ++ y)

/-- A message without such marks is cut in one way. -/
theorem Unmarked.sameManifest {c c' : OtaCommand} (h : Unmarked c) (hurl : urlError c' = none)
    (hmessage : signedMessage c = signedMessage c') : SameManifest c c' := by
  obtain ⟨rest, hrest, hurl⟩ := urlError_none_iff.mp hurl
  rw [signedMessage_eq_iff] at hmessage
  rcases urlMark_cases hmessage with ⟨hversion, hcut⟩ | ⟨x, -, hcut⟩ | ⟨x, hversion, hcut⟩
  · rcases sha256Mark_cases hcut with ⟨hurl', hsha⟩ | ⟨y, -, hsha⟩ | ⟨y, hurl', -⟩
    · exact ⟨hversion, hurl', hsha⟩
    · exact absurd hsha (h.sha256 y _)
    · have hlength := h.short _ y hurl'
      rw [hurl, List.length_append] at hlength
      have hpos := List.length_pos_iff.mpr hrest
      have hfour : "http".toList.length = 4 := rfl
      omega
  · have hassoc : x ++ (urlMark ++ (c'.url ++ (sha256Mark ++ c'.sha256))) =
        (x ++ (urlMark ++ c'.url)) ++ (sha256Mark ++ c'.sha256) := by
      simp only [List.append_assoc]
    rw [hassoc] at hcut
    rcases sha256Mark_cases hcut with ⟨hurl', -⟩ | ⟨y, -, hsha⟩ | ⟨y, hurl', -⟩
    · rw [hurl] at hurl'
      exact absurd (h.url x rest hurl') hrest
    · exact absurd hsha (h.sha256 y _)
    · rw [hurl] at hurl'
      have hnil := h.url x (rest ++ (sha256Mark ++ y)) (by rw [hurl']; simp only [List.append_assoc])
      exact absurd (List.append_eq_nil_iff.mp hnil).1 hrest
  · rw [hurl] at hcut
    rcases x with _ | ⟨x₁, _ | ⟨x₂, _ | ⟨x₃, _ | ⟨x₄, y⟩⟩⟩⟩
    · cases hcut
    · cases hcut
    · cases hcut
    · cases hcut
    · have hhttp : [x₁, x₂, x₃, x₄] = "http".toList := (congrArg (List.take 4) hcut).symm
      have hmarked := hversion.trans (congrArg (fun w => c'.version ++ (urlMark ++ (w ++ y))) hhttp)
      exact absurd hmarked (h.version _ y)

/-! ## Another cut -/

theorem ne_append_mark {mark : Text} (hmark : mark ≠ []) (x y : Text) : x ++ (mark ++ y) ≠ x := by
  rw [ne_eq, List.append_right_eq_self, List.append_eq_nil_iff, not_and_or]
  exact .inl hmark

/-- Another manifest has the message, and it passes where this one does. -/
def Recut (c : OtaCommand) : Prop :=
  ∃ c', parseVersion c'.version = parseVersion c.version ∧ urlError c' = none ∧ signedMessage c = signedMessage c' ∧
    ¬SameManifest c c'

/-- The version up to a mark, with the URL behind the mark. -/
theorem recut_version {c : OtaCommand} {x y : Text} (h : c.version = x ++ (urlMark ++ ("http".toList ++ y))) : Recut c := by
  refine ⟨{ c with version := x, url := "http".toList ++ (y ++ (urlMark ++ c.url)) }, ?_, ?_, ?_, ?_⟩
  · rw [h]
    exact (parseVersion_amp x _).symm
  · refine urlError_none_iff.mpr ⟨y ++ (urlMark ++ c.url), ?_, rfl⟩
    rw [ne_eq, List.append_eq_nil_iff, not_and_or]
    exact .inr nofun
  · rw [signedMessage_eq_iff, h]
    simp only [List.append_assoc]
  · rintro ⟨hversion, -, -⟩
    rw [h] at hversion
    exact ne_append_mark (by decide) _ _ hversion

/-- The version with the URL up to a mark. -/
theorem recut_url {c : OtaCommand} {x y : Text} (h : c.url = x ++ (urlMark ++ ("http".toList ++ y))) (hy : y ≠ []) : Recut c := by
  refine ⟨{ c with version := c.version ++ (urlMark ++ x), url := "http".toList ++ y }, ?_, ?_, ?_, ?_⟩
  · exact parseVersion_amp c.version _
  · exact urlError_none_iff.mpr ⟨y, hy, rfl⟩
  · rw [signedMessage_eq_iff, h]
    simp only [List.append_assoc]
  · rintro ⟨hversion, -, -⟩
    exact ne_append_mark (by decide) _ _ hversion.symm

/-- The URL up to a mark, with the rest at the checksum. -/
theorem recut_short {c : OtaCommand} {x y : Text} (hurl : urlError c = none) (h : c.url = x ++ (sha256Mark ++ y))
    (hx : 5 ≤ x.length) : Recut c := by
  refine ⟨{ c with url := x, sha256 := y ++ (sha256Mark ++ c.sha256) }, rfl, ?_, ?_, ?_⟩
  · obtain ⟨rest, -, hrest⟩ := urlError_none_iff.mp hurl
    have hhttp : x.take 4 = "http".toList := by
      have htake := congrArg (List.take 4) (h.symm.trans hrest)
      rw [List.take_append_of_le_length (by omega)] at htake
      exact htake
    refine urlError_none_iff.mpr ⟨x.drop 4, ?_, ?_⟩
    · rw [ne_eq, List.drop_eq_nil_iff]
      omega
    · rw [← hhttp, List.take_append_drop]
  · rw [signedMessage_eq_iff, h]
    simp only [List.append_assoc]
  · rintro ⟨-, hsame, -⟩
    rw [h] at hsame
    exact ne_append_mark (by decide) _ _ hsame

/-- The URL with the checksum up to a mark. -/
theorem recut_sha256 {c : OtaCommand} {x y : Text} (hurl : urlError c = none)
    (h : c.sha256 = x ++ (sha256Mark ++ y)) : Recut c := by
  refine ⟨{ c with url := c.url ++ (sha256Mark ++ x), sha256 := y }, rfl, ?_, ?_, ?_⟩
  · obtain ⟨rest, hne, hrest⟩ := urlError_none_iff.mp hurl
    refine urlError_none_iff.mpr ⟨rest ++ (sha256Mark ++ x), ?_, ?_⟩
    · rw [ne_eq, List.append_eq_nil_iff, not_and_or]
      exact .inl hne
    · show c.url ++ (sha256Mark ++ x) = _
      rw [hrest, List.append_assoc]
  · rw [signedMessage_eq_iff, h]
    simp only [List.append_assoc]
  · rintro ⟨-, hsame, -⟩
    exact ne_append_mark (by decide) _ _ hsame.symm

/-- A message with a mark in its parts can be cut in another way. -/
theorem recut_of_marked {c : OtaCommand} (hurl : urlError c = none) (h : ¬Unmarked c) : Recut c := by
  by_contra hnone
  apply h
  refine ⟨?_, ?_, ?_, ?_⟩
  · exact fun x y hversion => hnone (recut_version hversion)
  · exact fun x y hmark => by_contra fun hy => hnone (recut_url hmark hy)
  · exact fun x y hmark => by_contra fun hx => hnone (recut_short hurl hmark (by omega))
  · exact fun x y hsha => hnone (recut_sha256 hurl hsha)

/-! ## The verified bytes -/

/-- The checksum with an empty command behind it. -/
def withNoOp (c : OtaCommand) : OtaCommand := { c with sha256 := c.sha256 ++ Shell.noOp }

theorem withNoOp_other (c : OtaCommand) : ¬SameManifest c (withNoOp c) := by
  rintro ⟨-, -, hsha⟩
  have hnil := List.append_right_eq_self.mp hsha.symm
  exact absurd hnil (by decide)

theorem verifiedBytes_withNoOp (sh : Shell.Echo) {c : OtaCommand} (h : PlainValues c) :
    verifiedBytes sh (withNoOp c) = verifiedBytes sh c := by
  have hmessage : signedMessage (withNoOp c) = signedMessage c ++ (Shell.noOp ++ []) := by
    rw [signedMessage_eq, signedMessage_eq, withNoOp]
    simp only [List.append_assoc, List.append_nil]
  rw [verifiedBytes_of_plain sh h, verifiedBytes, hmessage,
    sh.noOp _ _ (plainValues_iff.mp h) Shell.verbatim_nil, List.append_nil]

/-- Another cut of a message whose values the shell takes for themselves has such values too. -/
theorem PlainValues.of_message {c c' : OtaCommand} (h : PlainValues c) (hmessage : signedMessage c = signedMessage c') :
    PlainValues c' := by
  rw [plainValues_iff] at h ⊢
  rwa [← hmessage]

/-- **The signed message.** Among the commands whose values the shell takes for themselves, the verified bytes of one that
passes the other checks are those of no other manifest that passes them, then or at any time, exactly when its parts hold
no mark at which its message could be cut. Among all commands, another manifest with its bytes passes where it does. -/
theorem message_unambiguous_iff (sh : Shell.Echo) (env : Answers) (d : Device) (c : OtaCommand)
    (hc : PassesOtherChecks env d c) (hplain : PlainValues c) :
    ((∀ env' d' c', PassesOtherChecks env' d' c' → PlainValues c' → ¬SameManifest c c' →
      verifiedBytes sh c ≠ verifiedBytes sh c') ↔ Unmarked c) ∧
    ∃ c', PassesOtherChecks env d c' ∧ ¬SameManifest c c' ∧ verifiedBytes sh c = verifiedBytes sh c' := by
  refine ⟨⟨fun h => ?_, fun h env' d' c' hc' hplain' hother hbytes => ?_⟩, withNoOp c, hc, withNoOp_other c,
    (verifiedBytes_withNoOp sh hplain).symm⟩
  · by_contra hmarked
    obtain ⟨c', hparse, hurl, hmessage, hother⟩ := recut_of_marked hc.2.2 hmarked
    refine h env d c' ⟨versionError_congr hparse hc.1, hc.2.1, hurl⟩ (hplain.of_message hmessage) hother ?_
    exact congrArg sh.written hmessage
  · rw [verifiedBytes_of_plain sh hplain, verifiedBytes_of_plain sh hplain'] at hbytes
    exact hother (h.sameManifest hc'.2.2 hbytes)

/-- The manifest of the source's documentation. -/
def documented : OtaCommand :=
  ⟨"2.0.0".toList, "https://.../artifact.ota".toList, "abc...".toList, [], []⟩

theorem message_unambiguous_documented :
    ((∀ env' d' c', PassesOtherChecks env' d' c' → PlainValues c' → ¬SameManifest documented c' →
      verifiedBytes .plain documented ≠ verifiedBytes .plain c') ↔ Unmarked documented) ∧
    ∃ c', PassesOtherChecks allWell (.start none none) c' ∧ ¬SameManifest documented c' ∧
      verifiedBytes .plain documented = verifiedBytes .plain c' :=
  message_unambiguous_iff .plain allWell (.start none none) documented ⟨by decide, by decide, by decide⟩ (by decide)

/-- A URL with a checksum in its query, and the URL without it. -/
theorem two_manifests_one_message :
    ¬∀ sh env d c c', PassesOtherChecks env d c → PassesOtherChecks env d c' → ¬SameManifest c c' →
      verifiedBytes sh c ≠ verifiedBytes sh c' := by
  intro h
  exact h .plain allWell (.start none none) ⟨"2.0.0".toList, "http://a".toList, "b&sha256=c".toList, [], []⟩
    ⟨"2.0.0".toList, "http://a&sha256=b".toList, "c".toList, [], []⟩ ⟨by decide, by decide, by decide⟩
    ⟨by decide, by decide, by decide⟩ (by decide) (by decide)

end IbarraGateway.Ota
