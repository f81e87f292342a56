import IbarraGateway.Lib.DecimalText
import IbarraGateway.Lib.TextSearch
import Mathlib

/-!
# OTA commands: versions and the flat JSON reader

`parse_version` with `sscanf("%d.%d.%d")`, `extract_json_string` and `parse_ota_command`. A text is the list of its
characters; a `%d` beyond the range of `int` saturates, as `strtol` does where `long` has 32 bits.
-/

namespace IbarraGateway.Ota
open DecimalText (isSpace scanSign)
open TextSearch (findAfter)

abbrev Text := List Char

/-! ## Versions -/

structure Version where
  major : Int
  minor : Int
  patch : Int
  deriving DecidableEq, Repr

/-- `operator>`. -/
def Version.greater (a b : Version) : Bool :=
  if a.major ≠ b.major then a.major > b.major
  else if a.minor ≠ b.minor then a.minor > b.minor
  else a.patch > b.patch

def Version.toText (v : Version) : Text :=
  (toString v.major).toList ++ ['.'] ++ (toString v.minor).toList ++ ['.'] ++ (toString v.patch).toList

/-- What a C function sees of a `std::string`. -/
def cStr (s : Text) : Text := s.takeWhile fun c => c ≠ '\x00'

def natOfDigits (ds : Text) : Nat := ds.foldl (fun n c => 10 * n + (c.toNat - '0'.toNat)) 0

def saturate (v : Int) : Int := max (-2 ^ 31) (min (2 ^ 31 - 1) v)

/-- `%d`. -/
def scanInt (s : Text) : Option (Int × Text) :=
  let r := scanSign (s.dropWhile isSpace)
  match r.2.takeWhile Char.isDigit with
  | [] => none
  | ds => some (saturate (r.1 * natOfDigits ds), r.2.dropWhile Char.isDigit)

def scanDot : Text → Option Text
  | '.' :: s => some s
  | _ => none

/-- `sscanf(s, "%d.%d.%d", …)` when all three are assigned; what follows is not looked at. -/
def scanVersion (s : Text) : Option Version :=
  (scanInt s).bind fun major => (scanDot major.2).bind fun s₁ =>
    (scanInt s₁).bind fun minor => (scanDot minor.2).bind fun s₂ =>
      (scanInt s₂).map fun patch => ⟨major.1, minor.1, patch.1⟩

/-- `parse_version`: `0.0.0` stands for failure. -/
def parseVersion (str : Text) : Version := (scanVersion (cStr str)).getD ⟨0, 0, 0⟩

/-! ## Commands -/

/-- The text up to the next quote, if there is one. -/
def quoted (s : Text) : Option Text :=
  if '"' ∈ s then some (s.takeWhile fun c => c ≠ '"') else none

/-- `extract_json_string`: the string after the first `"key"` and the first colon behind it. -/
def extractJsonString (json : Text) (key : Text) : Text :=
  match findAfter ('"' :: key ++ ['"']) json with
  | none => []
  | some rest =>
    match findAfter [':'] rest with
    | none => []
    | some rest =>
      match rest.dropWhile fun c => c ∈ [' ', '\t', '\r', '\n'] with
      | '"' :: value => (quoted value).getD []
      | _ => []

structure OtaCommand where
  version : Text
  url : Text
  sha256 : Text
  signature : Text
  nextPublicKey : Text
  deriving DecidableEq, Repr

def parseOtaCommand (json : Text) : OtaCommand where
  version := extractJsonString json "version".toList
  url := extractJsonString json "url".toList
  sha256 := extractJsonString json "sha256".toList
  signature := extractJsonString json "signature".toList
  nextPublicKey := extractJsonString json "next_public_key".toList

example : parseVersion " 2.10.-3rc".toList = ⟨2, 10, -3⟩ := by decide

example : extractJsonString "\x7b \"url\" : \"http://a\" \x7d".toList "url".toList = "http://a".toList := by decide

end IbarraGateway.Ota
