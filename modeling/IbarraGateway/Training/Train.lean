import IbarraGateway.Lib.Ctc
import Mathlib.Data.List.OfFn

/-!
# Labels and the decoder of the training

`encode_label` and `decode_ctc` for one item of a batch, from the classes that are the most likely ones of its timesteps.
-/

namespace IbarraGateway.Training

/-- `CHARS`. -/
def chars : List Char :=
  ['0', '1', '2', '3', '4', '5', '6', '7', '8', '9', '/', ':', 'L', 'O', 'T', 'E', 'V', 'N', 'C']

def blankIdx : Nat := 19

def numClasses : Nat := 20

/-- The input length of every item of `collate_fn`, and of the network's output. -/
def timesteps : Nat := 18

/-- `Character {ch!r} not in CHARS`. -/
structure ValueError where
  ch : Char
  deriving DecidableEq, Repr

def encodeLabel (label : List Char) : Except ValueError (List Nat) :=
  label.mapM fun ch =>
    match chars.idxOf? ch with
    | none => .error ⟨ch⟩
    | some idx => .ok idx

/-- The loop over the timesteps; `prev` is `none` for the -1 of the start. -/
def decodeLoop (prev : Option Nat) : List Nat → List Char
  | [] => []
  | c :: preds =>
    (if c ≠ blankIdx ∧ prev ≠ some c then (chars[c]?).toList else []) ++ decodeLoop (some c) preds

def decodeCtc (preds : List Nat) : List Char := decodeLoop none preds

/-- The loop over the batch, the second index; `argmax` is the tensor's. -/
def decodeBatch {K : Type} {W B : Nat} (argmax : (Fin numClasses → K) → Fin numClasses)
    (logProbs : Fin W → Fin B → Fin numClasses → K) : List (List Char) :=
  List.ofFn fun b => decodeCtc (List.ofFn fun t => (argmax (logProbs t b)).val)

/-! ## Encoding -/

theorem nodup_chars : chars.Nodup := by decide

theorem length_chars : chars.length = blankIdx := rfl

theorem idxOf_chars {ch : Char} (h : ch ∈ chars) : (chars.idxOf? ch).bind (chars[·]?) = some ch := by
  have hall : chars.all (fun ch => (chars.idxOf? ch).bind (chars[·]?) == some ch) = true := by decide
  exact eq_of_beq (List.all_eq_true.mp hall ch h)

/-- A label of the set's characters is encoded without loss. -/
theorem encodeLabel_ok {label : List Char} (h : ∀ ch ∈ label, ch ∈ chars) :
    ∃ indices, encodeLabel label = .ok indices ∧ indices.map (chars[·]?) = label.map some := by
  induction label with
  | nil => exact ⟨[], rfl, rfl⟩
  | cons ch label ih =>
    obtain ⟨indices, hlabel, hback⟩ := ih fun c hc => h c (List.mem_cons_of_mem _ hc)
    have hch := idxOf_chars (h ch List.mem_cons_self)
    cases hidx : chars.idxOf? ch with
    | none =>
      rw [hidx] at hch
      cases hch
    | some idx =>
      rw [hidx] at hch
      refine ⟨idx :: indices, ?_, ?_⟩
      · rw [encodeLabel, List.mapM_cons, hidx]
        rw [encodeLabel] at hlabel
        rw [hlabel]
        rfl
      · rw [List.map_cons, List.map_cons, hback]
        exact congrArg (· :: label.map some) hch

/-! ## Decoding -/

/-- The symbol of a class: none for the blank. -/
def symbol (c : Nat) : Option Char := chars[c]?

theorem symbol_eq_none_iff {c : Nat} (hc : c < numClasses) : symbol c = none ↔ c = blankIdx := by
  unfold symbol
  rw [List.getElem?_eq_none_iff, length_chars]
  have hnum : numClasses = blankIdx + 1 := rfl
  omega

theorem symbol_inj {c d : Nat} (hc : symbol c ≠ none) (h : symbol c = symbol d) : c = d := by
  unfold symbol at hc h
  have hlt : c < chars.length := by
    by_contra hle
    exact hc (List.getElem?_eq_none (Nat.le_of_not_lt hle))
  exact (List.getElem?_inj hlt nodup_chars).mp h

/-- Before a class that is not the blank, the symbol of the class before says which class it was. -/
theorem prev_eq_some_iff {c : Nat} {a : Char} (h : symbol c = some a) (prev : Option Nat) :
    prev = some c ↔ prev.bind symbol = some a := by
  constructor
  · rintro rfl
    exact h
  · intro hbind
    obtain ⟨d, rfl, hd⟩ := Option.bind_eq_some_iff.mp hbind
    rw [symbol_inj (by rw [hd]; nofun) (hd.trans h.symm)]

/-- The loop is the greedy decoding, with the blank in its place. -/
theorem decodeLoop_eq {preds : List Nat} (hpreds : ∀ c ∈ preds, c < numClasses) (prev : Option Nat)
    (hprev : ∀ c ∈ prev, c < numClasses) :
    decodeLoop prev preds = Ctc.decode (prev.bind symbol) (preds.map symbol) := by
  induction preds generalizing prev with
  | nil => rfl
  | cons c preds ih =>
    have hc := hpreds c List.mem_cons_self
    have hrest := ih (fun d hd => hpreds d (List.mem_cons_of_mem _ hd)) (some c) (fun d hd => by cases hd; exact hc)
    rw [decodeLoop, hrest, List.map_cons, Option.bind_some]
    cases hsymbol : symbol c with
    | none =>
      have hblank := (symbol_eq_none_iff hc).mp hsymbol
      rw [if_neg (fun h => h.1 hblank)]
      rfl
    | some a =>
      have hnot : c ≠ blankIdx := fun hblank => by
        rw [(symbol_eq_none_iff hc).mpr hblank] at hsymbol
        cases hsymbol
      have hsame := prev_eq_some_iff hsymbol prev
      rw [Ctc.decode]
      by_cases hrepeat : prev = some c
      · rw [if_neg (fun h => h.2 hrepeat), if_pos (hsame.mp hrepeat)]
        rfl
      · rw [if_pos ⟨hnot, hrepeat⟩, if_neg (fun h => hrepeat (hsame.mpr h))]
        show (symbol c).toList ++ _ = _
        rw [hsymbol]
        rfl

/-- What the decoder can give from the network's classes. -/
def Producible (T : Nat) (label : List Char) : Prop :=
  ∃ preds, preds.length = T ∧ (∀ c ∈ preds, c < numClasses) ∧ decodeCtc preds = label

/-- The labels of the set's characters that the decoder can give within `T` timesteps. -/
theorem producible_iff {T : Nat} {label : List Char} (h : ∀ ch ∈ label, ch ∈ chars) :
    Producible T label ↔ label.length + Ctc.repeats label ≤ T := by
  constructor
  · rintro ⟨preds, rfl, hpreds, rfl⟩
    have hle := Ctc.length_collapse_add_repeats_le (preds.map symbol)
    rw [List.length_map] at hle
    rw [decodeCtc, decodeLoop_eq hpreds none nofun]
    exact hle
  · intro hle
    obtain ⟨path, hlength, hsymbols, hpath⟩ := Ctc.exists_path hle
    have hclass : ∀ c ∈ path, ∃ d, d < numClasses ∧ symbol d = c := by
      intro c hc
      cases c with
      | none => exact ⟨blankIdx, by decide, rfl⟩
      | some a =>
        obtain ⟨d, -, hd⟩ := Option.bind_eq_some_iff.mp (idxOf_chars (h a (hsymbols a hc)))
        refine ⟨d, ?_, hd⟩
        by_contra hlt
        rw [List.getElem?_eq_none (Nat.le_trans (by decide) (Nat.le_of_not_lt hlt))] at hd
        cases hd
    have hpreds : ∃ preds : List Nat, (∀ d ∈ preds, d < numClasses) ∧ preds.map symbol = path := by
      clear hlength hpath hsymbols
      induction path with
      | nil => exact ⟨[], nofun, rfl⟩
      | cons c path ih =>
        obtain ⟨d, hd, hsymbol⟩ := hclass c List.mem_cons_self
        obtain ⟨preds, hlt, hmap⟩ := ih fun c hc => hclass c (List.mem_cons_of_mem _ hc)
        refine ⟨d :: preds, ?_, by rw [List.map_cons, hsymbol, hmap]⟩
        intro e he
        rcases List.mem_cons.mp he with rfl | he
        · exact hd
        · exact hlt e he
    obtain ⟨preds, hlt, rfl⟩ := hpreds
    refine ⟨preds, by rw [← hlength, List.length_map], hlt, ?_⟩
    rw [decodeCtc, decodeLoop_eq hlt none nofun]
    exact hpath

end IbarraGateway.Training
