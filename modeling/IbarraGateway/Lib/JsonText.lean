import IbarraGateway.Lib.Machine
import IbarraGateway.Lib.Numeral

/-!
# JSON texts

`JSON.parse` : a lexer, as a machine from characters to tokens, and a parser of the tokens with an explicit stack. Strings
are code units, as a text's escapes can name them one by one.

* `ofUnits_units` : a text is read back from its code units.
* `lexFrom_append` : texts are read piece by piece.
* `lexFrom_word` : a number or a literal, up to the character that ends it.
* `inString_of_quote` : where a quote, a comma and a line break can stand, the lexer was within a string.
* `parse_tokens` : the parser reads every value back from its tokens.
-/

namespace IbarraGateway.JsonText

abbrev Units : Type := List UInt16

/-- The code units of a character. -/
def utf16 (c : Char) : Units :=
  if c.toNat < 0x10000 then [UInt16.ofNat c.toNat]
  else
    let k := c.toNat - 0x10000
    [UInt16.ofNat (0xD800 + k / 0x400), UInt16.ofNat (0xDC00 + k % 0x400)]

def units (text : List Char) : Units := text.flatMap utf16

/-- The characters of code units; half of a pair alone is a U+FFFD. -/
def ofUnits : Units → List Char
  | [] => []
  | [u] => [if 0xD800 ≤ u ∧ u < 0xE000 then Char.ofNat 0xFFFD else Char.ofNat u.toNat]
  | u :: v :: us =>
    if 0xD800 ≤ u ∧ u < 0xDC00 ∧ 0xDC00 ≤ v ∧ v < 0xE000 then
      Char.ofNat (0x10000 + (u.toNat - 0xD800) * 0x400 + (v.toNat - 0xDC00)) :: ofUnits us
    else (if 0xD800 ≤ u ∧ u < 0xE000 then Char.ofNat 0xFFFD else Char.ofNat u.toNat) :: ofUnits (v :: us)

inductive Value
  | null
  | bool (b : Bool)
  | num (q : ℚ)
  | str (s : Units)
  | arr (items : List Value)
  | obj (members : List (Units × Value))

mutual
/-- How deep arrays and objects are nested. -/
def Value.depth : Value → Nat
  | .arr items => depthItems items + 1
  | .obj members => depthMembers members + 1
  | _ => 0

def depthItems : List Value → Nat
  | [] => 0
  | v :: items => max v.depth (depthItems items)

def depthMembers : List (Units × Value) → Nat
  | [] => 0
  | (_, v) :: members => max v.depth (depthMembers members)
end

/-- A property of a value: the last member of the name. -/
def Value.get (name : Units) : Value → Option Value
  | obj members => members.reverse.lookup name
  | _ => none

inductive Token
  | lbrace
  | rbrace
  | lbracket
  | rbracket
  | colon
  | comma
  | null
  | bool (b : Bool)
  | num (q : ℚ)
  | str (s : Units)
  deriving DecidableEq

/-! ## Lexer -/

def isSpace (c : Char) : Bool := c = ' ' || c = '\n' || c = '\t' || c = '\r'

def punctuation (c : Char) : Option Token :=
  if c = '\x7b' then some .lbrace
  else if c = '\x7d' then some .rbrace
  else if c = '[' then some .lbracket
  else if c = ']' then some .rbracket
  else if c = ':' then some .colon
  else if c = ',' then some .comma
  else none

/-- A literal or a number. -/
def wordToken (w : List Char) : Option Token :=
  if w = ['n', 'u', 'l', 'l'] then some .null
  else if w = ['t', 'r', 'u', 'e'] then some (.bool true)
  else if w = ['f', 'a', 'l', 's', 'e'] then some (.bool false)
  else (Numeral.readNumber w).map .num

/-- The unit of an escape of one character. -/
def escapeUnit (c : Char) : Option UInt16 :=
  if c = '"' ∨ c = '\\' ∨ c = '/' then some (UInt16.ofNat c.toNat)
  else if c = 'b' then some 8
  else if c = 'f' then some 12
  else if c = 'n' then some 10
  else if c = 'r' then some 13
  else if c = 't' then some 9
  else none

def hexDigit (c : Char) : Option Nat :=
  if '0' ≤ c ∧ c ≤ '9' then some (c.toNat - 48)
  else if 'a' ≤ c ∧ c ≤ 'f' then some (c.toNat - 87)
  else if 'A' ≤ c ∧ c ≤ 'F' then some (c.toNat - 55)
  else none

inductive LexState
  | between
  | word (w : List Char)
  | inString (s : Units)
  | escape (s : Units)
  | hex (s : Units) (owed : Nat) (bits : Nat)

/-- A character that ends a word. -/
def isDelimiter (c : Char) : Bool := isSpace c || (punctuation c).isSome || c = '"'

/-- A character between tokens. -/
def startToken (c : Char) : LexState × List Token :=
  if isSpace c then (.between, [])
  else
    match punctuation c with
    | some t => (.between, [t])
    | none => if c = '"' then (.inString [], []) else (.word [c], [])

def lexStep : LexState → Char → Option (LexState × List Token)
  | .between, c => some (startToken c)
  | .word w, c =>
    if isDelimiter c then (wordToken w).map fun t => ((startToken c).1, t :: (startToken c).2) else some (.word (w ++ [c]), [])
  | .inString s, c =>
    if c = '"' then some (.between, [.str s])
    else if c = '\\' then some (.escape s, [])
    else if c.toNat < 0x20 then none
    else some (.inString (s ++ utf16 c), [])
  | .escape s, c => if c = 'u' then some (.hex s 4 0, []) else (escapeUnit c).map fun u => (.inString (s ++ [u]), [])
  | .hex s owed bits, c =>
    (hexDigit c).map fun d =>
      if owed ≤ 1 then (.inString (s ++ [UInt16.ofNat (16 * bits + d)]), []) else (.hex s (owed - 1) (16 * bits + d), [])

def lexer : Machine LexState Char Token := ⟨lexStep⟩

/-- The end of the text. -/
def lexEnd : LexState → Option (List Token)
  | .between => some []
  | .word w => (wordToken w).map fun t => [t]
  | _ => none

def lexFrom (s : LexState) (text : List Char) : Option (List Token) :=
  (lexer.run s text).bind fun r => (lexEnd r.1).map fun last => r.2 ++ last

def lex (text : List Char) : Option (List Token) := lexFrom .between text

/-! ## Parser -/

inductive Frame
  | arr (items : List Value)
  | obj (members : List (Units × Value)) (key : Units)

/-- What is expected, within the open arrays and objects. -/
inductive Mode
  | value
  | firstItem
  | firstKey
  | key (members : List (Units × Value))
  | colon (members : List (Units × Value)) (key : Units)
  | after (v : Value)

structure ParseState where
  mode : Mode
  stack : List Frame

def parseValue (stack : List Frame) : Token → Option ParseState
  | .null => some ⟨.after .null, stack⟩
  | .bool b => some ⟨.after (.bool b), stack⟩
  | .num q => some ⟨.after (.num q), stack⟩
  | .str s => some ⟨.after (.str s), stack⟩
  | .lbracket => some ⟨.firstItem, stack⟩
  | .lbrace => some ⟨.firstKey, stack⟩
  | _ => none

def parseStep : ParseState → Token → Option ParseState
  | ⟨.value, stack⟩, t => parseValue stack t
  | ⟨.firstItem, stack⟩, .rbracket => some ⟨.after (.arr []), stack⟩
  | ⟨.firstItem, stack⟩, t => parseValue (.arr [] :: stack) t
  | ⟨.firstKey, stack⟩, .rbrace => some ⟨.after (.obj []), stack⟩
  | ⟨.firstKey, stack⟩, .str k => some ⟨.colon [] k, stack⟩
  | ⟨.key members, stack⟩, .str k => some ⟨.colon members k, stack⟩
  | ⟨.colon members k, stack⟩, .colon => some ⟨.value, .obj members k :: stack⟩
  | ⟨.after v, .arr items :: stack⟩, .comma => some ⟨.value, .arr (items ++ [v]) :: stack⟩
  | ⟨.after v, .arr items :: stack⟩, .rbracket => some ⟨.after (.arr (items ++ [v])), stack⟩
  | ⟨.after v, .obj members k :: stack⟩, .comma => some ⟨.key (members ++ [(k, v)]), stack⟩
  | ⟨.after v, .obj members k :: stack⟩, .rbrace => some ⟨.after (.obj (members ++ [(k, v)])), stack⟩
  | _, _ => none

def parseEnd : ParseState → Option Value
  | ⟨.after v, []⟩ => some v
  | _ => none

def parse (ts : List Token) : Option Value := (ts.foldlM parseStep ⟨.value, []⟩).bind parseEnd

/-- `JSON.parse`, with `none` for its `SyntaxError`. -/
def parseText (text : List Char) : Option Value := (lex text).bind parse

/-! ## Code units -/

theorem toNat_bounds (c : Char) : c.toNat < 0xD800 ∨ 0xDFFF < c.toNat ∧ c.toNat < 0x110000 := c.valid

/-- A unit that is no half of a pair. -/
theorem ofUnits_single {u : UInt16} (h : u.toNat < 0xD800 ∨ 0xDFFF < u.toNat) (us : Units) :
    ofUnits (u :: us) = Char.ofNat u.toNat :: ofUnits us := by
  have hhalf : ¬(0xD800 ≤ u ∧ u < 0xE000) := by
    rw [UInt16.le_iff_toNat_le, UInt16.lt_iff_toNat_lt]
    simp
    omega
  have hhigh : ¬(0xD800 ≤ u ∧ u < 0xDC00) := by
    rw [UInt16.le_iff_toNat_le, UInt16.lt_iff_toNat_lt]
    simp
    omega
  cases us with
  | nil =>
    show [if 0xD800 ≤ u ∧ u < 0xE000 then Char.ofNat 0xFFFD else Char.ofNat u.toNat] = [Char.ofNat u.toNat]
    rw [if_neg hhalf]
  | cons v us => rw [ofUnits, if_neg (fun hpair => hhigh ⟨hpair.1, hpair.2.1⟩), if_neg hhalf]

theorem ofUnits_utf16 (c : Char) (us : Units) : ofUnits (utf16 c ++ us) = c :: ofUnits us := by
  have hc := toNat_bounds c
  unfold utf16
  split
  · rename_i hlow
    have hu : (UInt16.ofNat c.toNat).toNat = c.toNat := by
      rw [UInt16.toNat_ofNat', Nat.mod_eq_of_lt hlow]
    rw [List.singleton_append, ofUnits_single (by rw [hu]; omega), hu, Char.ofNat_toNat]
  · rename_i hlow
    dsimp only
    have hu : (UInt16.ofNat (0xD800 + (c.toNat - 0x10000) / 0x400)).toNat = 0xD800 + (c.toNat - 0x10000) / 0x400 := by
      rw [UInt16.toNat_ofNat']
      omega
    have hv : (UInt16.ofNat (0xDC00 + (c.toNat - 0x10000) % 0x400)).toNat = 0xDC00 + (c.toNat - 0x10000) % 0x400 := by
      rw [UInt16.toNat_ofNat']
      omega
    have hpair : 0xD800 ≤ UInt16.ofNat (0xD800 + (c.toNat - 0x10000) / 0x400) ∧
        UInt16.ofNat (0xD800 + (c.toNat - 0x10000) / 0x400) < 0xDC00 ∧
        0xDC00 ≤ UInt16.ofNat (0xDC00 + (c.toNat - 0x10000) % 0x400) ∧
        UInt16.ofNat (0xDC00 + (c.toNat - 0x10000) % 0x400) < 0xE000 := by
      simp only [UInt16.le_iff_toNat_le, UInt16.lt_iff_toNat_lt, hu, hv]
      simp
      omega
    rw [List.cons_append, List.singleton_append, ofUnits, if_pos hpair, hu, hv]
    have hsum : 0x10000 + (0xD800 + (c.toNat - 0x10000) / 0x400 - 0xD800) * 0x400 +
        (0xDC00 + (c.toNat - 0x10000) % 0x400 - 0xDC00) = c.toNat := by omega
    rw [hsum, Char.ofNat_toNat]

/-- A text is read back from its code units. -/
theorem ofUnits_units (text : List Char) : ofUnits (units text) = text := by
  induction text with
  | nil => rfl
  | cons c text ih =>
    rw [units, List.flatMap_cons, ofUnits_utf16]
    exact congrArg (c :: ·) ih

theorem units_inj {s t : List Char} (h : units s = units t) : s = t := by
  rw [← ofUnits_units s, h, ofUnits_units]

/-! ## Texts piece by piece -/

theorem lexFrom_append (s : LexState) (text rest : List Char) : lexFrom s (text ++ rest) =
    (lexer.run s text).bind fun r => (lexFrom r.1 rest).map fun ts => r.2 ++ ts := by
  unfold lexFrom
  rw [lexer.run_append]
  cases lexer.run s text with
  | none => rfl
  | some r =>
    rw [Option.bind_some, Option.bind_some]
    cases lexer.run r.1 rest with
    | none => rfl
    | some r' =>
      rw [Option.map_some, Option.bind_some, Option.bind_some]
      cases lexEnd r'.1 with
      | none => rfl
      | some last =>
        rw [Option.map_some, Option.map_some, Option.map_some, List.append_assoc]

/-- A piece that is lexed by itself, whatever follows it. -/
def Lexes (s : LexState) (text : List Char) (ts : List Token) (s' : LexState) : Prop :=
  ∀ rest, lexFrom s (text ++ rest) = (lexFrom s' rest).map fun ts' => ts ++ ts'

section Pieces
variable {s s' s'' : LexState} {text text' : List Char} {ts ts' : List Token}

theorem Lexes.of_run (h : lexer.run s text = some (s', ts)) : Lexes s text ts s' := by
  intro rest
  rw [lexFrom_append, h, Option.bind_some]

theorem Lexes.append (h : Lexes s text ts s') (h' : Lexes s' text' ts' s'') : Lexes s (text ++ text') (ts ++ ts') s'' := by
  intro rest
  rw [List.append_assoc, h, h', Option.map_map]
  exact congrArg (Option.map · _) (funext fun us => (List.append_assoc ts ts' us).symm)

end Pieces

theorem lexFrom_cons {s s' : LexState} {c : Char} {ts : List Token} (h : lexStep s c = some (s', ts)) (rest : List Char) :
    lexFrom s (c :: rest) = (lexFrom s' rest).map fun ts' => ts ++ ts' := by
  have hrun : lexer.run s [c] = some (s', ts) := by
    rw [Machine.run, show lexer.step s c = some (s', ts) from h]
    show some (s', ts ++ []) = _
    rw [List.append_nil]
  exact Lexes.of_run hrun rest

theorem lexFrom_cons_none {s : LexState} {c : Char} (h : lexStep s c = none) (rest : List Char) :
    lexFrom s (c :: rest) = none := by
  rw [lexFrom, Machine.run, show lexer.step s c = none from h]
  rfl

theorem run_word {w w' : List Char} (hw : ∀ c ∈ w, isDelimiter c = false) :
    lexer.run (.word w') w = some (.word (w' ++ w), []) := by
  induction w generalizing w' with
  | nil => rw [List.append_nil, Machine.run_nil]
  | cons c w ih =>
    have hstep : lexer.step (.word w') c = some (.word (w' ++ [c]), []) := by
      show lexStep (.word w') c = _
      rw [lexStep, if_neg (by rw [hw c List.mem_cons_self]; decide)]
    have hrest : lexer.run (.word (w' ++ [c])) w = some (.word (w' ++ [c] ++ w), []) :=
      ih fun c hc => hw c (List.mem_cons_of_mem _ hc)
    rw [lexer.run_cons_of hstep hrest, List.append_assoc]
    rfl

theorem startToken_of_word {c : Char} (hc : isDelimiter c = false) : startToken c = (.word [c], []) := by
  simp only [isDelimiter, Bool.or_eq_false_iff, Option.isSome_eq_false_iff, Option.isNone_iff_eq_none,
    decide_eq_false_iff_not] at hc
  obtain ⟨⟨hspace, hpunctuation⟩, hquote⟩ := hc
  rw [startToken, hspace, hpunctuation]
  simp only [Bool.false_eq_true, if_false, hquote]

/-- A word in front of the character that ends it. -/
theorem lexFrom_word {w : List Char} (hne : w ≠ []) (hw : ∀ c ∈ w, isDelimiter c = false) {d : Char}
    (hd : isDelimiter d = true) (rest : List Char) : lexFrom .between (w ++ d :: rest) =
      (wordToken w).bind fun t => (lexFrom .between (d :: rest)).map fun ts => t :: ts := by
  obtain ⟨c, w, rfl⟩ := List.exists_cons_of_ne_nil hne
  have hfirst : lexStep .between c = some (.word [c], []) := congrArg some (startToken_of_word (hw c List.mem_cons_self))
  have hword : lexer.run (.word [c]) w = some (.word (c :: w), []) := run_word fun c hc => hw c (List.mem_cons_of_mem _ hc)
  have hend : lexStep (.word (c :: w)) d = (wordToken (c :: w)).map fun t => ((startToken d).1, t :: (startToken d).2) := by
    rw [lexStep, if_pos hd]
  have hnext : lexStep .between d = some ((startToken d).1, (startToken d).2) := rfl
  rw [List.cons_append, lexFrom_cons hfirst, Lexes.of_run hword, lexFrom_cons hnext]
  cases htoken : wordToken (c :: w) with
  | none =>
    rw [htoken] at hend
    rw [lexFrom_cons_none hend]
    rfl
  | some t =>
    rw [htoken] at hend
    rw [lexFrom_cons hend]
    cases lexFrom (startToken d).1 rest <;> rfl

theorem isDelimiter_digit {c : Char} (hc : c.isDigit = true) : isDelimiter c = false := by
  have hall : ∀ k < 10, isDelimiter (Char.ofNat (48 + k)) = false := by decide
  simp only [Char.isDigit, Bool.and_eq_true, decide_eq_true_eq] at hc
  have hrange : 48 ≤ c.toNat ∧ c.toNat ≤ 57 := hc
  have hdigit := hall (c.toNat - 48) (by omega)
  rwa [Nat.add_sub_cancel' hrange.1, Char.ofNat_toNat] at hdigit

theorem wordToken_numeral (n : Numeral) : wordToken n.text = some (.num n.value) := by
  obtain ⟨c, rest, htext, hc⟩ := n.head_text
  have hno : ∀ l ∈ ['n', 't', 'f'], c ≠ l := by
    rintro l hl rfl
    rcases hc with rfl | hdigit
    · exact absurd hl (by decide)
    · have hall : ['n', 't', 'f'].all (fun l => !l.isDigit) = true := by decide
      have hnot := List.all_eq_true.mp hall c hl
      rw [hdigit] at hnot
      cases hnot
  unfold wordToken
  rw [if_neg, if_neg, if_neg, n.readNumber_text, Option.map_some]
  all_goals
    rw [htext]
    intro heq
    exact hno _ (by decide) (List.cons.inj heq).1

/-- A word with a token, in front of a piece that ends it. -/
theorem Lexes.word {w text : List Char} {t : Token} {ts : List Token} {s : LexState} (htoken : wordToken w = some t)
    (hne : w ≠ []) (hw : ∀ c ∈ w, isDelimiter c = false) (hd : text.head?.map isDelimiter = some true)
    (h : Lexes .between text ts s) : Lexes .between (w ++ text) (t :: ts) s := by
  intro rest
  obtain ⟨d, hhead, hdelimiter⟩ := Option.map_eq_some_iff.mp hd
  obtain ⟨text, rfl⟩ := List.head?_eq_some_iff.mp hhead
  rw [List.append_assoc, List.cons_append, lexFrom_word hne hw hdelimiter, htoken, Option.bind_some, ← List.cons_append, h,
    Option.map_map]
  rfl

theorem Lexes.numeral (n : Numeral) {text : List Char} {ts : List Token} {s : LexState}
    (hd : text.head?.map isDelimiter = some true) (h : Lexes .between text ts s) :
    Lexes .between (n.text ++ text) (.num n.value :: ts) s := by
  have hword : ∀ c ∈ n.text, isDelimiter c = false := by
    intro c hc
    rcases n.mem_text c hc with hdigit | hsymbol
    · exact isDelimiter_digit hdigit
    · have hall : ['-', '+', '.', 'e'].all (fun c => !isDelimiter c) = true := by decide
      exact Bool.not_eq_true' _ ▸ List.all_eq_true.mp hall c hsymbol
  obtain ⟨c, ds, htext, -⟩ := n.head_text
  exact .word (wordToken_numeral n) (by rw [htext]; exact List.cons_ne_nil _ _) hword hd h

section Literals
variable {text : List Char} {ts : List Token} {s : LexState}

/-- A literal, by evaluation. -/
theorem Lexes.literal {w : List Char} {t : Token} (htoken : wordToken w = some t) (hne : w ≠ [])
    (hw : w.all (fun c => !isDelimiter c) = true) (hd : text.head?.map isDelimiter = some true) (h : Lexes .between text ts s) :
    Lexes .between (w ++ text) (t :: ts) s :=
  .word htoken hne (fun c hc => Bool.not_eq_true' _ ▸ List.all_eq_true.mp hw c hc) hd h

theorem Lexes.trueWord (hd : text.head?.map isDelimiter = some true) (h : Lexes .between text ts s) :
    Lexes .between (['t', 'r', 'u', 'e'] ++ text) (.bool true :: ts) s := .literal rfl (List.cons_ne_nil _ _) rfl hd h

theorem Lexes.falseWord (hd : text.head?.map isDelimiter = some true) (h : Lexes .between text ts s) :
    Lexes .between (['f', 'a', 'l', 's', 'e'] ++ text) (.bool false :: ts) s := .literal rfl (List.cons_ne_nil _ _) rfl hd h

end Literals

/-! ## Strings -/

/-- The tokens of a text that is put between quotes: one string, or more where it has quotes itself. -/
def stringTokens (text : List Char) : Option (List Token) :=
  match lexer.run (.inString []) text with
  | some (.inString s, ts) => some (ts ++ [.str s])
  | _ => none

/-- A quote, a comma and a line break can only stand behind a string. -/
theorem lexFrom_quote (s : LexState) (rest : List Char) : lexFrom s ('"' :: ',' :: '\n' :: rest) =
    match s with
    | .inString u => (lexFrom .between rest).map fun ts => .str u :: .comma :: ts
    | _ => none := by
  have hopen : lexFrom (.inString []) (',' :: '\n' :: rest) = none := by
    rw [lexFrom_cons (show lexStep (.inString []) ',' = some (.inString [44], []) from rfl), lexFrom_cons_none rfl]
    rfl
  cases s with
  | between =>
    rw [lexFrom_cons (show lexStep .between '"' = some (.inString [], []) from rfl), hopen]
    rfl
  | word w =>
    cases htoken : wordToken w with
    | none =>
      rw [lexFrom_cons_none]
      show Option.map _ (wordToken w) = none
      rw [htoken]
      rfl
    | some t =>
      have hstep : lexStep (.word w) '"' = some (.inString [], [t]) := by
        show Option.map _ (wordToken w) = _
        rw [htoken]
        rfl
      rw [lexFrom_cons hstep, hopen]
      rfl
  | inString u =>
    rw [lexFrom_cons (show lexStep (.inString u) '"' = some (.between, [.str u]) from rfl),
      lexFrom_cons (show lexStep .between ',' = some (.between, [.comma]) from rfl),
      lexFrom_cons (show lexStep .between '\n' = some (.between, []) from rfl)]
    cases lexFrom .between rest <;> rfl
  | escape u =>
    rw [lexFrom_cons (show lexStep (.escape u) '"' = some (.inString (u ++ [34]), []) from rfl),
      lexFrom_cons (show lexStep (.inString (u ++ [34])) ',' = some (.inString (u ++ [34] ++ [44]), []) from rfl),
      lexFrom_cons_none rfl]
    rfl
  | hex u owed bits => rw [lexFrom_cons_none rfl]

/-- A text behind its opening quote, and the end of its line. -/
theorem lexFrom_string (text rest : List Char) : lexFrom (.inString []) (text ++ '"' :: ',' :: '\n' :: rest) =
    (stringTokens text).bind fun ts => (lexFrom .between rest).map fun ts' => ts ++ .comma :: ts' := by
  rw [lexFrom_append, stringTokens]
  cases lexer.run (.inString []) text with
  | none => rfl
  | some r =>
    obtain ⟨s, ts⟩ := r
    rw [Option.bind_some, lexFrom_quote]
    cases s with
    | inString u =>
      cases hrest : lexFrom .between rest with
      | none => rfl
      | some ts' =>
        show some (ts ++ .str u :: .comma :: ts') = some (ts ++ [.str u] ++ .comma :: ts')
        rw [List.append_assoc]
        rfl
    | _ => rfl

/-- What a step of the lexer can do. -/
inductive LexStep (c : Char) : LexState → LexState → List Token → Prop
  | start {s' : LexState} {out : List Token} (hstart : startToken c = (s', out)) : LexStep c .between s' out
  | wordEnd {w : List Char} {t : Token} {s' : LexState} {out : List Token} (hdelimiter : isDelimiter c = true)
      (ht : wordToken w = some t) (hstart : startToken c = (s', out)) : LexStep c (.word w) s' (t :: out)
  | wordMore (w : List Char) (hdelimiter : ¬isDelimiter c = true) : LexStep c (.word w) (.word (w ++ [c])) []
  | close (u : Units) (hc : c = '"') : LexStep c (.inString u) .between [.str u]
  | backslash (u : Units) (hc : c = '\\') : LexStep c (.inString u) (.escape u) []
  | char (u : Units) (hquote : c ≠ '"') (hescape : c ≠ '\\') (hcontrol : ¬c.toNat < 0x20) :
      LexStep c (.inString u) (.inString (u ++ utf16 c)) []
  | hexStart (u : Units) (hc : c = 'u') : LexStep c (.escape u) (.hex u 4 0) []
  | escaped (u : Units) {unit : UInt16} (hunit : escapeUnit c = some unit) : LexStep c (.escape u) (.inString (u ++ [unit])) []
  | hexEnd (u : Units) {owed bits d : Nat} (hd : hexDigit c = some d) (howed : owed ≤ 1) :
      LexStep c (.hex u owed bits) (.inString (u ++ [UInt16.ofNat (16 * bits + d)])) []
  | hexMore (u : Units) {owed bits d : Nat} (hd : hexDigit c = some d) (howed : ¬owed ≤ 1) :
      LexStep c (.hex u owed bits) (.hex u (owed - 1) (16 * bits + d)) []

theorem lexStep_inv {s s' : LexState} {c : Char} {out : List Token} (h : lexStep s c = some (s', out)) : LexStep c s s' out := by
  cases s with
  | between => exact .start (Option.some.inj h)
  | word w =>
    rw [lexStep] at h
    split at h
    · rename_i hdelimiter
      obtain ⟨t, ht, heq⟩ := Option.map_eq_some_iff.mp h
      cases heq
      exact .wordEnd hdelimiter ht rfl
    · rename_i hdelimiter
      cases h
      exact .wordMore w hdelimiter
  | inString u =>
    rw [lexStep] at h
    split at h
    · rename_i hc
      cases h
      exact .close u hc
    split at h
    · rename_i hc
      cases h
      exact .backslash u hc
    split at h
    · cases h
    · rename_i hquote hescape hcontrol
      cases h
      exact .char u hquote hescape hcontrol
  | escape u =>
    rw [lexStep] at h
    split at h
    · rename_i hc
      cases h
      exact .hexStart u hc
    · obtain ⟨unit, hunit, heq⟩ := Option.map_eq_some_iff.mp h
      cases heq
      exact .escaped u hunit
  | hex u owed bits =>
    obtain ⟨d, hd, heq⟩ := Option.map_eq_some_iff.mp h
    split at heq
    · rename_i howed
      cases heq
      exact .hexEnd u hd howed
    · rename_i howed
      cases heq
      exact .hexMore u hd howed

/-- Within a string. -/
def LexState.Quoted : LexState → Prop
  | inString _ => True
  | escape _ => True
  | hex .. => True
  | _ => False

theorem quoted_step {s t : LexState} {c : Char} {ts : List Token} (hs : s.Quoted) (hc : c ≠ '"')
    (h : lexStep s c = some (t, ts)) : t.Quoted ∧ ts = [] := by
  cases lexStep_inv h with
  | start => cases hs
  | wordEnd => cases hs
  | wordMore => cases hs
  | close _ hquote => exact absurd hquote hc
  | _ => exact ⟨trivial, rfl⟩

theorem quoted_run {s t : LexState} {text : List Char} {ts : List Token} (hs : s.Quoted) (htext : '"' ∉ text)
    (h : lexer.run s text = some (t, ts)) : t.Quoted ∧ ts = [] := by
  induction text generalizing s ts with
  | nil =>
    cases h
    exact ⟨hs, rfl⟩
  | cons c text ih =>
    obtain ⟨s', out, outs, hstep, hrun, rfl⟩ := lexer.run_cons_iff.mp h
    obtain ⟨hs', rfl⟩ := quoted_step hs (fun heq => htext (heq ▸ List.mem_cons_self)) hstep
    obtain ⟨ht, rfl⟩ := ih hs' (fun hmem => htext (List.mem_cons_of_mem _ hmem)) hrun
    exact ⟨ht, rfl⟩

/-- A text without a quote is one string. -/
theorem stringTokens_of_no_quote {text : List Char} {ts : List Token} (htext : '"' ∉ text) (h : stringTokens text = some ts) :
    ∃ s, ts = [.str s] := by
  unfold stringTokens at h
  split at h
  · rename_i s out hrun
    obtain ⟨-, rfl⟩ := quoted_run (s := .inString []) trivial htext hrun
    cases h
    exact ⟨s, rfl⟩
  · cases h

/-! ## The tokens of a value -/

mutual
def tokens : Value → List Token
  | .null => [.null]
  | .bool b => [.bool b]
  | .num q => [.num q]
  | .str s => [.str s]
  | .arr [] => [.lbracket, .rbracket]
  | .arr (v :: items) => .lbracket :: (tokens v ++ itemTokens items)
  | .obj [] => [.lbrace, .rbrace]
  | .obj ((k, v) :: members) => .lbrace :: .str k :: .colon :: (tokens v ++ memberTokens members)

/-- What follows an item. -/
def itemTokens : List Value → List Token
  | [] => [.rbracket]
  | v :: items => .comma :: (tokens v ++ itemTokens items)

/-- What follows a member. -/
def memberTokens : List (Units × Value) → List Token
  | [] => [.rbrace]
  | (k, v) :: members => .comma :: .str k :: .colon :: (tokens v ++ memberTokens members)
end

/-- The first item of an array is read as any value. -/
theorem parse_firstItem (v : Value) (stack : List Frame) (rest : List Token) :
    (tokens v ++ rest).foldlM parseStep ⟨.firstItem, stack⟩ = (tokens v ++ rest).foldlM parseStep ⟨.value, .arr [] :: stack⟩ := by
  cases v with
  | arr items => cases items <;> rfl
  | obj members => cases members <;> rfl
  | _ => rfl

mutual
theorem parse_value (v : Value) (stack : List Frame) (rest : List Token) :
    (tokens v ++ rest).foldlM parseStep ⟨.value, stack⟩ = rest.foldlM parseStep ⟨.after v, stack⟩ := by
  match v with
  | .null => rfl
  | .bool b => rfl
  | .num q => rfl
  | .str s => rfl
  | .arr [] => rfl
  | .arr (v :: items) =>
    rw [tokens, List.cons_append, List.append_assoc]
    show (tokens v ++ (itemTokens items ++ rest)).foldlM parseStep ⟨.firstItem, stack⟩ = _
    rw [parse_firstItem, parse_value v, parse_items items]
    rfl
  | .obj [] => rfl
  | .obj ((k, v) :: members) =>
    rw [tokens, List.cons_append, List.cons_append, List.cons_append, List.append_assoc]
    show (tokens v ++ (memberTokens members ++ rest)).foldlM parseStep ⟨.value, .obj [] k :: stack⟩ = _
    rw [parse_value v, parse_members members]
    rfl

theorem parse_items (items : List Value) (before : List Value) (v : Value) (stack : List Frame) (rest : List Token) :
    (itemTokens items ++ rest).foldlM parseStep ⟨.after v, .arr before :: stack⟩ =
      rest.foldlM parseStep ⟨.after (.arr (before ++ v :: items)), stack⟩ := by
  match items with
  | [] => rfl
  | w :: items =>
    rw [itemTokens, List.cons_append, List.append_assoc]
    show (tokens w ++ (itemTokens items ++ rest)).foldlM parseStep ⟨.value, .arr (before ++ [v]) :: stack⟩ = _
    rw [parse_value w, parse_items items, List.append_assoc]
    rfl

theorem parse_members (members : List (Units × Value)) (before : List (Units × Value)) (k : Units) (v : Value)
    (stack : List Frame) (rest : List Token) :
    (memberTokens members ++ rest).foldlM parseStep ⟨.after v, .obj before k :: stack⟩ =
      rest.foldlM parseStep ⟨.after (.obj (before ++ (k, v) :: members)), stack⟩ := by
  match members with
  | [] => rfl
  | (k', w) :: members =>
    rw [memberTokens, List.cons_append, List.cons_append, List.cons_append, List.append_assoc]
    show (tokens w ++ (memberTokens members ++ rest)).foldlM parseStep ⟨.value, .obj (before ++ [(k, v)]) k' :: stack⟩ = _
    rw [parse_value w, parse_members members, List.append_assoc]
    rfl
end

/-- A value is read back from its tokens. -/
theorem parse_tokens (v : Value) : parse (tokens v) = some v := by
  have hvalue := parse_value v [] []
  rw [List.append_nil] at hvalue
  rw [parse, hvalue]
  rfl

end IbarraGateway.JsonText
