import IbarraGateway.Lib.JsonReading
import IbarraGateway.Lib.StreamText

/-!
# Printed JSON

A document as a program prints it: its numbers are numerals, and each string comes with the text that stands for it between
quotes. A document that can be built is JSON, whatever the program puts behind its commas and colons.

* `parse_text` : every document is read back.
* `Quoted.plain`, `Quoted.escaped` : a text that stands for itself, and any text with its escapes.
-/

namespace IbarraGateway.JsonText

/-- What stands between two quotes, and the string that is read there. -/
structure Quoted where
  raw : List Char
  string : Units
  reads : lexer.run (.inString []) raw = some (.inString string, [])

inductive Doc
  | null
  | bool (b : Bool)
  | num (n : Numeral)
  | str (s : Quoted)
  | arr (items : List Doc)
  | obj (members : List (Quoted × Doc))

def Quoted.text (s : Quoted) : List Char := '"' :: (s.raw ++ ['"'])

mutual
/-- The text of a document, with `gap` behind commas and colons. -/
def Doc.text (gap : List Char) : Doc → List Char
  | .null => ['n', 'u', 'l', 'l']
  | .bool b => if b then ['t', 'r', 'u', 'e'] else ['f', 'a', 'l', 's', 'e']
  | .num n => n.text
  | .str s => s.text
  | .arr [] => ['[', ']']
  | .arr (d :: items) => ['['] ++ (d.text gap ++ itemsText gap items)
  | .obj [] => ['\x7b', '\x7d']
  | .obj ((k, d) :: members) => ['\x7b'] ++ (k.text ++ (':' :: gap ++ (d.text gap ++ membersText gap members)))

/-- What follows an item. -/
def itemsText (gap : List Char) : List Doc → List Char
  | [] => [']']
  | d :: items => ',' :: gap ++ (d.text gap ++ itemsText gap items)

/-- What follows a member. -/
def membersText (gap : List Char) : List (Quoted × Doc) → List Char
  | [] => ['\x7d']
  | (k, d) :: members => ',' :: gap ++ (k.text ++ (':' :: gap ++ (d.text gap ++ membersText gap members)))
end

mutual
/-- The value that a document stands for. -/
def Doc.value : Doc → Value
  | .null => .null
  | .bool b => .bool b
  | .num n => .num n.value
  | .str s => .str s.string
  | .arr items => .arr (itemValues items)
  | .obj members => .obj (memberValues members)

def itemValues : List Doc → List Value
  | [] => []
  | d :: items => d.value :: itemValues items

def memberValues : List (Quoted × Doc) → List (Units × Value)
  | [] => []
  | (k, d) :: members => (k.string, d.value) :: memberValues members
end

/-! ## Reading it back -/

/-- The end of a text is read as the end of its line. -/
theorem lexEnd_newline (s : LexState) : lexFrom s ['\n'] = lexEnd s := by
  cases s with
  | word w =>
    cases htoken : wordToken w with
    | none =>
      rw [lexFrom_cons_none (by simp [lexStep, htoken, isDelimiter, isSpace])]
      simp [lexEnd, htoken]
    | some t =>
      have hstep : lexStep (.word w) '\n' = some (.between, [t]) := by simp [lexStep, htoken, isDelimiter, isSpace, startToken]
      rw [lexFrom_cons hstep]
      simp [lexEnd, htoken, lexFrom_nil]
  | _ => rfl

theorem lexFrom_newline (s : LexState) (text : List Char) : lexFrom s (text ++ ['\n']) = lexFrom s text := by
  have htext := lexFrom_append s text []
  rw [List.append_nil] at htext
  rw [lexFrom_append, htext]
  simp only [lexEnd_newline, lexFrom_nil]

theorem Quoted.lexes (s : Quoted) : Lexes .between s.text [.str s.string] .between := by
  have hopen : Lexes .between ['"'] [] (.inString []) := .of_run rfl
  have hclose : Lexes (.inString s.string) ['"'] [.str s.string] .between := .of_run rfl
  exact hopen.append ((Lexes.of_run s.reads).append hclose)

theorem lexes_gap {gap : List Char} (hgap : ∀ c ∈ gap, isSpace c = true) {c : Char} {t : Token}
    (hc : lexer.run .between [c] = some (.between, [t])) : Lexes .between (c :: gap) [t] .between :=
  (Lexes.of_run hc).append (.of_run (run_spaces hgap))

section Text
variable {gap : List Char}

theorem head_itemsText (items : List Doc) : (itemsText gap items).head?.map isDelimiter = some true := by
  cases items <;> rfl

theorem head_membersText (members : List (Quoted × Doc)) : (membersText gap members).head?.map isDelimiter = some true := by
  rcases members with _ | ⟨⟨k, d⟩, members⟩ <;> rfl

variable (hgap : ∀ c ∈ gap, isSpace c = true)
include hgap

mutual
theorem Doc.lexes (d : Doc) {rest : List Char} {ts : List Token} {s : LexState} (hd : rest.head?.map isDelimiter = some true)
    (h : Lexes .between rest ts s) : Lexes .between (d.text gap ++ rest) (tokens d.value ++ ts) s := by
  match d with
  | .null => exact .literal rfl (List.cons_ne_nil _ _) rfl hd h
  | .bool true => exact .trueWord hd h
  | .bool false => exact .falseWord hd h
  | .num n => exact .numeral n hd h
  | .str s => exact s.lexes.append h
  | .arr [] =>
    have hempty : Lexes .between ['[', ']'] [.lbracket, .rbracket] .between := .of_run rfl
    exact hempty.append h
  | .arr (d :: items) =>
    have hopen : Lexes .between ['['] [.lbracket] .between := .of_run rfl
    have hitems := d.lexes (head_itemsText items) (lexes_items items)
    exact (hopen.append hitems).append h
  | .obj [] =>
    have hempty : Lexes .between ['\x7b', '\x7d'] [.lbrace, .rbrace] .between := .of_run rfl
    exact hempty.append h
  | .obj ((k, d) :: members) =>
    have hopen : Lexes .between ['\x7b'] [.lbrace] .between := .of_run rfl
    have hmembers := d.lexes (head_membersText members) (lexes_members members)
    exact (hopen.append (k.lexes.append ((lexes_gap hgap rfl).append hmembers))).append h

theorem lexes_items (items : List Doc) : Lexes .between (itemsText gap items) (itemTokens (itemValues items)) .between := by
  match items with
  | [] => exact .of_run rfl
  | d :: items => exact (lexes_gap hgap rfl).append (d.lexes (head_itemsText items) (lexes_items items))

theorem lexes_members (members : List (Quoted × Doc)) :
    Lexes .between (membersText gap members) (memberTokens (memberValues members)) .between := by
  match members with
  | [] => exact .of_run rfl
  | (k, d) :: members =>
    exact (lexes_gap hgap rfl).append (k.lexes.append ((lexes_gap hgap rfl).append
      (d.lexes (head_membersText members) (lexes_members members))))
end

/-- **Every document is read back.** -/
theorem parse_text (d : Doc) : parseText (d.text gap) = some d.value := by
  have hend : Lexes .between ['\n'] [] .between := .of_run rfl
  have hlex := d.lexes hgap rfl hend []
  rw [List.append_nil, List.append_nil, lexFrom_newline, lexFrom_nil] at hlex
  rw [parseText, lex, hlex]
  show Option.bind (some (tokens d.value ++ [])) parse = _
  rw [List.append_nil]
  exact parse_tokens d.value

end Text

/-! ## Strings -/

/-- A text that needs no escapes. -/
def Quoted.plain (text : List Char) (h : ∀ c ∈ text, Plain c) : Quoted where
  raw := text
  string := units text
  reads := by rw [run_plain h, List.nil_append]

def hexChar (n : Nat) : Char := if n < 10 then Char.ofNat (48 + n) else Char.ofNat (87 + n)

theorem hexDigit_hexChar : ∀ n < 16, hexDigit (hexChar n) = some n := by decide

/-- The escape of a code unit by its number. -/
def hexEscape (n : Nat) : List Char :=
  ['\\', 'u', hexChar (n / 4096 % 16), hexChar (n / 256 % 16), hexChar (n / 16 % 16), hexChar (n % 16)]

theorem run_hexEscape {n : Nat} (hn : n < 65536) (u : Units) :
    lexer.run (.inString u) (hexEscape n) = some (.inString (u ++ [UInt16.ofNat n]), []) := by
  have hdigit (k : Nat) : hexDigit (hexChar (k % 16)) = some (k % 16) := hexDigit_hexChar _ (Nat.mod_lt _ (by decide))
  have hstep (owed bits k : Nat) : lexer.step (.hex u (owed + 2) bits) (hexChar (k % 16)) =
      some (.hex u (owed + 1) (16 * bits + k % 16), []) := by
    show lexStep (.hex u (owed + 2) bits) (hexChar (k % 16)) = _
    simp [lexStep, hdigit]
  have hlast (bits : Nat) : lexer.step (.hex u 1 bits) (hexChar (n % 16)) =
      some (.inString (u ++ [UInt16.ofNat (16 * bits + n % 16)]), []) := by
    show lexStep (.hex u 1 bits) (hexChar (n % 16)) = _
    simp [lexStep, hdigit]
  have hescape : lexer.step (.inString u) '\\' = some (.escape u, []) := rfl
  have hhex : lexer.step (.escape u) 'u' = some (.hex u 4 0, []) := rfl
  have hsum : 16 * (16 * (16 * (16 * 0 + n / 4096 % 16) + n / 256 % 16) + n / 16 % 16) + n % 16 = n := by omega
  have hrun := lexer.run_cons_of (hlast _) (lexer.run_nil (.inString (u ++ [UInt16.ofNat
    (16 * (16 * (16 * (16 * 0 + n / 4096 % 16) + n / 256 % 16) + n / 16 % 16) + n % 16)])))
  rw [hsum] at hrun
  exact lexer.run_cons_of hescape (lexer.run_cons_of hhex (lexer.run_cons_of (hstep 2 0 _) (lexer.run_cons_of (hstep 1 _ _)
    (lexer.run_cons_of (hstep 0 _ _) hrun))))

theorem run_hexEscapes (us : Units) (u : Units) :
    lexer.run (.inString u) (us.flatMap fun v => hexEscape v.toNat) = some (.inString (u ++ us), []) := by
  induction us generalizing u with
  | nil =>
    show some (LexState.inString u, []) = some (.inString (u ++ []), [])
    rw [List.append_nil]
  | cons v us ih =>
    have hfirst := run_hexEscape v.toNat_lt u
    rw [UInt16.ofNat_toNat] at hfirst
    rw [List.flatMap_cons]
    refine lexer.run_append_iff.mpr ⟨_, [], [], hfirst, ?_, rfl⟩
    rw [ih, List.append_assoc]
    rfl

/-- The characters with an escape of their own. -/
def shortEscapes : List (Char × Char) :=
  [('"', '"'), ('\\', '\\'), ('\x08', 'b'), ('\x0c', 'f'), ('\n', 'n'), ('\r', 'r'), ('\t', 't')]

/-- A character within a string; `escapes` : those that are escaped though they need not be. -/
def escapeChar (escapes : Char → Bool) (c : Char) : List Char :=
  match shortEscapes.lookup c with
  | some e => ['\\', e]
  | none => if c.toNat < 0x20 ∨ escapes c then (utf16 c).flatMap fun u => hexEscape u.toNat else [c]

theorem run_shortEscape (u : Units) : ∀ p ∈ shortEscapes,
    lexer.run (.inString u) ['\\', p.2] = some (.inString (u ++ utf16 p.1), []) := by
  simp only [shortEscapes, List.forall_mem_cons]
  exact ⟨rfl, rfl, rfl, rfl, rfl, rfl, rfl, by simp⟩

theorem run_escapeChar (escapes : Char → Bool) (c : Char) (u : Units) :
    lexer.run (.inString u) (escapeChar escapes c) = some (.inString (u ++ utf16 c), []) := by
  unfold escapeChar
  cases hlookup : shortEscapes.lookup c with
  | some e =>
    obtain ⟨before, after, heq, -⟩ := List.lookup_eq_some_iff.mp hlookup
    exact run_shortEscape u (c, e) (by rw [heq]; simp)
  | none =>
    have hnot : c ≠ '"' ∧ c ≠ '\\' := by
      constructor <;> rintro rfl <;> cases hlookup
    show lexer.run (.inString u) (if _ then _ else _) = _
    split
    · exact run_hexEscapes (utf16 c) u
    · rename_i hkept
      have hplain := run_plain (s := [c]) (List.forall_mem_singleton.mpr ⟨hnot.1, hnot.2, Nat.not_lt.mp (not_or.mp hkept).1⟩) u
      rwa [show units [c] = utf16 c from List.append_nil _] at hplain

theorem run_escaped (escapes : Char → Bool) (text : List Char) (u : Units) :
    lexer.run (.inString u) (text.flatMap (escapeChar escapes)) = some (.inString (u ++ units text), []) := by
  induction text generalizing u with
  | nil =>
    show some (LexState.inString u, []) = some (.inString (u ++ []), [])
    rw [List.append_nil]
  | cons c text ih =>
    rw [List.flatMap_cons]
    refine lexer.run_append_iff.mpr ⟨_, [], [], run_escapeChar escapes c u, ?_, rfl⟩
    rw [ih, List.append_assoc]
    rfl

/-- Any text, with its escapes. -/
def Quoted.escaped (escapes : Char → Bool) (text : List Char) : Quoted where
  raw := text.flatMap (escapeChar escapes)
  string := units text
  reads := by rw [run_escaped, List.nil_append]

/-- A text with the escapes that it needs; one of the program needs none. -/
def Quoted.literal (s : String) : Quoted := .escaped (fun _ => false) s.toList

theorem escapeChar_plain {c : Char} (hc : Plain c) : escapeChar (fun _ => false) c = [c] := by
  have hkeys : ∀ p ∈ shortEscapes, ¬Plain p.1 := by decide
  have hlookup : shortEscapes.lookup c = none := List.lookup_eq_none_iff.mpr fun p hp => bne_iff_ne.mpr fun heq =>
    hkeys p hp (heq ▸ hc)
  unfold escapeChar
  rw [hlookup]
  exact if_neg (by simpa using hc.2.2)

theorem Quoted.literal_raw {s : String} (h : s.toList.all (fun c => decide (Plain c)) = true) :
    (literal s).raw = s.toList := by
  show s.toList.flatMap (escapeChar fun _ => false) = s.toList
  rw [List.flatMap_congr fun c hc => escapeChar_plain (plain_of_all h c hc), List.flatMap_singleton']

end IbarraGateway.JsonText
