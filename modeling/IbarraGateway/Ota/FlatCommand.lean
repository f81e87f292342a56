import IbarraGateway.Lib.JsonReading
import IbarraGateway.Lib.TextSearch
import IbarraGateway.Ota.Command
import Mathlib.Data.List.Nodup

/-!
# Commands as JSON objects

`parse_ota_command` on flat objects of strings, against a reader of JSON (`givenBy`). A `FlatObject` is such an object as it is
written: with its spacing, and with the escapes of its names.

* `parseText_text` : it is JSON, and its members are what it says.
* `extract_text` : what `extract_json_string` finds in it. The key is searched for in quotes, and stands there as the end of a
  name or as a value.
* `command_read_iff` : the command is what the object gives, exactly when the first such place is the right one.
-/

namespace IbarraGateway.Ota

open TextSearch (quote isBlank)
open JsonText (Units Value Token Lexes units ofUnits lexer run_plain plain_of_all)

/-! ## Flat objects -/

abbrev Blanks : Type := { s : Text // ∀ c ∈ s, isBlank c = true }

/-- A member as it is written; its name may hold escapes, its value holds none. -/
structure Member where
  front : Blanks
  name : Text
  key : Units
  named : lexer.run (.inString []) name = some (.inString key, [])
  gap : Blanks
  blanks : Blanks
  value : Text
  plain : ∀ c ∈ value, c ≠ '"' ∧ c ≠ '\\' ∧ 0x20 ≤ c.toNat
  back : Blanks

structure FlatObject where
  before : Blanks
  inner : Blanks
  members : List Member
  after : Blanks

def Member.text (m : Member) (rest : Text) : Text :=
  m.front ++ (quote m.name ++ (m.gap ++ ':' :: (m.blanks ++ (quote m.value ++ (m.back ++ rest)))))

/-- A comma between members. -/
def separator : List Member → Text
  | [] => []
  | _ => [',']

/-- The members up to the end of the object, and what follows it. -/
def membersText (after : Text) : List Member → Text
  | [] => '\x7d' :: after
  | m :: ms => m.text (separator ms ++ membersText after ms)

namespace FlatObject

def text (o : FlatObject) : Text := o.before ++ '\x7b' :: (o.inner ++ membersText o.after o.members)

def value (o : FlatObject) : Value := .obj (o.members.map fun m => (m.key, .str (units m.value)))

end FlatObject

/-! ## The object is JSON -/

theorem lexes_blanks (b : Blanks) : Lexes .between b.1 [] .between := by
  obtain ⟨s, hs⟩ := b
  apply Lexes.of_run
  induction s with
  | nil => rfl
  | cons c s ih =>
    have hspace : JsonText.isSpace c = true := by
      have hc := hs c List.mem_cons_self
      simp only [isBlank, List.mem_cons, List.not_mem_nil, or_false, decide_eq_true_eq] at hc
      rcases hc with rfl | rfl | rfl | rfl <;> rfl
    have hstep : lexer.step .between c = some (.between, []) := by
      show some (JsonText.startToken c) = _
      rw [JsonText.startToken, if_pos hspace]
    exact lexer.run_cons_of hstep (ih fun c hc => hs c (List.mem_cons_of_mem _ hc))

theorem lexes_quote {s : Text} {u : Units} (h : lexer.run (.inString []) s = some (.inString u, [])) :
    Lexes .between (quote s) [.str u] .between := by
  have hopen : Lexes .between ['"'] [] (.inString []) := .of_run rfl
  have hclose : Lexes (.inString u) ['"'] [.str u] .between := .of_run rfl
  exact hopen.append ((Lexes.of_run h).append hclose)

theorem lexes_member (m : Member) {rest : Text} {ts : List Token} {s : JsonText.LexState} (h : Lexes .between rest ts s) :
    Lexes .between (m.text rest) (.str m.key :: .colon :: .str (units m.value) :: ts) s := by
  have hcolon : Lexes .between [':'] [.colon] .between := .of_run rfl
  have hvalue := (lexes_blanks m.blanks).append ((lexes_quote (run_plain m.plain [])).append ((lexes_blanks m.back).append h))
  exact (lexes_blanks m.front).append ((lexes_quote m.named).append ((lexes_blanks m.gap).append (hcolon.append hvalue)))

theorem lexes_members (after : Blanks) (ms : List Member) : Lexes .between (separator ms ++ membersText after ms)
    (JsonText.memberTokens (ms.map fun m => (m.key, .str (units m.value)))) .between := by
  induction ms with
  | nil =>
    have hclose : Lexes .between ['\x7d'] [.rbrace] .between := .of_run rfl
    exact hclose.append (lexes_blanks after)
  | cons m ms ih =>
    have hcomma : Lexes .between [','] [.comma] .between := .of_run rfl
    rw [List.map_cons, JsonText.memberTokens, JsonText.tokens]
    exact hcomma.append (lexes_member m ih)

/-- The text is that of the object. -/
theorem parseText_text (o : FlatObject) : JsonText.parseText o.text = some o.value := by
  have hopen : Lexes .between ['\x7b'] [.lbrace] .between := .of_run rfl
  have hobject : Lexes .between ('\x7b' :: (o.inner ++ membersText o.after o.members)) (JsonText.tokens o.value) .between := by
    unfold FlatObject.value
    cases o.members with
    | nil =>
      have hclose : Lexes .between ['\x7d'] [.rbrace] .between := .of_run rfl
      exact hopen.append ((lexes_blanks o.inner).append (hclose.append (lexes_blanks o.after)))
    | cons m ms =>
      rw [List.map_cons, JsonText.tokens, JsonText.tokens]
      exact hopen.append ((lexes_blanks o.inner).append (lexes_member m (lexes_members o.after ms)))
  have htokens : Lexes .between o.text (JsonText.tokens o.value) .between := (lexes_blanks o.before).append hobject
  have hlex : JsonText.lex o.text = some (JsonText.tokens o.value) := by
    have hall := htokens []
    rw [List.append_nil] at hall
    rw [JsonText.lex, hall]
    show some (JsonText.tokens o.value ++ []) = _
    rw [List.append_nil]
  rw [JsonText.parseText, hlex]
  exact JsonText.parse_tokens o.value

/-! ## Where a key stands in quotes -/

/-- A backslash stands before every quote. -/
def Escaped (s : Text) : Prop := ∀ a b, s = a ++ '"' :: b → a.getLast? = some '\\'

/-- A character within a string, without a token: the string goes on, and only a backslash leads to an escape. -/
theorem quoted_lexStep {s t : JsonText.LexState} {c : Char} (hs : s.Quoted) (h : JsonText.lexStep s c = some (t, [])) :
    t.Quoted ∧ ∀ u, t = .escape u → c = '\\' := by
  cases JsonText.lexStep_inv h with
  | start => cases hs
  | wordMore => cases hs
  | backslash _ hc => exact ⟨trivial, fun _ _ => hc⟩
  | _ => exact ⟨trivial, by simp⟩

theorem quoted_lexRun {s : Text} {t : JsonText.LexState} (h : lexer.run (.inString []) s = some (t, [])) :
    t.Quoted ∧ ∀ u, t = .escape u → s.getLast? = some '\\' := by
  induction s using List.reverseRecOn generalizing t with
  | nil =>
    cases h
    exact ⟨trivial, nofun⟩
  | append_singleton s c ih =>
    obtain ⟨t₁, hrun, hlast⟩ := lexer.run_append_silent h
    obtain ⟨t₂, hstep, hend⟩ := lexer.run_cons_silent hlast
    cases hend
    obtain ⟨hquoted, hescape⟩ := quoted_lexStep (ih hrun).1 hstep
    refine ⟨hquoted, fun u hu => ?_⟩
    rw [List.getLast?_concat, hescape u hu]

/-- A quote in a name is an escaped one. -/
theorem Member.escaped (m : Member) : Escaped m.name := by
  rintro a b hname
  have hnamed := m.named
  rw [hname] at hnamed
  obtain ⟨t, hrun, hrest⟩ := lexer.run_append_silent hnamed
  obtain ⟨hquoted, hescape⟩ := quoted_lexRun hrun
  obtain ⟨t', hstep, -⟩ := lexer.run_cons_silent hrest
  have hstep : JsonText.lexStep t '"' = some (t', []) := hstep
  cases t with
  | between => cases hquoted
  | word w => cases hquoted
  | inString u => cases hstep
  | escape u => exact hescape u rfl
  | hex u owed bits => cases hstep

/-- What stands behind the last quote. -/
def lastPart (s : Text) : Text := (s.reverse.takeWhile fun c => c ≠ '"').reverse

/-- A key as the agent knows them: no quote or backslash, and nothing of the syntax around strings. -/
structure KeyText (key : Text) : Prop where
  noQuote : '"' ∉ key
  noEscape : '\\' ∉ key
  noColon : ':' ∉ key
  noComma : ',' ∉ key
  noBrace : '\x7d' ∉ key

theorem lastPart_self {s : Text} (h : '"' ∉ s) : lastPart s = s := by
  have hall : (s.reverse.takeWhile fun c => c ≠ '"') = s.reverse :=
    TextSearch.takeWhile_ne_eq_self_iff.mpr fun hmem => h (List.mem_reverse.mp hmem)
  rw [lastPart, hall, List.reverse_reverse]

theorem lastPart_append (a s : Text) : lastPart (a ++ '"' :: s) = lastPart s := by
  have hreverse : (a ++ '"' :: s).reverse = s.reverse ++ '"' :: a.reverse := by simp
  rw [lastPart, hreverse, TextSearch.takeWhile_stop (by decide)]
  rfl

theorem Escaped.tail {a b : Text} (h : Escaped (a ++ '"' :: b)) : Escaped b := by
  intro a' b' hb
  have hlast := h (a ++ '"' :: a') b' (by rw [hb, List.append_assoc]; rfl)
  rcases List.eq_nil_or_concat' a' with rfl | ⟨a'', c, rfl⟩
  · rw [List.getLast?_concat] at hlast
    cases hlast
  · have hassoc : a ++ '"' :: (a'' ++ [c]) = (a ++ '"' :: a'') ++ [c] := by simp
    rw [hassoc, List.getLast?_concat] at hlast
    rw [List.getLast?_concat, hlast]

/-- A name is passed, or found by its end: what stands between its other quotes ends in a backslash. -/
theorem findAfter_name {key : Text} (hkey : KeyText key) {name : Text} (hname : Escaped name) (rest : Text) :
    TextSearch.findAfter (quote key) (quote name ++ rest) =
      if lastPart name = key then some rest else TextSearch.findAfter (quote key) ('"' :: rest) := by
  by_cases hquote : '"' ∈ name
  · obtain ⟨a, b, hab, ha⟩ := List.eq_append_cons_of_mem hquote
    have hne : a ≠ key := by
      rintro rfl
      exact hkey.noEscape (List.mem_of_getLast? (hname a b hab))
    have hsplit : quote (a ++ '"' :: b) ++ rest = quote a ++ (b ++ '"' :: rest) := by simp [quote]
    have hagain : '"' :: (b ++ '"' :: rest) = quote b ++ rest := by simp [quote]
    have hescaped : Escaped (a ++ '"' :: b) := hab ▸ hname
    rw [hab, hsplit, TextSearch.findAfter_quote_token hkey.noQuote ha, if_neg hne, hagain, lastPart_append]
    exact findAfter_name hkey hescaped.tail rest
  · rw [TextSearch.findAfter_quote_token hkey.noQuote hquote, lastPart_self hquote]
termination_by name.length
decreasing_by
  rw [hab, List.length_append, List.length_cons]
  omega

theorem Member.value_noQuote (m : Member) : '"' ∉ m.value := fun hmem => (m.plain '"' hmem).1 rfl

theorem Blanks.not_mem {b : Blanks} {c : Char} (hc : isBlank c = false) : c ∉ b.1 := by
  intro hmem
  rw [b.2 c hmem] at hc
  cases hc

theorem Blanks.not_mem_around {a b : Blanks} {c d : Char} (hc : isBlank c = false) (hd : c ≠ d) : c ∉ a.1 ++ d :: b.1 := by
  rw [List.mem_append, List.mem_cons, not_or, not_or]
  exact ⟨a.not_mem hc, hd, b.not_mem hc⟩

/-- Past a member, or to the place in it where the key stands. -/
theorem findAfter_member {key : Text} (hkey : KeyText key) (m : Member) (rest : Text) :
    TextSearch.findAfter (quote key) (m.text rest) =
      if lastPart m.name = key then some (m.gap ++ ':' :: (m.blanks ++ (quote m.value ++ (m.back ++ rest))))
      else if m.value = key then some (m.back ++ rest)
      else TextSearch.findAfter (quote key) ('"' :: (m.back ++ rest)) := by
  have hskipped : '"' ∉ m.gap ++ ':' :: m.blanks.1 := Blanks.not_mem_around (by decide) (by decide)
  have hassoc : ∀ x : Text, m.gap ++ ':' :: (m.blanks ++ x) = (m.gap ++ ':' :: m.blanks.1) ++ x := by
    intro x
    rw [List.append_assoc, List.cons_append]
  unfold Member.text
  rw [quote, TextSearch.findAfter_skip (Blanks.not_mem (by decide)), ← quote, findAfter_name hkey m.escaped, hassoc,
    TextSearch.findAfter_close (c := ':') (by simp) hkey.noColon hskipped,
    TextSearch.findAfter_quote_token hkey.noQuote m.value_noQuote]

/-- What follows the first place where the key stands in quotes. -/
def behindKey (key after : Text) : List Member → Option Text
  | [] => none
  | m :: ms =>
    if lastPart m.name = key then
      some (m.gap ++ ':' :: (m.blanks ++ (quote m.value ++ (m.back ++ (separator ms ++ membersText after ms)))))
    else if m.value = key then some (m.back ++ (separator ms ++ membersText after ms))
    else behindKey key after ms

theorem findAfter_members {key : Text} (hkey : KeyText key) (after : Blanks) (ms : List Member) :
    TextSearch.findAfter (quote key) (membersText after ms) = behindKey key after ms := by
  have hend : TextSearch.findAfter (quote key) after.1 = none := by
    rw [TextSearch.findAfter_eq_none_iff]
    intro hstands
    exact Blanks.not_mem (b := after) (by decide) (hstands.subset List.mem_cons_self)
  have hbrace : TextSearch.findAfter (quote key) ('\x7d' :: after.1) = none := by
    have hskipped : '"' ∉ ['\x7d'] := by decide
    exact (TextSearch.findAfter_skip hskipped after.1).trans hend
  induction ms with
  | nil => exact hbrace
  | cons m ms ih =>
    rw [membersText, findAfter_member hkey, behindKey, ← ih]
    congr 2
    cases ms with
    | nil =>
      have hback : '"' ∉ m.back.1 ++ ['\x7d'] := Blanks.not_mem_around (b := ⟨[], by simp⟩) (by decide) (by decide)
      have hclose := TextSearch.findAfter_close (c := '\x7d') (by simp) hkey.noBrace hback after.1
      rw [List.append_assoc] at hclose
      rw [ih]
      exact hclose.trans hend
    | cons m' ms =>
      have hback : '"' ∉ m.back.1 ++ [','] := Blanks.not_mem_around (b := ⟨[], by simp⟩) (by decide) (by decide)
      have hclose := TextSearch.findAfter_close (c := ',') (by simp) hkey.noComma hback (membersText after.1 (m' :: ms))
      rw [List.append_assoc] at hclose
      exact hclose

/-! ## What is read -/

/-- The string that begins here. -/
def stringAt : Text → Text
  | '"' :: value => (quoted value).getD []
  | _ => []

/-- The reader behind the key: the string after the next colon. -/
def valueBehind (rest : Text) : Text :=
  ((TextSearch.findAfter [':'] rest).map fun rest => stringAt (rest.dropWhile isBlank)).getD []

theorem extractJsonString_eq (json key : Text) :
    extractJsonString json key = ((TextSearch.findAfter (quote key) json).map valueBehind).getD [] := by
  have hquote : '"' :: key ++ ['"'] = quote key := rfl
  unfold extractJsonString
  rw [hquote]
  cases TextSearch.findAfter (quote key) json with
  | none => rfl
  | some rest =>
    dsimp only
    rw [Option.map_some, Option.getD_some, valueBehind]
    cases TextSearch.findAfter [':'] rest <;> rfl

theorem stringAt_quote {s : Text} (hs : '"' ∉ s) (rest : Text) : stringAt ('"' :: (s ++ '"' :: rest)) = s := by
  have hstop : (s ++ '"' :: rest).takeWhile (fun c => decide (c ≠ '"')) = s := by
    rw [TextSearch.takeWhile_stop (by decide)]
    exact TextSearch.takeWhile_ne_eq_self_iff.mpr hs
  rw [stringAt, quoted, if_pos (by simp), hstop]
  rfl

theorem stringAt_other {s : Text} (hs : s.head? ≠ some '"') : stringAt s = [] := by
  unfold stringAt
  split
  · exact absurd rfl hs
  · rfl

theorem dropWhile_blanks (b : Blanks) {c : Char} (hc : isBlank c = false) (rest : Text) :
    (b ++ c :: rest).dropWhile isBlank = c :: rest := by
  apply TextSearch.dropWhile_run b.2
  intro d r hr
  cases hr
  exact hc

/-- Behind a colon that is the next one, the string. -/
theorem valueBehind_colon {gap : Text} (hgap : ':' ∉ gap) (b : Blanks) {value : Text} (hvalue : '"' ∉ value) (rest : Text) :
    valueBehind (gap ++ ':' :: (b ++ (quote value ++ rest))) = value := by
  have hquote : quote value ++ rest = '"' :: (value ++ '"' :: rest) := by simp [quote]
  rw [valueBehind, TextSearch.findAfter_char hgap, Option.map_some, Option.getD_some, hquote,
    dropWhile_blanks b (by decide), stringAt_quote hvalue]

/-- What is read of the member behind a value that is the key. A colon in its name is taken for the one behind the name. -/
def nextValue : List Member → Text
  | [] => []
  | m :: _ =>
    if ':' ∈ m.name then
      if (m.name.dropWhile fun c => c ≠ ':').tail.all isBlank then m.gap ++ ':' :: m.blanks.1 else []
    else m.value

/-- Only an escaped quote can follow blanks in a name. -/
theorem head_ne_quote {a b : Text} (hname : Escaped (a ++ ':' :: b)) : (b.dropWhile isBlank).head? ≠ some '"' := by
  intro hhead
  obtain ⟨rest, hrest⟩ := List.head?_eq_some_iff.mp hhead
  have hsplit : a ++ ':' :: b = (a ++ ':' :: b.takeWhile isBlank) ++ '"' :: rest := by
    rw [List.append_assoc, List.cons_append, ← hrest, List.takeWhile_append_dropWhile]
  have hlast := hname _ _ hsplit
  rw [List.getLast?_append_of_ne_nil _ (List.cons_ne_nil _ _)] at hlast
  rcases List.mem_cons.mp (List.mem_of_getLast? hlast) with hcolon | hblank
  · cases hcolon
  · have hescape : isBlank '\\' = true := List.mem_takeWhile_imp hblank
    cases hescape

/-- A colon in a name: up to the quote that ends the name there are blanks only, or nothing is read. -/
theorem valueBehind_colon_in_name {front a b : Text} (hfront : ':' ∉ front ++ a) (hname : Escaped (a ++ ':' :: b))
    {next : Text} (hnext : '"' ∉ next) (rest : Text) :
    valueBehind (front ++ (a ++ ':' :: (b ++ '"' :: (next ++ '"' :: rest)))) = if b.all isBlank then next else [] := by
  rw [valueBehind, ← List.append_assoc, TextSearch.findAfter_char hfront, Option.map_some, Option.getD_some,
    TextSearch.dropWhile_stop (by decide)]
  split
  · rename_i hall
    rw [List.dropWhile_eq_nil_iff.mpr (List.all_eq_true.mp hall)]
    exact stringAt_quote hnext rest
  · rename_i hall
    apply stringAt_other
    rw [List.head?_append_of_ne_nil]
    · exact head_ne_quote hname
    · exact fun hnil => hall (List.all_eq_true.mpr (List.dropWhile_eq_nil_iff.mp hnil))

theorem valueBehind_next (m : Member) (after : Blanks) (ms : List Member) :
    valueBehind (m.back ++ (separator ms ++ membersText after ms)) = nextValue ms := by
  cases ms with
  | nil =>
    have hcolon : TextSearch.findAfter [':'] (m.back.1 ++ '\x7d' :: after.1) = none := by
      rw [TextSearch.findAfter_eq_none_iff]
      intro hstands
      exact Blanks.not_mem_around (by decide) (by decide) (hstands.subset (List.mem_singleton_self ':'))
    show valueBehind (m.back ++ '\x7d' :: after.1) = []
    rw [valueBehind, hcolon]
    rfl
  | cons m' ms =>
    have hopen : ':' ∉ m.back.1 ++ ',' :: (m'.front.1 ++ ['"']) := by
      rw [List.mem_append, List.mem_cons, List.mem_append, not_or, not_or, not_or]
      exact ⟨Blanks.not_mem (by decide), by decide, Blanks.not_mem (by decide), by decide⟩
    unfold nextValue
    dsimp only
    by_cases hname : ':' ∈ m'.name
    · obtain ⟨a, b, hab, ha⟩ := List.eq_append_cons_of_mem hname
      have htail : (m'.name.dropWhile fun c => c ≠ ':').tail = b := by
        rw [hab, TextSearch.dropWhile_stop (by decide), List.dropWhile_eq_nil_iff.mpr (TextSearch.forall_ne_of_not_mem ha)]
        rfl
      have hnext : '"' ∉ m'.gap.1 ++ ':' :: m'.blanks.1 := Blanks.not_mem_around (by decide) (by decide)
      have hfront : ':' ∉ m.back.1 ++ ',' :: (m'.front.1 ++ ['"']) ++ a := by
        rw [List.mem_append, not_or]
        exact ⟨hopen, ha⟩
      rw [if_pos hname, htail, ← valueBehind_colon_in_name hfront (hab ▸ m'.escaped) hnext
        (m'.value ++ '"' :: (m'.back ++ (separator ms ++ membersText after ms)))]
      congr 1
      simp [separator, membersText, Member.text, quote, hab]
    · have hgap : ':' ∉ m.back.1 ++ ',' :: (m'.front.1 ++ ['"']) ++ (m'.name ++ '"' :: m'.gap.1) := by
        rw [List.mem_append, List.mem_append (s := m'.name), List.mem_cons, not_or, not_or, not_or]
        exact ⟨hopen, hname, by decide, Blanks.not_mem (by decide)⟩
      rw [if_neg hname, ← valueBehind_colon hgap m'.blanks m'.value_noQuote
        (m'.back ++ (separator ms ++ membersText after ms))]
      congr 1
      simp [separator, membersText, Member.text, quote]

/-- What is found under a key. -/
def reading (key : Text) : List Member → Text
  | [] => []
  | m :: ms => if lastPart m.name = key then m.value else if m.value = key then nextValue ms else reading key ms

theorem map_behindKey (key : Text) (after : Blanks) (ms : List Member) :
    ((behindKey key after ms).map valueBehind).getD [] = reading key ms := by
  induction ms with
  | nil => rfl
  | cons m ms ih =>
    rw [behindKey, reading]
    split
    · exact valueBehind_colon (Blanks.not_mem (by decide)) m.blanks m.value_noQuote _
    split
    · exact valueBehind_next m after ms
    · exact ih

theorem extract_text {key : Text} (hkey : KeyText key) (o : FlatObject) :
    extractJsonString o.text key = reading key o.members := by
  have hopen : '"' ∉ o.before.1 ++ '\x7b' :: o.inner.1 := Blanks.not_mem_around (by decide) (by decide)
  have htext : o.text = (o.before.1 ++ '\x7b' :: o.inner.1) ++ membersText o.after o.members := by
    rw [List.append_assoc, List.cons_append]
    rfl
  rw [extractJsonString_eq, htext, quote, TextSearch.findAfter_skip hopen, ← quote, findAfter_members hkey,
    map_behindKey]

/-! ## What the object gives -/

/-- What a JSON text gives to a key: the text of a string. -/
def givenBy (json key : Text) : Text :=
  match (JsonText.parseText json).bind (Value.get (units key)) with
  | some (.str s) => ofUnits s
  | _ => []

/-- The value of the last member of the name. -/
def given (key : Text) (ms : List Member) : Text :=
  ((ms.reverse.find? fun m => m.key = units key).map Member.value).getD []

theorem lookup_members (key : Units) (ms : List Member) :
    (ms.map fun m => (m.key, Value.str (units m.value))).lookup key =
      (ms.find? fun m => m.key = key).map fun m => .str (units m.value) := by
  induction ms with
  | nil => rfl
  | cons m ms ih =>
    rw [List.map_cons, List.lookup_cons, List.find?_cons]
    by_cases hm : m.key = key
    · rw [hm, beq_self_eq_true, decide_eq_true rfl]
      rfl
    · have hbeq : (key == m.key) = false := beq_false_of_ne fun h => hm h.symm
      rw [hbeq, decide_eq_false hm, ih]

theorem givenBy_text (o : FlatObject) (key : Text) : givenBy o.text key = given key o.members := by
  have hget : o.value.get (units key) =
      (o.members.reverse.find? fun m => m.key = units key).map fun m => .str (units m.value) := by
    rw [FlatObject.value, Value.get, ← List.map_reverse, lookup_members]
  rw [givenBy, parseText_text, Option.bind_some, hget, given]
  cases o.members.reverse.find? fun m => m.key = units key with
  | none => rfl
  | some m => exact JsonText.ofUnits_units m.value

/-- The command that a JSON text describes. -/
def described (json : Text) : OtaCommand where
  version := givenBy json "version".toList
  url := givenBy json "url".toList
  sha256 := givenBy json "sha256".toList
  signature := givenBy json "signature".toList
  nextPublicKey := givenBy json "next_public_key".toList

def commandKeys : List Text := ["version", "url", "sha256", "signature", "next_public_key"].map String.toList

theorem keyText_of_mem {key : Text} (h : key ∈ commandKeys) : KeyText key := by
  have hall : (commandKeys.all fun key => decide ('"' ∉ key ∧ '\\' ∉ key ∧ ':' ∉ key ∧ ',' ∉ key ∧ '\x7d' ∉ key)) = true := by
    decide +kernel
  obtain ⟨hquote, hescape, hcolon, hcomma, hbrace⟩ := of_decide_eq_true (List.all_eq_true.mp hall key h)
  exact ⟨hquote, hescape, hcolon, hcomma, hbrace⟩

/-! ## When the first place is the right one -/

/-- The key is neither the value nor stands at the end of the name, behind an escaped quote if there is one. -/
def Passed (key : Text) (m : Member) : Prop := lastPart m.name ≠ key ∧ m.value ≠ key

/-- The first member where the key stands in quotes, and those behind it. -/
def First (key : Text) (ms : List Member) (m : Member) (after : List Member) : Prop :=
  ∃ before, ms = before ++ m :: after ∧ ∀ b ∈ before, Passed key b

/-- The first member where the key stands in quotes has what the object gives to the key: by its name as its own value, by its
value as that of the next member. Where there is none, the object gives nothing. -/
structure Faithful (key : Text) (ms : List Member) : Prop where
  none : (∀ m ∈ ms, Passed key m) → given key ms = []
  name : ∀ m after, First key ms m after → lastPart m.name = key → given key ms = m.value
  value : ∀ m after, First key ms m after → lastPart m.name ≠ key → m.value = key → given key ms = nextValue after

theorem reading_passed {key : Text} {before : List Member} (h : ∀ b ∈ before, Passed key b) (ms : List Member) :
    reading key (before ++ ms) = reading key ms := by
  induction before with
  | nil => rfl
  | cons b before ih =>
    obtain ⟨⟨hname, hvalue⟩, hbefore⟩ := List.forall_mem_cons.mp h
    rw [List.cons_append, reading, if_neg hname, if_neg hvalue, ih hbefore]

theorem passed_or_first (key : Text) (ms : List Member) :
    (∀ m ∈ ms, Passed key m) ∨ ∃ m after, First key ms m after ∧ ¬Passed key m := by
  induction ms with
  | nil => exact .inl (by simp)
  | cons m ms ih =>
    by_cases hm : Passed key m
    · rcases ih with hall | ⟨m', after, ⟨before, rfl, hbefore⟩, hnot⟩
      · exact .inl (List.forall_mem_cons.mpr ⟨hm, hall⟩)
      · exact .inr ⟨m', after, ⟨m :: before, rfl, List.forall_mem_cons.mpr ⟨hm, hbefore⟩⟩, hnot⟩
    · exact .inr ⟨m, ms, ⟨[], rfl, by simp⟩, hm⟩

theorem faithful_iff {key : Text} {ms : List Member} : Faithful key ms ↔ reading key ms = given key ms := by
  constructor
  · intro h
    rcases passed_or_first key ms with hall | ⟨m, after, hfirst, hnot⟩
    · have hpassed := reading_passed hall []
      rw [List.append_nil] at hpassed
      exact hpassed.trans (h.none hall).symm
    · obtain ⟨before, hms, hbefore⟩ := id hfirst
      have hreading : reading key ms = reading key (m :: after) := by rw [hms, reading_passed hbefore]
      rw [hreading, reading]
      split
      · rename_i hname
        exact (h.name m after hfirst hname).symm
      · rename_i hname
        have hvalue : m.value = key := by
          by_contra hvalue
          exact hnot ⟨hname, hvalue⟩
        rw [if_pos hvalue]
        exact (h.value m after hfirst hname hvalue).symm
  · intro h
    refine ⟨fun hall => ?_, ?_, ?_⟩
    · have hpassed := reading_passed hall []
      rw [List.append_nil] at hpassed
      exact h.symm.trans hpassed
    · rintro m after ⟨before, hms, hbefore⟩ hname
      rw [← h, hms, reading_passed hbefore, reading, if_pos hname]
    · rintro m after ⟨before, hms, hbefore⟩ hname hvalue
      rw [← h, hms, reading_passed hbefore, reading, if_neg hname, if_pos hvalue]

theorem command_reads (o : FlatObject) :
    parseOtaCommand o.text = described o.text ↔ ∀ key ∈ commandKeys, Faithful key o.members := by
  have hall : (∀ key ∈ commandKeys, Faithful key o.members) ↔
      ∀ key ∈ commandKeys, extractJsonString o.text key = givenBy o.text key := by
    refine forall₂_congr fun key hkey => ?_
    rw [faithful_iff, extract_text (keyText_of_mem hkey), givenBy_text]
  rw [hall]
  unfold parseOtaCommand described commandKeys
  simp only [OtaCommand.mk.injEq, List.map_cons, List.map_nil, List.forall_mem_cons, List.not_mem_nil, false_imp_iff,
    implies_true, and_true]

/-- **Commands as JSON objects.** For every flat object of strings, however it is written, the text is JSON; and the agent
reads the command that it describes exactly when the first place of each of the five keys is the right one. -/
theorem command_read_iff (o : FlatObject) :
    JsonText.parseText o.text = some o.value ∧
      (parseOtaCommand o.text = described o.text ↔ ∀ key ∈ commandKeys, Faithful key o.members) :=
  ⟨parseText_text o, command_reads o⟩

/-! ## Plain commands -/

theorem key_of_run {s : Text} (hquote : '"' ∉ s) (hescape : '\\' ∉ s) {u k : Units}
    (h : lexer.run (.inString u) s = some (.inString k, [])) : k = u ++ units s := by
  induction s generalizing u with
  | nil =>
    cases h
    exact (List.append_nil _).symm
  | cons c s ih =>
    rw [List.mem_cons, not_or] at hquote hescape
    obtain ⟨t, hstep, hrun⟩ := lexer.run_cons_silent h
    have hstep : JsonText.lexStep (.inString u) c = some (t, []) := hstep
    rw [JsonText.lexStep, if_neg (Ne.symm hquote.1), if_neg (Ne.symm hescape.1)] at hstep
    split at hstep
    · cases hstep
    · cases hstep
      rw [ih hquote.2 hescape.2 hrun, List.append_assoc]
      rfl

/-- A name without a backslash stands for itself. -/
theorem Member.plain_name {m : Member} (h : '\\' ∉ m.name) : '"' ∉ m.name ∧ m.key = units m.name := by
  have hquote : '"' ∉ m.name := by
    intro hmem
    obtain ⟨a, b, hab, -⟩ := List.eq_append_cons_of_mem hmem
    have hlast := List.mem_of_getLast? (m.escaped a b hab)
    exact h (hab ▸ List.mem_append_left _ hlast)
  exact ⟨hquote, key_of_run hquote h m.named⟩

theorem given_of_unique {key : Text} {ms : List Member} {m : Member} (hm : m ∈ ms) (hkey : m.key = units key)
    (hunique : ∀ m' ∈ ms, m'.key = units key → m' = m) : given key ms = m.value := by
  unfold given
  cases hfind : ms.reverse.find? fun m => m.key = units key with
  | none =>
    have hnot := List.find?_eq_none.mp hfind m (List.mem_reverse.mpr hm)
    exact absurd (decide_eq_true hkey) hnot
  | some m' =>
    have hm' := List.mem_reverse.mp (List.mem_of_find?_eq_some hfind)
    have hfound := List.find?_some hfind
    have hkey' : m'.key = units key := by simpa using hfound
    rw [hunique m' hm' hkey']
    rfl

/-- Names without escapes, each once, and no value that is the key: the key stands in quotes where it is a name. -/
theorem faithful_plain {key : Text} {ms : List Member} (hplain : ∀ m ∈ ms, '\\' ∉ m.name)
    (hnames : (ms.map Member.name).Nodup) (hvalues : ∀ m ∈ ms, m.value ≠ key) : Faithful key ms := by
  have hlast : ∀ m ∈ ms, lastPart m.name = m.name := fun m hm => lastPart_self (Member.plain_name (hplain m hm)).1
  have hkey : ∀ m ∈ ms, m.key = units key ↔ m.name = key := by
    intro m hm
    rw [(Member.plain_name (hplain m hm)).2]
    exact ⟨JsonText.units_inj, congrArg units⟩
  refine ⟨fun hall => ?_, ?_, ?_⟩
  · have hnone : (ms.reverse.find? fun m => m.key = units key) = none := by
      rw [List.find?_eq_none]
      intro m hm hdecide
      have hmem := List.mem_reverse.mp hm
      apply (hall m hmem).1
      rw [hlast m hmem]
      exact (hkey m hmem).mp (of_decide_eq_true hdecide)
    rw [given, hnone]
    rfl
  · rintro m after ⟨before, rfl, -⟩ hname
    have hm : m ∈ before ++ m :: after := by simp
    rw [hlast m hm] at hname
    refine given_of_unique hm ((hkey m hm).mpr hname) fun m' hm' hm'key => ?_
    exact List.inj_on_of_nodup_map hnames hm' hm (((hkey m' hm').mp hm'key).trans hname.symm)
  · rintro m after ⟨before, rfl, -⟩ - hvalue
    exact absurd hvalue (hvalues m (by simp))

/-- So a command that is written plainly is read as it is. -/
theorem plain_command_read {o : FlatObject} (hplain : ∀ m ∈ o.members, '\\' ∉ m.name)
    (hnames : (o.members.map Member.name).Nodup) (hvalues : ∀ m ∈ o.members, m.value ∉ commandKeys) :
    parseOtaCommand o.text = described o.text := by
  apply (command_reads o).mpr
  intro key hkey
  refine faithful_plain hplain hnames fun m hm hvalue => ?_
  exact hvalues m hm (hvalue ▸ hkey)

/-- A member without spaces. -/
def compact (name value : Text) (hname : ∀ c ∈ name, c ≠ '"' ∧ c ≠ '\\' ∧ 0x20 ≤ c.toNat)
    (hvalue : ∀ c ∈ value, c ≠ '"' ∧ c ≠ '\\' ∧ 0x20 ≤ c.toNat) : Member where
  front := ⟨[], by simp⟩
  name := name
  key := units name
  named := run_plain hname []
  gap := ⟨[], by simp⟩
  blanks := ⟨[], by simp⟩
  value := value
  plain := hvalue
  back := ⟨[], by simp⟩

/-- A member that the agent does not know, with the name of one that it does as its value. -/
def urlAsValue : FlatObject where
  before := ⟨[], by simp⟩
  inner := ⟨[], by simp⟩
  members := [compact "a".toList "url".toList (plain_of_all rfl) (plain_of_all rfl),
    compact "version".toList "1.0.0".toList (plain_of_all rfl) (plain_of_all rfl),
    compact "url".toList "http://e".toList (plain_of_all rfl) (plain_of_all rfl)]
  after := ⟨[], by simp⟩

/-- The agent takes the version for the URL. -/
theorem version_read_as_url : ¬∀ o : FlatObject, parseOtaCommand o.text = described o.text := by
  intro h
  have hurl := congrArg OtaCommand.url (h urlAsValue)
  have hgiven : (described urlAsValue.text).url = "http://e".toList := by
    show givenBy urlAsValue.text "url".toList = _
    rw [givenBy_text]
    decide +kernel
  rw [hgiven] at hurl
  exact absurd hurl (by decide +kernel)

end IbarraGateway.Ota
