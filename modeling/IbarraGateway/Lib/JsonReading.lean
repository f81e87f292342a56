import IbarraGateway.Lib.JsonText
import Mathlib

/-!
# What is read

What the parser and the lexer have taken says what stands in the text.

* `parse_eq_some_iff` : tokens are read as a value exactly when they are the tokens of the value.
* `lexFrom_mark`, `lexFrom_number` : what a text begins with when its first token is a mark or a number.
* `split_mark` : a text is split at each mark among its tokens.
-/

namespace IbarraGateway.JsonText

/-! ## What the parser has taken -/

/-- Items that others follow. -/
def openItems : List Value → List Token
  | [] => []
  | v :: items => tokens v ++ .comma :: openItems items

/-- Members that others follow. -/
def openMembers : List (Units × Value) → List Token
  | [] => []
  | (k, v) :: members => .str k :: .colon :: (tokens v ++ .comma :: openMembers members)

def Frame.tokens : Frame → List Token
  | .arr items => .lbracket :: openItems items
  | .obj members k => .lbrace :: (openMembers members ++ [.str k, .colon])

def Mode.tokens : Mode → List Token
  | .value => []
  | .firstItem => [.lbracket]
  | .firstKey => [.lbrace]
  | .key members => .lbrace :: openMembers members
  | .colon members k => .lbrace :: (openMembers members ++ [.str k])
  | .after v => JsonText.tokens v

def stackTokens : List Frame → List Token
  | [] => []
  | f :: stack => stackTokens stack ++ f.tokens

/-- The tokens that lead to a state. -/
def ParseState.tokens (s : ParseState) : List Token := stackTokens s.stack ++ s.mode.tokens

theorem openItems_snoc (items : List Value) (v : Value) : openItems (items ++ [v]) = openItems items ++ (tokens v ++ [.comma]) := by
  induction items with
  | nil => rfl
  | cons u items ih => simp [openItems, ih]

theorem openMembers_snoc (members : List (Units × Value)) (k : Units) (v : Value) :
    openMembers (members ++ [(k, v)]) = openMembers members ++ (.str k :: .colon :: (tokens v ++ [.comma])) := by
  induction members with
  | nil => rfl
  | cons m members ih => simp [openMembers, ih]

theorem itemTokens_append (items : List Value) (v : Value) (rest : List Value) :
    itemTokens (items ++ v :: rest) = .comma :: (openItems items ++ (tokens v ++ itemTokens rest)) := by
  induction items with
  | nil => rfl
  | cons u items ih => simp [itemTokens, openItems, ih]

theorem memberTokens_append (members : List (Units × Value)) (k : Units) (v : Value) (rest : List (Units × Value)) :
    memberTokens (members ++ (k, v) :: rest) =
      .comma :: (openMembers members ++ .str k :: .colon :: (tokens v ++ memberTokens rest)) := by
  induction members with
  | nil => rfl
  | cons m members ih => simp [memberTokens, openMembers, ih]

/-- An array, at one of its items. -/
theorem tokens_arr (items : List Value) (v : Value) (rest : List Value) :
    tokens (.arr (items ++ v :: rest)) = Frame.tokens (.arr items) ++ (tokens v ++ itemTokens rest) := by
  cases items with
  | nil => rfl
  | cons u items => simp [tokens, Frame.tokens, openItems, itemTokens_append]

/-- An object, at one of its members. -/
theorem tokens_obj (members : List (Units × Value)) (k : Units) (v : Value) (rest : List (Units × Value)) :
    tokens (.obj (members ++ (k, v) :: rest)) = Frame.tokens (.obj members k) ++ (tokens v ++ memberTokens rest) := by
  cases members with
  | nil => rfl
  | cons m members => simp [tokens, Frame.tokens, openMembers, memberTokens_append]

/-- The tokens of a property are among those of its object. -/
theorem mem_tokens_get {v w : Value} {name : Units} {t : Token} (h : v.get name = some w) (ht : t ∈ tokens w) : t ∈ tokens v := by
  cases v with
  | obj members =>
    obtain ⟨a, b, hsplit, -⟩ := List.lookup_eq_some_iff.mp h
    have hmembers : members = b.reverse ++ (name, w) :: a.reverse := by
      have hrev := congrArg List.reverse hsplit
      rw [List.reverse_reverse] at hrev
      rw [hrev]
      simp
    rw [hmembers, tokens_obj]
    exact List.mem_append_right _ (List.mem_append_left _ ht)
  | _ => cases h

theorem mem_tokens_item {items : List Value} {v : Value} {t : Token} (hv : v ∈ items) (ht : t ∈ tokens v) :
    t ∈ tokens (.arr items) := by
  obtain ⟨a, b, rfl⟩ := List.append_of_mem hv
  rw [tokens_arr]
  exact List.mem_append_right _ (List.mem_append_left _ ht)

theorem parseValue_tokens {stack : List Frame} {t : Token} {s : ParseState} (h : parseValue stack t = some s) :
    s.tokens = stackTokens stack ++ [t] := by
  cases t <;> cases h <;> rfl

/-- Each step takes its token. -/
theorem parseStep_tokens {s s' : ParseState} {t : Token} (h : parseStep s t = some s') : s'.tokens = s.tokens ++ [t] := by
  unfold parseStep at h
  split at h
  · rw [parseValue_tokens h, ParseState.tokens, Mode.tokens, List.append_nil]
  · cases h
    simp [ParseState.tokens, Mode.tokens, tokens]
  · rw [parseValue_tokens h]
    simp [ParseState.tokens, Mode.tokens, stackTokens, Frame.tokens, openItems]
  · cases h
    simp [ParseState.tokens, Mode.tokens, tokens]
  · cases h
    simp [ParseState.tokens, Mode.tokens, openMembers]
  · cases h
    simp [ParseState.tokens, Mode.tokens]
  · cases h
    simp [ParseState.tokens, Mode.tokens, stackTokens, Frame.tokens]
  · cases h
    simp [ParseState.tokens, Mode.tokens, stackTokens, Frame.tokens, openItems_snoc]
  · cases h
    simp [ParseState.tokens, Mode.tokens, stackTokens, tokens_arr, itemTokens]
  · cases h
    simp [ParseState.tokens, Mode.tokens, stackTokens, Frame.tokens, openMembers_snoc]
  · cases h
    simp [ParseState.tokens, Mode.tokens, stackTokens, tokens_obj, memberTokens]
  · cases h

theorem parse_run_tokens {s s' : ParseState} {ts : List Token} (h : ts.foldlM parseStep s = some s') :
    s'.tokens = s.tokens ++ ts := by
  induction ts generalizing s with
  | nil =>
    cases h
    rw [List.append_nil]
  | cons t ts ih =>
    obtain ⟨mid, hstep, hrest⟩ := Option.bind_eq_some_iff.mp h
    rw [ih hrest, parseStep_tokens hstep, List.append_assoc, List.singleton_append]

/-- Tokens are read as a value exactly when they are its own. -/
theorem parse_eq_some_iff {ts : List Token} {v : Value} : parse ts = some v ↔ ts = tokens v := by
  constructor
  · intro h
    obtain ⟨s, hrun, hend⟩ := Option.bind_eq_some_iff.mp h
    have htokens := parse_run_tokens hrun
    unfold parseEnd at hend
    split at hend
    · cases hend
      exact htokens.symm
    · cases hend
  · rintro rfl
    exact parse_tokens v

/-- Up to the value of a member. -/
theorem parse_openMembers (members before : List (Units × Value)) (k : Units) (stack : List Frame) (rest : List Token) :
    (openMembers members ++ Token.str k :: rest).foldlM parseStep ⟨.key before, stack⟩ =
      rest.foldlM parseStep ⟨.colon (before ++ members) k, stack⟩ := by
  induction members generalizing before with
  | nil =>
    rw [List.append_nil]
    rfl
  | cons m members ih =>
    obtain ⟨k', v⟩ := m
    rw [openMembers, List.cons_append, List.cons_append, List.append_assoc]
    show (tokens v ++ (Token.comma :: openMembers members ++ .str k :: rest)).foldlM parseStep ⟨.value, .obj before k' :: stack⟩ = _
    rw [parse_value]
    show (openMembers members ++ Token.str k :: rest).foldlM parseStep ⟨.key (before ++ [(k', v)]), stack⟩ = _
    rw [ih, List.append_assoc]
    rfl

theorem parse_obj_frame (members : List (Units × Value)) (k : Units) (stack : List Frame) :
    (Frame.tokens (.obj members k)).foldlM parseStep ⟨.value, stack⟩ = some ⟨.value, .obj members k :: stack⟩ := by
  have hfirst : (openMembers members ++ [Token.str k, .colon]).foldlM parseStep ⟨.firstKey, stack⟩ =
      (openMembers members ++ [Token.str k, .colon]).foldlM parseStep ⟨.key [], stack⟩ := by
    cases members <;> rfl
  show (openMembers members ++ [Token.str k, .colon]).foldlM parseStep ⟨.firstKey, stack⟩ = _
  rw [hfirst, parse_openMembers]
  rfl

/-! ## What the lexer has taken -/

theorem run_spaces {blanks : List Char} (h : ∀ c ∈ blanks, isSpace c = true) : lexer.run .between blanks = some (.between, []) := by
  induction blanks with
  | nil => rfl
  | cons c blanks ih =>
    have hstep : lexer.step .between c = some (.between, []) := by
      show some (startToken c) = _
      rw [startToken, if_pos (h c List.mem_cons_self)]
    exact lexer.run_cons_of hstep (ih fun c hc => h c (List.mem_cons_of_mem _ hc))


/-- Brackets, braces, colons and commas. -/
def Token.isMark : Token → Bool
  | null => false
  | bool _ => false
  | num _ => false
  | str _ => false
  | _ => true

theorem isMark_punctuation {c : Char} {t : Token} (h : punctuation c = some t) : t.isMark = true := by
  unfold punctuation at h
  repeat' split at h
  all_goals first | cases h; rfl | cases h

def Token.char : Token → Char
  | lbrace => '\x7b'
  | rbrace => '\x7d'
  | lbracket => '['
  | rbracket => ']'
  | colon => ':'
  | _ => ','

theorem char_of_punctuation {c : Char} {t : Token} (h : punctuation c = some t) : c = t.char := by
  unfold punctuation at h
  repeat' split at h
  all_goals first | cases h; assumption | cases h

theorem wordToken_cases {w : List Char} {t : Token} (h : wordToken w = some t) :
    t = .null ∨ (∃ b, t = .bool b) ∨ ∃ q, t = .num q ∧ Numeral.readNumber w = some q := by
  unfold wordToken at h
  split at h
  · cases h
    exact .inl rfl
  split at h
  · cases h
    exact .inr (.inl ⟨true, rfl⟩)
  split at h
  · cases h
    exact .inr (.inl ⟨false, rfl⟩)
  · obtain ⟨q, hread, rfl⟩ := Option.map_eq_some_iff.mp h
    exact .inr (.inr ⟨q, rfl, hread⟩)

theorem wordToken_isMark {w : List Char} {t : Token} (h : wordToken w = some t) : t.isMark = false := by
  rcases wordToken_cases h with rfl | ⟨b, rfl⟩ | ⟨q, rfl, -⟩ <;> rfl

theorem readNumber_of_wordToken {w : List Char} {q : ℚ} (h : wordToken w = some (.num q)) : Numeral.readNumber w = some q := by
  rcases wordToken_cases h with hnull | ⟨b, hbool⟩ | ⟨q', hnum, hread⟩
  · cases hnull
  · cases hbool
  · cases hnum
    exact hread

theorem lexFrom_cons_inv {s : LexState} {c : Char} {text : List Char} {ts : List Token}
    (h : lexFrom s (c :: text) = some ts) :
    ∃ s' out ts', lexStep s c = some (s', out) ∧ lexFrom s' text = some ts' ∧ ts = out ++ ts' := by
  cases hstep : lexStep s c with
  | none =>
    rw [lexFrom_cons_none hstep] at h
    cases h
  | some r =>
    rw [lexFrom_cons hstep] at h
    obtain ⟨ts', hrest, rfl⟩ := Option.map_eq_some_iff.mp h
    exact ⟨r.1, r.2, ts', rfl, hrest, rfl⟩

/-- The character of a mark is the last of its token. -/
theorem startToken_cases (c : Char) : (∃ p, punctuation c = some p ∧ startToken c = (.between, [p])) ∨ (startToken c).2 = [] := by
  unfold startToken
  split
  · exact .inr rfl
  · split
    · rename_i p hp
      exact .inl ⟨p, hp, rfl⟩
    · split <;> exact .inr rfl

/-- A step brings a mark at the mark's own character only, as its last token. -/
theorem lexStep_cases {s s' : LexState} {c : Char} {out : List Token} (h : lexStep s c = some (s', out)) :
    (∀ t ∈ out, t.isMark = false) ∨
    (∃ front p, out = front ++ [p] ∧ (∀ t ∈ front, t.isMark = false) ∧ punctuation c = some p ∧ s' = .between) := by
  cases lexStep_inv h with
  | start hstart =>
    rcases startToken_cases c with ⟨p, hp, hmark⟩ | hnone
    · rw [hmark] at hstart
      cases hstart
      exact .inr ⟨[], p, rfl, List.forall_mem_nil _, hp, rfl⟩
    · rw [hstart] at hnone
      rw [show out = [] from hnone]
      exact .inl (List.forall_mem_nil _)
  | wordEnd _ ht hstart =>
    have hword := wordToken_isMark ht
    rcases startToken_cases c with ⟨p, hp, hmark⟩ | hnone
    · rw [hmark] at hstart
      cases hstart
      exact .inr ⟨[_], p, rfl, List.forall_mem_singleton.mpr hword, hp, rfl⟩
    · rw [hstart] at hnone
      dsimp only at hnone
      rw [hnone]
      exact .inl (List.forall_mem_singleton.mpr hword)
  | close => exact .inl (List.forall_mem_singleton.mpr rfl)
  | _ => exact .inl (List.forall_mem_nil _)

theorem lexStep_mark {s s' : LexState} {c : Char} {ts as : List Token} {t : Token} (ht : t.isMark = true)
    (h : lexStep s c = some (s', ts ++ t :: as)) : as = [] ∧ punctuation c = some t ∧ s' = .between := by
  rcases lexStep_cases h with hnone | ⟨front, p, hlast, hfront, hp, rfl⟩
  · rw [hnone t (List.mem_append_right _ List.mem_cons_self)] at ht
    cases ht
  · rcases List.eq_nil_or_concat as with rfl | ⟨as, x, rfl⟩
    · obtain ⟨-, hpt⟩ := List.append_inj' hlast rfl
      cases hpt
      exact ⟨rfl, hp, rfl⟩
    · rw [List.concat_eq_append, ← List.cons_append, ← List.append_assoc] at hlast
      obtain ⟨rfl, -⟩ := List.append_inj' hlast rfl
      rw [hfront t (List.mem_append_right _ List.mem_cons_self)] at ht
      cases ht

theorem lexFrom_nil (s : LexState) : lexFrom s [] = lexEnd s := by
  rw [lexFrom, Machine.run_nil, Option.bind_some]
  cases lexEnd s <;> rfl

/-- A text is split at a mark: what is in front is read by itself. -/
theorem split_mark {s : LexState} {text : List Char} {ts ts' : List Token} {t : Token} (ht : t.isMark = true)
    (h : lexFrom s text = some (ts ++ t :: ts')) :
    ∃ a c b, text = a ++ c :: b ∧ punctuation c = some t ∧ lexer.run s (a ++ [c]) = some (.between, ts ++ [t]) ∧
      lexFrom .between b = some ts' := by
  induction text generalizing s ts with
  | nil =>
    rw [lexFrom_nil] at h
    have hmem : t ∈ ts ++ t :: ts' := List.mem_append_right _ List.mem_cons_self
    cases s with
    | between =>
      rw [← Option.some.inj h] at hmem
      cases hmem
    | word w =>
      obtain ⟨t', htoken, hlast⟩ := Option.map_eq_some_iff.mp h
      rw [← hlast, List.mem_singleton] at hmem
      rw [hmem, wordToken_isMark htoken] at ht
      cases ht
    | _ => cases h
  | cons c text ih =>
    obtain ⟨s', out, rest, hstep, hrest, heq⟩ := lexFrom_cons_inv h
    have hlater : ∀ bs, ts = out ++ bs → rest = bs ++ t :: ts' → ∃ a c' b, c :: text = a ++ c' :: b ∧ punctuation c' = some t ∧
        lexer.run s (a ++ [c']) = some (.between, ts ++ [t]) ∧ lexFrom .between b = some ts' := by
      rintro bs rfl rfl
      obtain ⟨a, c', b, rfl, hc', hrun, hb⟩ := ih hrest
      refine ⟨c :: a, c', b, rfl, hc', ?_, hb⟩
      rw [List.append_assoc]
      exact lexer.run_cons_of hstep hrun
    rcases List.append_eq_append_iff.mp heq with ⟨as, hout, hsplit⟩ | ⟨bs, hts, hsplit⟩
    · cases as with
      | nil =>
        rw [List.append_nil] at hout
        exact hlater [] (by rw [hout, List.append_nil]) hsplit.symm
      | cons t' as =>
        obtain ⟨rfl, rfl⟩ := List.cons.inj hsplit
        rw [hout] at hstep
        obtain ⟨rfl, hp, rfl⟩ := lexStep_mark ht hstep
        have hrun : lexer.run s [c] = some (.between, ts ++ [t] ++ []) := lexer.run_cons_of hstep rfl
        rw [List.append_nil] at hrun
        exact ⟨[], c, text, rfl, hp, hrun, hrest⟩
    · exact hlater bs hts hsplit

/-! ## First tokens -/

/-- Within a string, the next token is this string. -/
theorem lexFrom_quoted {s : LexState} {text : List Char} {ts : List Token} (hs : s.Quoted) (h : lexFrom s text = some ts) :
    ∃ u rest, ts = .str u :: rest := by
  induction text generalizing s ts with
  | nil =>
    rw [lexFrom_nil] at h
    cases s with
    | between => cases hs
    | word w => cases hs
    | _ => cases h
  | cons c text ih =>
    obtain ⟨s', out, rest, hstep, hrest, rfl⟩ := lexFrom_cons_inv h
    by_cases hc : c = '"'
    · subst hc
      cases s with
      | between => cases hs
      | word w => cases hs
      | inString u =>
        cases hstep
        exact ⟨u, rest, rfl⟩
      | escape u =>
        cases hstep
        exact ih (show (LexState.inString _).Quoted from trivial) hrest
      | hex u owed bits => cases hstep
    · obtain ⟨hs', rfl⟩ := quoted_step hs hc hstep
      exact ih hs' hrest

theorem lexFrom_word_end {w : List Char} (hne : w ≠ []) (hw : ∀ c ∈ w, isDelimiter c = false) :
    lexFrom .between w = (wordToken w).map fun t => [t] := by
  obtain ⟨c, w, rfl⟩ := List.exists_cons_of_ne_nil hne
  have hfirst : lexStep .between c = some (.word [c], []) := congrArg some (startToken_of_word (hw c List.mem_cons_self))
  have hword : lexer.run (.word [c]) w = some (.word (c :: w), []) := run_word fun c hc => hw c (List.mem_cons_of_mem _ hc)
  have hrest := lexFrom_append (.word [c]) w []
  rw [List.append_nil, hword, Option.bind_some, lexFrom_nil] at hrest
  rw [lexFrom_cons hfirst, hrest]
  show Option.map _ (Option.map _ ((wordToken (c :: w)).map _)) = _
  rw [Option.map_map, Option.map_map]
  rfl

/-- A word, up to its delimiter or to the end. -/
theorem lexFrom_wordStart {c : Char} {text : List Char} {t : Token} {ts : List Token} (hc : isDelimiter c = false)
    (h : lexFrom .between (c :: text) = some (t :: ts)) :
    ∃ w b, c :: text = w ++ b ∧ w ≠ [] ∧ (∀ x ∈ w, isDelimiter x = false) ∧ wordToken w = some t ∧
      lexFrom .between b = some ts := by
  have hsplit := List.takeWhile_append_dropWhile (p := fun c => !isDelimiter c) (l := c :: text)
  have hword : ∀ x ∈ (c :: text).takeWhile fun c => !isDelimiter c, isDelimiter x = false := by
    intro x hx
    simpa using List.all_eq_true.mp List.all_takeWhile x hx
  have hne : (c :: text).takeWhile (fun c => !isDelimiter c) ≠ [] := by
    rw [List.takeWhile_cons_of_pos (by simpa using hc)]
    exact List.cons_ne_nil _ _
  refine ⟨_, _, hsplit.symm, hne, hword, ?_⟩
  rw [← hsplit] at h
  cases hrest : (c :: text).dropWhile fun c => !isDelimiter c with
  | nil =>
    rw [hrest, List.append_nil, lexFrom_word_end hne hword] at h
    obtain ⟨t', htoken, hlast⟩ := Option.map_eq_some_iff.mp h
    cases hlast
    exact ⟨htoken, rfl⟩
  | cons d b =>
    have hd : isDelimiter d = true := by
      have hhead := List.head?_dropWhile_not (fun c => !isDelimiter c) (c :: text)
      rw [hrest] at hhead
      simpa using hhead
    rw [hrest, lexFrom_word hne hword hd] at h
    obtain ⟨t', htoken, hmap⟩ := Option.bind_eq_some_iff.mp h
    obtain ⟨ts', hb, hcons⟩ := Option.map_eq_some_iff.mp hmap
    cases hcons
    exact ⟨htoken, hb⟩

/-- What a text begins with, behind the blanks: a mark, a word, or a string. -/
theorem lexFrom_between {text : List Char} {t : Token} {ts : List Token} (h : lexFrom .between text = some (t :: ts)) :
    ∃ blanks rest, (∀ c ∈ blanks, isSpace c = true) ∧ text = blanks ++ rest ∧
      ((∃ c b, rest = c :: b ∧ punctuation c = some t ∧ lexFrom .between b = some ts) ∨
      (∃ w b, rest = w ++ b ∧ w ≠ [] ∧ (∀ c ∈ w, isDelimiter c = false) ∧ wordToken w = some t ∧ lexFrom .between b = some ts) ∨
      ∃ u, t = .str u) := by
  induction text with
  | nil => cases h
  | cons c text ih =>
    by_cases hdelimiter : isDelimiter c = true
    · obtain ⟨s', out, rest, hstep, hrest, heq⟩ := lexFrom_cons_inv h
      have hstart : startToken c = (s', out) := Option.some.inj hstep
      unfold startToken at hstart
      by_cases hspace : isSpace c = true
      · rw [if_pos hspace] at hstart
        cases hstart
        rw [List.nil_append] at heq
        rw [← heq] at hrest
        obtain ⟨blanks, rest, hblanks, rfl, hcases⟩ := ih hrest
        exact ⟨c :: blanks, rest, List.forall_mem_cons.mpr ⟨hspace, hblanks⟩, rfl, hcases⟩
      rw [if_neg hspace] at hstart
      split at hstart
      · rename_i p hp
        cases hstart
        cases heq
        exact ⟨[], c :: text, nofun, rfl, .inl ⟨c, text, rfl, hp, hrest⟩⟩
      · rename_i hpunctuation
        have hquote : c = '"' := by
          simpa [isDelimiter, hspace, hpunctuation] using hdelimiter
        rw [if_pos hquote] at hstart
        cases hstart
        obtain ⟨u, rest', rfl⟩ := lexFrom_quoted (show (LexState.inString []).Quoted from trivial) hrest
        cases heq
        exact ⟨[], c :: text, nofun, rfl, .inr (.inr ⟨u, rfl⟩)⟩
    · rw [Bool.not_eq_true] at hdelimiter
      exact ⟨[], c :: text, nofun, rfl, .inr (.inl (lexFrom_wordStart hdelimiter h))⟩

section Mark
variable {text : List Char} {ts : List Token}

theorem lexFrom_mark {t : Token} (ht : t.isMark = true) (h : lexFrom .between text = some (t :: ts)) :
    ∃ blanks c b, (∀ x ∈ blanks, isSpace x = true) ∧ text = blanks ++ c :: b ∧ punctuation c = some t ∧
      lexFrom .between b = some ts := by
  obtain ⟨blanks, rest, hblanks, rfl, ⟨c, b, rfl, hc, hb⟩ | ⟨w, b, -, -, -, htoken, -⟩ | ⟨u, rfl⟩⟩ := lexFrom_between h
  · exact ⟨blanks, c, b, hblanks, rfl, hc, hb⟩
  · rw [wordToken_isMark htoken] at ht
    cases ht
  · cases ht

theorem lexFrom_number {q : ℚ} (h : lexFrom .between text = some (.num q :: ts)) :
    ∃ blanks w b, (∀ x ∈ blanks, isSpace x = true) ∧ text = blanks ++ (w ++ b) ∧ w ≠ [] ∧
      (∀ c ∈ w, isDelimiter c = false) ∧ Numeral.readNumber w = some q ∧ lexFrom .between b = some ts := by
  obtain ⟨blanks, rest, hblanks, rfl, ⟨c, b, -, hc, -⟩ | ⟨w, b, rfl, hne, hw, htoken, hb⟩ | ⟨u, hu⟩⟩ := lexFrom_between h
  · exact absurd (isMark_punctuation hc) Bool.false_ne_true
  · exact ⟨blanks, w, b, hblanks, rfl, hne, hw, readNumber_of_wordToken htoken, hb⟩
  · cases hu

end Mark

/-! ## How long strings are -/

/-- A character that stands for itself between quotes. -/
def Plain (c : Char) : Prop := c ≠ '"' ∧ c ≠ '\\' ∧ 0x20 ≤ c.toNat

instance (c : Char) : Decidable (Plain c) := inferInstanceAs (Decidable (_ ∧ _))

/-- A text that needs no escapes, by evaluation. -/
theorem plain_of_all {s : List Char} (h : s.all (fun c => decide (Plain c)) = true) : ∀ c ∈ s, Plain c :=
  fun c hc => of_decide_eq_true (List.all_eq_true.mp h c hc)

/-- A text without quotes, backslashes and control characters stands for itself. -/
theorem run_plain {s : List Char} (h : ∀ c ∈ s, Plain c) (u : Units) :
    lexer.run (.inString u) s = some (.inString (u ++ units s), []) := by
  induction s generalizing u with
  | nil =>
    show some (LexState.inString u, []) = some (.inString (u ++ []), [])
    rw [List.append_nil]
  | cons c s ih =>
    obtain ⟨⟨hquote, hescape, hcontrol⟩, hs⟩ := List.forall_mem_cons.mp h
    have hstep : lexer.step (.inString u) c = some (.inString (u ++ utf16 c), []) := by
      show lexStep (.inString u) c = _
      rw [lexStep, if_neg hquote, if_neg hescape, if_neg (Nat.not_lt.mpr hcontrol)]
    rw [lexer.run_cons_of hstep (ih hs _), List.append_assoc]
    rfl

theorem stringTokens_plain {s : List Char} (h : ∀ c ∈ s, Plain c) : stringTokens s = some [.str (units s)] := by
  rw [stringTokens, run_plain h]
  rfl

/-- A unit that no escape is needed for. -/
def plainUnit (u : UInt16) : Bool := u ≠ 34 && u ≠ 92 && 32 ≤ u

/-- Tokens with such strings only. -/
def Token.isPlain : Token → Bool
  | str u => u.all plainUnit
  | _ => true

theorem plain_of_units {text : List Char} (h : (units text).all plainUnit = true) : ∀ c ∈ text, Plain c := by
  intro c hc
  have hall : ∀ u ∈ utf16 c, plainUnit u = true := fun u hu => List.all_eq_true.mp h u (List.mem_flatMap.mpr ⟨c, hc, hu⟩)
  by_cases hlow : c.toNat < 0x10000
  · have hu := hall (UInt16.ofNat c.toNat) (by rw [utf16, if_pos hlow]; exact List.mem_singleton_self _)
    simp only [plainUnit, Bool.and_eq_true, decide_eq_true_eq] at hu
    obtain ⟨⟨hquote, hescape⟩, hcontrol⟩ := hu
    refine ⟨fun heq => hquote (by rw [heq]; rfl), fun heq => hescape (by rw [heq]; rfl), ?_⟩
    have hle : 32 ≤ (UInt16.ofNat c.toNat).toNat := UInt16.le_iff_toNat_le.mp hcontrol
    rwa [UInt16.toNat_ofNat', Nat.mod_eq_of_lt hlow] at hle
  · refine ⟨fun heq => hlow (by rw [heq]; decide), fun heq => hlow (by rw [heq]; decide), by omega⟩

/-- The length of the string that is open. -/
def LexState.size : LexState → Nat
  | inString s => s.length
  | escape s => s.length
  | hex s _ _ => s.length
  | _ => 0

theorem utf16_length_pos (c : Char) : 0 < (utf16 c).length := by
  unfold utf16
  split <;> exact Nat.succ_pos _

theorem size_startToken (c : Char) : (startToken c).1.size = 0 ∧ ∀ u, .str u ∉ (startToken c).2 := by
  unfold startToken
  split
  · exact ⟨rfl, fun _ => List.not_mem_nil⟩
  split
  · rename_i t ht
    refine ⟨rfl, fun u hu => ?_⟩
    rw [← List.mem_singleton.mp hu] at ht
    exact Bool.false_ne_true (isMark_punctuation ht)
  · split <;> exact ⟨rfl, fun _ => List.not_mem_nil⟩

/-- What a step adds to the open string is no longer than its character, and what it closes is no longer than that. -/
theorem size_step {s s' : LexState} {c : Char} {out : List Token} (h : lexStep s c = some (s', out)) :
    s'.size ≤ s.size + (utf16 c).length ∧ ∀ u, .str u ∈ out → u.length ≤ s.size := by
  have hpos := utf16_length_pos c
  have hstartToken := size_startToken c
  have hnone (n : Nat) : ∀ u, .str u ∈ ([] : List Token) → u.length ≤ n := fun u hu => absurd hu List.not_mem_nil
  cases lexStep_inv h with
  | start hstart =>
    rw [hstart] at hstartToken
    exact ⟨hstartToken.1 ▸ Nat.zero_le _, fun u hu => absurd hu (hstartToken.2 u)⟩
  | wordEnd _ ht hstart =>
    rw [hstart] at hstartToken
    refine ⟨hstartToken.1 ▸ Nat.zero_le _, fun u hu => ?_⟩
    rcases List.mem_cons.mp hu with rfl | hu
    · rcases wordToken_cases ht with hnull | ⟨b, hbool⟩ | ⟨q, hnum, -⟩
      · cases hnull
      · cases hbool
      · cases hnum
    · exact absurd hu (hstartToken.2 u)
  | wordMore => exact ⟨Nat.zero_le _, hnone _⟩
  | close v =>
    refine ⟨Nat.zero_le _, fun u hu => ?_⟩
    cases List.mem_singleton.mp hu
    exact le_refl _
  | char => exact ⟨by simp [LexState.size], hnone _⟩
  | backslash => exact ⟨Nat.le_add_right _ _, hnone _⟩
  | hexStart => exact ⟨Nat.le_add_right _ _, hnone _⟩
  | hexMore => exact ⟨Nat.le_add_right _ _, hnone _⟩
  | escaped =>
    refine ⟨?_, hnone _⟩
    simp only [LexState.size, List.length_append, List.length_singleton]
    omega
  | hexEnd =>
    refine ⟨?_, hnone _⟩
    simp only [LexState.size, List.length_append, List.length_singleton]
    omega

theorem size_run {s s' : LexState} {text : List Char} {ts : List Token} (h : lexer.run s text = some (s', ts)) :
    s'.size ≤ s.size + (units text).length ∧ ∀ u, .str u ∈ ts → u.length ≤ s.size + (units text).length := by
  induction text generalizing s ts with
  | nil =>
    cases h
    exact ⟨Nat.le_add_right _ _, nofun⟩
  | cons c text ih =>
    obtain ⟨mid, out, outs, hstep, hrun, rfl⟩ := lexer.run_cons_iff.mp h
    have hmid := size_step hstep
    have hrest := ih hrun
    have hunits : (units (c :: text)).length = (utf16 c).length + (units text).length := by
      rw [units, List.flatMap_cons, List.length_append]
      rfl
    refine ⟨by omega, fun u hu => ?_⟩
    rcases List.mem_append.mp hu with hout | houts
    · have hle := hmid.2 u hout
      omega
    · have hle := hrest.2 u houts
      omega

/-- A text is split at the first character with a property. -/
theorem split_first {p : Char → Prop} [DecidablePred p] {text : List Char} (h : ¬∀ c ∈ text, p c) :
    ∃ a c b, text = a ++ c :: b ∧ (∀ x ∈ a, p x) ∧ ¬p c := by
  induction text with
  | nil => exact absurd nofun h
  | cons c text ih =>
    by_cases hc : p c
    · obtain ⟨a, d, b, rfl, ha, hd⟩ := ih fun hall => h (List.forall_mem_cons.mpr ⟨hc, hall⟩)
      exact ⟨c :: a, d, b, rfl, List.forall_mem_cons.mpr ⟨hc, ha⟩, hd⟩
    · exact ⟨[], c, text, rfl, nofun, hc⟩

/-- A text that does not stand for itself gives shorter strings. -/
theorem length_lt_of_not_plain {text : List Char} (hnot : ¬∀ c ∈ text, Plain c) {ts : List Token}
    (h : stringTokens text = some ts) {u : Units} (hu : .str u ∈ ts) : u.length < (units text).length := by
  obtain ⟨a, c, b, rfl, ha, hc⟩ := split_first hnot
  have hunits : (units (a ++ c :: b)).length = (units a).length + ((utf16 c).length + (units b).length) := by
    simp [units]
  have hpos := utf16_length_pos c
  unfold stringTokens at h
  split at h
  · rename_i last out hrun
    obtain ⟨s, before, rest, ha', hrest, rfl⟩ := lexer.run_append_iff.mp hrun
    rw [run_plain ha, List.nil_append] at ha'
    cases ha'
    obtain ⟨mid, closed, outs, hstep, hb, rfl⟩ := lexer.run_cons_iff.mp hrest
    change lexStep (.inString (units a)) c = _ at hstep
    have hclosed := (size_step hstep).2 u
    have hmid : mid.size ≤ (units a).length := by
      cases lexStep_inv hstep with
      | close => exact Nat.zero_le _
      | backslash => exact le_refl _
      | char _ hquote hescape hcontrol => exact absurd ⟨hquote, hescape, Nat.not_lt.mp hcontrol⟩ hc
    have hlater := size_run hb
    have hlast : last.length ≤ mid.size + (units b).length := hlater.1
    cases h
    simp only [List.nil_append, List.mem_append, List.mem_singleton] at hu
    rcases hu with (hclose | houts) | hend
    · have hle : u.length ≤ (units a).length := hclosed hclose
      omega
    · have hle := hlater.2 u houts
      omega
    · cases hend
      omega
  · cases h

end IbarraGateway.JsonText
