import OncRpc.Gen.Lexer
import Mathlib.Tactic.IntervalCases

/-!
# Texts and their tokens

A text renders a list of tokens if it consists of their spellings, in order, with white space in any
amount before, between and after them.  Where a word or a number would run into what follows, there
must be some.  The three passes over a source make of every such text the tokens it renders.
-/

namespace OncRpc

/-! ## The tokenizer, without its fuel -/

/-- Fuel for every character is enough, and more makes no difference. -/
theorem tokenizeLoop_congr {fuel fuel' : ℕ} {input : List Char} (h : input.length ≤ fuel)
    (h' : input.length ≤ fuel') : tokenizeLoop fuel input = tokenizeLoop fuel' input := by
  induction fuel generalizing fuel' input with
  | zero =>
    obtain rfl : input = [] := List.eq_nil_of_length_eq_zero (Nat.le_zero.mp h)
    simp [tokenizeLoop]
  | succ fuel ih =>
    cases input with
    | nil => simp [tokenizeLoop]
    | cons c rest =>
      cases fuel' with
      | zero => simp at h'
      | succ fuel' =>
        rw [List.length_cons, Nat.add_le_add_iff_right] at h h'
        have hdrop : (rest.dropWhile isWordChar).length ≤ rest.length :=
          (List.dropWhile_suffix _).length_le
        simp only [tokenizeLoop]
        rw [ih h h', ih (hdrop.trans h) (hdrop.trans h')]

/-- What the tokenizer makes of a text by its first character. -/
theorem tokenize_cons (c : Char) (rest : List Char) :
    tokenize (c :: rest) =
      if isWhitespace c then tokenize rest
      else if startsWord c then
        (tokenize (rest.dropWhile isWordChar)).map (wordToken (c :: rest.takeWhile isWordChar) :: ·)
      else if startsNumber c then do
        let value ← parseNumber (c :: rest.takeWhile isWordChar)
        (tokenize (rest.dropWhile isWordChar)).map (Token.number value :: ·)
      else if c ∈ symbols then (tokenize rest).map (Token.symbol c :: ·)
      else .error (.parse ("unsupported character '" ++ c.toString ++ "' in XDR source")) := by
  have hdrop : (rest.dropWhile isWordChar).length ≤ rest.length :=
    (List.dropWhile_suffix _).length_le
  unfold tokenize
  rw [List.length_cons, tokenizeLoop, tokenizeLoop_congr hdrop le_rfl]
  rfl

/-- The tokens of a source: the end of the source is the last of them, and only the last. -/
def Ended (tokens : List Token) : Prop := ∃ body, tokens = body ++ [.eof] ∧ .eof ∉ body

/-- A token in front that is not the end keeps the end the only one. -/
theorem Ended.cons {token : Token} {tokens : List Token} (h : Ended tokens)
    (htoken : token ≠ .eof) :
    Ended (token :: tokens) := by
  obtain ⟨body, rfl, hbody⟩ := h
  exact ⟨token :: body, rfl, by simp [hbody, htoken.symm]⟩

/-- A word is not the end of the source. -/
theorem wordToken_ne_eof (word : List Char) : wordToken word ≠ .eof := by
  unfold wordToken
  split <;> simp

/-- A mapped result is successful exactly if the result is. -/
theorem map_ok_iff {α β : Type} {x : Except GeneratorError α} {f : α → β} {b : β} :
    x.map f = .ok b ↔ ∃ a, x = .ok a ∧ f a = b := by
  cases x <;> simp [Except.map]

/-- The tokenizer ends what it makes of a text with the end of the source. -/
theorem ended_of_tokenize {input : List Char} {tokens : List Token}
    (h : tokenize input = .ok tokens) : Ended tokens := by
  induction hn : input.length using Nat.strongRecOn generalizing input tokens with
  | ind n ih =>
    subst hn
    cases input with
    | nil =>
      obtain rfl := Except.ok.inj h
      exact ⟨[], rfl, by simp⟩
    | cons c rest =>
      have hrest : rest.length < (c :: rest).length := by simp
      have hdrop : (rest.dropWhile isWordChar).length < (c :: rest).length :=
        lt_of_le_of_lt (List.dropWhile_suffix _).length_le hrest
      rw [tokenize_cons] at h
      split at h
      · exact ih _ hrest h rfl
      split at h
      · obtain ⟨more, hmore, rfl⟩ := map_ok_iff.mp h
        exact (ih _ hdrop hmore rfl).cons (wordToken_ne_eof _)
      split at h
      · rcases hvalue : parseNumber (c :: rest.takeWhile isWordChar) with e | value
        · rw [hvalue] at h
          cases h
        · rw [hvalue] at h
          obtain ⟨more, hmore, rfl⟩ := map_ok_iff.mp h
          exact (ih _ hdrop hmore rfl).cons (by simp)
      split at h
      · obtain ⟨more, hmore, rfl⟩ := map_ok_iff.mp h
        exact (ih _ hrest hmore rfl).cons (by simp)
      · cases h

/-- The tokens of a source end with the end of the source. -/
theorem ended_of_sourceTokens {input : List Char} {tokens : List Token}
    (h : sourceTokens input = .ok tokens) : Ended tokens := by
  unfold sourceTokens at h
  rcases hclean : stripBlockComments input with e | cleaned
  · rw [hclean] at h
    cases h
  · rw [hclean] at h
    exact ended_of_tokenize h

/-! ## Numbers -/

/-- The character of a digit reads back as the digit. -/
theorem toDigit_digitChar {radix d : ℕ} (hradix : radix ≤ 16) (h : d < radix) :
    toDigit radix d.digitChar = some d := by
  have hlt : d < 16 := h.trans_le hradix
  have hdigit : toDigit 16 d.digitChar = some d := by
    interval_cases d <;> decide
  obtain ⟨hvalue, -⟩ := Option.filter_eq_some_iff.mp hdigit
  exact Option.filter_eq_some_iff.mpr ⟨hvalue, decide_eq_true h⟩

/-- The value of digits goes on from that of the digits in front. -/
theorem digitsValue_append (radix : ℕ) (front back : List Char) :
    digitsValue radix (front ++ back) = (digitsValue radix front).bind fun value =>
      back.foldlM (fun value c => (toDigit radix c).map (value * radix + ·)) value := by
  simp [digitsValue, List.foldlM_append]

/-- The digits of a number have its value. -/
theorem digitsValue_toDigits {radix : ℕ} (hone : 1 < radix) (hradix : radix ≤ 16) (n : ℕ) :
    digitsValue radix (Nat.toDigits radix n) = some n := by
  induction n using Nat.strongRecOn with
  | ind n ih =>
    by_cases hn : n < radix
    · rw [Nat.toDigits_of_lt_base hn]
      simp [digitsValue, toDigit_digitChar hradix hn]
    · have hle : radix ≤ n := Nat.le_of_not_lt hn
      rw [Nat.toDigits_of_base_le hone hle, digitsValue_append,
        ih (n / radix) (Nat.div_lt_self (by omega) hone)]
      simp only [Option.bind_some, List.foldlM_cons, List.foldlM_nil,
        toDigit_digitChar hradix (Nat.mod_lt n (by omega)), Option.map_some]
      exact congrArg some (Nat.div_add_mod' n radix)

/-- The digits of a positive number do not start with a zero. -/
theorem toDigits_head {radix n : ℕ} (hone : 1 < radix) (hradix : radix ≤ 16) (h : 0 < n) :
    (Nat.toDigits radix n).head? ≠ some '0' := by
  induction n using Nat.strongRecOn with
  | ind n ih =>
    by_cases hn : n < radix
    · have hlt : n < 16 := hn.trans_le hradix
      rw [Nat.toDigits_of_lt_base hn]
      interval_cases n <;> decide
    · have hle : radix ≤ n := Nat.le_of_not_lt hn
      have hhead := ih (n / radix) (Nat.div_lt_self h hone) (Nat.div_pos hle (by omega))
      have hne : Nat.toDigits radix (n / radix) ≠ [] := Nat.toDigits_ne_nil
      rw [Nat.toDigits_of_base_le hone hle]
      rwa [List.head?_append_of_ne_nil _ hne]

/-- Decimal digits have no prefix of another base. -/
theorem numberBase_toDigits (n : ℕ) : numberBase (Nat.toDigits 10 n) = (10, Nat.toDigits 10 n) := by
  rcases Nat.eq_zero_or_pos n with rfl | hpos
  · decide
  · have hhead := @toDigits_head 10 _ (by decide) (by decide) hpos
    unfold numberBase
    split <;> simp_all

/-- The decimal digits of a number read back as the number. -/
theorem fromStrRadix_toDigits {n : ℕ} (h : n < 2 ^ 63) :
    fromStrRadix (Nat.toDigits 10 n) 10 = some (n : Int) := by
  have hdigits : ∀ c ∈ Nat.toDigits 10 n, c.isDigit := fun c hc =>
    Nat.isDigit_of_mem_toDigits (by decide) (by decide) hc
  have hvalue := @digitsValue_toDigits 10 (by decide) (by decide) n
  unfold fromStrRadix
  split
  · exact absurd ‹_› Nat.toDigits_ne_nil
  · have := hdigits '-' (by simp_all)
    simp at this
  · have := hdigits '+' (by simp_all)
    simp at this
  · have := hdigits '-' (by simp_all)
    simp at this
  · have := hdigits '+' (by simp_all)
    simp at this
  · rw [hvalue, Option.filter_some, if_pos (by simpa using h)]
    rfl

/-- The decimal spelling of a number. -/
def numberText (value : Int) : List Char :=
  if value < 0 then '-' :: Nat.toDigits 10 value.natAbs else Nat.toDigits 10 value.natAbs

/-- The decimal spelling of a number is read as the number. -/
theorem parseNumber_numberText {value : Int} (hlow : -2 ^ 63 < value) (hhigh : value < 2 ^ 63) :
    parseNumber (numberText value) = .ok value := by
  have hrange : value.natAbs < 2 ^ 63 := by omega
  unfold numberText
  split
  · have hsign : splitSign ('-' :: Nat.toDigits 10 value.natAbs) =
        (true, Nat.toDigits 10 value.natAbs) := rfl
    simp only [parseNumber, hsign, numberBase_toDigits, fromStrRadix_toDigits hrange, if_true]
    congr 1
    omega
  · have hsign : splitSign (Nat.toDigits 10 value.natAbs) =
        (false, Nat.toDigits 10 value.natAbs) := by
      unfold splitSign
      split
      · rename_i rest h
        have hdigit := Nat.isDigit_of_mem_toDigits (c := '-') (n := value.natAbs) (b := 10)
          (by decide) (by decide) (by rw [h]; simp)
        simp at hdigit
      · rfl
    simp only [parseNumber, hsign, numberBase_toDigits, fromStrRadix_toDigits hrange,
      Bool.false_eq_true, if_false]
    congr 1
    omega

/-! ## Texts of tokens -/

/-- The spelling of a keyword. -/
def Keyword.text : Keyword → String
  | .bool => "bool"
  | .case => "case"
  | .const => "const"
  | .default => "default"
  | .double => "double"
  | .enum => "enum"
  | .float => "float"
  | .hyper => "hyper"
  | .int => "int"
  | .opaqueData => "opaque"
  | .program => "program"
  | .quadruple => "quadruple"
  | .string => "string"
  | .struct => "struct"
  | .switch => "switch"
  | .typedef => "typedef"
  | .union => "union"
  | .unsigned => "unsigned"
  | .version => "version"
  | .void => "void"

/-- The spelling of a token. -/
def Token.text : Token → List Char
  | .keyword word => word.text.toList
  | .identifier name => name.toList
  | .number value => numberText value
  | .symbol c => [c]
  | .eof => []

/-- A word the tokenizer takes in one piece. -/
def IsWord (word : List Char) : Prop :=
  ∃ first rest, word = first :: rest ∧ startsWord first ∧ ∀ c ∈ rest, isWordChar c

/-- A letter and word characters after it are a word. -/
theorem IsWord.of_all {word rest : List Char} {first : Char} (h : word = first :: rest)
    (hfirst : startsWord first) (hrest : rest.all isWordChar) : IsWord word :=
  ⟨first, rest, h, hfirst, List.all_eq_true.mp hrest⟩

/-- The names the language has: words that are not keywords. -/
def IsIdentifier (name : String) : Prop := IsWord name.toList ∧ keyword name = none

/-- The tokens a source can have.  The least number of 64 bits has no literal. -/
def Token.Writable : Token → Prop
  | .keyword _ => True
  | .identifier name => IsIdentifier name
  | .number value => -2 ^ 63 < value ∧ value < 2 ^ 63
  | .symbol c => c ∈ symbols
  | .eof => False

/-- The white space of a source file. -/
def isSpace (c : Char) : Bool := c = ' ' || (0x9 ≤ c.toNat && c.toNat ≤ 0xD)

/-- The token would go on with a letter or a digit behind it. -/
def Token.runsOn : Token → Bool
  | .keyword _ | .identifier _ | .number _ => true
  | .symbol _ | .eof => false

/-- The texts of a list of tokens. -/
inductive Renders : List Token → List Char → Prop where
  | nil {gap : List Char} (space : ∀ c ∈ gap, isSpace c) : Renders [] gap
  | cons {gap : List Char} {token : Token} {tokens : List Token} {text : List Char}
      (space : ∀ c ∈ gap, isSpace c) (rest : Renders tokens text)
      (apart : token.runsOn → ∀ c ∈ text.head?, ¬ isWordChar c) :
      Renders (token :: tokens) (gap ++ (token.text ++ text))

/-- The white space between tokens is white space to the tokenizer. -/
theorem isWhitespace_of_isSpace {c : Char} (h : isSpace c) : isWhitespace c := by
  simp only [isSpace, Bool.or_eq_true, Bool.and_eq_true, decide_eq_true_eq] at h
  rcases h with rfl | h
  · decide
  · simp [isWhitespace, h]

/-- White space in front is skipped. -/
theorem tokenize_gap {gap text : List Char} (h : ∀ c ∈ gap, isSpace c) :
    tokenize (gap ++ text) = tokenize text := by
  induction gap with
  | nil => rfl
  | cons c gap ih =>
    rw [List.cons_append, tokenize_cons, if_pos (isWhitespace_of_isSpace (h c List.mem_cons_self))]
    exact ih fun c hc => h c (List.mem_cons_of_mem _ hc)

/-- Word characters are taken up to the first character of another kind. -/
theorem takeWhile_word {word text : List Char} (hword : ∀ c ∈ word, isWordChar c)
    (htext : ∀ c ∈ text.head?, ¬ isWordChar c) :
    (word ++ text).takeWhile isWordChar = word ∧ (word ++ text).dropWhile isWordChar = text := by
  have hstop : text.takeWhile isWordChar = [] ∧ text.dropWhile isWordChar = text := by
    cases text with
    | nil => simp
    | cons c rest =>
      have hc : isWordChar c = false := by simpa using htext c rfl
      simp [hc]
  rw [List.takeWhile_append_of_pos hword, List.dropWhile_append_of_pos hword, hstop.1, hstop.2]
  simp

/-! ## Kinds of characters -/

/-- Digits by their code points. -/
theorem isDigit_iff {c : Char} : c.isDigit ↔ 48 ≤ c.toNat ∧ c.toNat ≤ 57 := by
  simp [Char.isDigit, UInt32.le_iff_toNat_le]

/-- Capital letters by their code points. -/
theorem isUpper_iff {c : Char} : c.isUpper ↔ 65 ≤ c.toNat ∧ c.toNat ≤ 90 := by
  change decide (c.val ≥ 'A'.val ∧ c.val ≤ 'Z'.val) = true ↔ _
  rw [decide_eq_true_eq, ge_iff_le, UInt32.le_iff_toNat_le, UInt32.le_iff_toNat_le]
  exact Iff.rfl

/-- Small letters by their code points. -/
theorem isLower_iff {c : Char} : c.isLower ↔ 97 ≤ c.toNat ∧ c.toNat ≤ 122 := by
  change (decide (c.val ≥ 'a'.val) && decide (c.val ≤ 'z'.val)) = true ↔ _
  rw [Bool.and_eq_true, decide_eq_true_eq, decide_eq_true_eq, ge_iff_le, UInt32.le_iff_toNat_le,
    UInt32.le_iff_toNat_le]
  exact Iff.rfl

/-- Letters by their code points. -/
theorem isAlpha_iff {c : Char} :
    c.isAlpha ↔ 65 ≤ c.toNat ∧ c.toNat ≤ 90 ∨ 97 ≤ c.toNat ∧ c.toNat ≤ 122 := by
  change (c.isUpper || c.isLower) = true ↔ _
  rw [Bool.or_eq_true, isUpper_iff, isLower_iff]

/-- Characters are equal if their code points are. -/
theorem toNat_eq_iff {c : Char} (d : Char) : c = d ↔ c.toNat = d.toNat :=
  ⟨fun h => h ▸ rfl, fun h => Char.toNat_inj.mp h⟩

/-- What a word starts with, by code points. -/
theorem startsWord_iff {c : Char} :
    startsWord c ↔ 65 ≤ c.toNat ∧ c.toNat ≤ 90 ∨ 97 ≤ c.toNat ∧ c.toNat ≤ 122 ∨ c.toNat = 95 := by
  have hunderscore := toNat_eq_iff (c := c) '_'
  simp only [startsWord, Bool.or_eq_true, isAlpha_iff, decide_eq_true_eq, hunderscore]
  exact or_assoc

/-- Word characters, by code points. -/
theorem isWordChar_iff {c : Char} : isWordChar c ↔ startsWord c ∨ 48 ≤ c.toNat ∧ c.toNat ≤ 57 := by
  simp only [isWordChar, startsWord, Char.isAlphanum, Bool.or_eq_true, isDigit_iff]
  tauto

/-- What a number starts with, by code points. -/
theorem startsNumber_iff {c : Char} :
    startsNumber c ↔ 48 ≤ c.toNat ∧ c.toNat ≤ 57 ∨ c.toNat = 45 := by
  have hminus := toNat_eq_iff (c := c) '-'
  simp only [startsNumber, Bool.or_eq_true, isDigit_iff, decide_eq_true_eq, hminus]
  rfl

/-- The characters of words and numbers are no white space. -/
theorem not_isWhitespace {c : Char} (h : isWordChar c ∨ startsNumber c) :
    isWhitespace c = false := by
  rw [isWordChar_iff, startsWord_iff, startsNumber_iff] at h
  simp only [isWhitespace, Bool.or_eq_false_iff, Bool.and_eq_false_iff, decide_eq_false_iff_not]
  omega

/-- A symbol is no white space and starts no word or number. -/
theorem symbol_kind {c : Char} (h : c ∈ symbols) :
    isWhitespace c = false ∧ startsWord c = false ∧ startsNumber c = false := by
  have hall : symbols.all fun c => !isWhitespace c && !startsWord c && !startsNumber c := by decide
  simpa [and_assoc] using List.all_eq_true.mp hall c h

/-! ## Rendered texts are read back -/

/-- A word is one token, if no word character follows. -/
theorem tokenize_word {word text : List Char} (hword : IsWord word)
    (htext : ∀ c ∈ text.head?, ¬ isWordChar c) :
    tokenize (word ++ text) = (tokenize text).map (wordToken word :: ·) := by
  obtain ⟨first, rest, rfl, hfirst, hrest⟩ := hword
  have hspace := not_isWhitespace (.inl (isWordChar_iff.mpr (.inl hfirst)))
  obtain ⟨htake, hdrop⟩ := takeWhile_word hrest htext
  rw [List.cons_append, tokenize_cons, if_neg (by simp [hspace]), if_pos hfirst, htake, hdrop]

/-- The text of a number starts like one and goes on with word characters. -/
theorem numberText_kind (value : Int) : ∃ first rest, numberText value = first :: rest ∧
    startsNumber first ∧ startsWord first = false ∧ ∀ c ∈ rest, isWordChar c := by
  have hdigits : ∀ c ∈ Nat.toDigits 10 value.natAbs, c.isDigit := fun c hc =>
    Nat.isDigit_of_mem_toDigits (by decide) (by decide) hc
  unfold numberText
  split
  · exact ⟨'-', _, rfl, by decide, by decide, fun c hc => by simp [isWordChar,
      Char.isAlphanum, hdigits c hc]⟩
  · obtain ⟨first, rest, hcons⟩ := List.exists_cons_of_ne_nil
      (Nat.toDigits_ne_nil (n := value.natAbs) (b := 10))
    have hfirst := hdigits first (by simp [hcons])
    refine ⟨first, rest, hcons, by simp [startsNumber, hfirst], ?_, fun c hc => ?_⟩
    · rw [← Bool.not_eq_true, startsWord_iff]
      rw [isDigit_iff] at hfirst
      omega
    · simp [isWordChar, Char.isAlphanum, hdigits c (by simp [hcons, hc])]

/-- The text of a number is one token, if no word character follows. -/
theorem tokenize_number {value : Int} {text : List Char} (hlow : -2 ^ 63 < value)
    (hhigh : value < 2 ^ 63) (htext : ∀ c ∈ text.head?, ¬ isWordChar c) :
    tokenize (numberText value ++ text) = (tokenize text).map (Token.number value :: ·) := by
  have hvalue := parseNumber_numberText hlow hhigh
  obtain ⟨first, rest, hcons, hfirst, hword, hrest⟩ := numberText_kind value
  rw [hcons] at hvalue ⊢
  have hspace := not_isWhitespace (.inr hfirst)
  obtain ⟨htake, hdrop⟩ := takeWhile_word hrest htext
  rw [List.cons_append, tokenize_cons, if_neg (by simp [hspace]), if_neg (by simp [hword]),
    if_pos hfirst, htake, hdrop, hvalue]
  rfl

/-- The text of a keyword is that keyword. -/
theorem keyword_text (word : Keyword) : keyword word.text = some word := by
  cases word <;> rfl

/-- The text of a keyword is a word. -/
theorem isWord_text (word : Keyword) : IsWord word.text.toList := by
  cases word <;> exact .of_all rfl (by decide) (by decide)

/-- The text of a token is that token, if what follows does not run into it. -/
theorem tokenize_token {token : Token} {text : List Char} (h : token.Writable)
    (htext : token.runsOn → ∀ c ∈ text.head?, ¬ isWordChar c) :
    tokenize (token.text ++ text) = (tokenize text).map (token :: ·) := by
  cases token with
  | keyword word =>
    rw [Token.text, tokenize_word (isWord_text word) (htext rfl), wordToken, String.ofList_toList,
      keyword_text]
  | identifier name =>
    rw [Token.text, tokenize_word h.1 (htext rfl), wordToken, String.ofList_toList, h.2]
  | number value => exact tokenize_number h.1 h.2 (htext rfl)
  | symbol c =>
    have hmem : c ∈ symbols := h
    obtain ⟨hspace, hword, hnumber⟩ := symbol_kind hmem
    rw [Token.text, List.cons_append, List.nil_append, tokenize_cons, if_neg (by simp [hspace]),
      if_neg (by simp [hword]), if_neg (by simp [hnumber]), if_pos hmem]
  | eof => exact h.elim

/-- A text is cut into the tokens it renders. -/
theorem Renders.tokenize {tokens : List Token} {text : List Char} (h : Renders tokens text)
    (hwritable : ∀ token ∈ tokens, token.Writable) :
    tokenize text = .ok (tokens ++ [.eof]) := by
  induction h with
  | @nil gap space =>
    have hgap : OncRpc.tokenize (gap ++ []) = OncRpc.tokenize [] := tokenize_gap space
    rw [List.append_nil] at hgap
    rw [hgap]
    rfl
  | cons space rest apart ih =>
    rw [tokenize_gap space, tokenize_token (hwritable _ List.mem_cons_self) apart,
      ih fun t ht => hwritable t (List.mem_cons_of_mem _ ht)]
    rfl

/-! ## The other passes -/

/-- The characters that the passes before the tokenizer leave alone. -/
def Plain (c : Char) : Prop := c.toNat < 128 ∧ c ≠ '/' ∧ c ≠ '%'

/-- White space is plain. -/
theorem plain_of_isSpace {c : Char} (h : isSpace c) : Plain c := by
  have hslash := toNat_eq_iff (c := c) '/'
  have hpercent := toNat_eq_iff (c := c) '%'
  simp only [isSpace, Bool.or_eq_true, Bool.and_eq_true, decide_eq_true_eq] at h
  rcases h with rfl | h
  · unfold Plain
    decide
  · rw [Plain, ne_eq, ne_eq, hslash, hpercent]
    simp only [Char.reduceToNat]
    omega

/-- The characters of words and numbers are plain. -/
theorem plain_of_isWordChar {c : Char} (h : isWordChar c ∨ startsNumber c) : Plain c := by
  have hslash := toNat_eq_iff (c := c) '/'
  have hpercent := toNat_eq_iff (c := c) '%'
  rw [isWordChar_iff, startsWord_iff, startsNumber_iff] at h
  rw [Plain, ne_eq, ne_eq, hslash, hpercent]
  simp only [Char.reduceToNat]
  omega

/-- A word consists of word characters. -/
theorem IsWord.wordChar {word : List Char} (h : IsWord word) : ∀ c ∈ word, isWordChar c := by
  obtain ⟨first, rest, rfl, hfirst, hrest⟩ := h
  simp only [List.mem_cons, forall_eq_or_imp]
  exact ⟨isWordChar_iff.mpr (.inl hfirst), hrest⟩

/-- A word is not the raw form of another. -/
theorem IsWord.ne_raw {name : String} (h : IsWord name.toList) (word : String) :
    name ≠ "r#" ++ word := by
  rintro rfl
  have hhash : isWordChar '#' := h.wordChar '#' (by simp)
  exact absurd hhash (by decide)

/-- The text of a token is plain. -/
theorem Token.Writable.plain {token : Token} (h : token.Writable) : ∀ c ∈ token.text, Plain c := by
  intro c hc
  cases token with
  | keyword word => exact plain_of_isWordChar (.inl ((isWord_text word).wordChar c hc))
  | identifier name => exact plain_of_isWordChar (.inl (h.1.wordChar c hc))
  | number value =>
    obtain ⟨first, rest, hcons, hfirst, -, hrest⟩ := numberText_kind value
    rw [Token.text, hcons, List.mem_cons] at hc
    rcases hc with rfl | hc
    · exact plain_of_isWordChar (.inr hfirst)
    · exact plain_of_isWordChar (.inl (hrest c hc))
  | symbol s =>
    obtain rfl := List.mem_singleton.mp hc
    have hall : symbols.all fun c => c.toNat < 128 && c ≠ '/' && c ≠ '%' := by decide
    simpa [Plain, and_assoc] using List.all_eq_true.mp hall c h
  | eof => exact h.elim

/-- The text of tokens is plain. -/
theorem Renders.plain {tokens : List Token} {text : List Char} (h : Renders tokens text)
    (hwritable : ∀ token ∈ tokens, token.Writable) : ∀ c ∈ text, Plain c := by
  induction h with
  | nil space => exact fun c hc => plain_of_isSpace (space c hc)
  | cons space rest apart ih =>
    intro c hc
    rcases List.mem_append.mp hc with hc | hc
    · exact plain_of_isSpace (space c hc)
    · rcases List.mem_append.mp hc with hc | hc
      · exact (hwritable _ List.mem_cons_self).plain c hc
      · exact ih (fun t ht => hwritable t (List.mem_cons_of_mem _ ht)) c hc

/-- A character of ASCII is one byte. -/
theorem utf8EncodeChar_of_lt {c : Char} (h : c.toNat < 128) :
    String.utf8EncodeChar c = [UInt8.ofNat c.toNat] := by
  have hsize : c.utf8Size = 1 := by
    rw [Char.utf8Size_eq_one_iff, UInt32.le_iff_toNat_le]
    exact Nat.le_of_lt_succ h
  rw [String.utf8EncodeChar_eq_singleton hsize]
  simp [UInt32.toUInt8]

/-- A byte that does not open a comment is kept. -/
theorem stripComments_keep {byte : UInt8} {rest : List UInt8}
    (h : byte = 0x2F → rest.head? ≠ some 0x2A) :
    stripComments false (byte :: rest) =
      (stripComments false rest).map (Char.ofNat byte.toNat :: ·) := by
  rw [stripComments.eq_def]
  split <;> simp_all

/-- A text of ASCII characters without a slash has no comments. -/
theorem stripBlockComments_plain {text : List Char} (h : ∀ c ∈ text, Plain c) :
    stripBlockComments text = .ok text := by
  unfold stripBlockComments
  induction text with
  | nil => rfl
  | cons c text ih =>
    obtain ⟨hascii, hslash, -⟩ := h c List.mem_cons_self
    have hbyte : (UInt8.ofNat c.toNat).toNat = c.toNat := by
      rw [UInt8.toNat_ofNat']
      omega
    have hkeep : UInt8.ofNat c.toNat ≠ 0x2F := by
      intro heq
      rw [heq] at hbyte
      exact hslash ((toNat_eq_iff '/').mpr hbyte.symm)
    rw [asBytes, List.flatMap_cons, utf8EncodeChar_of_lt hascii, List.cons_append, List.nil_append,
      stripComments_keep (fun h => absurd h hkeep), hbyte, Char.ofNat_toNat]
    have hrest := ih fun c hc => h c (List.mem_cons_of_mem _ hc)
    rw [asBytes] at hrest
    rw [hrest]
    rfl

/-- A line feed ends a line. -/
theorem splitLines_newline (rest : List Char) :
    splitLines ('\n' :: rest) = [] :: splitLines rest := rfl

/-- A carriage return and a line feed end a line. -/
theorem splitLines_return (rest : List Char) :
    splitLines ('\r' :: '\n' :: rest) = [] :: splitLines rest := rfl

/-- Any other character stands in front of the first line. -/
theorem splitLines_cons {c : Char} {rest : List Char} (hfeed : c ≠ '\n')
    (hreturn : c = '\r' → rest.head? ≠ some '\n') :
    splitLines (c :: rest) = (c :: (splitLines rest).headD []) :: (splitLines rest).tail := by
  rw [splitLines.eq_4 c rest hfeed fun more hc hmore => hreturn hc (by rw [hmore]; rfl)]
  cases splitLines rest <;> rfl

/-- A text starts with a line end, or with a character of its first line. -/
theorem line_cases (c : Char) (rest : List Char) :
    c = '\n' ∨ (∃ more, c = '\r' ∧ rest = '\n' :: more) ∨
      c ≠ '\n' ∧ (c = '\r' → rest.head? ≠ some '\n') := by
  by_cases hfeed : c = '\n'
  · exact .inl hfeed
  by_cases hreturn : c = '\r' ∧ rest.head? = some '\n'
  · obtain ⟨more, hmore⟩ := List.head?_eq_some_iff.mp hreturn.2
    exact .inr (.inl ⟨more, hreturn.1, hmore⟩)
  · exact .inr (.inr ⟨hfeed, fun hc hhead => hreturn ⟨hc, hhead⟩⟩)

/-- The characters of a line are from the text. -/
theorem mem_splitLines {text line : List Char} (hline : line ∈ splitLines text) :
    ∀ c ∈ line, c ∈ text := by
  induction text using splitLines.induct generalizing line with
  | case1 => exact absurd hline List.not_mem_nil
  | case2 rest ih =>
    rw [splitLines_newline, List.mem_cons] at hline
    intro c hc
    rcases hline with rfl | hline
    · simp at hc
    · exact List.mem_cons_of_mem _ (ih hline c hc)
  | case3 rest ih =>
    rw [splitLines_return, List.mem_cons] at hline
    intro c hc
    rcases hline with rfl | hline
    · simp at hc
    · exact List.mem_cons_of_mem _ (List.mem_cons_of_mem _ (ih hline c hc))
  | case4 c rest hfeed hreturn hnil ih =>
    rw [splitLines.eq_4 _ _ hfeed hreturn, hnil] at hline
    simp_all
  | case5 c rest hfeed hreturn first lines hcons ih =>
    rw [splitLines.eq_4 _ _ hfeed hreturn, hcons] at hline
    rw [hcons] at ih
    intro d hd
    rcases List.mem_cons.mp hline with rfl | hline
    · rcases List.mem_cons.mp hd with rfl | hd
      · exact List.mem_cons_self
      · exact List.mem_cons_of_mem _ (ih List.mem_cons_self d hd)
    · exact List.mem_cons_of_mem _ (ih (List.mem_cons_of_mem _ hline) d hd)

/-- A text whose lines are put together again. -/
def rejoin (text : List Char) : List Char := ['\n'].intercalate (splitLines text)

/-- Only the empty text has no lines. -/
theorem splitLines_eq_nil {text : List Char} : splitLines text = [] ↔ text = [] := by
  constructor
  · intro h
    rcases text with _ | ⟨c, rest⟩
    · rfl
    rcases line_cases c rest with rfl | ⟨more, rfl, rfl⟩ | ⟨hfeed, hreturn⟩
    · exact absurd h (List.cons_ne_nil _ _)
    · exact absurd h (List.cons_ne_nil _ _)
    · rw [splitLines_cons hfeed hreturn] at h
      exact absurd h (List.cons_ne_nil _ _)
  · rintro rfl
    rfl

/-- A character in front of the first line is one in front of the lines. -/
theorem rejoin_cons_lines {line : List Char} {lines : List (List Char)} (c : Char) :
    ['\n'].intercalate ((c :: line) :: lines) = c :: ['\n'].intercalate (line :: lines) := by
  cases lines <;> simp

/-- Putting the lines of a text together again keeps its characters, but for the line ends. -/
theorem rejoin_cons {c : Char} {rest : List Char} (hfeed : c ≠ '\n')
    (hreturn : c = '\r' → rest.head? ≠ some '\n') : rejoin (c :: rest) = c :: rejoin rest := by
  unfold rejoin
  rw [splitLines_cons hfeed hreturn]
  rcases splitLines rest with _ | ⟨line, lines⟩
  · rfl
  · exact rejoin_cons_lines c

/-- The end of a line. -/
theorem rejoin_newline (rest : List Char) :
    rejoin ('\n' :: rest) = if rest = [] then [] else '\n' :: rejoin rest := by
  unfold rejoin
  rw [splitLines_newline]
  split
  · subst ‹rest = []›
    rfl
  · rcases h : splitLines rest with _ | ⟨line, lines⟩
    · exact absurd (splitLines_eq_nil.mp h) ‹_›
    · simp

/-- A carriage return before a newline is dropped. -/
theorem rejoin_return (rest : List Char) :
    rejoin ('\r' :: '\n' :: rest) = rejoin ('\n' :: rest) := rfl

/-- The text of a token has no line ends. -/
theorem rejoin_append {word text : List Char} (h : ∀ c ∈ word, isSpace c = false) :
    rejoin (word ++ text) = word ++ rejoin text := by
  induction word with
  | nil => rfl
  | cons c word ih =>
    have hc := h c List.mem_cons_self
    rw [List.cons_append, rejoin_cons (by rintro rfl; exact absurd hc (by decide))
      (by rintro rfl; exact absurd hc (by decide)), ih fun c hc => h c (List.mem_cons_of_mem _ hc)]
    rfl

/-- White space in front of a text of tokens makes no difference. -/
theorem Renders.gap {text : List Char} {tokens : List Token} (h : Renders tokens text)
    (gap : List Char) (hgap : ∀ c ∈ gap, isSpace c) : Renders tokens (gap ++ text) := by
  have happend : ∀ more, (∀ c ∈ more, isSpace c) → ∀ c ∈ gap ++ more, isSpace c := by
    intro more hmore c hc
    rcases List.mem_append.mp hc with hc | hc
    · exact hgap c hc
    · exact hmore c hc
  rcases h with space | ⟨space, rest, apart⟩
  · exact .nil (happend _ space)
  · rw [← List.append_assoc]
    exact .cons (happend _ space) rest apart

/-- The lines of a gap, put together again, are a gap. -/
theorem Renders.rejoin_gap {gap text : List Char} {tokens : List Token}
    (hgap : ∀ c ∈ gap, isSpace c) (h : Renders tokens (rejoin text))
    (hempty : text = [] → tokens = []) :
    Renders tokens (rejoin (gap ++ text)) := by
  induction hn : gap.length using Nat.strongRecOn generalizing gap with
  | ind n ih =>
    subst hn
    rcases gap with _ | ⟨c, gap⟩
    · exact h
    have htail := fun (hgap : ∀ c ∈ gap, isSpace c) => ih gap.length (by simp) hgap rfl
    simp only [List.mem_cons, forall_eq_or_imp] at hgap
    have hnewline : Renders tokens (rejoin ('\n' :: (gap ++ text))) := by
      rw [rejoin_newline]
      split
      · rename_i hnil
        rw [hempty (List.append_eq_nil_iff.mp hnil).2]
        exact .nil (by simp)
      · exact (htail hgap.2).gap ['\n'] (by simp; decide)
    rcases line_cases c (gap ++ text) with
      rfl | ⟨rest, rfl, hrest⟩ | ⟨hfeed, hreturn⟩
    · exact hnewline
    · rw [List.cons_append, hrest, rejoin_return, ← hrest]
      exact htail hgap.2
    · rw [List.cons_append, rejoin_cons hfeed hreturn]
      exact (htail hgap.2).gap [c] (by simpa using hgap.1)

/-- Joining lines again leaves the first character, or puts a newline there. -/
theorem head_rejoin {text : List Char} : ∀ c ∈ (rejoin text).head?, c = '\n' ∨ c ∈ text.head? := by
  intro c hc
  rcases text with _ | ⟨first, rest⟩
  · cases hc
  have hnewline : ∀ more : List Char, c ∈ (rejoin ('\n' :: more)).head? → c = '\n' := by
    intro more hhead
    rw [rejoin_newline] at hhead
    split at hhead
    · simp at hhead
    · simpa using hhead.symm
  rcases line_cases first rest with rfl | ⟨more, rfl, rfl⟩ | ⟨hfeed, hreturn⟩
  · exact .inl (hnewline rest hc)
  · exact .inl (hnewline more hc)
  · rw [rejoin_cons hfeed hreturn] at hc
    exact .inr (by simpa using hc)

/-- The text of a token is not empty. -/
theorem Token.Writable.text_ne_nil {token : Token} (h : token.Writable) : token.text ≠ [] := by
  cases token with
  | keyword word =>
    obtain ⟨first, rest, hcons, -⟩ := isWord_text word
    rw [Token.text, hcons]
    simp
  | identifier name =>
    obtain ⟨⟨first, rest, hcons, -⟩, -⟩ := h
    rw [Token.text, hcons]
    simp
  | number value =>
    obtain ⟨first, rest, hcons, -⟩ := numberText_kind value
    rw [Token.text, hcons]
    simp
  | symbol c => simp [Token.text]
  | eof => exact h.elim

/-- The characters of words and numbers are not between tokens. -/
theorem not_isSpace {c : Char} (h : isWordChar c ∨ startsNumber c) : isSpace c = false := by
  have hspace := not_isWhitespace h
  rw [← Bool.not_eq_true] at hspace ⊢
  exact fun h => hspace (isWhitespace_of_isSpace h)

/-- No character of a token is white space between tokens. -/
theorem Token.Writable.not_isSpace {token : Token} (h : token.Writable) :
    ∀ c ∈ token.text, isSpace c = false := by
  intro c hc
  cases token with
  | keyword word => exact OncRpc.not_isSpace (.inl ((isWord_text word).wordChar c hc))
  | identifier name => exact OncRpc.not_isSpace (.inl (h.1.wordChar c hc))
  | number value =>
    obtain ⟨first, rest, hcons, hfirst, -, hrest⟩ := numberText_kind value
    rw [Token.text, hcons, List.mem_cons] at hc
    rcases hc with rfl | hc
    · exact OncRpc.not_isSpace (.inr hfirst)
    · exact OncRpc.not_isSpace (.inl (hrest c hc))
  | symbol s =>
    obtain rfl := List.mem_singleton.mp hc
    have hall : symbols.all fun c => !isSpace c := by decide
    simpa using List.all_eq_true.mp hall c h
  | eof => exact h.elim

/-- The lines of a rendered text, put together again, render the same tokens. -/
theorem Renders.rejoin {tokens : List Token} {text : List Char} (h : Renders tokens text)
    (hwritable : ∀ token ∈ tokens, token.Writable) : Renders tokens (rejoin text) := by
  induction h with
  | @nil gap space =>
    have hend : Renders [] (OncRpc.rejoin []) := .nil fun c hc => absurd hc List.not_mem_nil
    have hgap := Renders.rejoin_gap space hend fun _ => rfl
    rwa [List.append_nil] at hgap
  | @cons gap token tokens text space rest apart ih =>
    have htoken := hwritable token List.mem_cons_self
    have hrest := ih fun t ht => hwritable t (List.mem_cons_of_mem _ ht)
    refine Renders.rejoin_gap space ?_ fun hnil => ?_
    · rw [rejoin_append htoken.not_isSpace]
      refine @Renders.cons [] token tokens _ (by simp) hrest fun hruns c hc => ?_
      rcases head_rejoin c hc with rfl | hc
      · decide
      · exact apart hruns c hc
    · exact absurd (List.append_eq_nil_iff.mp hnil).1 htoken.text_ne_nil

/-- No line of plain text is dropped. -/
theorem stripUnsupportedLines_plain {text : List Char} (h : ∀ c ∈ text, Plain c) :
    stripUnsupportedLines text = rejoin text := by
  unfold stripUnsupportedLines rejoin
  congr 1
  rw [List.filter_eq_self]
  intro line hline
  rw [bne_iff_ne]
  intro hhead
  have hmem : '%' ∈ line := (List.dropWhile_suffix _).subset (List.mem_of_mem_head? hhead)
  exact (h '%' (mem_splitLines hline '%' hmem)).2.2 rfl

/-- The passes over a source make of a rendered text the tokens it renders. -/
theorem Renders.sourceTokens {tokens : List Token} {text : List Char} (h : Renders tokens text)
    (hwritable : ∀ token ∈ tokens, token.Writable) :
    sourceTokens text = .ok (tokens ++ [.eof]) := by
  have hplain := h.plain hwritable
  unfold OncRpc.sourceTokens
  rw [stripBlockComments_plain hplain]
  simp only [bind, Except.bind, stripUnsupportedLines_plain hplain]
  exact (h.rejoin hwritable).tokenize hwritable

-- A word ends at a symbol, and so does a number.
example : sourceTokens "const A=1;\r\n".toList =
    .ok [.keyword .const, .identifier "A", .symbol '=', .number 1, .symbol ';', .eof] := by
  decide +kernel

/-! ## Texts that are written out -/

/-- The characters of a text that is written out. -/
theorem toList_of_eq {text : String} {chars : List Char} (h : text = String.ofList chars) :
    text.toList = chars :=
  h ▸ String.toList_ofList

/-- The characters of two strings are those of both. -/
theorem toList_append_of_eq {first second : String} {chars more : List Char}
    (h : first.toList = chars) (h' : second.toList = more) :
    (first ++ second).toList = chars ++ more := by
  rw [String.toList_append, h, h']

end OncRpc
