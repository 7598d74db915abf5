import OncRpc.Gen.Stubs
import OncRpc.Gen.Text
import Mathlib.Data.List.Infix

/-!
# Identifiers of generated code

Which words are identifiers of Rust, and what the emitters make of the names of a schema.  There are
four ways: a name is put into its raw form if the emitter takes it for a keyword (`rustIdent`), put
in lower case (`toSnakeCase`), put in Pascal case (`unionVariantName`), or left as it is.

The emitter knows the keywords that are in use, but neither those that are only reserved nor those
that have no raw form, and the last three ways look at no keyword at all.  For each way there is a
condition on the name, and the result is an identifier exactly under it.
-/

namespace OncRpc

/-! ## The words of Rust -/

/-- The keywords of the edition of 2021 that are in use. -/
def strictKeywords : List String :=
  ["as", "async", "await", "break", "const", "continue", "crate", "dyn", "else", "enum", "extern",
    "false", "fn", "for", "if", "impl", "in", "let", "loop", "match", "mod", "move",
    "mut", "pub", "ref",
    "return", "self", "Self", "static", "struct", "super", "trait", "true", "type", "unsafe", "use",
    "where", "while"]

/-- The keywords of the edition of 2021 that are reserved. -/
def reservedKeywords : List String :=
  ["abstract", "become", "box", "do", "final", "macro", "override", "priv", "try",
    "typeof", "unsized", "virtual", "yield"]

/-- The keywords. -/
def keywords2021 : List String := strictKeywords ++ reservedKeywords

/-- The words that have no raw form. -/
def neverRaw : List String := ["crate", "self", "super", "Self"]

/-- The name is a word of its own: neither a keyword nor the underscore. -/
def LegalWord (name : String) : Prop := IsWord name.toList ∧ name ≠ "_" ∧ name ∉ keywords2021

/-- The name is an identifier, as it is or in its raw form. -/
def LegalIdent (name : String) : Prop :=
  LegalWord name ∨
    ∃ word, name = "r#" ++ word ∧ IsWord word.toList ∧ word ≠ "_" ∧ word ∉ neverRaw

instance IsWord.decidable : (word : List Char) → Decidable (IsWord word)
  | [] => isFalse fun ⟨_, _, hcons, _⟩ => nomatch hcons
  | first :: rest => decidable_of_iff (startsWord first = true ∧ rest.all isWordChar = true)
    ⟨fun h => .of_all rfl h.1 h.2, fun ⟨_, _, hcons, hfirst, hrest⟩ => by
      obtain ⟨rfl, rfl⟩ := List.cons.inj hcons
      exact ⟨hfirst, List.all_eq_true.mpr hrest⟩⟩

instance (name : String) : Decidable (LegalWord name) := by
  unfold LegalWord
  infer_instance

/-! ## What a name must not be -/

/-- The name is an identifier as it stands. -/
def Unreserved (name : String) : Prop := name ≠ "_" ∧ name ∉ keywords2021

/-- The name has a raw form if it needs one, and is none of the reserved words. -/
def Escapable (name : String) : Prop := name ≠ "_" ∧ name ∉ neverRaw ∧ name ∉ reservedKeywords

/-- In lower case the name is no keyword. -/
def Foldable (name : String) : Prop :=
  name ≠ "_" ∧ ∀ word ∈ keywords2021, name.toList.map Char.toLower ≠ word.toList

/-- Behind the underscores it starts with, the label has no digit, and without the underscores
around it, it is not `self` in any case. -/
def UnionCaseLabel.Fits : UnionCaseLabel → Prop
  | .case (.identifier name) =>
    let body := name.toList.dropWhile (· = '_')
    body.head?.any Char.isDigit = false ∧
      (body.rdropWhile (· = '_')).map Char.toLower ≠ "self".toList
  | .case (.number _) | .default => True

instance (name : String) : Decidable (Unreserved name) := by
  unfold Unreserved
  infer_instance

instance (name : String) : Decidable (Escapable name) := by
  unfold Escapable
  infer_instance

instance (name : String) : Decidable (Foldable name) := by
  unfold Foldable
  infer_instance

instance (label : UnionCaseLabel) : Decidable label.Fits := by
  unfold UnionCaseLabel.Fits
  split <;> infer_instance

/-! ## Words -/

/-- A word stays one with letters appended. -/
theorem IsWord.append {name suffix : String} (h : IsWord name.toList)
    (hsuffix : ∀ c ∈ suffix.toList, isWordChar c) : IsWord (name ++ suffix).toList := by
  obtain ⟨first, rest, hcons, hfirst, hrest⟩ := h
  refine ⟨first, rest ++ suffix.toList, by rw [String.toList_append, hcons, List.cons_append],
    hfirst, fun c hc => ?_⟩
  rcases List.mem_append.mp hc with hc | hc
  · exact hrest c hc
  · exact hsuffix c hc

/-- A word is a legal identifier exactly if it is unreserved. -/
theorem legalIdent_iff_unreserved {name : String} (hword : IsWord name.toList) :
    LegalIdent name ↔ Unreserved name := by
  constructor
  · rintro (⟨-, hfree⟩ | ⟨word, hraw, -⟩)
    · exact hfree
    · exact absurd hraw (hword.ne_raw word)
  · exact fun hfree => .inl ⟨hword, hfree⟩

/-- The emitter escapes the keywords that are in use, and none that is only reserved. -/
theorem rustKeywords_strict :
    rustKeywords.Perm strictKeywords ∧ ∀ word ∈ rustKeywords, word ∉ reservedKeywords := by
  decide +kernel

/-- No keyword has an underscore, and only `Self` starts with a capital. -/
theorem keywords2021_plain : ∀ word ∈ keywords2021,
    ¬ ['_'] <:+: word.toList ∧ (word.toList.head?.any Char.isUpper → word = "Self") := by
  decide +kernel

/-- A word is written legally exactly if it can be escaped. -/
theorem legalIdent_rustIdent {name : String} (hword : IsWord name.toList) :
    LegalIdent (rustIdent name) ↔ Escapable name := by
  unfold rustIdent
  by_cases hkeyword : name ∈ rustKeywords
  · rw [if_pos hkeyword]
    constructor
    · rintro (⟨hraw, -⟩ | ⟨word, hraw, -, hne, hnever⟩)
      · exact absurd rfl (hraw.ne_raw name)
      · have heq : name = word := by
          have hletters := congrArg String.toList hraw
          rw [String.toList_append, String.toList_append] at hletters
          exact String.toList_inj.mp (List.append_cancel_left hletters)
        subst heq
        exact ⟨hne, hnever, rustKeywords_strict.2 name hkeyword⟩
    · rintro ⟨hne, hnever, -⟩
      exact .inr ⟨name, rfl, hword, hne, hnever⟩
  · have hnever : ∀ word ∈ neverRaw, word ∈ rustKeywords := by decide
    rw [if_neg hkeyword, legalIdent_iff_unreserved hword]
    rw [rustKeywords_strict.1.mem_iff] at hkeyword
    constructor
    · rintro ⟨hne, hnot⟩
      refine ⟨hne, fun hmem => ?_, fun hmem => hnot (List.mem_append_right _ hmem)⟩
      exact hkeyword (rustKeywords_strict.1.mem_iff.mp (hnever name hmem))
    · rintro ⟨hne, -, hnot⟩
      refine ⟨hne, fun hmem => ?_⟩
      rcases List.mem_append.mp hmem with hmem | hmem
      · exact hkeyword hmem
      · exact hnot hmem

example : Escapable "match" ∧ ¬ Escapable "self" ∧ ¬ Escapable "yield" := by decide +kernel

/-- A word that contains what no keyword does is an identifier. -/
theorem legalIdent_of_infix {name : String} (hword : IsWord name.toList) (hname : name ≠ "_")
    {piece : List Char} (hpiece : piece <:+: name.toList)
    (hfree : ∀ word ∈ keywords2021, ¬ piece <:+: word.toList) : LegalIdent name :=
  (legalIdent_iff_unreserved hword).mpr ⟨hname, fun hmem => hfree name hmem hpiece⟩

/-- The suffixes the emitters put behind names. -/
def ownSuffixes : List String :=
  ["Metadata", "Segments", "Client", "Service", "Dispatch", "_value", "_with_options", "_segmented",
    "_into"]

/-- A word that ends in one of the suffixes is an identifier. -/
theorem legalIdent_suffixed {name suffix : String} (hsuffix : suffix ∈ ownSuffixes)
    (hword : IsWord name.toList) : LegalIdent (name ++ suffix) := by
  have hfree : ∀ suffix ∈ ownSuffixes, suffix.toList.all isWordChar ∧
      2 ≤ suffix.toList.length ∧ ∀ word ∈ keywords2021, ¬ suffix.toList <:+: word.toList := by
    decide +kernel
  obtain ⟨hchars, hlength, hkeywords⟩ := hfree suffix hsuffix
  refine legalIdent_of_infix (hword.append (List.all_eq_true.mp hchars))
    (fun heq => ?_) ?_ hkeywords
  · have hshort := congrArg (fun s => s.toList.length) heq
    simp only [String.toList_append, List.length_append] at hshort
    have hone : "_".toList.length = 1 := by decide
    omega
  · rw [String.toList_append]
    exact (List.suffix_append ..).isInfix

/-- The name of a helper is an identifier. -/
theorem legalIdent_hintFor {owner field : String} (howner : IsWord owner.toList)
    (hfield : ∀ c ∈ field.toList, isWordChar c) :
    IsWord (hintFor owner field).toList ∧ LegalIdent (hintFor owner field) := by
  have hunderscore : ∀ c ∈ "_".toList, isWordChar c := List.all_eq_true.mp (by decide)
  have hword : IsWord (hintFor owner field).toList := (howner.append hunderscore).append hfield
  refine ⟨hword, legalIdent_of_infix hword (fun heq => ?_) ?_ fun word hmem =>
    (keywords2021_plain word hmem).1⟩
  · obtain ⟨first, rest, hcons, -⟩ := howner
    have hshort := congrArg (fun s => s.toList.length) heq
    simp [hintFor, String.toList_append, hcons] at hshort
  · rw [hintFor, String.toList_append, String.toList_append]
    exact ⟨owner.toList, field.toList, rfl⟩

/-! ## Lower case -/

/-- The lower case letter of a capital is 32 places on. -/
theorem toNat_toLower (c : Char) :
    c.toLower.toNat = if 65 ≤ c.toNat ∧ c.toNat ≤ 90 then c.toNat + 32 else c.toNat := by
  have hletter : (c.val ≥ 'A'.val ∧ c.val ≤ 'Z'.val) ↔ 65 ≤ c.toNat ∧ c.toNat ≤ 90 := by
    simp [UInt32.le_iff_toNat_le]
  unfold Char.toLower
  split
  · next h =>
    obtain ⟨hlow, hhigh⟩ := hletter.mp h
    rw [if_pos ⟨hlow, hhigh⟩]
    change (c.val + 32).toNat = c.val.toNat + 32
    rw [UInt32.toNat_add]
    exact Nat.mod_eq_of_lt (by change c.toNat + 32 < _; omega)
  · next h => rw [if_neg (mt hletter.mpr h)]

/-- The capital of a lower case letter is 32 places back. -/
theorem toNat_toUpper (c : Char) :
    c.toUpper.toNat = if 97 ≤ c.toNat ∧ c.toNat ≤ 122 then c.toNat - 32 else c.toNat := by
  have hletter : ('a'.val ≤ c.val ∧ c.val ≤ 'z'.val) ↔ 97 ≤ c.toNat ∧ c.toNat ≤ 122 := by
    simp [UInt32.le_iff_toNat_le]
  unfold Char.toUpper
  split
  · next h =>
    obtain ⟨hlow, hhigh⟩ := hletter.mp h
    rw [if_pos ⟨hlow, hhigh⟩]
    have hshift : ('A'.val - 'a'.val).toNat = 2 ^ 32 - 32 := by decide
    change (c.val + ('A'.val - 'a'.val)).toNat = c.val.toNat - 32
    rw [UInt32.toNat_add, hshift]
    change (c.toNat + _) % _ = c.toNat - 32
    omega
  · next h => rw [if_neg (mt hletter.mpr h)]

/-- A letter that starts a word does so in lower case. -/
theorem startsWord_toLower {c : Char} (h : startsWord c) : startsWord c.toLower := by
  rw [startsWord_iff] at h ⊢
  rw [toNat_toLower]
  split <;> omega

/-- A letter of words is one in lower case. -/
theorem isWordChar_toLower {c : Char} (h : isWordChar c) : isWordChar c.toLower := by
  rw [isWordChar_iff, startsWord_iff] at h ⊢
  rw [toNat_toLower]
  split <;> omega

/-- A letter of words is one in upper case. -/
theorem isWordChar_toUpper {c : Char} (h : isWordChar c) : isWordChar c.toUpper := by
  rw [isWordChar_iff, startsWord_iff] at h ⊢
  rw [toNat_toUpper]
  split <;> omega

/-- Only the underscore is the underscore in lower case. -/
theorem toLower_eq_underscore {c : Char} : c.toLower = '_' ↔ c = '_' := by
  have hunderscore : '_'.toNat = 95 := by decide
  rw [toNat_eq_iff, toNat_eq_iff, toNat_toLower, hunderscore]
  split <;> omega

/-- A word in lower case is a word. -/
theorem IsWord.toSnakeCase {name : String} (h : IsWord name.toList) :
    IsWord (toSnakeCase name).toList := by
  obtain ⟨first, rest, hcons, hfirst, hrest⟩ := h
  refine ⟨first.toLower, rest.map Char.toLower, ?_, startsWord_toLower hfirst, fun c hc => ?_⟩
  · rw [OncRpc.toSnakeCase, String.toList_ofList, hcons, List.map_cons]
  · obtain ⟨d, hd, rfl⟩ := List.mem_map.mp hc
    exact isWordChar_toLower (hrest d hd)

/-- A word is legal in snake case exactly if it can be folded. -/
theorem legalIdent_toSnakeCase {name : String} (hword : IsWord name.toList) :
    LegalIdent (toSnakeCase name) ↔ Foldable name := by
  have hletters (word : String) :
      toSnakeCase name = word ↔ name.toList.map Char.toLower = word.toList := by
    rw [← String.toList_inj, toSnakeCase, String.toList_ofList]
  have hunderscore : toSnakeCase name = "_" ↔ name = "_" := by
    have hone : "_".toList = ['_'] := by decide
    rw [hletters, ← String.toList_inj, hone]
    constructor
    · intro h
      obtain ⟨c, rest, hcons, hc, hrest⟩ := List.map_eq_cons_iff.mp h
      rw [hcons, toLower_eq_underscore.mp hc, List.map_eq_nil_iff.mp hrest]
    · intro h
      rw [h]
      decide
  rw [legalIdent_iff_unreserved hword.toSnakeCase, Unreserved, Foldable, Ne, hunderscore]
  refine and_congr_right fun _ => ?_
  constructor
  · intro hnot word hmem heq
    rw [(hletters word).mpr heq] at hnot
    exact hnot hmem
  · intro hnot hmem
    exact hnot _ hmem ((hletters _).mp rfl)

/-! ## Pascal case -/

/-- What starts with an upper-case letter is an identifier unless it is `Self`. -/
theorem legalIdent_of_upper {first : Char} {rest : List Char} (hfirst : first.isUpper)
    (hrest : ∀ c ∈ rest, isWordChar c) :
    LegalIdent (String.ofList (first :: rest)) ↔ first :: rest ≠ "Self".toList := by
  have hstarts : startsWord first := startsWord_iff.mpr (.inl (isUpper_iff.mp hfirst))
  have hself : "Self" ∈ keywords2021 := by decide
  rw [legalIdent_iff_unreserved
    (by rw [String.toList_ofList]; exact ⟨first, rest, rfl, hstarts, hrest⟩)]
  constructor
  · rintro ⟨-, hnot⟩ heq
    rw [heq, String.ofList_toList] at hnot
    exact hnot hself
  · intro hne
    refine ⟨fun heq => ?_, fun hmem => hne ?_⟩
    · have hletters : first :: rest = "_".toList := by rw [← heq, String.toList_ofList]
      have hunderscore : first = '_' := (List.cons.inj hletters).1
      rw [hunderscore] at hfirst
      exact absurd hfirst (by decide)
    · have hword := (keywords2021_plain _ hmem).2 (by rw [String.toList_ofList]; exact hfirst)
      rw [← hword, String.toList_ofList]

section Letters

variable {cs : List Char}

/-- The letters of a name are letters of words. -/
theorem isWordChar_pascalLetters (upper : Bool) (h : ∀ c ∈ cs, isWordChar c) :
    ∀ c ∈ pascalLetters upper cs, isWordChar c := by
  induction cs generalizing upper with
  | nil => simp [pascalLetters]
  | cons d cs ih =>
    have hd := h d (List.mem_cons_self ..)
    have hrest := fun c hc => h c (List.mem_cons_of_mem _ hc)
    unfold pascalLetters
    split
    · exact ih true hrest
    split
    · exact List.forall_mem_cons.mpr ⟨isWordChar_toUpper hd, ih false hrest⟩
    · exact List.forall_mem_cons.mpr ⟨isWordChar_toLower hd, ih false hrest⟩

/-- The underscores at the start do not matter. -/
theorem pascalLetters_dropWhile :
    pascalLetters true cs = pascalLetters true (cs.dropWhile (· = '_')) := by
  induction cs with
  | nil => rfl
  | cons d cs ih =>
    by_cases hd : d = '_'
    · rw [List.dropWhile_cons_of_pos (by simpa using hd), ← ih, pascalLetters, if_pos (.inl hd)]
    · rw [List.dropWhile_cons_of_neg (by simpa using hd)]

/-- A letter behind an underscore is put in upper case. -/
theorem pascalLetters_cons {c : Char} (upper : Bool) (hc : isWordChar c) (hne : c ≠ '_') :
    pascalLetters upper (c :: cs) =
      (if upper then c.toUpper else c.toLower) :: pascalLetters false cs := by
  have hminus : c ≠ '-' := by
    rintro rfl
    exact absurd hc (by decide)
  rw [pascalLetters, if_neg (by simp [hne, hminus])]
  split <;> rfl

/-- What is dropped at the end stops before a first member that stays. -/
theorem rdropWhile_cons_of_neg {α : Type} {p : α → Bool} {x : α} (h : p x = false) (xs : List α) :
    (x :: xs).rdropWhile p = x :: xs.rdropWhile p := by
  rw [List.rdropWhile, List.rdropWhile, List.reverse_cons, List.dropWhile_append]
  split
  · next hnil =>
    rw [List.isEmpty_iff.mp hnil, List.dropWhile_cons_of_neg (by simp [h])]
    rfl
  · rw [List.reverse_append]
    rfl

/-- No capital is a lower case letter. -/
theorem isLower_toUpper (c : Char) : c.toUpper.isLower = false := by
  rw [← Bool.not_eq_true, isLower_iff, toNat_toUpper]
  split <;> omega

/-- A name has no letters but underscores, or the first other one is put in upper case. -/
theorem pascalLetters_true_cases (h : ∀ c ∈ cs, isWordChar c) :
    (cs.dropWhile (· = '_') = [] ∧ pascalLetters true cs = []) ∨
      ∃ d body, cs.dropWhile (· = '_') = d :: body ∧ d ≠ '_' ∧ (∀ c ∈ d :: body, isWordChar c) ∧
        pascalLetters true cs = d.toUpper :: pascalLetters false body := by
  rw [pascalLetters_dropWhile]
  rcases hbody : cs.dropWhile (· = '_') with _ | ⟨d, body⟩
  · exact .inl ⟨rfl, rfl⟩
  have hsuffix : d :: body <:+ cs := hbody ▸ List.dropWhile_suffix _
  have hwords : ∀ c ∈ d :: body, isWordChar c := fun c hc => h c (hsuffix.subset hc)
  have hne : d ≠ '_' := by
    have hhead := List.head?_dropWhile_not (· = '_') cs
    rw [hbody] at hhead
    simpa using hhead
  exact .inr ⟨d, body, rfl, hne, hwords,
    pascalLetters_cons true (hwords d (List.mem_cons_self ..)) hne⟩

/-- Letters in lower case come from the same letters in any case, up to underscores at the end. -/
theorem pascalLetters_false_eq_iff (h : ∀ c ∈ cs, isWordChar c) {word : List Char}
    (hword : ∀ c ∈ word, c.isLower) : pascalLetters false cs = word ↔
      (cs.rdropWhile (· = '_')).map Char.toLower = word := by
  induction cs generalizing word with
  | nil => simp [pascalLetters, List.rdropWhile]
  | cons d cs ih =>
    have hd := h d (List.mem_cons_self ..)
    have hrest := fun c hc => h c (List.mem_cons_of_mem _ hc)
    by_cases hunderscore : d = '_'
    · subst hunderscore
      rw [pascalLetters, if_pos (.inl rfl)]
      rcases pascalLetters_true_cases hrest with ⟨hall, hnone⟩ | ⟨e, body, hbody, hne, -, hletters⟩
      · have hright : ('_' :: cs).rdropWhile (· = '_') = [] := by
          rw [List.rdropWhile_eq_nil_iff]
          simpa using List.dropWhile_eq_nil_iff.mp hall
        rw [hnone, hright]
        rfl
      · -- Neither side is in lower case: one starts with an upper-case letter, the other with `_`.
        refine iff_of_false (fun heq => ?_) (fun heq => ?_)
        · rw [hletters] at heq
          have hlower := hword e.toUpper (heq ▸ List.mem_cons_self ..)
          rw [isLower_toUpper] at hlower
          cases hlower
        · obtain ⟨rest, hprefix⟩ := List.rdropWhile_prefix (· = '_') (l := '_' :: cs)
          rcases hfront : ('_' :: cs).rdropWhile (· = '_') with _ | ⟨first, front⟩
          · have hmem : e ∈ cs := (List.dropWhile_suffix _).subset (hbody ▸ List.mem_cons_self ..)
            have hunderscore := List.rdropWhile_eq_nil_iff.mp hfront e (List.mem_cons_of_mem _ hmem)
            exact hne (by simpa using hunderscore)
          · rw [hfront] at hprefix heq
            obtain rfl : first = '_' := (List.cons.inj hprefix).1
            have hlower : '_'.toLower.isLower :=
              hword _ (heq ▸ List.mem_map_of_mem (List.mem_cons_self ..))
            exact absurd hlower (by decide)
    · rw [pascalLetters_cons false hd hunderscore,
        rdropWhile_cons_of_neg (by simpa using hunderscore)]
      rcases word with _ | ⟨c, word⟩
      · simp
      · have htail := ih hrest fun c hc => hword c (List.mem_cons_of_mem _ hc)
        simp [htail]

end Letters

/-! ## Variants of unions -/

/-- The capital of a letter that starts a word is one, underscores apart. -/
theorem isUpper_toUpper {c : Char} (h : startsWord c) (hne : c ≠ '_') : c.toUpper.isUpper := by
  have hunderscore : '_'.toNat = 95 := by decide
  rw [startsWord_iff] at h
  rw [Ne, toNat_eq_iff, hunderscore] at hne
  rw [isUpper_iff, toNat_toUpper]
  split <;> omega

/-- A letter is `S` in upper case exactly if it is `s` in lower case. -/
theorem toUpper_eq_S_iff {c : Char} : c.toUpper = 'S' ↔ c.toLower = 's' := by
  have hupper : 'S'.toNat = 83 := by decide
  have hlower : 's'.toNat = 115 := by decide
  rw [toNat_eq_iff, toNat_eq_iff, toNat_toUpper, toNat_toLower, hupper, hlower]
  split <;> split <;> omega

/-- What starts with a digit is no identifier. -/
theorem not_legalIdent_of_digit {first : Char} {rest : List Char} (hfirst : first.isDigit) :
    ¬ LegalIdent (String.ofList (first :: rest)) := by
  rw [isDigit_iff] at hfirst
  rintro (⟨⟨c, more, hcons, hstarts, -⟩, -⟩ | ⟨word, hraw, -⟩)
  · rw [String.toList_ofList] at hcons
    obtain rfl : first = c := (List.cons.inj hcons).1
    rw [startsWord_iff] at hstarts
    omega
  · have hletters := congrArg String.toList hraw
    rw [String.toList_ofList, String.toList_append] at hletters
    obtain rfl : first = 'r' := (List.cons.inj hletters).1
    exact absurd hfirst (by decide)

/-- A word is legal in Pascal case exactly if it fits as a label. -/
theorem legalIdent_toPascalCase {name : String} (hword : IsWord name.toList) :
    LegalIdent (toPascalCase name) ↔ (UnionCaseLabel.case (.identifier name)).Fits := by
  unfold toPascalCase UnionCaseLabel.Fits
  dsimp only
  rcases pascalLetters_true_cases hword.wordChar with ⟨hbody, hnone⟩
    | ⟨d, body, hbody, hne, hwords, hletters⟩
  · rw [hbody, hnone, if_pos rfl]
    have hvariant : LegalIdent "Variant" := .inl (by decide)
    exact iff_of_true hvariant ⟨rfl, by decide⟩
  · rw [hbody, hletters, if_neg (List.cons_ne_nil _ _)]
    have hrest := fun c hc => hwords c (List.mem_cons_of_mem _ hc)
    by_cases hdigit : d.isDigit
    · have hsame : d.toUpper = d := by
        rw [isDigit_iff] at hdigit
        rw [toNat_eq_iff, toNat_toUpper, if_neg (by omega)]
      rw [hsame]
      refine iff_of_false (not_legalIdent_of_digit hdigit) fun hfits => ?_
      have hnot : d.isDigit = false := hfits.1
      rw [hnot] at hdigit
      cases hdigit
    · have hstarts : startsWord d := by
        have hd := hwords d (List.mem_cons_self ..)
        rw [isDigit_iff] at hdigit
        rw [isWordChar_iff] at hd
        exact hd.resolve_right hdigit
      have hself : "Self".toList = 'S' :: ['e', 'l', 'f'] := by decide
      have hlower : "self".toList = 's' :: ['e', 'l', 'f'] := by decide
      have helf : ∀ c ∈ ['e', 'l', 'f'], c.isLower := List.all_eq_true.mp (by decide)
      rw [legalIdent_of_upper (isUpper_toUpper hstarts hne) (isWordChar_pascalLetters false hrest),
        rdropWhile_cons_of_neg (by simpa using hne), List.map_cons, hself, hlower, Ne, Ne,
        List.cons.injEq, List.cons.injEq, toUpper_eq_S_iff,
        pascalLetters_false_eq_iff hrest helf]
      have hnot : (d :: body).head?.any Char.isDigit = false := Bool.eq_false_iff.mpr hdigit
      exact (and_iff_right hnot).symm

/-- The name of a variant for a number is an identifier. -/
theorem legalIdent_case {stem : String} (hstem : stem = "Case" ∨ stem = "CaseNeg") (n : ℕ) :
    LegalIdent (stem ++ toString n) := by
  have hdigits : ∀ c ∈ (toString n).toList, isWordChar c := by
    intro c hc
    rw [Nat.toString_eq_repr, Nat.toList_repr] at hc
    have hdigit : c.isDigit := Nat.isDigit_of_mem_toDigits (by decide) (by decide) hc
    simp [isWordChar, Char.isAlphanum, hdigit]
  obtain ⟨letters, hletters, hwords⟩ :
      ∃ letters, stem.toList = 'C' :: letters ∧ ∀ c ∈ letters, isWordChar c := by
    rcases hstem with rfl | rfl
    · exact ⟨['a', 's', 'e'], by decide, List.all_eq_true.mp (by decide)⟩
    · exact ⟨['a', 's', 'e', 'N', 'e', 'g'], by decide, List.all_eq_true.mp (by decide)⟩
  have hname : stem ++ toString n = String.ofList ('C' :: (letters ++ (toString n).toList)) := by
    rw [← String.toList_inj, String.toList_append, String.toList_ofList, hletters, List.cons_append]
  rw [hname, legalIdent_of_upper (by decide) fun c hc =>
    (List.mem_append.mp hc).elim (hwords c) (hdigits c)]
  intro heq
  have hfirst : 'C' = 'S' := (List.cons.inj heq).1
  exact absurd hfirst (by decide)

/-- The name of a variant is an identifier exactly if its label fits. -/
theorem legalIdent_unionVariantName {label : UnionCaseLabel}
    (hword : ∀ name, label = .case (.identifier name) → IsWord name.toList) :
    LegalIdent (unionVariantName label) ↔ label.Fits := by
  rcases label with ⟨value | name⟩ | _
  · refine iff_of_true ?_ trivial
    change LegalIdent (if 0 ≤ value then _ else _)
    by_cases hsign : 0 ≤ value
    · obtain ⟨n, rfl⟩ := Int.eq_ofNat_of_zero_le hsign
      rw [if_pos hsign]
      exact legalIdent_case (.inl rfl) n
    · rw [if_neg hsign]
      exact legalIdent_case (.inr rfl) _
  · exact legalIdent_toPascalCase (hword name rfl)
  · have hdefault : LegalIdent "Default" := .inl (by decide)
    exact iff_of_true hdefault trivial

end OncRpc
