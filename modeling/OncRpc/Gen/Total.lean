import OncRpc.Gen.Accepts
import OncRpc.Gen.Text

/-!
# The parser always gives a result

The parser never looks past the end of the source, and its fuel suffices: of the tokens of any
source it makes a schema or an error.

`Finishes n k p` says so of a parser `p` for at most `n` tokens, and that it takes at least `k` of
them if it succeeds, never the end of the source.
-/

namespace OncRpc

/-- On tokens that end with the end of the source and meet `P`, the parser gives a result; if it
succeeds it has taken at least `k` tokens, and not the last. -/
def FinishesOn {α : Type} (P : List Token → Prop) (n k : ℕ) (p : TokenParser α) : Prop :=
  ∀ tokens, Ended tokens → tokens.length ≤ n → P tokens → p tokens ≠ none ∧
    ∀ a rest, Accepts p tokens a rest → Ended rest ∧ rest.length + k ≤ tokens.length

/-- On tokens that end with the end of the source, the parser gives a result. -/
def Finishes {α : Type} (n k : ℕ) (p : TokenParser α) : Prop := FinishesOn (fun _ => True) n k p

section Monad

variable {α β : Type} {n m k j : ℕ} {P : List Token → Prop}

/-- A parser that finishes on more tokens and uses up more finishes on fewer and uses up less. -/
theorem FinishesOn.mono {p : TokenParser α} (h : FinishesOn P n k p) (hn : m ≤ n) (hk : j ≤ k) :
    FinishesOn P m j p := by
  intro tokens hended hlen hP
  obtain ⟨hsome, hrest⟩ := h tokens hended (hlen.trans hn) hP
  refine ⟨hsome, fun a rest haccepts => ?_⟩
  obtain ⟨hended', hlen'⟩ := hrest a rest haccepts
  exact ⟨hended', by omega⟩

/-- A parser that finishes on all tokens does so on some. -/
theorem Finishes.on {p : TokenParser α} (h : Finishes n k p) : FinishesOn P n k p :=
  fun tokens hended hlen _ => h tokens hended hlen trivial

/-- A parser that does nothing finishes. -/
theorem finishes_pure (a : α) : FinishesOn P n 0 (pure a : TokenParser α) := by
  intro tokens hended _ _
  refine ⟨by simp [pure, TokenParser.pure], fun b rest h => ?_⟩
  obtain ⟨-, rfl⟩ := accepts_pure.mp h
  exact ⟨hended, le_rfl⟩

/-- A parser that fails finishes. -/
theorem finishes_fail (text : String) : FinishesOn P n k (TokenParser.fail text : TokenParser α) :=
  by
  intro tokens _ _ _
  exact ⟨by simp [TokenParser.fail], fun a rest h => absurd h accepts_fail⟩

/-- One parser after the other finishes, and uses up what both use up. -/
theorem FinishesOn.bind {p : TokenParser α} {f : α → TokenParser β} (hp : FinishesOn P n k p)
    (hf : ∀ a, Finishes (n - k) j (f a)) : FinishesOn P n (k + j) (p >>= f) := by
  intro tokens hended hlen hP
  obtain ⟨hsome, hrest⟩ := hp tokens hended hlen hP
  have hstep : ∀ a mid, Accepts p tokens a mid → f a mid ≠ none ∧
      ∀ b rest, Accepts (f a) mid b rest → Ended rest ∧ rest.length + j ≤ mid.length := by
    intro a mid haccepts
    obtain ⟨hended', hlen'⟩ := hrest a mid haccepts
    exact hf a mid hended' (by omega) trivial
  constructor
  · show TokenParser.bind p f tokens ≠ none
    unfold TokenParser.bind
    split
    · exact absurd ‹_› hsome
    · simp
    · rename_i a mid haccepts
      exact (hstep a mid haccepts).1
  · intro b rest h
    obtain ⟨a, mid, haccepts, h⟩ := accepts_bind.mp h
    obtain ⟨hended', hlen'⟩ := (hstep a mid haccepts).2 b rest h
    exact ⟨hended', by have := (hrest a mid haccepts).2; omega⟩

/-- One parser after the other uses up what the first does. -/
theorem FinishesOn.then {p : TokenParser α} {f : α → TokenParser β} (hp : FinishesOn P n k p)
    (hf : ∀ a, Finishes n 0 (f a)) : FinishesOn P n k (p >>= f) :=
  hp.bind fun a => (hf a).mono (Nat.sub_le n k) le_rfl

/-- A parser finishes that finishes in both cases. -/
theorem finishes_ite {c : Prop} [Decidable c] {p q : TokenParser α} (hp : FinishesOn P n k p)
    (hq : FinishesOn P n k q) : FinishesOn P n k (if c then p else q) := by
  split
  · exact hp
  · exact hq

/-- The next token, then a parser that may rely on it. -/
theorem finishes_peek {f : Token → TokenParser α}
    (hf : ∀ token, FinishesOn (fun tokens => P tokens ∧ tokens.head? = some token) n k (f token)) :
    FinishesOn P n k (TokenParser.peek >>= f) := by
  intro tokens hended hlen hP
  obtain ⟨token, more, rfl⟩ : ∃ token more, tokens = token :: more := by
    obtain ⟨body, rfl, -⟩ := hended
    exact List.exists_cons_of_ne_nil (by simp)
  exact hf token (token :: more) hended hlen ⟨hP, rfl⟩

/-- Behind a token that is not the end the source still ends. -/
theorem Ended.tail {token : Token} {more : List Token} (h : Ended (token :: more))
    (htoken : token ≠ .eof) : Ended more := by
  obtain ⟨_ | ⟨first, body⟩, hcons, hbody⟩ := h
  · simp only [List.nil_append, List.cons.injEq] at hcons
    exact absurd hcons.1 htoken
  · simp only [List.cons_append, List.cons.injEq] at hcons
    exact ⟨body, hcons.2, fun hmem => hbody (List.mem_cons_of_mem _ hmem)⟩

/-- Taking a token that is not the end of the source. -/
theorem finishes_next {f : Token → TokenParser α}
    (hf : ∀ token, token ≠ .eof → (∀ more, P (token :: more) → Finishes (n - 1) k (f token)))
    (hend : ∀ rest, P (.eof :: rest) → ∃ e, f .eof rest = some (.error e)) :
    FinishesOn P n (k + 1) (TokenParser.next >>= f) := by
  intro tokens hended hlen hP
  obtain ⟨token, more, rfl⟩ : ∃ token more, tokens = token :: more := by
    obtain ⟨body, rfl, -⟩ := hended
    exact List.exists_cons_of_ne_nil (by simp)
  have hread : (TokenParser.next >>= f) (token :: more) = f token more := rfl
  by_cases htoken : token = .eof
  · subst htoken
    obtain ⟨e, he⟩ := hend more hP
    rw [hread, he]
    refine ⟨by simp, fun a rest h => ?_⟩
    rw [Accepts, hread, he] at h
    simp at h
  · rw [List.length_cons] at hlen
    obtain ⟨hsome, hrest⟩ := hf token htoken more hP more (hended.tail htoken) (by omega) trivial
    refine ⟨hread ▸ hsome, fun a rest h => ?_⟩
    obtain ⟨hended', hlen'⟩ := hrest a rest h
    exact ⟨hended', by rw [List.length_cons]; omega⟩

end Monad

/-! ## Tokens -/

section Tokens

variable {n : ℕ} {P : List Token → Prop}

/-- Expecting a keyword uses up a token. -/
theorem finishes_expectKeyword (keyword : Keyword) : FinishesOn P n 1 (expectKeyword keyword) :=
  finishes_next (fun _ _ _ _ => finishes_ite (finishes_pure ()) (finishes_fail _))
    fun _ _ => ⟨_, rfl⟩

/-- Expecting a symbol uses up a token. -/
theorem finishes_expectSymbol (symbol : Char) : FinishesOn P n 1 (expectSymbol symbol) :=
  finishes_next (fun _ _ _ _ => finishes_ite (finishes_pure ()) (finishes_fail _))
    fun _ _ => ⟨_, rfl⟩

/-- Expecting an identifier uses up a token. -/
theorem finishes_expectIdentifier : FinishesOn P n 1 expectIdentifier := by
  refine finishes_next (fun token _ _ _ => ?_) fun _ _ => ⟨_, rfl⟩
  cases token with
  | identifier name => exact finishes_pure name
  | _ => exact finishes_fail _

/-- Expecting a number of 32 bits uses up a token. -/
theorem finishes_expectU32 : FinishesOn P n 1 expectU32 := by
  refine finishes_next (fun token _ _ _ => ?_) fun _ _ => ⟨_, rfl⟩
  cases token with
  | number value => exact finishes_ite (finishes_pure _) (finishes_fail _)
  | _ => exact finishes_fail _

/-- A value uses up a token. -/
theorem finishes_parseValueExpr : FinishesOn P n 1 parseValueExpr := by
  refine finishes_next (fun token _ _ _ => ?_) fun _ _ => ⟨_, rfl⟩
  cases token with
  | number value => exact finishes_pure _
  | identifier name => exact finishes_pure _
  | _ => exact finishes_fail _

/-- Looking for a symbol finishes. -/
theorem finishes_consumeSymbol (symbol : Char) : FinishesOn P n 0 (consumeSymbol symbol) := by
  refine finishes_peek fun token => ?_
  split
  · refine FinishesOn.mono (finishes_next (k := 0) (fun _ _ _ _ => finishes_pure true) ?_)
      le_rfl (Nat.zero_le _)
    rintro rest ⟨-, hhead⟩
    simp_all
  · exact finishes_pure false

end Tokens

/-! ## Loops -/

section Loops

variable {α : Type} {n : ℕ} {p : TokenParser α}

/-- A loop up to a brace finishes if its body uses up a token each time. -/
theorem finishes_untilBrace (hp : Finishes n 1 p) : Finishes n 0 (untilBrace p) := by
  have hloop : ∀ fuel, fuel ≤ n → Finishes fuel 0 (untilBraceLoop p fuel) := by
    intro fuel
    induction fuel with
    | zero =>
      rintro - tokens ⟨body, rfl, -⟩ hlen -
      simp at hlen
    | succ fuel ih =>
      intro hfuel
      refine (finishes_consumeSymbol '}').then fun taken => ?_
      split
      · exact finishes_pure []
      · refine ((hp.mono hfuel le_rfl).bind (j := 0) fun item => ?_).mono le_rfl (Nat.zero_le _)
        exact (ih (Nat.le_of_succ_le hfuel)).then fun items => finishes_pure _
  intro tokens hended hlen _
  exact hloop tokens.length hlen tokens hended le_rfl trivial

/-- The modifier of a declarator finishes. -/
theorem finishes_parseModifier (optional : Bool) : Finishes n 0 (parseModifier optional) := by
  refine (finishes_consumeSymbol '[').then fun taken => ?_
  split
  · refine (finishes_parseValueExpr.mono le_rfl (Nat.zero_le _)).then fun bound => ?_
    exact ((finishes_expectSymbol ']').mono le_rfl (Nat.zero_le _)).then fun _ => finishes_pure _
  · refine (finishes_consumeSymbol '<').then fun taken => ?_
    split
    · refine (finishes_consumeSymbol '>').then fun taken => ?_
      split
      · exact finishes_pure _
      · refine (finishes_parseValueExpr.mono le_rfl (Nat.zero_le _)).then fun bound => ?_
        exact ((finishes_expectSymbol '>').mono le_rfl (Nat.zero_le _)).then fun _ =>
          finishes_pure _
    · split
      · exact finishes_pure _
      · exact finishes_pure _

/-- A declarator finishes. -/
theorem finishes_parseDeclarator : Finishes n 0 parseDeclarator := by
  refine (finishes_consumeSymbol '*').then fun optional => ?_
  refine (finishes_expectIdentifier.mono le_rfl (Nat.zero_le _)).then fun name => ?_
  exact (finishes_parseModifier optional).then fun modifier => finishes_pure _

/-- A member of an enumeration uses up a token. -/
theorem finishes_parseEnumVariant : Finishes n 1 parseEnumVariant := by
  refine finishes_expectIdentifier.then fun name => ?_
  refine ((finishes_expectSymbol '=').mono le_rfl (Nat.zero_le _)).then fun _ => ?_
  refine (finishes_parseValueExpr.mono le_rfl (Nat.zero_le _)).then fun value => ?_
  exact (finishes_consumeSymbol ',').then fun _ => finishes_pure _

/-- The body of an enumeration uses up a token. -/
theorem finishes_parseEnumBody : Finishes n 1 parseEnumBody :=
  (finishes_expectSymbol '{').then fun _ =>
    (finishes_untilBrace finishes_parseEnumVariant).then fun _ => finishes_pure _

/-- The labels of an arm finish. -/
theorem finishes_parseLabels : Finishes n 0 parseLabels := by
  have hloop : ∀ fuel, Finishes fuel 0 (parseLabelsLoop fuel) := by
    intro fuel
    induction fuel with
    | zero =>
      rintro tokens ⟨body, rfl, -⟩ hlen -
      simp at hlen
    | succ fuel ih =>
      refine finishes_peek fun token => ?_
      split
      · refine FinishesOn.mono (finishes_next (k := 0) (fun _ _ _ _ => ?_) ?_)
          le_rfl (Nat.zero_le _)
        · refine (finishes_parseValueExpr.mono le_rfl (Nat.zero_le _)).then fun value => ?_
          refine ((finishes_expectSymbol ':').mono le_rfl (Nat.zero_le _)).then fun _ => ?_
          exact ih.then fun labels => finishes_pure _
        · rintro rest ⟨-, hhead⟩
          simp at hhead
      · refine FinishesOn.mono (finishes_next (k := 0) (fun _ _ _ _ => ?_) ?_)
          le_rfl (Nat.zero_le _)
        · refine ((finishes_expectSymbol ':').mono le_rfl (Nat.zero_le _)).then fun _ => ?_
          exact ih.then fun labels => finishes_pure _
        · rintro rest ⟨-, hhead⟩
          simp at hhead
      · exact finishes_pure []
  intro tokens hended _ _
  exact hloop tokens.length tokens hended le_rfl trivial

end Loops

/-! ## Types -/

section Types

variable {n : ℕ} {typeSpec : TokenParser TypeSpec} (htypes : Finishes n 1 typeSpec)

include htypes

/-- A declaration uses up a token. -/
theorem finishes_parseDeclaration : Finishes n 1 (parseDeclaration typeSpec) := by
  refine htypes.then fun type => ?_
  split
  · refine finishes_peek fun token => finishes_ite (finishes_pure _) ?_
    exact Finishes.on (finishes_parseDeclarator.then fun declarator => finishes_pure _)
  · exact finishes_parseDeclarator.then fun declarator => finishes_pure _

/-- A field uses up a token. -/
theorem finishes_parseField : Finishes n 1 (parseField typeSpec) :=
  (finishes_parseDeclaration htypes).then fun _ =>
    ((finishes_expectSymbol ';').mono le_rfl (Nat.zero_le _)).then fun _ => finishes_pure _

/-- The body of a structure uses up a token. -/
theorem finishes_parseStructBody : Finishes n 1 (parseStructBody typeSpec) :=
  (finishes_expectSymbol '{').then fun _ =>
    (finishes_untilBrace (finishes_parseField htypes)).then fun _ => finishes_pure _

/-- An arm of a union uses up a token. -/
theorem finishes_parseUnionArm : Finishes n 1 (parseUnionArm typeSpec) := by
  refine (finishes_parseLabels.bind (j := 1) fun labels => ?_)
  refine finishes_ite (finishes_fail _) ?_
  refine (finishes_parseDeclaration htypes).then fun declaration => ?_
  exact ((finishes_expectSymbol ';').mono le_rfl (Nat.zero_le _)).then fun _ => finishes_pure _

/-- The body of a union uses up a token. -/
theorem finishes_parseUnionBody : Finishes n 1 (parseUnionBody typeSpec) := by
  refine (finishes_expectKeyword .switch).then fun _ => ?_
  refine ((finishes_expectSymbol '(').mono le_rfl (Nat.zero_le _)).then fun _ => ?_
  refine ((finishes_parseDeclaration htypes).mono le_rfl (Nat.zero_le _)).then
    fun discriminant => ?_
  refine ((finishes_expectSymbol ')').mono le_rfl (Nat.zero_le _)).then fun _ => ?_
  refine ((finishes_expectSymbol '{').mono le_rfl (Nat.zero_le _)).then fun _ => ?_
  exact (finishes_untilBrace (finishes_parseUnionArm htypes)).then fun _ => finishes_pure _

omit htypes in
/-- A name or a body finishes if the body does. -/
theorem finishes_parseNamedOr {opening : Token} {body : TokenParser TypeSpec}
    (hbody : Finishes n 0 body) :
    Finishes n 0 (parseNamedOr opening body) := by
  refine finishes_peek fun token => ?_
  split
  · rename_i name
    rintro tokens hended hlen ⟨-, hhead⟩
    -- A name is not the last token, so there is a token behind it.
    obtain ⟨second, more, rfl⟩ : ∃ second more, tokens = .identifier name :: second :: more := by
      obtain ⟨_ | ⟨first, _ | ⟨second, body⟩⟩, rfl, -⟩ := hended
      · simp at hhead
      · exact ⟨.eof, [], by simpa using hhead⟩
      · exact ⟨second, body ++ [.eof], by simpa using hhead⟩
    have hread : FinishesOn (fun tokens => tokens.head? = some (.identifier name)) n 0
        (if second ≠ opening then do
          let _ ← TokenParser.next
          return .identifier name
        else body) := by
      refine finishes_ite
        (FinishesOn.mono (finishes_next (k := 0) (fun _ _ _ _ => finishes_pure _) ?_) le_rfl
        (Nat.zero_le _)) hbody.on
      intro rest hhead
      simp at hhead
    exact hread _ hended hlen hhead
  · exact hbody.on

/-- A type finishes if the types inside it do with less fuel. -/
theorem finishes_parseTypeSpecWith : Finishes (n + 1) 1 (parseTypeSpecWith typeSpec) := by
  refine finishes_next (fun token htoken _ _ => ?_) fun _ _ => ⟨_, rfl⟩
  rw [Nat.add_sub_cancel]
  split
  any_goals exact finishes_pure _
  any_goals exact finishes_fail _
  · refine FinishesOn.mono (finishes_next (k := 0) (fun token _ _ _ => ?_) fun _ _ => ⟨_, rfl⟩)
      le_rfl
      (Nat.zero_le _)
    split
    · exact finishes_pure _
    · exact finishes_pure _
    · exact finishes_fail _
  · exact finishes_parseNamedOr ((finishes_parseEnumBody.mono le_rfl (Nat.zero_le _)).then fun _ =>
      finishes_pure _)
  · exact finishes_parseNamedOr
      (((finishes_parseStructBody htypes).mono le_rfl (Nat.zero_le _)).then fun _ =>
        finishes_pure _)
  · exact finishes_parseNamedOr
      (((finishes_parseUnionBody htypes).mono le_rfl (Nat.zero_le _)).then fun _ => finishes_pure _)

end Types

/-- A type uses up a token. -/
theorem finishes_parseTypeSpec (n : ℕ) : Finishes n 1 (parseTypeSpec n) := by
  induction n with
  | zero =>
    rintro tokens ⟨body, rfl, -⟩ hlen -
    simp at hlen
  | succ n ih => exact finishes_parseTypeSpecWith ih

/-! ## Items -/

section Items

variable {n : ℕ} {typeSpec : TokenParser TypeSpec} (htypes : Finishes n 1 typeSpec)

/-- A parser that uses up a token finishes. -/
theorem Finishes.weaken {α : Type} {p : TokenParser α} (h : Finishes n 1 p) : Finishes n 0 p :=
  h.mono le_rfl (Nat.zero_le _)

/-- Expecting a symbol finishes. -/
theorem finishes_symbol (symbol : Char) : Finishes n 0 (expectSymbol symbol) :=
  Finishes.weaken (finishes_expectSymbol symbol)

/-- A named declaration uses up a token. -/
theorem finishes_parseNamed {α : Type} {keyword : Keyword} {body : TokenParser α}
    (hbody : Finishes n 1 body) :
    Finishes n 1 (parseNamed keyword body) := by
  refine (finishes_expectKeyword keyword).then fun _ => ?_
  refine (Finishes.weaken finishes_expectIdentifier).then fun name => ?_
  refine hbody.weaken.then fun body => ?_
  exact (finishes_symbol ';').then fun _ => finishes_pure _

/-- A numbered declaration uses up a token. -/
theorem finishes_parseNumbered {α : Type} {keyword : Keyword} {part : TokenParser α}
    (hpart : Finishes n 1 part) : Finishes n 1 (parseNumbered keyword part) := by
  refine (finishes_expectKeyword keyword).then fun _ => ?_
  refine (Finishes.weaken finishes_expectIdentifier).then fun name => ?_
  refine (finishes_symbol '{').then fun _ => ?_
  refine (finishes_untilBrace hpart).then fun parts => ?_
  refine (finishes_symbol '=').then fun _ => ?_
  refine (Finishes.weaken finishes_expectU32).then fun number => ?_
  exact (finishes_symbol ';').then fun _ => finishes_pure _

include htypes

/-- The argument type of a procedure finishes. -/
theorem finishes_parseProcedureArgumentType : Finishes n 0 (parseProcedureArgumentType typeSpec) :=
  by
  refine finishes_peek fun token => ?_
  split
  · refine FinishesOn.mono (finishes_next (k := 0) (fun _ _ _ _ => finishes_pure _) ?_)
      le_rfl (Nat.zero_le _)
    rintro rest ⟨-, hhead⟩
    simp_all
  · refine Finishes.on (htypes.weaken.then fun argument => ?_)
    refine finishes_peek fun token => finishes_ite ?_ (finishes_pure _)
    exact Finishes.on (finishes_parseDeclarator.then fun _ => finishes_pure _)

/-- A procedure uses up a token. -/
theorem finishes_parseProcedure : Finishes n 1 (parseProcedure typeSpec) := by
  refine htypes.then fun returnType => ?_
  refine (Finishes.weaken finishes_expectIdentifier).then fun name => ?_
  refine (finishes_symbol '(').then fun _ => ?_
  refine (finishes_parseProcedureArgumentType htypes).then fun argumentType => ?_
  refine (finishes_symbol ')').then fun _ => ?_
  refine (finishes_symbol '=').then fun _ => ?_
  refine (Finishes.weaken finishes_expectU32).then fun number => ?_
  exact (finishes_symbol ';').then fun _ => finishes_pure _

/-- A version uses up a token. -/
theorem finishes_parseVersion : Finishes n 1 (parseVersion typeSpec) :=
  (finishes_parseNumbered (finishes_parseProcedure htypes)).then fun _ => finishes_pure _

/-- A program uses up a token. -/
theorem finishes_parseProgram : Finishes n 1 (parseProgram typeSpec) :=
  (finishes_parseNumbered (finishes_parseVersion htypes)).then fun _ => finishes_pure _

omit htypes in
/-- A constant uses up a token. -/
theorem finishes_parseConst : Finishes n 1 parseConst := by
  refine (finishes_expectKeyword .const).then fun _ => ?_
  refine (Finishes.weaken finishes_expectIdentifier).then fun name => ?_
  refine (finishes_symbol '=').then fun _ => ?_
  refine (Finishes.weaken finishes_parseValueExpr).then fun value => ?_
  exact (finishes_symbol ';').then fun _ => finishes_pure _

/-- A type definition uses up a token. -/
theorem finishes_parseTypedef : Finishes n 1 (parseTypedef typeSpec) := by
  refine (finishes_expectKeyword .typedef).then fun _ => ?_
  refine htypes.weaken.then fun target => ?_
  refine finishes_parseDeclarator.then fun declarator => ?_
  exact (finishes_symbol ';').then fun _ => finishes_pure _

/-- An item uses up a token. -/
theorem finishes_parseItem : Finishes n 1 (parseItem typeSpec) := by
  refine finishes_peek fun token => Finishes.on ?_
  split
  · exact finishes_parseConst.then fun _ => finishes_pure _
  · exact (finishes_parseTypedef htypes).then fun _ => finishes_pure _
  · exact (finishes_parseNamed (finishes_parseStructBody htypes)).then fun _ => finishes_pure _
  · exact (finishes_parseNamed finishes_parseEnumBody).then fun _ => finishes_pure _
  · exact (finishes_parseNamed (finishes_parseUnionBody htypes)).then fun _ => finishes_pure _
  · exact (finishes_parseProgram htypes).then fun _ => finishes_pure _
  · exact finishes_fail _

/-- The items of a schema finish with as much fuel as there are tokens. -/
theorem finishes_parseItems {fuel : ℕ} (hfuel : fuel ≤ n) :
    Finishes fuel 0 (parseItems typeSpec fuel) := by
  induction fuel with
  | zero =>
    rintro tokens ⟨body, rfl, -⟩ hlen -
    simp at hlen
  | succ fuel ih =>
    refine finishes_peek fun token => finishes_ite (finishes_pure []) ?_
    refine Finishes.on
      (FinishesOn.mono (FinishesOn.bind (j := 0) ((finishes_parseItem htypes).mono hfuel le_rfl)
      fun item => ?_) le_rfl (Nat.zero_le _))
    exact (ih (Nat.le_of_succ_le hfuel)).then fun items => finishes_pure _

end Items

/-- The parser gives a result for the tokens of a source. -/
theorem parseSchema_isSome {tokens : List Token} (h : Ended tokens) :
    (parseSchema tokens).isSome := by
  have hfinishes :=
    (finishes_parseItems (finishes_parseTypeSpec tokens.length) le_rfl tokens h le_rfl trivial).1
  unfold parseSchema
  rw [Option.isSome_map]
  exact Option.isSome_iff_ne_none.mpr hfinishes

/-- Every source is parsed to a schema or an error. -/
theorem parseXSource_isSome (input : String) : (parseXSource input).isSome := by
  unfold parseXSource
  split
  · rfl
  · exact parseSchema_isSome (ended_of_sourceTokens ‹_›)

/-- The schema of a source file, or the error. -/
def parseSource (input : String) : Except GeneratorError Schema :=
  (parseXSource input).get (parseXSource_isSome input)

end OncRpc
