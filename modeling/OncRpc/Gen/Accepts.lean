import OncRpc.Gen.Grammar

/-!
# What the parser accepts

`Accepts p tokens a rest` says that the parser `p` makes `a` of the start of `tokens` and leaves
`rest`.  For every function of the parser there is one statement of when it accepts; the statements
about larger parsers are put together from those about their parts.
-/

namespace OncRpc

/-- The parser makes `a` of the tokens before `rest`. -/
def Accepts {α : Type} (p : TokenParser α) (tokens : List Token) (a : α) (rest : List Token) :
    Prop :=
  p tokens = some (.ok (a, rest))

/-! ## The monad -/

section Monad

variable {α β : Type} {tokens rest : List Token}

/-- A parser that does nothing accepts no tokens. -/
@[simp] theorem accepts_pure {a b : α} :
    Accepts (pure a : TokenParser α) tokens b rest ↔ a = b ∧ tokens = rest := by
  simp [Accepts, pure, TokenParser.pure]

/-- One parser after the other accepts what the first does and then the second. -/
@[simp] theorem accepts_bind {p : TokenParser α} {f : α → TokenParser β} {b : β} :
    Accepts (p >>= f) tokens b rest ↔ ∃ a mid, Accepts p tokens a mid ∧ Accepts (f a) mid b rest :=
      by
  simp only [Accepts, bind, TokenParser.bind]
  rcases p tokens with _ | e | ⟨a, mid⟩ <;> simp

/-- A parser that fails accepts nothing. -/
@[simp] theorem accepts_fail {text : String} {a : α} :
    ¬ Accepts (TokenParser.fail text) tokens a rest := by
  simp [Accepts, TokenParser.fail]

/-- The next token is taken. -/
@[simp] theorem accepts_next {token : Token} :
    Accepts TokenParser.next tokens token rest ↔ tokens = token :: rest := by
  cases tokens <;> simp [Accepts, TokenParser.next]

/-- Looking at the next token takes nothing. -/
@[simp] theorem accepts_peek {token : Token} :
    Accepts TokenParser.peek tokens token rest ↔ tokens.head? = some token ∧ rest = tokens := by
  cases tokens <;> simp [Accepts, TokenParser.peek, eq_comm]

/-- Looking at the token after the next takes nothing. -/
@[simp] theorem accepts_peekSecond {token : Token} :
    Accepts TokenParser.peekSecond tokens token rest ↔ tokens[1]? = some token ∧ rest = tokens := by
  rcases tokens with _ | ⟨first, _ | ⟨second, more⟩⟩ <;>
    simp [Accepts, TokenParser.peekSecond, eq_comm]

/-- What a parser accepts in one of two cases. -/
@[simp] theorem accepts_ite {c : Prop} [Decidable c] {p q : TokenParser α} {a : α} :
    Accepts (if c then p else q) tokens a rest ↔
      c ∧ Accepts p tokens a rest ∨ ¬ c ∧ Accepts q tokens a rest := by
  by_cases h : c <;> simp [h]

end Monad

/-! ## Tokens -/

section Tokens

variable {tokens rest : List Token}

/-- Expecting a keyword accepts that keyword. -/
@[simp] theorem accepts_expectKeyword {keyword : Keyword} {u : Unit} :
    Accepts (expectKeyword keyword) tokens u rest ↔ tokens = .keyword keyword :: rest := by
  simp [expectKeyword]

/-- Expecting a symbol accepts that symbol. -/
@[simp] theorem accepts_expectSymbol {symbol : Char} {u : Unit} :
    Accepts (expectSymbol symbol) tokens u rest ↔ tokens = .symbol symbol :: rest := by
  simp [expectSymbol]

/-- Expecting an identifier accepts one. -/
@[simp] theorem accepts_expectIdentifier {name : String} :
    Accepts expectIdentifier tokens name rest ↔ tokens = .identifier name :: rest := by
  simp only [expectIdentifier, accepts_bind, accepts_next]
  constructor
  · rintro ⟨token, mid, rfl, h⟩
    cases token <;> simp_all
  · rintro rfl
    exact ⟨_, _, rfl, by simp⟩

/-- Expecting a number of 32 bits accepts one. -/
@[simp] theorem accepts_expectU32 {number : UInt32} :
    Accepts expectU32 tokens number rest ↔ tokens = u32Token number :: rest := by
  simp only [expectU32, accepts_bind, accepts_next]
  constructor
  · rintro ⟨token, mid, rfl, h⟩
    rcases token with _ | _ | value | _ | _ <;> simp_all [u32Token]
    obtain ⟨⟨h0, h1⟩, rfl, rfl⟩ := h
    have hlt : value.toNat < UInt32.size := by
      rw [Int.toNat_lt h0]
      exact h1
    rw [UInt32.toNat_ofNat_of_lt' hlt, Int.toNat_of_nonneg h0]
  · rintro rfl
    have hlt : (number.toNat : Int) < 2 ^ 32 := by exact_mod_cast number.toNat_lt
    refine ⟨_, _, rfl, ?_⟩
    unfold u32Token
    dsimp only
    rw [if_pos ⟨Int.natCast_nonneg _, hlt⟩, accepts_pure, Int.toNat_natCast, UInt32.ofNat_toNat]
    exact ⟨rfl, rfl⟩

/-- A symbol that is looked for and found is taken. -/
@[simp] theorem accepts_consumeSymbol_true {symbol : Char} :
    Accepts (consumeSymbol symbol) tokens true rest ↔ tokens = .symbol symbol :: rest := by
  rcases tokens with _ | ⟨token, more⟩
  · simp [consumeSymbol]
  · by_cases h : token = .symbol symbol <;> simp [consumeSymbol, h]

/-- A symbol that is looked for and not found leaves the tokens. -/
@[simp] theorem accepts_consumeSymbol_false {symbol : Char} :
    Accepts (consumeSymbol symbol) tokens false rest ↔
      tokens = rest ∧ ∃ token more, tokens = token :: more ∧ token ≠ .symbol symbol := by
  rcases tokens with _ | ⟨token, more⟩
  · simp [consumeSymbol]
  · by_cases h : token = .symbol symbol <;> simp [consumeSymbol, h, @eq_comm _ rest]

/-- A value is its token. -/
@[simp] theorem accepts_parseValueExpr {value : ValueExpr} :
    Accepts parseValueExpr tokens value rest ↔ tokens = value.token :: rest := by
  simp only [parseValueExpr, accepts_bind, accepts_next]
  constructor
  · rintro ⟨token, mid, rfl, h⟩
    cases token <;> simp_all [ValueExpr.token] <;> obtain ⟨rfl, rfl⟩ := h <;> simp
  · rintro rfl
    refine ⟨_, _, rfl, ?_⟩
    cases value <;> simp [ValueExpr.token]

end Tokens

/-! ## Soundness: what is accepted is a spelling of what it is read as -/

/-- Whatever the parser makes of tokens is spelled by the tokens it takes. -/
def Sound {α : Type} (p : TokenParser α) (R : α → List Token → Prop) : Prop :=
  ∀ ⦃tokens a rest⦄, Accepts p tokens a rest → ∃ used, tokens = used ++ rest ∧ R a used

/-- A loop up to a brace accepts a list of what its body accepts. -/
theorem sound_untilBrace {α : Type} {p : TokenParser α} {R : α → List Token → Prop}
    (hp : Sound p R) : Sound (untilBrace p) fun items used =>
      ∃ more, used = more ++ [.symbol '}'] ∧ Listed R items more := by
  suffices h : ∀ fuel tokens items rest, Accepts (untilBraceLoop p fuel) tokens items rest →
      ∃ more, tokens = more ++ .symbol '}' :: rest ∧ Listed R items more by
    intro tokens items rest hread
    obtain ⟨more, rfl, hlisted⟩ := h tokens.length tokens items rest hread
    exact ⟨more ++ [.symbol '}'], by simp, more, rfl, hlisted⟩
  intro fuel
  induction fuel with
  | zero =>
    intro tokens items rest h
    simp [Accepts, untilBraceLoop] at h
  | succ fuel ih =>
    intro tokens items rest h
    simp only [untilBraceLoop, accepts_bind, Bool.exists_bool, accepts_consumeSymbol_true,
      accepts_consumeSymbol_false, if_true, Bool.false_eq_true, if_false, accepts_pure] at h
    obtain ⟨mid, ⟨rfl, -⟩, item, mid, hitem, items', mid', htail, rfl, rfl⟩
      | ⟨mid, rfl, rfl, rfl⟩ := h
    · obtain ⟨used, rfl, hused⟩ := hp hitem
      obtain ⟨more, rfl, hmore⟩ := ih _ _ _ htail
      exact ⟨used ++ more, by simp, .cons hused hmore⟩
    · exact ⟨[], rfl, .nil⟩

/-- What follows the name of a declarator is the brackets of an array, or nothing of it. -/
theorem accepts_parseModifier {tokens rest : List Token} {optional : Bool}
    {modifier : Option DeclaratorModifier} :
    Accepts (parseModifier optional) tokens modifier rest ↔
      (∃ array used, modifier = some array ∧ array.Brackets used ∧ tokens = used ++ rest) ∨
      (modifier = (if optional then some .optional else none) ∧ tokens = rest ∧
        ∃ token more, tokens = token :: more ∧ token ≠ .symbol '[' ∧ token ≠ .symbol '<') := by
  simp only [parseModifier, accepts_bind, Bool.exists_bool, accepts_consumeSymbol_true,
    accepts_consumeSymbol_false, accepts_pure, if_true, Bool.false_eq_true, if_false,
    accepts_parseValueExpr, accepts_expectSymbol]
  constructor
  · rintro (⟨_, ⟨rfl, first, more, rfl, hfirst⟩, ⟨_, ⟨rfl, _, _, hcons, hne⟩, hlast⟩ |
      ⟨_, hopen, ⟨_, ⟨rfl, -⟩, bound, _, rfl, _, _, rfl, rfl, rfl⟩ | ⟨_, rfl, rfl, rfl⟩⟩⟩ |
      ⟨_, rfl, bound, _, rfl, _, _, rfl, rfl, rfl⟩)
    · obtain ⟨rfl, rfl⟩ := List.cons.inj hcons
      refine .inr ?_
      cases optional <;> simp_all [eq_comm]
    · exact .inl ⟨_, _, rfl, .bounded bound, hopen⟩
    · exact .inl ⟨_, _, rfl, .unbounded, hopen⟩
    · exact .inl ⟨_, _, rfl, .fixed bound, rfl⟩
  · rintro (⟨array, used, rfl, hbrackets, rfl⟩ | ⟨rfl, rfl, token, more, rfl, hsquare, hangle⟩)
    · rcases hbrackets with bound | _ | bound
      · exact .inr ⟨_, rfl, bound, _, rfl, (), _, rfl, rfl, rfl⟩
      · exact .inl ⟨_, ⟨rfl, _, _, rfl, by simp⟩, .inr ⟨_, rfl, .inr ⟨_, rfl, rfl, rfl⟩⟩⟩
      · refine .inl ⟨_, ⟨rfl, _, _, rfl, by simp⟩, .inr ⟨_, rfl, .inl ⟨_, ⟨rfl, _, _, rfl, ?_⟩,
          bound, _, rfl, (), _, rfl, rfl, rfl⟩⟩⟩
        cases bound <;> simp [ValueExpr.token]
    · refine .inl ⟨_, ⟨rfl, _, _, rfl, hsquare⟩, .inl ⟨_, ⟨rfl, _, _, rfl, hangle⟩, ?_⟩⟩
      cases optional <;> simp

/-- What is accepted as a declarator is spelled like one. -/
theorem sound_parseDeclarator : Sound parseDeclarator (Declarator.Spelled True) := by
  intro tokens d rest h
  simp only [parseDeclarator, accepts_bind, Bool.exists_bool, accepts_consumeSymbol_true,
    accepts_consumeSymbol_false, accepts_expectIdentifier, accepts_parseModifier, accepts_pure] at h
  obtain ⟨_, ⟨rfl, -⟩, name, _, rfl, _, _, hmodifier, rfl, rfl⟩ |
    ⟨_, rfl, name, _, rfl, _, _, hmodifier, rfl, rfl⟩ := h
  · obtain ⟨array, used, rfl, hbrackets, rfl⟩ | ⟨rfl, rfl, -⟩ := hmodifier
    · exact ⟨_, rfl, .array name hbrackets⟩
    · exact ⟨[_], rfl, .plain name⟩
  · obtain ⟨array, used, rfl, hbrackets, rfl⟩ | ⟨rfl, rfl, -⟩ := hmodifier
    · exact ⟨_, rfl, .starred name trivial hbrackets⟩
    · exact ⟨[_, _], rfl, .optional name⟩

/-- What is accepted as a member of an enumeration is spelled like one. -/
theorem sound_parseEnumVariant : Sound parseEnumVariant EnumVariant.Spelled := by
  intro tokens variant rest h
  simp only [parseEnumVariant, accepts_bind, Bool.exists_bool, accepts_consumeSymbol_true,
    accepts_consumeSymbol_false, accepts_expectIdentifier, accepts_expectSymbol,
    accepts_parseValueExpr, accepts_pure] at h
  obtain ⟨name, _, rfl, _, _, rfl, value, _, rfl, ⟨_, ⟨rfl, -⟩, rfl, rfl⟩ | ⟨_, rfl, rfl, rfl⟩⟩ := h
  · exact ⟨[_, _, _], rfl, .bare name value⟩
  · exact ⟨[_, _, _, _], rfl, .comma name value⟩

/-- What is accepted as the body of an enumeration is spelled like one. -/
theorem sound_parseEnumBody : Sound parseEnumBody EnumBody.Spelled := by
  intro tokens body rest h
  simp only [parseEnumBody, accepts_bind, accepts_expectSymbol, accepts_pure] at h
  obtain ⟨_, _, rfl, variants, _, hvariants, rfl, rfl⟩ := h
  obtain ⟨_, rfl, used, rfl, hlisted⟩ := sound_untilBrace sound_parseEnumVariant hvariants
  exact ⟨_, by simp, .mk hlisted⟩

/-- What is accepted as labels is spelled like labels. -/
theorem sound_parseLabels : Sound parseLabels (Listed UnionCaseLabel.Spelled) := by
  suffices h : ∀ fuel, Sound (parseLabelsLoop fuel) (Listed UnionCaseLabel.Spelled) from
    fun tokens _ _ hread => h tokens.length hread
  intro fuel
  induction fuel with
  | zero =>
    intro tokens labels rest h
    simp [Accepts, parseLabelsLoop] at h
  | succ fuel ih =>
    intro tokens labels rest h
    simp only [parseLabelsLoop, accepts_bind, accepts_peek] at h
    obtain ⟨token, _, ⟨htoken, rfl⟩, h⟩ := h
    split at h
    · simp only [accepts_bind, accepts_next, accepts_parseValueExpr, accepts_expectSymbol,
        accepts_pure] at h
      obtain ⟨_, _, rfl, value, _, rfl, _, _, rfl, labels, _, hmore, rfl, rfl⟩ := h
      obtain ⟨more, rfl, hlisted⟩ := ih hmore
      obtain rfl := Option.some.inj htoken
      exact ⟨_, rfl, .cons (.case value) hlisted⟩
    · simp only [accepts_bind, accepts_next, accepts_expectSymbol, accepts_pure] at h
      obtain ⟨_, _, rfl, _, _, rfl, labels, _, hmore, rfl, rfl⟩ := h
      obtain ⟨more, rfl, hlisted⟩ := ih hmore
      obtain rfl := Option.some.inj htoken
      exact ⟨_, rfl, .cons .default hlisted⟩
    · rw [accepts_pure] at h
      obtain ⟨rfl, rfl⟩ := h
      exact ⟨[], rfl, .nil⟩

section Layer

variable {typeSpec : TokenParser TypeSpec} {R : TypeSpec → List Token → Prop}

/-- What is accepted as a declaration is spelled like one. -/
theorem sound_parseDeclaration (htypes : Sound typeSpec R) :
    Sound (parseDeclaration typeSpec) (Declaration.Spelled True R) := by
  intro tokens declaration rest h
  simp only [parseDeclaration, accepts_bind] at h
  obtain ⟨type, mid, htype, h⟩ := h
  obtain ⟨used, rfl, hused⟩ := htypes htype
  split at h
  · simp only [accepts_bind, accepts_peek, accepts_ite, accepts_pure] at h
    obtain ⟨token, _, ⟨-, rfl⟩, ⟨-, rfl, rfl⟩ | ⟨-, declarator, _, hdeclarator, rfl, rfl⟩⟩ := h
    · exact ⟨used, rfl, .void hused⟩
    · obtain ⟨more, rfl, hmore⟩ := sound_parseDeclarator hdeclarator
      exact ⟨used ++ more, by simp, .named hused hmore⟩
  · simp only [accepts_bind, accepts_pure] at h
    obtain ⟨declarator, _, hdeclarator, rfl, rfl⟩ := h
    obtain ⟨more, rfl, hmore⟩ := sound_parseDeclarator hdeclarator
    exact ⟨used ++ more, by simp, .named hused hmore⟩

/-- What is accepted as a field is spelled like one. -/
theorem sound_parseField (htypes : Sound typeSpec R) :
    Sound (parseField typeSpec) (Declaration.Field True R) := by
  intro tokens declaration rest h
  simp only [parseField, accepts_bind, accepts_expectSymbol, accepts_pure] at h
  obtain ⟨declaration, _, hdeclaration, _, _, rfl, rfl, rfl⟩ := h
  obtain ⟨used, rfl, hused⟩ := sound_parseDeclaration htypes hdeclaration
  exact ⟨used ++ [.symbol ';'], by simp, .mk hused⟩

/-- What is accepted as the body of a structure is spelled like one. -/
theorem sound_parseStructBody (htypes : Sound typeSpec R) :
    Sound (parseStructBody typeSpec) (StructBody.Spelled True R) := by
  intro tokens body rest h
  simp only [parseStructBody, accepts_bind, accepts_expectSymbol, accepts_pure] at h
  obtain ⟨_, _, rfl, declarations, _, hfields, rfl, rfl⟩ := h
  obtain ⟨_, rfl, used, rfl, hlisted⟩ := sound_untilBrace (sound_parseField htypes) hfields
  exact ⟨_, by simp, .mk hlisted⟩

/-- What is accepted as an arm of a union is spelled like one. -/
theorem sound_parseUnionArm (htypes : Sound typeSpec R) :
    Sound (parseUnionArm typeSpec) (UnionArm.Spelled True R) := by
  intro tokens arm rest h
  simp only [parseUnionArm, accepts_bind, accepts_ite, accepts_fail, and_false, false_or,
    accepts_expectSymbol, accepts_pure] at h
  obtain ⟨labels, _, hlabels, hsome, declaration, _, hdeclaration, _, _, rfl, rfl, rfl⟩ := h
  obtain ⟨cases, rfl, hcases⟩ := sound_parseLabels hlabels
  obtain ⟨used, rfl, hused⟩ := sound_parseDeclaration htypes hdeclaration
  exact ⟨cases ++ (used ++ [.symbol ';']), by simp, .mk hsome hcases (.mk hused)⟩

/-- What is accepted as the body of a union is spelled like one. -/
theorem sound_parseUnionBody (htypes : Sound typeSpec R) :
    Sound (parseUnionBody typeSpec) (UnionBody.Spelled True R) := by
  intro tokens body rest h
  simp only [parseUnionBody, accepts_bind, accepts_expectKeyword, accepts_expectSymbol,
    accepts_pure] at h
  obtain ⟨_, _, rfl, _, _, rfl, discriminant, _, hdiscriminant, _, _, rfl, _, _,
    rfl, arms, _, harms, rfl, rfl⟩ := h
  obtain ⟨switched, rfl, hswitched⟩ := sound_parseDeclaration htypes hdiscriminant
  obtain ⟨_, rfl, used, rfl, hlisted⟩ := sound_untilBrace (sound_parseUnionArm htypes) harms
  exact ⟨_, by simp, .mk hswitched hlisted⟩

/-- After one of the keywords that may stand before the name of a type. -/
theorem sound_parseNamedOr {opening : Token} {body : TokenParser TypeSpec} {tag : Keyword}
    (htag : tag = .enum ∨ tag = .struct ∨ tag = .union)
    (hbody : Sound body fun type used => TypeSpec.Layer True R type (.keyword tag :: used)) :
    Sound (parseNamedOr opening body) fun type used =>
      TypeSpec.Layer True R type (.keyword tag :: used) := by
  intro tokens type rest h
  simp only [parseNamedOr, accepts_bind, accepts_peek] at h
  obtain ⟨token, _, ⟨htoken, rfl⟩, h⟩ := h
  split at h
  · rename_i name
    simp only [accepts_bind, accepts_peekSecond, accepts_ite, accepts_next, accepts_pure] at h
    obtain ⟨second, _, ⟨-, rfl⟩, ⟨-, _, _, rfl, rfl, rfl⟩ | ⟨-, h⟩⟩ := h
    · obtain rfl := Option.some.inj htoken
      exact ⟨[.identifier name], rfl, .tagged name htag⟩
    · exact hbody h
  · exact hbody h

/-- What is accepted as a type is spelled like one, if that is so of the types inside. -/
theorem sound_parseTypeSpecWith (htypes : Sound typeSpec R) :
    Sound (parseTypeSpecWith typeSpec) (TypeSpec.Layer True R) := by
  intro tokens type rest h
  simp only [parseTypeSpecWith, accepts_bind, accepts_next] at h
  obtain ⟨token, mid, rfl, h⟩ := h
  split at h
  all_goals try (rw [accepts_pure] at h; obtain ⟨rfl, rfl⟩ := h)
  · exact ⟨[_], rfl, .void⟩
  · exact ⟨[_], rfl, .bool⟩
  · exact ⟨[_], rfl, .int⟩
  · exact ⟨[_], rfl, .hyper⟩
  · exact ⟨[_], rfl, .float⟩
  · exact ⟨[_], rfl, .double⟩
  · exact ⟨[_], rfl, .quadruple⟩
  · exact ⟨[_], rfl, .opaqueData⟩
  · exact ⟨[_], rfl, .string⟩
  · simp only [accepts_bind, accepts_next] at h
    obtain ⟨token, mid, rfl, h⟩ := h
    split at h
    · obtain ⟨rfl, rfl⟩ := accepts_pure.mp h
      exact ⟨[_, _], rfl, .unsignedInt⟩
    · obtain ⟨rfl, rfl⟩ := accepts_pure.mp h
      exact ⟨[_, _], rfl, .unsignedHyper⟩
    · exact absurd h accepts_fail
  · exact ⟨[_], rfl, .identifier _⟩
  · obtain ⟨used, rfl, hused⟩ := sound_parseNamedOr (R := R) (.inl rfl) (fun _ _ _ h => by
      simp only [accepts_bind, accepts_pure] at h
      obtain ⟨body, _, hbody, rfl, rfl⟩ := h
      obtain ⟨used, rfl, hused⟩ := sound_parseEnumBody hbody
      exact ⟨used, rfl, .enum hused⟩) h
    exact ⟨_, rfl, hused⟩
  · obtain ⟨used, rfl, hused⟩ := sound_parseNamedOr (R := R) (.inr (.inl rfl)) (fun _ _ _ h => by
      simp only [accepts_bind, accepts_pure] at h
      obtain ⟨body, _, hbody, rfl, rfl⟩ := h
      obtain ⟨used, rfl, hused⟩ := sound_parseStructBody htypes hbody
      exact ⟨used, rfl, .struct hused⟩) h
    exact ⟨_, rfl, hused⟩
  · obtain ⟨used, rfl, hused⟩ := sound_parseNamedOr (R := R) (.inr (.inr rfl)) (fun _ _ _ h => by
      simp only [accepts_bind, accepts_pure] at h
      obtain ⟨body, _, hbody, rfl, rfl⟩ := h
      obtain ⟨used, rfl, hused⟩ := sound_parseUnionBody htypes hbody
      exact ⟨used, rfl, .union hused⟩) h
    exact ⟨_, rfl, hused⟩
  · exact absurd h accepts_fail
  · exact absurd h accepts_fail

end Layer

/-- What is accepted as a type is spelled like one. -/
theorem sound_parseTypeSpec (depth : ℕ) :
    Sound (parseTypeSpec depth) (TypeSpec.Spelled True depth) := by
  induction depth with
  | zero =>
    intro tokens type rest h
    simp [Accepts, parseTypeSpec] at h
  | succ depth ih => exact sound_parseTypeSpecWith ih

section Items

variable {typeSpec : TokenParser TypeSpec} {R : TypeSpec → List Token → Prop}

variable (htypes : Sound typeSpec R) (hvoid : ∀ {used}, R .void used → used = [.keyword .void])

include htypes hvoid

/-- What is accepted as an argument type is spelled like one. -/
theorem sound_parseProcedureArgumentType :
    Sound (parseProcedureArgumentType typeSpec) (TypeSpec.Argument True R) := by
  intro tokens type rest h
  simp only [parseProcedureArgumentType, accepts_bind, accepts_peek, accepts_ite, accepts_next,
    accepts_pure] at h
  obtain ⟨first, _, ⟨hfirst, rfl⟩, ⟨rfl, _, _, rfl, rfl, rfl⟩ | ⟨hne, type, mid, htype, token, _,
    ⟨-, rfl⟩, h⟩⟩ := h
  · obtain rfl := Option.some.inj hfirst
    exact ⟨[_], rfl, .void⟩
  obtain ⟨used, rfl, hused⟩ := htypes htype
  have htyped : type ≠ .void := by
    rintro rfl
    obtain rfl := hvoid hused
    exact hne (Option.some.inj hfirst).symm
  obtain ⟨-, ⟨name, modifier⟩, _, hdeclarator, rfl, rfl⟩ | ⟨-, rfl, rfl⟩ := h
  · obtain ⟨more, rfl, hmore⟩ := sound_parseDeclarator hdeclarator
    refine ⟨used ++ more, by simp, ?_⟩
    rcases hmore with _ | _ | _ | _
    · exact .named name hused htyped
    · exact .modified trivial hused htyped (by simp) (.optional name)
    · exact .modified trivial hused htyped (by simp) (.array name ‹_›)
    · exact .modified trivial hused htyped (by simp) (.starred name trivial ‹_›)
  · exact ⟨used, rfl, .bare hused htyped⟩

/-- What is accepted as a procedure is spelled like one. -/
theorem sound_parseProcedure :
    Sound (parseProcedure typeSpec) (ProcedureDecl.Spelled True R) := by
  intro tokens decl rest h
  simp only [parseProcedure, accepts_bind, accepts_expectIdentifier, accepts_expectSymbol,
    accepts_expectU32, accepts_pure] at h
  obtain ⟨returnType, _, hreturn, name, _, rfl, _, _, rfl, argumentType, _, hargument, _, _, rfl, _,
    _, rfl, number, _, rfl, _, _, rfl, rfl, rfl⟩ := h
  obtain ⟨result, rfl, hresult⟩ := htypes hreturn
  obtain ⟨argument, rfl, hpassed⟩ := sound_parseProcedureArgumentType htypes hvoid hargument
  exact ⟨_, by simp, .mk name number hresult hpassed⟩

omit htypes hvoid in
/-- What is accepted as a numbered declaration has its name, its parts and its number. -/
theorem sound_parseNumbered {α : Type} {keyword : Keyword} {part : TokenParser α}
    {S : α → List Token → Prop} (hpart : Sound part S) :
    Sound (parseNumbered keyword part) fun result used => ∃ more,
      Listed S result.2.1 more ∧
        used = [.keyword keyword, .identifier result.1, .symbol '{'] ++ more ++
          [.symbol '}', .symbol '=', u32Token result.2.2, .symbol ';'] := by
  intro tokens result rest h
  simp only [parseNumbered, accepts_bind, accepts_expectKeyword, accepts_expectIdentifier,
    accepts_expectSymbol, accepts_expectU32, accepts_pure] at h
  obtain ⟨_, _, rfl, name, _, rfl, _, _, rfl, parts, _, hparts, _, _, rfl, number,
    _, rfl, _, _, rfl, rfl, rfl⟩ := h
  obtain ⟨_, rfl, more, rfl, hlisted⟩ := sound_untilBrace hpart hparts
  exact ⟨_, by simp, more, hlisted, rfl⟩

/-- What is accepted as a version is spelled like one. -/
theorem sound_parseVersion : Sound (parseVersion typeSpec) (VersionDecl.Spelled True R) := by
  intro tokens decl rest h
  simp only [parseVersion, accepts_bind, accepts_pure] at h
  obtain ⟨⟨name, procedures, number⟩, _, hnumbered, rfl, rfl⟩ := h
  obtain ⟨_, rfl, more, hlisted, rfl⟩ :=
    sound_parseNumbered (sound_parseProcedure htypes hvoid) hnumbered
  exact ⟨_, rfl, .mk name number hlisted⟩

/-- What is accepted as a program is spelled like one. -/
theorem sound_parseProgram : Sound (parseProgram typeSpec) (ProgramDecl.Spelled True R) := by
  intro tokens decl rest h
  simp only [parseProgram, accepts_bind, accepts_pure] at h
  obtain ⟨⟨name, versions, number⟩, _, hnumbered, rfl, rfl⟩ := h
  obtain ⟨_, rfl, more, hlisted, rfl⟩ :=
    sound_parseNumbered (sound_parseVersion htypes hvoid) hnumbered
  exact ⟨_, rfl, .mk name number hlisted⟩

omit htypes hvoid in
/-- What is accepted as a named declaration has its name and its body. -/
theorem sound_parseNamed {α : Type} {keyword : Keyword} {body : TokenParser α}
    {S : α → List Token → Prop} (hbody : Sound body S) :
    Sound (parseNamed keyword body) fun result used => ∃ more, S result.2 more ∧
      used = [.keyword keyword, .identifier result.1] ++ more ++ [.symbol ';'] := by
  intro tokens result rest h
  simp only [parseNamed, accepts_bind, accepts_expectKeyword, accepts_expectIdentifier,
    accepts_expectSymbol, accepts_pure] at h
  obtain ⟨_, _, rfl, name, _, rfl, body, _, hread, _, _, rfl, rfl, rfl⟩ := h
  obtain ⟨more, rfl, hmore⟩ := hbody hread
  exact ⟨_, by simp, more, hmore, rfl⟩

/-- What is accepted as an item is spelled like one. -/
theorem sound_parseItem : Sound (parseItem typeSpec) (Item.Spelled True R) := by
  intro tokens item rest h
  simp only [parseItem, accepts_bind, accepts_peek] at h
  obtain ⟨token, _, ⟨-, rfl⟩, h⟩ := h
  split at h
  · simp only [parseConst, accepts_bind, accepts_expectKeyword, accepts_expectIdentifier,
      accepts_expectSymbol, accepts_parseValueExpr, accepts_pure] at h
    obtain ⟨_, _, ⟨_, _, rfl, name, _, rfl, _, _, rfl, value, _, rfl, _, _, rfl, rfl, rfl⟩, rfl,
      rfl⟩ := h
    exact ⟨[_, _, _, _, _], rfl, .const name value⟩
  · simp only [parseTypedef, accepts_bind, accepts_expectKeyword, accepts_expectSymbol,
      accepts_pure] at h
    obtain ⟨_, _, ⟨_, _, rfl, target, _, htarget, declarator, _, hdeclarator, _, _, rfl, rfl, rfl⟩,
      rfl, rfl⟩ := h
    obtain ⟨used, rfl, hused⟩ := htypes htarget
    obtain ⟨more, rfl, hmore⟩ := sound_parseDeclarator hdeclarator
    exact ⟨_, by simp, .typedef hused hmore⟩
  · simp only [parseNamedStruct, accepts_bind, accepts_pure] at h
    obtain ⟨⟨name, body⟩, _, hnamed, rfl, rfl⟩ := h
    obtain ⟨_, rfl, used, hused, rfl⟩ := sound_parseNamed (sound_parseStructBody htypes) hnamed
    exact ⟨_, rfl, .struct name hused⟩
  · simp only [parseNamedEnum, accepts_bind, accepts_pure] at h
    obtain ⟨⟨name, body⟩, _, hnamed, rfl, rfl⟩ := h
    obtain ⟨_, rfl, used, hused, rfl⟩ := sound_parseNamed sound_parseEnumBody hnamed
    exact ⟨_, rfl, .enum name hused⟩
  · simp only [parseNamedUnion, accepts_bind, accepts_pure] at h
    obtain ⟨⟨name, body⟩, _, hnamed, rfl, rfl⟩ := h
    obtain ⟨_, rfl, used, hused, rfl⟩ := sound_parseNamed (sound_parseUnionBody htypes) hnamed
    exact ⟨_, rfl, .union name hused⟩
  · simp only [accepts_bind, accepts_pure] at h
    obtain ⟨decl, _, hprogram, rfl, rfl⟩ := h
    obtain ⟨used, rfl, hused⟩ := sound_parseProgram htypes hvoid hprogram
    exact ⟨used, rfl, .program hused⟩
  · exact absurd h accepts_fail

/-- What is accepted as the items of a schema is a list of items, up to the end of the source. -/
theorem sound_parseItems (fuel : ℕ) {tokens rest : List Token} {items : List Item}
    (h : Accepts (parseItems typeSpec fuel) tokens items rest) :
    ∃ used, tokens = used ++ rest ∧ Listed (Item.Spelled True R) items used ∧
      rest.head? = some .eof := by
  induction fuel generalizing tokens items with
  | zero => simp [Accepts, parseItems] at h
  | succ fuel ih =>
    simp only [parseItems, accepts_bind, accepts_peek, accepts_ite, accepts_pure] at h
    obtain ⟨token, _, ⟨htoken, rfl⟩, ⟨rfl, rfl, rfl⟩ | ⟨-, item, _, hitem, items, _, hitems, rfl,
      rfl⟩⟩ := h
    · exact ⟨[], rfl, .nil, htoken⟩
    · obtain ⟨used, rfl, hused⟩ := sound_parseItem htypes hvoid hitem
      obtain ⟨more, rfl, hmore, hend⟩ := ih hitems
      exact ⟨used ++ more, by simp, .cons hused hmore, hend⟩

end Items

/-- The type `void` is spelled by its keyword. -/
theorem spelled_void {lossy : Prop} {depth : ℕ} {used : List Token}
    (h : TypeSpec.Spelled lossy depth .void used) : used = [.keyword .void] := by
  cases depth with
  | zero => exact h.elim
  | succ depth =>
    obtain _ | _ := h
    rfl

end OncRpc
