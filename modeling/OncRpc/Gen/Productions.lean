import OncRpc.Gen.Total

/-!
# The states of the parser

The source keeps all tokens and an index, the model the tokens from the index on.  `Reached` has the
states the parser gets to: it starts in front of the first token, takes tokens other than the end of
the source, and calls its functions, the `Production`s, in any order.  So it has every state in
which the parser of a source looks at a token.

In each of them the index is that of a token, and there is one behind an identifier
(`Reached.ended`); no production looks past the last token (`Production.finishes_run`), and one that
is the body of a loop takes a token if it succeeds (`Production.finishes_iteration`).
`parser_total` puts this together.
-/

namespace OncRpc

open TokenParser

/-! ## The index -/

variable {tokens rest : List Token} {idx : ℕ}

/-- To peek is to read the token at the index. -/
theorem peek_drop : peek (tokens.drop idx) =
    tokens[idx]?.map fun token => .ok (token, tokens.drop idx) := by
  rw [← List.head?_drop]
  rcases tokens.drop idx with _ | ⟨token, more⟩ <;> rfl

/-- To peek twice is to read the token behind that. -/
theorem peekSecond_drop : peekSecond (tokens.drop idx) =
    tokens[idx + 1]?.map fun token => .ok (token, tokens.drop idx) := by
  have hsecond : tokens[idx + 1]? = (tokens.drop idx)[1]? := by rw [List.getElem?_drop]
  rw [hsecond]
  rcases tokens.drop idx with _ | ⟨first, _ | ⟨second, more⟩⟩ <;> rfl

/-- To take a token is to read it and to go one up with the index. -/
theorem next_drop : next (tokens.drop idx) =
    tokens[idx]?.map fun token => .ok (token, tokens.drop (idx + 1)) := by
  rw [← List.head?_drop, ← List.tail_drop]
  rcases tokens.drop idx with _ | ⟨token, more⟩ <;> rfl

/-! ## The functions of the parser -/

/-- The functions of the parser, and the bodies of its loops. -/
inductive Production where
  | schema
  | item
  | const
  | typedef
  | namedStruct
  | namedEnum
  | namedUnion
  | program
  | version
  | procedure
  | procedureArgumentType
  | typeSpec
  | structBody
  | field
  | enumBody
  | enumVariant
  | unionBody
  | labels
  | unionArm
  | declaration
  | declarator
  | valueExpr
  | expectKeyword (keyword : Keyword)
  | expectIdentifier
  | expectSymbol (symbol : Char)
  | expectU32
  | consumeSymbol (symbol : Char)

namespace Production

/-- What a function makes of its tokens. -/
def Result : Production → Type
  | schema => List Item
  | item => Item
  | const => ConstDecl
  | typedef => TypedefDecl
  | namedStruct => String × StructBody
  | namedEnum => String × EnumBody
  | namedUnion => String × UnionBody
  | program => ProgramDecl
  | version => VersionDecl
  | procedure => ProcedureDecl
  | procedureArgumentType | typeSpec => TypeSpec
  | structBody => StructBody
  | field | declaration => Declaration
  | enumBody => EnumBody
  | enumVariant => EnumVariant
  | unionBody => UnionBody
  | labels => List UnionCaseLabel
  | unionArm => UnionArm
  | declarator => Declarator
  | valueExpr => ValueExpr
  | expectKeyword _ | expectSymbol _ => Unit
  | expectIdentifier => String
  | expectU32 => UInt32
  | consumeSymbol _ => Bool

/-- The function, for sources of at most so many tokens. -/
def run (n : ℕ) : (p : Production) → TokenParser p.Result
  | schema => parseItems (parseTypeSpec n) n
  | item => parseItem (parseTypeSpec n)
  | const => parseConst
  | typedef => parseTypedef (parseTypeSpec n)
  | namedStruct => parseNamedStruct (parseTypeSpec n)
  | namedEnum => parseNamedEnum
  | namedUnion => parseNamedUnion (parseTypeSpec n)
  | program => parseProgram (parseTypeSpec n)
  | version => parseVersion (parseTypeSpec n)
  | procedure => parseProcedure (parseTypeSpec n)
  | procedureArgumentType => parseProcedureArgumentType (parseTypeSpec n)
  | typeSpec => parseTypeSpec n
  | structBody => parseStructBody (parseTypeSpec n)
  | field => parseField (parseTypeSpec n)
  | enumBody => parseEnumBody
  | enumVariant => parseEnumVariant
  | unionBody => parseUnionBody (parseTypeSpec n)
  | labels => parseLabels
  | unionArm => parseUnionArm (parseTypeSpec n)
  | declaration => parseDeclaration (parseTypeSpec n)
  | declarator => parseDeclarator
  | valueExpr => parseValueExpr
  | expectKeyword keyword => OncRpc.expectKeyword keyword
  | expectIdentifier => OncRpc.expectIdentifier
  | expectSymbol symbol => OncRpc.expectSymbol symbol
  | expectU32 => OncRpc.expectU32
  | consumeSymbol symbol => OncRpc.consumeSymbol symbol

/-- The bodies of the loops over items, versions, procedures, fields, variants and arms. -/
def IsIteration : Production → Prop
  | item | version | procedure | field | enumVariant | unionArm => True
  | _ => False

/-- No function looks past the last token, and none takes it. -/
theorem finishes_run (n : ℕ) (p : Production) : Finishes n 0 (p.run n) := by
  have htypes := finishes_parseTypeSpec n
  rcases p with _ | _ | _ | _ | _ | _ | _ | _ | _ | _ | _ | _ | _ | _ | _ | _ | _
    | _ | _ | _ | _ | _ |
    keyword | _ | symbol | _ | symbol
  case schema => exact finishes_parseItems htypes le_rfl
  case item => exact (finishes_parseItem htypes).weaken
  case const => exact finishes_parseConst.weaken
  case typedef => exact (finishes_parseTypedef htypes).weaken
  case namedStruct => exact (finishes_parseNamed (finishes_parseStructBody htypes)).weaken
  case namedEnum => exact (finishes_parseNamed finishes_parseEnumBody).weaken
  case namedUnion => exact (finishes_parseNamed (finishes_parseUnionBody htypes)).weaken
  case program => exact (finishes_parseProgram htypes).weaken
  case version => exact (finishes_parseVersion htypes).weaken
  case procedure => exact (finishes_parseProcedure htypes).weaken
  case procedureArgumentType => exact finishes_parseProcedureArgumentType htypes
  case typeSpec => exact htypes.weaken
  case structBody => exact (finishes_parseStructBody htypes).weaken
  case field => exact (finishes_parseField htypes).weaken
  case enumBody => exact finishes_parseEnumBody.weaken
  case enumVariant => exact finishes_parseEnumVariant.weaken
  case unionBody => exact (finishes_parseUnionBody htypes).weaken
  case labels => exact finishes_parseLabels
  case unionArm => exact (finishes_parseUnionArm htypes).weaken
  case declaration => exact (finishes_parseDeclaration htypes).weaken
  case declarator => exact finishes_parseDeclarator
  case valueExpr => exact Finishes.weaken finishes_parseValueExpr
  case expectKeyword => exact Finishes.weaken (finishes_expectKeyword keyword)
  case expectIdentifier => exact Finishes.weaken finishes_expectIdentifier
  case expectSymbol => exact Finishes.weaken (finishes_expectSymbol symbol)
  case expectU32 => exact Finishes.weaken finishes_expectU32
  case consumeSymbol => exact finishes_consumeSymbol symbol

/-- The body of a loop takes a token. -/
theorem finishes_iteration (n : ℕ) {p : Production} (h : p.IsIteration) :
    Finishes n 1 (p.run n) := by
  have htypes := finishes_parseTypeSpec n
  rcases p
  case item => exact finishes_parseItem htypes
  case version => exact finishes_parseVersion htypes
  case procedure => exact finishes_parseProcedure htypes
  case field => exact finishes_parseField htypes
  case enumVariant => exact finishes_parseEnumVariant
  case unionArm => exact finishes_parseUnionArm htypes
  all_goals exact h.elim

theorem suffix_of_const {decl : ConstDecl} (h : Accepts parseConst tokens decl rest) :
    rest <:+ tokens := by
  simp only [parseConst, accepts_bind, accepts_expectKeyword, accepts_expectIdentifier,
    accepts_expectSymbol, accepts_parseValueExpr, accepts_pure] at h
  obtain ⟨_, _, rfl, name, _, rfl, _, _, rfl, value, _, rfl, _, _, rfl, -, rfl⟩ := h
  exact List.suffix_append [_, _, _, _, _] _

theorem suffix_of_typedef {typeSpec : TokenParser TypeSpec} {R : TypeSpec → List Token → Prop}
    (htypes : Sound typeSpec R) {decl : TypedefDecl}
    (h : Accepts (parseTypedef typeSpec) tokens decl rest) : rest <:+ tokens := by
  simp only [parseTypedef, accepts_bind, accepts_expectKeyword, accepts_expectSymbol,
    accepts_pure] at h
  obtain ⟨_, _, rfl, target, _, htarget, declarator, _, hdeclarator, _, _, rfl, -, rfl⟩ := h
  obtain ⟨used, rfl, -⟩ := htypes htarget
  obtain ⟨more, rfl, -⟩ := sound_parseDeclarator hdeclarator
  exact ⟨.keyword .typedef :: (used ++ (more ++ [.symbol ';'])), by simp⟩

/-- A function leaves the end of what it was given. -/
theorem suffix_run {n : ℕ} {p : Production} {a : p.Result} (h : Accepts (p.run n) tokens a rest) :
    rest <:+ tokens := by
  have htypes := sound_parseTypeSpec n
  have hvoid {used : List Token} : TypeSpec.Spelled True n .void used → used = [.keyword .void] :=
    spelled_void
  have hsound {α : Type} {q : TokenParser α} {R : α → List Token → Prop} {b : α}
      (hq : Sound q R) (hb : Accepts q tokens b rest) : rest <:+ tokens := by
    obtain ⟨used, rfl, -⟩ := hq hb
    exact List.suffix_append used rest
  rcases p with _ | _ | _ | _ | _ | _ | _ | _ | _ | _ | _ | _ | _ | _ | _ | _ | _
    | _ | _ | _ | _ | _ |
    keyword | _ | symbol | _ | symbol
  case schema =>
    obtain ⟨used, rfl, -⟩ := sound_parseItems htypes hvoid n h
    exact List.suffix_append used rest
  case item => exact hsound (sound_parseItem htypes hvoid) h
  case const => exact suffix_of_const h
  case typedef => exact suffix_of_typedef htypes h
  case namedStruct => exact hsound (sound_parseNamed (sound_parseStructBody htypes)) h
  case namedEnum => exact hsound (sound_parseNamed sound_parseEnumBody) h
  case namedUnion => exact hsound (sound_parseNamed (sound_parseUnionBody htypes)) h
  case program => exact hsound (sound_parseProgram htypes hvoid) h
  case version => exact hsound (sound_parseVersion htypes hvoid) h
  case procedure => exact hsound (sound_parseProcedure htypes hvoid) h
  case procedureArgumentType => exact hsound (sound_parseProcedureArgumentType htypes hvoid) h
  case typeSpec => exact hsound htypes h
  case structBody => exact hsound (sound_parseStructBody htypes) h
  case field => exact hsound (sound_parseField htypes) h
  case enumBody => exact hsound sound_parseEnumBody h
  case enumVariant => exact hsound sound_parseEnumVariant h
  case unionBody => exact hsound (sound_parseUnionBody htypes) h
  case labels => exact hsound sound_parseLabels h
  case unionArm => exact hsound (sound_parseUnionArm htypes) h
  case declaration => exact hsound (sound_parseDeclaration htypes) h
  case declarator => exact hsound sound_parseDeclarator h
  case valueExpr =>
    obtain rfl := accepts_parseValueExpr.mp h
    exact List.suffix_cons _ _
  case expectKeyword =>
    obtain rfl := accepts_expectKeyword.mp h
    exact List.suffix_cons _ _
  case expectIdentifier =>
    obtain rfl := accepts_expectIdentifier.mp h
    exact List.suffix_cons _ _
  case expectSymbol =>
    obtain rfl := accepts_expectSymbol.mp h
    exact List.suffix_cons _ _
  case expectU32 =>
    obtain rfl := accepts_expectU32.mp h
    exact List.suffix_cons _ _
  case consumeSymbol =>
    rcases a with _ | _
    · obtain ⟨rfl, -⟩ := accepts_consumeSymbol_false.mp h
      exact List.suffix_refl _
    · obtain rfl := accepts_consumeSymbol_true.mp h
      exact List.suffix_cons _ _

end Production

/-- The body of the loop over the labels of an arm takes two tokens for each. -/
theorem two_mul_length_labels {labels : List UnionCaseLabel}
    (h : Accepts parseLabels tokens labels rest) :
    rest.length + 2 * labels.length ≤ tokens.length := by
  obtain ⟨used, rfl, hlisted⟩ := sound_parseLabels h
  have hused : 2 * labels.length ≤ used.length := by
    clear h
    induction hlisted with
    | nil => exact Nat.le_refl 0
    | cons hfirst _ ih =>
      rcases hfirst <;> simp only [List.length_append, List.length_cons, List.length_nil] <;> omega
  rw [List.length_append]
  omega

/-! ## The states -/

/-- The states a parser of some tokens gets to. -/
inductive Reached (tokens : List Token) : List Token → Prop where
  | start : Reached tokens tokens
  | take {token : Token} {rest : List Token} : Reached tokens (token :: rest) → token ≠ .eof →
    Reached tokens rest
  | call {p : Production} {a : p.Result} {rest rest' : List Token} : Reached tokens rest →
    Accepts (p.run tokens.length) rest a rest' → Reached tokens rest'

/-- In every state the tokens that are left are the last ones. -/
theorem Reached.suffix (h : Reached tokens rest) : rest <:+ tokens := by
  induction h with
  | start => exact List.suffix_refl tokens
  | take _ _ ih => exact (List.suffix_cons _ _).trans ih
  | call _ hcall ih => exact (Production.suffix_run hcall).trans ih

/-- In every state the end of the source is still to come. -/
theorem Reached.ended (h : Reached tokens rest) (hended : Ended tokens) : Ended rest := by
  induction h with
  | start => exact hended
  | take _ htoken ih => exact ih.tail htoken
  | @call p a rest rest' hreached hcall ih =>
    have hfinishes := p.finishes_run tokens.length rest ih hreached.suffix.length_le trivial
    exact (hfinishes.2 a rest' hcall).1

/-- In every state the index is that of a token, and there is one behind an identifier. -/
theorem Reached.exists_index (h : Reached tokens rest) (hended : Ended tokens) :
    ∃ idx, idx < tokens.length ∧ rest = tokens.drop idx ∧
      ∀ name, tokens[idx]? = some (.identifier name) → idx + 1 < tokens.length := by
  obtain ⟨body, hbody, -⟩ := h.ended hended
  have hdrop : rest = tokens.drop (tokens.length - rest.length) :=
    List.suffix_iff_eq_drop.mp h.suffix
  have hlength : rest.length = body.length + 1 := by rw [hbody, List.length_append]; rfl
  have hle := h.suffix.length_le
  refine ⟨tokens.length - rest.length, by omega, hdrop, fun name hname => ?_⟩
  rw [← List.head?_drop, ← hdrop, hbody] at hname
  rcases body with _ | ⟨token, body⟩
  · cases hname
  · rw [List.length_cons] at hlength
    omega

/-! ## The result -/

/-- Every source is parsed to a schema or an error, and its text is tokenized to the end.  In every
state of the parser the index is that of a token, also the second one it looks at behind an
identifier; every function of the parser gives a result there; and what is the body of a loop takes
a token, two of them for each label of an arm. -/
theorem parser_total (input : String) :
    (∃ result, parseXSource input = some result) ∧
    (∀ (text : List Char) (fuel : ℕ), text.length ≤ fuel → tokenizeLoop fuel text = tokenize text) ∧
    ∀ tokens, sourceTokens input.toList = .ok tokens → ∀ rest, Reached tokens rest →
      (∃ idx, idx < tokens.length ∧ rest = tokens.drop idx ∧
        ∀ name, tokens[idx]? = some (.identifier name) → idx + 1 < tokens.length) ∧
      (∀ p : Production, p.run tokens.length rest ≠ none ∧
        (p.IsIteration → ∀ a rest', Accepts (p.run tokens.length) rest a rest' →
          rest'.length < rest.length)) ∧
      ∀ labels rest', Accepts parseLabels rest labels rest' →
        rest'.length + 2 * labels.length ≤ rest.length := by
  refine ⟨Option.isSome_iff_exists.mp (parseXSource_isSome input),
    fun text fuel hfuel => tokenizeLoop_congr hfuel le_rfl, ?_⟩
  intro tokens htokens rest hreached
  have hended := ended_of_sourceTokens htokens
  have hrest := hreached.ended hended
  have hle := hreached.suffix.length_le
  refine ⟨hreached.exists_index hended, fun p => ⟨?_, fun hiteration a rest' haccepts => ?_⟩,
    fun labels rest' haccepts => two_mul_length_labels haccepts⟩
  · exact (p.finishes_run tokens.length rest hrest hle trivial).1
  · exact ((Production.finishes_iteration _ hiteration rest hrest hle trivial).2 a rest' haccepts).2

end OncRpc
