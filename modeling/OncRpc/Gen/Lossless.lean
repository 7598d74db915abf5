import OncRpc.Gen.Complete

/-!
# What the parser drops

A star before the name of an array, and a modifier on the parameter of a procedure, are accepted and
left out of the schema.  Both can be told from the tokens: the star stands before a name and a
bracket, and the parameter is what the closing parenthesis before an equals sign ends.  The tokens
without them spell the schema in full.
-/

namespace OncRpc

/-- The tokens start with a modifier that the parser drops. -/
def droppedAt : List Token → Bool
  | .symbol '*' :: .identifier _ :: .symbol '[' :: _ => true
  | .symbol '*' :: .identifier _ :: .symbol '<' :: _ => true
  | .symbol '*' :: .identifier _ :: .symbol ')' :: .symbol '=' :: _ => true
  | .symbol ']' :: .symbol ')' :: .symbol '=' :: _ => true
  | .symbol '>' :: .symbol ')' :: .symbol '=' :: _ => true
  | _ => false

/-- Somewhere in the tokens stands a modifier that the parser drops. -/
def dropsModifier : List Token → Bool
  | [] => false
  | token :: rest => droppedAt (token :: rest) || dropsModifier rest

-- The star of `int *x<>`, before the semicolon of a field.
example : dropsModifier [.keyword .int, .symbol '*', .identifier "x", .symbol '<', .symbol '>',
    .symbol ';'] = true := by
  decide +kernel

/-- No modifier that the parser drops starts in `used`, if `rest` follows. -/
def Keeps : List Token → List Token → Prop
  | [], _ => True
  | token :: used, rest => droppedAt (token :: used ++ rest) = false ∧ Keeps used rest

/-- Two pieces lose no modifier exactly if each does not before what follows it. -/
theorem keeps_append {used more rest : List Token} :
    Keeps (used ++ more) rest ↔ Keeps used (more ++ rest) ∧ Keeps more rest := by
  induction used with
  | nil => simp [Keeps]
  | cons token used ih => simp [Keeps, ih, and_assoc]

/-- Tokens by themselves lose no modifier exactly if none of them is dropped. -/
theorem keeps_nil_iff {tokens : List Token} : Keeps tokens [] ↔ dropsModifier tokens = false := by
  induction tokens with
  | nil => simp [Keeps, dropsModifier]
  | cons token rest ih => simp [Keeps, dropsModifier, ih]

/-- The tokens at which a modifier that the parser drops starts. -/
def Token.Suspect (token : Token) : Prop :=
  token = .symbol '*' ∨ token = .symbol ']' ∨ token = .symbol '>'

/-- Only the symbols a modifier ends with are suspect. -/
@[simp] theorem suspect_symbol {c : Char} : (Token.symbol c).Suspect ↔ c = '*' ∨ c = ']' ∨
    c = '>' := by
  simp [Token.Suspect]

/-- Where no suspect token stands, no modifier is dropped. -/
theorem droppedAt_of_not_suspect {token : Token} {rest : List Token} (h : ¬ token.Suspect) :
    droppedAt (token :: rest) = false := by
  unfold droppedAt
  split <;> simp_all [Token.Suspect]

/-- Tokens that are not suspect lose no modifier. -/
theorem keeps_plain {used rest : List Token} (h : ∀ token ∈ used, ¬ token.Suspect) :
    Keeps used rest := by
  induction used with
  | nil => trivial
  | cons token used ih =>
    refine ⟨droppedAt_of_not_suspect (h token List.mem_cons_self), ih fun t ht => ?_⟩
    exact h t (List.mem_cons_of_mem _ ht)

/-- A keyword is not suspect. -/
@[simp] theorem keyword_not_suspect {keyword : Keyword} : ¬ (Token.keyword keyword).Suspect := by
  simp [Token.Suspect]

/-- An identifier is not suspect. -/
@[simp] theorem identifier_not_suspect {name : String} : ¬ (Token.identifier name).Suspect := by
  simp [Token.Suspect]

/-- A value is not suspect. -/
@[simp] theorem value_not_suspect {value : ValueExpr} : ¬ value.token.Suspect := by
  cases value <;> simp [Token.Suspect, ValueExpr.token]

/-- The end of the source is not suspect. -/
@[simp] theorem eof_not_suspect : ¬ Token.eof.Suspect := by simp [Token.Suspect]

/-- A number is not suspect. -/
@[simp] theorem u32_not_suspect {number : UInt32} : ¬ (u32Token number).Suspect := by
  simp [Token.Suspect, u32Token]

/-! ## The spellings in full keep their modifiers -/

/-- A list loses no modifier if its members do not. -/
theorem Listed.keeps {α : Type} {R : α → List Token → Prop} {items : List α} {used : List Token}
    (h : Listed R items used) (hR : ∀ item piece, R item piece → ∀ rest, Keeps piece rest)
    (rest : List Token) : Keeps used rest := by
  induction h with
  | nil => trivial
  | cons head tail ih => exact keeps_append.mpr ⟨hR _ _ head _, ih⟩

/-- A declarator keeps its modifier before a semicolon, and before the parenthesis and the brace of
a union. -/
theorem Declarator.Spelled.keeps {d : Declarator} {used rest : List Token}
    (h : d.Spelled False used)
    (hrest : (∃ more, rest = .symbol ';' :: more) ∨
      ∃ more, rest = .symbol ')' :: .symbol '{' :: more) : Keeps used rest := by
  rcases h with name | name | ⟨name, hbrackets⟩ | ⟨name, hlossy, -⟩
  · exact keeps_plain (by simp)
  · obtain ⟨more, rfl⟩ | ⟨more, rfl⟩ := hrest <;> exact ⟨rfl, rfl, trivial⟩
  · have hbound {bound : ValueExpr} {rest : List Token} :
        droppedAt (bound.token :: rest) = false := droppedAt_of_not_suspect value_not_suspect
    rcases hbrackets with bound | _ | bound
    · obtain ⟨more, rfl⟩ | ⟨more, rfl⟩ := hrest <;> exact ⟨rfl, rfl, hbound, rfl, trivial⟩
    · obtain ⟨more, rfl⟩ | ⟨more, rfl⟩ := hrest <;> exact ⟨rfl, rfl, rfl, trivial⟩
    · obtain ⟨more, rfl⟩ | ⟨more, rfl⟩ := hrest <;> exact ⟨rfl, rfl, hbound, rfl, trivial⟩
  · exact hlossy.elim

section Layer

variable {R : TypeSpec → List Token → Prop}
  (hR : ∀ type used, R type used → ∀ rest, Keeps used rest)

include hR

/-- A declaration loses no modifier before a semicolon or the body of a switch. -/
theorem Declaration.Spelled.keeps {declaration : Declaration} {used rest : List Token}
    (h : declaration.Spelled False R used)
    (hrest : (∃ more, rest = .symbol ';' :: more) ∨
      ∃ more, rest = .symbol ')' :: .symbol '{' :: more) : Keeps used rest := by
  rcases h with hbase | ⟨hbase, hdeclared⟩
  · exact hR _ _ hbase _
  · exact keeps_append.mpr ⟨hR _ _ hbase _, hdeclared.keeps hrest⟩

/-- A field loses no modifier. -/
theorem Declaration.Field.keeps {declaration : Declaration} {used : List Token}
    (h : declaration.Field False R used) (rest : List Token) : Keeps used rest := by
  obtain ⟨hspelled⟩ := h
  exact keeps_append.mpr ⟨hspelled.keeps hR (.inl ⟨_, rfl⟩), keeps_plain (by simp)⟩

omit hR in
/-- The body of an enumeration loses no modifier. -/
theorem EnumBody.Spelled.keeps {body : EnumBody} {used : List Token} (h : body.Spelled used)
    (rest : List Token) : Keeps used rest := by
  obtain ⟨hlisted⟩ := h
  refine keeps_append.mpr ⟨⟨rfl, hlisted.keeps ?_ _⟩, keeps_plain (by simp)⟩
  rintro _ _ (⟨name, value⟩ | ⟨name, value⟩) rest
  · exact keeps_plain (by simp)
  · exact keeps_plain (by simp)

/-- The body of a structure loses no modifier. -/
theorem StructBody.Spelled.keeps {body : StructBody} {used : List Token}
    (h : body.Spelled False R used) (rest : List Token) : Keeps used rest := by
  obtain ⟨hlisted⟩ := h
  exact keeps_append.mpr ⟨⟨rfl, hlisted.keeps (fun _ _ h rest => h.keeps hR rest) _⟩,
    keeps_plain (by simp)⟩

/-- An arm of a union loses no modifier. -/
theorem UnionArm.Spelled.keeps {arm : UnionArm} {used : List Token} (h : arm.Spelled False R used)
    (rest : List Token) : Keeps used rest := by
  obtain ⟨-, hlabels, hfield⟩ := h
  refine keeps_append.mpr ⟨hlabels.keeps ?_ _, hfield.keeps hR rest⟩
  rintro _ _ (value | _) rest
  · exact keeps_plain (by simp)
  · exact keeps_plain (by simp)

/-- The body of a union loses no modifier. -/
theorem UnionBody.Spelled.keeps {body : UnionBody} {used : List Token}
    (h : body.Spelled False R used) (rest : List Token) : Keeps used rest := by
  obtain ⟨hswitched, hlisted⟩ := h
  have harms := hlisted.keeps (fun _ _ h rest => h.keeps hR rest)
  simp only [keeps_append, List.append_assoc]
  exact ⟨keeps_plain (by simp), hswitched.keeps hR (.inr ⟨_, rfl⟩), keeps_plain (by simp), harms _,
    keeps_plain (by simp)⟩

/-- A type loses no modifier if the types inside it do not. -/
theorem TypeSpec.Layer.keeps {type : TypeSpec} {used : List Token}
    (h : type.Layer False R used) (rest : List Token) : Keeps used rest := by
  rcases h with _ | _ | _ | _ | _ | _ | _ | _ | _ | _ | _ | name | ⟨name, -⟩ | hbody | hbody | hbody
  any_goals
    refine keeps_plain ?_
    simp
    done
  · exact ⟨rfl, hbody.keeps rest⟩
  · exact ⟨rfl, hbody.keeps hR rest⟩
  · exact ⟨rfl, hbody.keeps hR rest⟩

/-- A procedure spelled in full loses no modifier. -/
theorem ProcedureDecl.Spelled.keeps {decl : ProcedureDecl} {used : List Token}
    (h : decl.Spelled False R used) (rest : List Token) : Keeps used rest := by
  obtain @⟨returnType, argumentType, result, argument, name, number, hresult, hpassed⟩ := h
  have hargument : ∀ rest, Keeps argument rest := by
    intro rest
    rcases hpassed with _ | ⟨hbase, -⟩ | ⟨name, hbase, -⟩ | ⟨hlossy, -⟩
    · exact keeps_plain (by simp)
    · exact hR _ _ hbase rest
    · exact keeps_append.mpr ⟨hR _ _ hbase _, keeps_plain (by simp)⟩
    · exact hlossy.elim
  simp only [keeps_append, List.append_assoc]
  exact ⟨hR _ _ hresult _, keeps_plain (by simp), hargument _, keeps_plain (by simp)⟩

/-- A version spelled in full loses no modifier. -/
theorem VersionDecl.Spelled.keeps {decl : VersionDecl} {used : List Token}
    (h : decl.Spelled False R used) (rest : List Token) : Keeps used rest := by
  obtain ⟨name, number, hlisted⟩ := h
  have hprocedures := hlisted.keeps (fun _ _ h rest => h.keeps hR rest)
  simp only [keeps_append, List.append_assoc]
  exact ⟨keeps_plain (by simp), hprocedures _, keeps_plain (by simp)⟩

/-- A program spelled in full loses no modifier. -/
theorem ProgramDecl.Spelled.keeps {decl : ProgramDecl} {used : List Token}
    (h : decl.Spelled False R used) (rest : List Token) : Keeps used rest := by
  obtain ⟨name, number, hlisted⟩ := h
  have hversions := hlisted.keeps (fun _ _ h rest => h.keeps hR rest)
  simp only [keeps_append, List.append_assoc]
  exact ⟨keeps_plain (by simp), hversions _, keeps_plain (by simp)⟩

/-- An item spelled in full loses no modifier. -/
theorem Item.Spelled.keeps {item : Item} {used : List Token} (h : item.Spelled False R used)
    (rest : List Token) : Keeps used rest := by
  rcases h with ⟨name, value⟩ | ⟨hbase, hdeclared⟩ | ⟨name, hbody⟩ | ⟨name, hbody⟩ | ⟨name, hbody⟩ |
    hprogram
  · exact keeps_plain (by simp)
  · simp only [List.append_assoc, List.cons_append]
    exact ⟨rfl, keeps_append.mpr ⟨hR _ _ hbase _, keeps_append.mpr
      ⟨hdeclared.keeps (.inl ⟨_, rfl⟩), keeps_plain (by simp)⟩⟩⟩
  · simp only [keeps_append, List.append_assoc]
    exact ⟨keeps_plain (by simp), hbody.keeps hR _, keeps_plain (by simp)⟩
  · simp only [keeps_append, List.append_assoc]
    exact ⟨keeps_plain (by simp), hbody.keeps _, keeps_plain (by simp)⟩
  · simp only [keeps_append, List.append_assoc]
    exact ⟨keeps_plain (by simp), hbody.keeps hR _, keeps_plain (by simp)⟩
  · exact hprogram.keeps hR rest

end Layer

/-- A type spelled in full loses no modifier. -/
theorem TypeSpec.Spelled.keeps (depth : ℕ) (type : TypeSpec) (used : List Token)
    (h : type.Spelled False depth used) (rest : List Token) : Keeps used rest := by
  induction depth generalizing type used rest with
  | zero => exact h.elim
  | succ depth ih => exact TypeSpec.Layer.keeps ih h rest

/-- A schema that is spelled in full has no modifier that the parser drops. -/
theorem Schema.Spelled.not_dropsModifier {schema : Schema} {tokens : List Token}
    (h : schema.Spelled False tokens) : dropsModifier tokens = false := by
  obtain ⟨depth, used, hlisted, rfl⟩ := h
  have hkeeps := hlisted.keeps fun _ _ h rest => h.keeps (TypeSpec.Spelled.keeps depth) rest
  exact keeps_nil_iff.mp (keeps_append.mpr ⟨hkeeps _, keeps_plain (by simp)⟩)

/-! ## The spellings that keep their modifiers are full -/

/-- The members of a list that loses no modifier are spelled in full. -/
theorem Listed.full {α : Type} {R S : α → List Token → Prop} {items : List α}
    {used rest : List Token} (h : Listed R items used) (hRS : ∀ item piece rest, R item piece →
      Keeps piece rest → S item piece)
    (hkeeps : Keeps used rest) : Listed S items used := by
  induction h with
  | nil => exact .nil
  | cons head tail ih =>
    obtain ⟨hhead, htail⟩ := keeps_append.mp hkeeps
    exact .cons (hRS _ _ _ head hhead) (ih htail)

/-- A declarator that loses no modifier is spelled in full. -/
theorem Declarator.Spelled.full {d : Declarator} {used rest : List Token} (h : d.Spelled True used)
    (hkeeps : Keeps used rest) : d.Spelled False used := by
  rcases h with name | name | ⟨name, hbrackets⟩ | ⟨name, -, hbrackets⟩
  · exact .plain name
  · exact .optional name
  · exact .array name hbrackets
  · exfalso
    rcases hbrackets with bound | _ | bound
    all_goals exact Bool.false_ne_true hkeeps.1.symm

/-- A parameter with a modifier is dropped. -/
theorem not_keeps_parameter {d : Declarator} {used rest : List Token} (h : d.Spelled True used)
    (hmodifier : d.modifier ≠ none) : ¬ Keeps used (.symbol ')' :: .symbol '=' :: rest) := by
  intro hkeeps
  rcases h with name | name | ⟨name, hbrackets⟩ | ⟨name, -, hbrackets⟩
  · exact hmodifier rfl
  · exact Bool.false_ne_true hkeeps.1.symm
  -- the bracket before the parenthesis
  · rcases hbrackets with bound | _ | bound
    · exact Bool.false_ne_true hkeeps.2.2.2.1.symm
    · exact Bool.false_ne_true hkeeps.2.2.1.symm
    · exact Bool.false_ne_true hkeeps.2.2.2.1.symm
  · rcases hbrackets with bound | _ | bound
    all_goals exact Bool.false_ne_true hkeeps.1.symm

section Layer

variable {R S : TypeSpec → List Token → Prop}
  (hRS : ∀ type used rest, R type used → Keeps used rest → S type used)

include hRS

/-- A declaration that loses no modifier is spelled in full. -/
theorem Declaration.Spelled.full {declaration : Declaration} {used rest : List Token}
    (h : declaration.Spelled True R used) (hkeeps : Keeps used rest) :
    declaration.Spelled False S used := by
  rcases h with hbase | ⟨hbase, hdeclared⟩
  · exact .void (hRS _ _ _ hbase hkeeps)
  · obtain ⟨hleft, hright⟩ := keeps_append.mp hkeeps
    exact .named (hRS _ _ _ hbase hleft) (hdeclared.full hright)

/-- A field that loses no modifier is spelled in full. -/
theorem Declaration.Field.full {declaration : Declaration} {used rest : List Token}
    (h : declaration.Field True R used) (hkeeps : Keeps used rest) :
    declaration.Field False S used := by
  obtain ⟨hspelled⟩ := h
  exact .mk (hspelled.full hRS (keeps_append.mp hkeeps).1)

/-- The body of a structure that loses no modifier is spelled in full. -/
theorem StructBody.Spelled.full {body : StructBody} {used rest : List Token}
    (h : body.Spelled True R used) (hkeeps : Keeps used rest) : body.Spelled False S used := by
  obtain ⟨hlisted⟩ := h
  exact .mk (hlisted.full (fun _ _ _ h => h.full hRS) (keeps_append.mp hkeeps).1.2)

/-- An arm that loses no modifier is spelled in full. -/
theorem UnionArm.Spelled.full {arm : UnionArm} {used rest : List Token}
    (h : arm.Spelled True R used) (hkeeps : Keeps used rest) : arm.Spelled False S used := by
  obtain ⟨hsome, hlabels, hfield⟩ := h
  exact .mk hsome hlabels (hfield.full hRS (keeps_append.mp hkeeps).2)

/-- The body of a union that loses no modifier is spelled in full. -/
theorem UnionBody.Spelled.full {body : UnionBody} {used rest : List Token}
    (h : body.Spelled True R used) (hkeeps : Keeps used rest) : body.Spelled False S used := by
  obtain ⟨hswitched, hlisted⟩ := h
  simp only [keeps_append] at hkeeps
  obtain ⟨⟨⟨⟨-, hdiscriminant⟩, -⟩, harms⟩, -⟩ := hkeeps
  exact .mk (hswitched.full hRS hdiscriminant)
    (hlisted.full (fun _ _ _ h => h.full hRS) harms)

/-- A type that loses no modifier is spelled in full, up to the types inside it. -/
theorem TypeSpec.Layer.full {type : TypeSpec} {used rest : List Token}
    (h : type.Layer True R used) (hkeeps : Keeps used rest) : type.Layer False S used := by
  rcases h with _ | _ | _ | _ | _ | _ | _ | _ | _ | _ | _ | name | ⟨name, htag⟩ | hbody | hbody |
    hbody
  any_goals constructor
  · exact htag
  · exact hbody
  · exact hbody.full hRS hkeeps.2
  · exact hbody.full hRS hkeeps.2

/-- An argument type that loses no modifier is spelled in full. -/
theorem TypeSpec.Argument.full {type : TypeSpec} {used rest : List Token}
    (h : type.Argument True R used) (hkeeps : Keeps used (.symbol ')' :: .symbol '=' :: rest)) :
    type.Argument False S used := by
  rcases h with _ | ⟨hbase, htyped⟩ | ⟨name, hbase, htyped⟩ | ⟨-, -, -, hmodifier, hdeclared⟩
  · exact .void
  · exact .bare (hRS _ _ _ hbase hkeeps) htyped
  · exact .named name (hRS _ _ _ hbase (keeps_append.mp hkeeps).1) htyped
  · exact absurd (keeps_append.mp hkeeps).2 (not_keeps_parameter hdeclared hmodifier)

/-- A procedure that loses no modifier is spelled in full. -/
theorem ProcedureDecl.Spelled.full {decl : ProcedureDecl} {used rest : List Token}
    (h : decl.Spelled True R used) (hkeeps : Keeps used rest) : decl.Spelled False S used := by
  obtain ⟨name, number, hresult, hpassed⟩ := h
  simp only [keeps_append] at hkeeps
  obtain ⟨⟨⟨hreturn, -⟩, hargument⟩, -⟩ := hkeeps
  exact .mk name number (hRS _ _ _ hresult hreturn) (hpassed.full hRS hargument)

/-- A version that loses no modifier is spelled in full. -/
theorem VersionDecl.Spelled.full {decl : VersionDecl} {used rest : List Token}
    (h : decl.Spelled True R used) (hkeeps : Keeps used rest) : decl.Spelled False S used := by
  obtain ⟨name, number, hlisted⟩ := h
  simp only [keeps_append] at hkeeps
  exact .mk name number (hlisted.full (fun _ _ _ h => h.full hRS) hkeeps.1.2)

/-- A program that loses no modifier is spelled in full. -/
theorem ProgramDecl.Spelled.full {decl : ProgramDecl} {used rest : List Token}
    (h : decl.Spelled True R used) (hkeeps : Keeps used rest) : decl.Spelled False S used := by
  obtain ⟨name, number, hlisted⟩ := h
  simp only [keeps_append] at hkeeps
  exact .mk name number (hlisted.full (fun _ _ _ h => h.full hRS) hkeeps.1.2)

/-- An item that loses no modifier is spelled in full. -/
theorem Item.Spelled.full {item : Item} {used rest : List Token} (h : item.Spelled True R used)
    (hkeeps : Keeps used rest) : item.Spelled False S used := by
  rcases h with ⟨name, value⟩ | ⟨hbase, hdeclared⟩ | ⟨name, hbody⟩ | ⟨name, hbody⟩ | ⟨name, hbody⟩ |
    hprogram
  · exact .const name value
  · obtain ⟨hleft, hright⟩ := keeps_append.mp (keeps_append.mp hkeeps).1
    exact .typedef (hRS _ _ _ hbase hleft.2) (hdeclared.full hright)
  · exact .struct name (hbody.full hRS (keeps_append.mp (keeps_append.mp hkeeps).1).2)
  · exact .enum name hbody
  · exact .union name (hbody.full hRS (keeps_append.mp (keeps_append.mp hkeeps).1).2)
  · exact .program (hprogram.full hRS hkeeps)

end Layer

/-- A type that loses no modifier is spelled in full. -/
theorem TypeSpec.Spelled.full (depth : ℕ) (type : TypeSpec) (used rest : List Token)
    (h : type.Spelled True depth used) (hkeeps : Keeps used rest) :
    type.Spelled False depth used := by
  induction depth generalizing type used rest with
  | zero => exact h.elim
  | succ depth ih => exact TypeSpec.Layer.full ih h hkeeps

/-- A spelling without a modifier that the parser drops spells the schema in full. -/
theorem Schema.Spelled.full {schema : Schema} {tokens : List Token} (h : schema.Spelled True tokens)
    (hkeeps : dropsModifier tokens = false) : schema.Spelled False tokens := by
  obtain ⟨depth, used, hlisted, rfl⟩ := h
  have hused := (keeps_append.mp (keeps_nil_iff.mpr hkeeps)).1
  exact ⟨depth, used, hlisted.full (fun _ _ _ h => h.full (TypeSpec.Spelled.full depth)) hused, rfl⟩

/-! ## Token lists with the same schema -/

/-- Two lists of tokens that differ only in what the grammar leaves to the writer: commas of
enumerations, keywords before the names of types, bases of numbers, and names of parameters.  Both
spell one schema, and with it every modifier that stands in either. -/
def SpellAlike (first second : List Token) : Prop :=
  ∃ schema : Schema, schema.Spelled False first ∧ schema.Spelled False second

/-- Two sources that are read as the same schema differ only in what the grammar leaves to the
writer exactly if neither has a star before the name of an array or a modifier on a parameter. -/
theorem parser_lossless (source₁ source₂ : String) (tokens₁ tokens₂ : List Token) (schema : Schema)
    (hsource₁ : sourceTokens source₁.toList = .ok tokens₁)
    (hsource₂ : sourceTokens source₂.toList = .ok tokens₂)
    (hread₁ : parseSchema tokens₁ = some (.ok schema))
    (hread₂ : parseSchema tokens₂ = some (.ok schema)) :
    SpellAlike tokens₁ tokens₂ ↔ dropsModifier tokens₁ = false ∧ dropsModifier tokens₂ = false := by
  constructor
  · rintro ⟨schema', hfirst, hsecond⟩
    exact ⟨hfirst.not_dropsModifier, hsecond.not_dropsModifier⟩
  · rintro ⟨hfirst, hsecond⟩
    have hspelled₁ := spelled_of_parseSchema (ended_of_sourceTokens hsource₁) hread₁
    have hspelled₂ := spelled_of_parseSchema (ended_of_sourceTokens hsource₂) hread₂
    exact ⟨schema, hspelled₁.full hfirst, hspelled₂.full hsecond⟩

/-- A program whose procedure takes an integer. -/
def callSchema : Schema := ⟨[.program ⟨"P", [⟨"V", [⟨.void, "F", .int, 1⟩], 1⟩], 1⟩]⟩

/-- The tokens of the program, with those of the parameter behind its type. -/
def callTokens (parameter : List Token) : List Token :=
  [.keyword .program, .identifier "P", .symbol '{', .keyword .version, .identifier "V", .symbol '{',
    .keyword .void, .identifier "F", .symbol '(', .keyword .int] ++ parameter ++
    [.symbol ')', .symbol '=', .number 1, .symbol ';', .symbol '}', .symbol '=', .number 1,
      .symbol ';', .symbol '}', .symbol '=', .number 1, .symbol ';', .eof]

/-- A parameter that spells an integer spells the program. -/
theorem parseSchema_callTokens {parameter : List Token}
    (h : TypeSpec.Argument True (TypeSpec.Spelled True 1) .int (.keyword .int :: parameter)) :
    parseSchema (callTokens parameter) = some (.ok callSchema) := by
  refine parseSchema_of_spelled ⟨1, _, .cons (.program (.mk "P" 1 (.cons (.mk "V" 1 (.cons
    (.mk "F" 1 .void h) .nil)) .nil))) .nil, ?_⟩
  simp [callTokens, u32Token]

/-- A type with a name behind it is an argument. -/
theorem argument_named (name : String) :
    TypeSpec.Argument True (TypeSpec.Spelled True 1) .int [.keyword .int, .identifier name] :=
  @TypeSpec.Argument.named True _ .int [.keyword .int] name TypeSpec.Layer.int (by simp)

/-- The program with its parameter named, and without. -/
theorem parser_lossless_call :
    sourceTokens "program P \x7b version V \x7b void F(int x) = 1; \x7d = 1; \x7d = 1;".toList =
      .ok (callTokens [.identifier "x"]) ∧
    sourceTokens "program P \x7b version V \x7b void F(int) = 1; \x7d = 1; \x7d = 1;".toList =
      .ok (callTokens []) ∧
    SpellAlike (callTokens [.identifier "x"]) (callTokens []) := by
  have hnamed : sourceTokens
      "program P \x7b version V \x7b void F(int x) = 1; \x7d = 1; \x7d = 1;".toList =
      .ok (callTokens [.identifier "x"]) := by
    rw [toList_of_eq rfl]
    decide +kernel
  have hbare : sourceTokens
      "program P \x7b version V \x7b void F(int) = 1; \x7d = 1; \x7d = 1;".toList =
      .ok (callTokens []) := by
    rw [toList_of_eq rfl]
    decide +kernel
  refine ⟨hnamed, hbare, (parser_lossless _ _ _ _ callSchema hnamed hbare ?_ ?_).mpr
    ⟨by decide, by decide⟩⟩
  · exact parseSchema_callTokens (argument_named "x")
  · exact parseSchema_callTokens (.bare TypeSpec.Layer.int (by simp))

/-- A procedure that takes a list of integers is read as one that takes an integer. -/
theorem parser_drops_parameter_modifier :
    sourceTokens "program P \x7b version V \x7b void F(int x) = 1; \x7d = 1; \x7d = 1;".toList =
      .ok (callTokens [.identifier "x"]) ∧
    sourceTokens "program P \x7b version V \x7b void F(int x<5>) = 1; \x7d = 1; \x7d = 1;".toList =
      .ok (callTokens [.identifier "x", .symbol '<', .number 5, .symbol '>']) ∧
    parseSchema (callTokens [.identifier "x"]) = some (.ok callSchema) ∧
    parseSchema (callTokens [.identifier "x", .symbol '<', .number 5, .symbol '>']) =
      some (.ok callSchema) ∧
    ¬ SpellAlike (callTokens [.identifier "x"])
      (callTokens [.identifier "x", .symbol '<', .number 5, .symbol '>']) := by
  refine ⟨?_, ?_, parseSchema_callTokens (argument_named "x"), parseSchema_callTokens ?_, ?_⟩
  · rw [toList_of_eq rfl]
    decide +kernel
  · rw [toList_of_eq rfl]
    decide +kernel
  · exact @TypeSpec.Argument.modified True _ .int ⟨"x", _⟩ [.keyword .int] _ trivial
      TypeSpec.Layer.int (by simp) (by simp) (.array "x" (.bounded (.number 5)))
  · rintro ⟨schema, -, hspelled⟩
    exact absurd hspelled.not_dropsModifier (by decide)

end OncRpc
