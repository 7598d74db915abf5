import OncRpc.Gen.Lexer

/-!
# The parser of the interface language

A recursive descent over the tokens.  The state of the parser is the list of tokens it has not taken
yet.  A parser gives no result at all if it looks past the last token, or if it runs out of the fuel
that bounds how deep types may nest; `parseXSource_isSome` shows that neither happens to a source
file.
-/

namespace OncRpc

/-- A parser: a result or an error, and the tokens that are left. -/
def TokenParser (α : Type) : Type := List Token → Option (Except GeneratorError (α × List Token))

namespace TokenParser

/-- Give a value without looking at a token. -/
protected def pure {α : Type} (a : α) : TokenParser α := fun tokens => some (.ok (a, tokens))

/-- One parser after another; an error is the last thing that happens. -/
protected def bind {α β : Type} (p : TokenParser α) (f : α → TokenParser β) : TokenParser β :=
  fun tokens =>
    match p tokens with
    | none => none
    | some (.error e) => some (.error e)
    | some (.ok (a, rest)) => f a rest

instance : Monad TokenParser where
  pure := TokenParser.pure
  bind := TokenParser.bind

/-- Fail. -/
def fail {α : Type} (text : String) : TokenParser α := fun _ => some (.error (.parse text))

/-! ## Tokens -/

/-- The next token, which stays. -/
def peek : TokenParser Token
  | [] => none
  | token :: rest => some (.ok (token, token :: rest))

/-- The token after the next. -/
def peekSecond : TokenParser Token
  | first :: second :: rest => some (.ok (second, first :: second :: rest))
  | _ => none

/-- Take the next token. -/
def next : TokenParser Token
  | [] => none
  | token :: rest => some (.ok (token, rest))

end TokenParser

/-- The name of a keyword in an error. -/
def Keyword.debug : Keyword → String
  | .bool => "Bool"
  | .case => "Case"
  | .const => "Const"
  | .default => "Default"
  | .double => "Double"
  | .enum => "Enum"
  | .float => "Float"
  | .hyper => "Hyper"
  | .int => "Int"
  | .opaqueData => "Opaque"
  | .program => "Program"
  | .quadruple => "Quadruple"
  | .string => "String"
  | .struct => "Struct"
  | .switch => "Switch"
  | .typedef => "Typedef"
  | .union => "Union"
  | .unsigned => "Unsigned"
  | .version => "Version"
  | .void => "Void"

/-- A token in an error. -/
def Token.debug : Token → String
  | .keyword word => "Keyword(" ++ word.debug ++ ")"
  | .identifier name => "Identifier(\"" ++ name ++ "\")"
  | .number value => "Number(" ++ toString value ++ ")"
  | .symbol c => "Symbol('" ++ c.toString ++ "')"
  | .eof => "Eof"

open TokenParser

/-- Take a keyword. -/
def expectKeyword (keyword : Keyword) : TokenParser Unit := do
  let token ← next
  if token = .keyword keyword then return ()
  else fail ("expected keyword " ++ keyword.debug ++ ", got " ++ token.debug)

/-- Take an identifier. -/
def expectIdentifier : TokenParser String := do
  match ← next with
  | .identifier name => return name
  | other => fail ("expected identifier, got " ++ other.debug)

/-- Take a symbol. -/
def expectSymbol (symbol : Char) : TokenParser Unit := do
  let token ← next
  if token = .symbol symbol then return ()
  else fail ("expected symbol '" ++ symbol.toString ++ "', got " ++ token.debug)

/-- Take a number that fits in 32 bits. -/
def expectU32 : TokenParser UInt32 := do
  let token ← next
  match token with
  | .number value =>
    if 0 ≤ value ∧ value < 2 ^ 32 then return UInt32.ofNat value.toNat
    else fail ("expected non-negative integer that fits in u32, got " ++ token.debug)
  | other => fail ("expected non-negative integer that fits in u32, got " ++ other.debug)

/-- Take a symbol if it is the next token. -/
def consumeSymbol (symbol : Char) : TokenParser Bool := do
  if (← peek) = .symbol symbol then
    let _ ← next
    return true
  else return false

/-! ## Loops -/

/-- Take items up to a closing brace. -/
def untilBraceLoop {α : Type} (p : TokenParser α) : Nat → TokenParser (List α)
  | 0 => fun _ => none
  | fuel + 1 => do
    if ← consumeSymbol '}' then return []
    else
      let item ← p
      let items ← untilBraceLoop p fuel
      return item :: items

/-- Take items up to a closing brace, each of at least one token. -/
def untilBrace {α : Type} (p : TokenParser α) : TokenParser (List α) :=
  fun tokens => untilBraceLoop p tokens.length tokens

/-! ## Declarations -/

/-- A number or the name of a constant. -/
def parseValueExpr : TokenParser ValueExpr := do
  match ← next with
  | .number value => return .number value
  | .identifier name => return .identifier name
  | other => fail ("unexpected token in value expression: " ++ other.debug)

/-- What follows the name of a declarator.  The flag says whether a star stands before the name. -/
def parseModifier (optional : Bool) : TokenParser (Option DeclaratorModifier) := do
  if ← consumeSymbol '[' then
    let bound ← parseValueExpr
    expectSymbol ']'
    return some (.fixedArray bound)
  else if ← consumeSymbol '<' then
    if ← consumeSymbol '>' then return some (.variableArray none)
    else
      let bound ← parseValueExpr
      expectSymbol '>'
      return some (.variableArray (some bound))
  else if optional then return some .optional
  else return none

/-- A name and what it makes of a type. -/
def parseDeclarator : TokenParser Declarator := do
  let optional ← consumeSymbol '*'
  let name ← expectIdentifier
  let modifier ← parseModifier optional
  return ⟨name, modifier⟩

/-- A variant of an enumeration, and the comma after it. -/
def parseEnumVariant : TokenParser EnumVariant := do
  let name ← expectIdentifier
  expectSymbol '='
  let value ← parseValueExpr
  let _ ← consumeSymbol ','
  return ⟨name, value⟩

/-- The body of an enumeration. -/
def parseEnumBody : TokenParser EnumBody := do
  expectSymbol '{'
  let variants ← untilBrace parseEnumVariant
  return ⟨variants⟩

/-- The labels of a union arm. -/
def parseLabelsLoop : Nat → TokenParser (List UnionCaseLabel)
  | 0 => fun _ => none
  | fuel + 1 => do
    match ← peek with
    | .keyword .case =>
      let _ ← next
      let value ← parseValueExpr
      expectSymbol ':'
      let labels ← parseLabelsLoop fuel
      return .case value :: labels
    | .keyword .default =>
      let _ ← next
      expectSymbol ':'
      let labels ← parseLabelsLoop fuel
      return .default :: labels
    | _ => return []

/-- The labels of a union arm, each of at least two tokens. -/
def parseLabels : TokenParser (List UnionCaseLabel) :=
  fun tokens => parseLabelsLoop tokens.length tokens

/-! ## Types

What stands inside a type is read by the parser `typeSpec`, which is that for types again. -/

section Types

variable (typeSpec : TokenParser TypeSpec)

/-- A declaration. -/
def parseDeclaration : TokenParser Declaration := do
  let type ← typeSpec
  match type with
  | .void =>
    let token ← peek
    if token = .symbol ';' ∨ token = .symbol ')' then return ⟨.void, "", none⟩
    else
      let declarator ← parseDeclarator
      return ⟨.void, declarator⟩
  | type =>
    let declarator ← parseDeclarator
    return ⟨type, declarator⟩

/-- A declaration and the semicolon after it. -/
def parseField : TokenParser Declaration := do
  let declaration ← parseDeclaration typeSpec
  expectSymbol ';'
  return declaration

/-- The body of a structure. -/
def parseStructBody : TokenParser StructBody := do
  expectSymbol '{'
  let declarations ← untilBrace (parseField typeSpec)
  return ⟨declarations⟩

/-- An arm of a union. -/
def parseUnionArm : TokenParser UnionArm := do
  let labels ← parseLabels
  if labels = [] then fail "expected case or default label in union arm"
  else
    let declaration ← parseDeclaration typeSpec
    expectSymbol ';'
    return ⟨labels, declaration⟩

/-- The body of a union. -/
def parseUnionBody : TokenParser UnionBody := do
  expectKeyword .switch
  expectSymbol '('
  let discriminant ← parseDeclaration typeSpec
  expectSymbol ')'
  expectSymbol '{'
  let arms ← untilBrace (parseUnionArm typeSpec)
  return ⟨discriminant, arms⟩

/-- What follows the keywords `enum`, `struct` and `union` in a type: the name of a type, unless
the token after the name is `opening`, or a body. -/
def parseNamedOr (opening : Token) (body : TokenParser TypeSpec) : TokenParser TypeSpec := do
  match ← peek with
  | .identifier name =>
    if (← peekSecond) ≠ opening then
      let _ ← next
      return .identifier name
    else body
  | _ => body

/-- A type specifier. -/
def parseTypeSpecWith : TokenParser TypeSpec := do
  match ← next with
  | .keyword .void => return .void
  | .keyword .bool => return .bool
  | .keyword .int => return .int
  | .keyword .hyper => return .hyper
  | .keyword .float => return .float
  | .keyword .double => return .double
  | .keyword .quadruple => return .quadruple
  | .keyword .opaqueData => return .opaqueData
  | .keyword .string => return .string
  | .keyword .unsigned =>
    match ← next with
    | .keyword .int => return .unsignedInt
    | .keyword .hyper => return .unsignedHyper
    | other => fail ("expected int or hyper after unsigned, got " ++ other.debug)
  | .identifier name => return .identifier name
  | .keyword .enum =>
    parseNamedOr (.symbol '{') do
      let body ← parseEnumBody
      return .enum body
  | .keyword .struct =>
    parseNamedOr (.symbol '{') do
      let body ← parseStructBody typeSpec
      return .struct body
  | .keyword .union =>
    parseNamedOr (.keyword .switch) do
      let body ← parseUnionBody typeSpec
      return .union body
  | .keyword other => fail ("unsupported keyword in type position: " ++ other.debug)
  | other => fail ("unexpected token in type position: " ++ other.debug)

end Types

/-- A type specifier of at most so many levels. -/
def parseTypeSpec : Nat → TokenParser TypeSpec
  | 0 => fun _ => none
  | fuel + 1 => parseTypeSpecWith (parseTypeSpec fuel)

/-! ## Items -/

section Items

variable (typeSpec : TokenParser TypeSpec)

/-- A constant. -/
def parseConst : TokenParser ConstDecl := do
  expectKeyword .const
  let name ← expectIdentifier
  expectSymbol '='
  let value ← parseValueExpr
  expectSymbol ';'
  return ⟨name, value⟩

/-- A type definition. -/
def parseTypedef : TokenParser TypedefDecl := do
  expectKeyword .typedef
  let target ← typeSpec
  let declarator ← parseDeclarator
  expectSymbol ';'
  return ⟨target, declarator⟩

/-- A keyword, a name, a body and a semicolon. -/
def parseNamed {α : Type} (keyword : Keyword) (body : TokenParser α) :
    TokenParser (String × α) := do
  expectKeyword keyword
  let name ← expectIdentifier
  let body ← body
  expectSymbol ';'
  return (name, body)

/-- A structure. -/
def parseNamedStruct : TokenParser (String × StructBody) :=
  parseNamed .struct (parseStructBody typeSpec)

/-- An enumeration. -/
def parseNamedEnum : TokenParser (String × EnumBody) := parseNamed .enum parseEnumBody

/-- A union. -/
def parseNamedUnion : TokenParser (String × UnionBody) :=
  parseNamed .union (parseUnionBody typeSpec)

/-- The type of the argument of a procedure.  The parameter may have a declarator, which is
dropped. -/
def parseProcedureArgumentType : TokenParser TypeSpec := do
  if (← peek) = .keyword .void then
    let _ ← next
    return .void
  else
    let argument ← typeSpec
    if (← peek) ≠ .symbol ')' then
      let _ ← parseDeclarator
      return argument
    else return argument

/-- A procedure. -/
def parseProcedure : TokenParser ProcedureDecl := do
  let returnType ← typeSpec
  let name ← expectIdentifier
  expectSymbol '('
  let argumentType ← parseProcedureArgumentType typeSpec
  expectSymbol ')'
  expectSymbol '='
  let number ← expectU32
  expectSymbol ';'
  return ⟨returnType, name, argumentType, number⟩

/-- A keyword, a name, the parts in braces, and a number. -/
def parseNumbered {α : Type} (keyword : Keyword) (part : TokenParser α) :
    TokenParser (String × List α × UInt32) := do
  expectKeyword keyword
  let name ← expectIdentifier
  expectSymbol '{'
  let parts ← untilBrace part
  expectSymbol '='
  let number ← expectU32
  expectSymbol ';'
  return (name, parts, number)

/-- A version. -/
def parseVersion : TokenParser VersionDecl := do
  let (name, procedures, number) ← parseNumbered .version (parseProcedure typeSpec)
  return ⟨name, procedures, number⟩

/-- A program. -/
def parseProgram : TokenParser ProgramDecl := do
  let (name, versions, number) ← parseNumbered .program (parseVersion typeSpec)
  return ⟨name, versions, number⟩

/-- An item. -/
def parseItem : TokenParser Item := do
  match ← peek with
  | .keyword .const =>
    let decl ← parseConst
    return .const decl
  | .keyword .typedef =>
    let decl ← parseTypedef typeSpec
    return .typedef decl
  | .keyword .struct =>
    let (name, body) ← parseNamedStruct typeSpec
    return .struct name body
  | .keyword .enum =>
    let (name, body) ← parseNamedEnum
    return .enum name body
  | .keyword .union =>
    let (name, body) ← parseNamedUnion typeSpec
    return .union name body
  | .keyword .program =>
    let decl ← parseProgram typeSpec
    return .program decl
  | other => fail ("unexpected top-level token " ++ other.debug)

/-- The items up to the end of the source. -/
def parseItems : Nat → TokenParser (List Item)
  | 0 => fun _ => none
  | fuel + 1 => do
    if (← peek) = .eof then return []
    else
      let item ← parseItem typeSpec
      let items ← parseItems fuel
      return item :: items

end Items

/-- The schema that a list of tokens is. -/
def parseSchema (tokens : List Token) : Option (Except GeneratorError Schema) :=
  (parseItems (parseTypeSpec tokens.length) tokens.length tokens).map
    fun result => result.map fun (items, _) => ⟨items⟩

/-- The schema of a source file. -/
def parseXSource (input : String) : Option (Except GeneratorError Schema) :=
  match sourceTokens input.toList with
  | .error e => some (.error e)
  | .ok tokens => parseSchema tokens

end OncRpc
