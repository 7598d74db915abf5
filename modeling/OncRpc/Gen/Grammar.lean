import OncRpc.Gen.Parser

/-!
# The grammar of the interface language

Which lists of tokens spell which syntax.  The grammar leaves the writer four choices that the
syntax does not show: whether a comma follows a variant of an enumeration, whether one of the
keywords `enum`, `struct` and `union` stands before the name of a type, the base of a number, which
the token of the number does not show either, and the name of the parameter of a procedure.

The parser lets a writer say more than that: a star before the name of an array, and a modifier on
the parameter of a procedure.  It drops both.  The flag `lossy` says whether the grammar has them.

Each production is stated over the spellings `R` of the types one level below.
-/

namespace OncRpc

/-- The token of a value. -/
def ValueExpr.token : ValueExpr → Token
  | .number value => .number value
  | .identifier name => .identifier name

/-- The spellings of the items of a list, one after the other. -/
inductive Listed {α : Type} (R : α → List Token → Prop) : List α → List Token → Prop where
  | nil : Listed R [] []
  | cons {item : α} {items : List α} {used more : List Token} (head : R item used)
      (tail : Listed R items more) : Listed R (item :: items) (used ++ more)

/-- The spellings of an array modifier. -/
inductive DeclaratorModifier.Brackets : DeclaratorModifier → List Token → Prop where
  | fixed (bound : ValueExpr) :
      Brackets (.fixedArray bound) [.symbol '[', bound.token, .symbol ']']
  | unbounded : Brackets (.variableArray none) [.symbol '<', .symbol '>']
  | bounded (bound : ValueExpr) :
      Brackets (.variableArray (some bound)) [.symbol '<', bound.token, .symbol '>']

/-- The spellings of a declarator. -/
inductive Declarator.Spelled (lossy : Prop) : Declarator → List Token → Prop where
  | plain (name : String) : Spelled lossy ⟨name, none⟩ [.identifier name]
  | optional (name : String) :
      Spelled lossy ⟨name, some .optional⟩ [.symbol '*', .identifier name]
  | array (name : String) {modifier : DeclaratorModifier} {used : List Token}
      (h : modifier.Brackets used) : Spelled lossy ⟨name, some modifier⟩ (.identifier name :: used)
  | starred (name : String) {modifier : DeclaratorModifier} {used : List Token} (dropped : lossy)
      (h : modifier.Brackets used) :
      Spelled lossy ⟨name, some modifier⟩ (.symbol '*' :: .identifier name :: used)

/-- The spellings of a variant of an enumeration. -/
inductive EnumVariant.Spelled : EnumVariant → List Token → Prop where
  | bare (name : String) (value : ValueExpr) :
      Spelled ⟨name, value⟩ [.identifier name, .symbol '=', value.token]
  | comma (name : String) (value : ValueExpr) :
      Spelled ⟨name, value⟩ [.identifier name, .symbol '=', value.token, .symbol ',']

/-- The spellings of the body of an enumeration. -/
inductive EnumBody.Spelled : EnumBody → List Token → Prop where
  | mk {variants : List EnumVariant} {used : List Token}
      (listed : Listed EnumVariant.Spelled variants used) :
      Spelled ⟨variants⟩ (.symbol '{' :: used ++ [.symbol '}'])

/-- The spellings of a label. -/
inductive UnionCaseLabel.Spelled : UnionCaseLabel → List Token → Prop where
  | case (value : ValueExpr) :
      Spelled (.case value) [.keyword .case, value.token, .symbol ':']
  | default : Spelled .default [.keyword .default, .symbol ':']

section Layer

variable (lossy : Prop) (R : TypeSpec → List Token → Prop)

/-- The spellings of a declaration.  A declaration of nothing may lack its name. -/
inductive Declaration.Spelled : Declaration → List Token → Prop where
  | void {used : List Token} (base : R .void used) : Spelled ⟨.void, "", none⟩ used
  | named {type : TypeSpec} {declarator : Declarator} {used more : List Token}
      (base : R type used) (declared : declarator.Spelled lossy more) :
      Spelled ⟨type, declarator⟩ (used ++ more)

/-- The spellings of a declaration and its semicolon. -/
inductive Declaration.Field : Declaration → List Token → Prop where
  | mk {declaration : Declaration} {used : List Token}
      (spelled : declaration.Spelled lossy R used) : Field declaration (used ++ [.symbol ';'])

/-- The spellings of the body of a structure. -/
inductive StructBody.Spelled : StructBody → List Token → Prop where
  | mk {declarations : List Declaration} {used : List Token}
      (listed : Listed (Declaration.Field lossy R) declarations used) :
      Spelled ⟨declarations⟩ (.symbol '{' :: used ++ [.symbol '}'])

/-- The spellings of an arm of a union. -/
inductive UnionArm.Spelled : UnionArm → List Token → Prop where
  | mk {labels : List UnionCaseLabel} {declaration : Declaration} {cases used : List Token}
      (some : labels ≠ []) (labelled : Listed UnionCaseLabel.Spelled labels cases)
      (field : declaration.Field lossy R used) : Spelled ⟨labels, declaration⟩ (cases ++ used)

/-- The spellings of the body of a union. -/
inductive UnionBody.Spelled : UnionBody → List Token → Prop where
  | mk {discriminant : Declaration} {arms : List UnionArm} {switched used : List Token}
      (spelled : discriminant.Spelled lossy R switched)
      (listed : Listed (UnionArm.Spelled lossy R) arms used) :
      Spelled ⟨discriminant, arms⟩
        ([.keyword .switch, .symbol '('] ++ switched ++ [.symbol ')', .symbol '{'] ++ used ++
          [.symbol '}'])

/-- The spellings of a type whose parts are spelled by `R`. -/
inductive TypeSpec.Layer : TypeSpec → List Token → Prop where
  | void : Layer .void [.keyword .void]
  | bool : Layer .bool [.keyword .bool]
  | int : Layer .int [.keyword .int]
  | hyper : Layer .hyper [.keyword .hyper]
  | float : Layer .float [.keyword .float]
  | double : Layer .double [.keyword .double]
  | quadruple : Layer .quadruple [.keyword .quadruple]
  | opaqueData : Layer .opaqueData [.keyword .opaqueData]
  | string : Layer .string [.keyword .string]
  | unsignedInt : Layer .unsignedInt [.keyword .unsigned, .keyword .int]
  | unsignedHyper : Layer .unsignedHyper [.keyword .unsigned, .keyword .hyper]
  | identifier (name : String) : Layer (.identifier name) [.identifier name]
  | tagged (name : String) {tag : Keyword} (h : tag = .enum ∨ tag = .struct ∨ tag = .union) :
      Layer (.identifier name) [.keyword tag, .identifier name]
  | enum {body : EnumBody} {used : List Token} (spelled : body.Spelled used) :
      Layer (.enum body) (.keyword .enum :: used)
  | struct {body : StructBody} {used : List Token} (spelled : body.Spelled lossy R used) :
      Layer (.struct body) (.keyword .struct :: used)
  | union {body : UnionBody} {used : List Token} (spelled : body.Spelled lossy R used) :
      Layer (.union body) (.keyword .union :: used)

/-- The spellings of the parameter of a procedure. -/
inductive TypeSpec.Argument : TypeSpec → List Token → Prop where
  | void : Argument .void [.keyword .void]
  | bare {type : TypeSpec} {used : List Token} (base : R type used) (typed : type ≠ .void) :
      Argument type used
  | named {type : TypeSpec} {used : List Token} (name : String) (base : R type used)
      (typed : type ≠ .void) : Argument type (used ++ [.identifier name])
  | modified {type : TypeSpec} {declarator : Declarator} {used more : List Token} (dropped : lossy)
      (base : R type used) (typed : type ≠ .void) (modifier : declarator.modifier ≠ none)
      (declared : declarator.Spelled lossy more) : Argument type (used ++ more)

/-- The token of a number of 32 bits. -/
def u32Token (number : UInt32) : Token := .number number.toNat

/-- The spellings of a procedure. -/
inductive ProcedureDecl.Spelled : ProcedureDecl → List Token → Prop where
  | mk {returnType argumentType : TypeSpec} {result argument : List Token} (name : String)
      (number : UInt32) (returned : R returnType result)
      (passed : argumentType.Argument lossy R argument) :
      Spelled ⟨returnType, name, argumentType, number⟩
        (result ++ [.identifier name, .symbol '('] ++ argument ++
          [.symbol ')', .symbol '=', u32Token number, .symbol ';'])

/-- The spellings of a version. -/
inductive VersionDecl.Spelled : VersionDecl → List Token → Prop where
  | mk {procedures : List ProcedureDecl} {used : List Token} (name : String) (number : UInt32)
      (listed : Listed (ProcedureDecl.Spelled lossy R) procedures used) :
      Spelled ⟨name, procedures, number⟩
        ([.keyword .version, .identifier name, .symbol '{'] ++ used ++
          [.symbol '}', .symbol '=', u32Token number, .symbol ';'])

/-- The spellings of a program. -/
inductive ProgramDecl.Spelled : ProgramDecl → List Token → Prop where
  | mk {versions : List VersionDecl} {used : List Token} (name : String) (number : UInt32)
      (listed : Listed (VersionDecl.Spelled lossy R) versions used) :
      Spelled ⟨name, versions, number⟩
        ([.keyword .program, .identifier name, .symbol '{'] ++ used ++
          [.symbol '}', .symbol '=', u32Token number, .symbol ';'])

/-- The spellings of an item. -/
inductive Item.Spelled : Item → List Token → Prop where
  | const (name : String) (value : ValueExpr) : Spelled (.const ⟨name, value⟩)
      [.keyword .const, .identifier name, .symbol '=', value.token, .symbol ';']
  | typedef {target : TypeSpec} {declarator : Declarator} {used more : List Token}
      (base : R target used) (declared : declarator.Spelled lossy more) :
      Spelled (.typedef ⟨target, declarator⟩)
        (.keyword .typedef :: used ++ more ++ [.symbol ';'])
  | struct (name : String) {body : StructBody} {used : List Token}
      (spelled : body.Spelled lossy R used) :
      Spelled (.struct name body)
        ([.keyword .struct, .identifier name] ++ used ++ [.symbol ';'])
  | enum (name : String) {body : EnumBody} {used : List Token} (spelled : body.Spelled used) :
      Spelled (.enum name body) ([.keyword .enum, .identifier name] ++ used ++ [.symbol ';'])
  | union (name : String) {body : UnionBody} {used : List Token}
      (spelled : body.Spelled lossy R used) :
      Spelled (.union name body)
        ([.keyword .union, .identifier name] ++ used ++ [.symbol ';'])
  | program {decl : ProgramDecl} {used : List Token} (spelled : decl.Spelled lossy R used) :
      Spelled (.program decl) used

end Layer

/-- The spellings of a type of at most so many levels. -/
def TypeSpec.Spelled (lossy : Prop) : ℕ → TypeSpec → List Token → Prop
  | 0 => fun _ _ => False
  | depth + 1 => TypeSpec.Layer lossy (TypeSpec.Spelled lossy depth)

/-- The spellings of a schema. -/
def Schema.Spelled (lossy : Prop) (schema : Schema) (tokens : List Token) : Prop :=
  ∃ depth used, Listed (Item.Spelled lossy (TypeSpec.Spelled lossy depth)) schema.items used ∧
    tokens = used ++ [.eof]

end OncRpc
