import OncRpc.Gen.Rust

/-!
# The emitter of types and codecs

The generator walks over a schema and writes one Rust item for every type it declares, and a helper
item for every structure, enumeration or union that stands inside another.  It remembers the names
it has written items for and never writes a second item of the same name.

For every field it renders a type, a template for encoding, one for decoding and one for segmented
encoding, each by a case distinction of its own.
-/

namespace OncRpc

/-- What the emitter knows about the names of types. -/
structure EmitContext where
  /-- The item behind every type name; the last entry of a name is the one that counts. -/
  namedTypes : List (String × Item)
  segmentProjectionNames : List String

/-- The state of the emitter. -/
structure TypeEmitter where
  context : EmitContext
  emittedHelpers : List String
  out : List RustItem

/-! ## Names -/

/-- The words that cannot be identifiers in Rust. -/
def rustKeywords : List String :=
  ["as", "break", "const", "continue", "crate", "else", "enum", "extern", "false", "fn", "for",
    "if", "impl", "in", "let", "loop", "match", "mod", "move", "mut", "pub", "ref", "return",
    "self", "Self", "static", "struct", "super", "trait", "true", "type", "unsafe", "use", "where",
    "while", "async", "await", "dyn"]

/-- An identifier, in its raw form if it is a keyword. -/
def rustIdent (input : String) : String :=
  if input ∈ rustKeywords then "r#" ++ input else input

/-- The letters of a name in Pascal case. -/
def pascalLetters : Bool → List Char → List Char
  | _, [] => []
  | upper, c :: cs =>
    if c = '_' ∨ c = '-' then pascalLetters true cs
    else if upper then c.toUpper :: pascalLetters false cs
    else c.toLower :: pascalLetters false cs

/-- A name in Pascal case. -/
def toPascalCase (input : String) : String :=
  let letters := pascalLetters true input.toList
  if letters = [] then "Variant" else String.ofList letters

/-- The name of a variant. -/
def unionVariantName : UnionCaseLabel → String
  | .case (.identifier name) => toPascalCase name
  | .case (.number value) =>
    if 0 ≤ value then "Case" ++ toString value else "CaseNeg" ++ toString value.natAbs
  | .default => "Default"

/-- The name of the helper for what stands inside a type. -/
def hintFor (owner field : String) : String := owner ++ "_" ++ field

/-! ## Types -/

/-- The length of an array. -/
def renderArrayBound : ValueExpr → Except GeneratorError ValueExpr
  | .number value =>
    if 0 ≤ value then .ok (.number value)
    else .error (.unsupportedConstruct
      ("negative fixed array bounds are not supported in Rust emission: " ++ toString value))
  | .identifier name => .ok (.identifier name)

/-- The type behind a type specifier.  A structure, enumeration or union that stands inside another
type is the helper `hint`. -/
def rustTypeForBase (target : TypeSpec) (hint : String) : RustType :=
  match target with
  | .void => .unit
  | .bool => .bool
  | .int => .i32
  | .unsignedInt => .u32
  | .hyper => .i64
  | .unsignedHyper => .u64
  | .float => .f32
  | .double => .f64
  | .quadruple => .array .u8 (.number 16)
  | .opaqueData => .u8
  | .string => .string none
  | .identifier name => .named name
  | .enum _ | .struct _ | .union _ => .named hint
  | .opaqueLength bound => .opaqueLength bound
  | .opaqueSegments bound => .opaqueSegments bound

/-- The type of a declaration. -/
def rustTypeForDeclaration (target : TypeSpec) (modifier : Option DeclaratorModifier)
    (hint : String) : Except GeneratorError RustType :=
  match modifier with
  | some (.variableArray bound) =>
    match target with
    | .opaqueData => .ok (.bytes bound)
    | .string => .ok (.string bound)
    | _ => .ok (.vec (rustTypeForBase target hint) bound)
  | some (.fixedArray bound) => do
    let len ← renderArrayBound bound
    match target with
    | .opaqueData => return .array .u8 len
    | _ => return .array (rustTypeForBase target hint) len
  | some .optional => .ok (.optionBox (rustTypeForBase target hint))
  | none =>
    match target with
    | .opaqueData => .ok .u8
    | _ => .ok (rustTypeForBase target hint)

/-! ## Templates -/

/-- How a declaration is encoded. -/
def emitEncodeDeclaration (target : TypeSpec) (modifier : Option DeclaratorModifier) : EncodeStmt :=
  match modifier with
  | some (.variableArray _) =>
    match target with
    | .opaqueData | .string => .encodeXdr
    | _ => .lenThenEach
  | some (.fixedArray _) =>
    match target with
    | .opaqueData => .writeFixedOpaque
    | _ => .each
  | some .optional | none => .encodeXdr

/-- How a declaration is decoded. -/
def decodeDeclarationExpr (target : TypeSpec) (modifier : Option DeclaratorModifier)
    (hint : String) : Except GeneratorError DecodeExpr :=
  match modifier with
  | some (.variableArray _) =>
    match target with
    | .opaqueData => .ok (.decodeXdr (.bytes none))
    | .string => .ok (.decodeXdr (.string none))
    | _ => .ok (.decodeXdr (.vec (rustTypeForBase target hint) none))
  | some (.fixedArray bound) => do
    let len ← renderArrayBound bound
    match target with
    | .opaqueData => return .decodeXdr (.array .u8 len)
    | _ => return .decodeFixedArray (rustTypeForBase target hint) len
  | some .optional => .ok (.decodeXdr (.optionBox (rustTypeForBase target hint)))
  | none => .ok (.decodeXdr (rustTypeForBase target hint))

namespace EmitContext

/-- The item a name stands for. -/
def namedType (context : EmitContext) (name : String) : Option Item :=
  context.namedTypes.reverse.lookup name

/-- The bound of the variable opaque data a name is an alias of, through at most that many names. -/
def opaqueAliasBound (context : EmitContext) :
    ℕ → List String → TypeSpec → Option (Option ValueExpr)
  | fuel + 1, seen, .identifier name =>
    if name ∈ context.segmentProjectionNames then none
    else if name ∈ seen then none
    else match context.namedType name with
    | some (.typedef ⟨.opaqueData, ⟨_, some (.variableArray bound)⟩⟩) => some bound
    | some (.typedef ⟨target, ⟨_, none⟩⟩) =>
      opaqueAliasBound context fuel (name :: seen) target
    | _ => none
  | _, _, _ => none

/-- How a declaration is encoded in segments. -/
def segmentedDeclaration (context : EmitContext) (target : TypeSpec)
    (modifier : Option DeclaratorModifier) : SegmentStmt :=
  let opaqueBound := match target, modifier with
    | .opaqueData, some (.variableArray bound) => some bound
    | target, none => context.opaqueAliasBound (context.namedTypes.length + 1) [] target
    | _, _ => none
  match opaqueBound with
  | some bound => .opaqueBody bound
  | none =>
    match modifier with
    | some (.fixedArray _) =>
      match target with
      | .opaqueData => .encode
      | _ => .each
    | _ => .encodeSegments

/-- A field of the type `owner`. -/
def fieldFor (context : EmitContext) (owner : String) (target : TypeSpec)
    (declarator : Declarator) : Except GeneratorError RustField := do
  let hint := hintFor owner declarator.name
  let type ← rustTypeForDeclaration target declarator.modifier hint
  let decode ← decodeDeclarationExpr target declarator.modifier hint
  return {
    name := rustIdent declarator.name
    type := type
    encode := emitEncodeDeclaration target declarator.modifier
    decode := decode
    segments := context.segmentedDeclaration target declarator.modifier }

/-- The item of a structure. -/
def structItem (context : EmitContext) (name : String) (body : StructBody) :
    Except GeneratorError RustItem := do
  let fields ← body.declarations.mapM fun declaration =>
    context.fieldFor name declaration.typeSpec declaration.declarator
  return .struct name fields

/-! ## Unions -/

/-- The name of the enumeration a discriminant has for its type. -/
def enumTypeNameFor (context : EmitContext) : TypeSpec → Option String
  | .identifier name =>
    match context.namedType name with
    | some (.enum _ _) => some name
    | _ => none
  | _ => none

/-- A value, rendered.  The words `true` and `false` are literals wherever they stand. -/
def renderValue : ValueExpr → LabelExpr
  | .identifier "true" => .bool true
  | .identifier "false" => .bool false
  | value => .value value

/-- A label, rendered as an expression. -/
def renderUnionLabel (context : EmitContext) (label : UnionCaseLabel) (discriminant : TypeSpec) :
    LabelExpr :=
  match label, discriminant with
  | .case (.identifier "TRUE"), .bool => .bool true
  | .case (.identifier "FALSE"), .bool => .bool false
  | .case (.identifier name), discriminant =>
    match context.enumTypeNameFor discriminant with
    | some enumName => .variant enumName (rustIdent name)
    | none => renderValue (.identifier name)
  | .case value, _ => renderValue value
  | .default, _ => .discriminant

/-- A label, rendered as a pattern. -/
def renderUnionDecodeLabel (context : EmitContext) (label : UnionCaseLabel)
    (discriminant : TypeSpec) (rawEnumDiscriminant : Bool) : LabelPattern :=
  if rawEnumDiscriminant = false then .expr (context.renderUnionLabel label discriminant)
  else match label with
  | .case (.identifier name) =>
    match context.enumTypeNameFor discriminant with
    | none => .expr (renderValue (.identifier name))
    | some enumName => .rawVariant enumName (rustIdent name)
  | .case value => .expr (renderValue value)
  | .default => .expr .discriminant

/-- Some arm has the default label. -/
def unionHasDefaultArm (body : UnionBody) : Bool :=
  body.arms.any fun arm => arm.labels.any (· == .default)

/-- The discriminant is decoded as a number, although its type is an enumeration. -/
def usesRawEnum (context : EmitContext) (body : UnionBody) : Bool :=
  unionHasDefaultArm body && (context.enumTypeNameFor body.discriminant.typeSpec).isSome

/-- The type the discriminant is decoded as. -/
def unionDecodeDiscriminantType (context : EmitContext) (body : UnionBody) (type : RustType) :
    RustType :=
  if context.usesRawEnum body then .i32 else type

/-- The field of an arm, unless its type is `()`. -/
def armField (context : EmitContext) (owner : String) (arm : UnionArm) :
    Except GeneratorError (Option RustField) := do
  let field ← context.fieldFor owner arm.declaration.typeSpec arm.declaration.declarator
  return if field.type = .unit then none else some field

/-- The variants of an arm, one for each label. -/
def armVariants (context : EmitContext) (owner : String) (discriminant : TypeSpec)
    (arm : UnionArm) : Except GeneratorError (List RustVariant) := do
  let field ← context.armField owner arm
  return arm.labels.map fun label => {
    name := unionVariantName label
    isDefault := label == .default
    label := context.renderUnionLabel label discriminant
    field := field
    isVoid := arm.declaration.typeSpec matches .void }

/-- The arms of the decoder for an arm of the union; the default arm has none. -/
def armDecodes (context : EmitContext) (owner : String) (body : UnionBody) (arm : UnionArm) :
    Except GeneratorError (List DecodeArm) :=
  if arm.labels.any (· == .default) then .ok []
  else do
    let field ← context.armField owner arm
    return arm.labels.map fun label => {
      pattern := context.renderUnionDecodeLabel label body.discriminant.typeSpec
        (context.usesRawEnum body)
      variant := unionVariantName label
      field := field }

/-- What the decoder does with every other discriminant. -/
def unionFallback (context : EmitContext) (owner : String) (body : UnionBody)
    (decodeType : RustType) : Except GeneratorError Fallback :=
  match body.arms.find? fun arm => arm.labels.any (· == .default) with
  | some arm => do return .default (← context.armField owner arm)
  | none =>
    let labels := body.arms.flatMap fun arm =>
      arm.labels.map fun label => context.renderUnionLabel label body.discriminant.typeSpec
    if decodeType = .bool ∧ .bool true ∈ labels ∧ .bool false ∈ labels then .ok .none
    else .ok .invalidEnum

/-- The item of a union. -/
def unionItem (context : EmitContext) (name : String) (body : UnionBody) :
    Except GeneratorError RustItem := do
  let type ← rustTypeForDeclaration body.discriminant.typeSpec
    body.discriminant.declarator.modifier (hintFor name "discriminant")
  let variants ← body.arms.mapM (context.armVariants name body.discriminant.typeSpec)
  let decodeType := context.unionDecodeDiscriminantType body type
  let arms ← body.arms.mapM (context.armDecodes name body)
  let fallback ← context.unionFallback name body decodeType
  return .union name {
    variants := variants.flatten
    decodeType := decodeType
    arms := arms.flatten
    fallback := fallback }

end EmitContext

/-! ## Items -/

namespace TypeEmitter

/-- Write an item. -/
def push (emitter : TypeEmitter) (item : RustItem) : TypeEmitter :=
  { emitter with out := emitter.out ++ [item] }

/-- Remember the name of an item. -/
def remember (emitter : TypeEmitter) (name : String) : TypeEmitter :=
  { emitter with emittedHelpers := name :: emitter.emittedHelpers }

/-- Write an enumeration, unless an item of its name is there. -/
def emitNamedEnum (emitter : TypeEmitter) (name : String) (body : EnumBody) : TypeEmitter :=
  if name ∈ emitter.emittedHelpers then emitter
  else (emitter.remember name).push (.enum name body.variants)

mutual

/-- Write a structure, after the helpers it needs, unless an item of its name is there. -/
def emitNamedStruct (name : String) (body : StructBody) (emitter : TypeEmitter) :
    Except GeneratorError TypeEmitter :=
  match body with
  | ⟨declarations⟩ =>
    if name ∈ emitter.emittedHelpers then .ok emitter
    else do
      let emitter ← emitFieldHelpers name declarations (emitter.remember name)
      let item ← emitter.context.structItem name ⟨declarations⟩
      return emitter.push item
termination_by structural body

/-- Write a union, after the helpers it needs, unless an item of its name is there. -/
def emitNamedUnion (name : String) (body : UnionBody) (emitter : TypeEmitter) :
    Except GeneratorError TypeEmitter :=
  match body with
  | ⟨discriminant, arms⟩ =>
    if name ∈ emitter.emittedHelpers then .ok emitter
    else do
      let emitter ← emitArmHelpers name arms (emitter.remember name)
      let emitter ← emitDiscriminantHelper name discriminant emitter
      let item ← emitter.context.unionItem name ⟨discriminant, arms⟩
      return emitter.push item
termination_by structural body

/-- Write the helper for a type specifier that needs one. -/
def emitInlineHelperTypes (hint : String) (target : TypeSpec) (emitter : TypeEmitter) :
    Except GeneratorError TypeEmitter :=
  match target with
  | .enum body => .ok (emitter.emitNamedEnum hint body)
  | .struct body => emitNamedStruct hint body emitter
  | .union body => emitNamedUnion hint body emitter
  | _ => .ok emitter
termination_by structural target

/-- Write the helper for a field. -/
def emitFieldHelper (owner : String) (declaration : Declaration) (emitter : TypeEmitter) :
    Except GeneratorError TypeEmitter :=
  match declaration with
  | ⟨target, declarator⟩ => emitInlineHelperTypes (hintFor owner declarator.name) target emitter
termination_by structural declaration

/-- Write the helper for a discriminant. -/
def emitDiscriminantHelper (owner : String) (declaration : Declaration) (emitter : TypeEmitter) :
    Except GeneratorError TypeEmitter :=
  match declaration with
  | ⟨target, _⟩ => emitInlineHelperTypes (hintFor owner "discriminant") target emitter
termination_by structural declaration

/-- Write the helpers for the fields of a structure. -/
def emitFieldHelpers (owner : String) (declarations : List Declaration) (emitter : TypeEmitter) :
    Except GeneratorError TypeEmitter :=
  match declarations with
  | [] => .ok emitter
  | declaration :: declarations => do
    let emitter ← emitFieldHelper owner declaration emitter
    emitFieldHelpers owner declarations emitter
termination_by structural declarations

/-- Write the helper for an arm of a union. -/
def emitArmHelper (owner : String) (arm : UnionArm) (emitter : TypeEmitter) :
    Except GeneratorError TypeEmitter :=
  match arm with
  | ⟨_, declaration⟩ => emitFieldHelper owner declaration emitter
termination_by structural arm

/-- Write the helpers for the arms of a union. -/
def emitArmHelpers (owner : String) (arms : List UnionArm) (emitter : TypeEmitter) :
    Except GeneratorError TypeEmitter :=
  match arms with
  | [] => .ok emitter
  | arm :: arms => do
    let emitter ← emitArmHelper owner arm emitter
    emitArmHelpers owner arms emitter
termination_by structural arms

end

/-- Write a type definition.  One with a declarator of its own gets a helper for what it is
about. -/
def emitTypedef (decl : TypedefDecl) (emitter : TypeEmitter) :
    Except GeneratorError TypeEmitter :=
  let name := decl.declarator.name
  let helper := hintFor name "value"
  let define (target : TypeSpec) (emitter : TypeEmitter) := do
    let type ← rustTypeForDeclaration target decl.declarator.modifier name
    return emitter.push (.typeAlias (rustIdent name) type)
  match decl.target, decl.declarator.modifier with
  | .enum body, none => .ok (emitter.emitNamedEnum name body)
  | .struct body, none => emitNamedStruct name body emitter
  | .union body, none => emitNamedUnion name body emitter
  | .enum body, some _ => define (.identifier helper) (emitter.emitNamedEnum helper body)
  | .struct body, some _ => do define (.identifier helper) (← emitNamedStruct helper body emitter)
  | .union body, some _ => do define (.identifier helper) (← emitNamedUnion helper body emitter)
  | target, _ => define target emitter

/-- Write an item.  The modules of a program hold no types. -/
def emitItem (emitter : TypeEmitter) : Item → Except GeneratorError TypeEmitter
  | .const decl => .ok (emitter.push (.const (rustIdent decl.name) decl.value))
  | .typedef decl => emitTypedef decl emitter
  | .struct name body => emitNamedStruct name body emitter
  | .enum name body => .ok (emitter.emitNamedEnum name body)
  | .union name body => emitNamedUnion name body emitter
  | .program _ => .ok emitter

/-- Write items. -/
def emitItems (emitter : TypeEmitter) (items : List Item) : Except GeneratorError TypeEmitter :=
  items.foldlM emitItem emitter

end TypeEmitter

end OncRpc
