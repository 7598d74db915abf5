import OncRpc.Gen.Emit

/-!
# Layouts and projections

For a type whose control fields have a bounded size and which ends in at most one variable opaque
body on every path, the generator writes a second type, the metadata, in which the length of the
body stands for the body, and a bound on the bytes of its encoding.  For an argument type that ends
in an opaque body it writes a third type, in which the body may be split over several owners, and a
conversion from the ordinary type.

The projections are items of the interface definition language, and they go through the emitter of
the ordinary types.
-/

namespace OncRpc

/-- The bytes before the body, at most, and whether there may be a body. -/
structure Shape where
  prefixBytes : ℕ
  body : Bool
  deriving DecidableEq

/-- The types and the constants of a schema, by name; the last entry of a name is the one that
counts. -/
structure OwnedLayouts where
  items : List (String × Item)
  constants : List (String × ValueExpr)

/-- The named types of a schema. -/
def Schema.namedTypes (schema : Schema) : List (String × Item) :=
  schema.items.filterMap fun item => item.typeName.map fun name => (name, item)

/-- The constants of a schema. -/
def Schema.constants (schema : Schema) : List (String × ValueExpr) :=
  schema.items.filterMap fun item =>
    match item with
    | .const decl => some (decl.name, decl.value)
    | _ => none

namespace OwnedLayouts

/-- The layouts of a schema. -/
def fromSchema (schema : Schema) : OwnedLayouts := ⟨schema.namedTypes, schema.constants⟩

variable (layouts : OwnedLayouts)

/-- The item of a name. -/
def item (name : String) : Option Item := layouts.items.reverse.lookup name

/-- The value of a constant. -/
def constant (name : String) : Option ValueExpr := layouts.constants.reverse.lookup name

/-- A length, through at most that many names. -/
def valueFrom : ℕ → List String → ValueExpr → Option ℕ
  | _, _, .number number => if 0 ≤ number then some number.toNat else none
  | 0, _, .identifier _ => none
  | fuel + 1, seen, .identifier name =>
    if name ∈ seen then none
    else (layouts.constant name).bind (valueFrom fuel (name :: seen))

/-- A length.  No name occurs twice on the way. -/
def value (value : ValueExpr) : Option ℕ :=
  layouts.valueFrom (layouts.constants.length + 1) [] value

/-! ## Shapes -/

/-- The shape of a declaration, from the shape of what it is about. -/
def modifierShape (target : TypeSpec) (modifier : Option DeclaratorModifier)
    (base : Option Shape) : Option Shape :=
  match modifier with
  | some (.variableArray bound) =>
    match target with
    | .opaqueData =>
      match bound with
      | some bound => (layouts.value bound).map fun _ => ⟨4, true⟩
      | none => some ⟨4, true⟩
    | _ => none
  | some (.fixedArray bound) => do
    let count ← layouts.value bound
    let base ← base
    if base.body then none
    else match target with
      | .opaqueData => do
        let padded ← checkedAdd count 3
        return ⟨padded / 4 * 4, false⟩
      | _ => do
        let size ← checkedMul count base.prefixBytes
        return ⟨size, false⟩
  | some .optional => do
    let base ← base
    let size ← checkedAdd base.prefixBytes 4
    return ⟨size, base.body⟩
  | none => base

/-- A body inside another type needs a name of its own. -/
def bodyFree (shape : Option Shape) : Option Shape := shape.filter fun shape => !shape.body

mutual

/-- The shape of a type specifier. -/
def base (named : String → Option Shape) (target : TypeSpec) : Option Shape :=
  match target with
  | .void => some ⟨0, false⟩
  | .bool | .int | .unsignedInt | .float | .enum _ => some ⟨4, false⟩
  | .hyper | .unsignedHyper | .double => some ⟨8, false⟩
  | .quadruple => some ⟨16, false⟩
  | .opaqueData => some ⟨1, false⟩
  | .identifier name => named name
  | .struct body => bodyFree (structure_ named body)
  | .union body => bodyFree (union named body)
  | .string | .opaqueLength _ | .opaqueSegments _ => none
termination_by structural target

/-- The shape of a declaration. -/
def declaration (named : String → Option Shape) (d : Declaration) : Option Shape :=
  match d with
  | ⟨target, declarator⟩ => layouts.modifierShape target declarator.modifier (base named target)
termination_by structural d

/-- The shape of a structure. -/
def structure_ (named : String → Option Shape) (body : StructBody) : Option Shape :=
  match body with
  | ⟨declarations⟩ => fieldsFrom named ⟨0, false⟩ declarations
termination_by structural body

/-- The shape of a structure, from that of its leading fields.  Only the last field has a body. -/
def fieldsFrom (named : String → Option Shape) (shape : Shape) (declarations : List Declaration) :
    Option Shape :=
  match declarations with
  | [] => some shape
  | d :: declarations => do
    let field ← declaration named d
    if field.body ∧ declarations.isEmpty = false then none
    else
      let size ← checkedAdd shape.prefixBytes field.prefixBytes
      fieldsFrom named ⟨size, shape.body || field.body⟩ declarations
termination_by structural declarations

/-- The shape of a union. -/
def union (named : String → Option Shape) (body : UnionBody) : Option Shape :=
  match body with
  | ⟨d, arms⟩ => do
    let discriminant ← declaration named d
    if discriminant.body then none
    else
      let arm ← armsFrom named ⟨0, false⟩ arms
      let size ← checkedAdd discriminant.prefixBytes arm.prefixBytes
      return ⟨size, arm.body⟩
termination_by structural body

/-- The shape of an arm. -/
def arm (named : String → Option Shape) (a : UnionArm) : Option Shape :=
  match a with
  | ⟨_, d⟩ => declaration named d
termination_by structural a

/-- The shape of the arms of a union, from that of the leading ones. -/
def armsFrom (named : String → Option Shape) (shape : Shape) (arms : List UnionArm) :
    Option Shape :=
  match arms with
  | [] => some shape
  | a :: arms => do
    let other ← arm named a
    armsFrom named ⟨max shape.prefixBytes other.prefixBytes, shape.body || other.body⟩ arms
termination_by structural arms

end

/-- The shape of an item. -/
def itemShape (named : String → Option Shape) : Item → Option Shape
  | .typedef decl => layouts.declaration named ⟨decl.target, decl.declarator⟩
  | .struct _ body => layouts.structure_ named body
  | .enum _ _ => some ⟨4, false⟩
  | .union _ body => layouts.union named body
  | .const _ | .program _ => none

/-- The shape of a named type, through at most that many names. -/
def namedFrom : ℕ → List String → String → Option Shape
  | 0, _, _ => none
  | fuel + 1, seen, name =>
    if name ∈ seen then none
    else (layouts.item name).bind (layouts.itemShape (namedFrom fuel (name :: seen)))

/-- The shape of a named type.  No name occurs twice on the way. -/
def named (name : String) : Option Shape := layouts.namedFrom (layouts.items.length + 1) [] name

/-- The declaration ends in a variable opaque body, as far as that many names tell. -/
def terminalFrom : ℕ → List String → TypeSpec → Option DeclaratorModifier → Bool
  | _, _, .opaqueData, some (.variableArray _) => true
  | 0, _, .identifier _, _ => false
  | fuel + 1, seen, .identifier name, modifier =>
    if (modifier = none ∨ modifier = some .optional) ∧ name ∉ seen then
      match layouts.item name with
      | some (.typedef decl) =>
        terminalFrom fuel (name :: seen) decl.target decl.declarator.modifier
      | some (.struct _ body) =>
        match body.declarations.getLast? with
        | some d => terminalFrom fuel (name :: seen) d.typeSpec d.declarator.modifier
        | none => false
      | some (.union _ body) => body.arms.any fun arm =>
        terminalFrom fuel (name :: seen) arm.declaration.typeSpec
          arm.declaration.declarator.modifier
      | _ => false
    else false
  | _, _, _, _ => false

/-- The declaration ends in a variable opaque body. -/
def terminal (target : TypeSpec) (modifier : Option DeclaratorModifier) : Bool :=
  layouts.terminalFrom (layouts.items.length + 1) [] target modifier

/-! ## Projections -/

/-- The name of the metadata of a type. -/
def metadataName (name : String) : Option String :=
  ((layouts.named name).filter Shape.body).map fun _ => name ++ "Metadata"

/-- The name of the segmented form of a type. -/
def segmentsName (name : String) : Option String :=
  if layouts.terminal (.identifier name) none then some (name ++ "Segments") else none

/-- A declaration with the length of the body for the body. -/
def transform (d : Declaration) : Declaration :=
  match d.typeSpec, d.declarator.modifier with
  | .opaqueData, some (.variableArray bound) => ⟨.opaqueLength bound, ⟨d.declarator.name, none⟩⟩
  | .identifier name, _ =>
    match layouts.metadataName name with
    | some metadata => ⟨.identifier metadata, d.declarator⟩
    | none => d
  | _, _ => d

/-- A declaration with several owners for the body. -/
def transformSegments (d : Declaration) : Declaration :=
  match d.typeSpec, d.declarator.modifier with
  | .opaqueData, some (.variableArray bound) => ⟨.opaqueSegments bound, ⟨d.declarator.name, none⟩⟩
  | .identifier name, _ =>
    match layouts.segmentsName name with
    | some segments => ⟨.identifier segments, d.declarator⟩
    | none => d
  | _, _ => d

/-- A declaration has a body. -/
def hasBody (d : Declaration) : Bool :=
  match layouts.declaration layouts.named d with
  | some shape => shape.body
  | none => false

/-- The last element of a list changed. -/
def changeLast {α : Type} (f : α → α) (xs : List α) : List α :=
  match xs.getLast? with
  | some x => xs.dropLast ++ [f x]
  | none => []

/-- The item under another name, with `last` applied to the last field of a structure and `arm` to
the declaration of each arm. -/
def project (name : String) (last arm : Declaration → Declaration) : Item → Item
  | .typedef decl =>
    let d := last ⟨decl.target, decl.declarator⟩
    .typedef ⟨d.typeSpec, ⟨name, d.declarator.modifier⟩⟩
  | .struct _ body => .struct name ⟨changeLast last body.declarations⟩
  | .union _ body => .union name
    { body with arms := body.arms.map fun a => { a with declaration := arm a.declaration } }
  | item => item

/-- The name of an item that may have projections. -/
def projectableName : Item → Option String
  | .typedef decl => some decl.declarator.name
  | .struct name _ | .union name _ => some name
  | .const _ | .enum _ _ | .program _ => none

/-- The metadata of an item, and its name. -/
def metadataItem (item : Item) : Option (String × Item) := do
  let name ← projectableName item
  let metadata ← layouts.metadataName name
  return (metadata, project metadata layouts.transform
    (fun d => if layouts.hasBody d then layouts.transform d else d) item)

/-- The segmented form of an item, and its name. -/
def segmentsItem (item : Item) : Option (String × Item) := do
  let name ← projectableName item
  let segments ← layouts.segmentsName name
  return (segments, project segments layouts.transformSegments
    (fun d => if layouts.terminal d.typeSpec d.declarator.modifier then layouts.transformSegments d
      else d) item)

/-! ## Trait implementations -/

/-- How the length of a body is found. -/
inductive OpaqueExpr where
  /-- `XdrReplyMetadata::opaque_len(x)` -/
  | opaqueLen
  /-- `x.as_deref().and_then(XdrReplyMetadata::opaque_len)` -/
  | asDeref
  deriving DecidableEq

/-- How the length of a body is found in a declaration. -/
def opaqueExpr (d : Declaration) : OpaqueExpr :=
  match d.declarator.modifier with
  | some .optional => .asDeref
  | _ => .opaqueLen

/-- Where the metadata has the length of a body. -/
inductive OpaqueLens where
  | lastField (expression : OpaqueExpr)
  /-- For every variant its name, and the length in its field. -/
  | variants (arms : List (String × Option OpaqueExpr))
  deriving DecidableEq

/-- The implementation of `XdrReplyMetadata` for a generated type. -/
structure MetadataImpl where
  name : String
  maxPrefixBytes : ℕ
  opaqueLen : OpaqueLens
  deriving DecidableEq

/-- The implementation of `XdrReplyMetadata` for the metadata of an item; that of an alias is that
of the type behind it. -/
def metadataImpl (item : Item) : Option MetadataImpl := do
  let name ← projectableName item
  let metadata ← layouts.metadataName name
  let shape ← layouts.named name
  match item with
  | .struct _ body =>
    let last ← body.declarations.getLast?
    return ⟨metadata, shape.prefixBytes, .lastField (opaqueExpr last)⟩
  | .union _ body =>
    return ⟨metadata, shape.prefixBytes, .variants (body.arms.flatMap fun arm =>
      arm.labels.map fun label => (unionVariantName label,
        if layouts.hasBody arm.declaration then some (opaqueExpr arm.declaration) else none))⟩
  | _ => none

/-- How a value is converted to its segmented form. -/
inductive ConvertExpr where
  | keep
  /-- `x.into()` -/
  | into
  /-- `x.map(|value| Box::new(..))` -/
  | map (inner : ConvertExpr)
  deriving DecidableEq

/-- How a value is converted, through at most that many names. -/
def convertValue : ℕ → List String → TypeSpec → Option DeclaratorModifier → ConvertExpr
  | fuel, seen, target, some .optional => .map <|
    match fuel, target with
    | fuel + 1, .identifier name =>
      if name ∈ seen then .into
      else match layouts.item name with
      | some (.typedef decl) =>
        convertValue fuel (name :: seen) decl.target decl.declarator.modifier
      | _ => .into
    | _, _ => .into
  | fuel + 1, seen, .identifier name, none =>
    if name ∈ seen then .into
    else match layouts.item name with
    | some (.typedef decl) =>
      convertValue fuel (name :: seen) decl.target decl.declarator.modifier
    | _ => .into
  | _, _, _, _ => .into

/-- How a field is converted. -/
def conversion (d : Declaration) : ConvertExpr :=
  layouts.convertValue (layouts.items.length + 1) [] d.typeSpec d.declarator.modifier

/-- How the fields of a type are converted. -/
inductive ConversionBody where
  | fields (expressions : List ConvertExpr)
  /-- For every variant its name, and how its field is converted. -/
  | variants (arms : List (String × ConvertExpr))
  deriving DecidableEq

/-- The implementation of `From` for the segmented form of a generated type. -/
structure ConversionImpl where
  source : String
  target : String
  body : ConversionBody
  deriving DecidableEq

/-- The implementation of `From` for the segmented form of an item. -/
def conversionImpl (item : Item) : Option ConversionImpl := do
  let name ← projectableName item
  let segments ← layouts.segmentsName name
  match item with
  | .struct _ body =>
    let last ← body.declarations.getLast?
    return ⟨name, segments, .fields
      (body.declarations.dropLast.map (fun _ => .keep) ++ [layouts.conversion last])⟩
  | .union _ body =>
    return ⟨name, segments, .variants (body.arms.flatMap fun arm =>
      arm.labels.map fun label => (unionVariantName label,
        if layouts.terminal arm.declaration.typeSpec arm.declaration.declarator.modifier
        then layouts.conversion arm.declaration else .keep))⟩
  | _ => none

/-- What the emitter knows while it writes the projections. -/
def projectionContext : EmitContext where
  namedTypes := layouts.items ++ layouts.items.flatMap fun (name, original) =>
    let isOpaque := match original with
      | .typedef ⟨.opaqueData, _⟩ => true
      | _ => false
    (layouts.metadataName name).toList.map (·, original) ++
      if isOpaque then [] else (layouts.segmentsName name).toList.map (·, original)
  segmentProjectionNames := layouts.items.filterMap fun (name, _) => layouts.segmentsName name

end OwnedLayouts

/-! ## Generation -/

/-- What the generator writes. -/
structure Generated where
  items : List RustItem
  metadata : List OwnedLayouts.MetadataImpl
  conversions : List OwnedLayouts.ConversionImpl

namespace TypeEmitter

/-- Write the projection of an item, unless its name is that of a type of the schema. -/
def emitProjection (layouts : OwnedLayouts) (kind : String)
    (project : Item → Option (String × Item)) (emitter : TypeEmitter) (item : Item) :
    Except GeneratorError TypeEmitter :=
  match project item with
  | none => .ok emitter
  | some (name, projected) =>
    if (layouts.item name).isSome then
      .error (.unsupportedConstruct
        ("generated " ++ kind ++ " name collides with IDL type: " ++ name))
    else emitter.emitItem projected

/-- Write the projections of items. -/
def emitProjections (layouts : OwnedLayouts) (kind : String)
    (project : Item → Option (String × Item)) (items : List Item) (emitter : TypeEmitter) :
    Except GeneratorError TypeEmitter :=
  items.foldlM (emitProjection layouts kind project) emitter

end TypeEmitter

/-- The code for a schema. -/
def emitRustTypes (schema : Schema) : Except GeneratorError Generated := do
  let layouts := OwnedLayouts.fromSchema schema
  let emitter : TypeEmitter := ⟨⟨schema.namedTypes, []⟩, [], []⟩
  let emitter ← emitter.emitItems schema.items
  let emitter := { emitter with context := layouts.projectionContext }
  let emitter ← emitter.emitProjections layouts "metadata" layouts.metadataItem schema.items
  let emitter ← emitter.emitProjections layouts "segments" layouts.segmentsItem schema.items
  return {
    items := emitter.out
    metadata := schema.items.filterMap layouts.metadataImpl
    conversions := schema.items.filterMap layouts.conversionImpl }

end OncRpc
