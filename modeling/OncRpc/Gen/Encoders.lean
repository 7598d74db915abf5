import OncRpc.Gen.Programs

/-!
# The text of the encoders

`EncodeStmt` and `SegmentStmt` name the templates of a field.  Here they are filled in: an encoder
is a list of statements, and each statement is about expressions that are places, references, or
references to references.  In the encoder of a structure a field is the place `self.field`.  In that
of a union it is a name that a pattern of `match self` binds, and since `self` is a reference, so is
the name.

The templates put an ampersand before the expression in either case.  They have the names of types,
traits and crates of the runtime by themselves, so a type or a module of the file can hide one, and
a pattern binds no name that a constant of the file has (`Scope`).
-/

namespace OncRpc

/-! ## Names of the file -/

/-- The names that a file defines at its top. -/
structure Scope where
  /-- The names of its types and modules. -/
  types : List String
  /-- The names of its constants. -/
  constants : List String

/-- The names of the file that is written for a schema. -/
def Schema.scope (layouts : OwnedLayouts) (schema : Schema) : Scope where
  types :=
    (schema.ownRequests ++ schema.projectionRequests layouts).filterMap ItemRequest.typeName ++
      schema.programs.map fun program => (TypeEmitter.emitProgram program).moduleName
  constants := schema.constants.map fun (name, _) => rustIdent name

/-- An expression in an encoder. -/
inductive EncoderExpr where
  /-- `self`, a reference to a value of the type `owner`. -/
  | self (owner : String)
  /-- `self.field`, a place. -/
  | selfField (field : RustField)
  /-- A name that a pattern of `match self` binds, a reference to a value of the type. -/
  | bound (name : String) (type : RustType)
  /-- `(label)` -/
  | label (label : LabelExpr)
  /-- `&expr` -/
  | borrow (expr : EncoderExpr)

/-- The number of references around the value of an expression. -/
def EncoderExpr.depth : EncoderExpr → ℕ
  | .self _ | .bound _ _ => 1
  | .selfField _ | .label _ => 0
  | .borrow expr => expr.depth + 1

-- To borrow a name that a pattern binds makes a reference to a reference.
example : (EncoderExpr.borrow (.bound "values" (.vec .i32 none))).depth = 2 ∧
    (EncoderExpr.borrow (.selfField ⟨"values", .vec .i32 none, .lenThenEach,
      .decodeXdr (.vec .i32 none), .each⟩)).depth = 1 := by
  decide +kernel

/-- What the compiler knows of the types around an encoder. -/
structure CrateTypes where
  /-- The type of a label. -/
  label : LabelExpr → Option RustType
  /-- The names of the types that implement `XdrEncode` and `XdrEncodeSegments`. -/
  Named : String → Prop
  /-- The names of the file that the encoder is in. -/
  scope : Scope
  /-- What the file has under the name of a type of the runtime serves in its place, as an alias of
  a number serves in the place of `u32`. -/
  Serves : String → Prop

namespace CrateTypes

variable (crate : CrateTypes)

/-- What an encoder finds under the name of a type, a trait or a crate of the runtime serves it. -/
def Provides (name : String) : Prop := name ∉ crate.scope.types ∨ crate.Serves name

/-- The name is that of no constant.  A pattern binds no other names, and the values of the runtime
are found under no other. -/
def Free (name : String) : Prop := name ∉ crate.scope.constants

end CrateTypes

/-- The type behind the references of an expression. -/
def EncoderExpr.target (crate : CrateTypes) : EncoderExpr → Option RustType
  | .self owner => some (.named owner)
  | .selfField field => some field.type
  | .bound _ type => some type
  | .label written => crate.label written
  | .borrow expr => expr.target crate

/-- The types that implement `XdrEncode`; the same types implement `XdrEncodeSegments`. -/
inductive Encodes (crate : CrateTypes) : RustType → Prop where
  | scalar {type : RustType}
      (h : type ∈ [RustType.unit, .bool, .i32, .u32, .i64, .u64, .f32, .f64, .u8]) :
      Encodes crate type
  | string (bound : Option ValueExpr) : Encodes crate (.string bound)
  | bytes (bound : Option ValueExpr) : Encodes crate (.bytes bound)
  | vec {element : RustType} (bound : Option ValueExpr) (h : Encodes crate element) :
      Encodes crate (.vec element bound)
  | optionBox {element : RustType} (h : Encodes crate element) : Encodes crate (.optionBox element)
  | array {element : RustType} (len : ValueExpr) (h : Encodes crate element) :
      Encodes crate (.array element len)
  | named {name : String} (h : crate.Named name) : Encodes crate (.named name)
  | opaqueSegments (maximum : Option ValueExpr) : Encodes crate (.opaqueSegments maximum)

/-- The type is a vector or an array of elements that can be encoded. -/
def Iterable (crate : CrateTypes) (type : RustType) : Prop :=
  ∃ element, Encodes crate element ∧
    ((∃ bound, type = .vec element bound) ∨ ∃ len, type = .array element len)

/-! ## Statements -/

/-- A statement of an encoder. -/
inductive EncoderStmt where
  /-- `receiver.encode_xdr(output)?` -/
  | encodeXdr (receiver : EncoderExpr)
  /-- `(receiver.len() as u32).encode_xdr(output)?` -/
  | encodeLen (receiver : EncoderExpr)
  /-- `(*self as i32).encode_xdr(output)` -/
  | encodeNumber
  /-- `for value in iterated { value.encode_xdr(output)?; }` -/
  | forEncodeXdr (iterated : EncoderExpr)
  /-- `write_fixed_opaque(output, argument)` -/
  | writeFixedOpaque (argument : EncoderExpr)
  /-- `output.encode(argument)?` -/
  | encode (argument : EncoderExpr)
  /-- `output.opaque(argument, maximum)?` -/
  | opaqueBody (argument : EncoderExpr) (maximum : Option ValueExpr)
  /-- `encode_xdr_segments(argument, output)?` -/
  | encodeSegments (argument : EncoderExpr)
  /-- `for value in iterated { encode_xdr_segments(value, output)?; }` -/
  | forEncodeSegments (iterated : EncoderExpr)
  /-- `Ok(())` -/
  | ok

/-- An arm of `match self`. -/
structure EncoderArm where
  /-- The fields the pattern binds. -/
  pattern : List String
  /-- The fields of the variant. -/
  fields : List String
  body : List EncoderStmt

/-- The body of an encoder. -/
inductive Encoder where
  | block (body : List EncoderStmt)
  | matchSelf (arms : List EncoderArm)

namespace RustVariant

end RustVariant

namespace RustItem

end RustItem

/-! ## What the compiler demands -/

/-- What a statement is about is of a type it can be about.  A method call and `encode_xdr_segments`
find their way through any number of references, and an argument of `opaque` is coerced through
them; a loop, `SegmentEncoder::encode` and `write_fixed_opaque` take one reference and no more. -/
def EncoderStmt.OperandsCheck (crate : CrateTypes) : EncoderStmt → Prop
  | .encodeXdr receiver => ∃ type, receiver.target crate = some type ∧ Encodes crate type
  | .encodeLen receiver => ∃ element bound, receiver.target crate = some (.vec element bound)
  | .encodeNumber | .ok => True
  | .forEncodeXdr iterated | .forEncodeSegments iterated => iterated.depth = 1 ∧
    ∃ type, iterated.target crate = some type ∧ Iterable crate type
  | .writeFixedOpaque argument => argument.depth = 1 ∧
    ∃ len, argument.target crate = some (.array .u8 len)
  | .encode argument => argument.depth = 1 ∧
    ∃ type, argument.target crate = some type ∧ Encodes crate type
  | .opaqueBody argument _ | .encodeSegments argument => 1 ≤ argument.depth ∧
    ∃ type, argument.target crate = some type ∧ Encodes crate type

/-- The names a statement has by itself are those of the runtime, and its pattern binds its name.
Paths that begin with `onc_rpc_xdr` need that crate, as the signature does. -/
def EncoderStmt.NamesCheck (crate : CrateTypes) : EncoderStmt → Prop
  | .encodeLen _ => crate.Provides "u32"
  | .encodeNumber => crate.Provides "i32"
  | .forEncodeXdr _ | .forEncodeSegments _ => crate.Free "value"
  | .writeFixedOpaque _ => crate.Provides "u8"
  | .opaqueBody _ (some _) => crate.Provides "Bytes" ∧ crate.Provides "usize" ∧ crate.Free "Some"
  | .opaqueBody _ none => crate.Provides "Bytes" ∧ crate.Free "None"
  | .ok => crate.Free "Ok"
  | .encodeXdr _ | .encode _ | .encodeSegments _ => True

/-- The statement type-checks. -/
structure EncoderStmt.TypeChecks (crate : CrateTypes) (stmt : EncoderStmt) : Prop where
  names : stmt.NamesCheck crate
  operands : stmt.OperandsCheck crate

/-- The arm type-checks: its pattern binds the fields of the variant, each once and none under the
name of a constant or under that of the parameter `output`, and its statements type-check. -/
structure EncoderArm.TypeChecks (crate : CrateTypes) (arm : EncoderArm) : Prop where
  pattern : arm.pattern = arm.fields
  distinct : arm.pattern.Nodup
  binds : ∀ name ∈ arm.pattern, crate.Free name
  output : "output" ∉ arm.pattern
  body : ∀ stmt ∈ arm.body, stmt.TypeChecks crate

/-- The encoder type-checks.  A `match` on a reference has an arm. -/
def Encoder.TypeChecks (crate : CrateTypes) : Encoder → Prop
  | .block body => ∀ stmt ∈ body, stmt.TypeChecks crate
  | .matchSelf arms => arms ≠ [] ∧ ∀ arm ∈ arms, arm.TypeChecks crate

end OncRpc
