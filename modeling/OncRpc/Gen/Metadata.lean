import OncRpc.Gen.Incremental
import OncRpc.Gen.Layout
import OncRpc.Owned.DirectOutcome

/-!
# Generated metadata

What the implementations of `XdrReplyMetadata` that the generator writes do.  The length of the body
is found by the type: the last field of a structure or the field of a variant has it, behind as many
options as there are, and an alias has it where the type behind it has it.

With its decoder, its bound and its length, a generated type is metadata for a typed receiver.
-/

namespace OncRpc

open Foundation Cursor OwnedLayouts

/-! ## The length of the body -/

/-- The implementations for the types of the runtime; `named` has those of the generated items.  No
result stands for code that does not compile, and for too little fuel. -/
def opaqueLenType (named : String → Value → Option (Option ℕ)) :
    RustType → Value → Option (Option ℕ)
  | .opaqueLength _, .opaqueLength len => some (some len)
  | .optionBox _, .option none => some none
  | .optionBox element, .option (some value) => opaqueLenType named element value
  | .named name, value => named name value
  | _, _ => none

/-- The length in a field. -/
def OwnedLayouts.OpaqueExpr.eval (opaqueLen : RustType → Value → Option (Option ℕ)) :
    OpaqueExpr → RustType → Value → Option (Option ℕ)
  | .opaqueLen, type, value => opaqueLen type value
  | .asDeref, .optionBox element, .option (some value) => opaqueLen element value
  | .asDeref, .optionBox _, .option none => some none
  | .asDeref, _, _ => none

/-- The length in a value of a structure or a union. -/
def OwnedLayouts.OpaqueLens.eval (opaqueLen : RustType → Value → Option (Option ℕ)) :
    OpaqueLens → RustItem → Value → Option (Option ℕ)
  | .lastField expression, .struct _ fields, .struct values => do
    let field ← fields.getLast?
    let value ← values.getLast?
    expression.eval opaqueLen field.type value
  | .variants arms, .union _ body, .union variant _ value => do
    let expression ← arms.lookup variant
    match expression with
    | none => return none
    | some expression =>
      let v ← body.variants.find? fun v => v.name = variant
      let field ← v.field
      let value ← value
      expression.eval opaqueLen field.type value
  | _, _, _ => none

/-- The implementation of a named type. -/
def opaqueLenNamed (generated : Generated) : ℕ → String → Value → Option (Option ℕ)
  | 0, _, _ => none
  | fuel + 1, name, value =>
    match findType generated.items name with
    | some (.typeAlias _ type) => opaqueLenType (opaqueLenNamed generated fuel) type value
    | some item => do
      let impl ← generated.metadata.find? fun impl => impl.name = name
      impl.opaqueLen.eval (opaqueLenType (opaqueLenNamed generated fuel)) item value
    | none => none

/-- The length of the body, by its type. -/
def opaqueLen (generated : Generated) (fuel : ℕ) (type : RustType) (value : Value) :
    Option (Option ℕ) :=
  opaqueLenType (opaqueLenNamed generated fuel) type value

/-! ## Metadata of a receiver -/

/-- A generated type as the metadata of a receiver.  The decoder has no result only for code that
does not compile, or with too little fuel; nothing is decoded then. -/
@[reducible] def replyMetadata (generated : Generated) (fuel : ℕ) (impl : MetadataImpl) :
    XdrReplyMetadata Value where
  decodeXdr input := (decodeXdr generated.items fuel (.named impl.name) input).getD
    (.error (.unexpectedEof 0), input)
  maxPrefixBytes := impl.maxPrefixBytes
  opaqueLen value := (opaqueLen generated fuel (.named impl.name) value).getD none

/-- The decoder the receiver runs. -/
theorem replyMetadata_decodeXdr_eq_ok {generated : Generated} {fuel : ℕ} {impl : MetadataImpl}
    {input rest : Bytes} {value : Value} :
    (replyMetadata generated fuel impl).decodeXdr input = (.ok value, rest) ↔
      decodeXdr generated.items fuel (.named impl.name) input = some (.ok value, rest) := by
  change (decodeXdr generated.items fuel (.named impl.name) input).getD _ = _ ↔ _
  rcases decodeXdr generated.items fuel (.named impl.name) input with _ | result
  · simp
  · rw [Option.getD_some, Option.some.injEq]

/-- Generated metadata ask for exactly what they need, if they keep to their bound. -/
theorem replyMetadata_exact {generated : Generated} {fuel : ℕ} {impl : MetadataImpl}
    (h : Within (decodeXdr generated.items fuel (.named impl.name)) impl.maxPrefixBytes) :
    @XdrReplyMetadata.Exact Value (replyMetadata generated fuel impl) := by
  let _ := replyMetadata generated fuel impl
  refine ⟨fun {front back m} hdecode hback => ?_, fun {p m} hdecode => ?_⟩
  · have hok := replyMetadata_decodeXdr_eq_ok.mp hdecode
    obtain ⟨c, hc, -, hpart⟩ :=
      decodeXdr_incremental generated.items fuel (.named impl.name) _ _ _ hok
    rw [List.append_nil] at hc
    obtain ⟨needed, field, herror, hlt, hle⟩ := hpart front back hc.symm hback
    refine ⟨needed, field, ?_, hlt, hle⟩
    change (decodeXdr generated.items fuel (.named impl.name) front).getD _ = _
    rw [herror]
    rfl
  · obtain ⟨c, hc, hlen⟩ := h _ _ _ (replyMetadata_decodeXdr_eq_ok.mp hdecode)
    rwa [hc, List.append_nil]

end OncRpc
