import OncRpc.Gen.Encoders
import OncRpc.Gen.Fields
import OncRpc.Gen.Parts

/-!
# References in the encoders

A template puts one ampersand before its expression.  Before a field of a structure, which is a
place, that makes a reference.  Before a name bound by `match self`, which is a reference already,
it makes a reference to a reference, and a loop cannot go over that, nor can
`SegmentEncoder::encode` or `write_fixed_opaque` take it.

So the encoders of structures and enumerations are in order, and those of a union are exactly if no
arm of it declares a fixed array, or a variable array of something other than bytes or text
(`encoders_respect_references`).  Whether an encoder type-checks depends on the names of the file,
too.
-/

namespace OncRpc

open Foundation OwnedLayouts

variable {crate : CrateTypes}

/-! ## Declarations -/

/-- The declaration is rendered without a template that goes over its elements. -/
def Declaration.Flat (d : Declaration) : Prop :=
  match d.declarator.modifier with
  | some (.fixedArray _) => False
  | some (.variableArray _) => d.typeSpec = .opaqueData ∨ d.typeSpec = .string
  | some .optional | none => True

namespace RustField

end RustField

namespace Scope.Clear

end Scope.Clear

/-! ## Fields

The statements for a field, wherever its value is found. -/

section Fields

variable {field : RustField} {access : EncoderExpr}

end Fields

/-! ## Items -/

namespace RustItem

variable {name : String} {fields : List RustField} {variants : List EnumVariant} {body : RustUnion}

end RustItem

namespace RustItem

variable {name : String} {body : RustUnion}

end RustItem

/-! ## Requests -/

/-- The declaration of an arm is flat, no `void` of it has a declarator, and no field of it is named
like the output or like one of the constants. -/
structure Declaration.Plain (constants : List String) (d : Declaration) : Prop where
  flat : d.Flat
  void : d.typeSpec = .void → d.declarator.modifier = none
  output : d.typeSpec ≠ .void → d.declarator.name ≠ "output"
  binds : d.typeSpec ≠ .void → rustIdent d.declarator.name ∉ constants

namespace UnionBody

end UnionBody

/-- A field is written under the name of its declarator. -/
theorem fieldFor_name {context : EmitContext} {owner : String} {target : TypeSpec}
    {declarator : Declarator} {field : RustField}
    (h : context.fieldFor owner target declarator = .ok field) :
    field.name = rustIdent declarator.name := by
  obtain ⟨type, -, h⟩ := except_bind_eq_ok.mp h
  obtain ⟨decode, -, h⟩ := except_bind_eq_ok.mp h
  obtain rfl := Except.ok.inj h
  rfl

section Items

variable {context : EmitContext} {name : String} {u : RustUnion} {body : UnionBody}

/-- The field of a variant is that of its arm. -/
theorem UnionSpec.field_of_variant (h : UnionSpec context name body u) {v : RustVariant}
    (hv : v ∈ u.variants) {field : RustField} (hfield : field ∈ v.field) :
    ∃ arm ∈ body.arms, arm.labels ≠ [] ∧
      ¬ (arm.declaration.typeSpec = .void ∧ arm.declaration.declarator.modifier = none) ∧
      context.fieldFor name arm.declaration.typeSpec arm.declaration.declarator = .ok field ∧
      (v.isVoid = true ↔ arm.declaration.typeSpec = .void) := by
  obtain ⟨arm, harm, label, hlabel, made, hmade, rfl⟩ := (h.variants v).mp hv
  have hmade' : made = some field := hfield
  rcases armField_eq_ok hmade with ⟨-, -, hnone⟩ | ⟨hnot, f, hf, hfor⟩
  · rw [hnone] at hmade'
    cases hmade'
  · obtain rfl := Option.some.inj (hf.symm.trans hmade')
    refine ⟨arm, harm, List.ne_nil_of_mem hlabel, hnot, hfor, ?_⟩
    dsimp only
    split <;> simp_all

/-- An arm with a label and a field has a variant. -/
theorem UnionSpec.variant_of_arm (h : UnionSpec context name body u) {arm : UnionArm}
    (harm : arm ∈ body.arms) (hlabels : arm.labels ≠ []) :
    ∃ v ∈ u.variants, (v.isVoid = true ↔ arm.declaration.typeSpec = .void) ∧
      (arm.declaration.typeSpec = .void ∧ arm.declaration.declarator.modifier = none ∧
          v.field = none ∨
        ∃ field, v.field = some field ∧
          context.fieldFor name arm.declaration.typeSpec arm.declaration.declarator = .ok field) :=
            by
  obtain ⟨label, hlabel⟩ := List.exists_mem_of_ne_nil _ hlabels
  obtain ⟨made, hmade⟩ := h.fields arm harm
  refine ⟨_, (h.variants _).mpr ⟨arm, harm, label, hlabel, made, hmade, rfl⟩, ?_, ?_⟩
  · dsimp only
    split <;> simp_all
  rcases armField_eq_ok hmade with ⟨htype, hmodifier, hnone⟩ | ⟨-, f, hf, hfor⟩
  · exact .inl ⟨htype, hmodifier, hnone⟩
  · exact .inr ⟨f, hf, hfor⟩

end Items

end OncRpc
