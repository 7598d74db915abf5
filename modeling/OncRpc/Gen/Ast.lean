import Mathlib.Data.List.Basic

/-!
# Schemas

The syntax of the interface definition language, as the parser hands it to the code generator.
Besides what the language has there are two type specifiers that only the generator writes: it puts
`OpaqueLength` and `OpaqueSegments` where a schema has a variable opaque body.
-/

namespace OncRpc

/-- A number, or the name of a constant. -/
inductive ValueExpr where
  | number (value : Int)
  | identifier (name : String)
  deriving DecidableEq

/-- What a declarator makes of a type. -/
inductive DeclaratorModifier where
  | fixedArray (bound : ValueExpr)
  | variableArray (bound : Option ValueExpr)
  | optional
  deriving DecidableEq

/-- A name and what it makes of a type. -/
structure Declarator where
  name : String
  modifier : Option DeclaratorModifier
  deriving DecidableEq

/-- A variant of an enumeration. -/
structure EnumVariant where
  name : String
  value : ValueExpr
  deriving DecidableEq

/-- The body of an enumeration. -/
structure EnumBody where
  variants : List EnumVariant
  deriving DecidableEq

/-- A label of a union arm. -/
inductive UnionCaseLabel where
  | case (value : ValueExpr)
  | default
  deriving DecidableEq

mutual

/-- A type specifier. -/
inductive TypeSpec where
  | void
  | bool
  | int
  | unsignedInt
  | hyper
  | unsignedHyper
  | float
  | double
  | quadruple
  | opaqueData
  | string
  | identifier (name : String)
  | enum (body : EnumBody)
  | struct (body : StructBody)
  | union (body : UnionBody)
  /-- The identifier `onc_rpc_xdr::OpaqueLength<..>` of the generator. -/
  | opaqueLength (bound : Option ValueExpr)
  /-- The identifier `onc_rpc_xdr::OpaqueSegments<..>` of the generator. -/
  | opaqueSegments (bound : Option ValueExpr)

/-- A declaration. -/
structure Declaration where
  typeSpec : TypeSpec
  declarator : Declarator

/-- The body of a structure. -/
structure StructBody where
  declarations : List Declaration

/-- The body of a union. -/
structure UnionBody where
  discriminant : Declaration
  arms : List UnionArm

/-- An arm of a union. -/
structure UnionArm where
  labels : List UnionCaseLabel
  declaration : Declaration

end

/-- A constant. -/
structure ConstDecl where
  name : String
  value : ValueExpr

/-- A type definition. -/
structure TypedefDecl where
  target : TypeSpec
  declarator : Declarator

/-- A procedure of a version. -/
structure ProcedureDecl where
  returnType : TypeSpec
  name : String
  argumentType : TypeSpec
  number : UInt32

/-- A version of a program. -/
structure VersionDecl where
  name : String
  procedures : List ProcedureDecl
  number : UInt32

/-- A program. -/
structure ProgramDecl where
  name : String
  versions : List VersionDecl
  number : UInt32

/-- An item of a schema. -/
inductive Item where
  | const (decl : ConstDecl)
  | typedef (decl : TypedefDecl)
  | struct (name : String) (body : StructBody)
  | enum (name : String) (body : EnumBody)
  | union (name : String) (body : UnionBody)
  | program (decl : ProgramDecl)

/-- A schema. -/
structure Schema where
  items : List Item

/-- The name of the type an item declares. -/
def Item.typeName : Item → Option String
  | .typedef decl => some decl.declarator.name
  | .struct name _ | .enum name _ | .union name _ => some name
  | .const _ | .program _ => none

/-- The errors of the generator. -/
inductive GeneratorError where
  | io (path message : String)
  | includeResolution (including included : String)
  | unsupportedConstruct (text : String)
  | parse (text : String)
  deriving DecidableEq

/-! ## Types inside types -/

theorem StructBody.sizeOf_field_lt {body : StructBody} {d : Declaration}
    (h : d ∈ body.declarations) : sizeOf d.typeSpec < sizeOf (TypeSpec.struct body) := by
  have hlt := List.sizeOf_lt_of_mem h
  obtain ⟨declarations⟩ := body
  obtain ⟨typeSpec, declarator⟩ := d
  simp only [TypeSpec.struct.sizeOf_spec, StructBody.mk.sizeOf_spec,
    Declaration.mk.sizeOf_spec] at hlt ⊢
  omega

theorem UnionBody.sizeOf_discriminant_lt (body : UnionBody) :
    sizeOf body.discriminant.typeSpec < sizeOf (TypeSpec.union body) := by
  obtain ⟨⟨typeSpec, declarator⟩, arms⟩ := body
  simp only [TypeSpec.union.sizeOf_spec, UnionBody.mk.sizeOf_spec, Declaration.mk.sizeOf_spec]
  omega

theorem UnionBody.sizeOf_arm_lt {body : UnionBody} {arm : UnionArm} (h : arm ∈ body.arms) :
    sizeOf arm.declaration.typeSpec < sizeOf (TypeSpec.union body) := by
  have hlt := List.sizeOf_lt_of_mem h
  obtain ⟨discriminant, arms⟩ := body
  obtain ⟨labels, ⟨typeSpec, declarator⟩⟩ := arm
  simp only [TypeSpec.union.sizeOf_spec, UnionBody.mk.sizeOf_spec, UnionArm.mk.sizeOf_spec,
    Declaration.mk.sizeOf_spec] at hlt ⊢
  omega

/-- Induction over the types that stand inside a type. -/
theorem TypeSpec.inner_induction {P : TypeSpec → Prop}
    (leaf : ∀ target : TypeSpec, (∀ body, target ≠ .struct body) → (∀ body, target ≠ .union body) →
      P target)
    (struct : ∀ body : StructBody, (∀ d ∈ body.declarations, P d.typeSpec) → P (.struct body))
    (union : ∀ body : UnionBody, P body.discriminant.typeSpec →
      (∀ arm ∈ body.arms, P arm.declaration.typeSpec) → P (.union body))
    (target : TypeSpec) : P target := by
  induction h : sizeOf target using Nat.strongRecOn generalizing target with
  | ind n ih =>
    subst h
    by_cases hstruct : ∃ body, target = .struct body
    · obtain ⟨body, rfl⟩ := hstruct
      exact struct body fun d hd => ih _ (StructBody.sizeOf_field_lt hd) _ rfl
    by_cases hunion : ∃ body, target = .union body
    · obtain ⟨body, rfl⟩ := hunion
      exact union body (ih _ body.sizeOf_discriminant_lt _ rfl)
        fun arm harm => ih _ (UnionBody.sizeOf_arm_lt harm) _ rfl
    · exact leaf target (fun body h => hstruct ⟨body, h⟩) (fun body h => hunion ⟨body, h⟩)

end OncRpc
