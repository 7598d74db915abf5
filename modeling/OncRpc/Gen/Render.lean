import OncRpc.Gen.Complete
import Mathlib.Order.Filter.AtTopBot.Basic
import Mathlib.Tactic.FinCases

/-!
# Schemas and their texts

The canonical rendering of a schema: numbers in decimal, commas between the variants of an
enumeration, the names of types without a keyword before them, and the parameters of procedures
without a name.  The parser reads every text of it as the schema again.
-/

namespace OncRpc

open Filter

/-! ## The canonical rendering -/

/-- The tokens of a declarator. -/
def Declarator.tokens (declarator : Declarator) : List Token :=
  match declarator.modifier with
  | none => [.identifier declarator.name]
  | some .optional => [.symbol '*', .identifier declarator.name]
  | some (.fixedArray bound) =>
    [.identifier declarator.name, .symbol '[', bound.token, .symbol ']']
  | some (.variableArray none) => [.identifier declarator.name, .symbol '<', .symbol '>']
  | some (.variableArray (some bound)) =>
    [.identifier declarator.name, .symbol '<', bound.token, .symbol '>']

/-- The tokens of the variants of an enumeration. -/
def variantTokens : List EnumVariant → List Token
  | [] => []
  | [⟨name, value⟩] => [.identifier name, .symbol '=', value.token]
  | ⟨name, value⟩ :: variant :: variants =>
    [.identifier name, .symbol '=', value.token, .symbol ','] ++ variantTokens (variant :: variants)

/-- The tokens of the body of an enumeration. -/
def EnumBody.tokens (body : EnumBody) : List Token :=
  [.symbol '{'] ++ variantTokens body.variants ++ [.symbol '}']

/-- The tokens of a label. -/
def UnionCaseLabel.tokens : UnionCaseLabel → List Token
  | .case value => [.keyword .case, value.token, .symbol ':']
  | .default => [.keyword .default, .symbol ':']

mutual

/-- The tokens of a type.  The types that only the generator writes have none. -/
def TypeSpec.tokens (type : TypeSpec) : List Token :=
  match type with
  | .void => [.keyword .void]
  | .bool => [.keyword .bool]
  | .int => [.keyword .int]
  | .unsignedInt => [.keyword .unsigned, .keyword .int]
  | .hyper => [.keyword .hyper]
  | .unsignedHyper => [.keyword .unsigned, .keyword .hyper]
  | .float => [.keyword .float]
  | .double => [.keyword .double]
  | .quadruple => [.keyword .quadruple]
  | .opaqueData => [.keyword .opaqueData]
  | .string => [.keyword .string]
  | .identifier name => [.identifier name]
  | .enum body => .keyword .enum :: body.tokens
  | .struct body => .keyword .struct :: body.tokens
  | .union body => .keyword .union :: body.tokens
  | .opaqueLength _ | .opaqueSegments _ => []
termination_by structural type

/-- The tokens of a declaration. -/
def Declaration.tokens (declaration : Declaration) : List Token :=
  match declaration with
  | ⟨type, declarator⟩ =>
    type.tokens ++ if declarator = ⟨"", none⟩ then [] else declarator.tokens
termination_by structural declaration

/-- The tokens of the body of a structure. -/
def StructBody.tokens (body : StructBody) : List Token :=
  match body with
  | ⟨declarations⟩ => [.symbol '{'] ++ fieldTokens declarations ++ [.symbol '}']
termination_by structural body

/-- The tokens of the fields of a structure. -/
def fieldTokens (declarations : List Declaration) : List Token :=
  match declarations with
  | [] => []
  | declaration :: declarations =>
    declaration.tokens ++ [.symbol ';'] ++ fieldTokens declarations
termination_by structural declarations

/-- The tokens of the body of a union. -/
def UnionBody.tokens (body : UnionBody) : List Token :=
  match body with
  | ⟨discriminant, arms⟩ =>
    [.keyword .switch, .symbol '('] ++ discriminant.tokens ++ [.symbol ')', .symbol '{'] ++
      armsTokens arms ++ [.symbol '}']
termination_by structural body

/-- The tokens of an arm of a union. -/
def UnionArm.tokens (arm : UnionArm) : List Token :=
  match arm with
  | ⟨labels, declaration⟩ =>
    labels.flatMap UnionCaseLabel.tokens ++ (declaration.tokens ++ [.symbol ';'])
termination_by structural arm

/-- The tokens of the arms of a union. -/
def armsTokens (arms : List UnionArm) : List Token :=
  match arms with
  | [] => []
  | arm :: arms => arm.tokens ++ armsTokens arms
termination_by structural arms

end

/-- The tokens of a procedure. -/
def ProcedureDecl.tokens (decl : ProcedureDecl) : List Token :=
  decl.returnType.tokens ++ [.identifier decl.name, .symbol '('] ++ decl.argumentType.tokens ++
    [.symbol ')', .symbol '=', u32Token decl.number, .symbol ';']

/-- The tokens of a version. -/
def VersionDecl.tokens (decl : VersionDecl) : List Token :=
  [.keyword .version, .identifier decl.name, .symbol '{'] ++
    decl.procedures.flatMap ProcedureDecl.tokens ++
    [.symbol '}', .symbol '=', u32Token decl.number, .symbol ';']

/-- The tokens of a program. -/
def ProgramDecl.tokens (decl : ProgramDecl) : List Token :=
  [.keyword .program, .identifier decl.name, .symbol '{'] ++
    decl.versions.flatMap VersionDecl.tokens ++
    [.symbol '}', .symbol '=', u32Token decl.number, .symbol ';']

/-- The tokens of an item. -/
def Item.tokens : Item → List Token
  | .const decl =>
    [.keyword .const, .identifier decl.name, .symbol '=', decl.value.token, .symbol ';']
  | .typedef decl =>
    .keyword .typedef :: decl.target.tokens ++ decl.declarator.tokens ++ [.symbol ';']
  | .struct name body => [.keyword .struct, .identifier name] ++ body.tokens ++ [.symbol ';']
  | .enum name body => [.keyword .enum, .identifier name] ++ body.tokens ++ [.symbol ';']
  | .union name body => [.keyword .union, .identifier name] ++ body.tokens ++ [.symbol ';']
  | .program decl => decl.tokens

/-- The tokens of a schema. -/
def Schema.tokens (schema : Schema) : List Token := schema.items.flatMap Item.tokens

-- The keyword of an inner type stands before its body, and the name behind it.
example : Schema.tokens ⟨[.typedef ⟨.struct ⟨[⟨.hyper, ⟨"x", some .optional⟩⟩]⟩, ⟨"t", none⟩⟩]⟩ =
    [.keyword .typedef, .keyword .struct, .symbol '{', .keyword .hyper, .symbol '*',
      .identifier "x", .symbol ';', .symbol '}', .identifier "t", .symbol ';'] := by
  decide +kernel

/-! ## The schemas that can be written -/

/-- A value that can be written. -/
def ValueExpr.Writable (value : ValueExpr) : Prop := value.token.Writable

/-- A declarator that can be written. -/
structure Declarator.Writable (declarator : Declarator) : Prop where
  name : IsIdentifier declarator.name
  fixed : ∀ bound, declarator.modifier = some (.fixedArray bound) → bound.Writable
  variable_ : ∀ bound, declarator.modifier = some (.variableArray (some bound)) → bound.Writable

/-- A body of an enumeration that can be written. -/
def EnumBody.Writable (body : EnumBody) : Prop :=
  ∀ v ∈ body.variants, IsIdentifier v.name ∧ v.value.Writable

/-- A declarator that can be written behind a type.  Only nothing may lack a name. -/
def Declarable (type : TypeSpec) (declarator : Declarator) : Prop :=
  type = .void ∧ declarator = ⟨"", none⟩ ∨ declarator.Writable

/-- The types that can be written. -/
inductive TypeSpec.Writable : TypeSpec → Prop where
  | void : Writable .void
  | bool : Writable .bool
  | int : Writable .int
  | unsignedInt : Writable .unsignedInt
  | hyper : Writable .hyper
  | unsignedHyper : Writable .unsignedHyper
  | float : Writable .float
  | double : Writable .double
  | quadruple : Writable .quadruple
  | opaqueData : Writable .opaqueData
  | string : Writable .string
  | identifier {name : String} (h : IsIdentifier name) : Writable (.identifier name)
  | enum {body : EnumBody} (h : body.Writable) : Writable (.enum body)
  | struct {body : StructBody}
      (declarable : ∀ d ∈ body.declarations, Declarable d.typeSpec d.declarator)
      (types : ∀ d ∈ body.declarations, Writable d.typeSpec) : Writable (.struct body)
  | union {body : UnionBody}
      (discriminant : Declarable body.discriminant.typeSpec body.discriminant.declarator)
      (type : Writable body.discriminant.typeSpec)
      (labelled : ∀ arm ∈ body.arms, arm.labels ≠ [])
      (values : ∀ arm ∈ body.arms, ∀ value, .case value ∈ arm.labels → value.Writable)
      (declarable : ∀ arm ∈ body.arms,
        Declarable arm.declaration.typeSpec arm.declaration.declarator)
      (types : ∀ arm ∈ body.arms, Writable arm.declaration.typeSpec) : Writable (.union body)

/-- A procedure that can be written. -/
structure ProcedureDecl.Writable (decl : ProcedureDecl) : Prop where
  name : IsIdentifier decl.name
  returnType : decl.returnType.Writable
  argumentType : decl.argumentType.Writable

/-- A program that can be written. -/
structure ProgramDecl.Writable (decl : ProgramDecl) : Prop where
  name : IsIdentifier decl.name
  versions : ∀ version ∈ decl.versions, IsIdentifier version.name ∧
    ∀ procedure ∈ version.procedures, procedure.Writable

/-- The items that can be written. -/
def Item.Writable : Item → Prop
  | .const decl => IsIdentifier decl.name ∧ decl.value.Writable
  | .typedef decl => decl.target.Writable ∧ decl.declarator.Writable
  | .struct name body => IsIdentifier name ∧ (TypeSpec.struct body).Writable
  | .enum name body => IsIdentifier name ∧ body.Writable
  | .union name body => IsIdentifier name ∧ (TypeSpec.union body).Writable
  | .program decl => decl.Writable

/-- The schemas that can be written: names are words and no keywords, numbers have a literal, the
arms of unions have labels, and a name is missing only where nothing is declared. -/
def Schema.Writable (schema : Schema) : Prop := ∀ item ∈ schema.items, item.Writable

/-! ## The rendering is a spelling -/

/-- A declarator is spelled by its tokens. -/
theorem Declarator.spelled_tokens (declarator : Declarator) :
    declarator.Spelled False declarator.tokens := by
  obtain ⟨name, _ | _ | (_ | bound) | _⟩ := declarator
  · exact .plain name
  · exact .array name (.fixed _)
  · exact .array name .unbounded
  · exact .array name (.bounded bound)
  · exact .optional name

/-- The members of an enumeration are spelled by their tokens. -/
theorem listed_variantTokens (variants : List EnumVariant) :
    Listed EnumVariant.Spelled variants (variantTokens variants) := by
  induction variants using variantTokens.induct with
  | case1 => exact .nil
  | case2 name value => exact .cons (EnumVariant.Spelled.bare name value) .nil
  | case3 name value variant variants ih => exact .cons (.comma name value) ih

/-- The body of an enumeration is spelled by its tokens. -/
theorem EnumBody.spelled_tokens (body : EnumBody) : body.Spelled body.tokens :=
  .mk (listed_variantTokens body.variants)

/-- Labels are spelled by their tokens. -/
theorem listed_labels (labels : List UnionCaseLabel) :
    Listed UnionCaseLabel.Spelled labels (labels.flatMap UnionCaseLabel.tokens) := by
  induction labels with
  | nil => exact .nil
  | cons label labels ih =>
    refine .cons ?_ ih
    cases label with
    | case value => exact .case value
    | default => exact .default

/-- A declaration is spelled by its tokens, if its type is. -/
theorem Declaration.spelled_tokens {R : TypeSpec → List Token → Prop} {declaration : Declaration}
    (hdeclarable : Declarable declaration.typeSpec declaration.declarator)
    (htype : R declaration.typeSpec declaration.typeSpec.tokens) :
    declaration.Spelled False R declaration.tokens := by
  obtain ⟨type, declarator⟩ := declaration
  rw [Declaration.tokens]
  rcases hdeclarable with ⟨rfl, rfl⟩ | hwritable
  · rw [if_pos rfl, List.append_nil]
    exact .void htype
  · have hnamed : declarator ≠ ⟨"", none⟩ := by
      rintro rfl
      obtain ⟨⟨first, rest, hcons, -⟩, -⟩ := hwritable.name
      simp at hcons
    rw [if_neg hnamed]
    exact .named htype declarator.spelled_tokens

/-- Fields are spelled by their tokens, if their types are. -/
theorem listed_fieldTokens {declarations : List Declaration}
    (declarable : ∀ d ∈ declarations, Declarable d.typeSpec d.declarator)
    (types : ∀ d ∈ declarations,
      ∀ᶠ depth in atTop, d.typeSpec.Spelled False depth d.typeSpec.tokens) :
    ∀ᶠ depth in atTop, Listed (Declaration.Field False (TypeSpec.Spelled False depth)) declarations
      (fieldTokens declarations) := by
  induction declarations with
  | nil => exact .of_forall fun _ => .nil
  | cons declaration declarations ih =>
    simp only [List.mem_cons, forall_eq_or_imp] at declarable types
    filter_upwards [types.1, ih declarable.2 types.2] with depth hhead htail
    exact .cons (.mk (Declaration.spelled_tokens declarable.1 hhead)) htail

/-- Arms are spelled by their tokens, if their types are. -/
theorem listed_armsTokens {arms : List UnionArm} (labelled : ∀ arm ∈ arms, arm.labels ≠ [])
    (declarable : ∀ arm ∈ arms, Declarable arm.declaration.typeSpec arm.declaration.declarator)
    (types : ∀ arm ∈ arms, ∀ᶠ depth in atTop,
      arm.declaration.typeSpec.Spelled False depth arm.declaration.typeSpec.tokens) :
    ∀ᶠ depth in atTop, Listed (UnionArm.Spelled False (TypeSpec.Spelled False depth)) arms
      (armsTokens arms) := by
  induction arms with
  | nil => exact .of_forall fun _ => .nil
  | cons arm arms ih =>
    simp only [List.mem_cons, forall_eq_or_imp] at labelled declarable types
    filter_upwards [types.1, ih labelled.2 declarable.2 types.2] with depth hhead htail
    have hdeclaration := Declaration.spelled_tokens declarable.1 hhead
    obtain ⟨labels, declaration⟩ := arm
    rw [armsTokens, UnionArm.tokens]
    exact .cons (.mk labelled.1 (listed_labels labels) (.mk hdeclaration)) htail

/-- The body of a structure is spelled by its tokens, if the types in it are. -/
theorem StructBody.spelled_tokens {body : StructBody}
    (declarable : ∀ d ∈ body.declarations, Declarable d.typeSpec d.declarator)
    (types : ∀ d ∈ body.declarations,
      ∀ᶠ depth in atTop, d.typeSpec.Spelled False depth d.typeSpec.tokens) :
    ∀ᶠ depth in atTop, body.Spelled False (TypeSpec.Spelled False depth) body.tokens := by
  obtain ⟨declarations⟩ := body
  exact (listed_fieldTokens declarable types).mono fun depth h => .mk h

/-- The body of a union is spelled by its tokens, if the types in it are. -/
theorem UnionBody.spelled_tokens {body : UnionBody}
    (discriminant : Declarable body.discriminant.typeSpec body.discriminant.declarator)
    (type : ∀ᶠ depth in atTop,
      body.discriminant.typeSpec.Spelled False depth body.discriminant.typeSpec.tokens)
    (labelled : ∀ arm ∈ body.arms, arm.labels ≠ [])
    (declarable : ∀ arm ∈ body.arms,
      Declarable arm.declaration.typeSpec arm.declaration.declarator)
    (types : ∀ arm ∈ body.arms, ∀ᶠ depth in atTop,
      arm.declaration.typeSpec.Spelled False depth arm.declaration.typeSpec.tokens) :
    ∀ᶠ depth in atTop, body.Spelled False (TypeSpec.Spelled False depth) body.tokens := by
  obtain ⟨discriminated, arms⟩ := body
  filter_upwards [type, listed_armsTokens labelled declarable types] with depth hdiscriminant harms
  exact .mk (Declaration.spelled_tokens discriminant hdiscriminant) harms

/-- A type is spelled from the depth on at which one of its layers is. -/
theorem eventually_spelled {type : TypeSpec}
    (h : ∀ᶠ depth in atTop, type.Layer False (TypeSpec.Spelled False depth) type.tokens) :
    ∀ᶠ depth in atTop, type.Spelled False depth type.tokens := by
  obtain ⟨least, hleast⟩ := eventually_atTop.mp h
  refine eventually_atTop.mpr ⟨least + 1, fun depth hdepth => ?_⟩
  obtain ⟨depth, rfl⟩ := Nat.exists_eq_add_of_le' (Nat.le_of_add_left_le hdepth)
  exact hleast depth (by omega)

/-- The tokens of a type spell it, from some depth on. -/
theorem TypeSpec.Writable.spelled {type : TypeSpec} (h : type.Writable) :
    ∀ᶠ depth in atTop, type.Spelled False depth type.tokens := by
  induction h with
  | void => exact eventually_spelled (.of_forall fun _ => .void)
  | bool => exact eventually_spelled (.of_forall fun _ => .bool)
  | int => exact eventually_spelled (.of_forall fun _ => .int)
  | unsignedInt => exact eventually_spelled (.of_forall fun _ => .unsignedInt)
  | hyper => exact eventually_spelled (.of_forall fun _ => .hyper)
  | unsignedHyper => exact eventually_spelled (.of_forall fun _ => .unsignedHyper)
  | float => exact eventually_spelled (.of_forall fun _ => .float)
  | double => exact eventually_spelled (.of_forall fun _ => .double)
  | quadruple => exact eventually_spelled (.of_forall fun _ => .quadruple)
  | opaqueData => exact eventually_spelled (.of_forall fun _ => .opaqueData)
  | string => exact eventually_spelled (.of_forall fun _ => .string)
  | identifier => exact eventually_spelled (.of_forall fun _ => .identifier _)
  | enum => exact eventually_spelled (.of_forall fun _ => .enum (EnumBody.spelled_tokens _))
  | struct declarable types ih =>
    have hbody := StructBody.spelled_tokens declarable ih
    exact eventually_spelled (hbody.mono fun depth h => .struct h)
  | union discriminant type labelled values declarable types ihd iha =>
    have hbody := UnionBody.spelled_tokens discriminant ihd labelled declarable iha
    exact eventually_spelled (hbody.mono fun depth h => .union h)

/-- A list is spelled by the tokens of its members, if each of them is. -/
theorem listed_flatMap {α : Type} {R : ℕ → α → List Token → Prop} {tokens : α → List Token}
    {items : List α} (h : ∀ item ∈ items, ∀ᶠ depth in atTop, R depth item (tokens item)) :
    ∀ᶠ depth in atTop, Listed (R depth) items (items.flatMap tokens) := by
  induction items with
  | nil => exact .of_forall fun _ => .nil
  | cons item items ih =>
    simp only [List.mem_cons, forall_eq_or_imp] at h
    filter_upwards [h.1, ih h.2] with depth hhead htail
    exact .cons hhead htail

/-- A procedure is spelled by its tokens. -/
theorem ProcedureDecl.Writable.spelled {decl : ProcedureDecl} (h : decl.Writable) :
    ∀ᶠ depth in atTop, decl.Spelled False (TypeSpec.Spelled False depth) decl.tokens := by
  filter_upwards [h.returnType.spelled, h.argumentType.spelled] with depth hreturn hargument
  refine .mk decl.name decl.number hreturn ?_
  by_cases hvoid : decl.argumentType = .void
  · rw [hvoid]
    exact .void
  · exact .bare hargument hvoid

/-- A program is spelled by its tokens. -/
theorem ProgramDecl.Writable.spelled {decl : ProgramDecl} (h : decl.Writable) :
    ∀ᶠ depth in atTop, decl.Spelled False (TypeSpec.Spelled False depth) decl.tokens := by
  have hversions : ∀ version ∈ decl.versions, ∀ᶠ depth in atTop,
      version.Spelled False (TypeSpec.Spelled False depth) version.tokens := by
    intro version hversion
    have hprocedures := listed_flatMap fun procedure hprocedure =>
      ((h.versions version hversion).2 procedure hprocedure).spelled
    exact hprocedures.mono fun depth h => .mk version.name version.number h
  exact (listed_flatMap hversions).mono fun depth h => .mk decl.name decl.number h

/-- An item is spelled by its tokens. -/
theorem Item.Writable.spelled {item : Item} (h : item.Writable) :
    ∀ᶠ depth in atTop, item.Spelled False (TypeSpec.Spelled False depth) item.tokens := by
  cases item with
  | const decl => exact .of_forall fun _ => .const decl.name decl.value
  | typedef decl => exact h.1.spelled.mono fun _ h => .typedef h decl.declarator.spelled_tokens
  | struct name body =>
    obtain ⟨-, hbody⟩ := h
    cases hbody with
    | struct declarable types =>
      have hspelled := StructBody.spelled_tokens declarable fun d hd => (types d hd).spelled
      exact hspelled.mono fun _ h => .struct name h
  | enum name body => exact .of_forall fun _ => .enum name body.spelled_tokens
  | union name body =>
    obtain ⟨-, hbody⟩ := h
    cases hbody with
    | union discriminant type labelled values declarable types =>
      have hspelled := UnionBody.spelled_tokens discriminant type.spelled labelled declarable
        fun arm harm => (types arm harm).spelled
      exact hspelled.mono fun _ h => .union name h
  | program decl =>
    have hprogram : ProgramDecl.Writable decl := h
    exact hprogram.spelled.mono fun _ h => .program h

/-- The tokens of a schema spell it in full. -/
theorem Schema.Writable.spelled {schema : Schema} (h : schema.Writable) :
    schema.Spelled False (schema.tokens ++ [.eof]) := by
  obtain ⟨depth, hdepth⟩ := (listed_flatMap fun item hitem => (h item hitem).spelled).exists
  exact ⟨depth, _, hdepth, rfl⟩

/-! ## The tokens of the rendering can be written -/

/-- Every token of the list can be written. -/
def AllWritable (tokens : List Token) : Prop := ∀ token ∈ tokens, token.Writable

/-- No tokens are writable tokens. -/
@[simp] theorem allWritable_nil : AllWritable [] := by simp [AllWritable]

/-- Tokens are writable if the first and the others are. -/
@[simp] theorem allWritable_cons {token : Token} {tokens : List Token} :
    AllWritable (token :: tokens) ↔ token.Writable ∧ AllWritable tokens := by
  simp [AllWritable]

/-- Two lists of tokens are writable if both are. -/
@[simp] theorem allWritable_append {front back : List Token} :
    AllWritable (front ++ back) ↔ AllWritable front ∧ AllWritable back := by
  simp [AllWritable, or_imp, forall_and]

/-- A keyword is writable. -/
@[simp] theorem writable_keyword {word : Keyword} : (Token.keyword word).Writable := trivial

/-- A symbol is writable if the tokenizer knows it. -/
@[simp] theorem writable_symbol {c : Char} : (Token.symbol c).Writable ↔ c ∈ symbols := .rfl

/-- A name is writable if it is an identifier. -/
@[simp] theorem writable_identifier {name : String} :
    (Token.identifier name).Writable ↔ IsIdentifier name := .rfl

/-- A number of 32 bits is writable. -/
@[simp] theorem writable_u32 {number : UInt32} : (u32Token number).Writable := by
  have := number.toNat_lt
  simp only [u32Token, Token.Writable]
  omega

/-- The tokens of a declarator are writable. -/
theorem Declarator.Writable.tokens {declarator : Declarator} (h : declarator.Writable) :
    AllWritable declarator.tokens := by
  obtain ⟨hname, hfixed, hvariable⟩ := h
  obtain ⟨name, _ | bound | (_ | bound) | _⟩ := declarator
  · simpa [Declarator.tokens] using hname
  · have hbound : bound.token.Writable := hfixed bound rfl
    simpa [Declarator.tokens, symbols, hbound] using hname
  · simpa [Declarator.tokens, symbols] using hname
  · have hbound : bound.token.Writable := hvariable bound rfl
    simpa [Declarator.tokens, symbols, hbound] using hname
  · simpa [Declarator.tokens, symbols] using hname

/-- The tokens of the body of an enumeration are writable. -/
theorem EnumBody.Writable.tokens {body : EnumBody} (h : body.Writable) :
    AllWritable body.tokens := by
  have hvariants : ∀ variants : List EnumVariant,
      (∀ v ∈ variants, IsIdentifier v.name ∧ v.value.Writable) →
      AllWritable (variantTokens variants) := by
    intro variants
    induction variants using variantTokens.induct with
    | case1 => simp [variantTokens]
    | case2 name value =>
      intro h
      have hvalue : value.token.Writable := (h _ List.mem_cons_self).2
      simpa [variantTokens, symbols, hvalue] using (h _ List.mem_cons_self).1
    | case3 name value variant variants ih =>
      intro h
      have hvalue : value.token.Writable := (h _ List.mem_cons_self).2
      have hrest := ih fun v hv => h v (List.mem_cons_of_mem _ hv)
      simpa [variantTokens, symbols, hvalue, hrest] using (h _ List.mem_cons_self).1
  simpa [EnumBody.tokens, symbols] using hvariants body.variants h

/-- The tokens of a declaration are writable, if those of its type are. -/
theorem Declaration.writable_tokens {declaration : Declaration}
    (hdeclarable : Declarable declaration.typeSpec declaration.declarator)
    (htype : AllWritable declaration.typeSpec.tokens) : AllWritable declaration.tokens := by
  obtain ⟨type, declarator⟩ := declaration
  rw [Declaration.tokens, allWritable_append]
  refine ⟨htype, ?_⟩
  split
  · simp
  · rcases hdeclarable with ⟨-, hempty⟩ | hwritable
    · contradiction
    · exact hwritable.tokens

/-- The tokens of an arm are writable, if those of its labels and its declaration are. -/
theorem UnionArm.writable_tokens {arm : UnionArm}
    (hvalues : ∀ value, .case value ∈ arm.labels → value.Writable)
    (hdeclaration : AllWritable arm.declaration.tokens) : AllWritable arm.tokens := by
  obtain ⟨labels, declaration⟩ := arm
  have hlabels : AllWritable (labels.flatMap UnionCaseLabel.tokens) := by
    intro token htoken
    obtain ⟨label, hlabel, htoken⟩ := List.mem_flatMap.mp htoken
    cases label with
    | case value =>
      have hvalue : value.token.Writable := hvalues value hlabel
      have hall : AllWritable (UnionCaseLabel.case value).tokens := by
        simp [UnionCaseLabel.tokens, symbols, hvalue]
      exact hall token htoken
    | default =>
      have hall : AllWritable UnionCaseLabel.default.tokens := by
        simp [UnionCaseLabel.tokens, symbols]
      exact hall token htoken
  simp [UnionArm.tokens, symbols, hlabels, hdeclaration]

/-- The tokens of a type are writable. -/
theorem TypeSpec.Writable.tokens {type : TypeSpec} (h : type.Writable) :
    AllWritable type.tokens := by
  induction h with
  | identifier hname => simpa [TypeSpec.tokens] using hname
  | enum hbody => simpa [TypeSpec.tokens] using hbody.tokens
  | @struct body declarable types ih =>
    obtain ⟨declarations⟩ := body
    have hfields : AllWritable (fieldTokens declarations) := by
      clear types
      induction declarations with
      | nil => simp [fieldTokens]
      | cons declaration declarations ih' =>
        simp only [List.mem_cons, forall_eq_or_imp] at declarable ih
        simp [fieldTokens, symbols, Declaration.writable_tokens declarable.1 ih.1,
          ih' declarable.2 ih.2]
    simp [TypeSpec.tokens, StructBody.tokens, symbols, hfields]
  | @union body discriminant type labelled values declarable types ihd iha =>
    obtain ⟨discriminated, arms⟩ := body
    have harms : AllWritable (armsTokens arms) := by
      clear labelled types
      induction arms with
      | nil => simp [armsTokens]
      | cons arm arms ih' =>
        simp only [List.mem_cons, forall_eq_or_imp] at values declarable iha
        have harm := UnionArm.writable_tokens values.1
          (Declaration.writable_tokens declarable.1 iha.1)
        simp [armsTokens, harm, ih' discriminant type values.2 declarable.2 ihd iha.2]
    have hdiscriminant := Declaration.writable_tokens discriminant ihd
    simp only at hdiscriminant
    simp [TypeSpec.tokens, UnionBody.tokens, symbols, harms, hdiscriminant]
  | _ => simp [TypeSpec.tokens]

/-- The tokens of a list are writable, if those of its members are. -/
theorem allWritable_flatMap {α : Type} {tokens : α → List Token} {items : List α}
    (h : ∀ item ∈ items, AllWritable (tokens item)) : AllWritable (items.flatMap tokens) := by
  intro token htoken
  obtain ⟨item, hitem, htoken⟩ := List.mem_flatMap.mp htoken
  exact h item hitem token htoken

/-- The tokens of a program are writable. -/
theorem ProgramDecl.Writable.tokens {decl : ProgramDecl} (h : decl.Writable) :
    AllWritable decl.tokens := by
  have hversions : ∀ version ∈ decl.versions, AllWritable version.tokens := by
    intro version hversion
    obtain ⟨hname, hprocedures⟩ := h.versions version hversion
    have hlisted := allWritable_flatMap fun procedure hprocedure => by
      obtain ⟨hname, hreturn, hargument⟩ := hprocedures procedure hprocedure
      show AllWritable procedure.tokens
      simp [ProcedureDecl.tokens, symbols, hname, hreturn.tokens, hargument.tokens]
    simp [VersionDecl.tokens, symbols, hname, hlisted]
  simp [ProgramDecl.tokens, symbols, h.name, allWritable_flatMap hversions]

/-- The tokens of an item are writable. -/
theorem Item.Writable.tokens {item : Item} (h : item.Writable) : AllWritable item.tokens := by
  cases item with
  | const decl =>
    have hvalue : decl.value.token.Writable := h.2
    simp [Item.tokens, symbols, hvalue, h.1]
  | typedef decl => simp [Item.tokens, symbols, h.1.tokens, h.2.tokens]
  | struct name body =>
    have hbody := h.2.tokens
    simp only [TypeSpec.tokens, allWritable_cons] at hbody
    simp [Item.tokens, symbols, h.1, hbody.2]
  | enum name body => simp [Item.tokens, symbols, h.1, h.2.tokens]
  | union name body =>
    have hbody := h.2.tokens
    simp only [TypeSpec.tokens, allWritable_cons] at hbody
    simp [Item.tokens, symbols, h.1, hbody.2]
  | program decl => exact ProgramDecl.Writable.tokens h

/-! ## The parser reads every text of the rendering -/

/-- The parser reads every text of the canonical rendering of a schema as the schema. -/
theorem parser_complete (schema : Schema) (hwritable : schema.Writable) (text : String)
    (htext : Renders schema.tokens text.toList) :
    parseXSource text = some (.ok schema) := by
  have htokens : AllWritable schema.tokens :=
    allWritable_flatMap fun item hitem => (hwritable item hitem).tokens
  unfold parseXSource
  rw [htext.sourceTokens htokens]
  exact parseSchema_of_spelled hwritable.spelled

/-- A source whose tokens the parser reads as a schema. -/
theorem parseXSource_of_tokens {schema : Schema} {source : String}
    (htokens : (sourceTokens source.toList).toOption = some (schema.tokens ++ [.eof]))
    (hparse : parseSchema (schema.tokens ++ [.eof]) = some (.ok schema)) :
    parseXSource source = some (.ok schema) := by
  unfold parseXSource
  rcases hsource : sourceTokens source.toList with error | tokens
  · rw [hsource] at htokens
    cases htokens
  · rw [hsource] at htokens
    obtain rfl := Option.some.inj htokens
    exact hparse

/-- A source, given by its characters, whose tokens the parser reads as a schema. -/
theorem parseXSource_of_chars {schema : Schema} {source : String} {chars : List Char}
    (hchars : source.toList = chars)
    (htokens : (sourceTokens chars).toOption = some (schema.tokens ++ [.eof]))
    (hparse : parseSchema (schema.tokens ++ [.eof]) = some (.ok schema)) :
    parseXSource source = some (.ok schema) :=
  parseXSource_of_tokens (hchars ▸ htokens) hparse

/-- A list of tokens with a space before each of them. -/
def spaced (tokens : List Token) : List Char := tokens.flatMap fun token => ' ' :: token.text

/-- Tokens with spaces between them are a text of the tokens. -/
theorem renders_spaced (tokens : List Token) : Renders tokens (spaced tokens) := by
  induction tokens with
  | nil => exact .nil (by simp [spaced])
  | cons token tokens ih =>
    have hspace : ∀ c ∈ [' '], isSpace c := List.forall_mem_singleton.mpr (by decide)
    have hcons : spaced (token :: tokens) = [' '] ++
        (token.text ++ spaced tokens) := by simp [spaced]
    rw [hcons]
    refine .cons hspace ih fun _ c hc => ?_
    cases tokens with
    | nil => simp [spaced] at hc
    | cons first rest =>
      obtain rfl : ' ' = c := by simpa [spaced] using hc
      decide

/-- A list of nodes, and a program with a procedure on it. -/
def nodeSchema : Schema where
  items := [
    .const ⟨"LIMIT", .number (-7)⟩,
    .struct "node" ⟨[
      ⟨.unsignedInt, "value", some (.fixedArray (.number 16))⟩,
      ⟨.union ⟨⟨.int, "kind", none⟩, [
        ⟨[.case (.number 0), .default], .void, "", none⟩,
        ⟨[.case (.identifier "LIMIT")], .identifier "node", "next", some .optional⟩]⟩,
        "rest", none⟩]⟩,
    .program ⟨"NODES", [⟨"NODES_V1", [⟨.void, "PUT", .identifier "node", 1⟩], 1⟩], 9⟩]

/-- It can be written. -/
theorem nodeSchema_writable : nodeSchema.Writable := by
  have hname : ∀ name ∈ ["LIMIT", "node", "value", "kind", "next", "rest", "NODES",
      "NODES_V1", "PUT"],
      IsIdentifier name := by
    intro name hname
    fin_cases hname <;> exact ⟨.of_all rfl (by decide) (by decide), by decide⟩
  have hunion : TypeSpec.Writable (.union ⟨⟨.int, "kind", none⟩, [
      ⟨[.case (.number 0), .default], .void, "", none⟩,
      ⟨[.case (.identifier "LIMIT")], .identifier "node", "next", some .optional⟩]⟩) := by
    refine .union (.inr ⟨hname _ (by decide), by simp, by simp⟩) .int (by simp) ?_ ?_ ?_
    · simp only [List.mem_cons, List.not_mem_nil, or_false, forall_eq_or_imp, forall_eq]
      refine ⟨?_, ?_⟩
      · rintro value (h | h)
        · obtain rfl := UnionCaseLabel.case.inj h
          simp [ValueExpr.Writable, ValueExpr.token, Token.Writable]
        · cases h
      · rintro value h
        obtain rfl := UnionCaseLabel.case.inj h
        exact hname _ (by decide)
    · simp only [List.mem_cons, List.not_mem_nil, or_false, forall_eq_or_imp, forall_eq]
      exact ⟨.inl ⟨rfl, rfl⟩, .inr ⟨hname _ (by decide), by simp, by simp⟩⟩
    · simp only [List.mem_cons, List.not_mem_nil, or_false, forall_eq_or_imp, forall_eq]
      exact ⟨.void, .identifier (hname _ (by decide))⟩
  have hbound : ValueExpr.Writable (.number 16) := by
    simp [ValueExpr.Writable, ValueExpr.token, Token.Writable]
  simp only [Schema.Writable, nodeSchema, List.mem_cons, List.not_mem_nil, or_false,
    forall_eq_or_imp, forall_eq]
  refine ⟨⟨hname _ (by decide), ?_⟩, ⟨hname _ (by decide), .struct ?_ ?_⟩,
    ⟨hname _ (by decide), ?_⟩⟩
  · simp [ValueExpr.Writable, ValueExpr.token, Token.Writable]
  · simp only [List.mem_cons, List.not_mem_nil, or_false, forall_eq_or_imp, forall_eq]
    exact ⟨.inr ⟨hname _ (by decide), by rintro bound ⟨⟩; exact hbound, by simp⟩,
      .inr ⟨hname _ (by decide), by simp, by simp⟩⟩
  · simp only [List.mem_cons, List.not_mem_nil, or_false, forall_eq_or_imp, forall_eq]
    exact ⟨.unsignedInt, hunion⟩
  · simp only [List.mem_cons, List.not_mem_nil, or_false, forall_eq]
    exact ⟨hname _ (by decide), hname _ (by decide), .void, .identifier (hname _ (by decide))⟩

/-- The text of the schema of nodes. -/
def nodeText : String :=
  " const LIMIT = -7 ; struct node \x7b unsigned int value [ 16 ] ; union switch ( int kind ) \x7b " ++
    "case 0 : default : void ; case LIMIT : node * next ; \x7d rest ; \x7d ; program NODES \x7b " ++
    "version NODES_V1 \x7b void PUT ( node ) = 1 ; \x7d = 1 ; \x7d = 9 ;"

/-- A text of a schema with a union inside a structure is read back. -/
theorem parser_complete_node :
    nodeSchema.Writable ∧ Renders nodeSchema.tokens nodeText.toList ∧
      parseXSource nodeText = some (.ok nodeSchema) := by
  -- The text is split into characters by rewriting; the kernel would decode it byte by byte.
  have htext : nodeText.toList = spaced nodeSchema.tokens := calc
    nodeText.toList = _ :=
      toList_append_of_eq (toList_append_of_eq (toList_of_eq rfl) (toList_of_eq rfl))
        (toList_of_eq rfl)
    _ = spaced nodeSchema.tokens := by decide +kernel
  have hrenders : Renders nodeSchema.tokens nodeText.toList := htext ▸ renders_spaced _
  exact ⟨nodeSchema_writable, hrenders,
    parser_complete nodeSchema nodeSchema_writable nodeText hrenders⟩

end OncRpc
