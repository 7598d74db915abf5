import OncRpc.Foundation.Paired
import OncRpc.Gen.LayoutSearch
import OncRpc.Gen.Render
import Mathlib.Logic.Relation

/-!
# What a layout promises

A path of a type is what is encoded of it when an arm is taken at every union, and every optional
value is there or not: a list of control fields, with their sizes where the schema tells them, and
of variable opaque bodies.  A type with a shape does not lead back to itself
(`nonRecursive_of_namedFrom`), and on each of its paths there are control fields of known sizes, and
at most one body, which comes last (`fits_of_namedFrom`).

If the shape says so, there is a path with a body (`reaches_of_namedFrom`), but only if every union
on the way has an arm: a union without arms has no path, and a structure with such a field has none
either, whatever its last field is.
-/

namespace OncRpc

open Foundation
open Relation (ReflTransGen TransGen)

/-! ## Paths -/

/-- A piece of an encoding. -/
inductive Piece where
  /-- A control field, and its size if the schema tells it. -/
  | control (size : Option ℕ)
  /-- The bytes of a variable opaque body. -/
  | body
  deriving DecidableEq

/-- The size of the types that are encoded in so many bytes. -/
def TypeSpec.plainSize : TypeSpec → Option ℕ
  | .bool | .int | .unsignedInt | .float | .enum _ => some 4
  | .hyper | .unsignedHyper | .double => some 8
  | .quadruple => some 16
  | .opaqueData => some 1
  | _ => none

/-- What an item says about its name. -/
def Item.declared : Item → Option (TypeSpec × Option DeclaratorModifier)
  | .typedef decl => some (decl.target, decl.declarator.modifier)
  | .struct _ body => some (.struct body, none)
  | .enum _ body => some (.enum body, none)
  | .union _ body => some (.union body, none)
  | .const _ | .program _ => none

namespace OwnedLayouts

variable (layouts : OwnedLayouts)

/-- A length is a number that is not negative, or a constant with such a value. -/
inductive Evaluates : ValueExpr → ℕ → Prop
  | number {number : Int} (h : 0 ≤ number) : Evaluates (.number number) number.toNat
  | identifier {name : String} {value : ValueExpr} {n : ℕ}
      (hconstant : layouts.constant name = some value) (h : Evaluates value n) :
      Evaluates (.identifier name) n

/-- A name stands for a type. -/
def Declares (name : String) (target : TypeSpec) (modifier : Option DeclaratorModifier) : Prop :=
  ∃ item, layouts.item name = some item ∧ item.declared = some (target, modifier)

/-- The paths of a declaration: what is encoded, one piece after the other, when an arm is taken at
every union and every optional value is there or not.  A string, a variable array, an array whose
length has no value and a name that stands for no type are control fields of a size that the schema
does not tell. -/
inductive IsPath : TypeSpec → Option DeclaratorModifier → List Piece → Prop
  | void : IsPath .void none []
  | plain {target : TypeSpec} {size : ℕ} (hsize : target.plainSize = some size) :
      IsPath target none [.control (some size)]
  | string : IsPath .string none [.control none]
  | opaqueLength (bound : Option ValueExpr) : IsPath (.opaqueLength bound) none [.control none]
  | opaqueSegments (bound : Option ValueExpr) : IsPath (.opaqueSegments bound) none [.control none]
  | named {name : String} {target : TypeSpec} {modifier : Option DeclaratorModifier}
      {pieces : List Piece} (hdeclares : layouts.Declares name target modifier)
      (h : IsPath target modifier pieces) : IsPath (.identifier name) none pieces
  | undeclared {name : String} (h : ∀ target modifier, ¬ layouts.Declares name target modifier) :
      IsPath (.identifier name) none [.control none]
  | struct {body : StructBody} {parts : List (List Piece)}
      (h : List.Forall₂ (fun (d : Declaration) part => IsPath d.typeSpec d.declarator.modifier part)
        body.declarations parts) : IsPath (.struct body) none parts.flatten
  | union {body : UnionBody} {arm : UnionArm} {front back : List Piece}
      (hdiscriminant : IsPath body.discriminant.typeSpec
        body.discriminant.declarator.modifier front)
      (hmem : arm ∈ body.arms)
      (harm : IsPath arm.declaration.typeSpec arm.declaration.declarator.modifier back) :
      IsPath (.union body) none (front ++ back)
  | variableOpaque (bound : Option ValueExpr) :
      IsPath .opaqueData (some (.variableArray bound)) [.control (some 4), .body]
  | variableArray {target : TypeSpec} (bound : Option ValueExpr) (hdata : target ≠ .opaqueData) :
      IsPath target (some (.variableArray bound)) [.control none]
  | fixedOpaque {bound : ValueExpr} {count : ℕ} (hcount : Evaluates layouts bound count) :
      IsPath .opaqueData (some (.fixedArray bound)) [.control (some ((count + 3) / 4 * 4))]
  | fixedArray {target : TypeSpec} {bound : ValueExpr} {parts : List (List Piece)}
      (hdata : target ≠ .opaqueData) (hcount : Evaluates layouts bound parts.length)
      (h : ∀ part ∈ parts, IsPath target none part) :
      IsPath target (some (.fixedArray bound)) parts.flatten
  | uncounted {target : TypeSpec} {bound : ValueExpr}
      (hcount : ∀ count, ¬ Evaluates layouts bound count) :
      IsPath target (some (.fixedArray bound)) [.control none]
  | absent (target : TypeSpec) : IsPath target (some .optional) [.control (some 4)]
  | present {target : TypeSpec} {pieces : List Piece} (h : IsPath target none pieces) :
      IsPath target (some .optional) (.control (some 4) :: pieces)

end OwnedLayouts

/-! ## Names on the way -/

/-- A type stands inside a type, or is that type; names are not followed. -/
inductive TypeSpec.Inside (inner : TypeSpec) : TypeSpec → Prop
  | refl : Inside inner inner
  | field {body : StructBody} {d : Declaration} (hmem : d ∈ body.declarations)
      (h : Inside inner d.typeSpec) : Inside inner (.struct body)
  | discriminant {body : UnionBody} (h : Inside inner body.discriminant.typeSpec) :
      Inside inner (.union body)
  | arm {body : UnionBody} {arm : UnionArm} (hmem : arm ∈ body.arms)
      (h : Inside inner arm.declaration.typeSpec) : Inside inner (.union body)

namespace OwnedLayouts

variable (layouts : OwnedLayouts)

/-- What a name stands for mentions another name. -/
def Mentions (name other : String) : Prop :=
  ∃ target modifier, layouts.Declares name target modifier ∧
    (TypeSpec.identifier other).Inside target

/-- No name that a name leads to leads back to itself. -/
def NonRecursive (name : String) : Prop :=
  ∀ other, ReflTransGen layouts.Mentions name other → ¬ TransGen layouts.Mentions other other

/-- Every union that a name leads to has an arm. -/
def UnionsHaveArms (name : String) : Prop :=
  ∀ other target modifier body, ReflTransGen layouts.Mentions name other →
    layouts.Declares other target modifier → (TypeSpec.union body).Inside target → body.arms ≠ []

end OwnedLayouts

/-! ## Pieces of known size -/

/-- Control fields of those sizes. -/
def controls (sizes : List ℕ) : List Piece := sizes.map fun size => .control (some size)

/-- Control pieces of two lists are those of each. -/
theorem controls_append (sizes sizes' : List ℕ) :
    controls (sizes ++ sizes') = controls sizes ++ controls sizes' := List.map_append

/-- Control pieces have no body. -/
theorem body_notMem_controls (sizes : List ℕ) : Piece.body ∉ controls sizes := by
  intro hmem
  obtain ⟨size, -, heq⟩ := List.mem_map.mp hmem
  cases heq

/-- The pieces are control fields of known sizes, no larger in all than the shape says, and a body
at most after the last of them, if the shape has one. -/
def Shape.Fits (shape : Shape) (pieces : List Piece) : Prop :=
  ∃ sizes : List ℕ, sizes.sum ≤ shape.prefixBytes ∧
    (pieces = controls sizes ∨ shape.body = true ∧ pieces = controls sizes ++ [.body])

namespace Shape.Fits

variable {shape shape' : Shape} {pieces pieces' : List Piece}

/-- Every shape fits no pieces. -/
theorem nil (shape : Shape) : shape.Fits [] := ⟨[], Nat.zero_le _, .inl rfl⟩

/-- A shape fits one control piece within its prefix. -/
theorem control {size : ℕ} (h : size ≤ shape.prefixBytes) : shape.Fits [.control (some size)] :=
  ⟨[size], by simpa using h, .inl rfl⟩

/-- What fits a shape fits every larger one. -/
theorem mono (h : shape.Fits pieces) (hsize : shape.prefixBytes ≤ shape'.prefixBytes)
    (hbody : shape.body = true → shape'.body = true) : shape'.Fits pieces := by
  obtain ⟨sizes, hsum, hpieces⟩ := h
  refine ⟨sizes, hsum.trans hsize, hpieces.imp_right fun hlast => ⟨hbody hlast.1, hlast.2⟩⟩

/-- Only a shape with a body has a body among its pieces. -/
theorem body_of_mem (h : shape.Fits pieces) (hmem : .body ∈ pieces) : shape.body = true := by
  obtain ⟨sizes, -, rfl | ⟨hbody, -⟩⟩ := h
  · exact absurd hmem (body_notMem_controls sizes)
  · exact hbody

/-- Pieces in a row, if there is no body among the first ones. -/
theorem append {prefixBytes : ℕ} (h : shape.Fits pieces) (hfree : shape.body = false)
    (h' : shape'.Fits pieces') (hsize : shape.prefixBytes + shape'.prefixBytes ≤ prefixBytes) :
    Shape.Fits ⟨prefixBytes, shape'.body⟩ (pieces ++ pieces') := by
  obtain ⟨sizes, hsum, rfl | ⟨hbody, -⟩⟩ := h
  swap
  · rw [hfree] at hbody
    cases hbody
  obtain ⟨sizes', hsum', hpieces⟩ := h'
  refine ⟨sizes ++ sizes', ?_, hpieces.imp ?_ ?_⟩
  · rw [List.sum_append]
    exact (Nat.add_le_add hsum hsum').trans hsize
  · rintro rfl
    exact (controls_append sizes sizes').symm
  · rintro ⟨hbody, rfl⟩
    rw [controls_append, List.append_assoc]
    exact ⟨hbody, rfl⟩

/-- Pieces in a row that all fit one shape without a body. -/
theorem flatten {parts : List (List Piece)} (h : ∀ part ∈ parts, shape.Fits part)
    (hfree : shape.body = false) :
    Shape.Fits ⟨parts.length * shape.prefixBytes, false⟩ parts.flatten := by
  induction parts with
  | nil => exact nil _
  | cons part parts ih =>
    obtain ⟨hfirst, hrest⟩ := List.forall_mem_cons.mp h
    rw [List.flatten_cons]
    refine hfirst.append hfree (ih hrest) ?_
    rw [List.length_cons, Nat.succ_mul, Nat.add_comm]

end Shape.Fits

namespace OwnedLayouts

variable {layouts : OwnedLayouts} {named : String → Option Shape}

/-! ## Lengths -/

/-- A length has one value. -/
theorem Evaluates.unique {value : ValueExpr} {n m : ℕ} (h : layouts.Evaluates value n)
    (h' : layouts.Evaluates value m) : n = m := by
  induction h generalizing m with
  | number => cases h'; rfl
  | identifier hconstant _ ih =>
    cases h' with
    | identifier hconstant' h' =>
      rw [hconstant] at hconstant'
      cases hconstant'
      exact ih h'

/-- What is found for a length is its value. -/
theorem evaluates_of_valueFrom {fuel : ℕ} {seen : List String} {value : ValueExpr} {n : ℕ}
    (h : layouts.valueFrom fuel seen value = some n) : layouts.Evaluates value n := by
  induction fuel generalizing seen value with
  | zero =>
    cases value with
    | number number =>
      rw [valueFrom] at h
      split at h
      · next hpos =>
        cases h
        exact .number hpos
      · cases h
    | identifier name => cases h
  | succ fuel ih =>
    cases value with
    | number number =>
      rw [valueFrom] at h
      split at h
      · next hpos =>
        cases h
        exact .number hpos
      · cases h
    | identifier name =>
      rw [valueFrom] at h
      split at h
      · cases h
      · obtain ⟨value, hconstant, hvalue⟩ := Option.bind_eq_some_iff.mp h
        exact .identifier hconstant (ih hvalue)

/-! ## The pieces fit -/

/-- The shape fits every path of a declaration. -/
def AllFit (layouts : OwnedLayouts) (target : TypeSpec) (modifier : Option DeclaratorModifier)
    (shape : Shape) : Prop :=
  ∀ pieces, layouts.IsPath target modifier pieces → shape.Fits pieces

/-- A fixed array with a shape has no body, nor do its elements. -/
theorem free_of_fixedArrayShape {target : TypeSpec} {count : ℕ} {inner shape : Shape}
    (h : fixedArrayShape target count inner = some shape) : inner.body = false ∧
      shape.body = false := by
  rcases inner with ⟨size, _ | _⟩
  · refine ⟨rfl, ?_⟩
    cases target <;>
      (obtain ⟨_, -, rfl⟩ := Option.map_eq_some_iff.mp h
       rfl)
  · cases target <;> cases h

/-- A fixed array, if the shape of its elements fits. -/
theorem fixedArray_fits {target : TypeSpec} {bound : ValueExpr} {count : ℕ} {inner shape : Shape}
    (hcount : layouts.Evaluates bound count) (hinner : layouts.AllFit target none inner)
    (h : fixedArrayShape target count inner = some shape) :
    layouts.AllFit target (some (.fixedArray bound)) shape := by
  have hfree : inner.body = false := (free_of_fixedArrayShape h).1
  intro pieces hpath
  cases hpath with
  | fixedOpaque hcount' =>
    obtain rfl := hcount.unique hcount'
    simp only [fixedArrayShape, hfree, Bool.false_eq_true, if_false] at h
    obtain ⟨padded, hpadded, rfl⟩ := Option.map_eq_some_iff.mp h
    obtain ⟨rfl, -⟩ := checkedAdd_eq_some.mp hpadded
    exact .control le_rfl
  | @fixedArray _ _ parts hdata hcount' hparts =>
    obtain rfl := hcount.unique hcount'
    have hsize : shape = ⟨parts.length * inner.prefixBytes, false⟩ := by
      simp only [fixedArrayShape, hfree, Bool.false_eq_true, if_false] at h
      obtain ⟨size, hsize, rfl⟩ := Option.map_eq_some_iff.mp h
      obtain ⟨rfl, -⟩ := checkedMul_eq_some.mp hsize
      rfl
    rw [hsize]
    exact .flatten (fun part hpart => hinner part (hparts part hpart)) hfree
  | uncounted hcount' => exact absurd hcount (hcount' count)

/-- A declarator, if the shape of the type fits. -/
theorem modifier_fits {target : TypeSpec} {modifier : Option DeclaratorModifier}
    {base : Option Shape} {shape : Shape}
    (hbase : ∀ inner, base = some inner → layouts.AllFit target none inner)
    (h : layouts.modifierShape target modifier base = some shape) :
    layouts.AllFit target modifier shape := by
  rcases modifier with _ | (bound | bound | _)
  · exact hbase shape h
  · rw [modifierShape_fixedArray] at h
    obtain ⟨count, hcount, h⟩ := Option.bind_eq_some_iff.mp h
    obtain ⟨inner, hinner, h⟩ := Option.bind_eq_some_iff.mp h
    exact fixedArray_fits (evaluates_of_valueFrom hcount) (hbase inner hinner) h
  · intro pieces hpath
    have hshape : target = .opaqueData ∧ shape = ⟨4, true⟩ := by
      simp only [modifierShape] at h
      split at h
      · rcases bound with _ | bound
        · exact ⟨rfl, (Option.some.inj h).symm⟩
        · obtain ⟨_, -, rfl⟩ := Option.map_eq_some_iff.mp h
          exact ⟨rfl, rfl⟩
      · cases h
    obtain ⟨rfl, rfl⟩ := hshape
    cases hpath with
    | variableOpaque => exact ⟨[4], le_rfl, .inr ⟨rfl, rfl⟩⟩
    | variableArray _ hdata => exact absurd rfl hdata
  · rw [modifierShape_optional] at h
    obtain ⟨inner, hinner, h⟩ := Option.bind_eq_some_iff.mp h
    obtain ⟨size, hsize, rfl⟩ := Option.map_eq_some_iff.mp h
    obtain ⟨rfl, -⟩ := checkedAdd_eq_some.mp hsize
    intro pieces hpath
    cases hpath with
    | absent => exact .control (Nat.le_add_left ..)
    | present hpath =>
      have hword : Shape.Fits ⟨4, false⟩ [.control (some 4)] := .control le_rfl
      exact hword.append rfl (hbase inner hinner _ hpath) (Nat.add_comm ..).le

/-- The fields of a structure, if their shapes fit.  Only the last may have a body. -/
theorem fields_fit {declarations : List Declaration} (hdeclarations : ∀ d ∈ declarations,
      ∀ shape, layouts.declaration named d = some shape →
        layouts.AllFit d.typeSpec d.declarator.modifier shape)
    {start shape : Shape} (h : layouts.fieldsFrom named start declarations = some shape)
    {parts : List (List Piece)}
    (hparts : List.Forall₂ (fun (d : Declaration) part =>
      layouts.IsPath d.typeSpec d.declarator.modifier part) declarations parts) :
    ∃ rest : Shape, start.prefixBytes + rest.prefixBytes ≤ shape.prefixBytes ∧
      (rest.body = true → shape.body = true) ∧ rest.Fits parts.flatten := by
  induction hparts generalizing start with
  | nil =>
    cases h
    exact ⟨⟨0, false⟩, le_rfl, fun h => Bool.noConfusion h, .nil _⟩
  | @cons d part declarations parts hpart hparts ih =>
    rw [fieldsFrom] at h
    obtain ⟨hfirst, hrest⟩ := List.forall_mem_cons.mp hdeclarations
    obtain ⟨field, hfield, h⟩ := Option.bind_eq_some_iff.mp h
    split at h
    · cases h
    next hlast =>
      obtain ⟨size, hsize, h⟩ := Option.bind_eq_some_iff.mp h
      obtain ⟨rfl, -⟩ := checkedAdd_eq_some.mp hsize
      have hfits : field.Fits part := hfirst field hfield part hpart
      obtain ⟨rest, hle, hbody, hrestFits⟩ := ih hrest h
      rcases hdone : declarations with _ | ⟨next, more⟩
      · subst hdone
        cases hparts
        rw [fieldsFrom] at h
        cases h
        refine ⟨field, le_rfl, fun hbody => by simp [hbody], ?_⟩
        simpa using hfits
      · have hfree : field.body = false := by
          simpa [hdone] using hlast
        refine ⟨⟨field.prefixBytes + rest.prefixBytes, rest.body⟩, ?_, hbody, ?_⟩
        · rw [← Nat.add_assoc]
          exact hle
        · rw [List.flatten_cons]
          exact hfits.append hfree hrestFits le_rfl

/-- The pieces of a structure fit its shape, if those of its fields do. -/
theorem structure_fits {body : StructBody} (hdeclarations : ∀ d ∈ body.declarations,
      ∀ shape, layouts.declaration named d = some shape →
        layouts.AllFit d.typeSpec d.declarator.modifier shape)
    {shape : Shape} (h : layouts.structure_ named body = some shape) :
    layouts.AllFit (.struct body) none shape := by
  intro pieces hpath
  cases hpath with
  | plain hsize => cases hsize
  | struct hparts =>
    rw [structure_eq] at h
    obtain ⟨rest, hle, hbody, hfits⟩ := fields_fit hdeclarations h hparts
    exact hfits.mono ((Nat.le_add_left ..).trans hle) hbody

/-- The pieces of a union fit its shape, if those of its arms do. -/
theorem union_fits {body : UnionBody}
    (hdiscriminant : ∀ shape, layouts.declaration named body.discriminant = some shape →
      layouts.AllFit body.discriminant.typeSpec body.discriminant.declarator.modifier shape)
    (harms : ∀ arm ∈ body.arms, ∀ shape, layouts.declaration named arm.declaration = some shape →
      layouts.AllFit arm.declaration.typeSpec arm.declaration.declarator.modifier shape)
    {shape : Shape} (h : layouts.union named body = some shape) :
    layouts.AllFit (.union body) none shape := by
  obtain ⟨discriminant, largest, hd, hfree, hlargest, hsize, hbody⟩ := union_eq_some_iff.mp h
  obtain ⟨hsize, -⟩ := checkedAdd_eq_some.mp hsize
  obtain ⟨-, -, hall⟩ := armsFrom_eq_some hlargest
  intro pieces hpath
  cases hpath with
  | plain hsize => cases hsize
  | union hfront hmem hback =>
    obtain ⟨other, hother, hle, hother'⟩ := hall _ hmem
    have hfits : largest.Fits _ := (harms _ hmem other hother _ hback).mono hle fun hbody => by
      by_contra hnone
      rw [hother' (by simpa using hnone)] at hbody
      cases hbody
    have hunion := (hdiscriminant discriminant hd _ hfront).append hfree hfits hsize.ge
    exact hunion.mono le_rfl fun hlargestBody => hbody.trans hlargestBody

/-- The pieces of a declaration fit its shape, if those of its base type do. -/
theorem declaration_fits_of_base {d : Declaration}
    (hbase : ∀ inner, layouts.base named d.typeSpec = some inner →
      layouts.AllFit d.typeSpec none inner)
    {shape : Shape} (h : layouts.declaration named d = some shape) :
    layouts.AllFit d.typeSpec d.declarator.modifier shape := by
  rw [declaration_eq] at h
  exact modifier_fits hbase h

/-- A type, if the shapes of names fit: one case for each form of what stands inside it. -/
theorem base_fits
    (hnamed : ∀ name shape, named name = some shape → layouts.AllFit (.identifier name) none shape)
    (target : TypeSpec) : ∀ shape, layouts.base named target = some shape →
      layouts.AllFit target none shape := by
  induction target using TypeSpec.inner_induction with
  | struct body ih =>
    intro shape h
    rw [base, bodyFree, Option.filter_eq_some_iff] at h
    exact structure_fits (fun d hd shape hshape => declaration_fits_of_base (ih d hd) hshape) h.1
  | union body hdiscriminant harms =>
    intro shape h
    rw [base, bodyFree, Option.filter_eq_some_iff] at h
    exact union_fits (fun shape hshape => declaration_fits_of_base hdiscriminant hshape)
      (fun arm harm shape hshape => declaration_fits_of_base (harms arm harm) hshape) h.1
  | leaf target hstruct hunion =>
    intro shape h pieces hpath
    cases target with
    | identifier name =>
      rw [base] at h
      exact hnamed name shape h pieces hpath
    | struct body => exact absurd rfl (hstruct body)
    | union body => exact absurd rfl (hunion body)
    | void =>
      cases hpath with
      | void => exact .nil shape
      | plain hsize => cases hsize
    | string | opaqueLength | opaqueSegments => cases h
    | _ =>
      cases h
      cases hpath with
      | plain hsize =>
        cases hsize
        exact .control le_rfl

/-- What a name stands for, if the shapes of names fit. -/
theorem item_fits
    (hnamed : ∀ name shape, named name = some shape → layouts.AllFit (.identifier name) none shape)
    {item : Item} {target : TypeSpec} {modifier : Option DeclaratorModifier}
    (hdeclared : item.declared = some (target, modifier)) {shape : Shape}
    (h : layouts.itemShape named item = some shape) : layouts.AllFit target modifier shape := by
  have hdeclaration (d : Declaration) (inner : Shape)
      (hinner : layouts.declaration named d = some inner) :
      layouts.AllFit d.typeSpec d.declarator.modifier inner :=
    declaration_fits_of_base (base_fits hnamed d.typeSpec) hinner
  cases item with
  | typedef decl =>
    cases hdeclared
    exact hdeclaration ⟨decl.target, decl.declarator⟩ shape h
  | struct name body =>
    cases hdeclared
    exact structure_fits (fun d _ => hdeclaration d) h
  | enum name body =>
    cases hdeclared
    exact base_fits hnamed (.enum body) shape h
  | union name body =>
    cases hdeclared
    exact union_fits (hdeclaration body.discriminant) (fun arm _ => hdeclaration arm.declaration) h
  | const | program => cases hdeclared

/-- An item with a shape declares a type. -/
theorem declared_of_itemShape {item : Item} {shape : Shape}
    (h : layouts.itemShape named item = some shape) :
    ∃ target modifier, item.declared = some (target, modifier) := by
  cases item with
  | const | program => cases h
  | _ => exact ⟨_, _, rfl⟩

/-- A name has a shape through its item, if it was not seen. -/
theorem namedFrom_eq_some {fuel : ℕ} {seen : List String} {name : String} {shape : Shape}
    (h : layouts.namedFrom fuel seen name = some shape) :
    ∃ less item, fuel = less + 1 ∧ name ∉ seen ∧ layouts.item name = some item ∧
      layouts.itemShape (layouts.namedFrom less (name :: seen)) item = some shape := by
  rcases fuel with _ | less
  · cases h
  rw [namedFrom] at h
  split at h
  · cases h
  · next hnew =>
    obtain ⟨item, hitem, hshape⟩ := Option.bind_eq_some_iff.mp h
    exact ⟨less, item, rfl, hnew, hitem, hshape⟩

/-- The shape of a name fits its paths. -/
theorem fits_of_namedFrom {fuel : ℕ} {seen : List String} {name : String} {shape : Shape}
    (h : layouts.namedFrom fuel seen name = some shape) :
    layouts.AllFit (.identifier name) none shape := by
  induction fuel generalizing seen name shape with
  | zero => cases h
  | succ fuel ih =>
    obtain ⟨less, item, hless, -, hitem, hshape⟩ := namedFrom_eq_some h
    obtain rfl := Nat.succ.inj hless
    intro pieces hpath
    cases hpath with
    | plain hsize => cases hsize
    | named hdeclares hpath =>
      obtain ⟨item', hitem', hdeclared⟩ := hdeclares
      rw [hitem] at hitem'
      cases hitem'
      exact item_fits (fun other inner hinner => ih hinner) hdeclared hshape pieces hpath
    | undeclared hnone =>
      obtain ⟨target, modifier, hdeclared⟩ := declared_of_itemShape hshape
      exact absurd ⟨item, hitem, hdeclared⟩ (hnone target modifier)

/-! ## No name leads back to itself -/

/-- A declarator has a shape only if the type has one, or there is no name in the type. -/
theorem named_of_modifierShape {target : TypeSpec} {modifier : Option DeclaratorModifier}
    {base : Option Shape} {shape : Shape} {other : String}
    (h : layouts.modifierShape target modifier base = some shape)
    (hinside : (TypeSpec.identifier other).Inside target) : ∃ inner, base = some inner := by
  rcases modifier with _ | (bound | bound | _)
  · exact ⟨shape, h⟩
  · rw [modifierShape_fixedArray] at h
    obtain ⟨count, -, h⟩ := Option.bind_eq_some_iff.mp h
    obtain ⟨inner, hinner, -⟩ := Option.bind_eq_some_iff.mp h
    exact ⟨inner, hinner⟩
  · cases target with
    | opaqueData => cases hinside
    | _ => cases h
  · rw [modifierShape_optional] at h
    obtain ⟨inner, hinner, -⟩ := Option.bind_eq_some_iff.mp h
    exact ⟨inner, hinner⟩

/-- The search of a structure has looked at all its fields. -/
theorem exists_field_of_structure {body : StructBody} {shape : Shape}
    (h : layouts.structure_ named body = some shape) {d : Declaration}
    (hd : d ∈ body.declarations) :
    ∃ field, layouts.declaration named d = some field := by
  rw [structure_eq] at h
  obtain ⟨shapes, hall, -⟩ := fieldsFrom_eq_some h
  obtain ⟨field, -, hfield⟩ := exists_of_mem_left hall hd
  exact ⟨field, hfield⟩

/-- A type with a shape mentions only names with a shape. -/
theorem named_of_base {target : TypeSpec} {other : String}
    (hinside : (TypeSpec.identifier other).Inside target) {shape : Shape}
    (h : layouts.base named target = some shape) : ∃ inner, named other = some inner := by
  induction hinside generalizing shape with
  | refl => exact ⟨shape, by rwa [base] at h⟩
  | @field body d hmem hinside ih =>
    rw [base, bodyFree, Option.filter_eq_some_iff] at h
    obtain ⟨field, hfield⟩ := exists_field_of_structure h.1 hmem
    rw [declaration_eq] at hfield
    obtain ⟨inner, hinner⟩ := named_of_modifierShape hfield hinside
    exact ih hinner
  | @discriminant body hinside ih =>
    rw [base, bodyFree, Option.filter_eq_some_iff] at h
    obtain ⟨discriminant, -, hd, -⟩ := union_eq_some_iff.mp h.1
    rw [declaration_eq] at hd
    obtain ⟨inner, hinner⟩ := named_of_modifierShape hd hinside
    exact ih hinner
  | @arm body arm hmem hinside ih =>
    rw [base, bodyFree, Option.filter_eq_some_iff] at h
    obtain ⟨-, largest, -, -, hlargest, -⟩ := union_eq_some_iff.mp h.1
    obtain ⟨-, -, hall⟩ := armsFrom_eq_some hlargest
    obtain ⟨other, hother, -⟩ := hall arm hmem
    rw [declaration_eq] at hother
    obtain ⟨inner, hinner⟩ := named_of_modifierShape hother hinside
    exact ih hinner

/-- What a name with a shape mentions has a shape, and its search knows the name. -/
theorem named_of_mentions {fuel : ℕ} {seen : List String} {name other : String} {shape : Shape}
    (h : layouts.namedFrom fuel seen name = some shape) (hmentions : layouts.Mentions name other) :
    ∃ less inner, layouts.namedFrom less (name :: seen) other = some inner := by
  obtain ⟨target, modifier, ⟨item, hitem, hdeclared⟩, hinside⟩ := hmentions
  obtain ⟨less, item', -, -, hitem', hshape⟩ := namedFrom_eq_some h
  rw [hitem] at hitem'
  cases hitem'
  refine ⟨less, ?_⟩
  have hdeclaration {d : Declaration} (hd : (TypeSpec.identifier other).Inside d.typeSpec)
      {inner : Shape}
      (hinner : layouts.declaration (layouts.namedFrom less (name :: seen)) d = some inner) :
      ∃ inner, layouts.namedFrom less (name :: seen) other = some inner := by
    rw [declaration_eq] at hinner
    obtain ⟨base, hbase⟩ := named_of_modifierShape hinner hd
    exact named_of_base hd hbase
  cases item with
  | typedef decl =>
    cases hdeclared
    exact hdeclaration (d := ⟨decl.target, decl.declarator⟩) hinside hshape
  | struct own body =>
    cases hdeclared
    cases hinside with
    | field hd hinside =>
      obtain ⟨field, hfield⟩ := exists_field_of_structure hshape hd
      exact hdeclaration hinside hfield
  | enum own body =>
    cases hdeclared
    cases hinside
  | union own body =>
    cases hdeclared
    obtain ⟨discriminant, largest, hd, -, hlargest, -⟩ := union_eq_some_iff.mp hshape
    cases hinside with
    | discriminant hinside => exact hdeclaration hinside hd
    | arm hmem hinside =>
      obtain ⟨-, -, hall⟩ := armsFrom_eq_some hlargest
      obtain ⟨arm, harm, -⟩ := hall _ hmem
      exact hdeclaration hinside harm
  | const | program => cases hdeclared

/-- The names behind a name have shapes too, and their searches know the names they came by. -/
theorem named_of_reaches {fuel : ℕ} {seen : List String} {name other : String} {shape : Shape}
    (h : layouts.namedFrom fuel seen name = some shape)
    (hreaches : TransGen layouts.Mentions name other) :
    ∃ less more inner, layouts.namedFrom less more other = some inner ∧ name ∈ more := by
  induction hreaches with
  | single hmentions =>
    obtain ⟨less, inner, hinner⟩ := named_of_mentions h hmentions
    exact ⟨less, _, inner, hinner, List.mem_cons_self⟩
  | tail _ hmentions ih =>
    obtain ⟨less, more, inner, hinner, hmem⟩ := ih
    obtain ⟨less', inner', hinner'⟩ := named_of_mentions hinner hmentions
    exact ⟨less', _, inner', hinner', List.mem_cons_of_mem _ hmem⟩

/-- A name with a shape does not lead back to itself: the search would have met it a second time. -/
theorem not_reaches_self {fuel : ℕ} {seen : List String} {name : String} {shape : Shape}
    (h : layouts.namedFrom fuel seen name = some shape) : ¬ TransGen layouts.Mentions name name :=
      by
  intro hcycle
  obtain ⟨less, more, inner, hinner, hmem⟩ := named_of_reaches h hcycle
  obtain ⟨-, -, -, hnew, -⟩ := namedFrom_eq_some hinner
  exact hnew hmem

/-- A type with a shape is not recursive. -/
theorem nonRecursive_of_namedFrom {fuel : ℕ} {seen : List String} {name : String} {shape : Shape}
    (h : layouts.namedFrom fuel seen name = some shape) : layouts.NonRecursive name := by
  intro other hreaches
  rcases Relation.reflTransGen_iff_eq_or_transGen.mp hreaches with rfl | hreaches
  · exact not_reaches_self h
  · obtain ⟨less, more, inner, hinner, -⟩ := named_of_reaches h hreaches
    exact not_reaches_self hinner

/-! ## A path with a body -/

/-- The declaration has a path, and one with a body if the shape says so. -/
def Reached (layouts : OwnedLayouts) (target : TypeSpec) (modifier : Option DeclaratorModifier)
    (shape : Shape) : Prop :=
  ∃ pieces, layouts.IsPath target modifier pieces ∧ (shape.body = true → .body ∈ pieces)

/-- A declarator, if the type is reached. -/
theorem modifier_reached {target : TypeSpec} {modifier : Option DeclaratorModifier}
    {base : Option Shape} {shape : Shape}
    (hbase : ∀ inner, base = some inner → layouts.Reached target none inner)
    (h : layouts.modifierShape target modifier base = some shape) :
    layouts.Reached target modifier shape := by
  rcases modifier with _ | (bound | bound | _)
  · exact hbase shape h
  · rw [modifierShape_fixedArray] at h
    obtain ⟨count, hcount, h⟩ := Option.bind_eq_some_iff.mp h
    obtain ⟨inner, hinner, h⟩ := Option.bind_eq_some_iff.mp h
    have hvalue := evaluates_of_valueFrom hcount
    have hfree : shape.body ≠ true := by
      rw [(free_of_fixedArrayShape h).2]
      exact Bool.false_ne_true
    by_cases hdata : target = .opaqueData
    · subst hdata
      exact ⟨_, .fixedOpaque hvalue, fun hbody => absurd hbody hfree⟩
    · obtain ⟨pieces, hpath, -⟩ := hbase inner hinner
      have hlength : layouts.Evaluates bound (List.replicate count pieces).length := by
        rwa [List.length_replicate]
      refine ⟨_, .fixedArray hdata hlength ?_, fun hbody => absurd hbody hfree⟩
      intro part hpart
      rwa [List.eq_of_mem_replicate hpart]
  · have htarget : target = .opaqueData := by
      cases target with
      | opaqueData => rfl
      | _ => cases h
    subst htarget
    exact ⟨_, .variableOpaque bound, fun _ => by simp⟩
  · rw [modifierShape_optional] at h
    obtain ⟨inner, hinner, h⟩ := Option.bind_eq_some_iff.mp h
    obtain ⟨size, -, rfl⟩ := Option.map_eq_some_iff.mp h
    obtain ⟨pieces, hpath, hbody⟩ := hbase inner hinner
    exact ⟨_, .present hpath, fun h => List.mem_cons_of_mem _ (hbody h)⟩

/-- If the shape of some arms has a body that those before them do not have, one of the arms has
it. -/
theorem exists_arm_of_body {arms : List UnionArm} {start shape : Shape}
    (h : layouts.armsFrom named start arms = some shape) (hbody : shape.body = true)
    (hstart : start.body = false) :
    ∃ arm ∈ arms, ∃ other, layouts.declaration named arm.declaration = some other ∧
      other.body = true := by
  induction arms generalizing start with
  | nil =>
    cases h
    rw [hstart] at hbody
    cases hbody
  | cons arm arms ih =>
    rw [armsFrom] at h
    obtain ⟨other, hother, h⟩ := Option.bind_eq_some_iff.mp h
    cases hfirst : other.body with
    | true =>
      obtain ⟨labels, d⟩ := arm
      exact ⟨_, List.mem_cons_self, other, hother, hfirst⟩
    | false =>
      obtain ⟨arm', hmem, harm⟩ := ih h (by simp [hstart, hfirst])
      exact ⟨arm', List.mem_cons_of_mem _ hmem, harm⟩

/-- The shape of a structure is reached, if those of its fields are. -/
theorem structure_reached {body : StructBody} (hdeclarations : ∀ d ∈ body.declarations,
      ∀ shape, layouts.declaration named d = some shape →
        layouts.Reached d.typeSpec d.declarator.modifier shape)
    {shape : Shape} (h : layouts.structure_ named body = some shape) :
    layouts.Reached (.struct body) none shape := by
  rw [structure_eq] at h
  obtain ⟨shapes, hall, -, hbody, -⟩ := fieldsFrom_eq_some h
  have hparts : ∀ d ∈ body.declarations, ∃ part,
      layouts.IsPath d.typeSpec d.declarator.modifier part ∧
        ∀ field, layouts.declaration named d = some field → field.body = true → .body ∈ part := by
    intro d hd
    obtain ⟨field, -, hfield⟩ := exists_of_mem_left hall hd
    obtain ⟨part, hpath, hmem⟩ := hdeclarations d hd field hfield
    refine ⟨part, hpath, fun field' hfield' => ?_⟩
    rw [hfield] at hfield'
    cases hfield'
    exact hmem
  obtain ⟨parts, hparts⟩ := exists_forall₂ hparts
  refine ⟨_, .struct (hparts.imp fun d part h => h.1), fun hshape => ?_⟩
  have hany : shapes.any Shape.body = true := by simpa [hshape] using hbody.symm
  obtain ⟨field, hfield, hfieldBody⟩ := List.any_eq_true.mp hany
  obtain ⟨d, hd, hdfield⟩ := exists_of_mem_left hall.flip hfield
  obtain ⟨part, hpart, -, hmem⟩ := exists_of_mem_left hparts hd
  exact List.mem_flatten.mpr ⟨part, hpart, hmem field hdfield hfieldBody⟩

/-- The shape of a union is reached, if those of its arms are. -/
theorem union_reached {body : UnionBody} (hsome : body.arms ≠ [])
    (hdiscriminant : ∀ shape, layouts.declaration named body.discriminant = some shape →
      layouts.Reached body.discriminant.typeSpec body.discriminant.declarator.modifier shape)
    (harms : ∀ arm ∈ body.arms, ∀ shape, layouts.declaration named arm.declaration = some shape →
      layouts.Reached arm.declaration.typeSpec arm.declaration.declarator.modifier shape)
    {shape : Shape} (h : layouts.union named body = some shape) :
    layouts.Reached (.union body) none shape := by
  obtain ⟨discriminant, largest, hd, -, hlargest, -, hbody⟩ := union_eq_some_iff.mp h
  obtain ⟨front, hfront, -⟩ := hdiscriminant discriminant hd
  obtain ⟨-, -, hall⟩ := armsFrom_eq_some hlargest
  -- The arm with the body, or the first one.
  obtain ⟨arm, hmem, other, hother, hmatch⟩ : ∃ arm ∈ body.arms, ∃ other,
      layouts.declaration named arm.declaration = some other ∧
        (shape.body = true → other.body = true) := by
    cases hshape : shape.body with
    | true =>
      obtain ⟨arm, hmem, other, hother, hotherBody⟩ :=
        exists_arm_of_body hlargest (by rw [← hbody, hshape]) rfl
      exact ⟨arm, hmem, other, hother, fun _ => hotherBody⟩
    | false =>
      obtain ⟨arm, hmem⟩ := List.exists_mem_of_ne_nil _ hsome
      obtain ⟨other, hother, -⟩ := hall arm hmem
      exact ⟨arm, hmem, other, hother, fun h => Bool.noConfusion h⟩
  obtain ⟨back, hback, hbackBody⟩ := harms arm hmem other hother
  exact ⟨_, .union hfront hmem hback, fun h => List.mem_append_right _ (hbackBody (hmatch h))⟩

/-- The shape of a declaration is reached, if that of its base type is. -/
theorem declaration_reached_of_base {d : Declaration}
    (hbase : ∀ inner, layouts.base named d.typeSpec = some inner →
      layouts.Reached d.typeSpec none inner)
    {shape : Shape} (h : layouts.declaration named d = some shape) :
    layouts.Reached d.typeSpec d.declarator.modifier shape := by
  rw [declaration_eq] at h
  exact modifier_reached hbase h

/-- A type, if the names in it are reached and the unions in it have arms. -/
theorem base_reached (target : TypeSpec)
    (hnamed : ∀ name, (TypeSpec.identifier name).Inside target → ∀ shape, named name = some shape →
      layouts.Reached (.identifier name) none shape)
    (harmed : ∀ body, (TypeSpec.union body).Inside target → body.arms ≠ []) :
    ∀ shape, layouts.base named target = some shape → layouts.Reached target none shape := by
  induction target using TypeSpec.inner_induction with
  | struct body ih =>
    intro shape h
    rw [base, bodyFree, Option.filter_eq_some_iff] at h
    refine structure_reached (fun d hd field hfield => declaration_reached_of_base ?_ hfield) h.1
    exact ih d hd (fun name hinside => hnamed name (.field hd hinside))
      fun body hinside => harmed body (.field hd hinside)
  | union body hdiscriminant harms =>
    intro shape h
    rw [base, bodyFree, Option.filter_eq_some_iff] at h
    refine union_reached (harmed body .refl) (fun shape hshape => ?_)
      (fun arm harm shape hshape => ?_) h.1
    · refine declaration_reached_of_base (hdiscriminant ?_ ?_) hshape
      · exact fun name hinside => hnamed name (.discriminant hinside)
      · exact fun body hinside => harmed body (.discriminant hinside)
    · refine declaration_reached_of_base (harms arm harm ?_ ?_) hshape
      · exact fun name hinside => hnamed name (.arm harm hinside)
      · exact fun body hinside => harmed body (.arm harm hinside)
  | leaf target hstruct hunion =>
    intro shape h
    cases target with
    | identifier name =>
      rw [base] at h
      exact hnamed name .refl shape h
    | struct body => exact absurd rfl (hstruct body)
    | union body => exact absurd rfl (hunion body)
    | void =>
      cases h
      exact ⟨[], .void, fun h => Bool.noConfusion h⟩
    | string | opaqueLength | opaqueSegments => cases h
    | _ =>
      cases h
      exact ⟨_, .plain rfl, fun h => Bool.noConfusion h⟩

/-- What a name stands for, if the names in it are reached and the unions in it have arms. -/
theorem item_reached {item : Item} {target : TypeSpec} {modifier : Option DeclaratorModifier}
    (hdeclared : item.declared = some (target, modifier))
    (hnamed : ∀ name, (TypeSpec.identifier name).Inside target → ∀ shape, named name = some shape →
      layouts.Reached (.identifier name) none shape)
    (harmed : ∀ body, (TypeSpec.union body).Inside target → body.arms ≠ []) {shape : Shape}
    (h : layouts.itemShape named item = some shape) : layouts.Reached target modifier shape := by
  cases item with
  | typedef decl =>
    cases hdeclared
    exact declaration_reached_of_base (d := ⟨decl.target, decl.declarator⟩)
      (base_reached decl.target hnamed harmed) h
  | struct name body =>
    cases hdeclared
    refine structure_reached (fun d hd field hfield => declaration_reached_of_base ?_ hfield) h
    exact base_reached d.typeSpec (fun name hinside => hnamed name (.field hd hinside))
      fun body hinside => harmed body (.field hd hinside)
  | enum name body =>
    cases hdeclared
    exact base_reached (.enum body) hnamed harmed shape h
  | union name body =>
    cases hdeclared
    refine union_reached (harmed body .refl) (fun shape hshape => ?_)
      (fun arm harm shape hshape => ?_) h
    · refine declaration_reached_of_base (base_reached _ ?_ ?_) hshape
      · exact fun name hinside => hnamed name (.discriminant hinside)
      · exact fun body hinside => harmed body (.discriminant hinside)
    · refine declaration_reached_of_base (base_reached _ ?_ ?_) hshape
      · exact fun name hinside => hnamed name (.arm harm hinside)
      · exact fun body hinside => harmed body (.arm harm hinside)
  | const | program => cases hdeclared

/-- If every union on the way has an arm, a name with a shape has a path, and one with a body if the
shape says so. -/
theorem reached_of_namedFrom {fuel : ℕ} {seen : List String} {name : String} {shape : Shape}
    (h : layouts.namedFrom fuel seen name = some shape) (harmed : layouts.UnionsHaveArms name) :
    layouts.Reached (.identifier name) none shape := by
  induction fuel generalizing seen name shape with
  | zero => cases h
  | succ fuel ih =>
    obtain ⟨less, item, hless, -, hitem, hshape⟩ := namedFrom_eq_some h
    obtain rfl := Nat.succ.inj hless
    obtain ⟨target, modifier, hdeclared⟩ := declared_of_itemShape hshape
    have hdeclares : layouts.Declares name target modifier := ⟨item, hitem, hdeclared⟩
    obtain ⟨pieces, hpath, hbody⟩ := item_reached hdeclared (fun other hinside inner hinner => by
      have hmentions : layouts.Mentions name other := ⟨target, modifier, hdeclares, hinside⟩
      refine ih hinner fun last target modifier body hreaches => ?_
      exact harmed last target modifier body (.head hmentions hreaches))
      (fun body hinside => harmed name target modifier body .refl hdeclares hinside) hshape
    exact ⟨pieces, .named hdeclares hpath, hbody⟩

end OwnedLayouts

open SeenSearch OwnedLayouts

/-- On every schema the searches for layouts and for the bound of an opaque alias come to a result,
whatever names are in the set already.  A name that `named` finds a shape for does not lead back to
itself nor to a name that does; on each of its paths there are control fields of known sizes, and at
most one variable opaque, which comes last, and is there only if the shape says so.  If every union
that the name leads to has an arm, the shape says so exactly when some path has one. -/
theorem layout_searches_sound (layouts : OwnedLayouts) (context : EmitContext)
    (seen : List String) :
    (∀ value, ∃ result, Returns (fun calls => layouts.valueWithSeen calls value) seen result) ∧
    (∀ name, ∃ result, Returns (fun calls => layouts.namedWithSeen calls name) seen result) ∧
    (∀ target, ∃ result, Returns (fun calls =>
      baseWithSeen (layouts.valueWithSeen calls) (layouts.namedWithSeen calls) target)
        seen result) ∧
    (∀ d, ∃ result, Returns (fun calls =>
      declarationWithSeen (layouts.valueWithSeen calls) (layouts.namedWithSeen calls) d)
        seen result) ∧
    (∀ body, ∃ result, Returns (fun calls =>
      structureWithSeen (layouts.valueWithSeen calls) (layouts.namedWithSeen calls) body)
        seen result) ∧
    (∀ body, ∃ result, Returns (fun calls =>
      unionWithSeen (layouts.valueWithSeen calls) (layouts.namedWithSeen calls) body) seen result) ∧
    (∀ target modifier, ∃ result,
      Returns (fun calls => layouts.terminalWithSeen calls target modifier) seen result) ∧
    (∀ target, ∃ result,
      Returns (fun calls => context.opaqueAliasBoundWithSeen calls target) seen result) ∧
    ∀ name shape, Returns (fun calls => layouts.namedWithSeen calls name) seen (some shape) →
      layouts.NonRecursive name ∧
      (∀ pieces, layouts.IsPath (.identifier name) none pieces → shape.Fits pieces) ∧
      (layouts.UnionsHaveArms name → (shape.body = true ↔
        ∃ pieces, layouts.IsPath (.identifier name) none pieces ∧ .body ∈ pieces)) := by
  refine ⟨fun value => ⟨_, layouts.returns_value seen value⟩,
    fun name => ⟨_, layouts.returns_named seen name⟩,
    fun target => ⟨_, layouts.returns_base seen target⟩,
    fun d => ⟨_, layouts.returns_declaration seen d⟩,
    fun body => ⟨_, layouts.returns_structure seen body⟩,
    fun body => ⟨_, layouts.returns_union seen body⟩,
    fun target modifier => ⟨_, layouts.returns_terminal seen target modifier⟩,
    fun target => ⟨_, context.returns_opaqueAliasBound seen target⟩, fun name shape hreturns => ?_⟩
  have hshape : layouts.namedFrom (layouts.items.length + 1) seen name = some shape :=
    (layouts.returns_named seen name).unique hreturns
  have hfits := fits_of_namedFrom hshape
  refine ⟨nonRecursive_of_namedFrom hshape, hfits, fun harmed => ⟨fun hbody => ?_, ?_⟩⟩
  · obtain ⟨pieces, hpath, hmem⟩ := reached_of_namedFrom hshape harmed
    exact ⟨pieces, hpath, hmem hbody⟩
  · rintro ⟨pieces, hpath, hmem⟩
    exact (hfits pieces hpath).body_of_mem hmem

/-- A union without arms. -/
def armlessUnion : UnionBody := ⟨⟨.int, "d", none⟩, []⟩

/-- A structure with such a union in front of its body. -/
def armlessStruct : StructBody :=
  ⟨[⟨.identifier "u", "a", none⟩, ⟨.opaqueData, "b", some (.variableArray none)⟩]⟩

/-- The schema of both. -/
def armlessSchema : Schema := ⟨[.union "u" armlessUnion, .struct "s" armlessStruct]⟩

/-- The union has no path: no arm can be taken. -/
theorem armlessUnion_not_isPath (pieces : List Piece) :
    ¬ (fromSchema armlessSchema).IsPath (.identifier "u") none pieces := by
  have hitem : (fromSchema armlessSchema).item "u" = some (.union "u" armlessUnion) := rfl
  intro hpath
  cases hpath with
  | plain hsize => cases hsize
  | undeclared hnone => exact hnone _ _ ⟨_, hitem, rfl⟩
  | named hdeclares hpath =>
    obtain ⟨item, hitem', hdeclared⟩ := hdeclares
    rw [hitem] at hitem'
    cases hitem'
    cases hdeclared
    cases hpath with
    | plain hsize => cases hsize
    | union _ hmem _ => cases hmem

/-- The shape of the structure says that there is a body, but no path of it has one. -/
theorem body_without_path :
    parseXSource "union u switch (int d) \x7b \x7d; struct s \x7b u a; opaque b<>; \x7d;" =
      some (.ok armlessSchema) ∧
    Returns (fun calls => (fromSchema armlessSchema).namedWithSeen calls "s") [] (some ⟨8, true⟩) ∧
    ¬ ∃ pieces, (fromSchema armlessSchema).IsPath (.identifier "s") none pieces ∧
      .body ∈ pieces := by
  refine ⟨parseXSource_of_chars (toList_of_eq rfl) (by decide +kernel) rfl, ?_, ?_⟩
  · have hshape : (fromSchema armlessSchema).namedOutside [] "s" = some ⟨8, true⟩ := by
      decide +kernel
    rw [← hshape]
    exact returns_named _ [] "s"
  · have hitem : (fromSchema armlessSchema).item "s" = some (.struct "s" armlessStruct) := rfl
    rintro ⟨pieces, hpath, hmem⟩
    cases hpath with
    | plain hsize => cases hsize
    | undeclared hnone => exact hnone _ _ ⟨_, hitem, rfl⟩
    | named hdeclares hpath =>
      obtain ⟨item, hitem', hdeclared⟩ := hdeclares
      rw [hitem] at hitem'
      cases hitem'
      cases hdeclared
      cases hpath with
      | plain hsize => cases hsize
      | struct hparts =>
        cases hparts with
        | cons hunion _ => exact armlessUnion_not_isPath _ hunion

end OncRpc
