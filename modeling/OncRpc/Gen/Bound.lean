import OncRpc.Gen.Correct
import OncRpc.Gen.Metadata
import OncRpc.Gen.Shapes

/-!
# The bound on the metadata

The generator counts the bytes of the metadata of a type from the schema; how many are consumed is
up to the decoders it writes.  For a type specifier and for what its projection makes of it, the
count is an upper bound if it is one for the names the type goes through (`Sized.base`,
`Bounded.transform`), with one exception: the discriminant of a union with a default arm is read as
a word if its type is an enumeration, even if it is declared as an array of none.
-/

namespace OncRpc

open Foundation Cursor OwnedLayouts

variable {schema : Schema} {items : List RustItem} {context : EmitContext}

/-! ## Types -/

/-- The decoder of a type consumes at most so many bytes. -/
def Bounded (items : List RustItem) (type : RustType) (size : ℕ) : Prop :=
  ∀ fuel, Within (decodeXdr items fuel type) size

namespace Bounded

variable {type : RustType} {size : ℕ} {name : String}

/-- A bound may be enlarged. -/
theorem mono {size' : ℕ} (h : Bounded items type size) (hle : size ≤ size') :
    Bounded items type size' :=
  fun fuel => (h fuel).mono hle

/-- A named type is bounded as its item is. -/
theorem of_findType {item : RustItem} (hfind : findType items name = some item)
    (h : ∀ fuel, Within (decodeItem items (decodeXdr items fuel) item) size) :
    Bounded items (.named name) size := by
  intro fuel
  rcases fuel with _ | fuel
  · exact Within.exhausted size
  · rw [decodeXdr_named hfind]
    exact h fuel

/-- Nothing is decoded as a type that is not there. -/
theorem of_findType_eq_none (hfind : findType items name = none) (size : ℕ) :
    Bounded items (.named name) size := by
  intro fuel
  rcases fuel with _ | fuel
  · exact Within.exhausted size
  · change Within (decodeNamed items (fuel + 1) name) size
    rw [decodeNamed, hfind]
    exact Within.exhausted size

/-- A word is bounded by four bytes. -/
theorem i32 : Bounded items .i32 4 := fun _ => ((within_readExactXdr 4).map _).map _

/-- Optional data is bounded by a word more than its value. -/
theorem optionBox (h : Bounded items type size) : Bounded items (.optionBox type) (4 + size) :=
  fun fuel => (within_decodeOption (h fuel)).map _

/-- A byte array is bounded by its padded length. -/
theorem byteArray {len : ValueExpr} {count : ℕ}
    (hlen : ∀ n, arrayLen items len = some n → n ≤ count) :
    Bounded items (.array .u8 len) ((count + 3) / 4 * 4) := by
  intro fuel
  unfold decodeXdr decodeType
  split
  · exact Within.exhausted _
  · next n hn =>
    have hle := hlen n hn
    rw [if_pos (show isByte items .u8 = true from rfl)]
    refine ((within_readFixedOpaque n).mono ?_).map _
    exact Nat.mul_le_mul_right 4 (Nat.div_le_div_right (Nat.add_le_add_right hle 3))

/-- An array is bounded by its elements. -/
theorem array (h : Bounded items type size) (hbyte : isByte items type = false) {len : ValueExpr}
    {count : ℕ} (hlen : ∀ n, arrayLen items len = some n → n ≤ count) :
    Bounded items (.array type len) (count * size) := by
  intro fuel
  unfold decodeXdr decodeType
  split
  · exact Within.exhausted _
  · next n hn =>
    rw [hbyte, if_neg Bool.false_ne_true]
    exact (((h fuel).times n).mono (Nat.mul_le_mul_right size (hlen n hn))).map _

/-- The length of opaque data is bounded by a word. -/
theorem opaqueLength (maximum : Option ValueExpr) : Bounded items (.opaqueLength maximum) 4 := by
  intro fuel
  unfold decodeXdr decodeType
  split
  · exact Within.exhausted _
  · exact (within_decodeOpaqueLength _).map _

/-- An enumeration is bounded by a word. -/
theorem enum {variants : List EnumVariant} {own : String}
    (hfind : findType items name = some (.enum own variants)) :
    Bounded items (.named name) 4 := by
  refine of_findType hfind fun fuel => ?_
  change Within _ (4 + 0)
  refine ((within_readExactXdr 4).map _).bind fun x => ?_
  split
  · exact Within.pure _
  · exact Within.fail _ 0

/-- The fields of a structure, one after the other. -/
theorem struct {fields : List RustField} {own : String} {sizes : List ℕ}
    (hfind : findType items name = some (.struct own fields))
    (h : List.Forall₂ (fun field size => ∀ fuel,
      Within (decodeField items (decodeXdr items fuel) field) size) fields sizes) :
    Bounded items (.named name) sizes.sum :=
  of_findType hfind fun fuel => (Within.each (h.imp fun _ _ hfield => hfield fuel)).map _

/-- The discriminant of a union, followed by the field of one of its arms. -/
theorem union {u : RustUnion} {own : String} {size' : ℕ} {body : UnionBody}
    (hfind : findType items name = some (.union own u)) (hspec : UnionSpec context own body u)
    (hd : Bounded items u.decodeType size)
    (h : ∀ arm ∈ body.arms, ∀ field, context.armField own arm = .ok field → ∀ fuel,
      Within (decodeVariantField items (decodeXdr items fuel) field) size') :
    Bounded items (.named name) (size + size') := by
  refine of_findType hfind fun fuel => (hd fuel).bind fun discriminant => ?_
  unfold decodeArm
  split
  · next a ha =>
    obtain ⟨arm, harm, -, label, -, field, hfield, rfl⟩ :=
      (hspec.arms a).mp (List.mem_of_find?_eq_some ha)
    exact (h arm harm field hfield fuel).map _
  · have hfallback := hspec.fallback
    unfold EmitContext.unionFallback at hfallback
    split at hfallback
    · next arm harm =>
      obtain ⟨field, hfield, heq⟩ := except_bind_eq_ok.mp hfallback
      rw [← Except.ok.inj heq]
      exact (h arm (List.mem_of_find?_eq_some harm) field hfield fuel).map _
    · dsimp only at hfallback
      split at hfallback
      · rw [← Except.ok.inj hfallback]
        exact Within.exhausted _
      · rw [← Except.ok.inj hfallback]
        exact Within.fail _ _

end Bounded

/-! ## Declarations -/

section Declarations

variable {layouts : OwnedLayouts} {named : String → Option Shape}
    {target : TypeSpec} {hint : String}
  {modifier : Option DeclaratorModifier} {type : RustType} {shape : Shape}

/-- The lengths of arrays are no more than the generator counts. -/
def LengthsCounted (layouts : OwnedLayouts) (items : List RustItem) : Prop :=
  ∀ bound count len, layouts.value bound = some count → arrayLen items bound = some len →
    len ≤ count

/-- The type of a declaration without a body. -/
theorem Bounded.declaration (hlengths : LengthsCounted layouts items) (hbyte : NoByteAlias items)
    (hbase : ∀ inner, layouts.base named target = some inner → inner.body = false →
      Bounded items (rustTypeForBase target hint) inner.prefixBytes)
    (hshape : layouts.modifierShape target modifier (layouts.base named target) = some shape)
    (hfree : shape.body = false) (htype : rustTypeForDeclaration target modifier hint = .ok type) :
    Bounded items type shape.prefixBytes := by
  obtain ⟨decode, -, hrendered⟩ := rustTypeForDeclaration_rendered htype
  generalize emitEncodeDeclaration target modifier = encode at hrendered
  cases hrendered with
  | plain => exact hbase shape hshape hfree
  | bytes bound hdata =>
    subst hdata
    rcases bound with _ | bound
    · cases hshape
      cases hfree
    · obtain ⟨_, -, heq⟩ := Option.map_eq_some_iff.mp hshape
      cases heq
      cases hfree
  | string bound hstring =>
    subst hstring
    cases hshape
  | vec bound hdata hstring =>
    simp only [modifierShape] at hshape
    cases hshape
  | fixedOpaque bound hdata =>
    subst hdata
    simp only [modifierShape, Option.bind_eq_bind, Option.bind_eq_some_iff] at hshape
    obtain ⟨count, hcount, inner, -, hshape⟩ := hshape
    split at hshape
    · cases hshape
    · obtain ⟨padded, hpadded, heq⟩ := Option.bind_eq_some_iff.mp hshape
      cases heq
      obtain ⟨rfl, -⟩ := checkedAdd_eq_some.mp hpadded
      exact .byteArray fun n hn => hlengths bound count n hcount hn
  | array bound hdata =>
    simp only [modifierShape, Option.bind_eq_bind, Option.bind_eq_some_iff] at hshape
    obtain ⟨count, hcount, inner, hinner, hshape⟩ := hshape
    split at hshape
    · cases hshape
    · next hbody =>
      obtain ⟨size, hsize, heq⟩ := Option.bind_eq_some_iff.mp hshape
      cases heq
      obtain ⟨rfl, -⟩ := checkedMul_eq_some.mp hsize
      exact (hbase inner hinner (by simpa using hbody)).array
        (hbyte _ (rustTypeForBase_ne_u8 hdata hint)) fun n hn => hlengths bound count n hcount hn
  | optional =>
    simp only [modifierShape, Option.bind_eq_bind, Option.bind_eq_some_iff] at hshape
    obtain ⟨inner, hinner, size, hsize, heq⟩ := hshape
    cases heq
    obtain ⟨rfl, -⟩ := checkedAdd_eq_some.mp hsize
    rw [Nat.add_comm]
    exact (hbase inner hinner hfree).optionBox

/-- The template of a field decodes its type. -/
theorem Bounded.field {owner : String} {declarator : Declarator} {field : RustField} {size : ℕ}
    (hbyte : NoByteAlias items) (hfield : context.fieldFor owner target declarator = .ok field)
    (h : ∀ type, rustTypeForDeclaration target declarator.modifier (hintFor owner declarator.name) =
      .ok type → Bounded items type size) (fuel : ℕ) :
    Within (decodeField items (decodeXdr items fuel) field) size := by
  rw [decodeField_eq hbyte (fieldFor_rendered hfield)]
  exact h field.type (fieldFor_eq_ok hfield).1 fuel

/-- The field of an arm. -/
theorem Bounded.armField {owner : String} {arm : UnionArm} {field : Option RustField} {size : ℕ}
    (hbyte : NoByteAlias items) (hfield : context.armField owner arm = .ok field)
    (h : ∀ type, rustTypeForDeclaration arm.declaration.typeSpec
      arm.declaration.declarator.modifier (hintFor owner arm.declaration.declarator.name) =
      .ok type → Bounded items type size) (fuel : ℕ) :
    Within (decodeVariantField items (decodeXdr items fuel) field) size := by
  rcases armField_eq_ok hfield with ⟨-, -, rfl⟩ | ⟨-, f, rfl, hf⟩
  · exact (Within.pure none).mono (Nat.zero_le _)
  · exact (Bounded.field hbyte hf h fuel).map some

end Declarations

/-! ## Type specifiers -/

/-- The type is a declared enumeration. -/
def OwnedLayouts.namesEnum (layouts : OwnedLayouts) : TypeSpec → Bool
  | .identifier name =>
    match layouts.item name with
    | some (.enum _ _) => true
    | _ => false
  | _ => false

/-- The declarator is that of an array of length zero. -/
def OwnedLayouts.arrayOfNone (layouts : OwnedLayouts) : Option DeclaratorModifier → Bool
  | some (.fixedArray bound) => layouts.value bound = some 0
  | _ => false

/-- The discriminant is an array of none of the values of an enumeration, and there is a default
arm. -/
def OwnedLayouts.switchesOnNothing (layouts : OwnedLayouts) (body : UnionBody) : Bool :=
  EmitContext.unionHasDefaultArm body && layouts.namesEnum body.discriminant.typeSpec &&
    layouts.arrayOfNone body.discriminant.declarator.modifier

/-- The item that is asked for is such a union. -/
def ItemRequest.switchesOnNothing (layouts : OwnedLayouts) : ItemRequest → Bool
  | .inline _ (.union body) => layouts.switchesOnNothing body
  | _ => false

/-- Everything that is asked for is written under its name, and no discriminant is read that the
generator does not count. -/
structure Sized (layouts : OwnedLayouts) (items : List RustItem) (context : EmitContext)
    (requests : List ItemRequest) : Prop where
  provided : Provided items context requests
  noByteAlias : NoByteAlias items
  lengths : LengthsCounted layouts items
  enums : ∀ name own body, context.namedType name = some (.enum own body) →
    ∃ own body, layouts.item name = some (.enum own body)
  switches : ∀ request ∈ requests, request.switchesOnNothing layouts = false

/-- The names of types without a body are bounded. -/
structure NamesBounded (layouts : OwnedLayouts) (items : List RustItem)
    (named : String → Option Shape) : Prop where
  free : ∀ name shape, named name = some shape → shape.body = false →
    Bounded items (.named name) shape.prefixBytes
  enums : ∀ name shape own body, named name = some shape →
    layouts.item name = some (.enum own body) → shape.prefixBytes = 4

/-- What a union asks for provides its discriminant. -/
theorem Provided.discriminant {name : String} {body : UnionBody}
    (h : Provided items context ((TypeSpec.union body).requests name)) :
    Provided items context
      (body.discriminant.typeSpec.requests (hintFor name "discriminant")) := by
  rw [TypeSpec.requests_union] at h
  refine h.mono fun request hrequest => ?_
  exact List.mem_append_left _ (List.mem_append_right _ hrequest)

namespace Sized

variable {layouts : OwnedLayouts} {requests : List ItemRequest} {named : String → Option Shape}

/-- The bytes of a discriminant are counted. -/
theorem discriminant (h : Sized layouts items context requests)
    (hnamed : NamesBounded layouts items named) {name : String} {body : UnionBody} {u : RustUnion}
    (hmem : .inline name (.union body) ∈ requests) (hspec : UnionSpec context name body u)
    {shape : Shape} (hshape : layouts.declaration named body.discriminant = some shape)
    (hplain : ∀ type, rustTypeForDeclaration body.discriminant.typeSpec
      body.discriminant.declarator.modifier (hintFor name "discriminant") = .ok type →
      Bounded items type shape.prefixBytes) :
    Bounded items u.decodeType shape.prefixBytes := by
  obtain ⟨type, htype, hdecode⟩ := hspec.decodeType
  rw [hdecode, EmitContext.unionDecodeDiscriminantType]
  split
  · next hraw =>
    -- the enumeration is read as a word
    refine Bounded.i32.mono ?_
    obtain ⟨hdefault, hsome⟩ := Bool.and_eq_true_iff.mp hraw
    have hswitch : layouts.switchesOnNothing body = false := h.switches _ hmem
    rw [declaration_eq] at hshape
    obtain ⟨enumName, henum⟩ := Option.isSome_iff_exists.mp hsome
    unfold EmitContext.enumTypeNameFor at henum
    split at henum
    · next other htarget =>
      split at henum
      · next own variants htype' =>
        obtain ⟨own', variants', hitem⟩ := h.enums _ _ _ htype'
        rw [htarget] at hshape
        have hfour {inner : Shape} (hinner : layouts.base named (.identifier other) = some inner) :
            inner.prefixBytes = 4 := by
          rw [base] at hinner
          exact hnamed.enums other inner own' variants' hinner hitem
        rcases hmodifier : body.discriminant.declarator.modifier with _ | (bound | bound | _)
        · rw [hmodifier] at hshape
          exact (hfour hshape).ge
        · rw [hmodifier] at hshape
          simp only [modifierShape, Option.bind_eq_bind, Option.bind_eq_some_iff] at hshape
          obtain ⟨count, hcount, inner, hinner, hshape⟩ := hshape
          split at hshape
          · cases hshape
          · obtain ⟨size, hsize, heq⟩ := Option.bind_eq_some_iff.mp hshape
            cases heq
            obtain ⟨rfl, -⟩ := checkedMul_eq_some.mp hsize
            have hpos : count ≠ 0 := by
              rintro rfl
              simp [OwnedLayouts.switchesOnNothing, namesEnum, arrayOfNone, hdefault,
                htarget, hitem, hmodifier, hcount] at hswitch
            change 4 ≤ count * inner.prefixBytes
            rw [hfour hinner]
            omega
        · rw [hmodifier] at hshape
          cases hshape
        · rw [hmodifier] at hshape
          simp only [modifierShape, Option.bind_eq_bind, Option.bind_eq_some_iff] at hshape
          obtain ⟨inner, hinner, size, hsize, heq⟩ := hshape
          cases heq
          obtain ⟨rfl, -⟩ := checkedAdd_eq_some.mp hsize
          exact Nat.le_add_left ..
      · cases henum
    · cases henum
  · exact hplain type htype

/-- The item of a structure whose fields are bounded. -/
theorem struct (h : Sized layouts items context requests) {name : String} {body : StructBody}
    (hsub : (TypeSpec.struct body).requests name ⊆ requests) {shapes : List Shape}
    (hfields : List.Forall₂ (fun d shape => ∀ type, rustTypeForDeclaration d.typeSpec
      d.declarator.modifier (hintFor name d.declarator.name) = .ok type →
      Bounded items type shape.prefixBytes) body.declarations shapes) :
    Bounded items (.named name) (shapes.map Shape.prefixBytes).sum := by
  obtain ⟨fields, hfind, hall, -⟩ := (h.provided.mono hsub).struct
  refine Bounded.struct hfind ?_
  clear hfind hsub
  generalize body.declarations = declarations at hall hfields
  induction hall generalizing shapes with
  | nil =>
    cases hfields
    exact .nil
  | cons hfield _ ih =>
    rcases hfields with _ | ⟨hbounded, hrest⟩
    exact .cons (fun fuel => Bounded.field h.noByteAlias hfield hbounded fuel) (ih hrest)

/-- The type of a union whose arms are bounded. -/
theorem union (h : Sized layouts items context requests)
    (hnamed : NamesBounded layouts items named) {name : String} {body : UnionBody} {size : ℕ}
    (hsub : (TypeSpec.union body).requests name ⊆ requests) {shape : Shape}
    (hshape : layouts.declaration named body.discriminant = some shape)
    (hplain : ∀ type, rustTypeForDeclaration body.discriminant.typeSpec
      body.discriminant.declarator.modifier (hintFor name "discriminant") = .ok type →
      Bounded items type shape.prefixBytes)
    (harms : ∀ arm ∈ body.arms, ∀ type, rustTypeForDeclaration arm.declaration.typeSpec
      arm.declaration.declarator.modifier (hintFor name arm.declaration.declarator.name) =
        .ok type →
      Bounded items type size) :
    Bounded items (.named name) (shape.prefixBytes + size) := by
  obtain ⟨u, hfind, hspec, -⟩ := (h.provided.mono hsub).union
  have hmem : .inline name (.union body) ∈ requests := by
    refine hsub ?_
    rw [TypeSpec.requests_union]
    exact List.mem_append_right _ (List.mem_singleton_self _)
  exact Bounded.union hfind hspec (h.discriminant hnamed hmem hspec hshape hplain)
    fun arm harm field hfield fuel => Bounded.armField h.noByteAlias hfield (harms arm harm) fuel

/-- The requests for a field are among those for its structure. -/
theorem requests_field_subset {name : String} {body : StructBody} {d : Declaration}
    (hd : d ∈ body.declarations) :
    d.typeSpec.requests (hintFor name d.declarator.name) ⊆ (TypeSpec.struct body).requests name :=
      by
  intro request hrequest
  rw [TypeSpec.requests_struct]
  exact List.mem_append_left _ (List.mem_flatMap.mpr ⟨d, hd, hrequest⟩)

/-- The requests for an arm are among those for its union. -/
theorem requests_arm_subset {name : String} {body : UnionBody} {arm : UnionArm}
    (harm : arm ∈ body.arms) :
    arm.declaration.typeSpec.requests (hintFor name arm.declaration.declarator.name) ⊆
      (TypeSpec.union body).requests name := by
  intro request hrequest
  rw [TypeSpec.requests_union]
  exact List.mem_append_left _ (List.mem_append_left _ (List.mem_flatMap.mpr ⟨arm, harm, hrequest⟩))

/-- The requests for a discriminant are among those for its union. -/
theorem requests_discriminant_subset {name : String} {body : UnionBody} :
    body.discriminant.typeSpec.requests (hintFor name "discriminant") ⊆
      (TypeSpec.union body).requests name := by
  intro request hrequest
  rw [TypeSpec.requests_union]
  exact List.mem_append_left _ (List.mem_append_right _ hrequest)

/-- A type without a body is bounded by its shape. -/
theorem base (h : Sized layouts items context requests)
    (hnamed : NamesBounded layouts items named) (target : TypeSpec) : ∀ hint shape,
      target.requests hint ⊆ requests → layouts.base named target = some shape →
      shape.body = false → Bounded items (rustTypeForBase target hint) shape.prefixBytes := by
  have hdeclaration {d : Declaration} {hint : String} {shape : Shape} {type : RustType}
      (ih : ∀ hint shape, d.typeSpec.requests hint ⊆ requests →
        layouts.base named d.typeSpec = some shape → shape.body = false →
        Bounded items (rustTypeForBase d.typeSpec hint) shape.prefixBytes)
      (hsub : d.typeSpec.requests hint ⊆ requests)
      (hshape : layouts.declaration named d = some shape) (hfree : shape.body = false)
      (htype : rustTypeForDeclaration d.typeSpec d.declarator.modifier hint = .ok type) :
      Bounded items type shape.prefixBytes := by
    rw [declaration_eq] at hshape
    exact Bounded.declaration h.lengths h.noByteAlias (fun inner => ih hint inner hsub) hshape hfree
      htype
  induction target using TypeSpec.inner_induction with
  | leaf target hstruct hunion =>
    intro hint shape hsub hshape hfree
    rcases target with _ | _ | _ | _ | _ | _ | _ | _ | _ | _ | _ | name | body | body | body | _ | _
    case identifier =>
      rw [OwnedLayouts.base] at hshape
      exact hnamed.free name shape hshape hfree
    case enum =>
      cases hshape
      exact Bounded.enum (h.provided.mono hsub).enum
    case struct => exact absurd rfl (hstruct body)
    case union => exact absurd rfl (hunion body)
    case string | opaqueLength | opaqueSegments => cases hshape
    case void =>
      cases hshape
      exact fun _ => Within.pure _
    case bool =>
      cases hshape
      exact fun _ => within_decodeBool.map _
    case quadruple =>
      cases hshape
      have hlen (n : ℕ) (hn : arrayLen items (.number 16) = some n) : n ≤ 16 :=
        (Option.some.inj hn).ge
      exact Bounded.byteArray hlen
    case opaqueData =>
      cases hshape
      exact fun _ => ((within_readExactXdr 1).map _).map _
    case int | unsignedInt | float =>
      cases hshape
      exact fun _ => ((within_readExactXdr 4).map _).map _
    case hyper | unsignedHyper | double =>
      cases hshape
      exact fun _ => ((within_readExactXdr 8).map _).map _
  | struct body ih =>
    intro hint shape hsub hshape hfree
    rw [OwnedLayouts.base, structure_eq, bodyFree, Option.filter_eq_some_iff] at hshape
    obtain ⟨shapes, hall, hsum, hbody, -⟩ := fieldsFrom_eq_some hshape.1
    rw [hsum, Nat.zero_add]
    have hfields : ∀ field ∈ shapes, field.body = false := by
      simpa [hfree] using hbody
    refine h.struct hsub (forall₂_imp_of_mem hall fun d hd field hfield hshape type htype => ?_)
    exact hdeclaration (ih d hd) (List.Subset.trans (requests_field_subset hd) hsub) hshape
      (hfields field hfield) htype
  | union body hdiscriminant harms =>
    intro hint shape hsub hshape hfree
    rw [OwnedLayouts.base, bodyFree, Option.filter_eq_some_iff] at hshape
    obtain ⟨d, arm, hd, hdfree, harm, hsize, hbody⟩ := union_eq_some_iff.mp hshape.1
    obtain ⟨hsize, -⟩ := checkedAdd_eq_some.mp hsize
    rw [hsize]
    obtain ⟨-, -, hall⟩ := armsFrom_eq_some harm
    refine h.union hnamed hsub hd (fun type htype => ?_) fun arm' harm' type htype => ?_
    · exact hdeclaration hdiscriminant (List.Subset.trans requests_discriminant_subset hsub)
        hd hdfree htype
    · obtain ⟨other, hother, hle, hfree'⟩ := hall arm' harm'
      refine Bounded.mono ?_ hle
      exact hdeclaration (harms arm' harm')
        (List.Subset.trans (requests_arm_subset harm') hsub) hother
        (hfree' (hbody ▸ hfree)) htype

/-- A declaration without a body is bounded by its shape. -/
theorem declaration (h : Sized layouts items context requests)
    (hnamed : NamesBounded layouts items named) {d : Declaration} {hint : String} {shape : Shape}
    {type : RustType} (hsub : d.typeSpec.requests hint ⊆ requests)
    (hshape : layouts.declaration named d = some shape) (hfree : shape.body = false)
    (htype : rustTypeForDeclaration d.typeSpec d.declarator.modifier hint = .ok type) :
    Bounded items type shape.prefixBytes := by
  rw [declaration_eq] at hshape
  exact Bounded.declaration h.lengths h.noByteAlias
    (fun inner => h.base hnamed d.typeSpec hint inner hsub) hshape hfree htype

end Sized

/-! ## Projections -/

section Projections

variable {layouts : OwnedLayouts} {named : String → Option Shape}

/-- A name with a body has metadata. -/
theorem metadataName_of_body {name : String} {shape : Shape} (h : layouts.named name = some shape)
    (hbody : shape.body = true) : layouts.metadataName name = some (name ++ "Metadata") := by
  rw [metadataName, h, Option.filter_some, if_pos hbody]
  rfl

/-- The names of types with a body have bounded metadata. -/
def MetadataBounded (layouts : OwnedLayouts) (items : List RustItem)
    (named : String → Option Shape) : Prop :=
  ∀ name shape, named name = some shape → shape.body = true →
    layouts.named name = some shape ∧ Bounded items (.named (name ++ "Metadata")) shape.prefixBytes

/-- The type of a declaration in which the length of the body stands for the body. -/
theorem Bounded.transform (hmetadata : MetadataBounded layouts items named) {d : Declaration}
    {shape : Shape} (hshape : layouts.declaration named d = some shape) (hbody : shape.body = true)
    {hint : String} {type : RustType}
    (htype : rustTypeForDeclaration (layouts.transform d).typeSpec
      (layouts.transform d).declarator.modifier hint = .ok type) :
    Bounded items type shape.prefixBytes := by
  obtain ⟨target, ⟨own, modifier⟩⟩ := d
  rcases declaration_body_cases hshape hbody with
    ⟨bound, htarget, hmodifier, hsize⟩ | ⟨name, inner, htarget, hinner, hinnerBody, hmodifier⟩
  · dsimp only at htarget hmodifier
    subst htarget hmodifier
    cases htype
    rw [hsize]
    exact Bounded.opaqueLength bound
  · dsimp only at htarget hmodifier
    subst htarget
    obtain ⟨hnamed, hbounded⟩ := hmetadata name inner hinner hinnerBody
    have htransform : layouts.transform ⟨.identifier name, ⟨own, modifier⟩⟩ =
        ⟨.identifier (name ++ "Metadata"), ⟨own, modifier⟩⟩ := by
      simp only [OwnedLayouts.transform, metadataName_of_body hnamed hinnerBody]
    rw [htransform] at htype
    rcases hmodifier with ⟨rfl, hsize⟩ | ⟨rfl, hsize⟩
    · cases htype
      rwa [hsize]
    · cases htype
      rw [hsize]
      exact hbounded.optionBox

/-- The first of several members stays. -/
theorem changeLast_cons_cons {α : Type} (f : α → α) (x y : α) (xs : List α) :
    changeLast f (x :: y :: xs) = x :: changeLast f (y :: xs) := by
  simp only [changeLast, List.getLast?_cons_cons, List.dropLast_cons_cons]
  split <;> simp_all

/-- Only the last element is changed. -/
theorem forall₂_changeLast {α β : Type} {R S : α → β → Prop} {f : α → α} {xs : List α} {ys : List β}
    (h : List.Forall₂ R xs ys) (hkeep : ∀ x ∈ xs.dropLast, ∀ y ∈ ys.dropLast, R x y → S x y)
    (hlast : ∀ x y, xs.getLast? = some x → ys.getLast? = some y → R x y → S (f x) y) :
    List.Forall₂ S (changeLast f xs) ys := by
  induction h with
  | nil => exact .nil
  | @cons x y xs ys hfirst hrest ih =>
    rcases hrest with _ | @⟨x', y', xs, ys, hsecond, hmore⟩
    · exact .cons (hlast x y rfl rfl hfirst) .nil
    · rw [changeLast_cons_cons]
      refine .cons (hkeep x (by simp) y (by simp) hfirst) (ih ?_ ?_)
      · intro z hz w hw
        exact hkeep z (by simp [hz]) w (by simp [hw])
      · intro z w hz hw
        exact hlast z w (by simpa using hz) (by simpa using hw)

/-- All members but the last stay. -/
theorem mem_changeLast {α : Type} {f : α → α} {xs : List α} {x : α} (h : x ∈ xs.dropLast) :
    x ∈ changeLast f xs := by
  unfold changeLast
  split
  · exact List.mem_append_left _ h
  · next hnone =>
    rw [List.getLast?_eq_none_iff.mp hnone] at h
    exact h

/-- A body that no other field has is in the last one. -/
theorem body_of_getLast? {shapes : List Shape} (hany : shapes.any Shape.body = true)
    (hfree : ∀ shape ∈ shapes.dropLast, shape.body = false) {last : Shape}
    (hlast : shapes.getLast? = some last) : last.body = true := by
  rw [← List.dropLast_append_getLast? last hlast, List.any_append, Bool.or_eq_true] at hany
  rcases hany with hfront | hlast'
  · obtain ⟨shape, hmem, hbody⟩ := List.any_eq_true.mp hfront
    rw [hfree shape hmem] at hbody
    cases hbody
  · simpa using hlast'

end Projections

end OncRpc
