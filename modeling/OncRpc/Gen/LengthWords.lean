import OncRpc.Gen.Fields

/-!
# The lengths that encodings carry

The encoders of strings, opaque data and vectors write a length as a word and cut off what does not
fit (`lengthWord`).  The segmented encoder refuses such a length instead.  Here the encoders are
written over the way a length is written, `putLength`: with the word of `lengthWord` they are the
generated ones (`encodeXdrWith_putWord`), with `putChecked` a length that does not fit is an error.

`LengthsKept` says that what is encoded is what the checked encoder writes, so that every length
word is the length.  `lengths_kept_iff` says for which values this is so.  The lengths a value makes
its encoder write are its `lengthParts`, which do not depend on what the encoder does with them.
-/

namespace OncRpc

open Foundation

variable (items : List RustItem)

/-! ## Encoders over the way a length is written -/

section With

variable (putLength : ℕ → XdrWrite)

/-- The implementations for the types of the runtime. -/
def encodeTypeWith (named : String → Value → XdrWrite) : RustType → Value → XdrWrite
  | .string _, .string s =>
    (putLength (stringBytes s).length).andThen (.bytes (writeFixedOpaque (stringBytes s)))
  | .bytes _, .bytes b => (putLength b.length).andThen (.bytes (writeFixedOpaque b))
  | .vec element _, .vec values =>
    (putLength values.length).andThen (Write.each (encodeTypeWith named element) values)
  | .optionBox element, .option value => encodeOption (encodeTypeWith named element) value
  | .array element _, .array values =>
    if isByte items element then
      (Write.each (encodeTypeWith named element) values).andThen (.bytes (padding values.length))
    else Write.each (encodeTypeWith named element) values
  | .opaqueSegments maximum, .opaqueSegments owners =>
    match (maximumLen items maximum).map fun maximum => checkedLen maximum owners with
    | some (.ok len) => (putLength len).andThen (.bytes (owners.flatten ++ padding len))
    | some (.error error) => .fail error
    | none => .exhausted
  -- No other type has a length.
  | type, value => encodeType items named type value

/-- The template of a field. -/
def encodeFieldWith (encode : RustType → Value → XdrWrite) (field : RustField) (value : Value) :
    XdrWrite :=
  match field.encode, field.type, value with
  | .lenThenEach, .vec element _, .vec values =>
    (putLength values.length).andThen (Write.each (encode element) values)
  | _, _, value => encodeField encode field value

/-- The fields of a structure, one after the other. -/
def encodeFieldsWith (encode : RustType → Value → XdrWrite) :
    List RustField → List Value → XdrWrite
  | [], [] => .bytes []
  | field :: fields, value :: values =>
    (encodeFieldWith putLength encode field value).andThen (encodeFieldsWith encode fields values)
  | _, _ => .exhausted

/-- The field of a variant, if it has one. -/
def encodeVariantFieldWith (encode : RustType → Value → XdrWrite) :
    Option RustField → Option Value → XdrWrite
  | some field, some value => encodeFieldWith putLength encode field value
  | none, none => .bytes []
  | _, _ => .exhausted

/-- The implementation of a generated item. -/
def encodeItemWith (encode : RustType → Value → XdrWrite) : RustItem → Value → XdrWrite
  | .struct _ fields, .struct values => encodeFieldsWith putLength encode fields values
  | .union _ body, .union variant discriminant field =>
    match body.variants.find? fun v => v.name = variant, discriminant with
    | some v, none =>
      if v.isDefault then .exhausted
      else
        (encodeLabel items v.label).andThen
          (encodeVariantFieldWith putLength encode v.field field)
    | some v, some discriminant =>
      if v.isDefault then
        (encodeDiscriminant discriminant).andThen
          (encodeVariantFieldWith putLength encode v.field field)
      else .exhausted
    | none, _ => .exhausted
  | item, value => encodeItem items encode item value

/-- The implementation of a named type. -/
def encodeNamedWith : ℕ → String → Value → XdrWrite
  | 0, _, _ => .exhausted
  | fuel + 1, name, value =>
    match findType items name with
    | some item =>
      encodeItemWith items putLength (encodeTypeWith items putLength (encodeNamedWith fuel)) item
        value
    | none => .exhausted

/-- The encoding of a value. -/
def encodeXdrWith (fuel : ℕ) (type : RustType) (value : Value) : XdrWrite :=
  encodeTypeWith items putLength (encodeNamedWith items putLength fuel) type value

end With

/-- A length as the generated encoders write it: `len as u32`. -/
def putWord (len : ℕ) : XdrWrite := .bytes (beBytes (lengthWord len))

/-- A length as the segmented encoder writes it: one that does not fit is an error. -/
def putChecked (len : ℕ) : XdrWrite :=
  if len < 2 ^ 32 then .bytes (beBytes (lengthWord len)) else .fail (.lengthLimit len (2 ^ 32 - 1))

example : beBytes (lengthWord (2 ^ 32 + 5)) = [0, 0, 0, 5] := by decide +kernel

/-- What is encoded is encoded alike if the lengths are checked: every length word is the length. -/
def LengthsKept (fuel : ℕ) (type : RustType) (value : Value) : Prop :=
  ∀ b, encodeXdr items fuel type value = .bytes b →
    encodeXdrWith items putChecked fuel type value = .bytes b

/-! ## The lengths in a value -/

/-- What a value makes its encoder write a length for. -/
inductive LengthPart where
  | length (len : ℕ)
  /-- A body of several owners, whose length is checked against a maximum. -/
  | body (maximum : ℕ) (owners : List Bytes)

/-- The lengths in the values of the types of the runtime. -/
def typeParts (named : String → Value → List LengthPart) : RustType → Value → List LengthPart
  | .string _, .string s => [.length (stringBytes s).length]
  | .bytes _, .bytes b => [.length b.length]
  | .vec element _, .vec values =>
    .length values.length :: values.flatMap (typeParts named element)
  | .optionBox element, .option value => value.toList.flatMap (typeParts named element)
  | .array element _, .array values => values.flatMap (typeParts named element)
  | .named name, value => named name value
  | .opaqueSegments maximum, .opaqueSegments owners =>
    (maximumLen items maximum).toList.map fun maximum => .body maximum owners
  | _, _ => []

/-- The lengths in a field, under its template. -/
def fieldParts (parts : RustType → Value → List LengthPart) (field : RustField) (value : Value) :
    List LengthPart :=
  match field.encode, field.type, value with
  | .encodeXdr, type, value => parts type value
  | .lenThenEach, .vec element _, .vec values =>
    .length values.length :: values.flatMap (parts element)
  | .each, .array element _, .array values => values.flatMap (parts element)
  | .writeFixedOpaque, .array _ _, .array values => values.flatMap (parts .u8)
  | _, _, _ => []

/-- The lengths in the fields of a structure. -/
def fieldsParts (parts : RustType → Value → List LengthPart) :
    List RustField → List Value → List LengthPart
  | field :: fields, value :: values =>
    fieldParts parts field value ++ fieldsParts parts fields values
  | _, _ => []

/-- The lengths in the field of a variant. -/
def variantFieldParts (parts : RustType → Value → List LengthPart) :
    Option RustField → Option Value → List LengthPart
  | some field, some value => fieldParts parts field value
  | _, _ => []

/-- The lengths in the values of an item. -/
def itemParts (parts : RustType → Value → List LengthPart) : RustItem → Value → List LengthPart
  | .typeAlias _ type, value => parts type value
  | .struct _ fields, .struct values => fieldsParts parts fields values
  | .union _ body, .union variant _ field =>
    match body.variants.find? fun v => v.name = variant with
    | some v => variantFieldParts parts v.field field
    | none => []
  | _, _ => []

/-- The lengths in the values of a named type, through at most that many names. -/
def namedParts : ℕ → String → Value → List LengthPart
  | 0, _, _ => []
  | fuel + 1, name, value =>
    match findType items name with
    | some item => itemParts (typeParts items (namedParts fuel)) item value
    | none => []

/-- The lengths in a value, through at most that many names. -/
def lengthParts (fuel : ℕ) (type : RustType) (value : Value) : List LengthPart :=
  typeParts items (namedParts items fuel) type value

/-- Every length in the value fits into a word. -/
def LengthsFit (fuel : ℕ) (type : RustType) (value : Value) : Prop :=
  ∀ len, .length len ∈ lengthParts items fuel type value → len < 2 ^ 32

/-- Some body in the value is longer than its maximum allows, and the encoder refuses it. -/
def BodyExceeds (fuel : ℕ) (type : RustType) (value : Value) : Prop :=
  ∃ maximum owners, .body maximum owners ∈ lengthParts items fuel type value ∧
    min maximum (2 ^ 32 - 1) < (owners.map List.length).sum

/-! ## Values, whatever the lengths in them -/

/-- A label is rendered as an expression that has a value. -/
def LabelExpr.HasValue (label : LabelExpr) : Prop :=
  match label with
  | .bool _ | .value (.number _) => True
  | .value (.identifier name) => (i64Value items (.identifier name)).isSome
  | LabelExpr.variant enumName name => (enumValue items enumName name).isSome
  | .discriminant => False

/-- The discriminants a default variant keeps. -/
def Value.IsDiscriminant : Value → Prop
  | .bool _ | .i32 _ | .u32 _ => True
  | _ => False

/-- The values of the types of the runtime; `named` has those of the generated items. -/
def shapedBy (named : String → Value → Prop) : RustType → Value → Prop
  | .unit, .unit | .bool, .bool _ | .i32, .i32 _ | .u32, .u32 _ | .i64, .i64 _ | .u64, .u64 _
  | .f32, .f32 _ | .f64, .f64 _ | .u8, .u8 _ | .string _, .string _ | .bytes _, .bytes _ => True
  | .vec element _, .vec values => ∀ value ∈ values, shapedBy named element value
  | .optionBox element, .option value => ∀ v ∈ value, shapedBy named element v
  | .array element len, .array values =>
    arrayLen items len = some values.length ∧ ∀ value ∈ values, shapedBy named element value
  | .named name, value => named name value
  | .opaqueSegments maximum, .opaqueSegments _ => (maximumLen items maximum).isSome
  | _, _ => False

/-- The values of a field, as its template takes them. -/
def shapedField (shaped : RustType → Value → Prop) (field : RustField) (value : Value) : Prop :=
  match field.encode, field.type, value with
  | .encodeXdr, type, value => shaped type value
  | .lenThenEach, .vec element _, .vec values => ∀ value ∈ values, shaped element value
  | .each, .array element _, .array values => ∀ value ∈ values, shaped element value
  | .writeFixedOpaque, .array _ _, .array values => ∀ value ∈ values, shaped .u8 value
  | _, _, _ => False

/-- The values of the field of a variant. -/
def shapedVariantField (shaped : RustType → Value → Prop) :
    Option RustField → Option Value → Prop
  | some field, some value => shapedField shaped field value
  | none, none => True
  | _, _ => False

/-- The values of an item. -/
def shapedItem (shaped : RustType → Value → Prop) : RustItem → Value → Prop
  | .typeAlias _ type, value => shaped type value
  | .struct _ fields, .struct values => List.Forall₂ (shapedField shaped) fields values
  | .enum name _, .enum variant => (enumValue items name variant).isSome
  | .union _ body, .union variant discriminant field =>
    ∃ v, (body.variants.find? fun v => v.name = variant) = some v ∧
      shapedVariantField shaped v.field field ∧
      match discriminant with
      | none => v.isDefault = false ∧ v.label.HasValue items
      | some discriminant => v.isDefault = true ∧ discriminant.IsDiscriminant
  | _, _ => False

/-- The values of a named type, through at most that many names. -/
def shapedNamed : ℕ → String → Value → Prop
  | 0, _, _ => False
  | fuel + 1, name, value => ∃ item, findType items name = some item ∧
    shapedItem items (shapedBy items (shapedNamed fuel)) item value

/-- The values of a type through at most that many names, with lengths of any size. -/
def HasShape (fuel : ℕ) (type : RustType) (value : Value) : Prop :=
  shapedBy items (shapedNamed items fuel) type value

variable {items}

/-! ## The generated encoders -/

variable {named named' : String → Value → XdrWrite} {putLength putLength' : ℕ → XdrWrite}

/-- With truncated length words the encoder of a type is the generated one. -/
theorem encodeTypeWith_putWord :
    encodeTypeWith items putWord named = encodeType items named := by
  funext type value
  induction type generalizing value with
  | string bound | bytes bound => rcases value <;> rfl
  | vec element bound ih =>
    rcases value
    case vec values =>
      have := Write.each_congr fun value (_ : value ∈ values) => ih value
      rw [encodeTypeWith, this]
      rfl
    all_goals rfl
  | optionBox element ih =>
    rcases value
    case option value => rw [encodeTypeWith, funext ih]; rfl
    all_goals rfl
  | array element len ih =>
    rcases value
    case array values => rw [encodeTypeWith, funext ih]; rfl
    all_goals rfl
  | opaqueSegments maximum =>
    rcases value
    case opaqueSegments owners =>
      rw [encodeTypeWith, encodeType]
      generalize (maximumLen items maximum).map (fun maximum => checkedLen maximum owners) = checked
      rcases checked with _ | (error | len)
      case some.ok =>
        dsimp only
        rw [List.append_assoc]
        rfl
      all_goals rfl
    all_goals rfl
  | _ => rfl

/-- With truncated length words the encoder of a field is the generated one. -/
theorem encodeFieldWith_putWord (encode : RustType → Value → XdrWrite) :
    encodeFieldWith putWord encode = encodeField encode := by
  funext field value
  unfold encodeFieldWith
  split
  · next hencode htype =>
      obtain ⟨name, type, template, decode, segments⟩ := field
      cases hencode
      cases htype
      rfl
  · rfl

/-- With truncated length words the encoder of fields is the generated one. -/
theorem encodeFieldsWith_putWord (encode : RustType → Value → XdrWrite) :
    encodeFieldsWith putWord encode = encodeFields encode := by
  funext fields values
  induction fields generalizing values with
  | nil => rcases values <;> rfl
  | cons field fields ih =>
    rcases values with _ | ⟨value, values⟩
    · rfl
    · rw [encodeFieldsWith, encodeFields, ih, encodeFieldWith_putWord]

/-- With truncated length words the encoder of an arm's field is the generated one. -/
theorem encodeVariantFieldWith_putWord (encode : RustType → Value → XdrWrite) :
    encodeVariantFieldWith putWord encode = encodeVariantField encode := by
  funext field value
  rcases field with _ | field <;> rcases value with _ | value
  case some.some =>
    rw [encodeVariantFieldWith, encodeFieldWith_putWord]
    rfl
  all_goals rfl

/-- With truncated length words the encoder of an item is the generated one. -/
theorem encodeItemWith_putWord (encode : RustType → Value → XdrWrite) :
    encodeItemWith items putWord encode = encodeItem items encode := by
  funext item value
  unfold encodeItemWith
  split
  · rw [encodeFieldsWith_putWord, encodeItem]
  · rw [encodeVariantFieldWith_putWord]
    rfl
  · rfl

/-- With truncated length words the encoder of a named type is the generated one. -/
theorem encodeNamedWith_putWord (fuel : ℕ) :
    encodeNamedWith items putWord fuel = encodeNamed items fuel := by
  induction fuel with
  | zero => rfl
  | succ fuel ih =>
    funext name value
    rcases hfind : findType items name with _ | item
    · simp only [encodeNamedWith, encodeNamed, hfind]
    · simp only [encodeNamedWith, encodeNamed, hfind, ih, encodeTypeWith_putWord,
        encodeItemWith_putWord]

/-- With lengths that are cut off the encoders are the generated ones. -/
theorem encodeXdrWith_putWord (fuel : ℕ) :
    encodeXdrWith items putWord fuel = encodeXdr items fuel := by
  funext type value
  rw [encodeXdrWith, encodeNamedWith_putWord, encodeTypeWith_putWord, encodeXdr]

/-! ## Lengths that fit -/

/-- A length that fits is written alike with and without the check. -/
theorem putChecked_of_lt {len : ℕ} (h : len < 2 ^ 32) : putChecked len = putWord len := if_pos h

/-- A checked length is written exactly if it fits. -/
theorem putChecked_succeeds {len : ℕ} : (putChecked len).Succeeds ↔ len < 2 ^ 32 := by
  unfold putChecked
  split <;> simp_all

/-- An unchecked length is always written. -/
theorem putWord_succeeds (len : ℕ) : (putWord len).Succeeds := Write.succeeds_bytes _

/-- Every length among these fits into a word. -/
def PartsFit (parts : List LengthPart) : Prop := ∀ len, .length len ∈ parts → len < 2 ^ 32

/-- The lengths of two lists of parts fit exactly where those of both do. -/
theorem PartsFit.append {front back : List LengthPart} (h : PartsFit (front ++ back)) :
    PartsFit front ∧ PartsFit back :=
  ⟨fun len hlen => h len (List.mem_append_left _ hlen),
    fun len hlen => h len (List.mem_append_right _ hlen)⟩

/-- The lengths of collected parts fit in each of them. -/
theorem PartsFit.of_flatMap {α : Type} {f : α → List LengthPart} {xs : List α}
    (h : PartsFit (xs.flatMap f)) : ∀ x ∈ xs, PartsFit (f x) :=
  fun x hx len hlen => h len (List.mem_flatMap.mpr ⟨x, hx, hlen⟩)

/-- The first length fits, and so do the others. -/
theorem PartsFit.head {len : ℕ} {rest : List LengthPart} (h : PartsFit (.length len :: rest)) :
    len < 2 ^ 32 ∧ PartsFit rest :=
  ⟨h len (List.mem_cons_self ..), fun _ hlen => h _ (List.mem_cons_of_mem _ hlen)⟩

section Fit

variable {parts : String → Value → List LengthPart}

/-- The combined length of a body was checked. -/
theorem checkedLenFrom_eq_ok {maximum len len' : ℕ} (hle : len ≤ maximum) (hmax : maximum < 2 ^ 64)
    {owners : List Bytes} : checkedLenFrom maximum len owners = .ok len' ↔
      len' = len + (owners.map List.length).sum ∧ len' ≤ maximum := by
  induction owners generalizing len with
  | nil =>
    simp only [checkedLenFrom, List.map_nil, List.sum_nil, Except.ok.injEq, Nat.add_zero]
    constructor
    · rintro rfl
      exact ⟨rfl, hle⟩
    · rintro ⟨rfl, -⟩
      rfl
  | cons owner owners ih =>
    rw [checkedLenFrom, List.map_cons, List.sum_cons]
    split
    · simp only [reduceCtorEq, false_iff]
      omega
    · split
      · simp only [reduceCtorEq, false_iff]
        omega
      · rw [ih (by omega), Nat.add_assoc]

/-- The length of a body is the sum over its owners, within the maximum and 32 bits. -/
theorem checkedLen_eq_ok {maximum len : ℕ} {owners : List Bytes} :
    checkedLen maximum owners = .ok len ↔
      len = (owners.map List.length).sum ∧ len ≤ min maximum (2 ^ 32 - 1) := by
  have hmax : min maximum (2 ^ 32 - 1) < 2 ^ 64 := by omega
  rw [checkedLen, checkedLenFrom_eq_ok (Nat.zero_le _) hmax, Nat.zero_add]

/-- Where all lengths fit, checking them makes no difference to a type. -/
theorem encodeTypeWith_of_fits
    (hnamed : ∀ name value, PartsFit (parts name value) → named name value = named' name value)
    {type : RustType} {value : Value} (h : PartsFit (typeParts items parts type value)) :
    encodeTypeWith items putChecked named type value =
      encodeTypeWith items putWord named' type value := by
  induction type generalizing value with
  | string bound =>
    rcases value
    case string s =>
      have hlen : (stringBytes s).length < 2 ^ 32 := h _ (List.mem_singleton_self _)
      rw [encodeTypeWith, encodeTypeWith, putChecked_of_lt hlen]
    all_goals rfl
  | bytes bound =>
    rcases value
    case bytes b =>
      have hlen : b.length < 2 ^ 32 := h _ (List.mem_singleton_self _)
      rw [encodeTypeWith, encodeTypeWith, putChecked_of_lt hlen]
    all_goals rfl
  | vec element bound ih =>
    rcases value
    case vec values =>
      obtain ⟨hlen, hvalues⟩ := h.head
      have heach := Write.each_congr fun value hmem => ih (hvalues.of_flatMap value hmem)
      rw [encodeTypeWith, encodeTypeWith, putChecked_of_lt hlen, heach]
    all_goals rfl
  | optionBox element ih =>
    rcases value
    case option value =>
      rcases value with _ | value
      · rfl
      · have hvalue := ih (h.of_flatMap value (by simp))
        rw [encodeTypeWith, encodeTypeWith, encodeOption, encodeOption, hvalue]
    all_goals rfl
  | array element len ih =>
    rcases value
    case array values =>
      have heach := Write.each_congr fun value hmem => ih (h.of_flatMap value hmem)
      rw [encodeTypeWith, encodeTypeWith, heach]
    all_goals rfl
  | named name => exact hnamed name value h
  | opaqueSegments maximum =>
    rcases value
    case opaqueSegments owners =>
      rw [encodeTypeWith, encodeTypeWith]
      rcases maximumLen items maximum with _ | maximum
      · rfl
      · rcases hchecked : checkedLen maximum owners with error | len
        · simp only [Option.map_some, hchecked]
        · obtain ⟨-, hle⟩ := checkedLen_eq_ok.mp hchecked
          simp only [Option.map_some, hchecked]
          rw [putChecked_of_lt (by omega)]
    all_goals rfl
  | _ => rcases value <;> rfl

section Union

variable {body : RustUnion} {variant : String} {v : RustVariant} {name : String}
  {field : Option Value}

/-- How a value of a labelled variant is encoded. -/
theorem encodeItemWith_variant (h : body.variants.find? (fun v => v.name = variant) = some v)
    (encode : RustType → Value → XdrWrite) :
    encodeItemWith items putLength encode (.union name body) (.union variant none field) =
      if v.isDefault then .exhausted
      else (encodeLabel items v.label).andThen
        (encodeVariantFieldWith putLength encode v.field field) := by
  rw [encodeItemWith.eq_def]
  simp only [h]

/-- How a value of the default variant is encoded. -/
theorem encodeItemWith_default (h : body.variants.find? (fun v => v.name = variant) = some v)
    (encode : RustType → Value → XdrWrite) (discriminant : Value) :
    encodeItemWith items putLength encode (.union name body)
        (.union variant (some discriminant) field) =
      if v.isDefault then
        (encodeDiscriminant discriminant).andThen
          (encodeVariantFieldWith putLength encode v.field field)
      else .exhausted := by
  rw [encodeItemWith.eq_def]
  simp only [h]

/-- The lengths in a value of a union are those of its field. -/
theorem itemParts_union (h : body.variants.find? (fun v => v.name = variant) = some v)
    (parts : RustType → Value → List LengthPart) (discriminant : Option Value) :
    itemParts parts (.union name body) (.union variant discriminant field) =
      variantFieldParts parts v.field field := by
  rw [itemParts, h]

end Union

section Items

variable {encode encode' : RustType → Value → XdrWrite}
  {parts : RustType → Value → List LengthPart}
  (htype : ∀ type value, PartsFit (parts type value) → encode type value = encode' type value)

include htype

/-- Where all lengths fit, checking them makes no difference to a field. -/
theorem encodeFieldWith_of_fits {field : RustField} {value : Value}
    (h : PartsFit (fieldParts parts field value)) :
    encodeFieldWith putChecked encode field value =
      encodeFieldWith putWord encode' field value := by
  have heach {element : RustType} {values : List Value}
      (h : PartsFit (values.flatMap (parts element))) :
      Write.each (encode element) values = Write.each (encode' element) values :=
    Write.each_congr fun value hmem => htype element value (h.of_flatMap value hmem)
  obtain ⟨name, type, template, decode, segments⟩ := field
  rcases template
  case encodeXdr => exact htype type value h
  case lenThenEach =>
    rcases type <;> rcases value
    case vec.vec element bound values =>
      obtain ⟨hlen, hvalues⟩ := h.head
      change (putChecked _).andThen _ = (putWord _).andThen _
      rw [putChecked_of_lt hlen, heach hvalues]
    all_goals rfl
  case each =>
    rcases type <;> rcases value
    case array.array element len values => exact heach h
    all_goals rfl
  case writeFixedOpaque =>
    rcases type <;> rcases value
    case array.array element len values =>
      exact congrArg (Write.andThen · (.bytes (padding values.length))) (heach h)
    all_goals rfl

/-- Where all lengths fit, checking them makes no difference to fields. -/
theorem encodeFieldsWith_of_fits {fields : List RustField} {values : List Value}
    (h : PartsFit (fieldsParts parts fields values)) :
    encodeFieldsWith putChecked encode fields values =
      encodeFieldsWith putWord encode' fields values := by
  induction fields generalizing values with
  | nil => rcases values <;> rfl
  | cons field fields ih =>
    rcases values with _ | ⟨value, values⟩
    · rfl
    · obtain ⟨hfirst, hrest⟩ := PartsFit.append h
      rw [encodeFieldsWith, encodeFieldsWith, encodeFieldWith_of_fits htype hfirst, ih hrest]

/-- Where all lengths fit, checking them makes no difference to an arm's field. -/
theorem encodeVariantFieldWith_of_fits {field : Option RustField} {value : Option Value}
    (h : PartsFit (variantFieldParts parts field value)) :
    encodeVariantFieldWith putChecked encode field value =
      encodeVariantFieldWith putWord encode' field value := by
  rcases field with _ | field <;> rcases value with _ | value
  case some.some => exact encodeFieldWith_of_fits htype h
  all_goals rfl

/-- Where all lengths fit, checking them makes no difference to an item. -/
theorem encodeItemWith_of_fits {item : RustItem} {value : Value}
    (h : PartsFit (itemParts parts item value)) :
    encodeItemWith items putChecked encode item value =
      encodeItemWith items putWord encode' item value := by
  rcases item with _ | ⟨_, type⟩ | ⟨_, fields⟩ | _ | ⟨_, body⟩
  case typeAlias => exact htype type value h
  case struct =>
    rcases value
    case struct values => exact encodeFieldsWith_of_fits htype h
    all_goals rfl
  case union =>
    rcases value
    case union variant discriminant field =>
      rcases hfound : body.variants.find? (fun v => v.name = variant) with _ | v
      · rw [encodeItemWith.eq_def, encodeItemWith.eq_def]
        simp only [hfound]
      · rw [itemParts_union hfound] at h
        have hfield := encodeVariantFieldWith_of_fits htype h
        rcases discriminant with _ | d
        · rw [encodeItemWith_variant hfound, encodeItemWith_variant hfound, hfield]
        · rw [encodeItemWith_default hfound, encodeItemWith_default hfound, hfield]
    all_goals rfl
  all_goals rcases value <;> rfl

end Items

/-- Where all lengths fit, checking them makes no difference to a named type. -/
theorem encodeNamedWith_of_fits {fuel : ℕ} {name : String} {value : Value}
    (h : PartsFit (namedParts items fuel name value)) :
    encodeNamedWith items putChecked fuel name value =
      encodeNamedWith items putWord fuel name value := by
  induction fuel generalizing name value with
  | zero => rfl
  | succ fuel ih =>
    rw [encodeNamedWith, encodeNamedWith]
    rcases hfound : findType items name with _ | item
    · rfl
    · rw [namedParts, hfound] at h
      exact encodeItemWith_of_fits (fun type value => encodeTypeWith_of_fits fun _ _ => ih) h

/-- Where every length fits, the check changes nothing. -/
theorem encodeXdrWith_of_fits {fuel : ℕ} {type : RustType} {value : Value}
    (h : LengthsFit items fuel type value) :
    encodeXdrWith items putChecked fuel type value = encodeXdr items fuel type value := by
  rw [← encodeXdrWith_putWord]
  exact encodeTypeWith_of_fits (fun _ _ => encodeNamedWith_of_fits) h

end Fit

/-! ## Encoders that succeed -/

/-- What is written for a length or a body is written. -/
def LengthPart.Writable (putLength : ℕ → XdrWrite) : LengthPart → Prop
  | .length len => (putLength len).Succeeds
  | .body maximum owners =>
    ∃ len, checkedLen maximum owners = .ok len ∧ (putLength len).Succeeds

section Succeeds

variable {parts : String → Value → List LengthPart} {shaped : String → Value → Prop}

/-- An encoder of a value of its type succeeds exactly if all that has a length is written. -/
theorem encodeTypeWith_succeeds
    (hnamed : ∀ name value, shaped name value →
      ((named name value).Succeeds ↔ ∀ part ∈ parts name value, part.Writable putLength))
    {type : RustType} {value : Value} (h : shapedBy items shaped type value) :
    (encodeTypeWith items putLength named type value).Succeeds ↔
      ∀ part ∈ typeParts items parts type value, part.Writable putLength := by
  induction type generalizing value with
  | string bound =>
    rcases value
    case string s => simp [encodeTypeWith, typeParts, LengthPart.Writable]
    all_goals exact h.elim
  | bytes bound =>
    rcases value
    case bytes b => simp [encodeTypeWith, typeParts, LengthPart.Writable]
    all_goals exact h.elim
  | vec element bound ih =>
    rcases value
    case vec values =>
      have heach :
          (∀ value ∈ values, (encodeTypeWith items putLength named element value).Succeeds) ↔
          ∀ part ∈ values.flatMap (typeParts items parts element), part.Writable putLength := by
        rw [List.forall_mem_flatMap]
        exact forall₂_congr fun value hmem => ih (h value hmem)
      rw [encodeTypeWith, typeParts, List.forall_mem_cons, Write.succeeds_andThen,
        Write.succeeds_each, heach]
      rfl
    all_goals exact h.elim
  | optionBox element ih =>
    rcases value
    case option value =>
      rcases value with _ | value
      · simp [encodeTypeWith, typeParts, encodeOption]
      · have hvalue := ih (h value rfl)
        simpa [encodeTypeWith, typeParts, encodeOption] using hvalue
    all_goals exact h.elim
  | array element len ih =>
    rcases value
    case array values =>
      have heach :
          (∀ value ∈ values, (encodeTypeWith items putLength named element value).Succeeds) ↔
          ∀ part ∈ values.flatMap (typeParts items parts element), part.Writable putLength := by
        rw [List.forall_mem_flatMap]
        exact forall₂_congr fun value hmem => ih (h.2 value hmem)
      rw [encodeTypeWith, typeParts, ← heach]
      split <;> simp
    all_goals exact h.elim
  | named name => exact hnamed name value h
  | opaqueSegments maximum =>
    rcases value
    case opaqueSegments owners =>
      obtain ⟨m, hm⟩ := Option.isSome_iff_exists.mp h
      rw [encodeTypeWith, typeParts, hm]
      rcases hchecked : checkedLen m owners with error | len <;>
        simp [hchecked, LengthPart.Writable]
    all_goals exact h.elim
  | opaqueLength maximum => rcases value <;> exact h.elim
  | _ =>
    rcases value
    all_goals first
      | exact h.elim
      | simp [encodeTypeWith, encodeType, typeParts]

/-- A label that has a value is written. -/
theorem encodeLabel_succeeds {label : LabelExpr} (h : label.HasValue items) :
    (encodeLabel items label).Succeeds := by
  rcases label with b | ⟨enumName, variant⟩ | (value | name) | _
  case variant =>
    obtain ⟨x, hx⟩ := Option.isSome_iff_exists.mp h
    rw [encodeLabel, hx]
    exact Write.succeeds_bytes _
  case value.identifier =>
    obtain ⟨x, hx⟩ := Option.isSome_iff_exists.mp h
    rw [encodeLabel, hx]
    exact Write.succeeds_bytes _
  case discriminant => exact h.elim
  all_goals exact Write.succeeds_bytes _

/-- A discriminant is written. -/
theorem encodeDiscriminant_succeeds {value : Value} (h : value.IsDiscriminant) :
    (encodeDiscriminant value).Succeeds := by
  rcases value
  case bool | i32 | u32 => exact Write.succeeds_bytes _
  all_goals exact h.elim

section Items

variable {encode : RustType → Value → XdrWrite} {parts : RustType → Value → List LengthPart}
  {shaped : RustType → Value → Prop}
  (htype : ∀ type value, shaped type value →
    ((encode type value).Succeeds ↔ ∀ part ∈ parts type value, part.Writable putLength))

include htype

/-- A field is encoded exactly if all its lengths are written. -/
theorem encodeFieldWith_succeeds {field : RustField} {value : Value}
    (h : shapedField shaped field value) :
    (encodeFieldWith putLength encode field value).Succeeds ↔
      ∀ part ∈ fieldParts parts field value, part.Writable putLength := by
  have heach {element : RustType} {values : List Value}
      (h : ∀ value ∈ values, shaped element value) :
      (Write.each (encode element) values).Succeeds ↔
        ∀ part ∈ values.flatMap (parts element), part.Writable putLength := by
    rw [Write.succeeds_each, List.forall_mem_flatMap]
    exact forall₂_congr fun value hmem => htype element value (h value hmem)
  obtain ⟨name, type, template, decode, segments⟩ := field
  rcases template
  case encodeXdr => exact htype type value h
  case lenThenEach =>
    rcases type <;> rcases value
    case vec.vec element bound values =>
      have hparts : (∀ part ∈ LengthPart.length values.length :: values.flatMap (parts element),
            part.Writable putLength) ↔ (putLength values.length).Succeeds ∧
          ∀ part ∈ values.flatMap (parts element), part.Writable putLength := List.forall_mem_cons
      exact Write.succeeds_andThen.trans ((and_congr Iff.rfl (heach h)).trans hparts.symm)
    all_goals exact h.elim
  case each =>
    rcases type <;> rcases value
    case array.array element len values => exact heach h
    all_goals exact h.elim
  case writeFixedOpaque =>
    rcases type <;> rcases value
    case array.array element len values =>
      have hvalues := heach h
      have hpad : (Write.bytes (padding values.length) : XdrWrite).Succeeds :=
        Write.succeeds_bytes _
      exact Write.succeeds_andThen.trans ((and_iff_left hpad).trans hvalues)
    all_goals exact h.elim

/-- Fields are encoded exactly if all their lengths are written. -/
theorem encodeFieldsWith_succeeds {fields : List RustField} {values : List Value}
    (h : List.Forall₂ (shapedField shaped) fields values) :
    (encodeFieldsWith putLength encode fields values).Succeeds ↔
      ∀ part ∈ fieldsParts parts fields values, part.Writable putLength := by
  induction h with
  | nil => simp [encodeFieldsWith, fieldsParts]
  | cons hfirst _ ih =>
    rw [encodeFieldsWith, fieldsParts, List.forall_mem_append, Write.succeeds_andThen, ih,
      encodeFieldWith_succeeds htype hfirst]

/-- The field of an arm is encoded exactly if all its lengths are written. -/
theorem encodeVariantFieldWith_succeeds {field : Option RustField} {value : Option Value}
    (h : shapedVariantField shaped field value) :
    (encodeVariantFieldWith putLength encode field value).Succeeds ↔
      ∀ part ∈ variantFieldParts parts field value, part.Writable putLength := by
  rcases field with _ | field <;> rcases value with _ | value
  case none.none => simp [encodeVariantFieldWith, variantFieldParts]
  case some.some => exact encodeFieldWith_succeeds htype h
  all_goals exact h.elim

/-- An item is encoded exactly if all its lengths are written. -/
theorem encodeItemWith_succeeds {item : RustItem} {value : Value}
    (h : shapedItem items shaped item value) :
    (encodeItemWith items putLength encode item value).Succeeds ↔
      ∀ part ∈ itemParts parts item value, part.Writable putLength := by
  rcases item with _ | ⟨_, type⟩ | ⟨_, fields⟩ | ⟨name, variants⟩ | ⟨_, body⟩
  case typeAlias => exact htype type value h
  case const => rcases value <;> exact h.elim
  case struct =>
    rcases value
    case struct values => exact encodeFieldsWith_succeeds htype h
    all_goals exact h.elim
  case enum =>
    rcases value
    case enum variant =>
      have hlabel : (encodeLabel items (.variant name variant)).Succeeds := encodeLabel_succeeds h
      exact iff_of_true hlabel (List.forall_mem_nil _)
    all_goals exact h.elim
  case union =>
    rcases value
    case union variant discriminant field =>
      obtain ⟨v, hfound, hfield, hlabel⟩ := h
      have hsucceeds := encodeVariantFieldWith_succeeds htype hfield
      rw [itemParts_union hfound, ← hsucceeds]
      rcases discriminant with _ | d
      · obtain ⟨hdefault, hvalue⟩ := hlabel
        have hfirst := encodeLabel_succeeds hvalue
        rw [encodeItemWith_variant hfound, hdefault, if_neg Bool.false_ne_true,
          Write.succeeds_andThen]
        exact and_iff_right hfirst
      · obtain ⟨hdefault, hvalue⟩ := hlabel
        have hfirst := encodeDiscriminant_succeeds hvalue
        rw [encodeItemWith_default hfound, hdefault, if_pos rfl, Write.succeeds_andThen]
        exact and_iff_right hfirst
    all_goals exact h.elim

end Items

/-- A named type is encoded exactly if all its lengths are written. -/
theorem encodeNamedWith_succeeds {fuel : ℕ} {name : String} {value : Value}
    (h : shapedNamed items fuel name value) :
    (encodeNamedWith items putLength fuel name value).Succeeds ↔
      ∀ part ∈ namedParts items fuel name value, part.Writable putLength := by
  induction fuel generalizing name value with
  | zero => exact h.elim
  | succ fuel ih =>
    obtain ⟨item, hfound, hitem⟩ := h
    rw [encodeNamedWith, namedParts, hfound]
    exact encodeItemWith_succeeds
      (fun type value hshape => encodeTypeWith_succeeds (fun _ _ => ih) hshape) hitem

/-- A value is encoded exactly if all its lengths are written. -/
theorem encodeXdrWith_succeeds {fuel : ℕ} {type : RustType} {value : Value}
    (h : HasShape items fuel type value) :
    (encodeXdrWith items putLength fuel type value).Succeeds ↔
      ∀ part ∈ lengthParts items fuel type value, part.Writable putLength :=
  encodeTypeWith_succeeds (fun _ _ => encodeNamedWith_succeeds) h

end Succeeds

/-! ## The result -/

/-- Unchecked, only a body that exceeds its maximum is not written. -/
theorem writable_putWord_iff {part : LengthPart} : part.Writable putWord ↔
    ∀ maximum owners, part = .body maximum owners →
      (owners.map List.length).sum ≤ min maximum (2 ^ 32 - 1) := by
  rcases part with len | ⟨maximum, owners⟩
  · exact iff_of_true (putWord_succeeds len) (fun _ _ h => by cases h)
  · constructor
    · rintro ⟨len, hlen, -⟩ _ _ ⟨⟩
      obtain ⟨rfl, hle⟩ := checkedLen_eq_ok.mp hlen
      exact hle
    · intro h
      exact ⟨_, checkedLen_eq_ok.mpr ⟨rfl, h maximum owners rfl⟩, putWord_succeeds _⟩

/-- A value of its type is encoded unless a body in it is longer than its maximum allows. -/
theorem encodeXdr_succeeds_iff {fuel : ℕ} {type : RustType} {value : Value}
    (h : HasShape items fuel type value) :
    (encodeXdr items fuel type value).Succeeds ↔ ¬ BodyExceeds items fuel type value := by
  rw [← encodeXdrWith_putWord, encodeXdrWith_succeeds h]
  constructor
  · rintro hall ⟨maximum, owners, hmem, hlt⟩
    have hle := writable_putWord_iff.mp (hall _ hmem) maximum owners rfl
    exact absurd hlt (Nat.not_lt.mpr hle)
  · intro hnot part hmem
    refine writable_putWord_iff.mpr fun maximum owners hpart => ?_
    by_contra hlt
    exact hnot ⟨maximum, owners, hpart ▸ hmem, Nat.not_le.mp hlt⟩

/-- What is encoded with its lengths checked has lengths that fit. -/
theorem LengthsKept.fit {fuel : ℕ} {type : RustType} {value : Value}
    (hkept : LengthsKept items fuel type value) (h : HasShape items fuel type value)
    (hexceeds : ¬ BodyExceeds items fuel type value) : LengthsFit items fuel type value := by
  intro len hmem
  obtain ⟨b, hb⟩ := (encodeXdr_succeeds_iff h).mpr hexceeds
  have hall := (encodeXdrWith_succeeds h).mp ⟨b, hkept b hb⟩
  exact putChecked_succeeds.mp (hall _ hmem)

/-- For a string, opaque data, a vector or any other value of a type of generated code that hides no
name of the runtime: the code is read as it stands, and what is encoded has the lengths of the value
for its length words exactly if every length fits into a word, or if the value is not encoded
because a body of segments in it exceeds its maximum. -/
theorem lengths_kept_iff (items : List RustItem) (hruntime : HidesNothing items) (fuel : ℕ)
    (type : RustType) (value : Value) (h : HasShape items fuel type value) :
    readItems items = some items ∧ (LengthsKept items fuel type value ↔
      BodyExceeds items fuel type value ∨ LengthsFit items fuel type value) := by
  refine ⟨readItems_eq_self hruntime, ?_⟩
  constructor
  · intro hkept
    by_cases hexceeds : BodyExceeds items fuel type value
    · exact .inl hexceeds
    · exact .inr (hkept.fit h hexceeds)
  · rintro (hexceeds | hfit) b hb
    · exact absurd hexceeds ((encodeXdr_succeeds_iff h).mp ⟨b, hb⟩)
    · rw [encodeXdrWith_of_fits hfit, hb]

/-- A structure of a string and a vector of numbers. -/
def lengthsItem : RustItem := .struct "s" [
  ⟨"name", .string none, .encodeXdr, .decodeXdr (.string none), .encodeSegments⟩,
  ⟨"numbers", .vec .i32 none, .lenThenEach, .decodeXdr (.vec .i32 none), .encodeSegments⟩]

/-- A text and a vector of two numbers. -/
def lengthsValue : Value := .struct [.string "ab", .vec [.i32 1, .i32 2]]

/-- A vector of two words keeps its length. -/
theorem lengths_kept_item :
    readItems [lengthsItem] = some [lengthsItem] ∧
      (LengthsKept [lengthsItem] 1 (.named "s") lengthsValue ↔
        BodyExceeds [lengthsItem] 1 (.named "s") lengthsValue ∨
          LengthsFit [lengthsItem] 1 (.named "s") lengthsValue) :=
  lengths_kept_iff [lengthsItem] (by unfold HidesNothing; decide +kernel) 1 _ _
    ⟨lengthsItem, rfl, .cons trivial (.cons (by simp [shapedField, shapedBy]) .nil)⟩

/-! ## Lengths that do not fit -/

/-- The encoding of so many units. -/
theorem encodeXdr_units (fuel len : ℕ) :
    encodeXdr [] fuel (.vec .unit none) (.vec (List.replicate len .unit)) =
      .bytes (beBytes (lengthWord len)) := by
  have hunits (n : ℕ) : Write.each (encodeXdr [] fuel .unit) (List.replicate n .unit) =
      .bytes [] := by
    induction n with
    | zero => rfl
    | succ n ih =>
      rw [List.replicate_succ, Write.each, ih]
      rfl
  have hlength : (List.replicate len Value.unit).length = len := List.length_replicate
  change encodeVec (encodeXdr [] fuel .unit) _ = _
  rw [encodeVec, hunits, hlength]
  rfl

/-- The lengths in a vector of so many units. -/
theorem lengthParts_units (fuel len : ℕ) :
    lengthParts [] fuel (.vec .unit none) (.vec (List.replicate len .unit)) = [.length len] := by
  have hunits (n : ℕ) : (List.replicate n Value.unit).flatMap (lengthParts [] fuel .unit) = [] :=
    List.flatMap_eq_nil_iff.mpr fun value hmem => by rw [List.eq_of_mem_replicate hmem]; rfl
  have hlength : (List.replicate len Value.unit).length = len := List.length_replicate
  change LengthPart.length _ :: List.flatMap (lengthParts [] fuel .unit) _ = _
  rw [hunits, hlength]

/-- A vector of `2 ^ 32` units is encoded as an empty one, with no error. -/
theorem lengths_not_kept :
    encodeXdr [] 0 (.vec .unit none) (.vec (List.replicate (2 ^ 32) .unit)) = .bytes [0, 0, 0, 0] ∧
      ¬ LengthsKept [] 0 (.vec .unit none) (.vec (List.replicate (2 ^ 32) .unit)) := by
  have hword : beBytes (lengthWord (2 ^ 32)) = [0, 0, 0, 0] := by decide
  refine ⟨by rw [encodeXdr_units, hword], fun hkept => ?_⟩
  have hshape : HasShape [] 0 (.vec .unit none) (.vec (List.replicate (2 ^ 32) .unit)) := by
    intro value hmem
    rw [List.eq_of_mem_replicate hmem]
    trivial
  have hexceeds : ¬ BodyExceeds [] 0 (.vec .unit none) (.vec (List.replicate (2 ^ 32) .unit)) := by
    rintro ⟨maximum, owners, hmem, -⟩
    rw [lengthParts_units] at hmem
    cases List.mem_singleton.mp hmem
  have hlen := hkept.fit hshape hexceeds (2 ^ 32)
  rw [lengthParts_units] at hlen
  exact absurd (hlen (List.mem_singleton_self _)) (Nat.lt_irrefl _)

end OncRpc
