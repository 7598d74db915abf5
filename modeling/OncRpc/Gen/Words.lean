import OncRpc.Gen.Complete
import OncRpc.Gen.Parts

/-!
# The words of a schema

The tokenizer makes an identifier of a word that is no keyword of the language
(`identifier_of_tokenize`), and the parser takes every name of a schema from an identifier.  So all
the names of a schema that was read are words, and the only declaration without a name is a bare
`void` (`Schema.worded`).
-/

namespace OncRpc

/-! ## Tokens -/

/-- A word that is an identifier token has the letters of an identifier. -/
theorem isIdentifier_of_wordToken {word : List Char} {name : String} (hword : IsWord word)
    (h : wordToken word = .identifier name) : IsIdentifier name := by
  unfold wordToken at h
  split at h
  · cases h
  · next hnone =>
    obtain rfl := Token.identifier.inj h
    exact ⟨by rwa [String.toList_ofList], hnone⟩

/-- The identifiers among the tokens of a text are words that are no keywords. -/
theorem identifier_of_tokenize {input : List Char} {tokens : List Token}
    (h : tokenize input = .ok tokens) {name : String} (hmem : .identifier name ∈ tokens) :
    IsIdentifier name := by
  induction hn : input.length using Nat.strongRecOn generalizing input tokens with
  | ind n ih =>
    subst hn
    rcases input with _ | ⟨c, rest⟩
    · obtain rfl := Except.ok.inj h
      cases List.mem_singleton.mp hmem
    have hrest : rest.length < (c :: rest).length := by simp
    have hdrop : (rest.dropWhile isWordChar).length < (c :: rest).length :=
      lt_of_le_of_lt (List.dropWhile_suffix _).length_le hrest
    rw [tokenize_cons] at h
    split at h
    · exact ih _ hrest h hmem rfl
    split at h
    · next hstarts =>
      obtain ⟨more, hmore, rfl⟩ := map_ok_iff.mp h
      rcases List.mem_cons.mp hmem with hname | hmem
      · have hword : IsWord (c :: rest.takeWhile isWordChar) :=
          ⟨c, _, rfl, hstarts, fun d hd => List.mem_takeWhile_imp hd⟩
        exact isIdentifier_of_wordToken hword hname.symm
      · exact ih _ hdrop hmore hmem rfl
    split at h
    · rcases hvalue : parseNumber (c :: rest.takeWhile isWordChar) with e | value
      · rw [hvalue] at h
        cases h
      · rw [hvalue] at h
        obtain ⟨more, hmore, rfl⟩ := map_ok_iff.mp h
        rcases List.mem_cons.mp hmem with hname | hmem
        · cases hname
        · exact ih _ hdrop hmore hmem rfl
    split at h
    · obtain ⟨more, hmore, rfl⟩ := map_ok_iff.mp h
      rcases List.mem_cons.mp hmem with hname | hmem
      · cases hname
      · exact ih _ hrest hmore hmem rfl
    · cases h

/-- The identifiers among these tokens are words that are no keywords. -/
def Worded (tokens : List Token) : Prop := ∀ name, .identifier name ∈ tokens → IsIdentifier name

/-- The tokens of a source have the letters of identifiers. -/
theorem worded_of_sourceTokens {input : List Char} {tokens : List Token}
    (h : sourceTokens input = .ok tokens) : Worded tokens := by
  obtain ⟨cleaned, -, htokenize⟩ := except_bind_eq_ok.mp h
  exact fun name hmem => identifier_of_tokenize htokenize hmem

/-- A part of worded tokens is worded. -/
theorem Worded.mono {tokens part : List Token} (h : Worded tokens) (hsub : part ⊆ tokens) :
    Worded part :=
  fun name hmem => h name (hsub hmem)

/-- The tokens of an element are among those of its list. -/
theorem Listed.exists_of_mem {α : Type} {R : α → List Token → Prop} {elements : List α}
    {used : List Token} (h : Listed R elements used) {element : α} (hmem : element ∈ elements) :
    ∃ part, R element part ∧ part ⊆ used := by
  induction h with
  | nil => cases hmem
  | cons head tail ih =>
    rcases List.mem_cons.mp hmem with rfl | hmem
    · exact ⟨_, head, List.subset_append_left ..⟩
    · obtain ⟨part, hpart, hsub⟩ := ih hmem
      exact ⟨part, hpart, List.Subset.trans hsub (List.subset_append_right ..)⟩

/-! ## Names -/

/-- A declaration has an identifier for its name, or is a bare `void`. -/
def Declaration.Named (d : Declaration) : Prop :=
  IsIdentifier d.declarator.name ∨ d.typeSpec = .void ∧ d.declarator = ⟨"", none⟩

/-- A label that is a name is an identifier. -/
def UnionCaseLabel.Named : UnionCaseLabel → Prop
  | .case (.identifier name) => IsIdentifier name
  | .case (.number _) | .default => True

/-- What a structure, an enumeration or a union names, and every arm of the union has a label. -/
def TypeSpec.Named : TypeSpec → Prop
  | .struct body => ∀ d ∈ body.declarations, d.Named
  | .enum body => ∀ v ∈ body.variants, IsIdentifier v.name
  | .union body => ∀ arm ∈ body.arms,
    arm.labels ≠ [] ∧ (∀ label ∈ arm.labels, label.Named) ∧ arm.declaration.Named
  | _ => True

/-- The names of a program, of its versions and of their procedures. -/
def ProgramDecl.names (decl : ProgramDecl) : List String :=
  decl.name :: decl.versions.flatMap fun version =>
    version.name :: version.procedures.map ProcedureDecl.name

/-- The names an item has outside of types. -/
def Item.names : Item → List String
  | .const decl => [decl.name]
  | .typedef decl => [decl.declarator.name]
  | .struct name _ | .enum name _ | .union name _ => [name]
  | .program decl => decl.names

/-- The names of a schema that was read. -/
structure Schema.Named (schema : Schema) : Prop where
  items : ∀ item ∈ schema.items, ∀ name ∈ item.names, IsIdentifier name
  parts : schema.PartsHave TypeSpec.Named

/-- The name of a declarator is among its tokens. -/
theorem Declarator.Spelled.name_mem {lossy : Prop} {d : Declarator} {used : List Token}
    (h : d.Spelled lossy used) : .identifier d.name ∈ used := by
  rcases h with _ | _ | _ | _ <;> simp

/-- The names in a spelled label are identifiers. -/
theorem UnionCaseLabel.Spelled.isNamed {label : UnionCaseLabel} {used : List Token}
    (h : label.Spelled used) (hwords : Worded used) : label.Named := by
  rcases h with value | _
  · rcases value with value | name
    · trivial
    · exact hwords name (by simp [ValueExpr.token])
  · trivial

/-- The names in a spelled enumeration are identifiers. -/
theorem EnumBody.Spelled.isNamed {body : EnumBody} {used : List Token} (h : body.Spelled used)
    (hwords : Worded used) : (TypeSpec.enum body).Named := by
  obtain ⟨listed⟩ := h
  intro v hv
  obtain ⟨part, hspelled, hsub⟩ := listed.exists_of_mem hv
  refine hwords v.name ?_
  have hname : .identifier v.name ∈ part := by rcases hspelled with _ | _ <;> simp
  simp [hsub hname]

section Types

variable {R : TypeSpec → List Token → Prop} {lossy : Prop}
  (hR : ∀ target used, R target used → Worded used → target.PartsHave TypeSpec.Named)

include hR

/-- The names in a spelled declaration are identifiers. -/
theorem Declaration.Spelled.isNamed {d : Declaration} {used : List Token}
    (h : d.Spelled lossy R used) (hwords : Worded used) :
    d.Named ∧ d.typeSpec.PartsHave TypeSpec.Named := by
  rcases h with ⟨base⟩ | ⟨base, declared⟩
  · exact ⟨.inr ⟨rfl, rfl⟩, hR _ _ base hwords⟩
  · exact ⟨.inl (hwords _ (List.mem_append_right _ declared.name_mem)),
      hR _ _ base (hwords.mono (List.subset_append_left ..))⟩

/-- The names in a spelled field are identifiers. -/
theorem Declaration.Field.isNamed {d : Declaration} {used : List Token} (h : d.Field lossy R used)
    (hwords : Worded used) : d.Named ∧ d.typeSpec.PartsHave TypeSpec.Named := by
  obtain ⟨spelled⟩ := h
  exact spelled.isNamed hR (hwords.mono (List.subset_append_left ..))

/-- The names in a spelled structure are identifiers. -/
theorem StructBody.Spelled.isNamed {body : StructBody} {used : List Token}
    (h : body.Spelled lossy R used) (hwords : Worded used) :
    (TypeSpec.struct body).PartsHave TypeSpec.Named := by
  obtain @⟨declarations, more, listed⟩ := h
  have hfield : ∀ d ∈ declarations, d.Named ∧ d.typeSpec.PartsHave TypeSpec.Named := by
    intro d hd
    obtain ⟨part, hpart, hsub⟩ := listed.exists_of_mem hd
    exact hpart.isNamed hR (hwords.mono fun token hmem => by simp [hsub hmem])
  exact TypeSpec.partsHave_struct.mpr ⟨fun d hd => (hfield d hd).1, fun d hd => (hfield d hd).2⟩

/-- The names in a spelled arm are identifiers. -/
theorem UnionArm.Spelled.isNamed {arm : UnionArm} {used : List Token} (h : arm.Spelled lossy R used)
    (hwords : Worded used) : (arm.labels ≠ [] ∧ (∀ label ∈ arm.labels, label.Named) ∧
      arm.declaration.Named) ∧ arm.declaration.typeSpec.PartsHave TypeSpec.Named := by
  obtain ⟨hsome, labelled, field⟩ := h
  obtain ⟨hnamed, hparts⟩ := field.isNamed hR (hwords.mono (List.subset_append_right ..))
  refine ⟨⟨hsome, fun label hlabel => ?_, hnamed⟩, hparts⟩
  obtain ⟨part, hspelled, hsub⟩ := labelled.exists_of_mem hlabel
  exact hspelled.isNamed (hwords.mono fun token hmem => List.mem_append_left _ (hsub hmem))

/-- The names in a spelled union are identifiers. -/
theorem UnionBody.Spelled.isNamed {body : UnionBody} {used : List Token}
    (h : body.Spelled lossy R used) (hwords : Worded used) :
    (TypeSpec.union body).PartsHave TypeSpec.Named := by
  obtain @⟨discriminant, arms, switched, more, spelled, listed⟩ := h
  have harms : ∀ arm ∈ arms, (arm.labels ≠ [] ∧ (∀ label ∈ arm.labels, label.Named) ∧
      arm.declaration.Named) ∧ arm.declaration.typeSpec.PartsHave TypeSpec.Named := by
    intro arm harm
    obtain ⟨part, hpart, hsub⟩ := listed.exists_of_mem harm
    exact hpart.isNamed hR (hwords.mono fun token hmem => by simp [hsub hmem])
  refine TypeSpec.partsHave_union.mpr ⟨fun arm harm => (harms arm harm).1, ?_,
    fun arm harm => (harms arm harm).2⟩
  exact (spelled.isNamed hR (hwords.mono fun token hmem => by simp [hmem])).2

/-- The names in one layer of a spelled type are identifiers. -/
theorem TypeSpec.Layer.isNamed {target : TypeSpec} {used : List Token}
    (h : target.Layer lossy R used) (hwords : Worded used) : target.PartsHave TypeSpec.Named := by
  have htail : ∀ {word : Keyword} {rest : List Token}, Worded (.keyword word :: rest) →
      Worded rest :=
    fun h => h.mono (List.subset_cons_self ..)
  rcases h with _ | _ | _ | _ | _ | _ | _ | _ | _ | _ | _ | _ | _ | spelled | spelled | spelled
  case enum => exact TypeSpec.partsHave_enum.mpr (spelled.isNamed (htail hwords))
  case struct => exact spelled.isNamed hR (htail hwords)
  case union => exact spelled.isNamed hR (htail hwords)
  all_goals exact TypeSpec.partsHave_of_leaf fun _ => rfl

end Types

/-- The names in a type that is spelled with identifiers. -/
theorem TypeSpec.Spelled.isNamed {lossy : Prop} (depth : ℕ) : ∀ target used,
    TypeSpec.Spelled lossy depth target used → Worded used → target.PartsHave TypeSpec.Named := by
  induction depth with
  | zero =>
    intro target used h
    exact h.elim
  | succ depth ih =>
    intro target used h hwords
    exact TypeSpec.Layer.isNamed ih h hwords

/-! ## Items -/

section Items

variable {R : TypeSpec → List Token → Prop} {lossy : Prop}

/-- The name of a procedure is among its tokens. -/
theorem ProcedureDecl.Spelled.name_mem {decl : ProcedureDecl} {used : List Token}
    (h : decl.Spelled lossy R used) : .identifier decl.name ∈ used := by
  obtain ⟨name, number, returned, passed⟩ := h
  simp

/-- The names of a version are among its tokens. -/
theorem VersionDecl.Spelled.name_mem {decl : VersionDecl} {used : List Token}
    (h : decl.Spelled lossy R used) {name : String}
    (hname : name ∈ decl.name :: decl.procedures.map ProcedureDecl.name) :
    .identifier name ∈ used := by
  obtain ⟨own, number, listed⟩ := h
  rcases List.mem_cons.mp hname with rfl | hname
  · simp
  · obtain ⟨p, hp, rfl⟩ := List.mem_map.mp hname
    obtain ⟨part, hspelled, hsub⟩ := listed.exists_of_mem hp
    have hmem := hsub hspelled.name_mem
    simp [hmem]

/-- The names of a program are among its tokens. -/
theorem ProgramDecl.Spelled.name_mem {decl : ProgramDecl} {used : List Token}
    (h : decl.Spelled lossy R used) {name : String} (hname : name ∈ decl.names) :
    .identifier name ∈ used := by
  obtain ⟨own, number, listed⟩ := h
  rcases List.mem_cons.mp hname with rfl | hname
  · simp
  · obtain ⟨version, hversion, hname⟩ := List.mem_flatMap.mp hname
    obtain ⟨part, hspelled, hsub⟩ := listed.exists_of_mem hversion
    have hmem := hsub (hspelled.name_mem hname)
    simp [hmem]

/-- The names of an item are among its tokens. -/
theorem Item.Spelled.name_mem {item : Item} {used : List Token} (h : item.Spelled lossy R used)
    {name : String} (hname : name ∈ item.names) : .identifier name ∈ used := by
  rcases h with _ | ⟨base, declared⟩ | _ | _ | _ | spelled
  case typedef =>
    obtain rfl := List.mem_singleton.mp hname
    have hmem := declared.name_mem
    simp [hmem]
  case program => exact spelled.name_mem hname
  all_goals
    obtain rfl := List.mem_singleton.mp hname
    simp

/-- The names in a spelled item are identifiers. -/
theorem Item.Spelled.isNamed (hR : ∀ target used, R target used → Worded used →
    target.PartsHave TypeSpec.Named) {item : Item} {used : List Token}
    (h : item.Spelled lossy R used) (hwords : Worded used) : item.PartsHave TypeSpec.Named := by
  rcases h with _ | ⟨base, declared⟩ | ⟨name, spelled⟩ | ⟨name, spelled⟩ | ⟨name, spelled⟩ | spelled
  case const =>
    intro request hmem
    obtain rfl := List.mem_singleton.mp hmem
    trivial
  case typedef =>
    exact TypedefDecl.partsHave_iff.mpr (hR _ _ base (hwords.mono fun token hmem => by simp [hmem]))
  case struct =>
    exact spelled.isNamed hR (hwords.mono fun token hmem => by simp [hmem]) name
  case enum =>
    exact TypeSpec.partsHave_enum.mpr
      (spelled.isNamed (hwords.mono fun token hmem => by simp [hmem])) name
  case union =>
    exact spelled.isNamed hR (hwords.mono fun token hmem => by simp [hmem]) name
  case program =>
    intro request hmem
    cases hmem

end Items

/-- The names of a schema that was read are identifiers. -/
theorem Schema.isNamed {source : String} {schema : Schema}
    (h : parseXSource source = some (.ok schema)) : schema.Named := by
  unfold parseXSource at h
  rcases htokens : sourceTokens source.toList with error | tokens
  · rw [htokens] at h
    cases h
  rw [htokens] at h
  obtain ⟨depth, used, hlisted, rfl⟩ := spelled_of_parseSchema (ended_of_sourceTokens htokens) h
  have hwords : Worded used :=
    (worded_of_sourceTokens htokens).mono (List.subset_append_left ..)
  constructor
  · intro item hitem name hname
    obtain ⟨part, hspelled, hsub⟩ := hlisted.exists_of_mem hitem
    exact hwords name (hsub (hspelled.name_mem hname))
  · intro request hrequest
    obtain ⟨item, hitem, hrequest⟩ := List.mem_flatMap.mp hrequest
    obtain ⟨part, hspelled, hsub⟩ := hlisted.exists_of_mem hitem
    exact hspelled.isNamed (TypeSpec.Spelled.isNamed depth) (hwords.mono hsub) request hrequest

end OncRpc
