import OncRpc.Gen.Accepts
import OncRpc.Gen.Text

/-!
# Every spelling is accepted

The parser looks at most two tokens ahead.  What it may find there is stated of each parser: a type
must not be followed by what would be taken for its body, a declarator not by a bracket, a variant
of an enumeration not by a comma of its own.

The fuel of the parser is the number of tokens.  It suffices, since every level of a type takes a
token.
-/

namespace OncRpc

/-- The parser reads every spelling of at most `n` tokens, if what follows the spelling meets
`follow`. -/
def Complete {α : Type} (n : ℕ) (p : TokenParser α) (R : α → List Token → Prop)
    (follow : List Token → Prop) : Prop :=
  ∀ ⦃a used rest⦄, R a used → used.length ≤ n → follow rest → Accepts p (used ++ rest) a rest

/-- Every spelling starts with a token that meets `P`. -/
def Opens {α : Type} (R : α → List Token → Prop) (P : Token → Prop) : Prop :=
  ∀ ⦃a used⦄, R a used → ∃ first more, used = first :: more ∧ P first

/-- The tokens start with one that meets `P`. -/
def Starts (P : Token → Prop) (tokens : List Token) : Prop :=
  ∃ first more, tokens = first :: more ∧ P first

/-- Tokens that start in one way start in every wider way. -/
theorem Starts.mono {P Q : Token → Prop} {tokens : List Token} (h : Starts P tokens)
    (hPQ : ∀ token, P token → Q token) : Starts Q tokens := by
  obtain ⟨first, more, rfl, hfirst⟩ := h
  exact ⟨first, more, rfl, hPQ first hfirst⟩

/-- What is spelled starts as its kind does, whatever follows. -/
theorem Opens.starts {α : Type} {R : α → List Token → Prop} {P : Token → Prop} (h : Opens R P)
    {a : α} {used : List Token} (hused : R a used) (rest : List Token) :
    Starts P (used ++ rest) := by
  obtain ⟨first, more, rfl, hfirst⟩ := h hused
  exact ⟨first, more ++ rest, rfl, hfirst⟩

/-- What may stand behind a type: anything that is not taken for the body of the type. -/
def AfterType : List Token → Prop :=
  Starts fun token => token ≠ .symbol '{' ∧ token ≠ .keyword .switch

/-- What stands behind a declaration. -/
def AfterDeclaration : List Token → Prop :=
  Starts fun token => token = .symbol ';' ∨ token = .symbol ')'

/-- The tokens a type does not start with. -/
def Token.OpensType (token : Token) : Prop :=
  token ≠ .symbol '}' ∧ token ≠ .symbol ',' ∧ token ≠ .keyword .case ∧ token ≠ .keyword .default

/-- A list has no more members than tokens, if each member has a token. -/
theorem Listed.length_le {α : Type} {R : α → List Token → Prop} {P : Token → Prop}
    (hopens : Opens R P) {items : List α} {used : List Token} (h : Listed R items used) :
    items.length ≤ used.length := by
  induction h with
  | nil => exact le_rfl
  | cons head tail ih =>
    obtain ⟨first, more, rfl, -⟩ := hopens head
    simp only [List.length_cons, List.length_append]
    omega

/-- A loop up to a brace accepts every list of what its body accepts. -/
theorem complete_untilBrace {α : Type} {n : ℕ} {p : TokenParser α} {R : α → List Token → Prop}
    {P Q : Token → Prop} (hp : Complete n p R (Starts Q)) (hopens : Opens R P)
    (hP : ∀ token, P token → token ≠ .symbol '}' ∧ Q token) (hbrace : Q (.symbol '}')) :
    Complete n (untilBrace p)
      (fun items used => ∃ more, used = more ++ [.symbol '}'] ∧ Listed R items more)
      fun _ => True := by
  suffices h : ∀ items more, Listed R items more → ∀ fuel rest, items.length < fuel →
      more.length ≤ n → Accepts (untilBraceLoop p fuel) (more ++ .symbol '}' :: rest) items rest by
    rintro items used rest ⟨more, rfl, hlisted⟩ hlen -
    have hfuel := hlisted.length_le hopens
    rw [List.length_append] at hlen
    rw [List.append_assoc]
    exact h items more hlisted _ rest (by simp; omega) (by omega)
  intro items more hlisted
  induction hlisted with
  | nil =>
    intro fuel rest hfuel _
    obtain ⟨fuel, rfl⟩ := Nat.exists_eq_add_of_lt hfuel
    simp [untilBraceLoop]
  | @cons item items used more head tail ih =>
    intro fuel rest hfuel hlen
    rw [List.length_cons] at hfuel
    rw [List.length_append] at hlen
    obtain ⟨fuel, rfl⟩ := Nat.exists_eq_add_of_le' (Nat.one_le_of_lt hfuel)
    obtain ⟨first, tail', hfirst, hword⟩ := hopens.starts head (more ++ .symbol '}' :: rest)
    have hnext : Starts Q (more ++ .symbol '}' :: rest) := by
      cases tail with
      | nil => exact ⟨_, _, rfl, hbrace⟩
      | cons head' _ =>
        rw [List.append_assoc]
        exact (hopens.starts head' _).mono fun token h => (hP token h).2
    have hitem := hp head (by omega) hnext
    have htail := ih fuel rest (by omega) (by omega)
    simp only [untilBraceLoop, accepts_bind, Bool.exists_bool, accepts_consumeSymbol_true,
      accepts_consumeSymbol_false, if_true, Bool.false_eq_true, if_false, accepts_pure]
    rw [List.append_assoc]
    exact .inl ⟨_, ⟨rfl, first, tail', hfirst, (hP first hword).1⟩, item, _, hitem, items, _, htail,
      rfl, rfl⟩

/-- Every declarator is accepted. -/
theorem complete_parseDeclarator {lossy : Prop} (n : ℕ) :
    Complete n parseDeclarator (Declarator.Spelled lossy) AfterDeclaration := by
  rintro d used rest hused - ⟨first, more, rfl, hfirst⟩
  have hsquare : first ≠ .symbol '[' := by rintro rfl; simp at hfirst
  have hangle : first ≠ .symbol '<' := by rintro rfl; simp at hfirst
  have hstop : ∃ token rest, first :: more = token :: rest ∧ token ≠ .symbol '[' ∧
      token ≠ .symbol '<' := ⟨first, more, rfl, hsquare, hangle⟩
  simp only [parseDeclarator, accepts_bind, Bool.exists_bool, accepts_consumeSymbol_true,
    accepts_consumeSymbol_false, accepts_expectIdentifier, accepts_parseModifier, accepts_pure]
  rcases hused with name | name | ⟨name, hbrackets⟩ | ⟨name, -, hbrackets⟩
  · exact .inl ⟨_, ⟨rfl, _, _, rfl, by simp⟩, name, _, rfl, _, _, .inr ⟨rfl, rfl, hstop⟩, rfl, rfl⟩
  · exact .inr ⟨_, rfl, name, _, rfl, _, _, .inr ⟨rfl, rfl, hstop⟩, rfl, rfl⟩
  · exact .inl ⟨_, ⟨rfl, _, _, rfl, by simp⟩, name, _, rfl, _, _,
      .inl ⟨_, _, rfl, hbrackets, rfl⟩, rfl, rfl⟩
  · exact .inr ⟨_, rfl, name, _, rfl, _, _, .inl ⟨_, _, rfl, hbrackets, rfl⟩, rfl, rfl⟩

/-- Every member of an enumeration is accepted. -/
theorem complete_parseEnumVariant (n : ℕ) :
    Complete n parseEnumVariant EnumVariant.Spelled (Starts (· ≠ .symbol ',')) := by
  rintro variant used rest hused - ⟨first, more, rfl, hfirst⟩
  simp only [parseEnumVariant, accepts_bind, Bool.exists_bool, accepts_consumeSymbol_true,
    accepts_consumeSymbol_false, accepts_expectIdentifier, accepts_expectSymbol,
    accepts_parseValueExpr, accepts_pure]
  rcases hused with ⟨name, value⟩ | ⟨name, value⟩
  · exact ⟨name, _, rfl, (), _, rfl, value, _, rfl, .inl ⟨_, ⟨rfl, _, _, rfl, hfirst⟩, rfl, rfl⟩⟩
  · exact ⟨name, _, rfl, (), _, rfl, value, _, rfl, .inr ⟨_, rfl, rfl, rfl⟩⟩

/-- Every body of an enumeration is accepted. -/
theorem complete_parseEnumBody (n : ℕ) :
    Complete n parseEnumBody EnumBody.Spelled fun _ => True := by
  rintro _ _ rest (@⟨variants, used, hlisted⟩) hlen -
  have hopens : Opens EnumVariant.Spelled fun token => ∃ name, token = .identifier name := by
    rintro _ _ (⟨name, value⟩ | ⟨name, value⟩) <;> exact ⟨_, _, rfl, name, rfl⟩
  have hvariants : Accepts (untilBrace parseEnumVariant) (used ++ [.symbol '}'] ++ rest) variants
      rest :=
    complete_untilBrace (complete_parseEnumVariant n) hopens (by rintro _ ⟨name, rfl⟩; simp)
      (by simp) ⟨_, rfl, hlisted⟩ (by simp at hlen ⊢; omega) trivial
  simp only [parseEnumBody, accepts_bind, accepts_expectSymbol, accepts_pure]
  exact ⟨(), _, rfl, _, _, hvariants, rfl, rfl⟩

/-- All labels of an arm are accepted. -/
theorem complete_parseLabels (n : ℕ) :
    Complete n parseLabels (Listed UnionCaseLabel.Spelled) (Starts Token.OpensType) := by
  suffices h : ∀ labels used, Listed UnionCaseLabel.Spelled labels used → ∀ fuel rest,
      labels.length < fuel → Starts Token.OpensType rest →
      Accepts (parseLabelsLoop fuel) (used ++ rest) labels rest by
    intro labels used rest hlisted _ hrest
    have hopens : Opens UnionCaseLabel.Spelled fun _ => True := by
      rintro _ _ (value | _) <;> exact ⟨_, _, rfl, trivial⟩
    have hfuel := hlisted.length_le hopens
    refine h labels used hlisted _ rest ?_ hrest
    obtain ⟨first, more, rfl, -⟩ := hrest
    simp only [List.length_append, List.length_cons]
    omega
  intro labels used hlisted
  induction hlisted with
  | nil =>
    rintro fuel rest hfuel ⟨first, more, rfl, -, -, hcase, hdefault⟩
    obtain ⟨fuel, rfl⟩ := Nat.exists_eq_add_of_lt hfuel
    simp only [parseLabelsLoop, accepts_bind, accepts_peek]
    refine ⟨first, _, ⟨rfl, rfl⟩, ?_⟩
    split
    · exact absurd rfl hcase
    · exact absurd rfl hdefault
    · simp
  | @cons label labels used more head tail ih =>
    intro fuel rest hfuel hrest
    rw [List.length_cons] at hfuel
    obtain ⟨fuel, rfl⟩ := Nat.exists_eq_add_of_le' (Nat.one_le_of_lt hfuel)
    have htail := ih fuel rest (by omega) hrest
    simp only [parseLabelsLoop, accepts_bind, accepts_peek]
    rcases head with value | _
    · refine ⟨_, _, ⟨rfl, rfl⟩, ?_⟩
      simp only [accepts_bind, accepts_next, accepts_parseValueExpr, accepts_expectSymbol,
        accepts_pure]
      exact ⟨_, _, rfl, value, _, rfl, (), _, rfl, labels, _, htail, rfl, rfl⟩
    · refine ⟨_, _, ⟨rfl, rfl⟩, ?_⟩
      simp only [accepts_bind, accepts_next, accepts_expectSymbol, accepts_pure]
      exact ⟨_, _, rfl, (), _, rfl, labels, _, htail, rfl, rfl⟩

section Layer

variable {lossy : Prop} {n : ℕ} {typeSpec : TokenParser TypeSpec}
  {R : TypeSpec → List Token → Prop}

/-- A declarator starts with a star or a name. -/
theorem opens_declarator : Opens (Declarator.Spelled lossy) fun token =>
    token = .symbol '*' ∨ ∃ name, token = .identifier name := by
  rintro _ _ (name | name | ⟨name, -⟩ | ⟨name, -, -⟩)
  · exact ⟨_, _, rfl, .inr ⟨name, rfl⟩⟩
  · exact ⟨_, _, rfl, .inl rfl⟩
  · exact ⟨_, _, rfl, .inr ⟨name, rfl⟩⟩
  · exact ⟨_, _, rfl, .inl rfl⟩

/-- A declarator may stand behind a type. -/
theorem afterType_declarator {d : Declarator} {used : List Token} (h : d.Spelled lossy used)
    (rest : List Token) : AfterType (used ++ rest) :=
  (opens_declarator.starts h rest).mono fun token htoken => by
    rcases htoken with rfl | ⟨name, rfl⟩ <;> simp

/-- What may follow a declaration may follow a type. -/
theorem AfterDeclaration.afterType {rest : List Token} (h : AfterDeclaration rest) :
    AfterType rest :=
  h.mono fun token htoken => by rcases htoken with rfl | rfl <;> simp

/-- A declaration starts like a type. -/
theorem opens_declaration (hR : Opens R Token.OpensType) :
    Opens (Declaration.Spelled lossy R) Token.OpensType := by
  rintro _ _ (hbase | ⟨hbase, -⟩)
  · exact hR hbase
  · obtain ⟨first, more, rfl, hfirst⟩ := hR hbase
    exact ⟨first, _, rfl, hfirst⟩

/-- Every declaration is accepted, if the types in it are. -/
theorem complete_parseDeclaration (htypes : Complete n typeSpec R AfterType) :
    Complete n (parseDeclaration typeSpec) (Declaration.Spelled lossy R) AfterDeclaration := by
  intro declaration used rest hused hlen hrest
  simp only [parseDeclaration, accepts_bind]
  rcases hused with hbase | @⟨type, declarator, used, more, hbase, hdeclarator⟩
  · refine ⟨.void, rest, htypes hbase hlen hrest.afterType, ?_⟩
    obtain ⟨first, more, rfl, hfirst⟩ := hrest
    simp only [accepts_bind, accepts_peek, accepts_ite, accepts_pure]
    exact ⟨first, _, ⟨rfl, rfl⟩, .inl ⟨hfirst, trivial, rfl⟩⟩
  · rw [List.length_append] at hlen
    rw [List.append_assoc]
    have hbehind := afterType_declarator hdeclarator rest
    refine ⟨type, more ++ rest, htypes hbase (by omega) hbehind, ?_⟩
    have hread : Accepts parseDeclarator (more ++ rest) declarator rest :=
      complete_parseDeclarator n hdeclarator (by omega) hrest
    obtain ⟨first, tail, hcons, hfirst⟩ := opens_declarator.starts hdeclarator rest
    have hgo : ¬ (first = .symbol ';' ∨ first = .symbol ')') := by
      rcases hfirst with rfl | ⟨name, rfl⟩ <;> simp
    split
    · simp only [accepts_bind, accepts_peek, accepts_ite, accepts_pure]
      exact ⟨first, _, ⟨by rw [hcons]; rfl, rfl⟩, .inr ⟨hgo, declarator, _, hread, rfl, rfl⟩⟩
    · simp only [accepts_bind, accepts_pure]
      exact ⟨declarator, _, hread, rfl, rfl⟩

/-- Every field is accepted, if the types in it are. -/
theorem complete_parseField (htypes : Complete n typeSpec R AfterType) :
    Complete n (parseField typeSpec) (Declaration.Field lossy R) fun _ => True := by
  rintro declaration _ rest ⟨hused⟩ hlen -
  rw [List.length_append] at hlen
  simp only [parseField, accepts_bind, accepts_expectSymbol, accepts_pure, List.append_assoc]
  exact ⟨declaration, _, complete_parseDeclaration htypes hused (by omega) ⟨_, _, rfl, .inl rfl⟩,
    (), _, rfl, rfl, rfl⟩

/-- A field starts like a type. -/
theorem opens_field (hR : Opens R Token.OpensType) :
    Opens (Declaration.Field lossy R) Token.OpensType := by
  rintro _ _ ⟨hused⟩
  obtain ⟨first, more, rfl, hfirst⟩ := opens_declaration hR hused
  exact ⟨first, _, rfl, hfirst⟩

/-- A parser that accepts before some tokens accepts before fewer kinds of tokens. -/
theorem Complete.weaken {α : Type} {p : TokenParser α} {S : α → List Token → Prop}
    {follow follow' : List Token → Prop} (h : Complete n p S follow)
    (hfollow : ∀ rest, follow' rest → follow rest) : Complete n p S follow' :=
  fun _ _ _ hused hlen hrest => h hused hlen (hfollow _ hrest)

/-- Every body of a structure is accepted, if the types in it are. -/
theorem complete_parseStructBody (htypes : Complete n typeSpec R AfterType)
    (hR : Opens R Token.OpensType) :
    Complete n (parseStructBody typeSpec) (StructBody.Spelled lossy R) fun _ => True := by
  rintro _ _ rest (@⟨declarations, used, hlisted⟩) hlen -
  have hfields : Accepts (untilBrace (parseField typeSpec)) (used ++ [.symbol '}'] ++ rest)
      declarations rest :=
    complete_untilBrace (Q := fun _ => True)
      ((complete_parseField htypes).weaken fun _ _ => trivial) (opens_field hR)
      (fun token h => ⟨h.1, trivial⟩) trivial ⟨_, rfl, hlisted⟩ (by simp at hlen ⊢; omega) trivial
  simp only [parseStructBody, accepts_bind, accepts_expectSymbol, accepts_pure]
  exact ⟨(), _, rfl, _, _, hfields, rfl, rfl⟩

/-- Every arm of a union is accepted, if the types in it are. -/
theorem complete_parseUnionArm (htypes : Complete n typeSpec R AfterType)
    (hR : Opens R Token.OpensType) :
    Complete n (parseUnionArm typeSpec) (UnionArm.Spelled lossy R) fun _ => True := by
  rintro _ _ rest (@⟨labels, declaration, cases, _, hsome, hlabels, ⟨hused⟩⟩) hlen -
  simp only [List.length_append] at hlen
  simp only [parseUnionArm, accepts_bind, accepts_ite, accepts_expectSymbol, accepts_pure,
    List.append_assoc]
  refine ⟨labels, _, complete_parseLabels n hlabels (by omega) ?_, .inr ⟨hsome, declaration, _,
    complete_parseDeclaration htypes hused (by omega) ⟨_, _, rfl, .inl rfl⟩, (), _, rfl, rfl, rfl⟩⟩
  exact (opens_declaration hR).starts hused _

/-- An arm of a union starts with `case` or `default`. -/
theorem opens_unionArm : Opens (UnionArm.Spelled lossy R) fun token =>
    token = .keyword .case ∨ token = .keyword .default := by
  rintro _ _ (@⟨labels, declaration, cases, used, hsome, hlabels, -⟩)
  rcases hlabels with _ | ⟨head, -⟩
  · exact absurd rfl hsome
  · rcases head with value | _
    · exact ⟨_, _, rfl, .inl rfl⟩
    · exact ⟨_, _, rfl, .inr rfl⟩

/-- Every body of a union is accepted, if the types in it are. -/
theorem complete_parseUnionBody (htypes : Complete n typeSpec R AfterType)
    (hR : Opens R Token.OpensType) :
    Complete n (parseUnionBody typeSpec) (UnionBody.Spelled lossy R) fun _ => True := by
  rintro _ _ rest (@⟨discriminant, arms, switched, used, hswitched, hlisted⟩) hlen -
  simp only [List.length_append, List.length_cons, List.length_nil] at hlen
  have harms : Accepts (untilBrace (parseUnionArm typeSpec)) (used ++ [.symbol '}'] ++ rest)
      arms rest :=
    complete_untilBrace (Q := fun _ => True)
      ((complete_parseUnionArm htypes hR).weaken fun _ _ => trivial) opens_unionArm
      (by rintro token (rfl | rfl) <;> simp) trivial ⟨_, rfl, hlisted⟩ (by simp; omega) trivial
  simp only [parseUnionBody, accepts_bind, accepts_expectKeyword, accepts_expectSymbol,
    accepts_pure, List.append_assoc, List.cons_append, List.nil_append] at harms ⊢
  exact ⟨(), _, rfl, (), _, rfl, discriminant, _,
    complete_parseDeclaration htypes hswitched (by omega) ⟨_, _, rfl, .inr rfl⟩, (), _, rfl, (), _,
    rfl, arms, _, harms, rfl, rfl⟩

/-- Behind the keyword of a type and the name of another, what stands behind a type is not taken for
a body. -/
theorem accepts_parseNamedOr_name {opening : Token} {body : TokenParser TypeSpec} {name : String}
    {rest : List Token} (hrest : Starts (· ≠ opening) rest) :
    Accepts (parseNamedOr opening body) (.identifier name :: rest) (.identifier name) rest := by
  obtain ⟨first, more, rfl, hfirst⟩ := hrest
  simp only [parseNamedOr, accepts_bind, accepts_peek]
  refine ⟨_, _, ⟨rfl, rfl⟩, ?_⟩
  simp only [accepts_bind, accepts_peekSecond, accepts_ite, accepts_next, accepts_pure]
  exact ⟨first, _, ⟨rfl, rfl⟩, .inl ⟨hfirst, _, _, rfl, trivial, rfl⟩⟩

/-- Behind the keyword of a type, a token that is not a name starts a body. -/
theorem accepts_parseNamedOr_body {opening : Token} {body : TokenParser TypeSpec} {type : TypeSpec}
    {tokens rest : List Token} (hbody : Accepts body tokens type rest)
    (hopens : Starts (fun token => ∀ name, token ≠ .identifier name) tokens) :
    Accepts (parseNamedOr opening body) tokens type rest := by
  obtain ⟨first, more, rfl, hfirst⟩ := hopens
  simp only [parseNamedOr, accepts_bind, accepts_peek]
  refine ⟨_, _, ⟨rfl, rfl⟩, ?_⟩
  split
  · exact absurd rfl (hfirst _)
  · exact hbody

/-- Every type is accepted, if the types inside it are with less fuel. -/
theorem complete_parseTypeSpecWith (htypes : Complete n typeSpec R AfterType)
    (hR : Opens R Token.OpensType) :
    Complete (n + 1) (parseTypeSpecWith typeSpec) (TypeSpec.Layer lossy R) AfterType := by
  intro type used rest hused hlen hrest
  simp only [parseTypeSpecWith, accepts_bind, accepts_next]
  rcases hused with _ | _ | _ | _ | _ | _ | _ | _ | _ | _ | _ | name | ⟨name, rfl | rfl | rfl⟩ |
    hbody | hbody | hbody
  all_goals refine ⟨_, _, rfl, ?_⟩
  any_goals simp; done
  · exact accepts_parseNamedOr_name (hrest.mono fun token h => h.1)
  · exact accepts_parseNamedOr_name (hrest.mono fun token h => h.1)
  · exact accepts_parseNamedOr_name (hrest.mono fun token h => h.2)
  · rw [List.length_cons] at hlen
    refine accepts_parseNamedOr_body ?_ ?_
    · simp only [accepts_bind, accepts_pure]
      exact ⟨_, _, complete_parseEnumBody n hbody (by omega) trivial, rfl, rfl⟩
    · obtain ⟨-⟩ := hbody
      exact ⟨_, _, rfl, by simp⟩
  · rw [List.length_cons] at hlen
    refine accepts_parseNamedOr_body ?_ ?_
    · simp only [accepts_bind, accepts_pure]
      exact ⟨_, _, complete_parseStructBody htypes hR hbody (by omega) trivial, rfl, rfl⟩
    · obtain ⟨-⟩ := hbody
      exact ⟨_, _, rfl, by simp⟩
  · rw [List.length_cons] at hlen
    refine accepts_parseNamedOr_body ?_ ?_
    · simp only [accepts_bind, accepts_pure]
      exact ⟨_, _, complete_parseUnionBody htypes hR hbody (by omega) trivial, rfl, rfl⟩
    · obtain ⟨-, -⟩ := hbody
      exact ⟨_, _, rfl, by simp⟩

end Layer

/-- A type starts as types do. -/
theorem opens_typeSpec {lossy : Prop} (depth : ℕ) :
    Opens (TypeSpec.Spelled lossy depth) Token.OpensType := by
  intro type used h
  cases depth with
  | zero => exact h.elim
  | succ depth =>
    rcases h with _ | _ | _ | _ | _ | _ | _ | _ | _ | _ | _ | name | ⟨name, rfl | rfl | rfl⟩
      | _ | _ | _
    all_goals exact ⟨_, _, rfl, by simp [Token.OpensType]⟩

/-- Every type is accepted. -/
theorem complete_parseTypeSpec {lossy : Prop} (depth n : ℕ) :
    Complete n (parseTypeSpec n) (TypeSpec.Spelled lossy depth) AfterType := by
  induction depth generalizing n with
  | zero => exact fun _ _ _ hused => hused.elim
  | succ depth ih =>
    cases n with
    | zero =>
      intro type used rest hused hlen
      obtain ⟨first, more, rfl, -⟩ := opens_typeSpec (depth + 1) hused
      simp at hlen
    | succ n => exact complete_parseTypeSpecWith (ih n) (opens_typeSpec depth)

section Items

variable {lossy : Prop} {n : ℕ} {typeSpec : TokenParser TypeSpec}
  {R : TypeSpec → List Token → Prop} (htypes : Complete n typeSpec R AfterType)
  (hvoid : Opens (fun type used => R type used ∧ type ≠ .void) (· ≠ .keyword .void))

/-- A name may follow a type. -/
theorem afterType_identifier {name : String} {rest : List Token} :
    AfterType (.identifier name :: rest) := ⟨_, _, rfl, by simp⟩

/-- A closing parenthesis may follow a declaration. -/
theorem afterDeclaration_paren {rest : List Token} : AfterDeclaration (.symbol ')' :: rest) :=
  ⟨_, _, rfl, .inr rfl⟩

/-- A semicolon may follow a declaration. -/
theorem afterDeclaration_semicolon {rest : List Token} : AfterDeclaration (.symbol ';' :: rest) :=
  ⟨_, _, rfl, .inl rfl⟩

include htypes hvoid

/-- Every argument type is accepted before a closing parenthesis. -/
theorem complete_parseProcedureArgumentType :
    Complete n (parseProcedureArgumentType typeSpec) (TypeSpec.Argument lossy R)
      (Starts (· = .symbol ')')) := by
  rintro type used _ hused hlen ⟨_, rest, rfl, rfl⟩
  have hdeclared : ∀ declarator base more, R type base → type ≠ .void →
      Declarator.Spelled lossy declarator more → (base ++ more).length ≤ n →
      Accepts (parseProcedureArgumentType typeSpec) (base ++ more ++ .symbol ')' :: rest) type
        (.symbol ')' :: rest) := by
    intro declarator base more hbase htyped hmore hlen
    rw [List.length_append] at hlen
    rw [List.append_assoc]
    obtain ⟨first, tail, hcons, hfirst⟩ :=
      hvoid.starts ⟨hbase, htyped⟩ (more ++ .symbol ')' :: rest)
    obtain ⟨second, tail', hcons', hsecond⟩ := opens_declarator.starts hmore (.symbol ')' :: rest)
    have hne : second ≠ .symbol ')' := by rcases hsecond with rfl | ⟨name, rfl⟩ <;> simp
    simp only [parseProcedureArgumentType, accepts_bind, accepts_peek, accepts_ite, accepts_next,
      accepts_pure]
    refine ⟨first, _, ⟨by rw [hcons]; rfl, rfl⟩, .inr ⟨hfirst, type, _,
      htypes hbase (by omega) (afterType_declarator hmore _), second, _, ⟨by rw [hcons']; rfl, rfl⟩,
      .inl ⟨hne, declarator, _, ?_, rfl, rfl⟩⟩⟩
    exact complete_parseDeclarator n hmore (by omega) afterDeclaration_paren
  rcases hused with _ | ⟨hbase, htyped⟩ | ⟨name, hbase, htyped⟩ | ⟨-, hbase, htyped, -, hmore⟩
  · simp [parseProcedureArgumentType]
  · obtain ⟨first, tail, hcons, hfirst⟩ := hvoid.starts ⟨hbase, htyped⟩ (.symbol ')' :: rest)
    simp only [parseProcedureArgumentType, accepts_bind, accepts_peek, accepts_ite, accepts_next,
      accepts_pure]
    exact ⟨first, _, ⟨by rw [hcons]; rfl, rfl⟩, .inr ⟨hfirst, type, _,
      htypes hbase hlen afterDeclaration_paren.afterType, _, _, ⟨rfl, rfl⟩,
      .inr ⟨by simp, rfl, rfl⟩⟩⟩
  · exact hdeclared ⟨name, none⟩ _ _ hbase htyped (.plain name) hlen
  · exact hdeclared _ _ _ hbase htyped hmore hlen

/-- Every procedure is accepted. -/
theorem complete_parseProcedure :
    Complete n (parseProcedure typeSpec) (ProcedureDecl.Spelled lossy R) fun _ => True := by
  rintro _ _ rest (@⟨returnType, argumentType, result, argument, name, number, hresult, hpassed⟩)
    hlen -
  simp only [List.length_append, List.length_cons, List.length_nil] at hlen
  have hargument := complete_parseProcedureArgumentType htypes hvoid hpassed (by omega)
    ⟨_, [.symbol '=', u32Token number, .symbol ';'] ++ rest, rfl, rfl⟩
  simp only [parseProcedure, accepts_bind, accepts_expectIdentifier, accepts_expectSymbol,
    accepts_expectU32, accepts_pure, List.append_assoc, List.cons_append, List.nil_append]
    at hargument ⊢
  exact ⟨returnType, _, htypes hresult (by omega) afterType_identifier, name, _, rfl, (), _, rfl,
    argumentType, _, hargument, (), _, rfl, (), _, rfl, number, _, rfl, (), _, rfl, rfl, rfl⟩

omit htypes hvoid in
/-- A numbered declaration is accepted, if its parts are. -/
theorem complete_parseNumbered {α : Type} {keyword : Keyword} {part : TokenParser α}
    {S : α → List Token → Prop} {P : Token → Prop} (hpart : Complete n part S fun _ => True)
    (hopens : Opens S P) (hP : ∀ token, P token → token ≠ .symbol '}') {parts : List α}
    {used : List Token} (hlisted : Listed S parts used) (hlen : used.length < n) (name : String)
    (number : UInt32) (rest : List Token) :
    Accepts (parseNumbered keyword part)
      ([.keyword keyword, .identifier name, .symbol '{'] ++ used ++
        [.symbol '}', .symbol '=', u32Token number, .symbol ';'] ++ rest)
      (name, parts, number) rest := by
  have hparts : Accepts (untilBrace part)
      (used ++ [.symbol '}'] ++ ([.symbol '=', u32Token number, .symbol ';'] ++ rest)) parts
      ([.symbol '=', u32Token number, .symbol ';'] ++ rest) :=
    complete_untilBrace (Q := fun _ => True) (hpart.weaken fun _ _ => trivial) hopens
      (fun token h => ⟨hP token h, trivial⟩) trivial ⟨_, rfl, hlisted⟩ (by simp; omega) trivial
  simp only [parseNumbered, accepts_bind, accepts_expectKeyword, accepts_expectIdentifier,
    accepts_expectSymbol, accepts_expectU32, accepts_pure, List.append_assoc, List.cons_append,
    List.nil_append] at hparts ⊢
  exact ⟨(), _, rfl, name, _, rfl, (), _, rfl, parts, _, hparts, (), _, rfl, number, _, rfl, (), _,
    rfl, rfl, rfl⟩

/-- Every version is accepted. -/
theorem complete_parseVersion (hR : Opens R Token.OpensType) :
    Complete n (parseVersion typeSpec) (VersionDecl.Spelled lossy R) fun _ => True := by
  rintro _ _ rest ⟨name, number, hlisted⟩ hlen -
  simp only [List.length_append, List.length_cons, List.length_nil] at hlen
  have hopens : Opens (ProcedureDecl.Spelled lossy R) Token.OpensType := by
    rintro _ _ ⟨name, number, hresult, -⟩
    obtain ⟨first, more, rfl, hfirst⟩ := hR hresult
    exact ⟨first, _, rfl, hfirst⟩
  simp only [parseVersion, accepts_bind, accepts_pure]
  exact ⟨_, _, complete_parseNumbered (complete_parseProcedure htypes hvoid) hopens
    (fun token h => h.1) hlisted (by omega) name number rest, rfl, rfl⟩

/-- Every program is accepted. -/
theorem complete_parseProgram (hR : Opens R Token.OpensType) :
    Complete n (parseProgram typeSpec) (ProgramDecl.Spelled lossy R) fun _ => True := by
  rintro _ _ rest ⟨name, number, hlisted⟩ hlen -
  simp only [List.length_append, List.length_cons, List.length_nil] at hlen
  have hopens : Opens (VersionDecl.Spelled lossy R) (· = .keyword .version) := by
    rintro _ _ ⟨name, number, -⟩
    exact ⟨_, _, rfl, rfl⟩
  simp only [parseProgram, accepts_bind, accepts_pure]
  exact ⟨_, _, complete_parseNumbered (complete_parseVersion htypes hvoid hR) hopens
    (by rintro _ rfl; simp) hlisted (by omega) name number rest, rfl, rfl⟩

omit htypes hvoid in
/-- A named declaration is accepted, if its body is. -/
theorem accepts_parseNamed {α : Type} {keyword : Keyword} {body : TokenParser α} {a : α}
    {used rest : List Token} (name : String)
    (hbody : Accepts body (used ++ .symbol ';' :: rest) a (.symbol ';' :: rest)) :
    Accepts (parseNamed keyword body)
      ([.keyword keyword, .identifier name] ++ used ++ [.symbol ';'] ++ rest) (name, a) rest := by
  simp only [parseNamed, accepts_bind, accepts_expectKeyword, accepts_expectIdentifier,
    accepts_expectSymbol, accepts_pure, List.append_assoc, List.cons_append, List.nil_append]
  exact ⟨(), _, rfl, name, _, rfl, a, _, hbody, (), _, rfl, rfl, rfl⟩

/-- Every item is accepted. -/
theorem complete_parseItem (hR : Opens R Token.OpensType) :
    Complete n (parseItem typeSpec) (Item.Spelled lossy R) fun _ => True := by
  intro item used rest hused hlen _
  simp only [parseItem, accepts_bind, accepts_peek]
  rcases hused with ⟨name, value⟩ | @⟨target, declarator, used, more, hbase, hdeclarator⟩ |
    ⟨name, hbody⟩ | ⟨name, hbody⟩ | ⟨name, hbody⟩ | hprogram
  · refine ⟨_, _, ⟨rfl, rfl⟩, ?_⟩
    simp [parseConst]
  · simp only [List.length_append, List.length_cons, List.length_nil] at hlen
    refine ⟨_, _, ⟨rfl, rfl⟩, ?_⟩
    simp only [parseTypedef, accepts_bind, accepts_expectKeyword, accepts_expectSymbol,
      accepts_pure, List.append_assoc, List.cons_append, List.nil_append]
    exact ⟨_, _, ⟨(), _, rfl, target, _, htypes hbase (by omega)
      (afterType_declarator hdeclarator _), declarator, _, complete_parseDeclarator n hdeclarator
        (by omega) afterDeclaration_semicolon,
      (), _, rfl, rfl, rfl⟩, rfl, rfl⟩
  · simp only [List.length_append, List.length_cons, List.length_nil] at hlen
    refine ⟨_, _, ⟨rfl, rfl⟩, ?_⟩
    simp only [parseNamedStruct, accepts_bind, accepts_pure]
    exact ⟨_, _, accepts_parseNamed name
      (complete_parseStructBody htypes hR hbody (by omega) trivial), rfl, rfl⟩
  · simp only [List.length_append, List.length_cons, List.length_nil] at hlen
    refine ⟨_, _, ⟨rfl, rfl⟩, ?_⟩
    simp only [parseNamedEnum, accepts_bind, accepts_pure]
    exact ⟨_, _, accepts_parseNamed name (complete_parseEnumBody n hbody (by omega) trivial), rfl,
      rfl⟩
  · simp only [List.length_append, List.length_cons, List.length_nil] at hlen
    refine ⟨_, _, ⟨rfl, rfl⟩, ?_⟩
    simp only [parseNamedUnion, accepts_bind, accepts_pure]
    exact ⟨_, _, accepts_parseNamed name
      (complete_parseUnionBody htypes hR hbody (by omega) trivial), rfl, rfl⟩
  · have hread : Accepts (parseProgram typeSpec) (used ++ rest) _ rest :=
      complete_parseProgram htypes hvoid hR hprogram hlen trivial
    obtain ⟨name, number, hlisted⟩ := hprogram
    refine ⟨_, _, ⟨rfl, rfl⟩, ?_⟩
    simp only [accepts_bind, accepts_pure]
    exact ⟨_, _, hread, rfl, rfl⟩

omit htypes hvoid in
/-- An item does not start with the end of the source. -/
theorem opens_item : Opens (Item.Spelled lossy R) (· ≠ .eof) := by
  rintro _ _ (_ | _ | _ | _ | _ | ⟨_, _, _⟩)
  all_goals exact ⟨_, _, rfl, by simp⟩

/-- All items of a schema are accepted, up to the end of the source. -/
theorem complete_parseItems (hR : Opens R Token.OpensType) {items : List Item} {used : List Token}
    (hlisted : Listed (Item.Spelled lossy R) items used) (hlen : used.length ≤ n) {fuel : ℕ}
    (hfuel : items.length < fuel) :
    Accepts (parseItems typeSpec fuel) (used ++ [.eof]) items [.eof] := by
  induction hlisted generalizing fuel with
  | nil =>
    obtain ⟨fuel, rfl⟩ := Nat.exists_eq_add_of_lt hfuel
    simp [parseItems]
  | @cons item items used more head tail ih =>
    rw [List.length_cons] at hfuel
    rw [List.length_append] at hlen
    obtain ⟨fuel, rfl⟩ := Nat.exists_eq_add_of_le' (Nat.one_le_of_lt hfuel)
    have hitem : Accepts (parseItem typeSpec) (used ++ (more ++ [.eof])) item (more ++ [.eof]) :=
      complete_parseItem htypes hvoid hR head (by omega) trivial
    obtain ⟨first, tail', hcons, hfirst⟩ := opens_item.starts head (more ++ [.eof])
    simp only [parseItems, accepts_bind, accepts_peek, accepts_ite, accepts_pure, List.append_assoc]
    exact ⟨first, _, ⟨by rw [hcons]; rfl, rfl⟩, .inr ⟨hfirst, item, _, hitem, items, _,
      ih (by omega) (by omega), rfl, rfl⟩⟩

end Items

/-- A type that is not `void` does not start with its keyword. -/
theorem opens_typed {lossy : Prop} (depth : ℕ) :
    Opens (fun type used => TypeSpec.Spelled lossy depth type used ∧ type ≠ .void)
      (· ≠ .keyword .void) := by
  rintro type used ⟨h, htyped⟩
  cases depth with
  | zero => exact h.elim
  | succ depth =>
    rcases h with _ | _ | _ | _ | _ | _ | _ | _ | _ | _ | _ | name | ⟨name, rfl | rfl | rfl⟩
      | _ | _ | _
    · exact absurd rfl htyped
    all_goals exact ⟨_, _, rfl, by simp⟩

/-- Every spelling of a schema is read as the schema. -/
theorem parseSchema_of_spelled {lossy : Prop} {schema : Schema} {tokens : List Token}
    (h : schema.Spelled lossy tokens) : parseSchema tokens = some (.ok schema) := by
  obtain ⟨depth, used, hlisted, rfl⟩ := h
  have hitems := hlisted.length_le opens_item
  have hread : Accepts (parseItems (parseTypeSpec (used ++ [Token.eof]).length)
      (used ++ [Token.eof]).length) (used ++ [.eof]) schema.items [.eof] :=
    complete_parseItems (complete_parseTypeSpec depth _) (opens_typed depth) (opens_typeSpec depth)
      hlisted (by simp) (by simp; omega)
  unfold parseSchema
  rw [hread]
  rfl

/-- What is read as a schema is a spelling of it, with everything the parser drops. -/
theorem spelled_of_parseSchema {schema : Schema} {tokens : List Token} (hended : Ended tokens)
    (h : parseSchema tokens = some (.ok schema)) : schema.Spelled True tokens := by
  obtain ⟨items⟩ := schema
  obtain ⟨body, rfl, hbody⟩ := hended
  unfold parseSchema at h
  obtain ⟨result, hresult, h⟩ := Option.map_eq_some_iff.mp h
  rcases result with e | ⟨items', rest⟩
  · simp [Except.map] at h
  obtain rfl : items' = items := by simpa [Except.map] using h
  obtain ⟨used, hused, hlisted, hrest⟩ :=
    sound_parseItems (sound_parseTypeSpec _) spelled_void _ hresult
  refine ⟨_, used, hlisted, ?_⟩
  obtain ⟨more, rfl⟩ : ∃ more, rest = .eof :: more := by
    cases rest with
    | nil => simp at hrest
    | cons first more => exact ⟨more, by simp_all⟩
  rcases List.eq_nil_or_concat more with rfl | ⟨front, last, rfl⟩
  · exact hused
  · exfalso
    apply hbody
    have hsplit : body ++ [.eof] = used ++ .eof :: front ++ [last] := by simpa using hused
    rw [(List.append_inj' hsplit rfl).1]
    simp

end OncRpc
