import OncRpc.Foundation.LastEntry
import OncRpc.Foundation.Unvisited
import OncRpc.Gen.Layout

/-!
# Where `Eq` is derived

A generated structure or union derives `Eq` unless a floating point number can occur in it.  The
generator finds out by a search through the types that a body mentions.  The search remembers the
names it has entered, it never forgets one, and it counts a name it meets again as harmless, also
where the name is still being looked at or was entered by the check of another field.

`Answered` is what makes this right: as long as the answer is yes, everything behind a name that has
been entered is free of floating point numbers, or is a name that has been entered too.
-/

namespace OncRpc

open Foundation

/-! ## The search -/

/-- A check that remembers the names it has entered: its answer and the names, or nothing at all
without enough fuel. -/
abbrev EqCheck : Type := List String → Option (Bool × List String)

namespace EqCheck

/-- An answer that needs no names. -/
def answer (eq : Bool) : EqCheck := fun seen => some (eq, seen)

/-- A second check where the first says yes. -/
def and (first second : EqCheck) : EqCheck := fun seen =>
  match first seen with
  | some (true, seen) => second seen
  | other => other

end EqCheck

/-- The check of a declarator, where `check` is that of its type. -/
def modifierIsEqWithSeen (check : EqCheck) (modifier : Option DeclaratorModifier) : EqCheck :=
  match modifier with
  | some (.variableArray _) | some (.fixedArray _) => check
  | some .optional | none => .answer true

mutual

/-- The check of a type specifier. -/
def typeSpecIsEqWithSeen (named : String → EqCheck) (target : TypeSpec) : EqCheck :=
  match target with
  | .float | .double => .answer false
  | .struct body => structIsEqWithSeen named body
  | .union body => unionIsEqWithSeen named body
  | .identifier name => named name
  | _ => .answer true
termination_by structural target

/-- The check of a declaration.  The type of an array is checked twice. -/
def declarationIsEqWithSeen (named : String → EqCheck) (d : Declaration) : EqCheck :=
  match d with
  | ⟨target, declarator⟩ =>
    (modifierIsEqWithSeen (typeSpecIsEqWithSeen named target) declarator.modifier).and
      (typeSpecIsEqWithSeen named target)
termination_by structural d

/-- The check of a structure. -/
def structIsEqWithSeen (named : String → EqCheck) (body : StructBody) : EqCheck :=
  match body with
  | ⟨declarations⟩ => fieldsAreEqWithSeen named declarations
termination_by structural body

/-- The check of the fields of a structure. -/
def fieldsAreEqWithSeen (named : String → EqCheck) (declarations : List Declaration) : EqCheck :=
  match declarations with
  | [] => .answer true
  | d :: declarations =>
    (declarationIsEqWithSeen named d).and (fieldsAreEqWithSeen named declarations)
termination_by structural declarations

/-- The check of a union. -/
def unionIsEqWithSeen (named : String → EqCheck) (body : UnionBody) : EqCheck :=
  match body with
  | ⟨_, arms⟩ => armsAreEqWithSeen named arms
termination_by structural body

/-- The check of an arm. -/
def armIsEqWithSeen (named : String → EqCheck) (a : UnionArm) : EqCheck :=
  match a with
  | ⟨_, d⟩ => declarationIsEqWithSeen named d
termination_by structural a

/-- The check of the arms of a union. -/
def armsAreEqWithSeen (named : String → EqCheck) (arms : List UnionArm) : EqCheck :=
  match arms with
  | [] => .answer true
  | a :: arms => (armIsEqWithSeen named a).and (armsAreEqWithSeen named arms)
termination_by structural arms

end

section Unfold

variable (named : String → EqCheck)

/-- A structure has `Eq` if its fields do. -/
theorem structIsEqWithSeen_eq (body : StructBody) :
    structIsEqWithSeen named body = fieldsAreEqWithSeen named body.declarations := by
  obtain ⟨declarations⟩ := body
  rw [structIsEqWithSeen]

/-- A union has `Eq` if its arms do. -/
theorem unionIsEqWithSeen_eq (body : UnionBody) :
    unionIsEqWithSeen named body = armsAreEqWithSeen named body.arms := by
  obtain ⟨discriminant, arms⟩ := body
  rw [unionIsEqWithSeen]

/-- Fields have `Eq` if the first and the others do. -/
theorem fieldsAreEqWithSeen_cons (d : Declaration) (declarations : List Declaration) :
    fieldsAreEqWithSeen named (d :: declarations) =
      (declarationIsEqWithSeen named d).and (fieldsAreEqWithSeen named declarations) := by
  rw [fieldsAreEqWithSeen]

/-- Arms have `Eq` if the first and the others do. -/
theorem armsAreEqWithSeen_cons (a : UnionArm) (arms : List UnionArm) :
    armsAreEqWithSeen named (a :: arms) =
      (declarationIsEqWithSeen named a.declaration).and (armsAreEqWithSeen named arms) := by
  obtain ⟨labels, d⟩ := a
  rw [armsAreEqWithSeen, armIsEqWithSeen]

end Unfold

/-- The check of what a name stands for. -/
def itemIsEqWithSeen (named : String → EqCheck) : Item → EqCheck
  | .typedef decl => declarationIsEqWithSeen named ⟨decl.target, decl.declarator⟩
  | .struct _ body => structIsEqWithSeen named body
  | .union _ body => unionIsEqWithSeen named body
  | .enum _ _ | .const _ | .program _ => .answer true

namespace EmitContext

variable (context : EmitContext)

/-- The check of a name, through at most that many names that are new. -/
def namedTypeIsEqWithSeen : ℕ → String → EqCheck
  | 0, _ => fun _ => none
  | fuel + 1, name => fun seen =>
    if name ∈ seen then some (true, seen)
    else match context.namedType name with
    | some item => itemIsEqWithSeen (namedTypeIsEqWithSeen fuel) item (name :: seen)
    | none => some (true, name :: seen)

/-- A structure derives `Eq`. -/
def structIsEq (body : StructBody) : Option Bool :=
  (structIsEqWithSeen (context.namedTypeIsEqWithSeen (context.namedTypes.length + 1)) body []).map
    Prod.fst

/-- A union derives `Eq`. -/
def unionIsEq (body : UnionBody) : Option Bool :=
  (unionIsEqWithSeen (context.namedTypeIsEqWithSeen (context.namedTypes.length + 1)) body []).map
    Prod.fst

end EmitContext

/-! ## What the search is about -/

/-- The types a name stands for: the target of an alias, the types of the fields of a structure,
those of the arms of a union. -/
def Item.parts : Item → List TypeSpec
  | .typedef decl => [decl.target]
  | .struct _ body => body.declarations.map Declaration.typeSpec
  | .union _ body => body.arms.map fun arm => arm.declaration.typeSpec
  | .enum _ _ | .const _ | .program _ => []

namespace EmitContext

variable (context : EmitContext)

/-- A floating point number is reachable from a type, whatever the declarators on the way. -/
inductive ReachesFloat : TypeSpec → Prop
  | float : ReachesFloat .float
  | double : ReachesFloat .double
  | field {body : StructBody} {d : Declaration} (hmem : d ∈ body.declarations)
      (h : ReachesFloat d.typeSpec) : ReachesFloat (.struct body)
  | arm {body : UnionBody} {arm : UnionArm} (hmem : arm ∈ body.arms)
      (h : ReachesFloat arm.declaration.typeSpec) : ReachesFloat (.union body)
  | named {name : String} {item : Item} {part : TypeSpec}
      (hitem : context.namedType name = some item)
      (hmem : part ∈ item.parts) (h : ReachesFloat part) : ReachesFloat (.identifier name)

end EmitContext

/-- A type has a floating point number in it, or the name of a type that has not been entered. -/
inductive TypeSpec.Open (seen : List String) : TypeSpec → Prop
  | float : Open seen .float
  | double : Open seen .double
  | field {body : StructBody} {d : Declaration} (hmem : d ∈ body.declarations)
      (h : Open seen d.typeSpec) : Open seen (.struct body)
  | arm {body : UnionBody} {arm : UnionArm} (hmem : arm ∈ body.arms)
      (h : Open seen arm.declaration.typeSpec) : Open seen (.union body)
  | named {name : String} (hnew : name ∉ seen) : Open seen (.identifier name)

/-- What is open once more names have been entered was open before. -/
theorem TypeSpec.Open.anti {seen seen' : List String} (hsub : seen ⊆ seen') {target : TypeSpec}
    (h : Open seen' target) : Open seen target := by
  induction h with
  | float => exact .float
  | double => exact .double
  | field hmem _ ih => exact .field hmem ih
  | arm hmem _ ih => exact .arm hmem ih
  | named hnew => exact .named fun hold => hnew (hsub hold)

namespace EmitContext

variable {context : EmitContext}

/-- Behind every name that has been entered since `seen` nothing is open. -/
def Expanded (context : EmitContext) (seen seen' : List String) : Prop :=
  ∀ name ∈ seen', name ∈ seen ∨
    ∀ item, context.namedType name = some item → ∀ part ∈ item.parts, ¬ part.Open seen'

/-- An answer about some types: no for a floating point number, and yes when nothing is open in them
nor behind the names entered for them. -/
structure Answered (context : EmitContext) (targets : List TypeSpec) (seen : List String)
    (eq : Bool) (seen' : List String) : Prop where
  subset : seen ⊆ seen'
  reaches : eq = false → ∃ target ∈ targets, context.ReachesFloat target
  settled : eq = true → ∀ target ∈ targets, ¬ target.Open seen'
  expanded : eq = true → context.Expanded seen seen'

/-- The names of the types that have not been entered. -/
def left (context : EmitContext) (seen : List String) : ℕ :=
  unvisited (context.namedTypes.map Prod.fst) seen

/-- The check comes to an answer about the types, if there are fewer than `n` names left. -/
def Answers (context : EmitContext) (n : ℕ) (check : EqCheck) (targets : List TypeSpec) : Prop :=
  ∀ seen, context.left seen < n →
    ∃ eq seen', check seen = some (eq, seen') ∧ context.Answered targets seen eq seen'

/-- Nothing more is expanded where nothing more is seen. -/
theorem Expanded.refl (seen : List String) : context.Expanded seen seen := fun _ hmem => .inl hmem

/-- Expansions follow one another. -/
theorem Expanded.trans {seen mid seen' : List String} (h : context.Expanded seen mid)
    (h' : context.Expanded mid seen') (hsub : mid ⊆ seen') : context.Expanded seen seen' := by
  intro name hmem
  rcases h' name hmem with hmid | hnew
  · rcases h name hmid with hold | hexpanded
    · exact .inl hold
    · exact .inr fun item hitem part hpart hopen =>
        hexpanded item hitem part hpart (hopen.anti hsub)
  · exact .inr hnew

/-! ## One check after another -/

namespace Answers

variable {n : ℕ} {check first second : EqCheck} {targets others : List TypeSpec}

/-- An answer about no types, or about types that have no names in them. -/
theorem answer_true (hclosed : ∀ target ∈ targets, ∀ seen, ¬ target.Open seen) :
    context.Answers n (.answer true) targets := fun seen _ =>
  ⟨true, seen, rfl, List.Subset.refl seen, fun h => Bool.noConfusion h,
    fun _ target hmem => hclosed target hmem seen, fun _ => .refl seen⟩

/-- The answer is right where some target reaches a float. -/
theorem answer_false (h : ∃ target ∈ targets, context.ReachesFloat target) :
    context.Answers n (.answer false) targets := fun seen _ =>
  ⟨false, seen, rfl, List.Subset.refl seen, fun _ => h, fun h => Bool.noConfusion h,
    fun h => Bool.noConfusion h⟩

/-- The second check starts with the names of the first. -/
theorem and (h : context.Answers n first targets) (h' : context.Answers n second others) :
    context.Answers n (first.and second) (targets ++ others) := by
  intro seen hleft
  obtain ⟨eq, mid, hfirst, hanswered⟩ := h seen hleft
  cases eq with
  | false =>
    refine ⟨false, mid, by rw [EqCheck.and, hfirst], hanswered.subset, fun _ => ?_, ?_, ?_⟩
    · obtain ⟨target, hmem, hreaches⟩ := hanswered.reaches rfl
      exact ⟨target, List.mem_append_left _ hmem, hreaches⟩
    · exact fun h => Bool.noConfusion h
    · exact fun h => Bool.noConfusion h
  | true =>
    have hfewer : context.left mid ≤ context.left seen := unvisited_anti hanswered.subset
    obtain ⟨eq, seen', hsecond, hanswered'⟩ := h' mid (hfewer.trans_lt hleft)
    refine ⟨eq, seen', by rw [EqCheck.and, hfirst]; exact hsecond,
      List.Subset.trans hanswered.subset hanswered'.subset, fun heq => ?_,
        fun heq => ?_, fun heq => ?_⟩
    · obtain ⟨target, hmem, hreaches⟩ := hanswered'.reaches heq
      exact ⟨target, List.mem_append_right _ hmem, hreaches⟩
    · intro target hmem hopen
      rcases List.mem_append.mp hmem with hmem | hmem
      · exact hanswered.settled rfl target hmem (hopen.anti hanswered'.subset)
      · exact hanswered'.settled heq target hmem hopen
    · exact (hanswered.expanded rfl).trans (hanswered'.expanded heq) hanswered'.subset

/-- An answer about some types is one about others, if those have nothing else in them. -/
theorem of_parts (h : context.Answers n check targets)
    (hreaches : (∃ x ∈ targets, context.ReachesFloat x) → ∃ x ∈ others, context.ReachesFloat x)
    (hopen : ∀ seen, (∃ x ∈ others, x.Open seen) → ∃ x ∈ targets, x.Open seen) :
    context.Answers n check others := by
  intro seen hleft
  obtain ⟨eq, seen', hcheck, hanswered⟩ := h seen hleft
  refine ⟨eq, seen', hcheck, hanswered.subset, fun heq => hreaches (hanswered.reaches heq), ?_,
    hanswered.expanded⟩
  intro heq target hmem htarget
  obtain ⟨x, hx, hxopen⟩ := hopen seen' ⟨target, hmem, htarget⟩
  exact hanswered.settled heq x hx hxopen

/-! ## The types -/

variable {named : String → EqCheck}

/-- A declarator does not change what is reachable. -/
theorem declaration {d : Declaration}
    (h : context.Answers n (typeSpecIsEqWithSeen named d.typeSpec) [d.typeSpec]) :
    context.Answers n (declarationIsEqWithSeen named d) [d.typeSpec] := by
  obtain ⟨target, declarator⟩ := d
  have hmodifier : context.Answers n
      (modifierIsEqWithSeen (typeSpecIsEqWithSeen named target) declarator.modifier) [target] ∨
      context.Answers n
        (modifierIsEqWithSeen (typeSpecIsEqWithSeen named target) declarator.modifier) [] := by
    rcases declarator.modifier with _ | (_ | _ | _)
    · exact .inr (answer_true (List.forall_mem_nil _))
    · exact .inl h
    · exact .inl h
    · exact .inr (answer_true (List.forall_mem_nil _))
  rw [declarationIsEqWithSeen]
  rcases hmodifier with hmodifier | hmodifier
  · refine (hmodifier.and h).of_parts ?_ ?_ <;> simp
  · exact hmodifier.and h

/-- The fields of a structure. -/
theorem fields {declarations : List Declaration}
    (h : ∀ d ∈ declarations, context.Answers n (typeSpecIsEqWithSeen named d.typeSpec)
      [d.typeSpec]) :
    context.Answers n (fieldsAreEqWithSeen named declarations)
      (declarations.map Declaration.typeSpec) := by
  induction declarations with
  | nil => exact answer_true (List.forall_mem_nil _)
  | cons d declarations ih =>
    obtain ⟨hfirst, hrest⟩ := List.forall_mem_cons.mp h
    rw [fieldsAreEqWithSeen_cons]
    exact (declaration hfirst).and (ih hrest)

/-- The arms of a union. -/
theorem arms {arms : List UnionArm} (h : ∀ arm ∈ arms, context.Answers n
      (typeSpecIsEqWithSeen named arm.declaration.typeSpec) [arm.declaration.typeSpec]) :
    context.Answers n (armsAreEqWithSeen named arms)
      (arms.map fun arm => arm.declaration.typeSpec) := by
  induction arms with
  | nil => exact answer_true (List.forall_mem_nil _)
  | cons arm arms ih =>
    obtain ⟨hfirst, hrest⟩ := List.forall_mem_cons.mp h
    rw [armsAreEqWithSeen_cons]
    exact (declaration hfirst).and (ih hrest)

/-- A type, if the check of names is right: one case for each form of what stands inside it. -/
theorem typeSpec (h : ∀ name, context.Answers n (named name) [.identifier name])
    (target : TypeSpec) : context.Answers n (typeSpecIsEqWithSeen named target) [target] := by
  induction target using TypeSpec.inner_induction with
  | struct body ih =>
    rw [typeSpecIsEqWithSeen, structIsEqWithSeen_eq]
    refine (fields ih).of_parts ?_ ?_
    · rintro ⟨x, hmem, hx⟩
      obtain ⟨d, hd, rfl⟩ := List.mem_map.mp hmem
      exact ⟨_, List.mem_singleton_self _, .field hd hx⟩
    · rintro seen ⟨x, hmem, hx⟩
      obtain rfl := List.mem_singleton.mp hmem
      cases hx with
      | field hd hx => exact ⟨_, List.mem_map_of_mem hd, hx⟩
  | union body _ ih =>
    rw [typeSpecIsEqWithSeen, unionIsEqWithSeen_eq]
    refine (arms ih).of_parts ?_ ?_
    · rintro ⟨x, hmem, hx⟩
      obtain ⟨arm, harm, rfl⟩ := List.mem_map.mp hmem
      exact ⟨_, List.mem_singleton_self _, .arm harm hx⟩
    · rintro seen ⟨x, hmem, hx⟩
      obtain rfl := List.mem_singleton.mp hmem
      cases hx with
      | arm harm hx => exact ⟨_, List.mem_map.mpr ⟨_, harm, rfl⟩, hx⟩
  | leaf target hstruct hunion =>
    have hclosed (hopen : ∀ seen, ¬ target.Open seen) :
        context.Answers n (.answer true) [target] := by
      refine answer_true fun x hmem => ?_
      obtain rfl := List.mem_singleton.mp hmem
      exact hopen
    cases target with
    | float => exact answer_false ⟨_, List.mem_singleton_self _, .float⟩
    | double => exact answer_false ⟨_, List.mem_singleton_self _, .double⟩
    | identifier name => exact h name
    | struct body => exact absurd rfl (hstruct body)
    | union body => exact absurd rfl (hunion body)
    | _ => exact hclosed fun seen hopen => by cases hopen

/-- What a name stands for. -/
theorem item (h : ∀ name, context.Answers n (named name) [.identifier name]) (item : Item) :
    context.Answers n (itemIsEqWithSeen named item) item.parts := by
  cases item with
  | typedef decl => exact declaration (typeSpec h decl.target)
  | struct name body =>
    rw [itemIsEqWithSeen, structIsEqWithSeen_eq]
    exact fields fun d _ => typeSpec h d.typeSpec
  | union name body =>
    rw [itemIsEqWithSeen, unionIsEqWithSeen_eq]
    exact arms fun arm _ => typeSpec h arm.declaration.typeSpec
  | enum | const | program => exact answer_true (List.forall_mem_nil _)

end Answers

/-! ## The names -/

/-- A type that is found is among the named types. -/
theorem mem_of_namedType {name : String} {item : Item} (h : context.namedType name = some item) :
    name ∈ context.namedTypes.map Prod.fst := mem_keys_of_lookup_reverse h

/-- The check of a name is right: what stands behind a name is looked at when the name is entered,
and no name is entered twice. -/
theorem answers_named (n : ℕ) (name : String) :
    context.Answers n (context.namedTypeIsEqWithSeen n name) [.identifier name] := by
  induction n generalizing name with
  | zero => exact fun seen hleft => absurd hleft (Nat.not_lt_zero _)
  | succ n ih =>
    intro seen hleft
    by_cases hseen : name ∈ seen
    · refine ⟨true, seen, if_pos hseen, List.Subset.refl seen, fun h => Bool.noConfusion h, ?_,
        fun _ => .refl seen⟩
      intro _ target hmem hopen
      obtain rfl := List.mem_singleton.mp hmem
      cases hopen with
      | named hnew => exact hnew hseen
    have hentered {seen' : List String} (hsub : name :: seen ⊆ seen') :
        ∀ target ∈ [TypeSpec.identifier name], ¬ target.Open seen' := by
      intro target hmem hopen
      obtain rfl := List.mem_singleton.mp hmem
      cases hopen with
      | named hnew => exact hnew (hsub List.mem_cons_self)
    have hstep : context.namedTypeIsEqWithSeen (n + 1) name seen =
        match context.namedType name with
        | some item => itemIsEqWithSeen (context.namedTypeIsEqWithSeen n) item (name :: seen)
        | none => some (true, name :: seen) := if_neg hseen
    rcases hitem : context.namedType name with _ | item
    · rw [hitem] at hstep
      refine ⟨true, name :: seen, hstep, List.subset_cons_self name seen,
        fun h => Bool.noConfusion h, fun _ => hentered (List.Subset.refl _), fun _ other hmem => ?_⟩
      rcases List.mem_cons.mp hmem with rfl | hold
      · refine .inr fun item hother => ?_
        rw [hitem] at hother
        cases hother
      · exact .inl hold
    · rw [hitem] at hstep
      have hfewer : context.left (name :: seen) < context.left seen :=
        unvisited_cons_lt (mem_of_namedType hitem) hseen
      obtain ⟨eq, seen', hcheck, hanswered⟩ :=
        Answers.item ih item (name :: seen) (by omega)
      refine ⟨eq, seen', hstep.trans hcheck,
        List.Subset.trans (List.subset_cons_self name seen) hanswered.subset, fun heq => ?_,
        fun _ => hentered hanswered.subset, fun heq other hmem => ?_⟩
      · obtain ⟨part, hpart, hreaches⟩ := hanswered.reaches heq
        exact ⟨_, List.mem_singleton_self _, .named hitem hpart hreaches⟩
      · rcases hanswered.expanded heq other hmem with hold | hnew
        · rcases List.mem_cons.mp hold with rfl | hold
          · refine .inr fun item' hitem' part hpart => ?_
            rw [hitem] at hitem'
            cases hitem'
            exact hanswered.settled heq part hpart
          · exact .inl hold
        · exact .inr hnew

/-- Where nothing is open, neither in a type nor behind any name that was entered, no floating point
number is reachable. -/
theorem not_reachesFloat {seen : List String} (hexpanded : context.Expanded [] seen)
    {target : TypeSpec} (hsettled : ¬ target.Open seen) : ¬ context.ReachesFloat target := by
  intro h
  induction h with
  | float => exact hsettled .float
  | double => exact hsettled .double
  | field hmem _ ih => exact ih fun hopen => hsettled (.field hmem hopen)
  | arm hmem _ ih => exact ih fun hopen => hsettled (.arm hmem hopen)
  | @named name item part hitem hmem _ ih =>
    have hentered : name ∈ seen := by
      by_contra hnew
      exact hsettled (.named hnew)
    rcases hexpanded name hentered with hold | hbehind
    · cases hold
    · exact ih (hbehind item hitem part hmem)

/-- A whole check: it comes to an answer, and the answer is exact. -/
theorem Answers.exact {check : EqCheck} {targets : List TypeSpec}
    (h : context.Answers (context.namedTypes.length + 1) check targets) :
    ∃ eq, (check []).map Prod.fst = some eq ∧
      (eq = true ↔ ∀ target ∈ targets, ¬ context.ReachesFloat target) := by
  have hleft : context.left [] ≤ (context.namedTypes.map Prod.fst).length := unvisited_le
  rw [List.length_map] at hleft
  obtain ⟨eq, seen, hcheck, hanswered⟩ := h [] (Nat.lt_succ_of_le hleft)
  refine ⟨eq, by rw [hcheck]; rfl, fun heq target hmem => ?_, fun hnone => ?_⟩
  · exact not_reachesFloat (hanswered.expanded heq) (hanswered.settled heq target hmem)
  · by_contra hne
    obtain ⟨target, hmem, hreaches⟩ := hanswered.reaches (Bool.eq_false_iff.mpr hne)
    exact hnone target hmem hreaches

/-! ## The result -/

/-- The generator derives `Eq` for a structure or a union exactly if no floating point number is
reachable from its fields or arms. -/
theorem derives_eq_exactly (context : EmitContext) :
    (∀ body : StructBody, ∃ eq, context.structIsEq body = some eq ∧
      (eq = true ↔ ∀ d ∈ body.declarations, ¬ context.ReachesFloat d.typeSpec)) ∧
    ∀ body : UnionBody, ∃ eq, context.unionIsEq body = some eq ∧
      (eq = true ↔ ∀ arm ∈ body.arms, ¬ context.ReachesFloat arm.declaration.typeSpec) := by
  have hnamed := context.answers_named (context.namedTypes.length + 1)
  constructor
  · intro body
    obtain ⟨eq, hcheck, hiff⟩ :=
      (Answers.fields fun d (_ : d ∈ body.declarations) => .typeSpec hnamed d.typeSpec).exact
    rw [← structIsEqWithSeen_eq] at hcheck
    refine ⟨eq, hcheck, hiff.trans ?_⟩
    exact List.forall_mem_map
  · intro body
    obtain ⟨eq, hcheck, hiff⟩ := (Answers.arms fun arm (_ : arm ∈ body.arms) =>
      .typeSpec hnamed arm.declaration.typeSpec).exact
    rw [← unionIsEqWithSeen_eq] at hcheck
    refine ⟨eq, hcheck, hiff.trans ?_⟩
    exact List.forall_mem_map

end EmitContext

end OncRpc
