import OncRpc.Foundation.LastEntry
import OncRpc.Foundation.Unvisited
import OncRpc.Gen.Shapes

/-!
# The searches for a layout

The searches for a layout and for the bound of an opaque alias go through names, and in a schema
names may lead back to themselves.  Every search therefore puts the names it is at into a set, which
the calls of one search share.  It takes a name out again when it is done with it, but not where it
returns early.

Here the searches hand that set from call to call, and they say so when they have made more calls
than they were allowed to.  `named_agrees`, `terminal_agrees` and `opaqueAliasBound_agrees` compare
them with the searches that know only the names they came by: an early return leaves a name in the
set, but then the whole search has found nothing, and wherever it goes on, the set is as it was.
-/

namespace OncRpc

open Foundation

/-- A search that shares a set of names: its result and the names, or nothing at all if it was
allowed too few calls. -/
abbrev SeenSearch (α : Type) : Type := List String → Option (α × List String)

namespace SeenSearch

variable {α β : Type}

/-- A result that needs no names. -/
def answer (a : α) : SeenSearch α := fun seen => some (a, seen)

/-- What comes after a search that has found something.  One that has not is an early return. -/
def question (search : SeenSearch (Option α)) (next : α → SeenSearch (Option β)) :
    SeenSearch (Option β) := fun seen =>
  match search seen with
  | some (some a, seen) => next a seen
  | some (none, seen) => some (none, seen)
  | none => none

/-- A search in a set of its own. -/
def fresh (search : SeenSearch α) : SeenSearch α := fun seen =>
  (search []).map fun (a, _) => (a, seen)

/-- A search that takes a name out of the set in the end. -/
def removing (name : String) (search : SeenSearch α) : SeenSearch α := fun seen =>
  (search seen).map fun (a, seen) => (a, seen.erase name)

/-- A search that enters a name it is not at yet, to look at what the name stands for, and takes it
out in the end.  A name that stands for nothing is an early return. -/
def entering (name : String) (found : Option α) (search : α → SeenSearch (Option β)) :
    SeenSearch (Option β) := fun seen =>
  if name ∈ seen then some (none, seen)
  else match found with
    | some a => (search a).removing name (name :: seen)
    | none => some (none, name :: seen)

/-- Some element passes a check; those after it are not looked at. -/
def any (check : α → SeenSearch Bool) : List α → SeenSearch Bool
  | [] => .answer false
  | x :: xs => fun seen =>
    match check x seen with
    | some (true, seen) => some (true, seen)
    | some (false, seen) => any check xs seen
    | none => none

end SeenSearch

/-! ## The searches -/

/-- The shape of a fixed array, from the number and the shape of its elements. -/
def fixedArrayShape (target : TypeSpec) (count : ℕ) (base : Shape) : Option Shape :=
  if base.body then none
  else match target with
    | .opaqueData => (checkedAdd count 3).map fun padded => ⟨padded / 4 * 4, false⟩
    | _ => (checkedMul count base.prefixBytes).map fun size => ⟨size, false⟩

section Searches

variable (value : ValueExpr → SeenSearch (Option ℕ)) (named : String → SeenSearch (Option Shape))

/-- The search of a declaration, where `base` is that of its type.  Lengths are looked for in sets
of their own. -/
def modifierWithSeen (target : TypeSpec) (modifier : Option DeclaratorModifier)
    (base : SeenSearch (Option Shape)) : SeenSearch (Option Shape) :=
  match modifier with
  | some (.variableArray bound) =>
    match target with
    | .opaqueData =>
      match bound with
      | some bound => (value bound).fresh.question fun _ => .answer (some ⟨4, true⟩)
      | none => .answer (some ⟨4, true⟩)
    | _ => .answer none
  | some (.fixedArray bound) => (value bound).fresh.question fun count =>
    base.question fun base => .answer (fixedArrayShape target count base)
  | some .optional => base.question fun base => .answer <|
    (checkedAdd base.prefixBytes 4).map fun size => ⟨size, base.body⟩
  | none => base

mutual

/-- The search of a type specifier. -/
def baseWithSeen (target : TypeSpec) : SeenSearch (Option Shape) :=
  match target with
  | .void => .answer (some ⟨0, false⟩)
  | .bool | .int | .unsignedInt | .float | .enum _ => .answer (some ⟨4, false⟩)
  | .hyper | .unsignedHyper | .double => .answer (some ⟨8, false⟩)
  | .quadruple => .answer (some ⟨16, false⟩)
  | .opaqueData => .answer (some ⟨1, false⟩)
  | .identifier name => named name
  | .struct body => (structureWithSeen body).question fun shape =>
    .answer (if shape.body then none else some shape)
  | .union body => (unionWithSeen body).question fun shape =>
    .answer (if shape.body then none else some shape)
  | .string | .opaqueLength _ | .opaqueSegments _ => .answer none
termination_by structural target

/-- The search of a declaration. -/
def declarationWithSeen (d : Declaration) : SeenSearch (Option Shape) :=
  match d with
  | ⟨target, declarator⟩ =>
    modifierWithSeen value target declarator.modifier (baseWithSeen target)
termination_by structural d

/-- The search of a structure. -/
def structureWithSeen (body : StructBody) : SeenSearch (Option Shape) :=
  match body with
  | ⟨declarations⟩ => fieldsWithSeen ⟨0, false⟩ declarations
termination_by structural body

/-- The search of the fields of a structure, with the shape of the leading ones. -/
def fieldsWithSeen (shape : Shape) (declarations : List Declaration) : SeenSearch (Option Shape) :=
  match declarations with
  | [] => .answer (some shape)
  | d :: declarations => (declarationWithSeen d).question fun field =>
    if field.body ∧ declarations.isEmpty = false then .answer none
    else match checkedAdd shape.prefixBytes field.prefixBytes with
    | some size => fieldsWithSeen ⟨size, shape.body || field.body⟩ declarations
    | none => .answer none
termination_by structural declarations

/-- The search of a union. -/
def unionWithSeen (body : UnionBody) : SeenSearch (Option Shape) :=
  match body with
  | ⟨d, arms⟩ => (declarationWithSeen d).question fun discriminant =>
    if discriminant.body then .answer none
    else (armsWithSeen ⟨0, false⟩ arms).question fun arm => .answer <|
      (checkedAdd discriminant.prefixBytes arm.prefixBytes).map fun size => ⟨size, arm.body⟩
termination_by structural body

/-- The search of an arm. -/
def armWithSeen (a : UnionArm) : SeenSearch (Option Shape) :=
  match a with
  | ⟨_, d⟩ => declarationWithSeen d
termination_by structural a

/-- The search of the arms of a union, with the shape of the leading ones. -/
def armsWithSeen (shape : Shape) (arms : List UnionArm) : SeenSearch (Option Shape) :=
  match arms with
  | [] => .answer (some shape)
  | a :: arms => (armWithSeen a).question fun other =>
    armsWithSeen ⟨max shape.prefixBytes other.prefixBytes, shape.body || other.body⟩ arms
termination_by structural arms

end

/-- The search of what a name stands for. -/
def itemWithSeen : Item → SeenSearch (Option Shape)
  | .typedef decl => declarationWithSeen value named ⟨decl.target, decl.declarator⟩
  | .struct _ body => structureWithSeen value named body
  | .enum _ _ => .answer (some ⟨4, false⟩)
  | .union _ body => unionWithSeen value named body
  | .const _ | .program _ => .answer none

end Searches

namespace OwnedLayouts

variable (layouts : OwnedLayouts)

/-- The search of a length. -/
def valueWithSeen : ℕ → ValueExpr → SeenSearch (Option ℕ)
  | _, .number number => .answer (if 0 ≤ number then some number.toNat else none)
  | 0, .identifier _ => fun _ => none
  | calls + 1, .identifier name => .entering name (layouts.constant name) (valueWithSeen calls)

/-- The search of a name. -/
def namedWithSeen : ℕ → String → SeenSearch (Option Shape)
  | 0, _ => fun _ => none
  | calls + 1, name => .entering name (layouts.item name)
    (itemWithSeen (layouts.valueWithSeen calls) (namedWithSeen calls))

/-- The search for a variable opaque body at the end of what a name stands for, where `check` is
that of declarations. -/
def itemTerminalWithSeen (check : TypeSpec → Option DeclaratorModifier → SeenSearch Bool) :
    Option Item → SeenSearch Bool
  | some (.typedef decl) => check decl.target decl.declarator.modifier
  | some (.struct _ body) =>
    match body.declarations.getLast? with
    | some d => check d.typeSpec d.declarator.modifier
    | none => .answer false
  | some (.union _ body) => SeenSearch.any
    (fun arm => check arm.declaration.typeSpec arm.declaration.declarator.modifier) body.arms
  | _ => .answer false

/-- The search for a variable opaque body at the end of a declaration. -/
def terminalWithSeen : ℕ → TypeSpec → Option DeclaratorModifier → SeenSearch Bool
  | _, .opaqueData, some (.variableArray _) => .answer true
  | 0, .identifier _, _ => fun _ => none
  | calls + 1, .identifier name, modifier => fun seen =>
    if modifier = none ∨ modifier = some .optional then
      if name ∈ seen then some (false, seen)
      else (itemTerminalWithSeen (terminalWithSeen calls) (layouts.item name)).removing
        name (name :: seen)
    else some (false, seen)
  | _, _, _ => .answer false

end OwnedLayouts

/-- The search for the bound of an opaque alias.  No name is taken out of the set. -/
def EmitContext.opaqueAliasBoundWithSeen (context : EmitContext) :
    ℕ → TypeSpec → SeenSearch (Option (Option ValueExpr))
  | 0, .identifier _ => fun _ => none
  | calls + 1, .identifier name => fun seen =>
    if name ∈ context.segmentProjectionNames then some (none, seen)
    else if name ∈ seen then some (none, seen)
    else match context.namedType name with
    | some (.typedef ⟨.opaqueData, ⟨_, some (.variableArray bound)⟩⟩) =>
      some (some bound, name :: seen)
    | some (.typedef ⟨target, ⟨_, none⟩⟩) =>
      opaqueAliasBoundWithSeen context calls target (name :: seen)
    | _ => some (none, name :: seen)
  | _, _ => .answer none

/-! ## Results and sets -/

namespace SeenSearch

/-- The name that was put in last comes out. -/
theorem removing_eq {α : Type} {search : SeenSearch α} {a : α} {name : String}
    {seen seen' : List String} (h : search seen = some (a, seen')) :
    search.removing name seen = some (a, seen'.erase name) := by
  rw [removing, h]
  rfl

variable {α β : Type} {search : SeenSearch (Option α)} {next : α → SeenSearch (Option β)}
  {result : Option α} {f : α → Option β} {seen : List String}

/-- The search comes to the result, and if it has found something the set is as it was. -/
def Agrees (search : SeenSearch (Option α)) (result : Option α) (seen : List String) : Prop :=
  ∃ seen', search seen = some (result, seen') ∧ (result ≠ none → seen' = seen)

namespace Agrees

/-- A search that answers at once agrees with its answer. -/
protected theorem answer (result : Option α) (seen : List String) :
    (answer result).Agrees result seen := ⟨seen, rfl, fun _ => rfl⟩

/-- After a search that has found something the set is as it was, and after an early return nothing
is looked for. -/
theorem question (h : search.Agrees result seen) (hnext : ∀ a, (next a).Agrees (f a) seen) :
    (search.question next).Agrees (result.bind f) seen := by
  obtain ⟨seen', hsearch, hkept⟩ := h
  rcases result with _ | a
  · refine ⟨seen', ?_, fun h => absurd rfl h⟩
    rw [SeenSearch.question, hsearch]
    rfl
  · have hsame : seen' = seen := hkept (Option.some_ne_none a)
    subst hsame
    obtain ⟨seen', hnext, hkept⟩ := hnext a
    refine ⟨seen', ?_, hkept⟩
    rw [SeenSearch.question, hsearch]
    exact hnext

/-- Searches that agree do so after a function of their results. -/
theorem map (h : search.Agrees result seen) (g : α → β) :
    (search.question fun a => SeenSearch.answer (some (g a))).Agrees (result.map g) seen := by
  rw [Option.map_eq_bind]
  exact h.question fun a => .answer (some (g a)) seen

/-- A search in a set of its own leaves the shared one alone. -/
theorem fresh (h : search.Agrees result []) : search.fresh.Agrees result seen := by
  obtain ⟨seen', hsearch, -⟩ := h
  refine ⟨seen, ?_, fun _ => rfl⟩
  rw [SeenSearch.fresh, hsearch]
  rfl

/-- A name that is entered comes out, unless nothing is found behind it. -/
theorem entering {name : String} {found : Option α}
    (h : name ∉ seen → ∀ a, found = some a → (next a).Agrees (f a) (name :: seen)) :
    (SeenSearch.entering name found next).Agrees (if name ∈ seen then none else found.bind f)
      seen := by
  by_cases hseen : name ∈ seen
  · rw [if_pos hseen]
    exact ⟨seen, if_pos hseen, fun _ => rfl⟩
  simp only [SeenSearch.Agrees, SeenSearch.entering, if_neg hseen]
  rcases hfound : found with _ | a
  · exact ⟨name :: seen, rfl, fun h => absurd rfl h⟩
  · obtain ⟨seen', hsearch, hkept⟩ := h hseen a hfound
    refine ⟨seen'.erase name, ?_, fun hresult => ?_⟩
    · exact removing_eq hsearch
    · rw [hkept hresult, List.erase_cons_head]

end Agrees

/-- The checks of the elements come to their results and leave the set as it was: so does the check
whether one of them passes. -/
theorem any_eq {check : α → SeenSearch Bool} {passes : α → Bool} {xs : List α}
    (h : ∀ x ∈ xs, check x seen = some (passes x, seen)) :
    any check xs seen = some (xs.any passes, seen) := by
  induction xs with
  | nil => rfl
  | cons x xs ih =>
    obtain ⟨hfirst, hrest⟩ := List.forall_mem_cons.mp h
    simp only [any, hfirst, List.any_cons]
    cases passes x with
    | true => rfl
    | false => exact ih hrest

end SeenSearch

/-! ## The shapes -/

namespace OwnedLayouts

variable {layouts : OwnedLayouts} {value : ValueExpr → SeenSearch (Option ℕ)}
  {named : String → SeenSearch (Option Shape)} {found : String → Option Shape} {seen : List String}

/-- The shape of a fixed array. -/
theorem modifierShape_fixedArray (target : TypeSpec) (bound : ValueExpr) (shape : Option Shape) :
    layouts.modifierShape target (some (.fixedArray bound)) shape =
      (layouts.value bound).bind fun count => shape.bind (fixedArrayShape target count) := by
  rcases hcount : layouts.value bound with _ | count <;> rcases shape with _ | base <;>
    simp only [modifierShape, hcount, Option.bind_eq_bind, Option.bind_none, Option.bind_some]
  rcases base with ⟨size, _ | _⟩
  · cases target <;> exact Option.map_eq_bind.symm
  · cases target <;> rfl

/-- The shape of optional data. -/
theorem modifierShape_optional (target : TypeSpec) (shape : Option Shape) :
    layouts.modifierShape target (some .optional) shape = shape.bind fun base =>
      (checkedAdd base.prefixBytes 4).map fun size => ⟨size, base.body⟩ := by
  rcases shape with _ | base
  · rfl
  · exact Option.map_eq_bind.symm

/-- A declaration, if the searches of lengths and of its type are right. -/
theorem modifier_agrees (hvalue : ∀ bound, (value bound).Agrees (layouts.value bound) [])
    (target : TypeSpec) (modifier : Option DeclaratorModifier) {base : SeenSearch (Option Shape)}
    {shape : Option Shape} (hbase : base.Agrees shape seen) :
    (modifierWithSeen value target modifier base).Agrees
      (layouts.modifierShape target modifier shape) seen := by
  rcases modifier with _ | (bound | bound | _)
  · exact hbase
  · rw [modifierShape_fixedArray]
    exact (hvalue bound).fresh.question fun count => hbase.question fun base => .answer _ seen
  · cases target with
    | opaqueData =>
      rcases bound with _ | bound
      · exact .answer _ seen
      · exact (hvalue bound).fresh.map fun _ => (⟨4, true⟩ : Shape)
    | _ => exact .answer none seen
  · rw [modifierShape_optional]
    exact hbase.question fun base => .answer _ seen

/-- The fields of a structure, if the searches of their declarations are right. -/
theorem fields_agree {declarations : List Declaration} (h : ∀ d ∈ declarations,
      (declarationWithSeen value named d).Agrees (layouts.declaration found d) seen)
        (start : Shape) :
    (fieldsWithSeen value named start declarations).Agrees
      (layouts.fieldsFrom found start declarations) seen := by
  induction declarations generalizing start with
  | nil =>
    rw [fieldsWithSeen, fieldsFrom]
    exact .answer _ seen
  | cons d declarations ih =>
    obtain ⟨hfirst, hrest⟩ := List.forall_mem_cons.mp h
    rw [fieldsWithSeen, fieldsFrom]
    refine hfirst.question fun field => ?_
    split
    · exact .answer none seen
    · rcases checkedAdd start.prefixBytes field.prefixBytes with _ | size
      · exact .answer none seen
      · exact ih hrest _

/-- The arms of a union, if the searches of their declarations are right. -/
theorem arms_agree {arms : List UnionArm} (h : ∀ arm ∈ arms,
      (declarationWithSeen value named arm.declaration).Agrees
        (layouts.declaration found arm.declaration) seen) (start : Shape) :
    (armsWithSeen value named start arms).Agrees (layouts.armsFrom found start arms) seen := by
  induction arms generalizing start with
  | nil =>
    rw [armsWithSeen, armsFrom]
    exact .answer _ seen
  | cons arm arms ih =>
    obtain ⟨hfirst, hrest⟩ := List.forall_mem_cons.mp h
    obtain ⟨labels, d⟩ := arm
    rw [armsWithSeen, armsFrom, armWithSeen, arm]
    exact hfirst.question fun other => ih hrest _

/-- A structure, if the searches of its declarations are right. -/
theorem structure_agrees {body : StructBody} (h : ∀ d ∈ body.declarations,
      (declarationWithSeen value named d).Agrees (layouts.declaration found d) seen) :
    (structureWithSeen value named body).Agrees (layouts.structure_ found body) seen := by
  obtain ⟨declarations⟩ := body
  rw [structureWithSeen, structure_]
  exact fields_agree h _

/-- A union, if the searches of its declarations are right. -/
theorem union_agrees {body : UnionBody}
    (hdiscriminant : (declarationWithSeen value named body.discriminant).Agrees
      (layouts.declaration found body.discriminant) seen)
    (harms : ∀ arm ∈ body.arms, (declarationWithSeen value named arm.declaration).Agrees
      (layouts.declaration found arm.declaration) seen) :
    (unionWithSeen value named body).Agrees (layouts.union found body) seen := by
  obtain ⟨d, arms⟩ := body
  rw [unionWithSeen, union]
  refine hdiscriminant.question fun discriminant => ?_
  split
  · exact .answer none seen
  · refine (arms_agree harms _).question fun arm => ?_
    have hsize : ((checkedAdd discriminant.prefixBytes arm.prefixBytes).map fun size =>
        (⟨size, arm.body⟩ : Shape)) = _ := Option.map_eq_bind
    rw [hsize]
    exact .answer _ seen

/-- A declaration, if the search of its type is right. -/
theorem declaration_agrees_of_base (hvalue : ∀ bound, (value bound).Agrees (layouts.value bound) [])
    {d : Declaration} (hbase : (baseWithSeen value named d.typeSpec).Agrees
      (layouts.base found d.typeSpec) seen) :
    (declarationWithSeen value named d).Agrees (layouts.declaration found d) seen := by
  obtain ⟨target, declarator⟩ := d
  rw [declarationWithSeen, declaration]
  exact modifier_agrees hvalue target declarator.modifier hbase

/-- A type that may not have a body. -/
theorem bodyFree_agrees {search : SeenSearch (Option Shape)} {shape : Option Shape}
    (h : search.Agrees shape seen) :
    (search.question fun shape => .answer (if shape.body then none else some shape)).Agrees
      (bodyFree shape) seen := by
  have hfree : bodyFree shape = shape.bind fun shape => if shape.body then none else some shape :=
    by
    rcases shape with _ | ⟨size, _ | _⟩ <;> rfl
  rw [hfree]
  exact h.question fun shape => .answer _ seen

/-- A type, if the searches of lengths and names are right: one case for each form of what stands
inside it. -/
theorem base_agrees (hvalue : ∀ bound, (value bound).Agrees (layouts.value bound) [])
    (hnamed : ∀ name, (named name).Agrees (found name) seen) (target : TypeSpec) :
    (baseWithSeen value named target).Agrees (layouts.base found target) seen := by
  induction target using TypeSpec.inner_induction with
  | struct body ih =>
    rw [baseWithSeen, base]
    exact bodyFree_agrees (structure_agrees fun d hd => declaration_agrees_of_base hvalue (ih d hd))
  | union body hdiscriminant harms =>
    rw [baseWithSeen, base]
    exact bodyFree_agrees (union_agrees (declaration_agrees_of_base hvalue hdiscriminant)
      fun arm harm => declaration_agrees_of_base hvalue (harms arm harm))
  | leaf target hstruct hunion =>
    cases target with
    | identifier name =>
      rw [baseWithSeen, base]
      exact hnamed name
    | struct body => exact absurd rfl (hstruct body)
    | union body => exact absurd rfl (hunion body)
    | _ =>
      rw [baseWithSeen, base]
      exact .answer _ seen

/-- The two searches agree on a declaration, if they do on its parts. -/
theorem declaration_agrees (hvalue : ∀ bound, (value bound).Agrees (layouts.value bound) [])
    (hnamed : ∀ name, (named name).Agrees (found name) seen) (d : Declaration) :
    (declarationWithSeen value named d).Agrees (layouts.declaration found d) seen :=
  declaration_agrees_of_base hvalue (base_agrees hvalue hnamed d.typeSpec)

/-- What a name stands for, if the searches of lengths and names are right. -/
theorem item_agrees (hvalue : ∀ bound, (value bound).Agrees (layouts.value bound) [])
    (hnamed : ∀ name, (named name).Agrees (found name) seen) (item : Item) :
    (itemWithSeen value named item).Agrees (layouts.itemShape found item) seen := by
  have hdeclaration := declaration_agrees hvalue hnamed
  cases item with
  | typedef decl => exact hdeclaration _
  | struct name body => exact structure_agrees fun d _ => hdeclaration d
  | union name body => exact union_agrees (hdeclaration _) fun arm _ => hdeclaration _
  | enum | const | program => exact .answer _ seen

/-! ## The names -/

variable (layouts)

/-- How many constants a search has not entered. -/
def constantsLeft (seen : List String) : ℕ := unvisited (layouts.constants.map Prod.fst) seen

/-- How many types a search has not entered. -/
def itemsLeft (seen : List String) : ℕ := unvisited (layouts.items.map Prod.fst) seen

variable {layouts}

/-- No more constants are left than there are. -/
theorem constantsLeft_le (seen : List String) :
    layouts.constantsLeft seen ≤ layouts.constants.length :=
  unvisited_le.trans_eq (List.length_map ..)

/-- No more items are left than there are. -/
theorem itemsLeft_le (seen : List String) : layouts.itemsLeft seen ≤ layouts.items.length :=
  unvisited_le.trans_eq (List.length_map ..)

/-- A constant seen for the first time leaves fewer constants. -/
theorem constantsLeft_cons_lt {name : String} {value : ValueExpr}
    (h : layouts.constant name = some value) (hnew : name ∉ seen) :
    layouts.constantsLeft (name :: seen) < layouts.constantsLeft seen :=
  unvisited_cons_lt (mem_keys_of_lookup_reverse h) hnew

/-- An item seen for the first time leaves fewer items. -/
theorem itemsLeft_cons_lt {name : String} {item : Item} (h : layouts.item name = some item)
    (hnew : name ∉ seen) : layouts.itemsLeft (name :: seen) < layouts.itemsLeft seen :=
  unvisited_cons_lt (mem_keys_of_lookup_reverse h) hnew

/-- A length.  Every constant that is entered leaves fewer, so more calls than there are constants
are enough. -/
theorem valueWithSeen_agrees {calls fuel : ℕ} (value : ValueExpr)
    (hcalls : layouts.constantsLeft seen < calls) (hfuel : layouts.constantsLeft seen < fuel) :
    (layouts.valueWithSeen calls value).Agrees (layouts.valueFrom fuel seen value) seen := by
  induction calls generalizing fuel seen value with
  | zero => exact absurd hcalls (Nat.not_lt_zero _)
  | succ calls ih =>
    obtain ⟨fuel, rfl⟩ : ∃ less, fuel = less + 1 := ⟨fuel - 1, by omega⟩
    cases value with
    | number number =>
      rw [valueWithSeen, valueFrom]
      exact .answer _ seen
    | identifier name =>
      rw [valueWithSeen, valueFrom]
      refine .entering fun hnew value hconstant => ?_
      have hfewer := constantsLeft_cons_lt hconstant hnew
      exact ih value (by omega) (by omega)

/-- The length that the searches of declarations ask for. -/
theorem value_agrees {calls : ℕ} (hcalls : layouts.constants.length < calls) (value : ValueExpr) :
    (layouts.valueWithSeen calls value).Agrees (layouts.value value) [] := by
  have hleft : layouts.constantsLeft [] ≤ layouts.constants.length := constantsLeft_le []
  exact valueWithSeen_agrees value (by omega) (by omega)

/-- A name.  Every name that is entered leaves fewer. -/
theorem named_agrees {calls fuel : ℕ} (name : String)
    (hcalls : layouts.itemsLeft seen + layouts.constants.length < calls)
    (hfuel : layouts.itemsLeft seen < fuel) :
    (layouts.namedWithSeen calls name).Agrees (layouts.namedFrom fuel seen name) seen := by
  induction calls generalizing fuel seen name with
  | zero => exact absurd hcalls (Nat.not_lt_zero _)
  | succ calls ih =>
    obtain ⟨fuel, rfl⟩ : ∃ less, fuel = less + 1 := ⟨fuel - 1, by omega⟩
    rw [namedWithSeen, namedFrom]
    refine .entering fun hnew item hitem => ?_
    have hfewer := itemsLeft_cons_lt hitem hnew
    refine item_agrees (fun bound => value_agrees (by omega) bound) (fun other => ?_) item
    exact ih other (by omega) (by omega)

/-- A body at the end of a declaration.  The set is always as it was. -/
theorem terminal_agrees {calls fuel : ℕ} (target : TypeSpec) (modifier : Option DeclaratorModifier)
    (hcalls : layouts.itemsLeft seen < calls) (hfuel : layouts.itemsLeft seen < fuel) :
    layouts.terminalWithSeen calls target modifier seen =
      some (layouts.terminalFrom fuel seen target modifier, seen) := by
  induction calls generalizing fuel seen target modifier with
  | zero => exact absurd hcalls (Nat.not_lt_zero _)
  | succ calls ih =>
    obtain ⟨fuel, rfl⟩ : ∃ less, fuel = less + 1 := ⟨fuel - 1, by omega⟩
    cases target with
    | identifier name =>
      simp only [terminalWithSeen, terminalFrom]
      by_cases hmodifier : modifier = none ∨ modifier = some .optional
      swap
      · rw [if_neg hmodifier, if_neg fun h => hmodifier h.1]
      rw [if_pos hmodifier]
      by_cases hseen : name ∈ seen
      · rw [if_pos hseen, if_neg fun h => h.2 hseen]
      rw [if_neg hseen, if_pos ⟨hmodifier, hseen⟩]
      have hremoved {search : SeenSearch Bool} {ends : Bool}
          (h : search (name :: seen) = some (ends, name :: seen)) :
          search.removing name (name :: seen) = some (ends, seen) := by
        rw [SeenSearch.removing_eq h, List.erase_cons_head]
      refine hremoved ?_
      rcases hitem : layouts.item name with _ | item
      · rfl
      have hfewer := itemsLeft_cons_lt hitem hseen
      have hdeclaration (target : TypeSpec) (modifier : Option DeclaratorModifier) :
          layouts.terminalWithSeen calls target modifier (name :: seen) =
            some (layouts.terminalFrom fuel (name :: seen) target modifier, name :: seen) :=
        ih target modifier (by omega) (by omega)
      cases item with
      | typedef decl => exact hdeclaration decl.target decl.declarator.modifier
      | struct other body =>
        simp only [itemTerminalWithSeen]
        rcases body.declarations.getLast? with _ | d
        · rfl
        · exact hdeclaration d.typeSpec d.declarator.modifier
      | union other body => exact SeenSearch.any_eq fun arm _ => hdeclaration _ _
      | enum | const | program => rfl
    | opaqueData => rcases modifier with _ | (_ | _ | _) <;> rfl
    | _ => rfl

end OwnedLayouts

/-- The bound of an opaque alias.  Every name that is entered leaves fewer. -/
theorem EmitContext.opaqueAliasBound_agrees {context : EmitContext} {seen : List String}
    {calls fuel : ℕ} (target : TypeSpec)
    (hcalls : unvisited (context.namedTypes.map Prod.fst) seen < calls)
    (hfuel : unvisited (context.namedTypes.map Prod.fst) seen < fuel) :
    ∃ seen', context.opaqueAliasBoundWithSeen calls target seen =
      some (context.opaqueAliasBound fuel seen target, seen') := by
  induction calls generalizing fuel seen target with
  | zero => exact absurd hcalls (Nat.not_lt_zero _)
  | succ calls ih =>
    obtain ⟨fuel, rfl⟩ : ∃ less, fuel = less + 1 := ⟨fuel - 1, by omega⟩
    cases target with
    | identifier name =>
      simp only [opaqueAliasBoundWithSeen, opaqueAliasBound]
      by_cases hprojection : name ∈ context.segmentProjectionNames
      · exact ⟨seen, by rw [if_pos hprojection, if_pos hprojection]⟩
      by_cases hseen : name ∈ seen
      · exact ⟨seen, by rw [if_neg hprojection, if_neg hprojection, if_pos hseen, if_pos hseen]⟩
      rw [if_neg hprojection, if_neg hprojection, if_neg hseen, if_neg hseen]
      rcases hitem : context.namedType name with _ | item
      · exact ⟨name :: seen, rfl⟩
      have hfewer := unvisited_cons_lt (mem_keys_of_lookup_reverse hitem) hseen
      have hnext (target : TypeSpec) :
          ∃ seen', context.opaqueAliasBoundWithSeen calls target (name :: seen) =
            some (context.opaqueAliasBound fuel (name :: seen) target, seen') :=
        ih target (by omega) (by omega)
      cases item with
      | typedef decl =>
        obtain ⟨target, own, modifier⟩ := decl
        rcases modifier with _ | (_ | bound | _)
        · cases target <;> exact hnext _
        · cases target <;> exact ⟨_, rfl⟩
        · cases target <;> exact ⟨_, rfl⟩
        · cases target <;> exact ⟨_, rfl⟩
      | struct | union | enum | const | program => exact ⟨_, rfl⟩
    | _ => exact ⟨seen, rfl⟩

/-! ## The searches come to an end -/

/-- Started with those names a search comes to the result, if it is allowed enough calls.  What it
has put into the set is not asked for. -/
def SeenSearch.Returns {α : Type} (search : ℕ → SeenSearch α) (seen : List String) (result : α) :
    Prop :=
  ∃ enough, ∀ calls, enough ≤ calls → ∃ seen', search calls seen = some (result, seen')

/-- A search that agrees with its answer given enough calls returns it. -/
theorem SeenSearch.Returns.of_agrees {α : Type} {search : ℕ → SeenSearch (Option α)}
    {seen : List String} {result : Option α} (enough : ℕ)
    (h : ∀ calls, enough < calls → (search calls).Agrees result seen) :
    Returns search seen result := by
  refine ⟨enough + 1, fun calls hcalls => ?_⟩
  obtain ⟨seen', hsearch, -⟩ := h calls hcalls
  exact ⟨seen', hsearch⟩

/-- A search comes to one result. -/
theorem SeenSearch.Returns.unique {α : Type} {search : ℕ → SeenSearch α} {seen : List String}
    {result other : α} (h : Returns search seen result) (h' : Returns search seen other) :
    result = other := by
  obtain ⟨enough, h⟩ := h
  obtain ⟨enough', h'⟩ := h'
  obtain ⟨seen', hresult⟩ := h (max enough enough') (le_max_left ..)
  obtain ⟨seen'', hother⟩ := h' (max enough enough') (le_max_right ..)
  rw [hresult] at hother
  exact (Prod.mk.inj (Option.some.inj hother)).1

namespace OwnedLayouts

open SeenSearch

variable (layouts : OwnedLayouts) (seen : List String)

/-- The shape of a named type, through names that are not in a set. -/
def namedOutside (name : String) : Option Shape :=
  layouts.namedFrom (layouts.items.length + 1) seen name

/-- The search for a value returns the value of the layout. -/
theorem returns_value (value : ValueExpr) :
    Returns (fun calls => layouts.valueWithSeen calls value) seen
      (layouts.valueFrom (layouts.constants.length + 1) seen value) := by
  have hleft : layouts.constantsLeft seen ≤ layouts.constants.length := constantsLeft_le seen
  exact .of_agrees layouts.constants.length fun calls hcalls =>
    valueWithSeen_agrees value (by omega) (by omega)

variable {calls : ℕ} (hcalls : layouts.items.length + layouts.constants.length < calls)

include hcalls

/-- The two searches agree on a name outside the ones seen. -/
theorem named_agrees_outside (name : String) :
    (layouts.namedWithSeen calls name).Agrees (layouts.namedOutside seen name) seen := by
  have hleft : layouts.itemsLeft seen ≤ layouts.items.length := itemsLeft_le seen
  exact named_agrees name (by omega) (by omega)

/-- The two searches agree on a base type outside the names seen. -/
theorem base_agrees_outside (target : TypeSpec) :
    (baseWithSeen (layouts.valueWithSeen calls) (layouts.namedWithSeen calls) target).Agrees
      (layouts.base (layouts.namedOutside seen) target) seen :=
  base_agrees (fun bound => value_agrees (by omega) bound)
    (layouts.named_agrees_outside seen hcalls)
    target

/-- The two searches agree on a declaration outside the names seen. -/
theorem declaration_agrees_outside (d : Declaration) :
    (declarationWithSeen (layouts.valueWithSeen calls) (layouts.namedWithSeen calls) d).Agrees
      (layouts.declaration (layouts.namedOutside seen) d) seen :=
  declaration_agrees (fun bound => value_agrees (by omega) bound)
    (layouts.named_agrees_outside seen hcalls) d

omit hcalls

/-- The search for the shape of a name returns. -/
theorem returns_named (name : String) :
    Returns (fun calls => layouts.namedWithSeen calls name) seen (layouts.namedOutside seen name) :=
  .of_agrees _ fun _ hcalls => layouts.named_agrees_outside seen hcalls name

/-- The search for the shape of a base type returns. -/
theorem returns_base (target : TypeSpec) :
    Returns (fun calls => baseWithSeen (layouts.valueWithSeen calls)
      (layouts.namedWithSeen calls) target)
      seen (layouts.base (layouts.namedOutside seen) target) :=
  .of_agrees _ fun _ hcalls => layouts.base_agrees_outside seen hcalls target

/-- The search for the shape of a declaration returns. -/
theorem returns_declaration (d : Declaration) :
    Returns (fun calls =>
        declarationWithSeen (layouts.valueWithSeen calls) (layouts.namedWithSeen calls) d)
      seen (layouts.declaration (layouts.namedOutside seen) d) :=
  .of_agrees _ fun _ hcalls => layouts.declaration_agrees_outside seen hcalls d

/-- The search for the shape of a structure returns. -/
theorem returns_structure (body : StructBody) :
    Returns (fun calls =>
        structureWithSeen (layouts.valueWithSeen calls) (layouts.namedWithSeen calls) body)
      seen (layouts.structure_ (layouts.namedOutside seen) body) :=
  .of_agrees _ fun _ hcalls =>
    structure_agrees fun d _ => layouts.declaration_agrees_outside seen hcalls d

/-- The search for the shape of a union returns. -/
theorem returns_union (body : UnionBody) :
    Returns (fun calls =>
        unionWithSeen (layouts.valueWithSeen calls) (layouts.namedWithSeen calls) body)
      seen (layouts.union (layouts.namedOutside seen) body) := by
  refine .of_agrees (layouts.items.length + layouts.constants.length) fun calls hcalls =>
    union_agrees ?_ fun arm _ => ?_
  · exact layouts.declaration_agrees_outside seen hcalls body.discriminant
  · exact layouts.declaration_agrees_outside seen hcalls arm.declaration

/-- The search for the end of a chain of aliases returns. -/
theorem returns_terminal (target : TypeSpec) (modifier : Option DeclaratorModifier) :
    Returns (fun calls => layouts.terminalWithSeen calls target modifier) seen
      (layouts.terminalFrom (layouts.items.length + 1) seen target modifier) := by
  have hleft : layouts.itemsLeft seen ≤ layouts.items.length := itemsLeft_le seen
  exact ⟨layouts.items.length + 1, fun calls hcalls =>
    ⟨seen, terminal_agrees target modifier (by omega) (by omega)⟩⟩

end OwnedLayouts

/-- The search for the bound of an opaque alias returns. -/
theorem EmitContext.returns_opaqueAliasBound (context : EmitContext) (seen : List String)
    (target : TypeSpec) :
    SeenSearch.Returns (fun calls => context.opaqueAliasBoundWithSeen calls target) seen
      (context.opaqueAliasBound (context.namedTypes.length + 1) seen target) := by
  have hleft : unvisited (context.namedTypes.map Prod.fst) seen ≤ context.namedTypes.length :=
    unvisited_le.trans_eq (List.length_map ..)
  exact ⟨context.namedTypes.length + 1, fun calls hcalls =>
    opaqueAliasBound_agrees target (by omega) (by omega)⟩

end OncRpc
