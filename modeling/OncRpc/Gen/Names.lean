import OncRpc.Gen.Emit
import Mathlib.Data.List.Forall2

/-!
# What is emitted under distinct names

`Item.requests` lists the items the emitter sets out to write for an item of a schema: the helpers
for what stands inside it, each before the type it stands in, and then its own.  The emitter never
writes a second helper of the same name, so a request can find the item of another in its place.
When all the names are distinct this does not happen: every request is written, and nothing else is
(`Emits.rule`).
-/

namespace OncRpc

/-- An item the emitter sets out to write. -/
inductive ItemRequest where
  | const (name : String) (value : ValueExpr)
  | typeAlias (name : String) (target : TypeSpec) (modifier : Option DeclaratorModifier)
    (hint : String)
  | inline (name : String) (target : TypeSpec)

namespace ItemRequest

/-- The name of the type it defines. -/
def typeName : ItemRequest → Option String
  | .const _ _ => none
  | .typeAlias name _ _ _ | .inline name _ => some name

/-- The name it is remembered under. -/
def helper : ItemRequest → Option String
  | .inline name _ => some name
  | .const _ _ | .typeAlias _ _ _ _ => none

/-- The name of the alias it asks for. -/
def aliasName : ItemRequest → Option String
  | .typeAlias name _ _ _ => some name
  | .const _ _ | .inline _ _ => none

end ItemRequest

/-- The item of a structure, enumeration or union. -/
def EmitContext.inlineItem (context : EmitContext) (name : String) :
    TypeSpec → Except GeneratorError RustItem
  | .enum body => .ok (.enum name body.variants)
  | .struct body => context.structItem name body
  | .union body => context.unionItem name body
  | _ => .error (.unsupportedConstruct "")

/-- The item of a request. -/
def ItemRequest.item (context : EmitContext) : ItemRequest → Except GeneratorError RustItem
  | .const name value => .ok (.const name value)
  | .typeAlias name target modifier hint => do
    let type ← rustTypeForDeclaration target modifier hint
    return .typeAlias name type
  | .inline name target => context.inlineItem name target

mutual

/-- The requests for a type specifier. -/
def TypeSpec.requests (hint : String) (target : TypeSpec) : List ItemRequest :=
  match target with
  | .enum body => [.inline hint (.enum body)]
  | .struct body => body.requests hint ++ [.inline hint (.struct body)]
  | .union body => body.requests hint ++ [.inline hint (.union body)]
  | _ => []
termination_by structural target

/-- The requests for what stands inside a structure. -/
def StructBody.requests (owner : String) (body : StructBody) : List ItemRequest :=
  match body with
  | ⟨declarations⟩ => fieldRequests owner declarations
termination_by structural body

/-- The requests for what stands inside a union. -/
def UnionBody.requests (owner : String) (body : UnionBody) : List ItemRequest :=
  match body with
  | ⟨discriminant, arms⟩ =>
    armRequests owner arms ++ discriminant.requests (hintFor owner "discriminant")
termination_by structural body

/-- The requests for the type of a declaration. -/
def Declaration.requests (hint : String) (declaration : Declaration) : List ItemRequest :=
  match declaration with
  | ⟨target, _⟩ => target.requests hint
termination_by structural declaration

/-- The requests for a field. -/
def fieldRequest (owner : String) (declaration : Declaration) : List ItemRequest :=
  match declaration with
  | ⟨target, declarator⟩ => target.requests (hintFor owner declarator.name)
termination_by structural declaration

/-- The requests for the fields of a structure. -/
def fieldRequests (owner : String) (declarations : List Declaration) : List ItemRequest :=
  match declarations with
  | [] => []
  | declaration :: declarations =>
    fieldRequest owner declaration ++ fieldRequests owner declarations
termination_by structural declarations

/-- The requests for an arm of a union. -/
def armRequest (owner : String) (arm : UnionArm) : List ItemRequest :=
  match arm with
  | ⟨_, declaration⟩ => fieldRequest owner declaration
termination_by structural arm

/-- The requests for the arms of a union. -/
def armRequests (owner : String) (arms : List UnionArm) : List ItemRequest :=
  match arms with
  | [] => []
  | arm :: arms => armRequest owner arm ++ armRequests owner arms
termination_by structural arms

end

/-- The requests for a type definition. -/
def TypedefDecl.requests (decl : TypedefDecl) : List ItemRequest :=
  let name := decl.declarator.name
  let helper := hintFor name "value"
  match decl.target, decl.declarator.modifier with
  | .enum body, none => (TypeSpec.enum body).requests name
  | .struct body, none => (TypeSpec.struct body).requests name
  | .union body, none => (TypeSpec.union body).requests name
  | .enum body, some modifier => (TypeSpec.enum body).requests helper ++
    [.typeAlias (rustIdent name) (.identifier helper) (some modifier) name]
  | .struct body, some modifier => (TypeSpec.struct body).requests helper ++
    [.typeAlias (rustIdent name) (.identifier helper) (some modifier) name]
  | .union body, some modifier => (TypeSpec.union body).requests helper ++
    [.typeAlias (rustIdent name) (.identifier helper) (some modifier) name]
  | target, modifier => [.typeAlias (rustIdent name) target modifier name]

/-- The requests for an item. -/
def Item.requests : Item → List ItemRequest
  | .const decl => [.const (rustIdent decl.name) decl.value]
  | .typedef decl => decl.requests
  | .struct name body => (TypeSpec.struct body).requests name
  | .enum name body => (TypeSpec.enum body).requests name
  | .union name body => (TypeSpec.union body).requests name
  | .program _ => []

/-! ## The names of items -/

/-- An item has the name it was asked for. -/
theorem ItemRequest.typeName_of_item {context : EmitContext} {request : ItemRequest}
    {item : RustItem} (h : request.item context = .ok item) : item.typeName = request.typeName := by
  rcases request with ⟨name, value⟩ | ⟨name, target, modifier, hint⟩ | ⟨name, target⟩
  · cases h
    rfl
  · obtain ⟨type, -, hitem⟩ := except_bind_eq_ok.mp h
    cases hitem
    rfl
  · rw [ItemRequest.item] at h
    unfold EmitContext.inlineItem at h
    split at h
    · cases h
      rfl
    · obtain ⟨fields, -, hitem⟩ := except_bind_eq_ok.mp h
      cases hitem
      rfl
    · simp only [EmitContext.unionItem, except_bind_eq_ok] at h
      obtain ⟨_, -, _, -, _, -, _, -, hitem⟩ := h
      cases hitem
      rfl
    · cases h

/-- Fields ask for what their types ask for. -/
theorem fieldRequests_eq (owner : String) (declarations : List Declaration) :
    fieldRequests owner declarations =
      declarations.flatMap fun d => d.typeSpec.requests (hintFor owner d.declarator.name) := by
  induction declarations with
  | nil => rfl
  | cons declaration declarations ih =>
    obtain ⟨target, declarator⟩ := declaration
    rw [fieldRequests, ih, List.flatMap_cons, fieldRequest]

/-- Arms ask for what their types ask for. -/
theorem armRequests_eq (owner : String) (arms : List UnionArm) :
    armRequests owner arms = arms.flatMap fun arm =>
      arm.declaration.typeSpec.requests (hintFor owner arm.declaration.declarator.name) := by
  induction arms with
  | nil => rfl
  | cons arm arms ih =>
    obtain ⟨labels, ⟨target, declarator⟩⟩ := arm
    rw [armRequests, ih, List.flatMap_cons, armRequest, fieldRequest]

/-- A type specifier asks for no aliases. -/
theorem TypeSpec.filterMap_aliasName_requests (target : TypeSpec) :
    ∀ hint, (target.requests hint).filterMap ItemRequest.aliasName = [] := by
  induction target using TypeSpec.inner_induction with
  | leaf target hstruct hunion =>
    intro hint
    rcases target with _ | _ | _ | _ | _ | _ | _ | _ | _ | _ | _ | _ | body | body | body | _ | _
    case struct => exact absurd rfl (hstruct body)
    case union => exact absurd rfl (hunion body)
    all_goals rfl
  | struct body ih =>
    intro hint
    obtain ⟨declarations⟩ := body
    rw [TypeSpec.requests, StructBody.requests, fieldRequests_eq, List.filterMap_append,
      List.filterMap_flatMap]
    simp only [List.append_eq_nil_iff, List.flatMap_eq_nil_iff]
    exact ⟨fun d hd => ih d hd _, rfl⟩
  | union body hdiscriminant harms =>
    intro hint
    obtain ⟨⟨target, declarator⟩, arms⟩ := body
    rw [TypeSpec.requests, UnionBody.requests, armRequests_eq, List.filterMap_append,
      List.filterMap_append, List.filterMap_flatMap]
    simp only [List.append_eq_nil_iff, List.flatMap_eq_nil_iff]
    exact ⟨⟨fun arm harm => harms arm harm _, hdiscriminant _⟩, rfl⟩

/-! ## Steps of the emitter -/

/-- A property of the steps of the emitter and of what they are asked for that the ways in which the
emitter puts steps together keep. -/
structure EmitterRule
    (P : List ItemRequest → (TypeEmitter → Except GeneratorError TypeEmitter) → Prop) : Prop where
  nothing : P [] .ok
  failed : ∀ requests e, P requests fun _ => .error e
  /-- One step after the other. -/
  andThen : ∀ {requests more step next}, P requests step → P more next →
    P (requests ++ more) fun emitter => step emitter >>= next
  /-- Writing one item that is not remembered. -/
  push : ∀ {request : ItemRequest}, request.helper = none → P [request] fun emitter => do
    let item ← request.item emitter.context
    return emitter.push item
  /-- Writing an item that is remembered, after those it needs. -/
  remember : ∀ {requests step} name target, P requests step →
    requests.filterMap ItemRequest.aliasName = [] →
    P (requests ++ [.inline name target]) fun emitter =>
      if name ∈ emitter.emittedHelpers then .ok emitter
      else do
        let emitter ← step (emitter.remember name)
        let item ← emitter.context.inlineItem name target
        return emitter.push item

namespace EmitterRule

variable {P : List ItemRequest → (TypeEmitter → Except GeneratorError TypeEmitter) → Prop}

/-- A step that does the same. -/
theorem congr {requests : List ItemRequest}
    {step step' : TypeEmitter → Except GeneratorError TypeEmitter} (h : P requests step)
    (heq : ∀ emitter, step' emitter = step emitter) : P requests step' := by
  rw [funext heq]
  exact h

variable (rule : EmitterRule P)

include rule

/-- An enumeration emits one item. -/
theorem emitNamedEnum (name : String) (body : EnumBody) :
    P [.inline name (.enum body)] fun emitter => .ok (emitter.emitNamedEnum name body) := by
  refine congr (rule.remember name (.enum body) rule.nothing rfl) fun emitter => ?_
  unfold TypeEmitter.emitNamedEnum
  split <;> rfl

/-- The helpers of fields are emitted as those of their types. -/
theorem emitFieldHelpers {owner : String} {declarations : List Declaration}
    (h : ∀ d ∈ declarations, ∀ hint,
      P (d.typeSpec.requests hint) (TypeEmitter.emitInlineHelperTypes hint d.typeSpec)) :
    P (fieldRequests owner declarations) (TypeEmitter.emitFieldHelpers owner declarations) := by
  induction declarations with
  | nil => exact rule.nothing
  | cons declaration declarations ih =>
    obtain ⟨target, declarator⟩ := declaration
    exact rule.andThen (h _ (List.mem_cons_self ..) _)
      (ih fun d hd => h d (List.mem_cons_of_mem _ hd))

/-- The helpers of arms are emitted as those of their types. -/
theorem emitArmHelpers {owner : String} {arms : List UnionArm}
    (h : ∀ arm ∈ arms, ∀ hint, P (arm.declaration.typeSpec.requests hint)
      (TypeEmitter.emitInlineHelperTypes hint arm.declaration.typeSpec)) :
    P (armRequests owner arms) (TypeEmitter.emitArmHelpers owner arms) := by
  induction arms with
  | nil => exact rule.nothing
  | cons arm arms ih =>
    obtain ⟨labels, ⟨target, declarator⟩⟩ := arm
    exact rule.andThen (h _ (List.mem_cons_self ..) _)
      (ih fun d hd => h d (List.mem_cons_of_mem _ hd))

/-- The helpers of a type specifier. -/
theorem emitInlineHelperTypes (target : TypeSpec) :
    ∀ hint, P (target.requests hint) (TypeEmitter.emitInlineHelperTypes hint target) := by
  induction target using TypeSpec.inner_induction with
  | leaf target hstruct hunion =>
    intro hint
    rcases target with _ | _ | _ | _ | _ | _ | _ | _ | _ | _ | _ | _ | body | body | body | _ | _
    case enum => exact rule.emitNamedEnum hint body
    case struct => exact absurd rfl (hstruct body)
    case union => exact absurd rfl (hunion body)
    all_goals exact rule.nothing
  | struct body ih =>
    intro hint
    obtain ⟨declarations⟩ := body
    have halias := TypeSpec.filterMap_aliasName_requests (.struct ⟨declarations⟩) hint
    rw [TypeSpec.requests, List.filterMap_append, List.append_eq_nil_iff] at halias
    exact rule.remember hint (.struct ⟨declarations⟩) (rule.emitFieldHelpers ih) halias.1
  | union body hdiscriminant harms =>
    intro hint
    obtain ⟨⟨target, declarator⟩, arms⟩ := body
    have halias := TypeSpec.filterMap_aliasName_requests (.union ⟨⟨target, declarator⟩, arms⟩) hint
    rw [TypeSpec.requests, List.filterMap_append, List.append_eq_nil_iff] at halias
    have hhelpers := rule.andThen (@emitArmHelpers _ rule hint _ harms)
      (hdiscriminant (hintFor hint "discriminant"))
    refine congr (rule.remember hint (.union ⟨⟨target, declarator⟩, arms⟩) hhelpers halias.1)
      fun emitter => ?_
    rw [TypeEmitter.emitInlineHelperTypes, TypeEmitter.emitNamedUnion]
    split
    · rfl
    · rw [bind_assoc]
      rfl

/-- An alias emits one item. -/
theorem emitAlias (name : String) (target : TypeSpec) (modifier : Option DeclaratorModifier) :
    P [.typeAlias (rustIdent name) target modifier name] fun emitter => do
      let type ← rustTypeForDeclaration target modifier name
      return emitter.push (.typeAlias (rustIdent name) type) := by
  refine congr (@push _ rule (.typeAlias (rustIdent name) target modifier name) rfl)
    fun emitter => ?_
  rw [ItemRequest.item, bind_assoc]
  simp only [pure_bind]

/-- A type definition. -/
theorem emitTypedef (decl : TypedefDecl) : P decl.requests (TypeEmitter.emitTypedef decl) := by
  obtain ⟨target, ⟨name, modifier⟩⟩ := decl
  have hinline := rule.emitInlineHelperTypes target
  have halias := rule.emitAlias name
  have hhelper (body : TypeSpec) (modifier : DeclaratorModifier) :=
    rule.andThen (rule.emitInlineHelperTypes body (hintFor name "value"))
      (halias (.identifier (hintFor name "value")) (some modifier))
  unfold TypedefDecl.requests TypeEmitter.emitTypedef
  rcases modifier with _ | modifier
  · rcases target with _ | _ | _ | _ | _ | _ | _ | _ | _ | _ | _ | _ | body | body | body | _ | _
    case enum | struct | union => exact hinline name
    all_goals exact halias _ none
  · rcases target with _ | _ | _ | _ | _ | _ | _ | _ | _ | _ | _ | _ | body | body | body | _ | _
    case enum | struct | union => exact hhelper _ modifier
    all_goals exact halias _ (some modifier)

/-- An item. -/
theorem emitItem (item : Item) : P item.requests fun emitter => emitter.emitItem item := by
  rcases item with decl | decl | ⟨name, body⟩ | ⟨name, body⟩ | ⟨name, body⟩ | decl
  · exact @push _ rule (.const (rustIdent decl.name) decl.value) rfl
  · exact rule.emitTypedef decl
  · exact rule.emitInlineHelperTypes (.struct body) name
  · exact rule.emitInlineHelperTypes (.enum body) name
  · exact rule.emitInlineHelperTypes (.union body) name
  · exact rule.nothing

/-- A list of items. -/
theorem emitItems (items : List Item) :
    P (items.flatMap Item.requests) fun emitter => emitter.emitItems items := by
  induction items with
  | nil => exact rule.nothing
  | cons item items ih => exact rule.andThen (rule.emitItem item) ih

end EmitterRule

/-! ## What is written when the names are new -/

/-- What a step of the emitter writes when the names of its requests are new. -/
def Emits (requests : List ItemRequest) (step : TypeEmitter → Except GeneratorError TypeEmitter) :
    Prop :=
  ∀ emitter emitter', step emitter = .ok emitter' →
    (requests.filterMap ItemRequest.helper).Nodup →
    (∀ name ∈ requests.filterMap ItemRequest.helper, name ∉ emitter.emittedHelpers) →
    ∃ new, emitter'.out = emitter.out ++ new ∧ emitter'.context = emitter.context ∧
      (∀ name, name ∈ emitter'.emittedHelpers ↔
        name ∈ emitter.emittedHelpers ∨ name ∈ requests.filterMap ItemRequest.helper) ∧
      List.Forall₂ (fun request item => request.item emitter.context = .ok item) requests new

namespace Emits

variable {requests more : List ItemRequest}
  {step next : TypeEmitter → Except GeneratorError TypeEmitter}

/-- Emitting nothing asks for nothing. -/
theorem nothing : Emits [] .ok := by
  intro emitter emitter' hstep _ _
  cases hstep
  exact ⟨[], by simp, rfl, by simp, .nil⟩

/-- One step after the other. -/
theorem andThen (h : Emits requests step) (h' : Emits more next) :
    Emits (requests ++ more) (fun emitter => step emitter >>= next) := by
  intro emitter emitter' hstep hnodup hnew
  obtain ⟨mid, hmid, hnext⟩ := except_bind_eq_ok.mp hstep
  rw [List.filterMap_append] at hnodup hnew
  obtain ⟨hfirst, hsecond, hdisjoint⟩ := List.nodup_append.mp hnodup
  obtain ⟨new, hout, hcontext, hnames, hitems⟩ := h emitter mid hmid hfirst
    fun name hname => hnew name (List.mem_append_left _ hname)
  obtain ⟨new', hout', hcontext', hnames', hitems'⟩ := h' mid emitter' hnext hsecond (by
    intro name hname hmem
    rcases (hnames name).mp hmem with hold | hfresh
    · exact hnew name (List.mem_append_right _ hname) hold
    · exact hdisjoint name hfresh name hname rfl)
  refine ⟨new ++ new', ?_, hcontext'.trans hcontext, ?_, ?_⟩
  · rw [hout', hout, List.append_assoc]
  · intro name
    rw [hnames', hnames, List.filterMap_append, List.mem_append, or_assoc]
  · rw [hcontext] at hitems'
    exact List.rel_append hitems hitems'

/-- Writing one item that is not remembered. -/
theorem push {request : ItemRequest} (hhelper : request.helper = none) :
    Emits [request] fun emitter => do
      let item ← request.item emitter.context
      return emitter.push item := by
  intro emitter emitter' hstep _ _
  obtain ⟨written, hwritten, hpush⟩ := except_bind_eq_ok.mp hstep
  cases hpush
  exact ⟨[written], rfl, rfl, by simp [TypeEmitter.push, hhelper], .cons hwritten .nil⟩

/-- Writing an item that is remembered, after those it needs. -/
theorem remember (name : String) (target : TypeSpec) (h : Emits requests step) :
    Emits (requests ++ [.inline name target]) fun emitter =>
      if name ∈ emitter.emittedHelpers then .ok emitter
      else do
        let emitter ← step (emitter.remember name)
        let item ← emitter.context.inlineItem name target
        return emitter.push item := by
  intro emitter emitter' hstep hnodup hnew
  have hsplit : (requests ++ [ItemRequest.inline name target]).filterMap ItemRequest.helper =
      requests.filterMap ItemRequest.helper ++ [name] := by
    rw [List.filterMap_append]
    rfl
  rw [hsplit] at hnodup hnew
  obtain ⟨hrequests, -, hdisjoint⟩ := List.nodup_append.mp hnodup
  have hname : name ∉ emitter.emittedHelpers := hnew name (by simp)
  simp only [if_neg hname] at hstep
  obtain ⟨mid, hmid, hrest⟩ := except_bind_eq_ok.mp hstep
  obtain ⟨item, hitem, hpush⟩ := except_bind_eq_ok.mp hrest
  obtain ⟨new, hout, hcontext, hnames, hitems⟩ := h _ mid hmid hrequests (by
    intro other hother hmem
    rcases List.mem_cons.mp hmem with rfl | hold
    · exact hdisjoint other hother other (by simp) rfl
    · exact hnew other (List.mem_append_left _ hother) hold)
  cases hpush
  have hcontext' : mid.context = emitter.context := hcontext
  refine ⟨new ++ [item], ?_, hcontext', ?_, ?_⟩
  · rw [TypeEmitter.push, hout, ← List.append_assoc]
    rfl
  · intro other
    rw [hsplit]
    simp only [TypeEmitter.push, hnames, TypeEmitter.remember, List.mem_cons, List.mem_append,
      List.not_mem_nil, or_false]
    tauto
  · rw [hcontext'] at hitem
    exact List.rel_append hitems (.cons hitem .nil)

/-- What a step writes when the names are new is kept by the ways in which steps are put
together. -/
theorem rule : EmitterRule Emits where
  nothing := nothing
  failed _ _ _ _ hstep := by simp at hstep
  andThen := andThen
  push := push
  remember name target h _ := h.remember name target

end Emits

/-! ## What was asked for -/

/-- Whatever a step of the emitter writes is the item of one of its requests. -/
def Asked (requests : List ItemRequest) (step : TypeEmitter → Except GeneratorError TypeEmitter) :
    Prop :=
  ∀ emitter emitter', step emitter = .ok emitter' → emitter'.context = emitter.context ∧
    ∃ new, emitter'.out = emitter.out ++ new ∧
      ∀ item ∈ new, ∃ request ∈ requests, request.item emitter.context = .ok item

namespace Asked

variable {requests more : List ItemRequest}
  {step next : TypeEmitter → Except GeneratorError TypeEmitter}

/-- Emitting nothing adds nothing. -/
theorem nothing : Asked [] .ok := by
  intro emitter emitter' hstep
  obtain rfl := Except.ok.inj hstep
  exact ⟨rfl, [], by simp, by simp⟩

/-- One step after the other. -/
theorem andThen (h : Asked requests step) (h' : Asked more next) :
    Asked (requests ++ more) (fun emitter => step emitter >>= next) := by
  intro emitter emitter' hstep
  obtain ⟨mid, hmid, hnext⟩ := except_bind_eq_ok.mp hstep
  obtain ⟨hcontext, new, hout, hitems⟩ := h emitter mid hmid
  obtain ⟨hcontext', new', hout', hitems'⟩ := h' mid emitter' hnext
  refine ⟨hcontext'.trans hcontext, new ++ new', ?_, fun item hitem => ?_⟩
  · rw [hout', hout, List.append_assoc]
  · rcases List.mem_append.mp hitem with hitem | hitem
    · obtain ⟨request, hmem, hrequest⟩ := hitems item hitem
      exact ⟨request, List.mem_append_left _ hmem, hrequest⟩
    · obtain ⟨request, hmem, hrequest⟩ := hitems' item hitem
      exact ⟨request, List.mem_append_right _ hmem, hcontext ▸ hrequest⟩

/-- Writing one item that is not remembered. -/
theorem push {request : ItemRequest} : Asked [request] fun emitter => do
    let item ← request.item emitter.context
    return emitter.push item := by
  intro emitter emitter' hstep
  obtain ⟨written, hwritten, hpush⟩ := except_bind_eq_ok.mp hstep
  obtain rfl := Except.ok.inj hpush
  refine ⟨rfl, [written], rfl, fun item hitem => ?_⟩
  obtain rfl := List.mem_singleton.mp hitem
  exact ⟨request, List.mem_singleton_self _, hwritten⟩

/-- Writing an item that is remembered, after those it needs. -/
theorem remember (name : String) (target : TypeSpec) (h : Asked requests step) :
    Asked (requests ++ [.inline name target]) fun emitter =>
      if name ∈ emitter.emittedHelpers then .ok emitter
      else do
        let emitter ← step (emitter.remember name)
        let item ← emitter.context.inlineItem name target
        return emitter.push item := by
  intro emitter emitter' hstep
  by_cases hname : name ∈ emitter.emittedHelpers
  · simp only [if_pos hname] at hstep
    obtain rfl := Except.ok.inj hstep
    exact ⟨rfl, [], by simp, by simp⟩
  simp only [if_neg hname] at hstep
  obtain ⟨mid, hmid, hrest⟩ := except_bind_eq_ok.mp hstep
  obtain ⟨item, hitem, hpush⟩ := except_bind_eq_ok.mp hrest
  obtain ⟨hcontext, new, hout, hitems⟩ := h _ mid hmid
  have hcontext' : mid.context = emitter.context := hcontext
  obtain rfl := Except.ok.inj hpush
  refine ⟨hcontext', new ++ [item], ?_, fun other hother => ?_⟩
  · rw [TypeEmitter.push, hout, ← List.append_assoc]
    rfl
  · rcases List.mem_append.mp hother with hother | hother
    · obtain ⟨request, hmem, hrequest⟩ := hitems other hother
      exact ⟨request, List.mem_append_left _ hmem, hrequest⟩
    · obtain rfl := List.mem_singleton.mp hother
      exact ⟨.inline name target, by simp, hcontext' ▸ hitem⟩

/-- That what is written was asked for is kept by the ways in which steps are put together. -/
theorem rule : EmitterRule Asked where
  nothing := nothing
  failed _ _ _ _ hstep := by simp at hstep
  andThen := andThen
  push _ := push
  remember name target h _ := remember name target h

end Asked

end OncRpc
