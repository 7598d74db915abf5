import OncRpc.Gen.Layout
import Mathlib.Data.List.Forall2

/-!
# The shapes of types

The shape of a structure is the sum over its fields, that of a union the maximum over its arms.  The
layout of a named type is looked for through a number of names, none twice; with more names at hand
it stays the same (`namedFrom_mono`).
-/

namespace OncRpc

namespace OwnedLayouts

variable {layouts : OwnedLayouts} {named named' : String → Option Shape}

/-! ## More names -/

/-- The shape of a modifier stays when more base types have shapes. -/
theorem modifierShape_mono {target : TypeSpec} {modifier : Option DeclaratorModifier}
    {base base' : Option Shape} (h : ∀ shape, base = some shape → base' = some shape)
    {shape : Shape} (hshape : layouts.modifierShape target modifier base = some shape) :
    layouts.modifierShape target modifier base' = some shape := by
  rcases base with _ | inner
  · rcases modifier with _ | (bound | bound | _)
    · cases hshape
    · simp [modifierShape] at hshape
    · exact hshape
    · cases hshape
  · rw [h inner rfl]
    exact hshape

/-- The shape of fields stays when more names have shapes. -/
theorem fieldsFrom_mono {declarations : List Declaration}
    (h : ∀ d ∈ declarations, ∀ shape, layouts.declaration named d = some shape →
      layouts.declaration named' d = some shape) {start shape : Shape}
    (hshape : layouts.fieldsFrom named start declarations = some shape) :
    layouts.fieldsFrom named' start declarations = some shape := by
  induction declarations generalizing start with
  | nil => exact hshape
  | cons d declarations ih =>
    rw [fieldsFrom] at hshape ⊢
    obtain ⟨field, hfield, hrest⟩ := Option.bind_eq_some_iff.mp hshape
    refine Option.bind_eq_some_iff.mpr ⟨field, h d (List.mem_cons_self ..) field hfield, ?_⟩
    split at hrest
    · cases hrest
    · next hlast =>
      rw [if_neg hlast]
      obtain ⟨size, hsize, hrest⟩ := Option.bind_eq_some_iff.mp hrest
      refine Option.bind_eq_some_iff.mpr ⟨size, hsize, ?_⟩
      exact ih (fun d' hd' => h d' (List.mem_cons_of_mem _ hd')) hrest

/-- The shape of arms stays when more names have shapes. -/
theorem armsFrom_mono {arms : List UnionArm}
    (h : ∀ arm ∈ arms, ∀ shape, layouts.declaration named arm.declaration = some shape →
      layouts.declaration named' arm.declaration = some shape) {start shape : Shape}
    (hshape : layouts.armsFrom named start arms = some shape) :
    layouts.armsFrom named' start arms = some shape := by
  induction arms generalizing start with
  | nil => exact hshape
  | cons arm arms ih =>
    rw [armsFrom] at hshape ⊢
    obtain ⟨other, hother, hrest⟩ := Option.bind_eq_some_iff.mp hshape
    obtain ⟨labels, d⟩ := arm
    refine Option.bind_eq_some_iff.mpr ⟨other, h _ (List.mem_cons_self ..) other hother, ?_⟩
    exact ih (fun arm' harm' => h arm' (List.mem_cons_of_mem _ harm')) hrest

/-- The shape of a structure is that of its fields. -/
theorem structure_eq (body : StructBody) :
    layouts.structure_ named body = layouts.fieldsFrom named ⟨0, false⟩ body.declarations := by
  obtain ⟨declarations⟩ := body
  rw [structure_]

/-- The shape of a declaration is that of its modifier over its base type. -/
theorem declaration_eq (d : Declaration) :
    layouts.declaration named d =
      layouts.modifierShape d.typeSpec d.declarator.modifier (layouts.base named d.typeSpec) := by
  obtain ⟨target, declarator⟩ := d
  rw [declaration]

/-- The shape of a union is that of its discriminant, followed by the largest of its arms. -/
theorem union_eq_some_iff {body : UnionBody} {shape : Shape} :
    layouts.union named body = some shape ↔ ∃ discriminant arm,
      layouts.declaration named body.discriminant = some discriminant ∧ discriminant.body = false ∧
      layouts.armsFrom named ⟨0, false⟩ body.arms = some arm ∧
      checkedAdd discriminant.prefixBytes arm.prefixBytes = some shape.prefixBytes ∧
      shape.body = arm.body := by
  obtain ⟨d, arms⟩ := body
  rw [union]
  simp only [Option.bind_eq_bind, Option.bind_eq_some_iff]
  constructor
  · rintro ⟨discriminant, hd, h⟩
    split at h
    · cases h
    · next hbody =>
      obtain ⟨arm, harm, size, hsize, hshape⟩ := by
        simpa only [Option.bind_eq_some_iff] using h
      cases hshape
      exact ⟨discriminant, arm, hd, by simpa using hbody, harm, hsize, rfl⟩
  · rintro ⟨discriminant, arm, hd, hbody, harm, hsize, hshape⟩
    refine ⟨discriminant, hd, ?_⟩
    rw [hbody, if_neg Bool.false_ne_true]
    simp only [Option.bind_eq_some_iff]
    obtain ⟨size, shapeBody⟩ := shape
    exact ⟨arm, harm, size, hsize, by rw [← hshape]; rfl⟩

/-- A type has the same shape when more names are known. -/
theorem base_mono (h : ∀ name shape, named name = some shape → named' name = some shape)
    (target : TypeSpec) : ∀ shape, layouts.base named target = some shape →
      layouts.base named' target = some shape := by
  induction target using TypeSpec.inner_induction with
  | leaf target hstruct hunion =>
    intro shape hshape
    rcases target with _ | _ | _ | _ | _ | _ | _ | _ | _ | _ | _ | name | body | body | body | _ | _
    case identifier =>
      rw [base] at hshape ⊢
      exact h name shape hshape
    case struct => exact absurd rfl (hstruct body)
    case union => exact absurd rfl (hunion body)
    all_goals exact hshape
  | struct body ih =>
    intro shape hshape
    rw [base, structure_eq, bodyFree, Option.filter_eq_some_iff] at hshape ⊢
    refine ⟨fieldsFrom_mono (fun d hd inner hinner => ?_) hshape.1, hshape.2⟩
    rw [declaration_eq] at hinner ⊢
    exact modifierShape_mono (ih d hd) hinner
  | union body hdiscriminant harms =>
    intro shape hshape
    rw [base, bodyFree, Option.filter_eq_some_iff] at hshape ⊢
    refine ⟨?_, hshape.2⟩
    obtain ⟨discriminant, arm, hd, hbody, harm, hsize, hshape⟩ := union_eq_some_iff.mp hshape.1
    refine union_eq_some_iff.mpr ⟨discriminant, arm, ?_, hbody, ?_, hsize, hshape⟩
    · rw [declaration_eq] at hd ⊢
      exact modifierShape_mono hdiscriminant hd
    · refine armsFrom_mono (fun arm' harm' inner hinner => ?_) harm
      rw [declaration_eq] at hinner ⊢
      exact modifierShape_mono (harms arm' harm') hinner

/-- The shape of a declaration stays when more names have shapes. -/
theorem declaration_mono (h : ∀ name shape, named name = some shape → named' name = some shape)
    {d : Declaration} {shape : Shape} (hshape : layouts.declaration named d = some shape) :
    layouts.declaration named' d = some shape := by
  rw [declaration_eq] at hshape ⊢
  exact modifierShape_mono (base_mono h d.typeSpec) hshape

/-- The shape of an item stays when more names have shapes. -/
theorem itemShape_mono (h : ∀ name shape, named name = some shape → named' name = some shape)
    {item : Item} {shape : Shape} (hshape : layouts.itemShape named item = some shape) :
    layouts.itemShape named' item = some shape := by
  rcases item with _ | decl | ⟨name, body⟩ | ⟨name, body⟩ | ⟨name, body⟩ | _
  case typedef => exact declaration_mono h hshape
  case struct =>
    rw [itemShape, structure_eq] at hshape ⊢
    exact fieldsFrom_mono (fun d _ inner hinner => declaration_mono h hinner) hshape
  case union =>
    rw [itemShape] at hshape ⊢
    obtain ⟨discriminant, arm, hd, hbody, harm, hsize, hshape⟩ := union_eq_some_iff.mp hshape
    exact union_eq_some_iff.mpr ⟨discriminant, arm, declaration_mono h hd, hbody,
      armsFrom_mono (fun arm' _ inner hinner => declaration_mono h hinner) harm, hsize, hshape⟩
  all_goals exact hshape

/-- A name has the same shape when it is looked for through more names. -/
theorem namedFrom_mono {fuel fuel' : ℕ} (hfuel : fuel ≤ fuel') {seen seen' : List String}
    (hseen : seen' ⊆ seen) {name : String} {shape : Shape}
    (h : layouts.namedFrom fuel seen name = some shape) :
    layouts.namedFrom fuel' seen' name = some shape := by
  induction fuel generalizing fuel' seen seen' name shape with
  | zero => cases h
  | succ fuel ih =>
    obtain ⟨more, rfl⟩ : ∃ more, fuel' = more + 1 := ⟨fuel' - 1, by omega⟩
    rw [namedFrom] at h ⊢
    split at h
    · cases h
    · next hname =>
      rw [if_neg fun hmem => hname (hseen hmem)]
      obtain ⟨item, hitem, hshape⟩ := Option.bind_eq_some_iff.mp h
      refine Option.bind_eq_some_iff.mpr ⟨item, hitem, ?_⟩
      refine itemShape_mono (fun other inner hinner => ?_) hshape
      exact ih (Nat.le_of_succ_le_succ hfuel) (List.cons_subset_cons name hseen) hinner

/-! ## Sums and maxima -/

/-- The shape of a structure is the sum over its fields, and only the last has a body. -/
theorem fieldsFrom_eq_some {declarations : List Declaration} {start shape : Shape}
    (h : layouts.fieldsFrom named start declarations = some shape) :
    ∃ shapes, List.Forall₂ (fun d field => layouts.declaration named d = some field)
        declarations shapes ∧
      shape.prefixBytes = start.prefixBytes + (shapes.map Shape.prefixBytes).sum ∧
      shape.body = (start.body || shapes.any Shape.body) ∧
      ∀ field ∈ shapes.dropLast, field.body = false := by
  induction declarations generalizing start with
  | nil =>
    cases h
    exact ⟨[], .nil, by simp, by simp, by simp⟩
  | cons d declarations ih =>
    rw [fieldsFrom] at h
    obtain ⟨field, hfield, h⟩ := Option.bind_eq_some_iff.mp h
    split at h
    · cases h
    · next hlast =>
      obtain ⟨size, hsize, h⟩ := Option.bind_eq_some_iff.mp h
      obtain ⟨shapes, hall, hsum, hbody, hrest⟩ := ih h
      obtain ⟨rfl, -⟩ := checkedAdd_eq_some.mp hsize
      refine ⟨field :: shapes, .cons hfield hall, ?_, ?_, ?_⟩
      · rw [hsum, List.map_cons, List.sum_cons]
        exact Nat.add_assoc ..
      · rw [hbody, List.any_cons, Bool.or_assoc]
      · rcases hall with _ | ⟨hfirst, hmore⟩
        · simp
        · intro other hother
          rw [List.dropLast_cons_of_ne_nil (List.cons_ne_nil _ _)] at hother
          rcases List.mem_cons.mp hother with rfl | hother
          · simpa using hlast
          · exact hrest other hother

/-- The shape of the arms of a union is the largest of them. -/
theorem armsFrom_eq_some {arms : List UnionArm} {start shape : Shape}
    (h : layouts.armsFrom named start arms = some shape) :
    start.prefixBytes ≤ shape.prefixBytes ∧ (shape.body = false → start.body = false) ∧
      ∀ arm ∈ arms, ∃ other, layouts.declaration named arm.declaration = some other ∧
        other.prefixBytes ≤ shape.prefixBytes ∧ (shape.body = false → other.body = false) := by
  induction arms generalizing start with
  | nil =>
    cases h
    exact ⟨le_rfl, id, by simp⟩
  | cons arm arms ih =>
    rw [armsFrom] at h
    obtain ⟨other, hother, h⟩ := Option.bind_eq_some_iff.mp h
    obtain ⟨hle, hbody, hall⟩ := ih h
    have hparts (hfree : shape.body = false) : start.body = false ∧ other.body = false := by
      simpa using hbody hfree
    refine ⟨le_trans (Nat.le_max_left ..) hle, fun hfree => (hparts hfree).1, ?_⟩
    intro arm' harm'
    rcases List.mem_cons.mp harm' with rfl | harm'
    · obtain ⟨labels, d⟩ := arm'
      exact ⟨other, hother, le_trans (Nat.le_max_right ..) hle, fun hfree => (hparts hfree).2⟩
    · exact hall arm' harm'

/-! ## Bodies -/

/-- A declaration with a body is variable opaque data, or has a name whose type has one. -/
theorem declaration_body_cases {d : Declaration} {shape : Shape}
    (h : layouts.declaration named d = some shape) (hbody : shape.body = true) :
    (∃ bound, d.typeSpec = .opaqueData ∧ d.declarator.modifier = some (.variableArray bound) ∧
      shape.prefixBytes = 4) ∨
    ∃ name inner, d.typeSpec = .identifier name ∧ named name = some inner ∧ inner.body = true ∧
      (d.declarator.modifier = none ∧ shape.prefixBytes = inner.prefixBytes ∨
        d.declarator.modifier = some .optional ∧ shape.prefixBytes = 4 + inner.prefixBytes) := by
  rw [declaration_eq] at h
  have hinner {inner : Shape} (hbase : layouts.base named d.typeSpec = some inner)
      (hbody : inner.body = true) :
      ∃ name, d.typeSpec = .identifier name ∧ named name = some inner := by
    rcases htarget : d.typeSpec
    case identifier name => exact ⟨name, rfl, by rw [← hbase, htarget, base]⟩
    case struct body =>
      rw [htarget, base, bodyFree, Option.filter_eq_some_iff] at hbase
      simp [hbody] at hbase
    case union body =>
      rw [htarget, base, bodyFree, Option.filter_eq_some_iff] at hbase
      simp [hbody] at hbase
    all_goals
      rw [htarget] at hbase
      cases hbase
      try cases hbody
  rcases hmodifier : d.declarator.modifier with _ | (bound | bound | _)
  · rw [hmodifier] at h
    obtain ⟨name, htarget, hname⟩ := hinner h hbody
    exact .inr ⟨name, shape, htarget, hname, hbody, .inl ⟨rfl, rfl⟩⟩
  · rw [hmodifier] at h
    simp only [modifierShape, Option.bind_eq_bind, Option.bind_eq_some_iff] at h
    obtain ⟨count, -, inner, -, h⟩ := h
    split at h
    · cases h
    split at h
    all_goals
      obtain ⟨size, -, hshape⟩ := Option.bind_eq_some_iff.mp h
      cases hshape
      cases hbody
  · rw [hmodifier] at h
    simp only [modifierShape] at h
    split at h
    · next htarget =>
      refine .inl ⟨bound, htarget, rfl, ?_⟩
      split at h
      · obtain ⟨_, -, hshape⟩ := Option.map_eq_some_iff.mp h
        exact hshape ▸ rfl
      · exact (Option.some.inj h) ▸ rfl
    · cases h
  · rw [hmodifier] at h
    simp only [modifierShape, Option.bind_eq_bind, Option.bind_eq_some_iff] at h
    obtain ⟨inner, hbase, size, hsize, hshape⟩ := h
    cases hshape
    obtain ⟨rfl, -⟩ := checkedAdd_eq_some.mp hsize
    obtain ⟨name, htarget, hname⟩ := hinner hbase hbody
    exact .inr ⟨name, inner, htarget, hname, hbody, .inr ⟨rfl, Nat.add_comm ..⟩⟩

end OwnedLayouts

end OncRpc
