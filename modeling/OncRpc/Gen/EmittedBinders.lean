import OncRpc.Gen.Binders
import OncRpc.Gen.Render

/-!
# The names of emitted code

Which schemas are turned into Rust code whose names are identifiers.  Names of fields, constants and
aliases are escaped, but with a list that lacks the reserved keywords, and without regard to the
four words that have no raw form.  Names of structures, enumerations, variants and procedures are
left as they are.  Names of programs, versions and methods are put in lower case, and labels of
unions in Pascal case, which can make keywords of names that are none.

`Schema.NamesFit` says that none of this happens to a schema.
-/

namespace OncRpc

open OwnedLayouts

/-- The names in the emitted code for a source that is read are identifiers exactly if the names of
the schema fit: those of its items and types for the types, and those of its programs, versions and
procedures for the stubs.  That the condition on the types is necessary needs that each structure,
enumeration and union is written. -/
theorem emitted_binders_legal_iff (source : String) (schema : Schema)
    (hparse : parseXSource source = some (.ok schema)) :
    (∀ context layouts checked generated,
      emitTypesIn context layouts checked schema = .ok generated →
        (schema.NamesFit → AllLegal (schema.typeBinders generated)) ∧
        ((schema.ownRequests.filterMap ItemRequest.helper).Nodup →
          AllLegal (schema.typeBinders generated) → schema.NamesFit)) ∧
    ∀ emitter modules, StubEmitter.emitSchema emitter schema = .ok modules →
      (AllLegal (modules.flatMap (ProgramModule.binders VersionStubs.binders)) ↔
        ∀ decl ∈ schema.programs,
          decl.NamesFit (emitter.emitClient = true ∨ emitter.emitServer = true)) := by
  have hnamed := Schema.isNamed hparse
  refine ⟨fun context layouts checked generated hemit => ?_, fun emitter modules hemit => ?_⟩
  · obtain ⟨hasked, hwritten⟩ := asked_of_emitTypesIn hemit
    have hrequests := @Schema.PartsHave.of_mem _ layouts schema keptByProjection_named hnamed.parts
    have hprograms := TypeEmitter.emitPrograms_legal_iff hnamed
    refine ⟨fun hfit => ?_, fun hnodup hlegal => ?_⟩
    · refine allLegal_append.mpr ⟨allLegal_flatMap.mpr fun item hitem => ?_,
        hprograms.mpr hfit.programs⟩
      rcases hasked item hitem with (⟨request, hmem, hrequest⟩ | ⟨request, hmem, hrequest⟩) |
        ⟨request, hmem, hrequest⟩
      · refine (ItemRequest.legal_iff (hrequests (.inl hmem)) hrequest).mpr ?_
        exact hnamed.fits_iff.mpr ⟨hfit.items, hfit.parts⟩ request hmem
      · refine (ItemRequest.legal_iff (hrequests (.inr (.inr hmem))) hrequest).mpr ?_
        exact hnamed.fits_projections (by decide) (projectsAs_segments layouts)
          hfit.parts request hmem
      · refine (ItemRequest.legal_iff (hrequests (.inr (.inl hmem))) hrequest).mpr ?_
        exact hnamed.fits_projections (by decide) (projectsAs_metadata layouts)
          hfit.parts request hmem
    · obtain ⟨hitems, hmodules⟩ := allLegal_append.mp hlegal
      have hfits : ∀ request ∈ schema.ownRequests, request.Fits := by
        intro request hmem
        obtain ⟨item, hitem, hrequest⟩ := hwritten hnodup request hmem
        exact (ItemRequest.legal_iff (hrequests (.inl hmem)) hrequest).mp
          (allLegal_flatMap.mp hitems item hitem)
      obtain ⟨hnames, hparts⟩ := hnamed.fits_iff.mp hfits
      exact ⟨hnames, hparts, hprograms.mp hmodules⟩
  · exact StubEmitter.emitSchema_legal_iff hnamed hemit

/-- A schema with a field that is called like a keyword. -/
def itemSchema : Schema :=
  ⟨[.struct "item" ⟨[⟨.int, ⟨"type", none⟩⟩]⟩,
    .union "shade" ⟨⟨.int, ⟨"c", none⟩⟩, [⟨[.case (.number 0)], ⟨.int, ⟨"mod", none⟩⟩⟩]⟩,
    .program ⟨"P", [⟨"V", [⟨.void, "GET", .int, 1⟩], 1⟩], 3⟩]⟩

/-- Its source. -/
def itemSource : String :=
  "struct item{int type;};union shade switch(int c){case 0:int mod;};" ++
    "program P{version V{void GET(int)=1;}=1;}=3;"

theorem itemSchema_namesFit : itemSchema.NamesFit := by
  refine ⟨fun item hmem => ?_, fun request hmem => ?_, fun decl hmem => ?_⟩
  · have htypes : Unreserved "item" ∧ Unreserved "shade" := by decide
    rcases List.mem_cons.mp hmem with rfl | hmem
    · exact htypes.1
    rcases List.mem_cons.mp hmem with rfl | hmem
    · exact htypes.2
    · obtain rfl := List.mem_singleton.mp hmem
      trivial
  · rcases List.mem_cons.mp hmem with rfl | hmem
    · intro d hd
      obtain rfl := List.mem_singleton.mp hd
      exact ⟨by decide, by decide⟩
    · obtain rfl := List.mem_singleton.mp hmem
      intro arm harm
      obtain rfl := List.mem_singleton.mp harm
      exact ⟨by decide, fun _ => ⟨by decide, by decide⟩⟩
  · obtain rfl := List.mem_singleton.mp hmem
    refine ⟨by decide, fun version hversion => ?_⟩
    obtain rfl := List.mem_singleton.mp hversion
    exact ⟨by decide, by decide, False.elim⟩

/-- The emitted types and stubs have identifiers for their names; the field is in its raw form. -/
theorem emitted_binders_legal_item :
    AllLegal (itemSchema.typeBinders itemSchema.code) ∧
      "r#type" ∈ itemSchema.typeBinders itemSchema.code ∧
      ∃ modules, StubEmitter.both.emitSchema itemSchema = .ok modules ∧
        AllLegal (modules.flatMap (ProgramModule.binders VersionStubs.binders)) := by
  have hparse : parseXSource itemSource = some (.ok itemSchema) :=
    parseXSource_of_chars (toList_append_of_eq (toList_of_eq rfl) (toList_of_eq rfl))
      (by decide +kernel) rfl
  have hcode : emitTypesIn itemSchema.context (fromSchema itemSchema) [] itemSchema =
      .ok itemSchema.code := Schema.emitRustTypes_code (by decide +kernel)
  obtain ⟨htypes, hstubs⟩ := emitted_binders_legal_iff itemSource itemSchema hparse
  have hraw : "r#type" ∈ itemSchema.typeBinders itemSchema.code := by decide +kernel
  have hsome : (StubEmitter.both.emitSchema itemSchema).isOk = true := by decide +kernel
  obtain ⟨modules, hmodules⟩ : ∃ modules, StubEmitter.both.emitSchema itemSchema = .ok modules := by
    rcases hemit : StubEmitter.both.emitSchema itemSchema with error | modules
    · rw [hemit] at hsome
      cases hsome
    · exact ⟨modules, rfl⟩
  refine ⟨(htypes _ _ _ _ hcode).1 itemSchema_namesFit, hraw, modules, hmodules, ?_⟩
  refine (hstubs _ _ hmodules).mpr fun decl hdecl => ?_
  obtain rfl := List.mem_singleton.mp hdecl
  refine ⟨by decide, fun version hversion => ?_⟩
  obtain rfl := List.mem_singleton.mp hversion
  exact ⟨by decide, by decide, fun _ => by decide⟩

/-- A schema with two fields and a program that become no identifiers. -/
def selfSchema : Schema :=
  ⟨[.struct "s" ⟨[⟨.int, ⟨"self", none⟩⟩, ⟨.int, ⟨"try", none⟩⟩]⟩,
    .program ⟨"LOOP", [⟨"V1", [⟨.void, "PING", .void, 0⟩], 1⟩], 300004⟩]⟩

/-- Its source. -/
def selfSource : String :=
  "struct s { int self; int try; }; " ++
    "program LOOP { version V1 { void PING(void) = 0; } = 1; } = 300004;"

/-- A raw form that does not exist, a reserved keyword, and a keyword in use are names of the
emitted code. -/
theorem self_try_loop_bound :
    parseXSource selfSource = some (.ok selfSchema) ∧
      emitRustTypes selfSchema = .ok selfSchema.code ∧
      ∀ name ∈ ["r#self", "try", "loop"],
        name ∈ selfSchema.typeBinders selfSchema.code ∧ ¬ LegalIdent name := by
  have hparse : parseXSource selfSource = some (.ok selfSchema) :=
    parseXSource_of_chars (toList_append_of_eq (toList_of_eq rfl) (toList_of_eq rfl))
      (by decide +kernel) rfl
  have hbound : ∀ name ∈ ["r#self", "try", "loop"],
      name ∈ selfSchema.typeBinders selfSchema.code := by decide +kernel
  have hself : ¬ LegalIdent (rustIdent "self") := by
    rw [legalIdent_rustIdent (by decide)]
    decide
  have htry : ¬ LegalIdent "try" := by
    rw [legalIdent_iff_unreserved (by decide)]
    decide
  have hloop : ¬ LegalIdent "loop" := by
    rw [legalIdent_iff_unreserved (by decide)]
    decide
  refine ⟨hparse, Schema.emitRustTypes_code (by decide +kernel), fun name hmem =>
    ⟨hbound name hmem, ?_⟩⟩
  rcases List.mem_cons.mp hmem with rfl | hmem
  · exact hself
  rcases List.mem_cons.mp hmem with rfl | hmem
  · exact htry
  · obtain rfl := List.mem_singleton.mp hmem
    exact hloop

end OncRpc
