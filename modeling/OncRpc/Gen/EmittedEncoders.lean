import OncRpc.Gen.References
import OncRpc.Gen.Render

/-!
# The encoders of everything that is written

What is written for a schema was asked for by its items and by their projections, and being flat or
plain is kept by projecting.  So whether all the encoders are in order can be read off the unions of
the schema.
-/

namespace OncRpc

open Foundation OwnedLayouts

variable {crate : CrateTypes} {constants : List String}

/-! ## Projections -/

theorem Declaration.Projects.flat {new old : Declaration} (h : new.Projects old)
    (hflat : old.Flat) :
    new.Flat := by
  rcases h with _ | _ | _ | ⟨name, other, ⟨declared, modifier⟩⟩
  · exact hflat
  · trivial
  · trivial
  · rcases modifier with _ | (_ | _ | _)
    · trivial
    · exact hflat
    · rcases hflat with h | h <;> cases h
    · trivial

theorem Declaration.Projects.plain {new old : Declaration} (h : new.Projects old)
    (hplain : old.Plain constants) : new.Plain constants := by
  have hvoid : new.typeSpec ≠ .void → old.typeSpec ≠ .void := by
    intro hvoid hold
    rcases h with _ | _ | _ | _
    · exact hvoid hold
    all_goals cases hold
  refine ⟨h.flat hplain.flat, fun hnew => ?_, fun hnew => ?_, fun hnew => ?_⟩
  · rcases h with _ | _ | _ | _
    · exact hplain.void hnew
    all_goals cases hnew
  · rw [h.name]
    exact hplain.output (hvoid hnew)
  · rw [h.name]
    exact hplain.binds (hvoid hnew)

section Output

variable {context : EmitContext} {layouts : OwnedLayouts} {checked : List String} {schema : Schema}
  {generated : Generated}

end Output

end OncRpc
