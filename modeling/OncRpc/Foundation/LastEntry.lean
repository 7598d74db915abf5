import Mathlib.Data.List.Basic

/-!
# Tables in which the last entry counts

A table is filled source by source, and an entry replaces the earlier ones of its key.  What is
found under a key comes from the last source that has the key.
-/

namespace Foundation

variable {α β κ : Type}

/-- The last element of a list with a property. -/
def LastWith (p : α → Prop) (sources : List α) (source : α) : Prop :=
  ∃ front back, sources = front ++ source :: back ∧ p source ∧ ∀ later ∈ back, ¬ p later

namespace LastWith

variable {p : α → Prop} {sources : List α} {source other : α}

theorem prop (h : LastWith p sources source) : p source := h.choose_spec.choose_spec.2.1

/-- There is a last element with a property if there is one at all. -/
theorem exists_of_mem (hmem : source ∈ sources) (h : p source) :
    ∃ last, LastWith p sources last := by
  induction sources generalizing source with
  | nil => simp at hmem
  | cons first sources ih =>
    by_cases hmore : ∃ other ∈ sources, p other
    · obtain ⟨other, hother, hp⟩ := hmore
      obtain ⟨last, front, back, rfl, hlast⟩ := ih hother hp
      exact ⟨last, first :: front, back, rfl, hlast⟩
    · rcases List.mem_cons.mp hmem with rfl | hmem
      · exact ⟨source, [], sources, rfl, h, fun later hlater hp => hmore ⟨later, hlater, hp⟩⟩
      · exact absurd ⟨source, hmem, h⟩ hmore

theorem unique (h : LastWith p sources source) (h' : LastWith p sources other) :
    source = other := by
  obtain ⟨front, back, rfl, hp, hlast⟩ := h
  obtain ⟨front', back', heq, hp', hlast'⟩ := h'
  rcases List.append_eq_append_iff.mp heq with ⟨middle, -, htail⟩ | ⟨middle, -, htail⟩
  · rcases middle with _ | ⟨first, middle⟩
    · exact (List.cons.inj htail).1
    · obtain ⟨rfl, rfl⟩ := List.cons.inj htail
      exact absurd hp' (hlast other (by simp))
  · rcases middle with _ | ⟨first, middle⟩
    · exact (List.cons.inj htail).1.symm
    · obtain ⟨rfl, rfl⟩ := List.cons.inj htail
      exact absurd hp (hlast' source (by simp))

end LastWith

variable [DecidableEq κ] {entries : α → List (κ × β)} {sources : List α} {source : α} {key : κ}

/-- What is found under a key has the key. -/
theorem mem_keys_of_lookup_reverse {table : List (κ × β)} {value : β}
    (h : table.reverse.lookup key = some value) : key ∈ table.map Prod.fst := by
  obtain ⟨front, back, hsplit, -⟩ := List.lookup_eq_some_iff.mp h
  have hmem : (key, value) ∈ table.reverse := by
    rw [hsplit]
    exact List.mem_append_right _ List.mem_cons_self
  exact List.mem_map_of_mem (List.mem_reverse.mp hmem)

/-- Nothing is found under a key that no source has. -/
theorem lookup_reverse_flatMap_of_notMem
    (h : ∀ source ∈ sources, key ∉ (entries source).map Prod.fst) :
    (sources.flatMap entries).reverse.lookup key = none := by
  rw [List.lookup_eq_none_iff]
  intro entry hentry
  obtain ⟨source, hsource, hmem⟩ := List.mem_flatMap.mp (List.mem_reverse.mp hentry)
  have hkey := h source hsource
  rw [bne_iff_ne]
  rintro rfl
  exact hkey (List.mem_map_of_mem hmem)

/-- What is found under a key is what the last source with the key has under it. -/
theorem LastWith.lookup_reverse_flatMap
    (h : LastWith (fun source => key ∈ (entries source).map Prod.fst) sources source) :
    (sources.flatMap entries).reverse.lookup key = (entries source).reverse.lookup key := by
  obtain ⟨front, back, rfl, hkey, hlast⟩ := h
  have hsome : ((entries source).reverse.lookup key).isSome := by
    obtain ⟨⟨other, value⟩, hmem, rfl⟩ := List.mem_map.mp hkey
    rw [List.lookup_isSome_iff]
    exact ⟨(other, value), List.mem_reverse.mpr hmem, by simp⟩
  rw [List.flatMap_append, List.flatMap_cons, List.reverse_append, List.reverse_append,
    List.lookup_append, List.lookup_append, lookup_reverse_flatMap_of_notMem hlast, Option.none_or,
    Option.or_of_isSome hsome]

/-- What is found under a key, in a table that has the same under all keys of a source. -/
theorem LastWith.lookup_reverse_owner {γ : Type} (owner : α → γ)
    (h : LastWith (fun source => key ∈ (entries source).map Prod.fst) sources source) :
    (sources.flatMap fun source => (entries source).map fun entry =>
      (entry.1, owner source)).reverse.lookup key = some (owner source) := by
  have hkeys : ∀ source, ((entries source).map fun entry => (entry.1, owner source)).map Prod.fst =
      (entries source).map Prod.fst := by
    intro source
    rw [List.map_map]
    rfl
  have hlast : LastWith (fun source => key ∈ ((entries source).map fun entry =>
      (entry.1, owner source)).map Prod.fst) sources source := by
    simpa only [hkeys] using h
  rw [hlast.lookup_reverse_flatMap]
  have hkey := hlast.prop
  rcases hfound :
    ((entries source).map fun entry => (entry.1, owner source)).reverse.lookup key with
    _ | value
  · obtain ⟨entry, hentry, rfl⟩ := List.mem_map.mp hkey
    have hnone := List.lookup_eq_none_iff.mp hfound entry (List.mem_reverse.mpr hentry)
    simp at hnone
  · obtain ⟨front, back, hsplit, -⟩ := List.lookup_eq_some_iff.mp hfound
    have hmem : (key, value) ∈ ((entries source).map fun entry =>
        (entry.1, owner source)).reverse := by
      rw [hsplit]
      exact List.mem_append_right _ List.mem_cons_self
    obtain ⟨entry, -, hentry⟩ := List.mem_map.mp (List.mem_reverse.mp hmem)
    rw [hfound, (Prod.mk.inj hentry).2]

end Foundation
