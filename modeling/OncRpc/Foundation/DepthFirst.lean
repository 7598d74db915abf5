import Mathlib.Logic.Relation
import Mathlib.Data.List.Nodup

/-!
# Depth-first search

A search over a graph that is given by the list of the successors of each node.  A node is visited
when the search enters it and done when the search leaves it, with all its successors visited.

`Walk next s nodes t` says that a search from the state `s` that goes through `nodes` ends in the
state `t`.  A walk marks exactly the nodes it reaches, leaves every node it enters, and in a graph
without cycles leaves every node after all its successors.
-/

namespace Foundation

open Relation

variable {α : Type*}

/-- The state of a search: the nodes it has entered, and the nodes it has left, in order. -/
structure Search (α : Type*) where
  visited : List α
  done : List α

/-- There is an edge from `x` to `y`. -/
def Edge (next : α → List α) (x y : α) : Prop := y ∈ next x

/-- A search through a list of nodes. -/
inductive Walk (next : α → List α) : Search α → List α → Search α → Prop
  | nil (s : Search α) : Walk next s [] s
  | seen {s t : Search α} {x : α} {xs : List α} (hx : x ∈ s.visited) (rest : Walk next s xs t) :
      Walk next s (x :: xs) t
  | enter {s t u : Search α} {x : α} {xs : List α} (hx : x ∉ s.visited)
      (inner : Walk next ⟨x :: s.visited, s.done⟩ (next x) t)
      (rest : Walk next ⟨t.visited, t.done ++ [x]⟩ xs u) : Walk next s (x :: xs) u

namespace Walk

variable {next : α → List α} {s t : Search α} {xs : List α}

/-- Nodes stay visited. -/
theorem visited_mono (h : Walk next s xs t) {y : α} (hy : y ∈ s.visited) : y ∈ t.visited := by
  induction h with
  | nil => exact hy
  | seen _ _ ih => exact ih hy
  | enter _ _ _ ihinner ihrest => exact ihrest (ihinner (List.mem_cons_of_mem _ hy))

/-- Nodes stay done. -/
theorem done_mono (h : Walk next s xs t) {y : α} (hy : y ∈ s.done) : y ∈ t.done := by
  induction h with
  | nil => exact hy
  | seen _ _ ih => exact ih hy
  | enter _ _ _ ihinner ihrest => exact ihrest (List.mem_append_left _ (ihinner hy))

/-- The walk visits the nodes it goes through. -/
theorem visits (h : Walk next s xs t) {x : α} (hx : x ∈ xs) : x ∈ t.visited := by
  induction h with
  | nil => simp at hx
  | seen hseen rest ih =>
    rcases List.mem_cons.mp hx with rfl | hx
    · exact rest.visited_mono hseen
    · exact ih hx
  | enter _ inner rest _ ihrest =>
    rcases List.mem_cons.mp hx with rfl | hx
    · exact rest.visited_mono (inner.visited_mono List.mem_cons_self)
    · exact ihrest hx

/-- What the walk enters it leaves. -/
theorem done_of_visited (h : Walk next s xs t) {y : α} (hy : y ∈ t.visited) :
    y ∈ s.visited ∨ y ∈ t.done := by
  induction h with
  | nil => exact .inl hy
  | seen _ _ ih => exact ih hy
  | @enter s t u x xs _ _ rest ihinner ihrest =>
    rcases ihrest hy with hy | hy
    · rcases ihinner hy with hy | hy
      · rcases List.mem_cons.mp hy with rfl | hy
        · exact .inr (rest.done_mono (List.mem_append_right _ (List.mem_singleton.mpr rfl)))
        · exact .inl hy
      · exact .inr (rest.done_mono (List.mem_append_left _ hy))
    · exact .inr hy

/-- The walk leaves only what it enters. -/
theorem visited_of_done (h : Walk next s xs t) {y : α} (hy : y ∈ t.done) :
    y ∈ s.done ∨ y ∉ s.visited ∧ y ∈ t.visited := by
  induction h with
  | nil => exact .inl hy
  | seen _ _ ih => exact ih hy
  | @enter s t u x xs hx inner rest ihinner ihrest =>
    rcases ihrest hy with hy | ⟨hnew, hy⟩
    · rcases List.mem_append.mp hy with hy | hy
      · rcases ihinner hy with hy | ⟨hnew, hy⟩
        · exact .inl hy
        · exact .inr ⟨fun h => hnew (List.mem_cons_of_mem _ h), rest.visited_mono hy⟩
      · obtain rfl := List.mem_singleton.mp hy
        exact .inr ⟨hx, rest.visited_mono (inner.visited_mono List.mem_cons_self)⟩
    · exact .inr ⟨fun h => hnew (inner.visited_mono (List.mem_cons_of_mem _ h)), hy⟩

/-- The successors of what the walk leaves are visited. -/
theorem closed (h : Walk next s xs t) {y z : α} (hy : y ∈ t.done) (hz : z ∈ next y) :
    y ∈ s.done ∨ z ∈ t.visited := by
  induction h with
  | nil => exact .inl hy
  | seen _ _ ih => exact ih hy
  | @enter s t u x xs _ inner rest ihinner ihrest =>
    rcases ihrest hy with hy | hz
    · rcases List.mem_append.mp hy with hy | hy
      · rcases ihinner hy with hy | hz
        · exact .inl hy
        · exact .inr (rest.visited_mono hz)
      · obtain rfl := List.mem_singleton.mp hy
        exact .inr (rest.visited_mono (inner.visits hz))
    · exact .inr hz

/-- What the walk visits can be reached from the nodes it goes through. -/
theorem reachable (h : Walk next s xs t) {y : α} (hy : y ∈ t.visited) :
    y ∈ s.visited ∨ ∃ x ∈ xs, ReflTransGen (Edge next) x y := by
  induction h with
  | nil => exact .inl hy
  | seen _ _ ih =>
    rcases ih hy with hy | ⟨x, hx, hreach⟩
    · exact .inl hy
    · exact .inr ⟨x, List.mem_cons_of_mem _ hx, hreach⟩
  | @enter s t u x xs _ _ _ ihinner ihrest =>
    rcases ihrest hy with hy | ⟨z, hz, hreach⟩
    · rcases ihinner hy with hy | ⟨z, hz, hreach⟩
      · rcases List.mem_cons.mp hy with rfl | hy
        · exact .inr ⟨y, List.mem_cons_self, .refl⟩
        · exact .inl hy
      · exact .inr ⟨x, List.mem_cons_self, .head hz hreach⟩
    · exact .inr ⟨z, List.mem_cons_of_mem _ hz, hreach⟩

/-- No node is left twice. -/
theorem nodup (h : Walk next s xs t) (hs : s.done.Nodup) (hsub : ∀ y ∈ s.done, y ∈ s.visited) :
    t.done.Nodup := by
  induction h with
  | nil => exact hs
  | seen _ _ ih => exact ih hs hsub
  | @enter s t u x xs hx inner rest ihinner ihrest =>
    have hinner := ihinner hs fun y hy => List.mem_cons_of_mem _ (hsub y hy)
    have hvisited : ∀ y ∈ t.done, y ∈ t.visited := by
      intro y hy
      rcases inner.visited_of_done hy with hy | ⟨-, hy⟩
      · exact inner.visited_mono (List.mem_cons_of_mem _ (hsub y hy))
      · exact hy
    have hfresh : x ∉ t.done := by
      intro hdone
      rcases inner.visited_of_done hdone with hdone | ⟨hnew, -⟩
      · exact hx (hsub x hdone)
      · exact hnew List.mem_cons_self
    refine ihrest ?_ ?_
    · exact hinner.append (List.nodup_singleton x) (by simpa using hfresh)
    · intro y hy
      rcases List.mem_append.mp hy with hy | hy
      · exact hvisited y hy
      · obtain rfl := List.mem_singleton.mp hy
        exact inner.visited_mono List.mem_cons_self

/-- Every node of the list comes after all its successors. -/
def Ordered (next : α → List α) (nodes : List α) : Prop :=
  ∀ front y back, nodes = front ++ y :: back → ∀ z ∈ next y, z ∈ front

theorem Ordered.concat {nodes : List α} {x : α} (h : Ordered next nodes)
    (hx : ∀ z ∈ next x, z ∈ nodes) : Ordered next (nodes ++ [x]) := by
  intro front y back hsplit z hz
  rcases List.eq_nil_or_concat back with rfl | ⟨back, last, rfl⟩
  · obtain ⟨rfl, hlast⟩ := List.append_inj' hsplit rfl
    obtain rfl : x = y := by simpa using hlast
    exact hx z hz
  · rw [List.concat_eq_append, ← List.cons_append, ← List.append_assoc] at hsplit
    obtain ⟨hfront, -⟩ := List.append_inj' hsplit rfl
    exact h front y back hfront z hz

/-- In a part of the graph without cycles a walk keeps the order, if every node that is visited and
not done leads to the nodes it goes through. -/
theorem ordered {P : α → Prop} (h : Walk next s xs t) (hclosed : ∀ x, P x → ∀ y ∈ next x, P y)
    (hacyclic : ∀ x, P x → ¬ TransGen (Edge next) x x) (hxs : ∀ x ∈ xs, P x)
    (hgrey : ∀ g ∈ s.visited, g ∉ s.done → ∀ x ∈ xs, TransGen (Edge next) g x)
    (hs : Ordered next s.done) : Ordered next t.done := by
  induction h with
  | nil => exact hs
  | seen _ _ ih =>
    exact ih (fun x hx => hxs x (List.mem_cons_of_mem _ hx))
      (fun g hg hnot x hx => hgrey g hg hnot x (List.mem_cons_of_mem _ hx)) hs
  | @enter s t u x xs hx inner rest ihinner ihrest =>
    have hPx := hxs x List.mem_cons_self
    have hinner := ihinner (hclosed x hPx) (fun g hg hnot y hy => by
      rcases List.mem_cons.mp hg with rfl | hg
      · exact .single hy
      · exact .tail (hgrey g hg hnot x List.mem_cons_self) hy) hs
    -- A successor of `x` that is still open leads to `x`, which closes a cycle.
    have hsuccessors : ∀ z ∈ next x, z ∈ t.done := by
      intro z hz
      rcases inner.done_of_visited (inner.visits hz) with hopen | hdone
      · by_contra hnot
        rcases List.mem_cons.mp hopen with rfl | hold
        · exact hacyclic z hPx (.single hz)
        · have hlead := hgrey z hold (fun hdone => hnot (inner.done_mono hdone))
            x List.mem_cons_self
          exact hacyclic z (hclosed x hPx z hz) (hlead.tail hz)
      · exact hdone
    refine ihrest (fun y hy => hxs y (List.mem_cons_of_mem _ hy)) (fun g hg hnot y hy => ?_)
      (hinner.concat hsuccessors)
    have hopen : g ∉ t.done ∧ g ≠ x := by simpa using hnot
    rcases inner.done_of_visited hg with hold | hdone
    · rcases List.mem_cons.mp hold with rfl | hold
      · exact absurd rfl hopen.2
      · exact hgrey g hold (fun hdone => hopen.1 (inner.done_mono hdone)) y
          (List.mem_cons_of_mem _ hy)
    · exact absurd hdone hopen.1

/-- One walk after another. -/
theorem append {u : Search α} {ys : List α} (h : Walk next s xs t) (h' : Walk next t ys u) :
    Walk next s (xs ++ ys) u := by
  induction h with
  | nil => exact h'
  | seen hx _ ih => exact .seen hx (ih h')
  | enter hx inner _ _ ihrest => exact .enter hx inner (ihrest h')

/-! ## A whole search -/

/-- A search from nothing visits exactly what its root leads to, leaves it once, and leaves the root
last. -/
theorem complete {root : α} (h : Walk next ⟨[], []⟩ [root] t) :
    (∀ y, y ∈ t.done ↔ ReflTransGen (Edge next) root y) ∧ t.done.Nodup ∧
      ∃ front, t.done = front ++ [root] := by
  have hdone : ∀ y ∈ t.visited, y ∈ t.done := fun y hy => by
    rcases h.done_of_visited hy with hy | hy
    · simp at hy
    · exact hy
  refine ⟨fun y => ⟨fun hy => ?_, fun hreach => ?_⟩, h.nodup (by simp) (by simp), ?_⟩
  · rcases h.visited_of_done hy with hy | ⟨-, hy⟩
    · simp at hy
    rcases h.reachable hy with hy | ⟨x, hx, hreach⟩
    · simp at hy
    · obtain rfl := List.mem_singleton.mp hx
      exact hreach
  · induction hreach with
    | refl => exact hdone _ (h.visits List.mem_cons_self)
    | tail _ hedge ih =>
      rcases h.closed ih hedge with hy | hy
      · simp at hy
      · exact hdone _ hy
  · rcases h with _ | ⟨hx, -⟩ | ⟨_, inner, rest⟩
    · simp at hx
    · obtain ⟨-⟩ := rest
      exact ⟨_, rfl⟩

/-- Without a cycle among what the root leads to, every node is left after its successors. -/
theorem complete_ordered {root : α} (h : Walk next ⟨[], []⟩ [root] t)
    (hacyclic : ∀ x, ReflTransGen (Edge next) root x → ¬ TransGen (Edge next) x x) :
    Ordered next t.done := by
  refine h.ordered (P := ReflTransGen (Edge next) root) ?_ hacyclic ?_ (by simp) ?_
  · exact fun x hx y hy => hx.tail hy
  · intro x hx
    obtain rfl := List.mem_singleton.mp hx
    exact .refl
  · intro front y back hsplit
    simp at hsplit

end Walk

end Foundation
