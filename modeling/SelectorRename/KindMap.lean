/-
  Values by kind and name.

  * `KindMap`: a search tree of names for each kind.
  * `KindMap.insertNew`: adds a value for a name that has none; the first value of a name counts.
  * `KindMap.get?_insertNew`, `KindMap.get?_empty`: what `KindMap.get?` finds afterwards;
    `KindMap.contains_insertNew`, `KindMap.contains_empty`: which names have a value.
  * `KindMap.get?_of_isEmpty`: without a value nothing is found, and if nothing is found there is no
    value (`KindMap.isEmpty_iff_get?`).
-/
import SelectorRename.Selector
import Std.Data.TreeMap

namespace SelectorRename

/-- Values by bare or written name, for each kind. -/
structure KindMap (α : Type) where
  classes : Std.TreeMap String α
  ids : Std.TreeMap String α

namespace KindMap

variable {α : Type}

/-- No name has a value. -/
def empty : KindMap α := ⟨∅, ∅⟩

/-- The value of a name. -/
def get? (m : KindMap α) (k : Kind) (name : String) : Option α :=
  match k with
  | .cls => m.classes[name]?
  | .id => m.ids[name]?

/-- Whether a name has a value. -/
def contains (m : KindMap α) (k : Kind) (name : String) : Bool := (m.get? k name).isSome

/-- Whether no name has a value. -/
def isEmpty (m : KindMap α) : Bool := m.classes.isEmpty && m.ids.isEmpty

/-- Adds a value for a name, unless the name has one. -/
def insertNew (m : KindMap α) (k : Kind) (name : String) (value : α) : KindMap α :=
  match k with
  | .cls => { m with classes := m.classes.insertIfNew name value }
  | .id => { m with ids := m.ids.insertIfNew name value }

@[simp]
theorem get?_empty (k : Kind) (name : String) : (empty : KindMap α).get? k name = none := by
  cases k <;> simp [empty, get?]

theorem get?_of_isEmpty {m : KindMap α} (h : m.isEmpty = true) (k : Kind) (name : String) :
    m.get? k name = none := by
  simp only [isEmpty, Bool.and_eq_true] at h
  cases k
  · exact Std.TreeMap.getElem?_of_isEmpty h.1
  · exact Std.TreeMap.getElem?_of_isEmpty h.2

/-- Whether a name has a value shows in what is found. -/
theorem isEmpty_iff_get? {m : KindMap α} : m.isEmpty = true ↔ ∀ k name, m.get? k name = none := by
  refine ⟨get?_of_isEmpty, fun h => ?_⟩
  have hnone : ∀ names : Std.TreeMap String α, (∀ name : String, names[name]? = none) →
      names.isEmpty = true := by
    intro names hget
    refine Std.TreeMap.isEmpty_iff_forall_not_mem.2 fun name hmem => ?_
    rw [Std.TreeMap.mem_iff_isSome_getElem?, hget name] at hmem
    cases hmem
  rw [isEmpty, Bool.and_eq_true]
  exact ⟨hnone m.classes (h .cls), hnone m.ids (h .id)⟩

theorem get?_insertNew (m : KindMap α) (k l : Kind) (name other : String) (value : α) :
    (m.insertNew k name value).get? l other =
      if k = l ∧ name = other ∧ m.get? k name = none then some value else m.get? l other := by
  cases k <;> cases l <;>
    simp [insertNew, get?, Std.TreeMap.getElem?_insertIfNew, Std.LawfulEqCmp.compare_eq_iff_eq]

@[simp]
theorem contains_empty (k : Kind) (name : String) : (empty : KindMap α).contains k name = false := by
  simp [contains]

theorem contains_insertNew (m : KindMap α) (k l : Kind) (name other : String) (value : α) :
    (m.insertNew k name value).contains l other = true ↔
      (l, other) = (k, name) ∨ m.contains l other = true := by
  simp only [contains, get?_insertNew, Prod.mk.injEq]
  split
  · next h => simp [h]
  · next h =>
    constructor
    · exact Or.inr
    · rintro (⟨rfl, rfl⟩ | hm)
      · simpa [Option.isSome_iff_ne_none] using h
      · exact hm

end KindMap

end SelectorRename
