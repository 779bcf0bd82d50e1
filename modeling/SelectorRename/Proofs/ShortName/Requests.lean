/-
  What an allocator gives out, whatever was asked of it before.

  * `Allocator.Request`: names are to be set aside, or a name is to be given out.
  * `Allocator.History`: a new allocator after some requests, with the names that were set aside and
    those that were given out.
  * `Allocator.History.Sound`: the free positions are those of all other names. A request keeps this
    (`Allocator.History.Sound.serve`).
  * `Allocator.History.next_isFirst`: the next name is the first word that was neither set aside nor
    given out, so no name is given out twice and none is longer than it must be.
-/
import SelectorRename.Proofs.ShortName.Shortlex

namespace SelectorRename.Allocator

open ShortName

/-- What is asked of an allocator. -/
inductive Request where
  | reserve (names : List String)
  | next

/-- An allocator and what it was asked for since it was new. -/
structure History where
  allocator : Allocator := {}
  /-- The names that were set aside. -/
  reserved : List String := []
  /-- The names that were given out, in order. -/
  given : List String := []

namespace History

/-- One more request. -/
def serve (h : History) : Request → History
  | .reserve names =>
    { h with allocator := h.allocator.reserve names, reserved := h.reserved ++ names }
  | .next =>
    { h with allocator := h.allocator.alloc.2, given := h.given ++ [h.allocator.alloc.1] }

/-- A new allocator after some requests. -/
def of (requests : List Request) : History := requests.foldl serve {}

/-- The names that cannot be given out any more. -/
def used (h : History) : List String := h.reserved ++ h.given

/-- All names that were neither set aside nor given out are free, and no others. -/
structure Sound (h : History) : Prop where
  free_eq : h.allocator.free = {i | name i ∉ h.used}
  nodup : h.given.Nodup

variable {h : History}

theorem Sound.new : Sound {} where
  free_eq := by simp [free_new, used]
  nodup := List.nodup_nil

/-- The next name is the first one that is not used. -/
theorem Sound.isFirst (hs : h.Sound) : IsFirst (unused h.used) h.allocator.alloc.1.toList := by
  obtain ⟨i, hleast, hname, -⟩ := h.allocator.alloc_spec
  rw [hs.free_eq] at hleast
  rw [hname, name, String.toList_ofList]
  exact isFirst_word hleast

theorem Sound.reserve (hs : h.Sound) (names : List String) : (h.serve (.reserve names)).Sound where
  free_eq := by
    ext i
    simp only [serve, used, free_reserve, hs.free_eq, Set.mem_ofPred_eq, List.mem_append]
    tauto
  nodup := hs.nodup

theorem Sound.next (hs : h.Sound) : (h.serve .next).Sound where
  free_eq := by
    obtain ⟨i, -, hname, hfree⟩ := h.allocator.alloc_spec
    ext j
    simp only [serve, used, hfree, hs.free_eq, hname, Set.mem_sdiff, Set.mem_ofPred_eq,
      Set.mem_singleton_iff, List.mem_append, List.mem_singleton, name_injective.eq_iff]
    tauto
  nodup := by
    have hnew : h.allocator.alloc.1 ∉ h.used := by simpa using hs.isFirst.mem.2
    rw [used, List.mem_append, not_or] at hnew
    refine List.nodup_append.2 ⟨hs.nodup, List.nodup_singleton _, ?_⟩
    rintro a ha b hb rfl
    exact hnew.2 (List.mem_singleton.1 hb ▸ ha)

/-- The step: a request keeps a history sound. -/
theorem Sound.serve (hs : h.Sound) : ∀ r : Request, (h.serve r).Sound
  | .reserve names => hs.reserve names
  | .next => hs.next

/-- The run: every history is sound. -/
theorem sound_of (requests : List Request) : (of requests).Sound := by
  have hrun : ∀ h : History, h.Sound → (requests.foldl History.serve h).Sound := by
    induction requests with
    | nil => exact fun _ hs => hs
    | cons r requests ih => exact fun h hs => ih _ (hs.serve r)
  exact hrun {} .new

/-- **The next name is the first word**, in shortlex order, that was neither set aside nor given out:
    names never repeat, and no shorter word that is free is passed over. -/
theorem next_isFirst (requests : List Request) :
    IsFirst (unused (of requests).used) (of requests).allocator.alloc.1.toList ∧
      (of requests).given.Nodup ∧
      ∀ w ∈ unused (of requests).used, (of requests).allocator.alloc.1.length ≤ w.length := by
  have hfirst := (sound_of requests).isFirst
  refine ⟨hfirst, (sound_of requests).nodup, fun w hw => ?_⟩
  rw [← String.length_toList]
  exact hfirst.length_le hw

-- A name that is set aside too late was given out already.
example :
    (of [.reserve ["b", "B"], .next, .next, .reserve ["a", "d"], .next]).given = ["a", "c", "e"] := by
  decide +kernel

end History

end SelectorRename.Allocator
