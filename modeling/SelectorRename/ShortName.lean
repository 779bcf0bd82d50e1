/-
  Short names: the words over `a` to `z`, numbered from the shortest.

  * `ShortName.word`: the word at a position: `a` to `z`, then `aa`, `ab` and so on. This is the
    numeral system with 26 digits and no zero.
  * `ShortName.position_lt`: a word is long enough for its position, so only finitely many positions
    have a word of a given set.
  * `Allocator`: the next position and the names that must not be given away.
  * `Allocator.alloc`: the first word from there on that is not reserved. A word that was given away
    does not come again because the position only grows.
-/
import Std.Data.TreeSet

namespace SelectorRename

namespace ShortName

/-- The letter with a number below 26. -/
def letter (n : Nat) : Char := Char.ofNat ('a'.toNat + n)

/-- The word at a position. The letters before the last one are the word at an earlier position. -/
def word (position : Nat) : List Char :=
  if position < 26 then [letter position]
  else word (position / 26 - 1) ++ [letter (position % 26)]
  termination_by position

/-- A word is long enough for its position. -/
theorem position_lt (position : Nat) : position < Nat.pow 52 (word position).length := by
  induction position using Nat.strongRecOn with
  | ind n ih =>
    rw [word]
    split
    · simp; omega
    · have h := ih (n / 26 - 1) (by omega)
      simp only [List.length_append, List.length_singleton]
      change _ < Nat.pow 52 _ * 52
      omega

/-- A number that no position with one of the given words reaches. -/
def bound : List String → Nat
  | [] => 0
  | s :: rest => max (Nat.pow 52 s.length) (bound rest)

theorem lt_bound {names : List String} {position : Nat}
    (h : String.ofList (word position) ∈ names) : position < bound names := by
  induction names with
  | nil => cases h
  | cons s rest ih =>
    rw [bound]
    rcases List.mem_cons.1 h with h | h
    · have := position_lt position
      rw [← h, String.length_ofList]
      omega
    · have := ih h
      omega

/-- The first position from `position` on whose word is not reserved. -/
def nextFree (reserved : Std.TreeSet String) (position : Nat) : Nat :=
  if String.ofList (word position) ∈ reserved then nextFree reserved (position + 1) else position
  termination_by bound reserved.toList - position
  decreasing_by
    rename_i h
    have := lt_bound (Std.TreeSet.mem_toList.2 h)
    omega

end ShortName

/-- Gives out short names. -/
structure Allocator where
  position : Nat := 0
  reserved : Std.TreeSet String := ∅

namespace Allocator

/-- Sets names aside. -/
def reserve (a : Allocator) (names : List String) : Allocator :=
  { a with reserved := names.foldl Std.TreeSet.insert a.reserved }

/-- The next short name, and the allocator after it was given out. -/
def alloc (a : Allocator) : String × Allocator :=
  let free := ShortName.nextFree a.reserved a.position
  (String.ofList (ShortName.word free), { a with position := free + 1 })

/-- Gives out `n` short names behind those in `given`, of which the last one comes first. -/
def allocOnto (a : Allocator) (given : List String) : Nat → List String × Allocator
  | 0 => (given.reverse, a)
  | n + 1 =>
    let (name, a) := a.alloc
    a.allocOnto (name :: given) n

/-- The next `n` short names, in order. -/
def allocMany (a : Allocator) (n : Nat) : List String × Allocator := a.allocOnto [] n

end Allocator

end SelectorRename
