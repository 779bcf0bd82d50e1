/-
  Searching a text for a pattern.

  * `Text.cut?`: the text before and after the first occurrence of a pattern.
  * `Text.cut?_cons`: either the text begins with the pattern, or the search goes on behind its first
    character.
  * `Text.eq_of_cut?`: the two parts and the pattern between them make up the text.
  * `Text.front`: the part in front of the first occurrence.
-/

namespace SelectorRename.Text

/-- Looks for a pattern after some characters that were passed, the last one first. -/
def cutFrom? (pattern passed : List Char) : List Char → Option (List Char × List Char)
  | [] => if pattern = [] then some (passed.reverse, []) else none
  | c :: s =>
    if pattern.isPrefixOf (c :: s) then some (passed.reverse, (c :: s).drop pattern.length)
    else cutFrom? pattern (c :: passed) s

/-- The text before and after the first occurrence of `pattern`, if there is one. -/
def cut? (pattern s : List Char) : Option (List Char × List Char) := cutFrom? pattern [] s

variable {p passed s before after : List Char}

theorem cutFrom?_eq (p passed s : List Char) :
    cutFrom? p passed s = (cut? p s).map fun parts => (passed.reverse ++ parts.1, parts.2) := by
  unfold cut?
  induction s generalizing passed with
  | nil => by_cases h : p = [] <;> simp [cutFrom?, h]
  | cons c s ih =>
    by_cases h : p.isPrefixOf (c :: s) = true
    · simp [cutFrom?, h]
    · simp only [cutFrom?, h]
      rw [ih (c :: passed), ih [c]]
      cases cutFrom? p [] s <;> simp

theorem cut?_nil (p : List Char) : cut? p [] = if p = [] then some ([], []) else none := by
  simp [cut?, cutFrom?]

theorem cut?_cons (p : List Char) (c : Char) (s : List Char) :
    cut? p (c :: s) =
      if p.isPrefixOf (c :: s) then some ([], (c :: s).drop p.length)
      else (cut? p s).map fun parts => (c :: parts.1, parts.2) := by
  by_cases h : p.isPrefixOf (c :: s) = true
  · simp [cut?, cutFrom?, h]
  · rw [cut?, cutFrom?, cutFrom?_eq]
    simp [h]

theorem eq_append_drop_of_isPrefixOf (h : p.isPrefixOf s = true) : s = p ++ s.drop p.length := by
  obtain ⟨t, rfl⟩ := List.isPrefixOf_iff_prefix.1 h
  simp

/-- The parts of a cut make up the text. -/
theorem eq_of_cut? (h : cut? p s = some (before, after)) : s = before ++ p ++ after := by
  induction s generalizing before with
  | nil =>
    rw [cut?_nil] at h
    split at h
    · next hp => simp_all
    · cases h
  | cons c s ih =>
    rw [cut?_cons] at h
    split at h
    · next hp =>
      simp only [Option.some.injEq, Prod.mk.injEq] at h
      obtain ⟨rfl, rfl⟩ := h
      simpa using eq_append_drop_of_isPrefixOf hp
    · simp only [Option.map_eq_some_iff, Prod.mk.injEq, Prod.exists] at h
      obtain ⟨b, a, hcut, rfl, rfl⟩ := h
      simp [ih hcut]

/-- A cut divides the length of a text. -/
theorem length_of_cut? (h : cut? p s = some (before, after)) :
    s.length = before.length + p.length + after.length := by
  simp [eq_of_cut? h, Nat.add_assoc]

/-- The text before the first occurrence of `pattern`, all of it if there is none. -/
def front (pattern s : List Char) : List Char :=
  match cut? pattern s with
  | some (before, _) => before
  | none => s

end SelectorRename.Text
