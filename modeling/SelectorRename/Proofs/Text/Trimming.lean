/-
  Trimming a text, said by its blanks.

  * `Trimmed`: a text between two runs of blanks that are as long as possible; `trimmed_iff`: trimming
    finds it.
  * `trim_prefix_append`: what is left of a text still comes first when more text follows.
-/
import SelectorRename.Proofs.Text.Runs

namespace SelectorRename.Text

variable {s text : List Char}

/-- In `s`, all blanks at both ends aside, `text` is left: the blanks behind it are the longest run
    there, read from the right. -/
def Trimmed (s text : List Char) : Prop :=
  ∃ front back, s = front ++ (text ++ back) ∧ Longest (isBlank · = true) front (text ++ back) ∧
    Longest (isBlank · = true) back.reverse text.reverse

theorem trimRight_of_longest {back : List Char}
    (h : Longest (isBlank · = true) back.reverse text.reverse) : trimRight (text ++ back) = text := by
  rw [trimRight, List.reverse_append, h.dropWhile_eq fun _ => Iff.rfl, List.reverse_reverse]

theorem trimmed_trim (s : List Char) : Trimmed s (trim s) := by
  have hfront := longest_takeWhile (p := isBlank) (fun _ => Iff.rfl) s
  have hback := longest_takeWhile (p := isBlank) (fun _ => Iff.rfl) (s.dropWhile isBlank).reverse
  have hsplit : trim s ++ ((s.dropWhile isBlank).reverse.takeWhile isBlank).reverse =
      s.dropWhile isBlank := by
    rw [trim, trimRight, ← List.reverse_append, List.takeWhile_append_dropWhile, List.reverse_reverse]
  refine ⟨s.takeWhile isBlank, ((s.dropWhile isBlank).reverse.takeWhile isBlank).reverse, ?_, ?_, ?_⟩
  · rw [hsplit, List.takeWhile_append_dropWhile]
  · rwa [hsplit]
  · rwa [List.reverse_reverse, trim, trimRight, List.reverse_reverse]

/-- **Trimming finds what is left.** -/
theorem trimmed_iff : Trimmed s text ↔ trim s = text := by
  constructor
  · rintro ⟨front, back, rfl, hfront, hback⟩
    rw [trim, hfront.dropWhile_eq fun _ => Iff.rfl, trimRight_of_longest hback]
  · rintro rfl
    exact trimmed_trim s

/-- Blanks are only cut off behind a text that does not end with one. -/
theorem prefix_trimRight_append (h : Longest (isBlank · = true) [] text.reverse) (more : List Char) :
    text <+: trimRight (text ++ more) := by
  have hkeep : text.reverse.dropWhile isBlank = text.reverse := by
    simpa using h.dropWhile_eq (p := isBlank) fun _ => Iff.rfl
  rw [trimRight, List.reverse_append, List.dropWhile_append, hkeep]
  split_ifs
  · simp
  · rw [List.reverse_append, List.reverse_reverse]
    exact List.prefix_append ..

/-- **What trimming leaves stays in front** when more text follows: blanks that were cut off at the
    end now stand behind it, and none of them at the beginning comes back. -/
theorem trim_prefix_append (h : trim s ≠ []) (more : List Char) : trim s <+: trim (s ++ more) := by
  obtain ⟨front, back, hs, hfront, hback⟩ := trimmed_trim s
  obtain ⟨c, t, htext⟩ := List.exists_cons_of_ne_nil h
  rw [htext] at hs hfront hback ⊢
  have hlong : Longest (isBlank · = true) front (c :: t ++ (back ++ more)) :=
    ⟨hfront.1, hfront.2⟩
  rw [hs, List.append_assoc, List.append_assoc, trim, hlong.dropWhile_eq fun _ => Iff.rfl]
  exact prefix_trimRight_append ⟨by simp, hback.2⟩ (back ++ more)

end SelectorRename.Text
