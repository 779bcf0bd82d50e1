/-
  Names at the end of a path.

  * `Path.steps_join`: a name below a directory adds one step.
  * `Path.fileName?_spec`: the last component of a path is one name.
-/
import Mathlib.Data.List.Basic
import SelectorRename.Files.Path

namespace SelectorRename.Path

/-! ## Below a directory -/

theorem toList_join {dir : String} (h : dir ≠ "") (name : String) :
    ∃ front, (join dir name).toList = front ++ '/' :: name.toList ∧
      (dir.toList = front ∨ dir.toList = front ++ ['/']) := by
  rw [join, if_neg h]
  split
  next hend =>
    obtain ⟨front, hfront⟩ : ∃ front, dir.toList = front ++ ['/'] :=
      List.getLast?_eq_some_iff.1 (by simpa [endsInSlash] using hend)
    exact ⟨front, by simp [hfront], Or.inr hfront⟩
  next => exact ⟨dir.toList, by simp, Or.inl rfl⟩

theorem steps_of_name {name : String} (hname : name ≠ "") (hslash : '/' ∉ name.toList) :
    steps name = [name] := by
  rw [steps, parts, List.splitOn_eq_singleton hslash]
  simp [hname]

/-- A name below a directory adds a step. -/
theorem steps_join {dir name : String} (hdir : dir ≠ "") (hname : name ≠ "")
    (hslash : '/' ∉ name.toList) : steps (join dir name) = steps dir ++ [name] := by
  obtain ⟨front, hjoin, hfront⟩ := toList_join hdir name
  have hparts : (parts dir).filter (· ≠ []) = (front.splitOn '/').filter (· ≠ []) := by
    rcases hfront with h | h
    · rw [parts, h]
    · rw [parts, h, List.splitOn_append_cons_self]
      simp
  rw [steps, steps, hparts, parts, hjoin, List.splitOn_append_cons_self,
    List.splitOn_eq_singleton hslash]
  simp [hname]

theorem getLast?_steps_join {dir name : String} (hname : name ≠ "") (hslash : '/' ∉ name.toList) :
    (steps (join dir name)).getLast? = some name := by
  by_cases hdir : dir = ""
  · rw [join, if_pos hdir, steps_of_name hname hslash]
    rfl
  · rw [steps_join hdir hname hslash, List.getLast?_concat]

/-! ## The last component -/

theorem not_mem_of_mem_splitOn {sep : Char} {s part : List Char} (h : part ∈ s.splitOn sep) :
    sep ∉ part := by
  induction s generalizing part with
  | nil => simp_all
  | cons c s ih =>
    obtain ⟨head, rest, hs⟩ := List.exists_cons_of_ne_nil (List.splitOn_ne_nil sep s)
    rw [hs] at ih
    rw [List.splitOn_cons_eq_if_modifyHead, hs] at h
    split at h
    next =>
      rcases List.mem_cons.1 h with rfl | h
      · exact List.not_mem_nil
      · exact ih h
    next hc =>
      rcases List.mem_cons.1 h with rfl | h
      · rw [List.mem_cons, not_or]
        exact ⟨fun heq => hc (by simp [heq]), ih List.mem_cons_self⟩
      · exact ih (List.mem_cons_of_mem _ h)

theorem mem_of_mem_settle {ps : List (List Char)} {part : List Char} (h : part ∈ settle ps) :
    part ∈ ps := by
  cases ps with
  | nil => exact h
  | cons first rest =>
    rw [settle] at h
    rcases List.mem_cons.1 h with rfl | h
    · exact List.mem_cons_self
    · exact List.mem_cons_of_mem _
        (List.mem_reverse.1 ((List.dropWhile_sublist _).subset (List.mem_reverse.1 h)))

/-- **The last component of a path** is one name, and no way around. -/
theorem fileName?_spec {path name : String} (h : fileName? path = some name) :
    name ≠ "" ∧ name ≠ "." ∧ name ≠ ".." ∧ '/' ∉ name.toList := by
  rw [fileName?] at h
  split at h
  next last hlast =>
    split at h
    next => cases h
    next hplain =>
      cases h
      have hslash : '/' ∉ last :=
        not_mem_of_mem_splitOn (mem_of_mem_settle (List.mem_of_getLast? hlast))
      simp only [Bool.or_eq_true, decide_eq_true_eq, not_or] at hplain
      obtain ⟨⟨hempty, hdot⟩, hdots⟩ := hplain
      refine ⟨fun h => ?_, fun h => ?_, fun h => ?_, by simpa using hslash⟩
      · exact hempty (by simpa using congrArg String.toList h)
      · exact hdot (by simpa using congrArg String.toList h)
      · exact hdots (by simpa using congrArg String.toList h)
  next => cases h

end SelectorRename.Path
