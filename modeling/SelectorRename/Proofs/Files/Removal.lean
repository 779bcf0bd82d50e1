/-
  Files that are taken away.

  * `Volume.Drops`: the files that some paths lead to were taken away, and nothing else changed. The
    directories stay, so every other path leads where it led (`Drops.fileAt?_eq_some_iff`).
  * `Volume.Drops.trans`: files are taken away one after another.
  * `Volume.drops_of_remove`, `Volume.drops_of_error`: taking a file away does that, and so does finding
    none.
-/
import SelectorRename.Proofs.Files.Volume

namespace SelectorRename.Volume

variable {v w z : Volume} {path : String} {paths more : List String}

/-- A slot whose file one of some paths leads to. -/
def IsNamedBy (v : Volume) (paths : List String) (slot : Slot) : Prop :=
  ∃ path ∈ paths, ∃ bytes, v.fileAt? path = some (slot, bytes)

theorem isNamedBy_append {slot : Slot} :
    v.IsNamedBy (paths ++ more) slot ↔ v.IsNamedBy paths slot ∨ v.IsNamedBy more slot := by
  simp only [IsNamedBy, List.mem_append, or_and_right, exists_or]

theorem IsNamedBy.exists_file {slot : Slot} (h : v.IsNamedBy paths slot) :
    ∃ bytes, v.get? slot = some (.file bytes) := by
  obtain ⟨path, -, bytes, hat⟩ := h
  exact ⟨bytes, (find_eq_file_iff.1 (fileAt?_eq_some_iff.1 hat)).2⟩

/-- The files that some paths lead to were taken away, and nothing else changed. -/
structure Drops (v : Volume) (paths : List String) (w : Volume) : Prop where
  home : w.home = v.home
  directories : w.directories = v.directories
  gone (slot : Slot) : v.IsNamedBy paths slot → w.get? slot = none
  kept (slot : Slot) : ¬ v.IsNamedBy paths slot → w.get? slot = v.get? slot

namespace Drops

theorem keepsDirectories (h : v.Drops paths w) : v.KeepsDirectories w := by
  refine ⟨h.home, ⟨#[], by rw [h.directories, Array.append_empty]⟩, fun slot number hg => ?_⟩
  rw [h.kept slot, hg]
  intro hnamed
  obtain ⟨bytes, hfile⟩ := hnamed.exists_file
  rw [hg] at hfile
  cases hfile

/-- No directory was created either. -/
theorem keepsDirectories_back (h : v.Drops paths w) : w.KeepsDirectories v := by
  refine ⟨h.home.symm, ⟨#[], by rw [h.directories, Array.append_empty]⟩, fun slot number hg => ?_⟩
  by_cases hnamed : v.IsNamedBy paths slot
  · rw [h.gone slot hnamed] at hg
    cases hg
  · rw [← h.kept slot hnamed, hg]

/-- A path leads to a file afterwards if it did so before and the file is not one of those. -/
theorem fileAt?_eq_some_iff (h : v.Drops paths w) {slot : Slot} {bytes : ByteArray} :
    w.fileAt? path = some (slot, bytes) ↔
      v.fileAt? path = some (slot, bytes) ∧ ¬ v.IsNamedBy paths slot := by
  simp only [Volume.fileAt?_eq_some_iff, find_eq_file_iff]
  constructor
  · rintro ⟨hn, hg⟩
    have hkept : ¬ v.IsNamedBy paths slot := by
      intro hnamed
      rw [h.gone slot hnamed] at hg
      cases hg
    exact ⟨⟨h.keepsDirectories_back.names hn, h.kept slot hkept ▸ hg⟩, hkept⟩
  · rintro ⟨⟨hn, hg⟩, hkept⟩
    exact ⟨h.keepsDirectories.names hn, (h.kept slot hkept).trans hg⟩

theorem isNamedBy_iff (h : v.Drops paths w) {slot : Slot} :
    w.IsNamedBy more slot ↔ v.IsNamedBy more slot ∧ ¬ v.IsNamedBy paths slot := by
  simp only [IsNamedBy, h.fileAt?_eq_some_iff, ← and_assoc, exists_and_right]

theorem trans (h : v.Drops paths w) (h' : w.Drops more z) : v.Drops (paths ++ more) z where
  home := h'.home.trans h.home
  directories := h'.directories.trans h.directories
  gone slot hnamed := by
    by_cases hfirst : v.IsNamedBy paths slot
    · -- the slot is free already, so no path leads to a file there
      rw [h'.kept slot fun hsecond => (h.isNamedBy_iff.1 hsecond).2 hfirst, h.gone slot hfirst]
    · have hsecond := (isNamedBy_append.1 hnamed).resolve_left hfirst
      exact h'.gone slot (h.isNamedBy_iff.2 ⟨hsecond, hfirst⟩)
  kept slot hnamed := by
    rw [isNamedBy_append, not_or] at hnamed
    rw [h'.kept slot fun hsecond => hnamed.2 (h.isNamedBy_iff.1 hsecond).1, h.kept slot hnamed.1]

end Drops

/-! ## Taking one file away -/

theorem isNamedBy_singleton {slot : Slot} :
    v.IsNamedBy [path] slot ↔ ∃ bytes, v.fileAt? path = some (slot, bytes) := by
  simp only [IsNamedBy, List.mem_singleton, exists_eq_left]

/-- What was done if a file was taken away. -/
theorem remove_eq_ok (h : v.remove path = .ok w) :
    ∃ slot bytes, v.find path = .ok (.file slot bytes) ∧ w = v.erase slot := by
  simp only [remove, bind, Except.bind, throw, throwThe, MonadExceptOf.throw, pure, Except.pure] at h
  split at h
  next => cases h
  next place hl =>
    obtain ⟨dir, step⟩ := place
    simp only at h
    split at h
    next => cases h
    next name hp =>
      obtain ⟨rfl, hdot, hdots⟩ := plainName?_eq_some_iff.1 hp
      split at h
      next => cases h
      next hsize =>
        split at h
        next => cases h
        next => cases h
        next bytes hg =>
          split at h
          next => cases h
          next hend =>
            cases h
            refine ⟨⟨dir, name⟩, bytes, find_eq_file_iff.2 ⟨⟨hl, hdot, hdots, ?_, ?_⟩, hg⟩, rfl⟩
            · exact Nat.le_of_not_lt hsize
            · simpa using hend

/-- A file that is taken away is the one that the path leads to. -/
theorem drops_of_remove (h : v.remove path = .ok w) : v.Drops [path] w := by
  obtain ⟨slot, bytes, hfind, rfl⟩ := remove_eq_ok h
  have hnamed : ∀ other, v.IsNamedBy [path] other ↔ other = slot := by
    intro other
    rw [isNamedBy_singleton, fileAt?, hfind]
    simp only [Option.some.injEq, Prod.mk.injEq, exists_and_left, exists_eq', and_true]
    exact eq_comm
  refine ⟨rfl, rfl, fun other hother => ?_, fun other hother => ?_⟩
  · rw [get?_erase, if_pos ((hnamed other).1 hother)]
  · rw [get?_erase, if_neg (mt (hnamed other).2 hother)]

/-- A file that can be found can be taken away. -/
theorem remove_of_find {slot : Slot} {bytes : ByteArray} (h : v.find path = .ok (.file slot bytes)) :
    v.remove path = .ok (v.erase slot) := by
  obtain ⟨hn, hg⟩ := find_eq_file_iff.1 h
  have hp : plainName? (some slot.name) = some slot.name :=
    plainName?_eq_some_iff.2 ⟨rfl, hn.notHere, hn.notAbove⟩
  simp only [remove, hn.located, bind, Except.bind, hp, if_neg (Nat.not_lt.2 hn.size), hg, hn.noSlash]
  rfl

/-- If there is nothing to take away, the path leads to no file. -/
theorem drops_of_error {cause : OsError} (h : v.remove path = .error cause) : v.Drops [path] v := by
  have hnone : ∀ slot, ¬ v.IsNamedBy [path] slot := by
    intro slot hnamed
    obtain ⟨bytes, hat⟩ := isNamedBy_singleton.1 hnamed
    rw [remove_of_find (Volume.fileAt?_eq_some_iff.1 hat)] at h
    cases h
  exact ⟨rfl, rfl, fun slot hnamed => absurd hnamed (hnone slot), fun _ _ => rfl⟩

end SelectorRename.Volume
