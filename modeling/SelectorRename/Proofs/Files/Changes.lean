/-
  Changes of a volume in several steps.

  * `Volume.AddsDirectories`: directories were created, and nothing else changed. Creating a directory
    with what is missing above it does no more, even if it fails (`Volume.createDirs_adds`).
  * `Volume.WritesAll`: files were written one after another. What stands in a slot then is what was
    written there last (`WritesAll.get?_eq`).
-/
import SelectorRename.Proofs.Files.Volume

namespace SelectorRename.Volume

variable {v w z : Volume} {path : String}

/-! ## New directories -/

/-- Directories were created, and nothing else changed. -/
structure AddsDirectories (v w : Volume) : Prop where
  home : w.home = v.home
  directories : ∃ more, w.directories = v.directories ++ more
  kept (slot : Slot) (node : Node) : v.get? slot = some node → w.get? slot = some node
  added (slot : Slot) (node : Node) : w.get? slot = some node →
    v.get? slot = some node ∨ ∃ number, node = .directory number

namespace AddsDirectories

theorem refl (v : Volume) : v.AddsDirectories v :=
  ⟨rfl, ⟨#[], by simp⟩, fun _ _ h => h, fun _ _ h => Or.inl h⟩

theorem trans (h : v.AddsDirectories w) (h' : w.AddsDirectories z) : v.AddsDirectories z := by
  obtain ⟨more, hmore⟩ := h.directories
  obtain ⟨more', hmore'⟩ := h'.directories
  refine ⟨h'.home.trans h.home, ⟨more ++ more', ?_⟩, fun slot node hg => ?_, fun slot node hg => ?_⟩
  · rw [hmore', hmore, Array.append_assoc]
  · exact h'.kept slot node (h.kept slot node hg)
  · rcases h'.added slot node hg with hg | hdir
    · exact h.added slot node hg
    · exact Or.inr hdir

/-- The files are the same, with the same contents. -/
theorem file_iff (h : v.AddsDirectories w) {slot : Slot} {bytes : ByteArray} :
    w.get? slot = some (.file bytes) ↔ v.get? slot = some (.file bytes) := by
  constructor
  · intro hg
    rcases h.added slot _ hg with hg | ⟨number, hnode⟩
    · exact hg
    · cases hnode
  · exact h.kept slot _

theorem keepsDirectories (h : v.AddsDirectories w) : v.KeepsDirectories w :=
  ⟨h.home, h.directories, fun slot _ hg => h.kept slot _ hg⟩

end AddsDirectories

/-- A step finds nothing only if it is a name and nothing stands there. -/
theorem enter_eq_notFound {here : ℕ} {step : String} (h : v.enter here step = .error .notFound) :
    step ≠ "." ∧ step ≠ ".." ∧ step.utf8ByteSize ≤ maxName ∧ v.get? ⟨here, step⟩ = none := by
  unfold enter at h
  split_ifs at h with hdot hdots hsize
  · cases h
  · refine ⟨hdot, hdots, Nat.le_of_not_lt hsize, ?_⟩
    split at h
    next => cases h
    next => cases h
    next hg => exact hg

theorem addDirectory_adds {slot : Slot} (hlt : slot.directory < v.directories.size)
    (h : v.get? slot = none) : v.AddsDirectories (v.addDirectory slot hlt) := by
  refine ⟨rfl, ⟨#[slot], Array.push_eq_append⟩, fun other node hg => ?_, fun other node hg => ?_⟩
  · rw [get?_addDirectory, if_neg]
    · exact hg
    · rintro rfl
      rw [h] at hg
      cases hg
  · rw [get?_addDirectory] at hg
    split at hg
    · cases hg
      exact Or.inr ⟨_, rfl⟩
    · exact Or.inl hg

/-- What a step of creating directories does: it enters a directory, it enters a new one, or it is
the last one. -/
theorem createSteps_cons (v : Volume) {here : ℕ} (hhere : here < v.directories.size) (created : Bool)
    (step : String) (rest : List String) :
    (∃ next, ∃ h : v.enter here step = .ok next,
      v.createSteps here hhere created (step :: rest) =
        v.createSteps next (enter_lt_size hhere h) created rest) ∨
    (v.enter here step = .error .notFound ∧
      v.createSteps here hhere created (step :: rest) =
        (v.addDirectory ⟨here, step⟩ hhere).createSteps v.directories.size
          (v.size_lt_addDirectory hhere) true rest) ∨
    ((∀ next, v.enter here step ≠ .ok next) ∧
      ∃ cause, v.createSteps here hhere created (step :: rest) = (.error cause, v)) := by
  rw [createSteps]
  split
  next next henter => exact Or.inl ⟨next, henter, rfl⟩
  next hnone =>
    split
    · exact Or.inr (Or.inr ⟨by simp [hnone], _, rfl⟩)
    · exact Or.inr (Or.inl ⟨hnone, rfl⟩)
  next henter => exact Or.inr (Or.inr ⟨by simp [henter], _, rfl⟩)
  next henter => exact Or.inr (Or.inr ⟨by simp [henter], _, rfl⟩)

theorem createSteps_adds (v : Volume) {here : ℕ} (hhere : here < v.directories.size) (created : Bool)
    (steps : List String) : v.AddsDirectories (v.createSteps here hhere created steps).2 := by
  induction steps generalizing v here created with
  | nil => exact .refl v
  | cons step rest ih =>
    rcases createSteps_cons v hhere created step rest with
      ⟨next, henter, hnext⟩ | ⟨hnone, hnew⟩ | ⟨-, cause, hend⟩
    · rw [hnext]
      exact ih ..
    · rw [hnew]
      exact (addDirectory_adds hhere (enter_eq_notFound hnone).2.2.2).trans (ih ..)
    · rw [hend]
      exact .refl v

/-- **Creating directories does nothing else**, whether it succeeds or not. -/
theorem createDirs_adds (v : Volume) (path : String) : v.AddsDirectories (v.createDirs path).2 := by
  rw [createDirs]
  split
  · exact .refl v
  · split
    · exact createSteps_adds ..
    · exact .refl v

/-! ## Several files -/

/-- Files were written one after another. -/
inductive WritesAll : Volume → List (Slot × ByteArray) → Volume → Prop
  | nil {v : Volume} : WritesAll v [] v
  | cons {v w z : Volume} {slot : Slot} {bytes : ByteArray} {rest : List (Slot × ByteArray)} :
      v.Writes slot bytes w → WritesAll w rest z → WritesAll v ((slot, bytes) :: rest) z

namespace WritesAll

variable {writes : List (Slot × ByteArray)}

theorem home (h : WritesAll v writes w) : w.home = v.home := by
  induction h with
  | nil => rfl
  | cons hw _ ih => exact ih.trans hw.home

theorem directories (h : WritesAll v writes w) : w.directories = v.directories := by
  induction h with
  | nil => rfl
  | cons hw _ ih => exact ih.trans hw.directories

theorem keepsDirectories (h : WritesAll v writes w) : v.KeepsDirectories w := by
  induction h with
  | nil => exact .refl _
  | cons hw _ ih => exact hw.keepsDirectories.trans ih

/-- **What was written last counts**, and a slot that was not written holds what it held. -/
theorem get?_eq (h : WritesAll v writes w) (slot : Slot) :
    w.get? slot = ((writes.reverse.lookup slot).map Node.file).or (v.get? slot) := by
  induction h with
  | nil => rfl
  | @cons v w z written bytes rest hw _ ih =>
    rw [ih, hw.get?_eq, List.reverse_cons, List.lookup_append, lookup_cons_ite, List.lookup_nil]
    cases rest.reverse.lookup slot with
    | some _ => rfl
    | none => split_ifs <;> rfl

theorem get?_of_mem (h : WritesAll v writes w) {x : Slot × ByteArray} (hx : x ∈ writes) :
    ∃ bytes, (x.1, bytes) ∈ writes ∧ w.get? x.1 = some (.file bytes) := by
  cases hlookup : writes.reverse.lookup x.1 with
  | some bytes =>
    refine ⟨bytes, List.mem_reverse.1 (mem_of_lookup_eq_some hlookup), ?_⟩
    rw [h.get?_eq, hlookup]
    rfl
  | none =>
    have hne := List.lookup_eq_none_iff.1 hlookup x (List.mem_reverse.2 hx)
    simp at hne

theorem get?_of_not_mem (h : WritesAll v writes w) {slot : Slot}
    (hslot : ∀ bytes, (slot, bytes) ∉ writes) : w.get? slot = v.get? slot := by
  cases hlookup : writes.reverse.lookup slot with
  | some bytes => exact absurd (List.mem_reverse.1 (mem_of_lookup_eq_some hlookup)) (hslot bytes)
  | none =>
    rw [h.get?_eq, hlookup]
    rfl

/-- A path that named a slot before leads to the text that stands in it now. -/
theorem readText_of_names (h : WritesAll v writes w) {slot : Slot} (hn : v.Names path slot)
    {text : String} (hg : w.get? slot = some (.file text.toUTF8)) : w.readText path = .ok text :=
  readText_of_find (find_eq_file_iff.2 ⟨h.keepsDirectories.names hn, hg⟩)

end WritesAll

end SelectorRename.Volume
