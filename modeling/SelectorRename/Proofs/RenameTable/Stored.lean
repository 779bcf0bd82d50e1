/-
  Tables in files: what was saved is loaded.

  * `Entry.readAll?_writeAll`: the text of some entries is read back as these entries.
  * `TableFile.load_of_save`: loading the path afterwards gives the entries.
-/
import SelectorRename.Proofs.Json.RoundTrip
import SelectorRename.Proofs.RenameTable.Saving

namespace SelectorRename

/-! ## The text of a table -/

/-- An array of values that have a shape has the shape of a list. -/
theorem Shape.list_array_map {α : Type} {item : Shape α} {f : α → Json}
    (h : ∀ a, item (f a) = .ok a) (as : List α) :
    Shape.list item (.array (as.map f)) = .ok as := by
  rw [Shape.list]
  induction as with
  | nil => rfl
  | cons a as ih =>
    rw [List.map_cons, List.mapM_cons, h, ih]
    rfl

namespace Entry

theorem shape_toJson (e : Entry) : shape e.toJson = .ok e := by
  obtain ⟨find, replace, kind⟩ := e
  cases kind <;> rfl

theorem readBack_toJson (e : Entry) : Json.ReadBack e.toJson := by
  refine Json.ReadBack.object fun m hm => ?_
  obtain ⟨⟨key, v⟩, hv, rfl⟩ := List.mem_map.1 hm
  simp only [List.mem_cons, Prod.mk.injEq, List.not_mem_nil, or_false] at hv
  rcases hv with ⟨-, rfl⟩ | ⟨-, rfl⟩ | ⟨-, rfl⟩ <;> exact Json.ReadBack.text _

/-- **The text of some entries** is read back as these entries, in their order. -/
theorem readAll?_writeAll (entries : List Entry) : readAll? (writeAll entries) = some entries := by
  have hv : Json.ReadBack (.array (entries.map toJson)) := by
    refine Json.ReadBack.array fun v hv => ?_
    obtain ⟨e, -, rfl⟩ := List.mem_map.1 hv
    exact e.readBack_toJson
  have hlist := Shape.list_array_map shape_toJson entries
  rw [readAll?, writeAll, hv.parse?_render]
  show (Shape.list shape (.array (entries.map toJson))).toOption = some entries
  rw [hlist]
  rfl

end Entry

/-! ## Saving and loading -/

namespace TableFile

variable {w w' : World} {path : String} {entries : List Entry}

/-- **What was saved is loaded**: after a table was saved, its path holds the entries, all of them
    and in their order, and loading them says nothing in the log. -/
theorem load_of_save
    (h : (save path entries : ExceptT Failure (StateM World) Unit).run.run w = (.ok (), w')) :
    (load path : StateM World (List Entry)).run w' = (entries, w') := by
  obtain ⟨-, u, slot, -, hn, hwrites⟩ | ⟨f, cause, hr, -⟩ := run_save h
  rotate_left
  · cases hr
  have htext : w'.volume.readText path = .ok (Entry.writeAll entries) :=
    Volume.readText_of_find (hwrites.find hn)
  have hread : (Host.readText path : StateM World _).run w' =
      (pure (.ok (Entry.writeAll entries), w') : Id _) := by
    show (pure (w'.volume.readText path, w') : Id _) = _
    rw [htext]
  rw [load, StateT.run_bind, hread, pure_bind]
  simp only [Entry.readAll?_writeAll]
  rfl

/-- The entries of a file that holds the text of some entries. -/
theorem entriesAt_of_fileAt? {v : Volume} {slot : Slot}
    (h : v.fileAt? path = some (slot, (Entry.writeAll entries).toUTF8)) :
    entriesAt v path = entries := by
  rw [entriesAt, Volume.readText_of_find (Volume.fileAt?_eq_some_iff.1 h)]
  simp only [Entry.readAll?_writeAll]
  rfl

/-- Entries with quotes, backslashes, control characters, characters of several bytes, empty texts
    and a repetition. -/
def awkward : List Entry :=
  [⟨"\"\\/\x01\n", "é𝒜\x7f", .cls⟩, ⟨"", "", .id⟩, ⟨"", "", .id⟩]

/-- The directory of the table is created on the way. -/
theorem load_of_save_awkward :
    ∃ w' : World,
      (save "out/t.json" awkward : ExceptT Failure (StateM World) Unit).run.run ⟨.empty, #[]⟩ =
          (.ok (), w') ∧
        w'.volume.directories = Volume.empty.directories.push ⟨2, "out"⟩ ∧
        (load "out/t.json" : StateM World (List Entry)).run w' = (awkward, w') := by
  have hsave :
      (save "out/t.json" awkward : ExceptT Failure (StateM World) Unit).run.run ⟨.empty, #[]⟩ =
        (.ok (), {
          volume :=
            { directories := #[⟨0, ""⟩, ⟨0, "tmp"⟩, ⟨1, ""⟩, ⟨2, "out"⟩]
              nodes := [(⟨0, "tmp"⟩, .directory 1), (⟨1, ""⟩, .directory 2),
                (⟨2, "out"⟩, .directory 3), (⟨3, "t.json"⟩, .file (Entry.writeAll awkward).toUTF8)]
              home := 2 }
          log := #[.savedTable 3 "out/t.json"] }) := rfl
  exact ⟨_, hsave, rfl, load_of_save hsave⟩

end TableFile

end SelectorRename
