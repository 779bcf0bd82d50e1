/-
  A stylesheet that is searched without breaking it into lines.

  * `Stylesheet.Search`: the selectors of one kind that a search from left to right finds in a text.
    Behind each one it goes on after the name.
  * `Stylesheet.search_iff`: they are all that the text shows, since no name has a sigil.
  * `Stylesheet.Broken.map_sighting_flatMap`: lines show what the text shows, because the characters
    where it is broken are in no candidate; `Stylesheet.search_lines_iff`: so the search finds what the
    lines show of its kind.
-/
import SelectorRename.Proofs.Stylesheet.Listing

namespace SelectorRename.Stylesheet

open Text

variable {k : Kind} {text line more : List Char} {lines : List (List Char)} {ss : List Sighting}

/-! ## Searching a text -/

/-- A search through a text for the selectors of one kind: where none begins it goes on with the next
    character, and behind the name of each that it finds. -/
inductive Search (k : Kind) : List Char → List Sighting → Prop
  | nil : Search k [] []
  | pass {c : Char} {text : List Char} {ss : List Sighting} :
      (∀ s : Sighting, s.kind = k → ¬ Opens (c :: text) s) → Search k text ss → Search k (c :: text) ss
  | found {s : Sighting} {text : List Char} {ss : List Sighting} : s.kind = k →
      Opens (s.token ++ text) s → Search k text ss → Search k (s.token ++ text) (s :: ss)

theorem sigil_not_mem_name {name : List Char} (h : ∀ c ∈ name, NameChar c) : k.sigil ∉ name := by
  intro hmem
  have hname := h _ hmem
  cases k <;> exact absurd hname (by decide)

/-- What a text begins with stands first, and behind its name the rest is searched. -/
theorem occurrencesOf_of_startsAt? {c : Char} {o : Occurrence} (h : startsAt? k (c :: text) = some o) :
    c :: text = o.sighting.token ++ o.rest ∧ o.sighting.kind = k ∧
      occurrencesOf k (c :: text) = o :: occurrencesOf k o.rest := by
  rw [startsAt?] at h
  split_ifs at h with hc
  obtain ⟨rfl, -, rfl, hname⟩ := occurrenceAt?_eq_some_iff.1 h
  subst hc
  refine ⟨rfl, rfl, ?_⟩
  rw [occurrencesOf_cons, if_pos rfl, h,
    occurrencesOf_append_of_not_mem (sigil_not_mem_name hname.1)]
  rfl

theorem occurrencesOf_of_startsAt?_eq_none {c : Char} (h : startsAt? k (c :: text) = none) :
    occurrencesOf k (c :: text) = occurrencesOf k text := by
  rw [occurrencesOf_cons_eq, h]
  rfl

theorem startsAt?_eq_none_iff :
    startsAt? k text = none ↔ ∀ s : Sighting, s.kind = k → ¬ Opens text s := by
  rw [Option.eq_none_iff_forall_ne_some]
  constructor
  · intro h s hs hopens
    obtain ⟨o, ho, -⟩ := opens_iff.1 ⟨hs, hopens⟩
    exact h o ho
  · intro h o ho
    obtain ⟨hs, hopens⟩ := opens_iff.2 ⟨o, ho, rfl⟩
    exact h _ hs hopens

/-- **A search finds all that a text shows.** -/
theorem search_iff : Search k text ss ↔ ss = (occurrencesOf k text).map Occurrence.sighting := by
  constructor
  · intro h
    induction h with
    | nil => rfl
    | pass hno _ ih => rw [ih, occurrencesOf_of_startsAt?_eq_none (startsAt?_eq_none_iff.2 hno)]
    | @found s text ss hs hopens _ ih =>
      obtain ⟨o, ho, rfl⟩ := opens_iff.1 ⟨hs, hopens⟩
      obtain ⟨htext, -, hoccs⟩ := occurrencesOf_of_startsAt? ho
      have hcut : o.sighting.token ++ text = o.sighting.token ++ o.rest := htext
      obtain rfl := List.append_cancel_left hcut
      rw [ih]
      exact (congrArg (List.map Occurrence.sighting) hoccs).symm
  · rintro rfl
    induction hn : text.length using Nat.strong_induction_on generalizing text with
    | _ n ih =>
      subst hn
      rcases text with _ | ⟨c, text⟩
      · exact .nil
      · rcases ho : startsAt? k (c :: text) with _ | o
        · rw [occurrencesOf_of_startsAt?_eq_none ho]
          exact .pass (startsAt?_eq_none_iff.1 ho) (ih _ (Nat.lt_succ_self _) rfl)
        · obtain ⟨htext, hkind, hoccs⟩ := occurrencesOf_of_startsAt? ho
          have hopens := (opens_iff.2 ⟨o, ho, rfl⟩).2
          have hlt : o.rest.length < (c :: text).length := by
            rw [htext, List.length_append]
            exact Nat.lt_add_of_pos_left (Nat.succ_pos _)
          rw [hoccs, htext, List.map_cons]
          rw [htext] at hopens
          exact .found hkind hopens (ih _ hlt rfl)

/-! ## Searching its lines -/

/-- A line ends at a line break, before an opening brace or with the text. -/
theorem Broken.exists_more (h : Broken text (line :: lines)) :
    ∃ more, text = line ++ more ∧ ∀ c ∈ more.head?, c = '\n' ∨ c = '{' := by
  generalize hl : line :: lines = ls at h
  induction h generalizing line lines with
  | nil =>
    obtain ⟨rfl, -⟩ := List.cons.inj hl
    exact ⟨[], rfl, by simp⟩
  | newline _ _ =>
    obtain ⟨rfl, -⟩ := List.cons.inj hl
    exact ⟨_, rfl, by simp⟩
  | brace _ _ =>
    obtain ⟨rfl, -⟩ := List.cons.inj hl
    exact ⟨_, rfl, by simp⟩
  | char _ _ _ ih =>
    obtain ⟨rfl, -⟩ := List.cons.inj hl
    obtain ⟨more, rfl, hmore⟩ := ih rfl
    exact ⟨more, rfl, hmore⟩

/-- **The lines of a text show what the text shows.** -/
theorem Broken.map_sighting_flatMap (h : Broken text lines) (k : Kind) :
    (lines.flatMap fun line => (occurrencesOf k line).map Occurrence.sighting) =
      (occurrencesOf k text).map Occurrence.sighting := by
  have hpass : ∀ (c : Char) (t : List Char), c ≠ k.sigil →
      occurrencesOf k (c :: t) = occurrencesOf k t :=
    fun c t hc => occurrencesOf_append_of_not_mem (v := [c]) (by simpa using hc.symm) t
  have hnewline : '\n' ≠ k.sigil := by cases k <;> decide
  have hbrace : '{' ≠ k.sigil := by cases k <;> decide
  induction h with
  | nil => rfl
  | newline _ ih =>
    rw [List.flatMap_cons, ih, hpass _ _ hnewline]
    rfl
  | brace _ ih =>
    rw [List.flatMap_cons] at ih
    rw [List.flatMap_cons, List.flatMap_cons, hpass _ _ hbrace, ih, hpass _ _ hbrace]
    rfl
  | @char c text line lines _ _ hbroken ih =>
    rw [List.flatMap_cons] at ih
    obtain ⟨more, htext, hmore⟩ := hbroken.exists_more
    have hforeign : ∀ c ∈ more.head?, Foreign c := fun c hc => by
      rcases hmore c hc with rfl | rfl <;> decide
    have hhead := map_sighting_startsAt?_append hforeign k c line
    rw [← htext] at hhead
    rw [List.flatMap_cons, occurrencesOf_cons_eq, occurrencesOf_cons_eq, List.map_append,
      List.map_append, List.append_assoc, ih, ← Option.toList_map, ← Option.toList_map, hhead]

theorem kind_of_mem_occurrencesOf {o : Occurrence} (h : o ∈ occurrencesOf k line) : o.kind = k := by
  have hmem := List.mem_map_of_mem (f := Occurrence.sighting) h
  rw [← map_snd_places] at hmem
  obtain ⟨⟨i, s⟩, hp, hs⟩ := List.mem_map.1 hmem
  have hkind := (mem_places.1 hp).1
  rwa [show s = o.sighting from hs] at hkind

/-- The selectors of one kind among all that a line shows. -/
theorem filter_map_sighting_occurrences (k : Kind) (line : List Char) :
    ((occurrences line).map Occurrence.sighting).filter (·.kind = k) =
      (occurrencesOf k line).map Occurrence.sighting := by
  have hkind : ∀ l : Kind, ((occurrencesOf l line).map Occurrence.sighting).filter (·.kind = k) =
      if l = k then (occurrencesOf k line).map Occurrence.sighting else [] := by
    intro l
    split_ifs with hl
    · subst hl
      refine List.filter_eq_self.2 fun s hs => ?_
      obtain ⟨o, ho, rfl⟩ := List.mem_map.1 hs
      exact decide_eq_true (kind_of_mem_occurrencesOf ho)
    · refine List.filter_eq_nil_iff.2 fun s hs => ?_
      obtain ⟨o, ho, rfl⟩ := List.mem_map.1 hs
      rw [decide_eq_true_eq]
      exact fun h => hl ((kind_of_mem_occurrencesOf ho).symm.trans h)
  rw [map_sighting_occurrences, List.map_append, List.filter_append, hkind, hkind]
  cases k <;> simp

/-- What the lines of a stylesheet show of one kind. -/
def shownOf (k : Kind) (text : String) : List Sighting :=
  (((Stylesheet.lines text).flatMap occurrences).map Occurrence.sighting).filter (·.kind = k)

/-- **A search through the whole text finds what its lines show**, in the same order. -/
theorem search_lines_iff {text : String} : Search k text.toList ss ↔ ss = shownOf k text := by
  have hlines : shownOf k text =
      (Stylesheet.lines text).flatMap fun line => (occurrencesOf k line).map Occurrence.sighting := by
    rw [shownOf, List.map_flatMap, List.filter_flatMap]
    exact List.flatMap_congr fun line _ => filter_map_sighting_occurrences k line
  have hbroken : Broken text.toList (Stylesheet.lines text) := broken_iff.2 rfl
  rw [search_iff, hlines, hbroken.map_sighting_flatMap]

end SelectorRename.Stylesheet
