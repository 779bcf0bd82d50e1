/-
  What renaming the values of an attribute does to a text.

  * `Dictionary.Renames`: what becomes of one name, in three rules.
  * `Attribute.RenamesValue`, `Attribute.RenamesFragment`: what becomes of a value, name by name, and
    of the text behind a marker, in which the value is the longest beginning of value characters.
  * `Attribute.RenamesText`: what becomes of a whole text, piece by piece.
  * `Attribute.andThen_rename_iff`: the search from value to value does this and nothing else, with
    exactly one record for each name.
-/
import SelectorRename.Renaming.Attribute
import SelectorRename.Proofs.Text.Pieces
import SelectorRename.Proofs.Text.Runs

namespace SelectorRename

/-! ## One name -/

/-- What becomes of a name of kind `k`: the name, what stands in its place and its record. -/
inductive Dictionary.Renames (d : Dictionary) (k : Kind) : List Char → List Char → Record → Prop
  | kept {name : List Char} : d.keeps k (String.ofList name) = true →
      Renames d k name name ⟨String.ofList name, none, k, .whitelisted⟩
  | replaced {name : List Char} {short : String} : d.keeps k (String.ofList name) = false →
      d.lookup.get? k (String.ofList name) = some short →
      Renames d k name short.toList ⟨String.ofList name, some short, k, .replaced⟩
  | unknown {name : List Char} : d.keeps k (String.ofList name) = false →
      d.lookup.get? k (String.ofList name) = none →
      Renames d k name name ⟨String.ofList name, none, k, .unknown⟩

theorem Dictionary.renames_iff {d : Dictionary} {k : Kind} {name written : List Char} {r : Record} :
    d.Renames k name written r ↔
      (d.judge k (String.ofList name)).written.toList = written ∧
        d.judge k (String.ofList name) = r := by
  constructor
  · rintro (h | ⟨h, hget⟩ | ⟨h, hget⟩)
    · simp [judge, h, Record.written]
    · simp [judge, h, hget, Record.written]
    · simp [judge, h, hget, Record.written]
  · rintro ⟨rfl, rfl⟩
    rcases h : d.keeps k (String.ofList name) with _ | _
    · rcases hget : d.lookup.get? k (String.ofList name) with _ | short
      · simpa [judge, h, hget, Record.written] using Renames.unknown h hget
      · simpa [judge, h, hget, Record.written] using Renames.replaced h hget
    · simpa [judge, h, Record.written] using Renames.kept h

namespace Attribute

variable (a : Attribute) (d : Dictionary)

/-! ## One value -/

/-- What becomes of a value: spaces stay, and each name, up to the next space or to the end, is
    renamed on its own. -/
inductive RenamesValue : List Char → List Char → List Record → Prop
  | nil : RenamesValue [] [] []
  | space {v w : List Char} {rs : List Record} : RenamesValue v w rs →
      RenamesValue (' ' :: v) (' ' :: w) rs
  | name {name written v w : List Char} {r : Record} {rs : List Record} : name ≠ [] → ' ' ∉ name →
      (∀ c ∈ v.head?, c = ' ') → d.Renames a.kind name written r → RenamesValue v w rs →
      RenamesValue (name ++ v) (written ++ w) (r :: rs)

variable {a d} {v w : List Char} {rs : List Record}

theorem renameValue_nil : (a.renameValue d []).content = [] ∧ (a.renameValue d []).records = [] := by
  simp [renameValue, judgeParts, writtenPart]

/-- The first part of a value, which may be empty, is renamed apart from the others. -/
theorem renameValue_of_judgeParts {u : List Char} (part : Option Record)
    (hu : a.judgeParts d u = part :: a.judgeParts d v) :
    (a.renameValue d u).content = writtenPart part ++ ' ' :: (a.renameValue d v).content ∧
      (a.renameValue d u).records = part.toList ++ (a.renameValue d v).records := by
  have hne : (a.judgeParts d v).map writtenPart ≠ [] := by
    simp [judgeParts, List.splitOn_ne_nil]
  constructor
  · simp only [renameValue, hu, List.map_cons]
    rw [List.intercalate_cons_of_ne_nil hne]
    simp
  · cases part <;> simp [renameValue, hu]

theorem renameValue_space :
    (a.renameValue d (' ' :: v)).content = ' ' :: (a.renameValue d v).content ∧
      (a.renameValue d (' ' :: v)).records = (a.renameValue d v).records := by
  have hsplit := List.splitOn_append_cons_self_of_not_mem (List.not_mem_nil (a := ' ')) v
  rw [List.nil_append] at hsplit
  exact renameValue_of_judgeParts none (by simp [judgeParts, hsplit])

theorem renameValue_name {name : List Char} (hne : name ≠ []) (hname : ' ' ∉ name)
    (hv : ∀ c ∈ v.head?, c = ' ') :
    (a.renameValue d (name ++ v)).content =
        (d.judge a.kind (String.ofList name)).written.toList ++ (a.renameValue d v).content ∧
      (a.renameValue d (name ++ v)).records =
        d.judge a.kind (String.ofList name) :: (a.renameValue d v).records := by
  rcases v with _ | ⟨c, v⟩
  · simp [renameValue, judgeParts, writtenPart, List.splitOn_eq_singleton hname, hne]
  · obtain rfl : c = ' ' := hv c rfl
    obtain ⟨hcontent, hrecords⟩ := renameValue_space (a := a) (d := d) (v := v)
    rw [hcontent, hrecords]
    refine renameValue_of_judgeParts (some (d.judge a.kind (String.ofList name))) ?_
    simp [judgeParts, List.splitOn_append_cons_self_of_not_mem hname, hne]

/-- What does not begin with a space begins with a name. -/
theorem exists_name {c : Char} {u : List Char} (hv : v = c :: u) (hc : c ≠ ' ') :
    ∃ name rest, name ≠ [] ∧ ' ' ∉ name ∧ (∀ x ∈ rest.head?, x = ' ') ∧ v = name ++ rest := by
  refine ⟨v.takeWhile (· ≠ ' '), v.dropWhile (· ≠ ' '), ?_, ?_, ?_, ?_⟩
  · simp [hv, hc]
  · intro hmem
    simpa using List.mem_takeWhile_imp hmem
  · intro x hx
    have := List.head?_dropWhile_not (· ≠ ' ') v
    simp_all
  · exact List.takeWhile_append_dropWhile.symm

theorem renamesValue_iff :
    a.RenamesValue d v w rs ↔
      (a.renameValue d v).content = w ∧ (a.renameValue d v).records = rs := by
  constructor
  · intro h
    induction h with
    | nil => exact renameValue_nil
    | space _ ih =>
      obtain ⟨rfl, rfl⟩ := ih
      exact renameValue_space
    | name hne hname hv hr _ ih =>
      obtain ⟨rfl, rfl⟩ := ih
      obtain ⟨rfl, rfl⟩ := Dictionary.renames_iff.1 hr
      exact renameValue_name hne hname hv
  · rintro ⟨rfl, rfl⟩
    -- The value is taken apart from the left: a space, or a name and what stands behind it.
    induction hn : v.length using Nat.strong_induction_on generalizing v with
    | _ n ih =>
      subst hn
      rcases hv : v with _ | ⟨c, u⟩
      · obtain ⟨hcontent, hrecords⟩ := renameValue_nil (a := a) (d := d)
        rw [hcontent, hrecords]
        exact .nil
      · by_cases hc : c = ' '
        · subst hc
          obtain ⟨hcontent, hrecords⟩ := renameValue_space (a := a) (d := d) (v := u)
          rw [hcontent, hrecords]
          exact .space (ih _ (by simp [hv]) rfl)
        · obtain ⟨name, rest, hne, hname, hrest, rfl⟩ := exists_name hv hc
          obtain ⟨hcontent, hrecords⟩ := renameValue_name (a := a) (d := d) hne hname hrest
          rw [← hv, hcontent, hrecords]
          have hlt : rest.length < (name ++ rest).length := by
            have := List.length_pos_iff.2 hne
            simp only [List.length_append]
            omega
          exact .name hne hname hrest (Dictionary.renames_iff.2 ⟨rfl, rfl⟩) (ih _ hlt rfl)

/-! ## The text behind a marker -/

/-- A letter, a digit, an underscore, a hyphen or a space. -/
def ValueChar (c : Char) : Prop :=
  'A' ≤ c ∧ c ≤ 'Z' ∨ 'a' ≤ c ∧ c ≤ 'z' ∨ '0' ≤ c ∧ c ≤ '9' ∨ c = '_' ∨ c = '-' ∨ c = ' '

theorem isValueChar_iff {c : Char} : isValueChar c = true ↔ ValueChar c := by
  simp only [isValueChar, Bool.or_eq_true, decide_eq_true_eq, Text.isAlphanum_iff, Text.Alnum,
    ValueChar, or_assoc]

variable (a d) in
/-- What becomes of the text from behind a marker to the next one. If other characters follow the
    value, its names are renamed; a value up to the end is left alone. -/
inductive RenamesFragment : List Char → List Char → List Record → Prop
  | unterminated {p : List Char} : (∀ x ∈ p, ValueChar x) → RenamesFragment p p []
  | value {v w rest : List Char} {c : Char} {rs : List Record} : (∀ x ∈ v, ValueChar x) →
      ¬ ValueChar c → a.RenamesValue d v w rs → RenamesFragment (v ++ c :: rest) (w ++ c :: rest) rs

variable {p q rest : List Char} {c : Char}

theorem takeWhile_of_forall (hp : ∀ x ∈ p, ValueChar x) : p.takeWhile isValueChar = p :=
  List.takeWhile_eq_self_iff.2 fun x hx => isValueChar_iff.2 (hp x hx)

theorem takeWhile_append_cons (hv : ∀ x ∈ v, ValueChar x) (hc : ¬ ValueChar c) :
    (v ++ c :: rest).takeWhile isValueChar = v :=
  (Text.longest_cons hv hc rest).takeWhile_eq fun _ => isValueChar_iff

theorem forall_or_exists_end (p : List Char) :
    (∀ x ∈ p, ValueChar x) ∨
      ∃ v c rest, p = v ++ c :: rest ∧ (∀ x ∈ v, ValueChar x) ∧ ¬ ValueChar c := by
  induction p with
  | nil => simp
  | cons x p ih =>
    by_cases hx : ValueChar x
    · rcases ih with hp | ⟨v, c, rest, rfl, hv, hc⟩
      · exact .inl (by simpa [hx] using hp)
      · exact .inr ⟨x :: v, c, rest, rfl, by simpa [hx] using hv, hc⟩
    · exact .inr ⟨[], x, p, rfl, by simp, hx⟩

theorem renamesFragment_iff :
    a.RenamesFragment d p q rs ↔
      (a.renameHead d p).content ++ p.drop (p.takeWhile isValueChar).length = q ∧
        (a.renameHead d p).records = rs := by
  constructor
  · rintro (hp | ⟨hv, hc, h⟩)
    · simp [renameHead, takeWhile_of_forall hp]
    · obtain ⟨rfl, rfl⟩ := renamesValue_iff.1 h
      simp [renameHead, takeWhile_append_cons hv hc]
  · rintro ⟨rfl, rfl⟩
    rcases forall_or_exists_end p with hp | ⟨v, c, rest, rfl, hv, hc⟩
    · simpa [renameHead, takeWhile_of_forall hp] using RenamesFragment.unterminated hp
    · simpa [renameHead, takeWhile_append_cons hv hc] using
        RenamesFragment.value hv hc (renamesValue_iff.2 ⟨rfl, rfl⟩)

/-! ## A whole text -/

variable (a d) in
/-- What becomes of the pieces behind the markers, each one on its own. -/
inductive RenamesFragments : List (List Char) → List (List Char) → List Record → Prop
  | nil : RenamesFragments [] [] []
  | cons {p q : List Char} {ps qs : List (List Char)} {rs rs' : List Record} :
      a.RenamesFragment d p q rs → RenamesFragments ps qs rs' →
      RenamesFragments (p :: ps) (q :: qs) (rs ++ rs')

variable (a d) in
/-- What becomes of a text: it falls into pieces at the markers, of which the first one stays. -/
def RenamesText (text out : List Char) (records : List Record) : Prop :=
  ∃ p ps qs, Text.Pieces a.marker text (p :: ps) ∧ a.RenamesFragments d ps qs records ∧
    out = a.marker.intercalate (p :: qs)

theorem intercalate_cons_append (m p q : List Char) (ps : List (List Char)) :
    m.intercalate ((p ++ q) :: ps) = p ++ m.intercalate (q :: ps) := by
  cases ps <;> simp [List.intercalate_cons_cons]

theorem exists_renamesFragments (ps : List (List Char)) :
    ∃ qs records, a.RenamesFragments d ps qs records := by
  induction ps with
  | nil => exact ⟨[], [], .nil⟩
  | cons p ps ih =>
    obtain ⟨qs, records, h⟩ := ih
    exact ⟨_, _, .cons (renamesFragment_iff.2 ⟨rfl, rfl⟩) h⟩

theorem rename_of_pieces {text : List Char} {ps qs : List (List Char)} {records : List Record}
    (hp : Text.Pieces a.marker text (p :: ps)) (hq : a.RenamesFragments d ps qs records) :
    (a.rename d text).content = a.marker.intercalate (p :: qs) ∧
      (a.rename d text).records = records := by
  induction text using a.rename_induction generalizing p ps qs records with
  | none text hcut =>
    obtain ⟨rfl, rfl⟩ := List.cons.inj (hp.of_cut?_eq_none hcut)
    cases hq
    rw [rename_of_cut?_eq_none hcut]
    simp [Renamed.copy]
  | some text before behind hcut ih =>
    obtain ⟨rfl, hps⟩ := hp.of_cut?_eq_some hcut
    cases hq with
    | nil => cases hps
    | cons hfirst hq =>
      -- The search goes on inside the first fragment, whose other characters come first then.
      obtain ⟨rfl, rfl⟩ := renamesFragment_iff.1 hfirst
      rw [hps.front_eq] at ih
      obtain ⟨hcontent, hrecords⟩ := ih (hps.drop (List.takeWhile_prefix _)) hq
      rw [rename_of_cut?_eq_some hcut, hps.front_eq]
      constructor
      · rw [List.intercalate_cons_cons, intercalate_cons_append, ← hcontent]
        simp [Renamed.concat, Renamed.copy]
      · simp [Renamed.concat, Renamed.copy, hrecords]

/-- **Renaming the values of an attribute is renaming the pieces of the text**, and the records go
    behind those that are there already, one for each name. -/
theorem andThen_rename_iff (sofar : Renamed) (out : List Char) (records : List Record) :
    (sofar.andThen (a.rename d)).content = out ∧
        (sofar.andThen (a.rename d)).records = sofar.records ++ records ↔
      a.RenamesText d sofar.content out records := by
  have hrecords : (sofar.andThen (a.rename d)).records = sofar.records ++ records ↔
      (a.rename d sofar.content).records = records := by
    simp [Renamed.andThen]
  rw [hrecords]
  constructor
  · rintro ⟨rfl, rfl⟩
    obtain ⟨p, ps, hp⟩ := Text.exists_pieces a.marker_ne_nil sofar.content
    obtain ⟨qs, records, hq⟩ := exists_renamesFragments (a := a) (d := d) ps
    obtain ⟨hcontent, hrecords⟩ := rename_of_pieces hp hq
    exact ⟨p, ps, qs, hp, hrecords ▸ hq, hcontent⟩
  · rintro ⟨p, ps, qs, hp, hq, rfl⟩
    exact rename_of_pieces hp hq

-- The next marker follows the first value, which has no end and is left alone.
example :
    let r := (⟨"id"⟩ : Attribute).rename
      ⟨Lookup.ofEntries [⟨"x", "a", .id⟩], fun _ name => name = "z"⟩ "id:\"x id:\"x  y z\"".toList
    r.content = "id:\"x id:\"a  y z\"".toList ∧
      r.records = [⟨"x", some "a", .id, .replaced⟩, ⟨"y", none, .id, .unknown⟩,
        ⟨"z", none, .id, .whitelisted⟩] := by
  decide +kernel

end Attribute

end SelectorRename
