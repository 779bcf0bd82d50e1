/-
  Replacing the names in the values of an attribute.

  * `Attribute`: its name; `Attribute.marker` is the text before a value, a colon and a quote behind
    the name. The values of `id` are ids, those of any other attribute are class names.
  * `Attribute.renameHead`: the value of names and spaces that the text between two markers begins
    with; without a character that ends the value it is left alone.
  * `Attribute.rename`: all values of a text, from left to right; `Attribute.rename_of_cut?_eq_some`
    says what happens at the first one.
-/
import SelectorRename.Renaming.Report
import SelectorRename.Text.Search

namespace SelectorRename

/-- An attribute whose values hold names. -/
structure Attribute where
  name : String
  deriving DecidableEq, Repr

namespace Attribute

/-- What the values of an attribute name. -/
def kind (a : Attribute) : Kind := if a.name = "id" then .id else .cls

/-- The text before a value. -/
def marker (a : Attribute) : List Char := a.name.toList ++ [':', '"']

/-- A character that a value may have. -/
def isValueChar (c : Char) : Bool := c.isAlphanum || c = '_' || c = '-' || c = ' '

variable (a : Attribute) (d : Dictionary)

/-! ## One value -/

/-- What becomes of the parts of a value between its spaces: each name has a record, and nothing
    between two spaces has none. -/
def judgeParts (value : List Char) : List (Option Record) :=
  (value.splitOn ' ').map fun name =>
    if name = [] then none else some (d.judge a.kind (String.ofList name))

/-- The part of a value that stands in the text afterwards. -/
def writtenPart : Option Record → List Char
  | some r => r.written.toList
  | none => []

/-- What is said about a record. -/
def remark? (r : Record) : Option Message :=
  if r.outcome = .whitelisted then some (.keptName r.find) else none

/-- A value with its names replaced. -/
def renameValue (value : List Char) : Renamed :=
  let parts := a.judgeParts d value
  let records := parts.filterMap id
  ⟨[' '].intercalate (parts.map writtenPart), records, records.filterMap remark?⟩

/-- The value that a fragment begins with, with its names replaced. If nothing ends it, it is left
    as it is. -/
def renameHead (fragment : List Char) : Renamed :=
  let value := fragment.takeWhile isValueChar
  if value = fragment then ⟨value, [], [.unterminatedValue a.name]⟩ else a.renameValue d value

/-! ## A whole text -/

theorem marker_ne_nil : a.marker ≠ [] := by simp [marker]

/-- The values of a text from some place on; the parts of the result in front of it are in `done`,
    the last one first. The text is copied through the next marker, then comes the value, which
    ends before the marker after that one. The search goes on behind the value. -/
def renameFrom (done : List Renamed) (text : List Char) : Renamed :=
  match _h : Text.cut? a.marker text with
  | none => .concat (.copy text :: done).reverse
  | some (before, behind) =>
    let fragment := Text.front a.marker behind
    let value := fragment.takeWhile isValueChar
    renameFrom (a.renameHead d fragment :: .copy (before ++ a.marker) :: done)
      (behind.drop value.length)
  termination_by text.length
  decreasing_by
    have := Text.length_of_cut? _h
    have := List.length_pos_iff.2 a.marker_ne_nil
    simp only [List.length_drop]
    omega

/-- A text with the names of all values replaced. -/
def rename (text : List Char) : Renamed := a.renameFrom d [] text

variable {a d} {text before behind : List Char}

theorem renameFrom_of_cut?_eq_none (h : Text.cut? a.marker text = none) (done : List Renamed) :
    a.renameFrom d done text = .concat (.copy text :: done).reverse := by
  rw [renameFrom]
  split
  · rfl
  · simp_all

theorem renameFrom_of_cut?_eq_some (h : Text.cut? a.marker text = some (before, behind))
    (done : List Renamed) :
    a.renameFrom d done text =
      a.renameFrom d
        (a.renameHead d (Text.front a.marker behind) :: .copy (before ++ a.marker) :: done)
        (behind.drop ((Text.front a.marker behind).takeWhile isValueChar).length) := by
  rw [renameFrom]
  split
  · simp_all
  · next hcut =>
    obtain ⟨rfl, rfl⟩ := Prod.mk.inj (Option.some.inj (h.symm.trans hcut))
    rfl

/-- Induction along the values of a text: what holds without a marker, and of a text if it holds of
    the part behind its first value, holds always. -/
theorem rename_induction {motive : List Char → Prop}
    (none : ∀ text, Text.cut? a.marker text = none → motive text)
    (some : ∀ text before behind, Text.cut? a.marker text = some (before, behind) →
      motive (behind.drop ((Text.front a.marker behind).takeWhile isValueChar).length) →
      motive text)
    (text : List Char) : motive text := by
  induction hn : text.length using Nat.strongRecOn generalizing text with
  | ind n ih =>
    rcases h : Text.cut? a.marker text with _ | ⟨before, behind⟩
    · exact none text h
    · refine some text before behind h (ih _ ?_ _ rfl)
      have := Text.length_of_cut? h
      have := List.length_pos_iff.2 a.marker_ne_nil
      simp only [List.length_drop]
      omega

/-- What is done already stands in front of the result. -/
theorem renameFrom_eq (text : List Char) (done : List Renamed) :
    a.renameFrom d done text = .concat (done.reverse ++ [a.rename d text]) := by
  unfold rename
  induction text using a.rename_induction generalizing done with
  | none text h =>
    rw [renameFrom_of_cut?_eq_none h, renameFrom_of_cut?_eq_none h]
    simp
  | some text before behind h ih =>
    rw [renameFrom_of_cut?_eq_some h, renameFrom_of_cut?_eq_some h, ih, ih [_, _],
      Renamed.concat_append_singleton_concat]
    simp

theorem rename_of_cut?_eq_none (h : Text.cut? a.marker text = none) :
    a.rename d text = .copy text := by
  rw [rename, renameFrom_of_cut?_eq_none h]
  simp

/-- Through the first marker a text stays as it is, then comes a value, and the rest is renamed like
    a text of its own. -/
theorem rename_of_cut?_eq_some (h : Text.cut? a.marker text = some (before, behind)) :
    a.rename d text = .concat [.copy (before ++ a.marker),
      a.renameHead d (Text.front a.marker behind),
      a.rename d (behind.drop ((Text.front a.marker behind).takeWhile isValueChar).length)] := by
  rw [rename, renameFrom_of_cut?_eq_some h, renameFrom_eq]
  simp

end Attribute

end SelectorRename
