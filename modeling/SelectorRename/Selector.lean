/-
  Selectors: the two kinds of names that a stylesheet declares, and how they are written.

  * `Kind`: classes and ids. `Kind.sigil` is the character that opens a written selector, and
    `Kind.ofSigil?` reads it back (`Kind.ofSigil?_eq_some_iff`).
  * `Kind.token`: a name written as a selector.
  * `Kind.ofToken?`: the kind of a written selector, by its first character.
  * `bareName`: a written selector without its sigil; `Kind.strip` takes away one kind's sigil only.
-/

namespace SelectorRename

/-- What a selector names: a class or an id. -/
inductive Kind where
  | cls
  | id
  deriving DecidableEq, Repr

namespace Kind

/-- The character that opens a written selector of this kind. -/
def sigil : Kind → Char
  | .cls => '.'
  | .id => '#'

/-- The kind that a character opens. -/
def ofSigil? : Char → Option Kind
  | '.' => some .cls
  | '#' => some .id
  | _ => none

theorem ofSigil?_eq_some_iff {c : Char} {k : Kind} : ofSigil? c = some k ↔ c = k.sigil := by
  constructor
  · intro h
    unfold ofSigil? at h
    split at h <;> simp_all [sigil] <;> subst h <;> rfl
  · rintro rfl
    cases k <;> rfl

/-- The kind of a written selector, given by its characters. -/
def ofChars? (token : List Char) : Option Kind := token.head?.bind ofSigil?

/-- The kind of a written selector. -/
def ofToken? (token : String) : Option Kind := ofChars? token.toList

/-- A name written as a selector of this kind. -/
def token (k : Kind) (name : String) : String := String.ofList (k.sigil :: name.toList)

/-- A text without one leading sigil of this kind, if it has one. -/
def strip (k : Kind) (s : String) : String :=
  match s.toList with
  | c :: rest => if c = k.sigil then String.ofList rest else s
  | [] => s

@[simp]
theorem toList_token (k : Kind) (name : String) : (k.token name).toList = k.sigil :: name.toList := by
  simp [token]

@[simp]
theorem strip_token (k : Kind) (name : String) : k.strip (k.token name) = name := by
  simp [strip]

theorem utf8ByteSize_token (k : Kind) (name : String) :
    (k.token name).utf8ByteSize = name.utf8ByteSize + 1 := by
  have hk : (String.singleton k.sigil).utf8ByteSize = 1 := by cases k <;> rfl
  rw [token, String.ofList_cons, String.utf8ByteSize_append, hk, String.ofList_toList]
  omega

/-- The word for this kind. -/
def label : Kind → String
  | .cls => "class"
  | .id => "id"

/-- The kind that a word stands for. -/
def ofLabel? : String → Option Kind
  | "class" => some .cls
  | "id" => some .id
  | _ => none

theorem ofLabel?_label (k : Kind) : ofLabel? k.label = some k := by cases k <;> rfl

end Kind

/-- Characters without the first one if that is a sigil of either kind. -/
def bareChars (s : List Char) : List Char := if (Kind.ofChars? s).isSome then s.tail else s

/-- A text without its first character if that is a sigil of either kind. -/
def bareName (s : String) : String := String.ofList (bareChars s.toList)

end SelectorRename
