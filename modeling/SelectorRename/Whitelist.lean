/-
  The whitelist: names that keep their spelling.

  * `Whitelist`: its entries, none of them empty. An entry protects every name that it begins; one
    written with a sigil protects names of that kind alone.
  * `Whitelist.containsToken` asks for a written selector, `Whitelist.containsName` for a bare name
    of a known kind.
  * `Whitelist.reservedNames`: the bare entries, which no short name may equal.
-/
import SelectorRename.Selector

namespace SelectorRename

/-- Names that keep their spelling, with or without a sigil. -/
structure Whitelist where
  entries : List (List Char)
  ne_nil : ∀ e ∈ entries, e ≠ []

namespace Whitelist

/-- The whitelist of some entries; empty ones protect nothing. -/
def ofList (entries : List String) : Whitelist where
  entries := (entries.map String.toList).filter (· ≠ [])
  ne_nil := by simp

/-- No name is protected. -/
def isEmpty (w : Whitelist) : Bool := w.entries.isEmpty

/-- Whether a written selector is protected: an entry with a sigil is compared with all of it, any
    other with the name after its sigil. -/
def containsToken (w : Whitelist) (token : List Char) : Bool :=
  let bare := bareChars token
  w.entries.any fun entry =>
    entry.isPrefixOf (if (Kind.ofChars? entry).isSome then token else bare)

/-- Whether a bare name of kind `k` is protected. -/
def containsName (w : Whitelist) (k : Kind) (name : String) : Bool :=
  let name := name.toList
  w.entries.any fun entry =>
    match Kind.ofChars? entry with
    | some kind => kind = k && (bareChars entry).isPrefixOf name
    | none => entry.isPrefixOf name

/-- The entries without their sigils, in order. -/
def reservedNames (w : Whitelist) : List String := w.entries.map fun e => String.ofList (bareChars e)

end Whitelist

end SelectorRename
