/-
  All states of an extraction.

  * `firstOfEach`: of the entries of each kind and text the first one, in order.
  * `Extraction.Reached`: the states that an extraction goes through, from its start on and between
    any two occurrences. Every scan leads to one (`Extraction.Reached.scanLines`).
  * `Extraction.Described`: what its entries are, what it knows and which names it gave out;
    `Extraction.Reached.described`: this holds in every state, whatever entries it started from.
-/
import SelectorRename.Proofs.Extraction.Naming

namespace SelectorRename

/-! ## The entries that count -/

/-- The entries whose kind and text no entry before them has. -/
def firstOfEach (es : List Entry) : List Entry :=
  (List.range es.length).filterMap fun i =>
    es[i]?.filter fun e => e.key ∉ (es.take i).map Entry.key

theorem firstOfEach_append_singleton (es : List Entry) (e : Entry) :
    firstOfEach (es ++ [e]) =
      firstOfEach es ++ if e.key ∈ es.map Entry.key then [] else [e] := by
  have hbefore : ∀ i ∈ List.range es.length,
      ((es ++ [e])[i]?.filter fun f => f.key ∉ ((es ++ [e]).take i).map Entry.key) =
        es[i]?.filter fun f => f.key ∉ (es.take i).map Entry.key := by
    intro i hi
    have hlt := List.mem_range.1 hi
    rw [List.getElem?_append_left hlt, List.take_append_of_le_length hlt.le]
  have hlast : ((es ++ [e])[es.length]?.filter fun f =>
      f.key ∉ ((es ++ [e]).take es.length).map Entry.key) =
        if e.key ∈ es.map Entry.key then none else some e := by
    rw [List.getElem?_concat_length, List.take_left, Option.filter_some]
    by_cases h : e.key ∈ es.map Entry.key
    · rw [if_pos h, decide_eq_false (not_not.2 h)]
      rfl
    · rw [if_neg h, decide_eq_true h]
      rfl
  rw [firstOfEach, List.length_append, List.length_singleton, List.range_succ,
    List.filterMap_append, List.filterMap_congr hbefore, List.filterMap_cons, hlast]
  split_ifs <;> rfl

namespace Extraction

open ShortName

variable {es : List Entry} {w : Whitelist} {x : Extraction}

/-- An extraction keeps the first entry of each kind and text. -/
theorem kept_start (es : List Entry) (w : Whitelist) :
    (start es w).kept.toList = firstOfEach es := by
  induction es using List.reverseRecOn with
  | nil => rfl
  | append_singleton es e ih =>
    have hstep : start (es ++ [e]) w = (start es w).keep e := List.foldl_append
    have hknows := knows_start es w e.kind e.find
    rw [hstep, firstOfEach_append_singleton, ← ih]
    split_ifs with h
    · rw [keep_of_knows (hknows.2 h), List.append_nil]
    · rw [keep_of_not_knows (Bool.eq_false_iff.2 (mt hknows.1 h))]
      exact Array.toList_push

theorem entries_start_eq (es : List Entry) (w : Whitelist) : (start es w).entries = firstOfEach es := by
  rw [entries, kept_start, discovered_start, Array.toList_empty, List.append_nil]

/-! ## The states -/

/-- The states of an extraction from some entries: its start, and what it comes to with an occurrence
    or a message. -/
inductive Reached (es : List Entry) (w : Whitelist) : Extraction → Prop
  | start : Reached es w (start es w)
  | meet {x : Extraction} (o : Occurrence) : Reached es w x → Reached es w (x.meet o)
  | tell {x : Extraction} (m : Message) : Reached es w x → Reached es w (x.tell m)

/-- A scan goes from state to state. -/
theorem Reached.scanLines (h : Reached es w x) (p : Pacing) (lines : List (List Char)) :
    Reached es w (x.scanLines p lines) :=
  scanLines_induction p (fun _ => Reached.meet) (fun _ => Reached.tell) lines h

theorem Reached.scan (h : Reached es w x) (p : Pacing) (text : String) :
    Reached es w (x.scan p text) :=
  h.scanLines p _

theorem Reached.sound (h : Reached es w x) : x.Sound := by
  induction h with
  | start => exact .start es w
  | meet o _ ih => exact ih.meet o
  | tell m _ ih => exact ih.tell m

theorem Reached.named (h : Reached es w x) : Named (Extraction.start es w) x := by
  induction h with
  | start => exact .start es w
  | meet o _ ih => exact ih.meet o
  | tell m _ ih => exact ⟨ih.replace_eq, ih.free_eq⟩

theorem Reached.kept_eq (h : Reached es w x) : x.kept.toList = firstOfEach es := by
  induction h with
  | start => exact kept_start es w
  | meet o _ ih => rw [kept_meet, ih]
  | tell m _ ih => exact ih

/-- The names that an extraction gives to nothing else: those of the whitelist, without sigils, and
    the short names of the entries that count. -/
def setAside (es : List Entry) (w : Whitelist) : List String :=
  w.reservedNames ++ (firstOfEach es).map fun e => e.bare.replace

/-- A state of an extraction. -/
structure Described (es : List Entry) (w : Whitelist) (x : Extraction) : Prop where
  /-- The entries that count come first, as they were. -/
  entries_eq : x.entries = firstOfEach es ++ x.discovered.toList
  knows_iff : ∀ k s, x.knows k s = true ↔ (k, s) ∈ x.entries.map Entry.key
  keys_nodup : (x.entries.map Entry.key).Nodup
  /-- The discovered selectors of both kinds share the words that are not set aside, in order. -/
  replace_eq : ∀ n (e : Entry), x.discovered[n]? = some e →
    ∃ v, e.replace.toList = e.kind.sigil :: v ∧ IsNth (unused (setAside es w)) n v

/-- **Every state of an extraction is described** by the entries it started from and by what it
    discovered: the former are kept, the latter have the first words that are left. -/
theorem Reached.described (h : Reached es w x) : Described es w x where
  entries_eq := by rw [entries, h.kept_eq]
  knows_iff := h.sound.knows_iff
  keys_nodup := h.sound.keys_nodup
  replace_eq n e he := by
    have htaken : (Extraction.start es w).taken = setAside es w := by
      rw [taken, whitelist_start, entries_start_eq, setAside]
    refine ⟨word (Nat.nth (fun i => name i ∉ setAside es w) n), ?_, isNth_nth _ n⟩
    rw [h.named.replace_eq n e he, htaken, Kind.toList_token, nthFree, name, String.toList_ofList]

/-- Entries without sigils, and two for one selector: the short name of the second one is not set
    aside. -/
def mixedEntries : List Entry :=
  [⟨".btn", ".a", .cls⟩, ⟨"btn", "b", .id⟩, ⟨".btn", ".c", .cls⟩]

theorem described_mixedEntries :
    Reached mixedEntries (.ofList ["#d", "e"])
        ((start mixedEntries (.ofList ["#d", "e"])).scan .disabled ".x #y .x .e1 .btn") ∧
      ((start mixedEntries (.ofList ["#d", "e"])).scan .disabled ".x #y .x .e1 .btn").entries =
        [⟨".btn", ".a", .cls⟩, ⟨"btn", "b", .id⟩, ⟨".x", ".c", .cls⟩, ⟨"#y", "#f", .id⟩] ∧
      Described mixedEntries (.ofList ["#d", "e"])
        ((start mixedEntries (.ofList ["#d", "e"])).scan .disabled ".x #y .x .e1 .btn") := by
  have hstart : Reached mixedEntries (.ofList ["#d", "e"]) _ := .start
  have hreached := hstart.scan .disabled ".x #y .x .e1 .btn"
  exact ⟨hreached, by decide +kernel, hreached.described⟩

end Extraction

end SelectorRename
