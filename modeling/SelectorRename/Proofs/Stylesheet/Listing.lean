/-
  The selectors that a stylesheet shows.

  * `Sighting`: a selector with its candidate, which has the url or path text behind it as well;
    `Stylesheet.Opens` says when a text begins with one.
  * `Stylesheet.AllShown`: everything of one kind on a line, from left to right.
  * `Stylesheet.Broken`: a text broken into lines, and `Stylesheet.Listing`: all that it shows, line
    by line and the classes before the ids.
  * `Stylesheet.Foreign`: a character that no candidate has, such as a blank. No selector reaches
    across one (`Stylesheet.map_sighting_occurrencesOf_append`).
  * `Stylesheet.listing_iff`: the occurrences that an extraction meets are exactly this list. That
    each line is trimmed before makes no difference.
-/
import SelectorRename.Proofs.Text.Trimming
import Mathlib.Data.List.Forall2
import Mathlib.Data.List.Sort

namespace SelectorRename

open Text

/-- A selector that stands in a stylesheet, and the text by which it is judged. -/
structure Sighting where
  kind : Kind
  token : List Char
  candidate : List Char
  deriving DecidableEq, Repr

/-- What is seen of an occurrence. -/
def Occurrence.sighting (o : Occurrence) : Sighting := ⟨o.kind, o.kind.sigil :: o.name, o.candidate⟩

namespace Stylesheet

/-! ## One selector -/

/-- A character that a url or path may go on with. -/
def TrailingChar (c : Char) : Prop := Alnum c ∨ c ∈ ['?', '&', '=', '/', '%', '.', '_', '-']

theorem isTrailingChar_iff (c : Char) : isTrailingChar c = true ↔ TrailingChar c := by
  simp only [isTrailingChar, TrailingChar, Bool.or_eq_true, decide_eq_true_eq, isAlphanum_iff,
    List.mem_cons, List.not_mem_nil, or_false, or_assoc]

instance : DecidablePred TrailingChar := fun c => decidable_of_iff _ (isTrailingChar_iff c)

/-- The quote that comes next, if one does. -/
inductive NextQuote : List Char → List Char → Prop
  | quoted {q : Char} {rest : List Char} : q = '\'' ∨ q = '"' → NextQuote [q] rest
  | bare {rest : List Char} : (∀ c ∈ rest.head?, ¬ (c = '\'' ∨ c = '"')) → NextQuote [] rest

/-- A text begins with a selector: a sigil and at least one name character. Behind the longest name,
    the longest trailing text and one quote belong to its candidate. -/
inductive Opens : List Char → Sighting → Prop
  | intro {k : Kind} {name trail quote rest : List Char} : name ≠ [] →
      Longest NameChar name (trail ++ (quote ++ rest)) → Longest TrailingChar trail (quote ++ rest) →
      NextQuote quote rest →
      Opens (k.sigil :: (name ++ (trail ++ (quote ++ rest))))
        ⟨k, k.sigil :: name, k.sigil :: name ++ trail ++ quote⟩

theorem trailingOf_eq {trail quote rest : List Char} (ht : Longest TrailingChar trail (quote ++ rest))
    (hq : NextQuote quote rest) : trailingOf (trail ++ (quote ++ rest)) = trail ++ quote := by
  have hquote : ((quote ++ rest).take 1).filter Candidate.isQuote = quote := by
    rcases hq with hq | hnot
    · simp [Candidate.isQuote, hq]
    · cases rest <;> simp_all [Candidate.isQuote]
  rw [trailingOf, ht.takeWhile_eq isTrailingChar_iff, ht.dropWhile_eq isTrailingChar_iff, hquote]

theorem exists_nextQuote (text : List Char) : ∃ quote rest, text = quote ++ rest ∧ NextQuote quote rest := by
  rcases text with _ | ⟨c, text⟩
  · exact ⟨[], [], rfl, .bare (by simp)⟩
  · by_cases hc : c = '\'' ∨ c = '"'
    · exact ⟨[c], text, rfl, .quoted hc⟩
    · exact ⟨[], c :: text, rfl, .bare (by simpa using hc)⟩

theorem exists_trailing (text : List Char) : ∃ trail quote rest, text = trail ++ (quote ++ rest) ∧
    Longest TrailingChar trail (quote ++ rest) ∧ NextQuote quote rest := by
  have hmax := longest_takeWhile isTrailingChar_iff text
  obtain ⟨quote, rest, heq, hquote⟩ := exists_nextQuote (text.dropWhile isTrailingChar)
  rw [heq] at hmax
  exact ⟨_, quote, rest, by rw [← heq, List.takeWhile_append_dropWhile], hmax, hquote⟩

/-- An occurrence behind a sigil has the longest name there. -/
theorem occurrenceAt?_eq_some_iff {k : Kind} {text : List Char} {o : Occurrence} :
    occurrenceAt? k text = some o ↔
      o.kind = k ∧ o.name ≠ [] ∧ text = o.name ++ o.rest ∧ Longest NameChar o.name o.rest := by
  constructor
  · intro h
    simp only [occurrenceAt?] at h
    split at h
    · cases h
    · next hne =>
      obtain rfl := Option.some.inj h
      exact ⟨rfl, hne, List.takeWhile_append_dropWhile.symm, longest_takeWhile isNameChar_iff text⟩
  · rintro ⟨rfl, hne, rfl, hrun⟩
    simp only [occurrenceAt?, hrun.takeWhile_eq isNameChar_iff, hrun.dropWhile_eq isNameChar_iff,
      if_neg hne]

/-- The occurrence of one kind that a text begins with. -/
def startsAt? (k : Kind) : List Char → Option Occurrence
  | [] => none
  | c :: rest => if c = k.sigil then occurrenceAt? k rest else none

theorem occurrencesOf_cons_eq (k : Kind) (c : Char) (rest : List Char) :
    occurrencesOf k (c :: rest) = (startsAt? k (c :: rest)).toList ++ occurrencesOf k rest :=
  occurrencesOf_cons k c rest

theorem opens_iff {k : Kind} {text : List Char} {s : Sighting} :
    s.kind = k ∧ Opens text s ↔ ∃ o, startsAt? k text = some o ∧ o.sighting = s := by
  constructor
  · rintro ⟨rfl, hne, hname, htrail, hquote⟩
    rename_i k name trail quote rest
    have ho : occurrenceAt? k (name ++ (trail ++ (quote ++ rest))) = some ⟨k, name, _⟩ :=
      occurrenceAt?_eq_some_iff.2 ⟨rfl, hne, rfl, hname⟩
    refine ⟨_, by rwa [startsAt?, if_pos rfl], ?_⟩
    simp [Occurrence.sighting, Occurrence.candidate, trailingOf_eq htrail hquote]
  · rintro ⟨⟨l, name, rest⟩, ho, rfl⟩
    cases text with
    | nil => cases ho
    | cons c text =>
      rw [startsAt?] at ho
      split_ifs at ho with hc
      obtain ⟨rfl, hne, rfl, hname⟩ := occurrenceAt?_eq_some_iff.1 ho
      obtain ⟨trail, quote, rest, rfl, htrail, hquote⟩ := exists_trailing rest
      subst hc
      exact ⟨rfl, by simpa [Occurrence.sighting, Occurrence.candidate, trailingOf_eq htrail hquote]
        using Opens.intro (k := l) hne hname htrail hquote⟩

/-! ## One line -/

/-- The selectors of one kind on a line, from left to right: there is one at every place from which
    on the line begins with one, and nowhere else. -/
def AllShown (k : Kind) (line : List Char) (ss : List Sighting) : Prop :=
  ∃ places : List (ℕ × Sighting), places.Pairwise (fun p q => p.1 < q.1) ∧
    (∀ i s, (i, s) ∈ places ↔ s.kind = k ∧ Opens (line.drop i) s) ∧ ss = places.map Prod.snd

/-- The occurrences of one kind with the places of their sigils. -/
def places (k : Kind) : List Char → List (ℕ × Sighting)
  | [] => []
  | c :: rest =>
    (startsAt? k (c :: rest)).toList.map (fun o => (0, o.sighting)) ++
      (places k rest).map fun p => (p.1 + 1, p.2)

theorem map_snd_places (k : Kind) (line : List Char) :
    (places k line).map Prod.snd = (occurrencesOf k line).map Occurrence.sighting := by
  induction line with
  | nil => rfl
  | cons c rest ih => simp [places, occurrencesOf_cons_eq, ← ih, Function.comp_def]

theorem pairwise_places (k : Kind) (line : List Char) :
    (places k line).Pairwise fun p q => p.1 < q.1 := by
  induction line with
  | nil => exact List.Pairwise.nil
  | cons c rest ih =>
    rw [places, List.pairwise_append]
    refine ⟨?_, ?_, ?_⟩
    · cases startsAt? k (c :: rest) <;> simp
    · exact List.pairwise_map.2 (ih.imp fun h => Nat.succ_lt_succ h)
    · intro p hp q hq
      obtain ⟨o, -, rfl⟩ := List.mem_map.1 hp
      obtain ⟨r, -, rfl⟩ := List.mem_map.1 hq
      exact Nat.succ_pos _

theorem mem_places {k : Kind} {line : List Char} {i : ℕ} {s : Sighting} :
    (i, s) ∈ places k line ↔ s.kind = k ∧ Opens (line.drop i) s := by
  induction line generalizing i with
  | nil => simp [places, opens_iff, startsAt?]
  | cons c rest ih =>
    cases i with
    | zero => simp [places, opens_iff]
    | succ i => simp [places, ih]

theorem allShown_iff {k : Kind} {line : List Char} {ss : List Sighting} :
    AllShown k line ss ↔ ss = (occurrencesOf k line).map Occurrence.sighting := by
  rw [← map_snd_places]
  constructor
  · rintro ⟨ps, hps, hmem, rfl⟩
    -- lists in strictly increasing order of places are known from their members
    have : Std.Irrefl fun p q : ℕ × Sighting => p.1 < q.1 := ⟨fun p => Nat.lt_irrefl _⟩
    have : Std.Antisymm fun p q : ℕ × Sighting => p.1 < q.1 :=
      ⟨fun p q h h' => absurd h' (Nat.lt_asymm h)⟩
    rw [hps.eq_of_mem_iff (pairwise_places k line) fun p => (hmem p.1 p.2).trans mem_places.symm]
  · rintro rfl
    exact ⟨places k line, pairwise_places k line, fun i s => mem_places, rfl⟩

/-! ## Characters that no candidate has -/

theorem toNat_of_isBlank {c : Char} (h : isBlank c = true) : c.toNat < 0x21 ∨ 0x7E < c.toNat := by
  simp only [isBlank, Bool.or_eq_true, Bool.and_eq_true, decide_eq_true_eq, beq_iff_eq,
    UInt32.le_iff_toNat_le, ← UInt32.toNat_inj] at h
  simp only [UInt32.reduceToNat] at h
  have : c.toNat = c.val.toNat := rfl
  omega

theorem toNat_of_trailingChar {c : Char} (h : TrailingChar c ∨ c = '\'' ∨ c = '"') :
    0x21 ≤ c.toNat ∧ c.toNat ≤ 0x7E := by
  simp only [TrailingChar, Alnum, Char.le_def, UInt32.le_iff_toNat_le, List.mem_cons,
    List.not_mem_nil, or_false] at h
  have : c.toNat = c.val.toNat := rfl
  have : 'A'.val.toNat = 65 ∧ 'Z'.val.toNat = 90 := ⟨rfl, rfl⟩
  have : 'a'.val.toNat = 97 ∧ 'z'.val.toNat = 122 := ⟨rfl, rfl⟩
  have : '0'.val.toNat = 48 ∧ '9'.val.toNat = 57 := ⟨rfl, rfl⟩
  rcases h with (h | h) | h
  · omega
  · rcases h with rfl | rfl | rfl | rfl | rfl | rfl | rfl | rfl <;> decide
  · rcases h with rfl | rfl <;> decide

/-- A character that no candidate has. -/
def Foreign (c : Char) : Prop := ¬ NameChar c ∧ ¬ TrailingChar c ∧ ¬ (c = '\'' ∨ c = '"')

instance : DecidablePred Foreign := fun _ => inferInstanceAs (Decidable (_ ∧ _ ∧ ¬ (_ ∨ _)))

theorem foreign_of_isBlank {c : Char} (h : isBlank c = true) : Foreign c := by
  have hno : ¬ (TrailingChar c ∨ c = '\'' ∨ c = '"') := fun hc => by
    have := toNat_of_isBlank h
    have := toNat_of_trailingChar hc
    omega
  refine ⟨fun hc => hno (.inl ?_), fun hc => hno (.inl hc), fun hc => hno (.inr hc)⟩
  rcases hc with hc | rfl | rfl
  · exact .inl hc
  · exact .inr (by decide)
  · exact .inr (by decide)

theorem sigil_ne_of_isBlank {c : Char} (h : isBlank c = true) (k : Kind) : c ≠ k.sigil := by
  rintro rfl
  cases k <;> exact absurd h (by decide)

theorem NextQuote.eq_or {quote rest : List Char} (h : NextQuote quote rest) :
    quote = [] ∨ ∃ q, quote = [q] ∧ (q = '\'' ∨ q = '"') := by
  rcases h with hq | -
  · exact Or.inr ⟨_, rfl, hq⟩
  · exact Or.inl rfl

/-- A candidate is its selector with more behind it. -/
theorem Opens.candidate_spec {text : List Char} {s : Sighting} (h : Opens text s) :
    (∃ name, s.token = s.kind.sigil :: name) ∧ s.token <+: s.candidate ∧
      ∀ c ∈ s.candidate, isBlank c = false := by
  rcases h with ⟨-, hname, htrail, hquote⟩
  rename_i k name trail quote rest
  refine ⟨⟨name, rfl⟩, ⟨trail ++ quote, by simp⟩, fun c hc => ?_⟩
  refine Bool.eq_false_iff.2 fun hblank => ?_
  obtain ⟨hnoname, hnotrail, hnoquote⟩ := foreign_of_isBlank hblank
  simp only [List.cons_append, List.mem_cons, List.mem_append, or_assoc] at hc
  rcases hc with rfl | hc | hc | hc
  · exact sigil_ne_of_isBlank hblank k rfl
  · exact hnoname (hname.1 c hc)
  · exact hnotrail (htrail.1 c hc)
  · rcases hquote.eq_or with rfl | ⟨q, rfl, hq⟩
    · cases hc
    · rw [List.mem_singleton.1 hc] at hnoquote
      exact hnoquote hq

theorem exists_opens {line : List Char} {o : Occurrence} (h : o ∈ occurrences line) :
    ∃ text, Opens text o.sighting := by
  have hplace : ∀ k l, o ∈ occurrencesOf k l → ∃ text, Opens text o.sighting := by
    intro k l ho
    have hmem := List.mem_map_of_mem (f := Occurrence.sighting) ho
    rw [← map_snd_places] at hmem
    obtain ⟨⟨i, s⟩, hp, rfl⟩ := List.mem_map.1 hmem
    exact ⟨l.drop i, (mem_places.1 hp).2⟩
  rcases List.mem_append.1 h with h | h
  · exact hplace _ _ h
  · exact hplace _ _ h

/-! ## A text and what stands behind it -/

section
variable {more : List Char} (hmore : ∀ c ∈ more.head?, Foreign c)
include hmore

theorem NextQuote.append {quote rest : List Char} (h : NextQuote quote rest) :
    NextQuote quote (rest ++ more) := by
  rcases h with hq | hnot
  · exact .quoted hq
  · refine .bare fun c hc => ?_
    cases rest with
    | nil => exact (hmore c hc).2.2
    | cons d rest => exact hnot c hc

theorem trailingOf_append (rest : List Char) : trailingOf (rest ++ more) = trailingOf rest := by
  obtain ⟨trail, quote, rest, rfl, htrail, hquote⟩ := exists_trailing rest
  rw [trailingOf_eq htrail hquote, List.append_assoc, List.append_assoc]
  refine trailingOf_eq ?_ (hquote.append hmore)
  rw [← List.append_assoc]
  exact htrail.append fun c hc => (hmore c hc).2.1

theorem occurrenceAt?_append (k : Kind) (text : List Char) :
    occurrenceAt? k (text ++ more) =
      (occurrenceAt? k text).map fun o => { o with rest := o.rest ++ more } := by
  have hname := (longest_takeWhile isNameChar_iff text).append fun c hc => (hmore c hc).1
  have htake := hname.takeWhile_eq isNameChar_iff
  have hdrop := hname.dropWhile_eq isNameChar_iff
  rw [← List.append_assoc, List.takeWhile_append_dropWhile] at htake hdrop
  simp only [occurrenceAt?, htake, hdrop]
  split_ifs <;> rfl

/-- What a text begins with does not change if a character that no candidate has follows the text. -/
theorem map_sighting_startsAt?_append (k : Kind) (c : Char) (text : List Char) :
    (startsAt? k (c :: (text ++ more))).map Occurrence.sighting =
      (startsAt? k (c :: text)).map Occurrence.sighting := by
  simp only [startsAt?]
  split_ifs
  · rw [occurrenceAt?_append hmore, Option.map_map]
    refine congrArg (Option.map · _) (funext fun o => ?_)
    simp [Occurrence.sighting, Occurrence.candidate, trailingOf_append hmore]
  · rfl

/-- **Nothing is shown across a character that no candidate has.** -/
theorem map_sighting_occurrencesOf_append (k : Kind) (text : List Char) :
    (occurrencesOf k (text ++ more)).map Occurrence.sighting =
      (occurrencesOf k text).map Occurrence.sighting ++
        (occurrencesOf k more).map Occurrence.sighting := by
  induction text with
  | nil => rfl
  | cons c text ih =>
    have hhead := map_sighting_startsAt?_append hmore k c text
    rw [List.cons_append, occurrencesOf_cons_eq, occurrencesOf_cons_eq, List.map_append,
      List.map_append, ih, ← Option.toList_map, ← Option.toList_map, hhead, List.append_assoc]

end

/-- Without a sigil nothing is shown. -/
theorem occurrencesOf_append_of_not_mem {k : Kind} {v : List Char} (hv : k.sigil ∉ v)
    (text : List Char) : occurrencesOf k (v ++ text) = occurrencesOf k text := by
  induction v with
  | nil => rfl
  | cons c v ih =>
    rw [List.mem_cons, not_or] at hv
    rw [List.cons_append, occurrencesOf_cons, if_neg (Ne.symm hv.1), ih hv.2]
    rfl

/-- Trimming a line takes no selector away and cuts none short. -/
theorem map_sighting_occurrences (line : List Char) :
    (occurrences line).map Occurrence.sighting =
      (occurrencesOf .cls line ++ occurrencesOf .id line).map Occurrence.sighting := by
  have htrim : ∀ k, (occurrencesOf k (trim line)).map Occurrence.sighting =
      (occurrencesOf k line).map Occurrence.sighting := by
    intro k
    obtain ⟨front, back, hline, hfront, hback⟩ := trimmed_trim line
    have hblank : ∀ c ∈ back, isBlank c = true := fun c hc => hback.1 c (List.mem_reverse.2 hc)
    have hfrontsigil : k.sigil ∉ front := fun hc => sigil_ne_of_isBlank (hfront.1 _ hc) k rfl
    have hbacksigil : k.sigil ∉ back := fun hc => sigil_ne_of_isBlank (hblank _ hc) k rfl
    have hnone : occurrencesOf k back = [] := by
      simpa [occurrencesOf_nil] using occurrencesOf_append_of_not_mem hbacksigil []
    have hforeign : ∀ c ∈ back.head?, Foreign c := fun c hc =>
      foreign_of_isBlank (hblank c (List.mem_of_mem_head? hc))
    calc (occurrencesOf k (trim line)).map Occurrence.sighting
        = (occurrencesOf k (trim line ++ back)).map Occurrence.sighting := by
          rw [map_sighting_occurrencesOf_append hforeign, hnone, List.map_nil, List.append_nil]
      _ = (occurrencesOf k (front ++ (trim line ++ back))).map Occurrence.sighting := by
          rw [occurrencesOf_append_of_not_mem hfrontsigil]
      _ = (occurrencesOf k line).map Occurrence.sighting := by rw [← hline]
  rw [occurrences, List.map_append, List.map_append, htrim, htrim]

/-! ## Whole stylesheets -/

/-- A text broken into lines: at every line break and before every opening brace. -/
inductive Broken : List Char → List (List Char) → Prop
  | nil : Broken [] [[]]
  | newline {text : List Char} {lines : List (List Char)} : Broken text lines →
      Broken ('\n' :: text) ([] :: lines)
  | brace {text line : List Char} {lines : List (List Char)} : Broken text (line :: lines) →
      Broken ('{' :: text) ([] :: ('{' :: line) :: lines)
  | char {c : Char} {text line : List Char} {lines : List (List Char)} : c ≠ '\n' → c ≠ '{' →
      Broken text (line :: lines) → Broken (c :: text) ((c :: line) :: lines)

theorem splitOn_breakAtBraces_cons (c : Char) {text line : List Char} {lines : List (List Char)}
    (h : (breakAtBraces text).splitOn '\n' = line :: lines) :
    (breakAtBraces (c :: text)).splitOn '\n' =
      if c = '\n' then [] :: line :: lines
      else if c = '{' then [] :: ('{' :: line) :: lines
      else (c :: line) :: lines := by
  have hcons : breakAtBraces (c :: text) =
      (if c = '{' then ['\n', '{'] else [c]) ++ breakAtBraces text := rfl
  rw [hcons]
  split_ifs with hb hn hn
  · subst hb; cases hn
  · simp [List.splitOn_cons_eq_if_modifyHead, h]
  · simp [List.splitOn_cons_eq_if_modifyHead, h, hn]
  · simp [List.splitOn_cons_eq_if_modifyHead, h, hn]

theorem broken_iff {text : List Char} {lines : List (List Char)} :
    Broken text lines ↔ (breakAtBraces text).splitOn '\n' = lines := by
  constructor
  · intro h
    induction h with
    | nil => rfl
    | @newline text _ _ ih =>
      obtain ⟨line, rest, hrest⟩ := List.exists_cons_of_ne_nil (ih ▸ List.splitOn_ne_nil _ _)
      subst hrest
      rw [splitOn_breakAtBraces_cons _ ih, if_pos rfl]
    | brace _ ih => rw [splitOn_breakAtBraces_cons _ ih, if_neg (by decide), if_pos rfl]
    | char hn hb _ ih => rw [splitOn_breakAtBraces_cons _ ih, if_neg hn, if_neg hb]
  · rintro rfl
    induction text with
    | nil => exact .nil
    | cons c text ih =>
      obtain ⟨line, lines, h⟩ :=
        List.exists_cons_of_ne_nil (List.splitOn_ne_nil '\n' (breakAtBraces text))
      rw [h] at ih
      rw [splitOn_breakAtBraces_cons c h]
      split_ifs with hn hb
      · subst hn; exact .newline ih
      · subst hb; exact .brace ih
      · exact .char hn hb ih

/-- All that a line shows: the classes, then the ids. -/
def LineShows (line : List Char) (ss : List Sighting) : Prop :=
  ∃ classes ids, AllShown .cls line classes ∧ AllShown .id line ids ∧ ss = classes ++ ids

/-- All that a stylesheet shows, line by line. -/
def Listing (text : List Char) (ss : List Sighting) : Prop :=
  ∃ lines parts, Broken text lines ∧ List.Forall₂ LineShows lines parts ∧ ss = parts.flatten

theorem lineShows_iff {line : List Char} {ss : List Sighting} :
    LineShows line ss ↔ (occurrences line).map Occurrence.sighting = ss := by
  rw [map_sighting_occurrences, List.map_append]
  constructor
  · rintro ⟨classes, ids, hc, hi, rfl⟩
    rw [allShown_iff.1 hc, allShown_iff.1 hi]
  · rintro rfl
    exact ⟨_, _, allShown_iff.2 rfl, allShown_iff.2 rfl, rfl⟩

theorem forall₂_lineShows_iff {lines : List (List Char)} {parts : List (List Sighting)} :
    List.Forall₂ LineShows lines parts ↔
      parts = lines.map fun line => (occurrences line).map Occurrence.sighting := by
  induction lines generalizing parts with
  | nil => simp
  | cons line lines ih =>
    cases parts with
    | nil => simp
    | cons part parts => simp [lineShows_iff, ih, eq_comm]

/-- **The occurrences that a stylesheet is scanned for** are all that it shows, in order. -/
theorem listing_iff {text : String} {ss : List Sighting} :
    Listing text.toList ss ↔ ss = ((lines text).flatMap occurrences).map Occurrence.sighting := by
  rw [List.map_flatMap, List.flatMap_def]
  constructor
  · rintro ⟨lines, parts, hl, hp, rfl⟩
    rw [forall₂_lineShows_iff.1 hp, ← broken_iff.1 hl, Stylesheet.lines]
  · rintro rfl
    exact ⟨_, _, broken_iff.2 rfl, forall₂_lineShows_iff.2 rfl, rfl⟩

end Stylesheet

end SelectorRename
