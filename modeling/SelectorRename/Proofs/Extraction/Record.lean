/-
  What an extraction records of a stylesheet.

  * `Extraction.scanFrom_track`: what every occurrence and every message keeps, a scan keeps, with
    the occurrences that were met up to then.
  * `Extraction.Recorded`: what an extraction has recorded of the selectors it met: each rejected
    candidate, and each accepted selector once, the first time that it comes up.
  * `Extraction.scan_start_records`: scanning a stylesheet records exactly what it shows.
-/
import SelectorRename.Proofs.Extraction.Invariant
import SelectorRename.Proofs.Stylesheet.Listing

namespace SelectorRename

/-- By what a selector is known: its kind and how it is written. -/
def Sighting.key (s : Sighting) : Kind × String := (s.kind, String.ofList s.token)

namespace Extraction

variable {x₀ x : Extraction}

/-! ## Keeping track of occurrences -/

section
variable {P : List Occurrence → Extraction → Prop}
  (hmeet : ∀ os x o, P os x → P (os ++ [o]) (x.meet o))
  (htell : ∀ os x m, P os x → P os (x.tell m))

include hmeet in
theorem scanLine_track (line : List Char) {os : List Occurrence} (h : P os x) :
    P (os ++ Stylesheet.occurrences line) (x.scanLine line) := by
  unfold scanLine
  induction Stylesheet.occurrences line generalizing os x with
  | nil => rwa [List.append_nil]
  | cons o more ih =>
    rw [List.append_cons, List.foldl_cons]
    exact ih (hmeet os x o h)

include hmeet htell in
/-- What every occurrence and every message keeps, a scan keeps. -/
theorem scanFrom_track (p : Pacing) (lines : List (List Char)) (count : ℕ) (os : List Occurrence)
    (h : P os x) : P (os ++ lines.flatMap Stylesheet.occurrences) (scanFrom p x count lines) := by
  induction lines generalizing os x count with
  | nil =>
    rw [List.flatMap_nil, List.append_nil]
    exact htell _ _ _ h
  | cons line lines ih =>
    have hline := scanLine_track hmeet line h
    rw [List.flatMap_cons, ← List.append_assoc, scanFrom]
    refine ih _ _ ?_
    obtain he | ⟨m, he⟩ := (x.scanLine line).restAfter_cases p (count + 1)
    · rwa [he]
    · rw [he]; exact htell _ _ _ hline

end

/-! ## What is recorded -/

/-- The rejected candidates, each with the first rule that rejects it. -/
def rejectedOf (w : Whitelist) (ss : List Sighting) : List Ignored :=
  ss.filterMap fun s =>
    (classify w s.candidate).map fun reason => ⟨String.ofList s.candidate, s.kind, reason⟩

/-- The selectors whose candidates are accepted. -/
def acceptedOf (w : Whitelist) (ss : List Sighting) : List (Kind × String) :=
  (ss.filter fun s => classify w s.candidate = none).map Sighting.key

/-- What `x` has recorded since `x₀`, after it met some selectors. -/
structure Recorded (x₀ : Extraction) (ss : List Sighting) (x : Extraction) : Prop where
  whitelist_eq : x.whitelist = x₀.whitelist
  ignored_eq : x.ignored.toList = x₀.ignored.toList ++ rejectedOf x₀.whitelist ss
  discovered_eq : x.discovered.toList.map Entry.key = x₀.discovered.toList.map Entry.key ++
    ((acceptedOf x₀.whitelist ss).filter fun key => !x₀.knows key.1 key.2).eraseDups
  knows_iff : ∀ k s, x.knows k s = true ↔
    x₀.knows k s = true ∨ (k, s) ∈ acceptedOf x₀.whitelist ss

theorem Recorded.refl (x₀ : Extraction) : Recorded x₀ [] x₀ where
  whitelist_eq := rfl
  ignored_eq := by simp [rejectedOf]
  discovered_eq := by simp [acceptedOf]
  knows_iff := by simp [acceptedOf]

theorem rejectedOf_append (w : Whitelist) (ss : List Sighting) (s : Sighting) :
    rejectedOf w (ss ++ [s]) = rejectedOf w ss ++ ((classify w s.candidate).map fun reason =>
      ⟨String.ofList s.candidate, s.kind, reason⟩).toList := by
  rw [rejectedOf, List.filterMap_append, rejectedOf]
  cases hc : classify w s.candidate <;> simp [hc]

theorem acceptedOf_append_of_rejected {w : Whitelist} {s : Sighting} {r : Reason}
    (h : classify w s.candidate = some r) (ss : List Sighting) :
    acceptedOf w (ss ++ [s]) = acceptedOf w ss := by
  simp [acceptedOf, h]

theorem acceptedOf_append_of_accepted {w : Whitelist} {s : Sighting}
    (h : classify w s.candidate = none) (ss : List Sighting) :
    acceptedOf w (ss ++ [s]) = acceptedOf w ss ++ [s.key] := by
  simp [acceptedOf, h]

section
variable {α : Type} [BEq α] [LawfulBEq α] {l : List α} {a : α}

theorem eraseDups_append_of_mem (h : a ∈ l) : (l ++ [a]).eraseDups = l.eraseDups := by
  simp [List.eraseDups_append, List.removeAll, h]

theorem eraseDups_append_of_not_mem (h : a ∉ l) : (l ++ [a]).eraseDups = l.eraseDups ++ [a] := by
  simp [List.eraseDups_append, List.removeAll, h, List.eraseDups_cons]

end

section
variable {ss : List Sighting} {s : Sighting}

theorem mem_acceptedOf_append (h : classify x₀.whitelist s.candidate = none)
    (hr : Recorded x₀ ss x) (k : Kind) (t : String) :
    x₀.knows k t = true ∨ (k, t) ∈ acceptedOf x₀.whitelist (ss ++ [s]) ↔
      x.knows k t = true ∨ (k, t) = s.key := by
  rw [acceptedOf_append_of_accepted h, List.mem_append, ← or_assoc, ← hr.knows_iff,
    List.mem_singleton]

/-- A rejected candidate is listed with the rule that rejects it. -/
theorem Recorded.ignore (h : Recorded x₀ ss x) {r : Reason}
    (hc : classify x₀.whitelist s.candidate = some r) :
    Recorded x₀ (ss ++ [s]) (x.ignore s.kind (String.ofList s.candidate) r) where
  whitelist_eq := h.whitelist_eq
  ignored_eq := by
    rw [rejectedOf_append, hc, ← List.append_assoc, ← h.ignored_eq]
    simp [Extraction.ignore]
  discovered_eq := by
    rw [acceptedOf_append_of_rejected hc]
    exact h.discovered_eq
  knows_iff := by
    rw [acceptedOf_append_of_rejected hc]
    exact h.knows_iff

/-- An accepted selector that is known is in the list already, if it is to be there at all. -/
theorem Recorded.known (h : Recorded x₀ ss x) (hc : classify x₀.whitelist s.candidate = none)
    (hk : x.knows s.key.1 s.key.2 = true) : Recorded x₀ (ss ++ [s]) x where
  whitelist_eq := h.whitelist_eq
  ignored_eq := by simpa [rejectedOf_append, hc] using h.ignored_eq
  discovered_eq := by
    rw [acceptedOf_append_of_accepted hc, List.filter_append, h.discovered_eq]
    by_cases h₀ : x₀.knows s.key.1 s.key.2 = true
    · rw [List.filter_cons_of_neg (by simp [h₀]), List.filter_nil, List.append_nil]
    · have hmem : s.key ∈ (acceptedOf x₀.whitelist ss).filter fun key => !x₀.knows key.1 key.2 :=
        List.mem_filter.2 ⟨((h.knows_iff _ _).1 hk).resolve_left h₀, by simp [h₀]⟩
      rw [List.filter_cons_of_pos (by simp [h₀]), List.filter_nil, eraseDups_append_of_mem hmem]
  knows_iff k t := by
    rw [mem_acceptedOf_append hc h]
    refine ⟨.inl, ?_⟩
    rintro (hkt | hkt)
    · exact hkt
    · rwa [← hkt] at hk

/-- An accepted selector that is new comes last. -/
theorem Recorded.discover (h : Recorded x₀ ss x) (hc : classify x₀.whitelist s.candidate = none)
    (hk : x.knows s.key.1 s.key.2 = false) :
    Recorded x₀ (ss ++ [s]) (x.discover s.key.1 s.key.2) where
  whitelist_eq := h.whitelist_eq
  ignored_eq := by simpa [rejectedOf_append, hc, Extraction.discover] using h.ignored_eq
  discovered_eq := by
    obtain ⟨h₀, hmem⟩ := not_or.1 fun hold => Bool.eq_false_iff.1 hk ((h.knows_iff _ _).2 hold)
    have hkeys : (x.discover s.key.1 s.key.2).discovered.toList.map Entry.key =
        x.discovered.toList.map Entry.key ++ [s.key] := by
      simp [Extraction.discover, Entry.key]
    have hnot : s.key ∉ (acceptedOf x₀.whitelist ss).filter fun key => !x₀.knows key.1 key.2 :=
      fun hin => hmem (List.mem_filter.1 hin).1
    rw [acceptedOf_append_of_accepted hc, List.filter_append, hkeys, h.discovered_eq,
      List.append_assoc, List.filter_cons_of_pos (by simp [h₀]), List.filter_nil,
      eraseDups_append_of_not_mem hnot]
  knows_iff k t := by
    rw [mem_acceptedOf_append hc h, or_comm]
    exact KindMap.contains_insertNew ..

end

/-- The step: an occurrence adds one rejection, or one selector if it is new. -/
theorem Recorded.meet {ss : List Sighting} (h : Recorded x₀ ss x) (o : Occurrence) :
    Recorded x₀ (ss ++ [o.sighting]) (x.meet o) := by
  obtain ⟨r, hc, he⟩ | ⟨hc, hk, he⟩ | ⟨hc, hk, he⟩ := x.meet_cases o
  all_goals
    rw [h.whitelist_eq] at hc
    rw [he]
  · exact h.ignore (s := o.sighting) hc
  · exact h.known (s := o.sighting) hc hk
  · exact h.discover (s := o.sighting) hc hk

theorem Recorded.tell {ss : List Sighting} (h : Recorded x₀ ss x) (m : Message) :
    Recorded x₀ ss (x.tell m) :=
  ⟨h.whitelist_eq, h.ignored_eq, h.discovered_eq, h.knows_iff⟩

/-- The run: the lines add what they show. -/
theorem Recorded.scanFrom {ss : List Sighting} (h : Recorded x₀ ss x) (p : Pacing)
    (lines : List (List Char)) (count : ℕ) :
    Recorded x₀ (ss ++ (lines.flatMap Stylesheet.occurrences).map Occurrence.sighting)
      (scanFrom p x count lines) := by
  have hrun := scanFrom_track (P := fun os y => Recorded x₀ (ss ++ os.map Occurrence.sighting) y)
    (fun os y o h => by rw [List.map_append, ← List.append_assoc]; exact h.meet o)
    (fun os y m h => h.tell m) p lines count [] (by simpa using h)
  rwa [List.nil_append] at hrun

/-- A scan records everything that the lines show. -/
theorem recorded_scan (p : Pacing) (x : Extraction) (text : String) :
    Recorded x (((Stylesheet.lines text).flatMap Stylesheet.occurrences).map Occurrence.sighting)
      (x.scan p text) :=
  (Recorded.refl x).scanFrom p (Stylesheet.lines text) 0

/-- Several scans record everything that all their lines show. -/
theorem recorded_scanBatches (p : Pacing) (x : Extraction) (batches : List (List (List Char))) :
    Recorded x ((batches.flatten.flatMap Stylesheet.occurrences).map Occurrence.sighting)
      (x.scanBatches p batches) := by
  have hfrom : ∀ ss y, Recorded x ss y →
      Recorded x (ss ++ (batches.flatten.flatMap Stylesheet.occurrences).map Occurrence.sighting)
        (y.scanBatches p batches) := by
    induction batches with
    | nil => intro ss y h; simpa [scanBatches] using h
    | cons lines batches ih =>
      intro ss y h
      rw [List.flatten_cons, List.flatMap_append, List.map_append, ← List.append_assoc]
      exact ih _ _ (h.scanFrom p lines 0)
  exact hfrom [] x (.refl x)

/-! ## From the start -/

theorem knows_foldl_keep (es : List Entry) (x : Extraction) (k : Kind) (s : String) :
    (es.foldl keep x).knows k s = true ↔ x.knows k s = true ∨ (k, s) ∈ es.map Entry.key := by
  induction es generalizing x with
  | nil => simp
  | cons e es ih =>
    have hkeep : (x.keep e).knows k s = true ↔ (k, s) = e.key ∨ x.knows k s = true := by
      cases hk : x.knows e.kind e.find with
      | true =>
        rw [keep_of_knows hk]
        refine ⟨.inr, ?_⟩
        rintro (hks | hks)
        · obtain ⟨rfl, rfl⟩ := Prod.mk.inj hks
          exact hk
        · exact hks
      | false =>
        rw [keep_of_not_knows hk]
        exact KindMap.contains_insertNew ..
    rw [List.foldl_cons, ih, hkeep, List.map_cons, List.mem_cons]
    tauto

/-- At the start exactly the selectors of the given entries are known. -/
theorem knows_start (es : List Entry) (w : Whitelist) (k : Kind) (s : String) :
    (start es w).knows k s = true ↔ (k, s) ∈ es.map Entry.key := by
  rw [start, knows_foldl_keep]
  simp [knows, blank]

theorem ignored_foldl_keep (es : List Entry) (x : Extraction) :
    (es.foldl keep x).ignored = x.ignored ∧ (es.foldl keep x).discovered = x.discovered := by
  induction es generalizing x with
  | nil => exact ⟨rfl, rfl⟩
  | cons e es ih =>
    rw [List.foldl_cons, (ih _).1, (ih _).2, discovered_keep]
    refine ⟨?_, rfl⟩
    unfold keep
    split_ifs <;> rfl

theorem discovered_start (es : List Entry) (w : Whitelist) : (start es w).discovered = #[] :=
  (ignored_foldl_keep es (blank w)).2

/-- From the start on, the accepted selectors that were not known are discovered. -/
theorem Recorded.discovered_start {es : List Entry} {w : Whitelist} {ss : List Sighting}
    (h : Recorded (start es w) ss x) :
    x.discovered.toList.map Entry.key =
      ((acceptedOf w ss).filter fun key => !(start es w).knows key.1 key.2).eraseDups := by
  rw [h.discovered_eq, Extraction.discovered_start, whitelist_start]
  rfl

/-- **A scan from the start records exactly what the stylesheet shows**: every candidate that a rule
    rejects, with the rule, and every accepted selector without an entry, where it first comes up. -/
theorem scan_start_records (p : Pacing) (es : List Entry) (w : Whitelist) (text : String) :
    ∃ shown, (∀ ss, Stylesheet.Listing text.toList ss ↔ ss = shown) ∧
      ((start es w).scan p text).ignored.toList = rejectedOf w shown ∧
      ((start es w).scan p text).discovered.toList.map Entry.key =
        ((acceptedOf w shown).filter fun key => key ∉ es.map Entry.key).eraseDups := by
  obtain ⟨-, hi, hd, -⟩ := recorded_scan p (start es w) text
  obtain ⟨hi₀, hd₀⟩ : (start es w).ignored = #[] ∧ (start es w).discovered = #[] :=
    ignored_foldl_keep es (blank w)
  refine ⟨_, fun ss => Stylesheet.listing_iff, ?_, ?_⟩
  · simpa [whitelist_start, hi₀] using hi
  · have hkeys : ∀ key : Kind × String,
        (!(start es w).knows key.1 key.2) = decide (key ∉ es.map Entry.key) := by
      intro key
      rw [Bool.eq_iff_iff, Bool.not_eq_true', ← Bool.not_eq_true, knows_start, decide_eq_true_eq]
    simpa only [whitelist_start, hd₀, hkeys, List.map_nil, List.nil_append] using hd

-- One selector is rejected where it ends a url and accepted where it stands alone.
example :
    let x := (start [⟨".old", ".a", .cls⟩] (.ofList [])).scan .disabled ".old url('x.png') .png"
    x.ignored.toList = [⟨".png'", .cls, .path⟩] ∧ x.discovered.toList = [⟨".png", ".b", .cls⟩] := by
  decide +kernel

end Extraction

end SelectorRename
