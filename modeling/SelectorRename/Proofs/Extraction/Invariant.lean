/-
  What holds of every extraction, whatever entries it started from.

  * `Extraction.Sound`: an extraction knows exactly the selectors of its entries, no selector has
    two entries, and the free short names are all that neither the whitelist nor an entry uses.
  * `Extraction.meet_cases`: all that can become of an occurrence.
  * `Extraction.Sound.start`, `Extraction.Sound.meet`: it holds at the start and is kept by every
    occurrence, hence by every scan (`Extraction.scan_rel`, `Extraction.scanAll_rel`).
  * `Extraction.entries_start`: entries of different selectors are all kept.
-/
import SelectorRename.Extraction
import SelectorRename.Proofs.ShortName.Free

namespace SelectorRename

/-- What an entry is for: its kind and the text to find. -/
def Entry.key (e : Entry) : Kind × String := (e.kind, e.find)

namespace Extraction

variable {x y : Extraction}

/-- The names that no new entry may use: those of the whitelist and of the entries so far. -/
def taken (x : Extraction) : List String :=
  x.whitelist.reservedNames ++ x.entries.map fun e => e.bare.replace

/-- The state of an extraction is determined by its whitelist and its entries. -/
structure Sound (x : Extraction) : Prop where
  knows_iff : ∀ k s, x.knows k s = true ↔ (k, s) ∈ x.entries.map Entry.key
  keys_nodup : (x.entries.map Entry.key).Nodup
  free_eq : x.names.free = {i | ShortName.name i ∉ x.taken}

/-- One more entry, for an unknown selector, whose short name is set aside. -/
theorem Sound.grow (h : x.Sound) {e : Entry} (hw : y.whitelist = x.whitelist)
    (he : y.entries = x.entries ++ [e]) (hnew : x.knows e.kind e.find = false)
    (hk : ∀ k s, y.knows k s = true ↔ (k, s) = e.key ∨ x.knows k s = true)
    (hf : y.names.free = {i ∈ x.names.free | ShortName.name i ≠ e.bare.replace}) : y.Sound where
  knows_iff k s := by
    rw [hk, he, h.knows_iff, List.map_append, List.mem_append, or_comm]
    simp
  keys_nodup := by
    have hn : e.key ∉ x.entries.map Entry.key := by
      rw [Entry.key, ← h.knows_iff, hnew]
      simp
    rw [he, List.map_append, List.map_singleton]
    exact List.nodup_append.2 ⟨h.keys_nodup, by simp, by
      rintro a ha b hb rfl
      rw [List.mem_singleton] at hb
      exact hn (hb ▸ ha)⟩
  free_eq := by
    ext i
    simp only [hf, h.free_eq, taken, hw, he, Set.mem_ofPred_eq, List.map_append, List.mem_append,
      List.map_singleton, List.mem_singleton]
    tauto

/-! ## The start -/

theorem Sound.blank (w : Whitelist) : (blank w).Sound where
  knows_iff k s := by simp [knows, entries, Extraction.blank]
  keys_nodup := by simp [entries, Extraction.blank]
  free_eq := by
    ext i
    simp [taken, entries, Extraction.blank, Allocator.free_reserve, Allocator.free_new]

theorem keep_of_knows {e : Entry} (h : x.knows e.kind e.find = true) : x.keep e = x :=
  if_pos h

theorem keep_of_not_knows {e : Entry} (h : x.knows e.kind e.find = false) :
    x.keep e = { x with
      names := x.names.reserve [e.bare.replace]
      kept := x.kept.push e
      known := x.known.insertNew e.kind e.find () } :=
  if_neg (by simp [h])

theorem entries_keep {e : Entry} (hd : x.discovered = #[]) (h : x.knows e.kind e.find = false) :
    (x.keep e).entries = x.entries ++ [e] := by
  simp [keep_of_not_knows h, entries, hd]

theorem Sound.keep (h : x.Sound) (hd : x.discovered = #[]) (e : Entry) : (x.keep e).Sound := by
  cases hk : x.knows e.kind e.find with
  | true => rwa [keep_of_knows hk]
  | false =>
    have he := entries_keep hd hk
    rw [keep_of_not_knows hk] at he ⊢
    refine h.grow rfl he hk (fun k s => KindMap.contains_insertNew ..) ?_
    simp [Allocator.free_reserve]

theorem discovered_keep (x : Extraction) (e : Entry) : (x.keep e).discovered = x.discovered := by
  unfold keep; split_ifs <;> rfl

theorem whitelist_keep (x : Extraction) (e : Entry) : (x.keep e).whitelist = x.whitelist := by
  unfold keep; split_ifs <;> rfl

theorem Sound.foldl_keep (es : List Entry) (h : x.Sound) (hd : x.discovered = #[]) :
    (es.foldl Extraction.keep x).Sound := by
  induction es generalizing x with
  | nil => exact h
  | cons e es ih => exact ih (h.keep hd e) (by rw [discovered_keep, hd])

/-- **An extraction is sound at its start**, from any entries. -/
theorem Sound.start (es : List Entry) (w : Whitelist) : (start es w).Sound :=
  (Sound.blank w).foldl_keep es rfl

theorem whitelist_start (es : List Entry) (w : Whitelist) : (start es w).whitelist = w := by
  have hfold : ∀ x : Extraction, (es.foldl keep x).whitelist = x.whitelist := by
    induction es with
    | nil => exact fun _ => rfl
    | cons e es ih => intro x; rw [List.foldl_cons, ih, whitelist_keep]
  exact hfold _

theorem entries_foldl_keep (es : List Entry) (h : x.Sound) (hd : x.discovered = #[])
    (hes : ((x.entries ++ es).map Entry.key).Nodup) :
    (es.foldl keep x).entries = x.entries ++ es := by
  induction es generalizing x with
  | nil => simp
  | cons e es ih =>
    have hk : x.knows e.kind e.find = false := by
      rw [Bool.eq_false_iff, ne_eq, h.knows_iff]
      rw [List.map_append, List.map_cons] at hes
      exact fun hm => (List.nodup_append.1 hes).2.2 _ hm _ (List.mem_cons_self ..) rfl
    have hx : (x.keep e).entries = x.entries ++ [e] := entries_keep hd hk
    rw [List.foldl_cons, ih (h.keep hd e) (by rw [discovered_keep, hd]) (by simpa [hx] using hes), hx]
    simp

/-- Entries of different selectors are all kept, in order. -/
theorem entries_start {es : List Entry} (w : Whitelist) (hes : (es.map Entry.key).Nodup) :
    (start es w).entries = es :=
  entries_foldl_keep es (Sound.blank w) rfl (by simpa [entries, blank] using hes)

/-! ## One occurrence -/

theorem meet_of_rejected {o : Occurrence} {r : Reason}
    (hc : classify x.whitelist o.candidate = some r) :
    x.meet o = x.ignore o.kind (String.ofList o.candidate) r := by
  simp only [meet, hc]

theorem meet_of_knows {o : Occurrence} (hc : classify x.whitelist o.candidate = none)
    (hk : x.knows o.kind o.token = true) : x.meet o = x := by
  simp [meet, hc, hk]

theorem meet_of_not_knows {o : Occurrence} (hc : classify x.whitelist o.candidate = none)
    (hk : x.knows o.kind o.token = false) : x.meet o = x.discover o.kind o.token := by
  simp [meet, hc, hk]

/-- All that can become of an occurrence. -/
theorem meet_cases (x : Extraction) (o : Occurrence) :
    (∃ r, classify x.whitelist o.candidate = some r ∧
      x.meet o = x.ignore o.kind (String.ofList o.candidate) r) ∨
    (classify x.whitelist o.candidate = none ∧ x.knows o.kind o.token = true ∧ x.meet o = x) ∨
    (classify x.whitelist o.candidate = none ∧ x.knows o.kind o.token = false ∧
      x.meet o = x.discover o.kind o.token) := by
  cases hc : classify x.whitelist o.candidate with
  | some r => exact Or.inl ⟨r, rfl, meet_of_rejected hc⟩
  | none =>
    cases hk : x.knows o.kind o.token with
    | true => exact Or.inr (Or.inl ⟨rfl, rfl, meet_of_knows hc hk⟩)
    | false => exact Or.inr (Or.inr ⟨rfl, rfl, meet_of_not_knows hc hk⟩)

theorem entries_discover (x : Extraction) (k : Kind) (token : String) :
    (x.discover k token).entries = x.entries ++ [⟨token, k.token x.names.alloc.1, k⟩] := by
  simp [discover, entries]

theorem Sound.ignore (h : x.Sound) (k : Kind) (candidate : String) (r : Reason) :
    (x.ignore k candidate r).Sound :=
  ⟨h.knows_iff, h.keys_nodup, h.free_eq⟩

theorem Sound.discover (h : x.Sound) {k : Kind} {token : String} (hk : x.knows k token = false) :
    (x.discover k token).Sound := by
  refine h.grow rfl (entries_discover x k token) hk
    (fun l s => KindMap.contains_insertNew ..) ?_
  obtain ⟨i, -, hname, hfree⟩ := x.names.alloc_spec
  have hbare : (Entry.mk token (k.token x.names.alloc.1) k).bare.replace = ShortName.name i := by
    simp [Entry.bare, hname]
  rw [hbare]
  ext j
  simp [Extraction.discover, hfree, ShortName.name_injective.eq_iff]

/-- **An occurrence keeps an extraction sound.** -/
theorem Sound.meet (h : x.Sound) (o : Occurrence) : (x.meet o).Sound := by
  obtain ⟨r, -, he⟩ | ⟨-, -, he⟩ | ⟨-, hk, he⟩ := x.meet_cases o
  · rw [he]; exact h.ignore ..
  · rwa [he]
  · rw [he]; exact h.discover hk

theorem whitelist_meet (x : Extraction) (o : Occurrence) : (x.meet o).whitelist = x.whitelist := by
  obtain ⟨r, -, he⟩ | ⟨-, -, he⟩ | ⟨-, -, he⟩ := x.meet_cases o <;> rw [he] <;> rfl

theorem kept_meet (x : Extraction) (o : Occurrence) : (x.meet o).kept = x.kept := by
  obtain ⟨r, -, he⟩ | ⟨-, -, he⟩ | ⟨-, -, he⟩ := x.meet_cases o <;> rw [he] <;> rfl

theorem prefix_meet (x : Extraction) (o : Occurrence) : x.entries <+: (x.meet o).entries := by
  obtain ⟨r, -, he⟩ | ⟨-, -, he⟩ | ⟨-, -, he⟩ := x.meet_cases o
  · simp only [he]; exact List.prefix_refl _
  · simp only [he]; exact List.prefix_refl _
  · rw [he, entries_discover]; exact List.prefix_append ..

theorem Sound.tell (h : x.Sound) (m : Message) : (x.tell m).Sound :=
  ⟨h.knows_iff, h.keys_nodup, h.free_eq⟩

/-! ## Whole scans -/

/-- Takes in stylesheets one after another. -/
def scanAll (pacing : Pacing) (x : Extraction) (texts : List String) : Extraction :=
  texts.foldl (scan pacing) x

/-- Takes in batches of lines one after another. -/
def scanBatches (pacing : Pacing) (x : Extraction) (batches : List (List (List Char))) : Extraction :=
  batches.foldl (scanLines pacing) x

/-- The lines of a stylesheet are one batch. -/
theorem scanAll_eq (p : Pacing) (x : Extraction) (texts : List String) :
    x.scanAll p texts = x.scanBatches p (texts.map Stylesheet.lines) := by
  rw [scanBatches, List.foldl_map]
  rfl

theorem restAfter_cases (x : Extraction) (p : Pacing) (count : ℕ) :
    x.restAfter p count = x ∨ ∃ m, x.restAfter p count = x.tell m := by
  unfold restAfter
  split
  · exact Or.inr ⟨_, rfl⟩
  · exact Or.inl rfl

section
variable {R : Extraction → Extraction → Prop} (p q : Pacing)
  (hmeet : ∀ x y o, R x y → R (x.meet o) (y.meet o))
  (hleft : ∀ x y m, R x y → R (x.tell m) y) (hright : ∀ x y m, R x y → R x (y.tell m))

include hmeet in
theorem scanLine_rel (line : List Char) (h : R x y) : R (x.scanLine line) (y.scanLine line) := by
  unfold scanLine
  induction Stylesheet.occurrences line generalizing x y with
  | nil => exact h
  | cons o os ih => exact ih (hmeet x y o h)

include hleft hright in
theorem restAfter_rel (count : ℕ) (h : R x y) : R (x.restAfter p count) (y.restAfter q count) := by
  have hx : R (x.restAfter p count) y := by
    obtain he | ⟨m, he⟩ := x.restAfter_cases p count
    · rwa [he]
    · rw [he]; exact hleft _ _ _ h
  obtain he | ⟨m, he⟩ := y.restAfter_cases q count
  · rwa [he]
  · rw [he]; exact hright _ _ _ hx

include hmeet hleft hright in
theorem scanFrom_rel (lines : List (List Char)) (count : ℕ) (h : R x y) :
    R (scanFrom p x count lines) (scanFrom q y count lines) := by
  induction lines generalizing x y count with
  | nil => exact hleft _ _ _ (hright _ _ _ h)
  | cons line lines ih =>
    exact ih _ (restAfter_rel p q hleft hright _ (scanLine_rel hmeet line h))

include hmeet hleft hright in
/-- **What every occurrence and every message keeps, a scan keeps**, for two extractions side by
    side that rest as they like. -/
theorem scan_rel (text : String) (h : R x y) : R (x.scan p text) (y.scan q text) :=
  scanFrom_rel p q hmeet hleft hright _ 0 h

include hmeet hleft hright in
theorem scanAll_rel (texts : List String) (h : R x y) : R (x.scanAll p texts) (y.scanAll q texts) := by
  unfold scanAll
  induction texts generalizing x y with
  | nil => exact h
  | cons text texts ih => exact ih (scan_rel p q hmeet hleft hright text h)

end

/-- What every occurrence and every message keeps, lines keep. -/
theorem scanLines_induction {P : Extraction → Prop} (p : Pacing)
    (hmeet : ∀ x o, P x → P (x.meet o)) (htell : ∀ x m, P x → P (x.tell m))
    (lines : List (List Char)) (h : P x) : P (x.scanLines p lines) :=
  scanFrom_rel (R := fun x _ => P x) (y := x) p p (fun x _ => hmeet x) (fun x _ => htell x)
    (fun _ _ _ => id) lines 0 h

/-- What every occurrence and every message keeps, all scans keep. -/
theorem scanAll_induction {P : Extraction → Prop} (p : Pacing)
    (hmeet : ∀ x o, P x → P (x.meet o)) (htell : ∀ x m, P x → P (x.tell m))
    (texts : List String) (h : P x) : P (x.scanAll p texts) :=
  scanAll_rel (R := fun x _ => P x) (y := x) p p (fun x _ => hmeet x) (fun x _ => htell x)
    (fun _ _ _ => id) texts h

theorem Sound.scanAll (h : x.Sound) (p : Pacing) (texts : List String) : (x.scanAll p texts).Sound :=
  scanAll_induction p (fun _ o h => h.meet o) (fun _ m h => h.tell m) texts h

theorem Sound.scanBatches (h : x.Sound) (p : Pacing) (batches : List (List (List Char))) :
    (x.scanBatches p batches).Sound := by
  unfold Extraction.scanBatches
  induction batches generalizing x with
  | nil => exact h
  | cons lines batches ih =>
    exact ih (scanLines_induction p (fun _ o h => h.meet o) (fun _ m h => h.tell m) lines h)

theorem whitelist_scanAll (x : Extraction) (p : Pacing) (texts : List String) :
    (x.scanAll p texts).whitelist = x.whitelist :=
  scanAll_induction (P := fun y => y.whitelist = x.whitelist) p
    (fun y o h => (y.whitelist_meet o).trans h) (fun _ _ h => h) texts rfl

/-- The table of one extraction: it starts from some entries and takes in some stylesheets. -/
def run (p : Pacing) (w : Whitelist) (es : List Entry) (texts : List String) : RenameTable :=
  ((start es w).scanAll p texts).table

end Extraction

end SelectorRename
