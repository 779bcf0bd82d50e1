/-
  Several extractions, one after another, are one extraction.

  * `Extraction.Agree`: two extractions with the same whitelist and the same entries in some order.
  * `Extraction.Agree.scanAll`: they discover the same, under the same short names.
  * `Extraction.run_append`: an extraction that starts from the table of another one goes on where
    that one ended, although its entries are sorted and its allocator is new.
  * `Extraction.foldl_run_eq_run`: hence a table that takes in stylesheets one by one is the table
    of all of them.
-/
import SelectorRename.Proofs.Extraction.Invariant
import SelectorRename.Proofs.Sorting

namespace SelectorRename.Extraction

variable {x y : Extraction}

/-- Two extractions that differ in the order of their entries at most. -/
structure Agree (x y : Extraction) : Prop where
  left : x.Sound
  right : y.Sound
  whitelist_eq : x.whitelist = y.whitelist
  entries_perm : x.entries.Perm y.entries

theorem Agree.knows_eq (h : Agree x y) (k : Kind) (s : String) : x.knows k s = y.knows k s := by
  rw [Bool.eq_iff_iff, h.left.knows_iff, h.right.knows_iff]
  exact (h.entries_perm.map _).mem_iff

/-- The next short name does not depend on the order of the entries. -/
theorem Agree.alloc_eq (h : Agree x y) : x.names.alloc.1 = y.names.alloc.1 := by
  refine Allocator.alloc_eq_of_free_eq ?_
  have htaken : ∀ s, s ∈ x.taken ↔ s ∈ y.taken := by
    intro s
    simp only [taken, h.whitelist_eq, List.mem_append, (h.entries_perm.map _).mem_iff]
  rw [h.left.free_eq, h.right.free_eq]
  simp only [htaken]

/-- Both have the same new entries behind those of `x₀` and `y₀`. -/
def GrowAlike (x₀ y₀ x y : Extraction) : Prop :=
  Agree x y ∧ ∃ new, x.entries = x₀.entries ++ new ∧ y.entries = y₀.entries ++ new

theorem GrowAlike.meet {x₀ y₀ : Extraction} (h : GrowAlike x₀ y₀ x y) (o : Occurrence) :
    GrowAlike x₀ y₀ (x.meet o) (y.meet o) := by
  obtain ⟨ha, new, hx, hy⟩ := h
  have hw : (x.meet o).whitelist = (y.meet o).whitelist := by
    rw [whitelist_meet, whitelist_meet, ha.whitelist_eq]
  have hxm := ha.left.meet o
  have hym := ha.right.meet o
  obtain ⟨r, hc, he⟩ | ⟨hc, hk, he⟩ | ⟨hc, hk, he⟩ := x.meet_cases o
  · rw [he] at hw hxm ⊢
    rw [meet_of_rejected (ha.whitelist_eq ▸ hc)] at hw hym ⊢
    exact ⟨⟨hxm, hym, hw, ha.entries_perm⟩, new, hx, hy⟩
  · rw [he] at hw hxm ⊢
    rw [meet_of_knows (ha.whitelist_eq ▸ hc) (ha.knows_eq .. ▸ hk)] at hw hym ⊢
    exact ⟨ha, new, hx, hy⟩
  · -- the only step that adds an entry; its short name is the same on both sides
    rw [he] at hw hxm ⊢
    rw [meet_of_not_knows (ha.whitelist_eq ▸ hc) (ha.knows_eq .. ▸ hk)] at hw hym ⊢
    have hex := entries_discover x o.kind o.token
    have hey := entries_discover y o.kind o.token
    rw [← ha.alloc_eq] at hey
    refine ⟨⟨hxm, hym, hw, ?_⟩, new ++ [⟨o.token, o.kind.token x.names.alloc.1, o.kind⟩], ?_, ?_⟩
    · rw [hex, hey]
      exact ha.entries_perm.append_right _
    · rw [hex, hx, List.append_assoc]
    · rw [hey, hy, List.append_assoc]

/-- **Extractions that agree discover the same.** -/
theorem Agree.scanAll (h : Agree x y) (p q : Pacing) (texts : List String) :
    ∃ new, (x.scanAll p texts).entries = x.entries ++ new ∧
      (y.scanAll q texts).entries = y.entries ++ new := by
  have hgrow : GrowAlike x y (x.scanAll p texts) (y.scanAll q texts) :=
    scanAll_rel p q (fun _ _ o h => h.meet o)
      (fun _ _ m ⟨ha, hnew⟩ => ⟨⟨ha.left.tell m, ha.right, ha.whitelist_eq, ha.entries_perm⟩, hnew⟩)
      (fun _ _ m ⟨ha, hnew⟩ => ⟨⟨ha.left, ha.right.tell m, ha.whitelist_eq, ha.entries_perm⟩, hnew⟩)
      texts ⟨h, [], by simp, by simp⟩
  exact hgrow.2

/-! ## One extraction after another -/

theorem table_congr (h : RenameTable.longestFirst x.entries = RenameTable.longestFirst y.entries) :
    x.table = y.table := by
  simp only [table, RenameTable.ofEntries, h]

theorem Sound.entries_start_table (h : x.Sound) (w : Whitelist) :
    (Extraction.start x.table.css w).entries = RenameTable.longestFirst x.entries :=
  entries_start w
    (((RenameTable.longestFirst_perm x.entries).map Entry.key).nodup_iff.2 h.keys_nodup)

/-- An extraction that ends and one that starts from its table agree. -/
theorem Sound.agree_start (h : x.Sound) :
    Agree x (Extraction.start x.table.css x.whitelist) where
  left := h
  right := .start _ _
  whitelist_eq := (whitelist_start _ _).symm
  entries_perm := by
    rw [h.entries_start_table]
    exact (RenameTable.longestFirst_perm x.entries).symm

/-- An extraction can be ended and taken up again from its table at any time. -/
theorem Sound.table_scanAll_start (h : x.Sound) (p q : Pacing) (texts : List String) :
    ((Extraction.start x.table.css x.whitelist).scanAll q texts).table =
      (x.scanAll p texts).table := by
  obtain ⟨new, hx, hy⟩ := h.agree_start.scanAll p q texts
  rw [h.entries_start_table] at hy
  -- that the first entries were sorted early makes no difference
  have hsort := RenameTable.longestFirst_append_longestFirst x.entries new
  rw [← hx, ← hy] at hsort
  exact table_congr hsort

/-- **An extraction from the table of another one goes on where that one ended.** -/
theorem run_append (p q : Pacing) (w : Whitelist) (es : List Entry) (texts more : List String) :
    run q w (run p w es texts).css more = run p w es (texts ++ more) := by
  have hs := (Sound.start es w).scanAll p texts
  have hw : ((start es w).scanAll p texts).whitelist = w := by
    rw [whitelist_scanAll, whitelist_start]
  have hrest := hs.table_scanAll_start p q more
  rw [hw] at hrest
  rw [run, run, hrest, run, scanAll, scanAll, scanAll, List.foldl_append]

/-- **Taking in stylesheets one by one**, each from the table that the one before it left, gives the
    table of a single extraction over all of them. -/
theorem foldl_run_eq_run (p : Pacing) (w : Whitelist) (es : List Entry) (text : String)
    (texts : List String) :
    texts.foldl (fun t text => run p w t.css [text]) (run p w es [text]) =
      run p w es (text :: texts) := by
  have hfrom : ∀ done, texts.foldl (fun t text => run p w t.css [text]) (run p w es done) =
      run p w es (done ++ texts) := by
    induction texts with
    | nil => simp
    | cons text texts ih =>
      intro done
      rw [List.foldl_cons, run_append, ih, List.append_assoc, List.singleton_append]
  exact hfrom [text]

end SelectorRename.Extraction
