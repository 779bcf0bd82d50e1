/-
  Rules under which a candidate is rejected, for longer texts and longer whitelists.

  * `Whitelist.prefix_token_eq`: an entry fits a written selector if it fits the bare name of its
    kind, so that stylesheets and assets are judged alike.
  * `Reason.applies_append`: no rule looks at how a text ends, so what fits a text fits every text
    that it begins.
  * `Reason.applies_of_subset`: what fits under some entries fits under more of them.
  * `classify_eq_none_iff`: a candidate is a selector if no rule fits; `classify_of_append`: hence
    what a longer candidate passes, its beginning passes too, blanks aside.
  * `classify_append_eq_some`: with more text behind it and under a longer whitelist, a rejected
    candidate stays rejected, by the same rule or by one that is asked before it.
-/
import SelectorRename.Proofs.Text.Trimming
import Mathlib.Data.List.Infix
import Mathlib.Tactic.SplitIfs

namespace SelectorRename

variable {w w' : Whitelist} {s t : List Char}

theorem isPrefixOf_append {p : List Char} (h : p.isPrefixOf s = true) (t : List Char) :
    p.isPrefixOf (s ++ t) = true := by
  rw [List.isPrefixOf_iff_prefix] at h ⊢
  exact h.trans (List.prefix_append s t)

/-! ## The whitelist -/

theorem bareChars_append (hs : s ≠ []) (t : List Char) : bareChars (s ++ t) = bareChars s ++ t := by
  obtain ⟨c, s, rfl⟩ := List.exists_cons_of_ne_nil hs
  have hkind : Kind.ofChars? (c :: s ++ t) = Kind.ofChars? (c :: s) := rfl
  rw [bareChars, bareChars, hkind]
  split_ifs <;> rfl

namespace Whitelist

/-- An entry fits a written selector exactly if it fits the name, for the kind of the selector. -/
theorem prefix_token_eq {entry : List Char} (hne : entry ≠ []) (k : Kind) (name : List Char) :
    entry.isPrefixOf (if (Kind.ofChars? entry).isSome then k.sigil :: name else name) =
      match Kind.ofChars? entry with
      | some kind => kind = k && (bareChars entry).isPrefixOf name
      | none => entry.isPrefixOf name := by
  obtain ⟨c, rest, rfl⟩ := List.exists_cons_of_ne_nil hne
  have hof : Kind.ofChars? (c :: rest) = Kind.ofSigil? c := rfl
  rw [bareChars, hof]
  rcases hc : Kind.ofSigil? c with _ | kind
  · simp
  · obtain rfl := Kind.ofSigil?_eq_some_iff.1 hc
    have hsigil : (kind.sigil == k.sigil) = decide (kind = k) := by
      cases kind <;> cases k <;> rfl
    simp [List.isPrefixOf, hsigil]

theorem bareChars_sigil (k : Kind) (s : List Char) : bareChars (k.sigil :: s) = s := by
  cases k <;> rfl

/-- What protects a name protects its written selector, and nothing else does. -/
theorem containsToken_sigil (w : Whitelist) (k : Kind) (name : String) :
    w.containsToken (k.sigil :: name.toList) = w.containsName k name := by
  rw [Bool.eq_iff_iff, containsToken, containsName, List.any_eq_true, List.any_eq_true,
    bareChars_sigil]
  refine exists_congr fun entry => and_congr_right fun hmem => ?_
  have hfits := prefix_token_eq (w.ne_nil entry hmem) k name.toList
  exact iff_of_eq (congrArg (· = true) hfits)

theorem containsToken_nil (w : Whitelist) : w.containsToken [] = false := by
  refine List.any_eq_false.2 fun entry hmem hentry => w.ne_nil entry hmem ?_
  simpa [bareChars, Kind.ofChars?] using hentry

theorem containsToken_append (h : w.containsToken s = true) (t : List Char) :
    w.containsToken (s ++ t) = true := by
  have hs : s ≠ [] := by
    rintro rfl
    simp [containsToken_nil] at h
  obtain ⟨entry, hmem, hentry⟩ := List.any_eq_true.1 h
  refine List.any_eq_true.2 ⟨entry, hmem, ?_⟩
  rw [bareChars_append hs]
  split_ifs at hentry ⊢
  · exact isPrefixOf_append hentry t
  · exact isPrefixOf_append hentry t

theorem containsToken_of_subset (hw : w.entries ⊆ w'.entries) (h : w.containsToken s = true) :
    w'.containsToken s = true := by
  obtain ⟨entry, hmem, hentry⟩ := List.any_eq_true.1 h
  exact List.any_eq_true.2 ⟨entry, hw hmem, hentry⟩

end Whitelist

/-! ## Shapes -/

namespace Candidate

theorem isHexColor_append (h : isHexColor s = true) (t : List Char) : isHexColor (s ++ t) = true := by
  unfold isHexColor at h
  split at h
  · exact h
  · cases h

theorem isFraction_append (h : isFraction s = true) (t : List Char) : isFraction (s ++ t) = true := by
  unfold isFraction at h
  split at h
  · exact h
  · cases h

theorem isDigitFraction_append (h : isDigitFraction s = true) (t : List Char) :
    isDigitFraction (s ++ t) = true := by
  unfold isDigitFraction at h
  split at h
  · exact h
  · cases h

theorem isUrlSuffix_append (h : isUrlSuffix s = true) (t : List Char) :
    isUrlSuffix (s ++ t) = true := by
  unfold isUrlSuffix at h
  split at h
  · next c s =>
    rw [Bool.and_eq_true, decide_eq_true_eq] at h
    -- the closing quote is still the first character that is no part of the ending
    have hne : (s.dropWhile isUrlChar).isEmpty = false := by
      rw [List.isEmpty_eq_false_iff]
      intro hnil
      simp [hnil] at h
    simp [isUrlSuffix, List.dropWhile_append, hne, h.1, List.head?_append, h.2]
  · cases h

theorem hasPathEnd_append (h : hasPathEnd s = true) (t : List Char) : hasPathEnd (s ++ t) = true := by
  induction s with
  | nil => cases h
  | cons c s ih =>
    rw [hasPathEnd, Bool.or_eq_true, Bool.and_eq_true] at h
    rw [List.cons_append, hasPathEnd, Bool.or_eq_true, Bool.and_eq_true]
    rcases h with ⟨hc, hquote⟩ | h
    · refine Or.inl ⟨hc, ?_⟩
      cases s with
      | nil => cases hquote
      | cons q s => exact hquote
    · exact Or.inr (ih h)

theorem dropDigit_append (hs : s ≠ []) (t : List Char) : dropDigit (s ++ t) = dropDigit s ++ t := by
  obtain ⟨c, s, rfl⟩ := List.exists_cons_of_ne_nil hs
  simp only [List.cons_append, dropDigit]
  split <;> rfl

theorem dropDigit_isPrefix (s t : List Char) : dropDigit s <+: dropDigit (s ++ t) := by
  by_cases hs : s = []
  · rw [hs]; exact List.nil_prefix
  · rw [dropDigit_append hs]; exact List.prefix_append ..

theorem isMeasure_append {unit : List Char} (h : isMeasure unit s = true) (t : List Char) :
    isMeasure unit (s ++ t) = true := by
  have hs : s ≠ [] := by rintro rfl; cases h
  unfold isMeasure at h ⊢
  split at h
  · next d rest heq =>
    rw [Bool.and_eq_true, Bool.or_eq_true] at h
    rw [dropDigit_append hs, heq]
    simp only [List.cons_append, Bool.and_eq_true, Bool.or_eq_true]
    refine ⟨h.1, h.2.imp (isPrefixOf_append · t) fun hunit => ?_⟩
    rw [List.isPrefixOf_iff_prefix] at hunit ⊢
    exact hunit.trans (dropDigit_isPrefix rest t)
  · cases h

end Candidate

/-! ## All rules -/

namespace Reason

/-- **What fits a text fits every text that it begins.** -/
theorem applies_append {r : Reason} (h : r.applies w s = true) (t : List Char) :
    r.applies w (s ++ t) = true := by
  cases r with
  | whitelist => exact w.containsToken_append h t
  | hexColor => exact Candidate.isHexColor_append h t
  | fraction => exact Candidate.isFraction_append h t
  | digitFraction => exact Candidate.isDigitFraction_append h t
  | urlSuffix => exact Candidate.isUrlSuffix_append h t
  | path => exact Candidate.hasPathEnd_append h t
  | questionMark =>
    simp only [applies, List.contains_eq_mem, decide_eq_true_eq] at h ⊢
    exact List.mem_append_left t h
  | time | em | rem => exact Candidate.isMeasure_append h t

/-- What fits under a whitelist fits under every longer one. -/
theorem applies_of_subset {r : Reason} (hw : w.entries ⊆ w'.entries) (h : r.applies w s = true) :
    r.applies w' s = true := by
  cases r with
  | whitelist => exact Whitelist.containsToken_of_subset hw h
  | _ => exact h

theorem not_applies_nil (w : Whitelist) (r : Reason) : r.applies w [] = false := by
  cases r with
  | whitelist => exact w.containsToken_nil
  | _ => rfl

/-- What fits a trimmed text fits every longer one, trimmed. -/
theorem applies_trim_append {r : Reason} (h : r.applies w (Text.trim s) = true) (t : List Char) :
    r.applies w (Text.trim (s ++ t)) = true := by
  have hne : Text.trim s ≠ [] := by
    intro hnil
    rw [hnil, not_applies_nil] at h
    cases h
  obtain ⟨more, hmore⟩ := Text.trim_prefix_append hne t
  rw [← hmore]
  exact applies_append h more

end Reason

/-! ## Classification -/

theorem classify_eq_none_iff : classify w s = none ↔ ∀ r : Reason, r.applies w (Text.trim s) = false := by
  simp only [classify, List.find?_eq_none, Bool.not_eq_true]
  exact ⟨fun h r => h r r.mem_all, fun h r _ => h r⟩

theorem classify_of_subset (hw : w.entries ⊆ w'.entries) (h : classify w' s = none) :
    classify w s = none := by
  rw [classify_eq_none_iff] at h ⊢
  intro r
  refine Bool.eq_false_iff.2 fun hr => ?_
  exact absurd (Reason.applies_of_subset hw hr) (by simp [h r])

theorem trim_of_not_blank (hs : ∀ c ∈ s, Text.isBlank c = false) : Text.trim s = s := by
  have hhead : ∀ c ∈ s.head?, ¬ Text.isBlank c = true := fun c hc => by
    simp [hs c (List.mem_of_mem_head? hc)]
  have hlast : ∀ c ∈ s.reverse.head?, ¬ Text.isBlank c = true := fun c hc => by
    simp [hs c (List.mem_reverse.1 (List.mem_of_mem_head? hc))]
  exact Text.trimmed_iff.1 ⟨[], [], by simp, ⟨by simp, by simpa using hhead⟩, ⟨by simp, hlast⟩⟩

/-- **What a longer candidate passes, its beginning passes too.** -/
theorem classify_of_append (h : classify w (s ++ t) = none) : classify w s = none := by
  rw [classify_eq_none_iff] at h ⊢
  intro r
  refine Bool.eq_false_iff.2 fun hr => ?_
  exact absurd (Reason.applies_trim_append hr t) (by simp [h r])

/-- Of the members of a list that pass a test, the first one found comes no later than any other. -/
theorem idxOf_le_of_find? {α : Type} [BEq α] [LawfulBEq α] {p : α → Bool} {l : List α} {a b : α}
    (ha : l.find? p = some a) (hb : p b = true) : l.idxOf a ≤ l.idxOf b := by
  induction l with
  | nil => cases ha
  | cons c l ih =>
    rw [List.find?_cons] at ha
    split at ha
    · obtain rfl := Option.some.inj ha
      simp
    · next hc =>
      have hca : c ≠ a := by rintro rfl; simp [List.find?_some ha] at hc
      have hcb : c ≠ b := by rintro rfl; simp [hb] at hc
      rw [List.idxOf_cons_ne _ hca, List.idxOf_cons_ne _ hcb]
      exact Nat.succ_le_succ (ih ha)

/-- **A rejected candidate stays rejected** when more text follows, blanks or not, and more names are
    protected. Its rule still fits, so the one that is reported is asked no later. -/
theorem classify_append_eq_some (hw : w.entries ⊆ w'.entries) {r : Reason}
    (h : classify w s = some r) (t : List Char) :
    ∃ r', classify w' (s ++ t) = some r' ∧ Reason.all.idxOf r' ≤ Reason.all.idxOf r := by
  have hfits : r.applies w' (Text.trim (s ++ t)) = true :=
    Reason.applies_of_subset hw (Reason.applies_trim_append (List.find?_some h) t)
  have hsome : (classify w' (s ++ t)).isSome = true := List.find?_isSome.2 ⟨r, r.mem_all, hfits⟩
  obtain ⟨r', hr'⟩ := Option.isSome_iff_exists.1 hsome
  exact ⟨r', hr', idxOf_le_of_find? hr' hfits⟩

/-- The blanks behind the colour become part of the longer candidate, and the second whitelist
    protects both. -/
theorem classify_append_color :
    (Whitelist.ofList ["x"]).entries ⊆ (Whitelist.ofList ["ff", "x"]).entries ∧
      classify (.ofList ["x"]) "\u2003#fff \t".toList = some .hexColor ∧
      classify (.ofList ["ff", "x"]) ("\u2003#fff \t".toList ++ "\n?x ".toList) = some .whitelist ∧
      ∃ r', classify (.ofList ["ff", "x"]) ("\u2003#fff \t".toList ++ "\n?x ".toList) = some r' ∧
        Reason.all.idxOf r' ≤ Reason.all.idxOf .hexColor := by
  have hw : (Whitelist.ofList ["x"]).entries ⊆ (Whitelist.ofList ["ff", "x"]).entries := by decide
  have hcolor : classify (.ofList ["x"]) "\u2003#fff \t".toList = some .hexColor := by decide +kernel
  exact ⟨hw, hcolor, by decide +kernel, classify_append_eq_some hw hcolor "\n?x ".toList⟩

end SelectorRename
