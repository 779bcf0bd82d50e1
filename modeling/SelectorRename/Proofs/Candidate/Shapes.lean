/-
  The texts that are no selectors, said by their shapes.

  * `Whitelist.Protects`: the texts that the entries of a whitelist protect. A bare name of a kind is
    protected exactly if its written selector is (`Whitelist.containsToken_token`).
  * `NoSelector`: a protected text, a colour, a number, a quoted path and a query. There are more
    rules than shapes: what the rule for the end of a url fits is a quoted path, and what the rules
    for units fit is a number (`Candidate.hasPathEnd_of_isUrlSuffix`, `Candidate.isNumber_of_isMeasure`).
  * `exists_applies_iff`: some rule fits a text exactly if it has one of these shapes.
  * `classify_isSome_iff`: so a candidate is rejected exactly if it has one, blanks aside. No unit is
    ever the reason, and the order of the rules decides about the reason alone.
-/
import SelectorRename.Proofs.Candidate.Rules

namespace SelectorRename

open Text

variable {w : Whitelist} {s : List Char}

/-! ## Protected texts -/

theorem Kind.ofChars?_cons (c : Char) (s : List Char) : Kind.ofChars? (c :: s) = Kind.ofSigil? c := rfl

theorem Kind.ofChars?_eq_none_iff : Kind.ofChars? s = none ↔ ∀ k : Kind, s.head? ≠ some k.sigil := by
  cases s with
  | nil => simp [ofChars?]
  | cons c s =>
    rw [ofChars?_cons, Option.eq_none_iff_forall_ne_some]
    refine forall_congr' fun k => not_congr ?_
    rw [ofSigil?_eq_some_iff, List.head?_cons, Option.some_inj]

namespace Whitelist

/-- An entry protects the texts that it begins. One without a sigil protects the written selectors
    whose names it begins as well. -/
inductive Protects (w : Whitelist) : List Char → Prop
  | text {entry rest : List Char} : entry ∈ w.entries → Protects w (entry ++ rest)
  | name {k : Kind} {entry rest : List Char} : entry ∈ w.entries →
      (∀ l : Kind, entry.head? ≠ some l.sigil) → Protects w (k.sigil :: (entry ++ rest))

theorem containsToken_iff : w.containsToken s = true ↔ w.Protects s := by
  constructor
  · intro h
    obtain ⟨entry, hmem, hentry⟩ := List.any_eq_true.1 h
    rw [List.isPrefixOf_iff_prefix] at hentry
    split_ifs at hentry with hsigil
    · obtain ⟨rest, rfl⟩ := hentry
      exact .text hmem
    · rw [Bool.not_eq_true, Option.isSome_eq_false_iff, Option.isNone_iff_eq_none] at hsigil
      -- what an entry without a sigil is compared with depends on the first character of the text
      cases s with
      | nil =>
        obtain ⟨rest, hrest⟩ : entry <+: [] := hentry
        rw [← hrest]
        exact .text hmem
      | cons c s =>
        rcases hc : Kind.ofSigil? c with _ | k
        · rw [bareChars, Kind.ofChars?_cons, hc] at hentry
          obtain ⟨rest, hrest⟩ : entry <+: c :: s := hentry
          rw [← hrest]
          exact .text hmem
        · obtain rfl := Kind.ofSigil?_eq_some_iff.1 hc
          rw [bareChars_sigil] at hentry
          obtain ⟨rest, rfl⟩ := hentry
          exact .name hmem (Kind.ofChars?_eq_none_iff.1 hsigil)
  · intro h
    refine List.any_eq_true.2 ?_
    cases h with
    | @text entry rest hmem =>
      refine ⟨entry, hmem, List.isPrefixOf_iff_prefix.2 ?_⟩
      split_ifs with hsigil
      · exact List.prefix_append ..
      · rw [bareChars_append (w.ne_nil entry hmem), bareChars, if_neg hsigil]
        exact List.prefix_append ..
    | @name k entry rest hmem hbare =>
      refine ⟨entry, hmem, List.isPrefixOf_iff_prefix.2 ?_⟩
      rw [Kind.ofChars?_eq_none_iff.2 hbare, bareChars_sigil]
      exact List.prefix_append ..

/-- **Names and written selectors are judged alike**: a name is kept in assets exactly if its selector
    is kept in stylesheets, which is so if the entries protect it. The name may be empty, and it may
    begin with a sigil of its own. -/
theorem containsToken_token (w : Whitelist) (k : Kind) (name : String) :
    w.containsToken (k.token name).toList = w.containsName k name ∧
      (w.containsName k name = true ↔ w.Protects (k.token name).toList) := by
  have heq : w.containsToken (k.token name).toList = w.containsName k name := by
    rw [Kind.toList_token, containsToken_sigil]
  exact ⟨heq, by rw [← heq, containsToken_iff]⟩

/-- An entry that is a sigil alone protects every name of its kind, but none of the other. -/
example : (ofList ["."]).containsName .cls ".a" = true ∧ (ofList ["."]).containsName .id ".a" = false := by
  decide

end Whitelist

/-! ## Shapes -/

/-- A digit of ASCII. -/
def Digit (c : Char) : Prop := '0' ≤ c ∧ c ≤ '9'

/-- A character that a path may have before its closing quote. -/
def PathChar (c : Char) : Prop := Alnum c ∨ c ∈ ['?', '&', '/']

/-- A text of a shape that no selector has. -/
inductive NoSelector (w : Whitelist) : List Char → Prop
  | kept {text : List Char} : w.Protects text → NoSelector w text
  | color {a b c : Char} {rest : List Char} : Alnum a → Alnum b → Alnum c →
      NoSelector w ('#' :: a :: b :: c :: rest)
  | number {whole rest : List Char} {d : Char} : whole.length ≤ 1 → (∀ c ∈ whole, Digit c) → Digit d →
      NoSelector w (whole ++ '.' :: d :: rest)
  | quoted {before rest : List Char} {c q : Char} : PathChar c → q = '\'' ∨ q = '"' →
      NoSelector w (before ++ c :: q :: rest)
  | query {text : List Char} : '?' ∈ text → NoSelector w text

theorem isDigit_iff (c : Char) : c.isDigit = true ↔ Digit c := by
  delta Char.isDigit
  simp only [Bool.and_eq_true, decide_eq_true_eq]
  exact Iff.rfl

namespace Candidate

theorem isPathChar_iff (c : Char) : isPathChar c = true ↔ PathChar c := by
  simp only [isPathChar, isUrlChar, PathChar, Bool.or_eq_true, decide_eq_true_eq, isAlphanum_iff,
    List.mem_cons, List.not_mem_nil, or_false, or_assoc]

theorem isQuote_iff (q : Char) : isQuote q = true ↔ q = '\'' ∨ q = '"' := by
  simp [isQuote]

theorem isHexColor_iff : isHexColor s = true ↔
    ∃ a b c rest, s = '#' :: a :: b :: c :: rest ∧ Alnum a ∧ Alnum b ∧ Alnum c := by
  constructor
  · intro h
    unfold isHexColor at h
    split at h
    · next a b c rest =>
      simp only [Bool.and_eq_true, isAlphanum_iff] at h
      exact ⟨a, b, c, rest, rfl, h.1.1, h.1.2, h.2⟩
    · cases h
  · rintro ⟨a, b, c, rest, rfl, ha, hb, hc⟩
    simp [isHexColor, isAlphanum_iff, ha, hb, hc]

/-- Both rules for fractions together: a point and a digit, and at most one digit before them. -/
theorem isNumber_iff : isFraction s = true ∨ isDigitFraction s = true ↔
    ∃ whole d rest, s = whole ++ '.' :: d :: rest ∧ whole.length ≤ 1 ∧ (∀ c ∈ whole, Digit c) ∧
      Digit d := by
  constructor
  · rintro (h | h)
    · unfold isFraction at h
      split at h
      · next d rest => exact ⟨[], d, rest, rfl, by simp, by simp, (isDigit_iff d).1 h⟩
      · cases h
    · unfold isDigitFraction at h
      split at h
      · next n d rest =>
        simp only [Bool.and_eq_true, isDigit_iff] at h
        exact ⟨[n], d, rest, rfl, by simp, by simpa using h.1, h.2⟩
      · cases h
  · rintro ⟨whole, d, rest, rfl, hlen, hwhole, hd⟩
    match whole, hlen with
    | [], _ => exact Or.inl (by simpa [isFraction, isDigit_iff] using hd)
    | [n], _ =>
      refine Or.inr ?_
      simpa [isDigitFraction, isDigit_iff, hd] using hwhole

theorem hasPathEnd_iff : hasPathEnd s = true ↔
    ∃ before c q rest, s = before ++ c :: q :: rest ∧ PathChar c ∧ (q = '\'' ∨ q = '"') := by
  constructor
  · intro h
    induction s with
    | nil => cases h
    | cons c s ih =>
      rw [hasPathEnd, Bool.or_eq_true, Bool.and_eq_true] at h
      rcases h with ⟨hc, hquote⟩ | h
      · cases s with
        | nil => cases hquote
        | cons q rest =>
          exact ⟨[], c, q, rest, rfl, (isPathChar_iff c).1 hc, (isQuote_iff q).1 hquote⟩
      · obtain ⟨before, d, q, rest, rfl, hd, hq⟩ := ih h
        exact ⟨c :: before, d, q, rest, rfl, hd, hq⟩
  · rintro ⟨before, c, q, rest, rfl, hc, hq⟩
    induction before with
    | nil =>
      have hboth : (isPathChar c && isQuote q) = true := by
        rw [Bool.and_eq_true, isPathChar_iff, isQuote_iff]
        exact ⟨hc, hq⟩
      simp [hasPathEnd, hboth]
    | cons b before ih => rw [List.cons_append, hasPathEnd, ih, Bool.or_true]

/-- A unit stands behind a number. -/
theorem isNumber_of_isMeasure {unit : List Char} (h : isMeasure unit s = true) :
    isFraction s = true ∨ isDigitFraction s = true := by
  unfold isMeasure at h
  split at h
  · next d rest heq =>
    have hd := (Bool.and_eq_true_iff.1 h).1
    cases s with
    | nil => cases heq
    | cons n s =>
      rw [dropDigit] at heq
      split_ifs at heq with hn
      · subst heq
        exact Or.inr (by simp [isDigitFraction, hn, hd])
      · rw [heq]
        exact Or.inl hd
  · cases h

/-- The character before the quote that ends a url is a path character. -/
theorem hasPathEnd_of_isUrlSuffix (h : isUrlSuffix s = true) : hasPathEnd s = true := by
  have hrun : ∀ (t : List Char) (c : Char), isUrlChar c = true →
      (t.dropWhile isUrlChar).head? = some '"' → hasPathEnd (c :: t) = true := by
    intro t
    induction t with
    | nil => intro c _ hquote; cases hquote
    | cons x t ih =>
      intro c hc hquote
      rw [hasPathEnd, Bool.or_eq_true, Bool.and_eq_true]
      by_cases hx : isUrlChar x = true
      · rw [List.dropWhile_cons_of_pos hx] at hquote
        exact Or.inr (ih x hx hquote)
      · rw [List.dropWhile_cons_of_neg hx, List.head?_cons] at hquote
        obtain rfl := Option.some.inj hquote
        exact Or.inl ⟨by simp [isPathChar, hc], rfl⟩
  unfold isUrlSuffix at h
  split at h
  · next c t =>
    rw [Bool.and_eq_true, decide_eq_true_eq] at h
    rw [hasPathEnd, hrun t c h.1 h.2, Bool.or_true]
  · cases h

end Candidate

/-! ## All rules -/

/-- **Some rule fits exactly the texts of these shapes.** -/
theorem exists_applies_iff : (∃ r : Reason, r.applies w s = true) ↔ NoSelector w s := by
  constructor
  · rintro ⟨r, hr⟩
    have hnumber : ∀ {t}, Candidate.isFraction t = true ∨ Candidate.isDigitFraction t = true →
        NoSelector w t := by
      intro t ht
      obtain ⟨whole, d, rest, rfl, hlen, hwhole, hd⟩ := Candidate.isNumber_iff.1 ht
      exact .number hlen hwhole hd
    have hquoted : ∀ {t}, Candidate.hasPathEnd t = true → NoSelector w t := by
      intro t ht
      obtain ⟨before, c, q, rest, rfl, hc, hq⟩ := Candidate.hasPathEnd_iff.1 ht
      exact .quoted hc hq
    cases r with
    | whitelist => exact .kept (Whitelist.containsToken_iff.1 hr)
    | hexColor =>
      obtain ⟨a, b, c, rest, rfl, ha, hb, hc⟩ := Candidate.isHexColor_iff.1 hr
      exact .color ha hb hc
    | fraction => exact hnumber (Or.inl hr)
    | digitFraction => exact hnumber (Or.inr hr)
    | urlSuffix => exact hquoted (Candidate.hasPathEnd_of_isUrlSuffix hr)
    | path => exact hquoted hr
    | questionMark => exact .query (by simpa [Reason.applies] using hr)
    | time | em | rem => exact hnumber (Candidate.isNumber_of_isMeasure hr)
  · intro h
    cases h with
    | kept h => exact ⟨.whitelist, Whitelist.containsToken_iff.2 h⟩
    | @color a b c rest ha hb hc =>
      exact ⟨.hexColor, Candidate.isHexColor_iff.2 ⟨a, b, c, rest, rfl, ha, hb, hc⟩⟩
    | @number whole rest d hlen hwhole hd =>
      rcases Candidate.isNumber_iff.2 ⟨whole, d, rest, rfl, hlen, hwhole, hd⟩ with h | h
      · exact ⟨.fraction, h⟩
      · exact ⟨.digitFraction, h⟩
    | @quoted before rest c q hc hq =>
      exact ⟨.path, Candidate.hasPathEnd_iff.2 ⟨before, c, q, rest, rfl, hc, hq⟩⟩
    | query h => exact ⟨.questionMark, by simpa [Reason.applies] using h⟩

namespace Reason

/-- The rules that come before those for units. -/
def reported : List Reason :=
  [.whitelist, .hexColor, .fraction, .digitFraction, .urlSuffix, .path, .questionMark]

/-- Whatever a rule fits, one of these fits as well. -/
theorem exists_reported_of_applies {r : Reason} (h : r.applies w s = true) :
    ∃ q ∈ reported, q.applies w s = true := by
  cases r with
  | time | em | rem =>
    rcases Candidate.isNumber_of_isMeasure h with h | h
    · exact ⟨.fraction, by decide, h⟩
    · exact ⟨.digitFraction, by decide, h⟩
  | _ => exact ⟨_, by decide, h⟩

end Reason

/-- If no rule before those for units fits, these do not fit either. -/
theorem classify_eq_find?_reported (w : Whitelist) (candidate : List Char) :
    classify w candidate = Reason.reported.find? (·.applies w (trim candidate)) := by
  have hall : classify w candidate =
      (Reason.reported ++ [Reason.time, .em, .rem]).find? (·.applies w (trim candidate)) := rfl
  rw [hall, List.find?_append]
  cases hfirst : Reason.reported.find? (·.applies w (trim candidate)) with
  | some r => rw [Option.some_or]
  | none =>
    rw [Option.none_or, List.find?_eq_none]
    intro r _ hr
    obtain ⟨q, hq, hfits⟩ := Reason.exists_reported_of_applies hr
    exact List.find?_eq_none.1 hfirst q hq hfits

/-- **A candidate is rejected exactly if it has one of these shapes**, blanks around it aside. The
    reason is never a unit, and in another order the rules reject the same candidates. -/
theorem classify_isSome_iff (w : Whitelist) (candidate : List Char) :
    ((classify w candidate).isSome = true ↔ ∃ text, Trimmed candidate text ∧ NoSelector w text) ∧
      (∀ r, classify w candidate = some r → r ∉ [.time, .em, .rem]) ∧
      ∀ order : List Reason, order.Perm Reason.all →
        (order.find? (·.applies w (trim candidate))).isSome = (classify w candidate).isSome := by
  have hsome : ∀ order : List Reason, order.Perm Reason.all →
      ((order.find? (·.applies w (trim candidate))).isSome = true ↔
        ∃ r : Reason, r.applies w (trim candidate) = true) := by
    intro order horder
    rw [List.find?_isSome]
    exact ⟨fun ⟨r, _, hr⟩ => ⟨r, hr⟩, fun ⟨r, hr⟩ => ⟨r, horder.mem_iff.2 r.mem_all, hr⟩⟩
  refine ⟨?_, ?_, ?_⟩
  · rw [classify, hsome _ (List.Perm.refl _), exists_applies_iff]
    constructor
    · exact fun h => ⟨_, trimmed_trim candidate, h⟩
    · rintro ⟨text, htext, h⟩
      rwa [trimmed_iff.1 htext]
  · intro r hr
    rw [classify_eq_find?_reported] at hr
    have hdisjoint : ∀ r ∈ Reason.reported, r ∉ [Reason.time, .em, .rem] := by decide
    exact hdisjoint r (List.mem_of_find?_eq_some hr)
  · intro order horder
    rw [Bool.eq_iff_iff, hsome order horder, classify, hsome _ (List.Perm.refl _)]

-- A measure is rejected as a number; asked first, the rule for its unit would be the reason.
example :
    classify (.ofList []) " .25em ".toList = some .fraction ∧
      (Reason.all.reverse.find? (·.applies (.ofList []) (trim " .25em ".toList))) = some .em := by
  decide +kernel

end SelectorRename
