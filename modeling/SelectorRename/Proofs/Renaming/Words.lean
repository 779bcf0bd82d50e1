/-
  What the literal rules do to the words of a text.

  * `LiteralRule.Wins`: of the rules that fit a word the one with the longest name renames it, and of
    those with one name the one that is configured first.
  * `RenamesWord`, `RenamesWords`: what becomes of a word, and of a text: a word ends before a space
    or a quote, and what stands behind the last of these is no word.
  * `Substitution.content_applyLiterals_word`: one substitution after another changes the ends of
    words alone, and `Substitution.Apart.endAll_eq` says that only one of them changes a word if none
    finds what another one wrote.
  * `Renamer.literalsOf_eq_of_wins`: the rule that wins is the first one to try a word.
  * `Renamer.renamesWords_iff`: so all rules in turn rename each word once, by the rule that wins.
-/
import SelectorRename.Proofs.Renaming.Literal
import SelectorRename.Proofs.Renaming.Lookup
import SelectorRename.Proofs.Sorting
import Mathlib.Tactic.MkIffOfInductiveProp

namespace SelectorRename

open Literal

/-! ## The rule for a word -/

/-- A rule with an entry whose name ends a word. -/
def LiteralRule.Fits (l : Lookup) (w : List Char) (r : LiteralRule) : Prop :=
  (l.get? r.kind r.find).isSome ∧ r.find.toList <:+ w

/-- Among some rules, the one that renames a word: of those that fit, none has a longer name, and
    none before it has one of the same length. -/
def LiteralRule.Wins (l : Lookup) (w : List Char) (rules : List LiteralRule) (r : LiteralRule) :
    Prop :=
  r.Fits l w ∧ ∃ before behind, rules = before ++ r :: behind ∧
    (∀ q ∈ before, q.Fits l w → q.find.length < r.find.length) ∧
    ∀ q ∈ behind, q.Fits l w → q.find.length ≤ r.find.length

/-- What becomes of a word: the winning rule replaces its end, if any rule fits. -/
inductive RenamesWord (l : Lookup) (rules : List LiteralRule) : List Char → List Char → Prop
  | renamed {r : LiteralRule} {replacement : String} {u : List Char} :
      r.Wins l (u ++ r.find.toList) rules → l.get? r.kind r.find = some replacement →
      RenamesWord l rules (u ++ r.find.toList) (u ++ replacement.toList)
  | kept {w : List Char} : (∀ r ∈ rules, ¬ r.Fits l w) → RenamesWord l rules w w

/-- What becomes of a text: every word that a delimiter ends is renamed, and all else stays. -/
inductive RenamesWords (l : Lookup) (rules : List LiteralRule) : List Char → List Char → Prop
  | tail {w : List Char} : (∀ c ∈ w, ¬ Delimiter c) → RenamesWords l rules w w
  | word {w w' rest out : List Char} {d : Char} : (∀ c ∈ w, ¬ Delimiter c) → Delimiter d →
      RenamesWord l rules w w' → RenamesWords l rules rest out →
      RenamesWords l rules (w ++ d :: rest) (w' ++ d :: out)

variable {l : Lookup} {rules : List LiteralRule} {w : List Char}

theorem LiteralRule.Wins.length_le {q r : LiteralRule} (h : r.Wins l w rules) (hq : q ∈ rules)
    (hfit : q.Fits l w) : q.find.length ≤ r.find.length := by
  obtain ⟨-, before, behind, rfl, hbefore, hbehind⟩ := h
  rcases List.mem_append.1 hq with hq | hq
  · exact (hbefore q hq hfit).le
  · rcases List.mem_cons.1 hq with rfl | hq
    · exact le_rfl
    · exact hbehind q hq hfit

/-- Some rule wins, unless none fits. -/
theorem exists_wins_or (l : Lookup) (w : List Char) (rules : List LiteralRule) :
    (∃ r : LiteralRule, r.Wins l w rules) ∨ ∀ r ∈ rules, ¬ r.Fits l w := by
  induction rules with
  | nil => simp
  | cons q rules ih =>
    rcases ih with ⟨r, hr⟩ | hnone
    · by_cases hq : q.Fits l w ∧ r.find.length ≤ q.find.length
      · exact .inl ⟨q, hq.1, [], rules, rfl, by simp,
          fun p hp hfitp => (hr.length_le hp hfitp).trans hq.2⟩
      · obtain ⟨hfit, before, behind, rfl, hbefore, hbehind⟩ := hr
        refine .inl ⟨r, hfit, q :: before, behind, rfl, fun p hp hfitp => ?_, hbehind⟩
        rcases List.mem_cons.1 hp with rfl | hp
        · exact not_le.1 fun hle => hq ⟨hfitp, hle⟩
        · exact hbefore p hp hfitp
    · by_cases hq : q.Fits l w
      · exact .inl ⟨q, hq, [], rules, rfl, by simp, fun p hp hfitp => absurd hfitp (hnone p hp)⟩
      · exact .inr fun p hp => by
          rcases List.mem_cons.1 hp with rfl | hp
          · exact hq
          · exact hnone p hp

theorem exists_renamesWord (l : Lookup) (rules : List LiteralRule) (w : List Char) :
    ∃ w', RenamesWord l rules w w' := by
  rcases exists_wins_or l w rules with ⟨r, hr⟩ | hnone
  · obtain ⟨replacement, hget⟩ := Option.isSome_iff_exists.1 hr.1.1
    obtain ⟨u, rfl⟩ := hr.1.2
    exact ⟨_, .renamed hr hget⟩
  · exact ⟨w, .kept hnone⟩

theorem exists_renamesWords (l : Lookup) (rules : List LiteralRule) (text : List Char) :
    ∃ out, RenamesWords l rules text out := by
  -- the word in front grows by one character, or a delimiter ends it
  suffices ∀ w, (∀ c ∈ w, ¬ Delimiter c) → ∃ out, RenamesWords l rules (w ++ text) out from
    this [] (by simp)
  induction text with
  | nil => exact fun w hw => ⟨w, by simpa using RenamesWords.tail hw⟩
  | cons c text ih =>
    intro w hw
    by_cases hc : Delimiter c
    · obtain ⟨out, hout⟩ := ih [] (by simp)
      obtain ⟨w', hw'⟩ := exists_renamesWord l rules w
      exact ⟨_, .word hw hc hw' hout⟩
    · rw [List.append_cons]
      exact ih (w ++ [c]) (by simpa [or_imp, forall_and, hc] using hw)

/-! ## Substitutions one after another -/

theorem Literal.replace_of_count_eq_zero {find replacement text : List Char}
    (h : (replace find replacement text).2 = 0) : (replace find replacement text).1 = text := by
  by_cases hne : find = []
  · rw [hne]; rfl
  · induction text with
    | nil => rw [replace_nil]
    | cons x s ih =>
      rw [replace_cons hne] at h ⊢
      split_ifs at h ⊢
      exact congrArg (x :: ·) (ih h)

namespace Substitution

theorem content_applyLiteral (r : Substitution) (text : List Char) :
    (Renamer.applyLiteral r text).content =
      (replace r.find.toList r.replacement.toList text).1 := by
  simp only [Renamer.applyLiteral]
  split_ifs with h
  · rfl
  · exact (replace_of_count_eq_zero (Nat.eq_zero_of_not_pos h)).symm

/-- A word after some substitutions, each one at its end. -/
def endAll (rs : List Substitution) (w : List Char) : List Char :=
  rs.foldl (fun w r => replaceEnd r.find.toList r.replacement.toList w) w

/-- A substitution whose texts have no delimiter, so that it moves no end of a word. -/
@[mk_iff]
structure Plain (r : Substitution) : Prop where
  find : ∀ c ∈ r.find.toList, ¬ Delimiter c
  replacement : ∀ c ∈ r.replacement.toList, ¬ Delimiter c

instance : DecidablePred Plain := fun r =>
  have (s : List Char) : Decidable (∀ c ∈ s, ¬ Delimiter c) := List.decidableBAll _ s
  decidable_of_iff _ (plain_iff r).symm

/-- No text to find ends a replacement, and no replacement ends a text to find. -/
def Apart (rs : List Substitution) : Prop :=
  ∀ r ∈ rs, ∀ q ∈ rs, ¬ r.find.toList <:+ q.replacement.toList ∧
    ¬ q.replacement.toList <:+ r.find.toList

instance (rs : List Substitution) : Decidable (Apart rs) :=
  inferInstanceAs (Decidable (∀ r ∈ rs, ∀ q ∈ rs, _ ∧ _))

variable {r : Substitution} {rs : List Substitution} {w rest : List Char} {d : Char}

theorem Plain.replaceEnd_plain (h : r.Plain) (hw : ∀ c ∈ w, ¬ Delimiter c) :
    ∀ c ∈ replaceEnd r.find.toList r.replacement.toList w, ¬ Delimiter c := by
  intro c hc
  unfold replaceEnd at hc
  split_ifs at hc
  · rcases List.mem_append.1 hc with hc | hc
    · exact hw c (List.mem_of_mem_take hc)
    · exact h.replacement c hc
  · exact hw c hc

theorem Apart.find_ne_nil (h : Apart rs) (hr : r ∈ rs) : r.find.toList ≠ [] :=
  fun heq => (h r hr r hr).1 (heq ▸ List.nil_suffix)

/-- **Substitutions change the ends of words alone.** -/
theorem content_applyLiterals_word (hne : ∀ r ∈ rs, r.find.toList ≠ []) (hrs : ∀ r ∈ rs, r.Plain)
    (hw : ∀ c ∈ w, ¬ Delimiter c) (hd : Delimiter d) :
    (Renamer.applyLiterals rs (w ++ d :: rest)).content =
      endAll rs w ++ d :: (Renamer.applyLiterals rs rest).content := by
  induction rs generalizing w rest with
  | nil => rfl
  | cons r rs ih =>
    simp only [List.forall_mem_cons] at hne hrs
    simp only [Renamer.applyLiterals, Renamed.andThen, content_applyLiteral]
    rw [replace_word hne.1 hrs.1.find hw hd, ih hne.2 hrs.2 (hrs.1.replaceEnd_plain hw)]
    rfl

theorem content_applyLiterals_tail (hne : ∀ r ∈ rs, r.find.toList ≠ [])
    (hw : ∀ c ∈ w, ¬ Delimiter c) : (Renamer.applyLiterals rs w).content = w := by
  induction rs with
  | nil => rfl
  | cons r rs ih =>
    simp only [List.forall_mem_cons] at hne
    simp only [Renamer.applyLiterals, Renamed.andThen, content_applyLiteral]
    rw [replace_tail hne.1 hw, ih hne.2]

theorem endAll_of_not_suffix (h : ∀ r ∈ rs, ¬ r.find.toList <:+ w) : endAll rs w = w := by
  induction rs with
  | nil => rfl
  | cons r rs ih =>
    rw [endAll, List.foldl_cons, replaceEnd_of_not_suffix (h r List.mem_cons_self)]
    exact ih fun q hq => h q (List.mem_cons_of_mem _ hq)

/-- The first substitution whose text ends a word is the only one that changes it. -/
theorem Apart.endAll_eq {before behind : List Substitution} {u : List Char}
    (h : Apart (before ++ r :: behind))
    (hbefore : ∀ q ∈ before, ¬ q.find.toList <:+ u ++ r.find.toList) :
    endAll (before ++ r :: behind) (u ++ r.find.toList) = u ++ r.replacement.toList := by
  have hmem : r ∈ before ++ r :: behind := List.mem_append_right _ List.mem_cons_self
  have hbehind : ∀ q ∈ behind, ¬ q.find.toList <:+ u ++ r.replacement.toList := by
    intro q hq hsuffix
    obtain ⟨hfind, hreplacement⟩ :=
      h q (List.mem_append_right _ (List.mem_cons_of_mem _ hq)) r hmem
    rcases List.suffix_or_suffix_of_suffix hsuffix (List.suffix_append u _) with hs | hs
    · exact hfind hs
    · exact hreplacement hs
  have hstep : endAll before (u ++ r.find.toList) = u ++ r.find.toList :=
    endAll_of_not_suffix hbefore
  rw [endAll, List.foldl_append, List.foldl_cons]
  rw [endAll] at hstep
  rw [hstep, replaceEnd_append]
  exact endAll_of_not_suffix hbehind

end Substitution

/-! ## The order of the rules -/

namespace Renamer

theorem find?_eraseDups {α : Type} [BEq α] [LawfulBEq α] (p : α → Bool) (l : List α) :
    l.eraseDups.find? p = l.find? p := by
  induction hn : l.length using Nat.strong_induction_on generalizing l with
  | _ n ih =>
    subst hn
    cases l with
    | nil => rfl
    | cons a l =>
      rw [List.eraseDups_cons, List.find?_cons, List.find?_cons]
      cases hp : p a with
      | true => rfl
      | false =>
        have hlt : (l.filter fun b => !b == a).length < (a :: l).length :=
          Nat.lt_succ_of_le (List.length_filter_le ..)
        simp only [ih _ hlt _ rfl, List.find?_filter]
        refine congrArg (List.find? · l) (funext fun b => ?_)
        by_cases hb : b = a
        · simp [hb, hp]
        · simp [hb]

/-- Of the rules with one name the first one with an entry comes first. -/
theorem find?_literalsOf (l : Lookup) (rules : List LiteralRule) (find : String) :
    (literalsOf l rules).find? (·.find = find) =
      (rules.find? fun r => (l.get? r.kind r.find).isSome ∧ r.find = find).bind fun r =>
        (l.get? r.kind r.find).map (Substitution.mk r.kind r.find) := by
  unfold literalsOf
  rw [find?_mergeSort (fun s : Substitution => s.find.utf8ByteSize) find.utf8ByteSize
      (by rintro s hs; rw [of_decide_eq_true hs]), List.find?_filterMap, find?_eraseDups]
  congr 2
  funext r
  cases l.get? r.kind r.find <;> simp

/-- Of two texts that end a word the shorter one has the smaller encoding. -/
theorem eq_of_suffix_of_utf8ByteSize_le {a b : String} (h : a.toList <:+ b.toList)
    (hsize : b.utf8ByteSize ≤ a.utf8ByteSize) : a = b := by
  obtain ⟨u, hu⟩ := h
  have hb : b = String.ofList u ++ a := by
    rw [← String.ofList_toList (s := b), ← hu, String.ofList_append, String.ofList_toList]
  rw [hb, String.utf8ByteSize_append] at hsize
  have hempty : String.ofList u = "" := String.utf8ByteSize_eq_zero_iff.1 (by omega)
  rw [hb, hempty, String.empty_append]

/-- The longest texts to find come first. -/
theorem decreasing_literalsOf (l : Lookup) (rules : List LiteralRule) :
    Decreasing (fun s : Substitution => s.find.utf8ByteSize) (literalsOf l rules) :=
  decreasing_mergeSort (fun s : Substitution => s.find.utf8ByteSize) _

variable {r : LiteralRule}

/-- The rule that wins is the first one with its name and an entry. -/
theorem find?_of_wins (h : r.Wins l w rules) :
    rules.find? (fun q => (l.get? q.kind q.find).isSome ∧ q.find = r.find) = some r := by
  obtain ⟨hfit, before, behind, rfl, hbefore, -⟩ := h
  refine List.find?_eq_some_iff_append.2 ⟨by simpa using hfit.1, before, behind, rfl, ?_⟩
  intro q hq
  by_cases hname : q.find = r.find
  · have hnone : ¬ (l.get? q.kind q.find).isSome := fun hget =>
      absurd (hbefore q hq ⟨hget, hname ▸ hfit.2⟩) (by simp [hname])
    simpa [hname] using hnone
  · simp [hname]

/-- **The rule that wins comes before all others whose names end the word.** -/
theorem literalsOf_eq_of_wins {replacement : String} (h : r.Wins l w rules)
    (hget : l.get? r.kind r.find = some replacement) :
    ∃ before behind, literalsOf l rules = before ++ ⟨r.kind, r.find, replacement⟩ :: behind ∧
      ∀ q ∈ before, ¬ q.find.toList <:+ w := by
  have hfind := find?_literalsOf l rules r.find
  rw [find?_of_wins h, Option.bind_some, hget, Option.map_some] at hfind
  obtain ⟨-, before, behind, hsplit, hbefore⟩ := List.find?_eq_some_iff_append.1 hfind
  refine ⟨before, behind, hsplit, fun q hq hsuffix => ?_⟩
  -- what stands before it has another name and is no smaller, so it is longer than what wins
  obtain ⟨hrule, hgetq⟩ := mem_literalsOf.1 (hsplit ▸ List.mem_append_left _ hq)
  have hlength : q.find.length ≤ r.find.length :=
    h.length_le hrule ⟨by simp [hgetq], hsuffix⟩
  have hsorted := decreasing_literalsOf l rules
  rw [hsplit] at hsorted
  have hsize := (List.pairwise_append.1 hsorted).2.2 q hq _ List.mem_cons_self
  have hends : q.find.toList <:+ r.find.toList := by
    refine List.suffix_of_suffix_length_le hsuffix h.1.2 ?_
    rwa [String.length_toList, String.length_toList]
  simpa [eq_of_suffix_of_utf8ByteSize_le hends hsize] using hbefore q hq

/-! ## All words of a text -/

theorem endAll_of_renamesWord {w' : List Char} (h : RenamesWord l rules w w')
    (hapart : Substitution.Apart (literalsOf l rules)) :
    Substitution.endAll (literalsOf l rules) w = w' := by
  cases h with
  | renamed hwins hget =>
    obtain ⟨before, behind, hsplit, hbefore⟩ := literalsOf_eq_of_wins hwins hget
    rw [hsplit] at hapart ⊢
    exact hapart.endAll_eq hbefore
  | kept hnone =>
    refine Substitution.endAll_of_not_suffix fun q hq hsuffix => ?_
    obtain ⟨hrule, hget⟩ := mem_literalsOf.1 hq
    exact hnone _ hrule ⟨by simp [hget], hsuffix⟩

theorem content_applyLiterals_of_renamesWords {text out : List Char}
    (h : RenamesWords l rules text out) (hplain : ∀ r ∈ literalsOf l rules, r.Plain)
    (hapart : Substitution.Apart (literalsOf l rules)) :
    (applyLiterals (literalsOf l rules) text).content = out := by
  have hne : ∀ r ∈ literalsOf l rules, r.find.toList ≠ [] := fun r hr => hapart.find_ne_nil hr
  induction h with
  | tail hw => exact Substitution.content_applyLiterals_tail hne hw
  | word hw hd hword _ ih =>
    rw [Substitution.content_applyLiterals_word hne hplain hw hd, endAll_of_renamesWord hword hapart,
      ih]

/-- **The literal rules rename each word once, by the longest name that ends it.** The names and
    their replacements have no delimiters, and none of the former ends one of the latter, nor the
    other way round. -/
theorem renamesWords_iff (s : RenamingSettings) (hplain : ∀ r ∈ (ofSettings s).literals, r.Plain)
    (hapart : Substitution.Apart (ofSettings s).literals) (text out : List Char) :
    RenamesWords (Lookup.ofEntries s.entries) s.literals text out ↔
      (applyLiterals (ofSettings s).literals text).content = out := by
  constructor
  · exact fun h => content_applyLiterals_of_renamesWords h hplain hapart
  · rintro rfl
    obtain ⟨out, hout⟩ := exists_renamesWords (Lookup.ofEntries s.entries) s.literals text
    rw [ofSettings, content_applyLiterals_of_renamesWords hout hplain hapart]
    exact hout

/-- A table in which a class name and an id share a text, and a class name ends another one. -/
def wordSettings : RenamingSettings where
  entries := [⟨"btn", "a", .cls⟩, ⟨"btn", "c", .id⟩, ⟨"big-btn", "d", .cls⟩]
  literals := [⟨"btn", .id⟩, ⟨"btn", .cls⟩, ⟨"none", .cls⟩, ⟨"big-btn", .cls⟩]

theorem literals_wordSettings : (ofSettings wordSettings).literals =
    [⟨.cls, "big-btn", "d"⟩, ⟨.id, "btn", "c"⟩, ⟨.cls, "btn", "a"⟩] := by
  simp only [ofSettings, literalsOf_eq_insertionSort]
  decide +kernel

theorem renamesWords_wordSettings :
    (∀ r ∈ (ofSettings wordSettings).literals, r.Plain) ∧
      Substitution.Apart (ofSettings wordSettings).literals ∧
      RenamesWords (Lookup.ofEntries wordSettings.entries) wordSettings.literals
        "'a-big-btn btn' btn-a none btn".toList "'a-d c' btn-a none btn".toList := by
  have hplain : ∀ r ∈ (ofSettings wordSettings).literals, r.Plain := by
    rw [literals_wordSettings]
    decide
  have hapart : Substitution.Apart (ofSettings wordSettings).literals := by
    rw [literals_wordSettings]
    decide
  refine ⟨hplain, hapart, (renamesWords_iff wordSettings hplain hapart _ _).2 ?_⟩
  rw [literals_wordSettings]
  decide +kernel

end Renamer

end SelectorRename
