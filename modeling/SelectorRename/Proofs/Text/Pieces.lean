/-
  The pieces of a text between the occurrences of a pattern.

  * `Leftmost`: an occurrence with none that begins before it; `cut?_eq_some_iff`: a text is cut
    there, and `cut?_eq_none_iff`: it is not cut only if the pattern does not occur.
  * `Pieces`: the pieces between successive leftmost occurrences that do not overlap. Every text
    has them (`exists_pieces`) and is made of them again (`Pieces.intercalate_eq`); a beginning of the
    first one may be dropped (`Pieces.drop`).
-/
import SelectorRename.Text.Search
import Mathlib.Data.List.Infix

namespace SelectorRename.Text

variable {m s before after v p : List Char} {ps : List (List Char)}

/-! ## The leftmost occurrence -/

theorem cut?_eq_none_iff : cut? m s = none ↔ ¬ m <:+: s := by
  induction s with
  | nil => simp [cut?_nil]
  | cons c s ih =>
    rw [cut?_cons, List.infix_cons_iff, not_or, ← List.isPrefixOf_iff_prefix]
    by_cases hp : m.isPrefixOf (c :: s) = true
    · simp [hp]
    · simp [hp, ih]

/-- In the text `before ++ m ++ after`, no occurrence of `m` begins before the one that is shown. -/
def Leftmost (m before after : List Char) : Prop :=
  ∀ u v, u ++ m ++ v = before ++ m ++ after → before.length ≤ u.length

theorem leftmost_of_cut? (h : cut? m s = some (before, after)) : Leftmost m before after := by
  induction s generalizing before with
  | nil =>
    rw [cut?_nil] at h
    split at h
    · obtain ⟨rfl, rfl⟩ := Prod.mk.inj (Option.some.inj h)
      exact fun u v _ => Nat.zero_le _
    · cases h
  | cons c s ih =>
    rw [cut?_cons] at h
    split at h
    · obtain ⟨rfl, rfl⟩ := Prod.mk.inj (Option.some.inj h)
      exact fun u v _ => Nat.zero_le _
    · next hp =>
      simp only [Option.map_eq_some_iff, Prod.mk.injEq, Prod.exists] at h
      obtain ⟨b, a, hcut, rfl, rfl⟩ := h
      intro u v huv
      rcases u with _ | ⟨x, u⟩
      · -- An occurrence at the very beginning would have been found there.
        refine absurd (List.isPrefixOf_iff_prefix.2 ⟨v, ?_⟩) hp
        rw [eq_of_cut? hcut]
        simpa using huv
      · simp only [List.cons_append, List.cons.injEq] at huv
        exact Nat.succ_le_succ (ih hcut u v huv.2)

theorem Leftmost.eq_and_eq {before' after' : List Char} (h : Leftmost m before after)
    (h' : Leftmost m before' after') (he : before ++ m ++ after = before' ++ m ++ after') :
    before = before' ∧ after = after' := by
  have hlen : before.length = before'.length :=
    Nat.le_antisymm (h _ _ he.symm) (h' _ _ he)
  rw [List.append_assoc, List.append_assoc] at he
  obtain ⟨rfl, hrest⟩ := List.append_inj he hlen
  exact ⟨rfl, List.append_cancel_left hrest⟩

/-- A text is cut at the leftmost occurrence. -/
theorem cut?_eq_some_iff :
    cut? m s = some (before, after) ↔ s = before ++ m ++ after ∧ Leftmost m before after := by
  constructor
  · exact fun h => ⟨eq_of_cut? h, leftmost_of_cut? h⟩
  · rintro ⟨rfl, hl⟩
    rcases hcut : cut? m (before ++ m ++ after) with _ | ⟨b, a⟩
    · exact absurd ⟨before, after, rfl⟩ (cut?_eq_none_iff.1 hcut)
    · obtain ⟨rfl, rfl⟩ := hl.eq_and_eq (leftmost_of_cut? hcut) (eq_of_cut? hcut)
      rfl

/-! ## All occurrences -/

/-- The pieces of a text between the successive leftmost occurrences of `m`: each one is looked for
    behind the one before it. -/
inductive Pieces (m : List Char) : List Char → List (List Char) → Prop
  | last {s : List Char} (h : ¬ m <:+: s) : Pieces m s [s]
  | cut {before after : List Char} {ps : List (List Char)} (h : Leftmost m before after)
      (hps : Pieces m after ps) : Pieces m (before ++ m ++ after) (before :: ps)

theorem exists_pieces (hm : m ≠ []) (s : List Char) : ∃ p ps, Pieces m s (p :: ps) := by
  induction hn : s.length using Nat.strong_induction_on generalizing s with
  | _ n ih =>
    rcases hcut : cut? m s with _ | ⟨before, after⟩
    · exact ⟨s, [], .last (cut?_eq_none_iff.1 hcut)⟩
    · obtain ⟨rfl, hl⟩ := cut?_eq_some_iff.1 hcut
      have hlt : after.length < n := by
        have := List.length_pos_iff.2 hm
        simp only [List.length_append] at hn
        omega
      obtain ⟨q, qs, hq⟩ := ih _ hlt after rfl
      exact ⟨before, q :: qs, .cut hl hq⟩

/-- The pieces with the pattern between them are the text again. -/
theorem Pieces.intercalate_eq (h : Pieces m s ps) : m.intercalate ps = s := by
  induction h with
  | last => simp
  | @cut before after ps _ hps ih =>
    have hne : ps ≠ [] := by
      rintro rfl
      cases hps
    rw [List.intercalate_cons_of_ne_nil hne, ih]

theorem Pieces.of_cut?_eq_none (h : Pieces m s ps) (hcut : cut? m s = none) : ps = [s] := by
  cases h with
  | last => rfl
  | cut => exact absurd ⟨_, _, rfl⟩ (cut?_eq_none_iff.1 hcut)

theorem Pieces.of_cut?_eq_some (h : Pieces m s (p :: ps)) (hcut : cut? m s = some (before, after)) :
    p = before ∧ Pieces m after ps := by
  obtain ⟨hs, hl⟩ := cut?_eq_some_iff.1 hcut
  cases h with
  | last hno => exact absurd ⟨_, _, hs.symm⟩ hno
  | cut hl' hps =>
    obtain ⟨rfl, rfl⟩ := hl'.eq_and_eq hl hs
    exact ⟨rfl, hps⟩

theorem Pieces.front_eq (h : Pieces m s (p :: ps)) : front m s = p := by
  unfold front
  rcases hcut : cut? m s with _ | ⟨before, after⟩
  · obtain ⟨rfl, -⟩ := List.cons.inj (h.of_cut?_eq_none hcut)
    rfl
  · exact (h.of_cut?_eq_some hcut).1.symm

/-- Without a beginning of its first piece a text still has the same pieces: no occurrence is left
    of where it was found. -/
theorem Pieces.drop (h : Pieces m s (p :: ps)) (hv : v <+: p) :
    Pieces m (s.drop v.length) (p.drop v.length :: ps) := by
  obtain ⟨r, rfl⟩ := hv
  rw [List.drop_left]
  cases h with
  | last hno =>
    rw [List.drop_left]
    exact .last fun hr => hno (hr.trans (List.suffix_append v r).isInfix)
  | cut hl hps =>
    rw [List.append_assoc, List.append_assoc, List.drop_left, ← List.append_assoc]
    refine .cut (fun u w huw => ?_) hps
    have := hl (v ++ u) w (by simp [← huw])
    simpa using this

end SelectorRename.Text
