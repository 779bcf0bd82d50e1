/-
  Which short names an extraction gives out.

  * `ShortName.nthFree`: the short names without those that are taken, in order.
  * `Extraction.Named`: the selectors discovered so far have these names, one after another;
    `Extraction.named_scanAll`: every extraction gives names like that.
  * `Extraction.Spares`: no short name is written like a selector that the whitelist protects.
    Entries of the whitelist are never given out, but names that they only begin are:
    `Extraction.spares_iff` says when that happens, and `Extraction.not_spares_prefixed` shows a
    stylesheet where it does.
-/
import SelectorRename.Proofs.Extraction.Record
import SelectorRename.Proofs.ShortName.Shortlex

namespace SelectorRename

theorem Kind.token_inj {k l : Kind} {m n : String} : k.token m = l.token n ↔ k = l ∧ m = n := by
  constructor
  · intro h
    have hlist := congrArg String.toList h
    rw [toList_token, toList_token, List.cons.injEq] at hlist
    obtain ⟨hsigil, hname⟩ := hlist
    refine ⟨?_, String.toList_injective hname⟩
    cases k <;> cases l <;> first | rfl | exact absurd hsigil (by decide)
  · rintro ⟨rfl, rfl⟩
    rfl

namespace ShortName

variable (taken : List String)

/-- The short names that are not taken, in order. -/
noncomputable def nthFree (m : ℕ) : String := name (Nat.nth (fun i => name i ∉ taken) m)

theorem nthFree_not_mem (m : ℕ) : nthFree taken m ∉ taken :=
  Nat.nth_mem_of_infinite (infinite_free taken) m

end ShortName

namespace Extraction

open ShortName

variable {x₀ x : Extraction}

/-! ## The names given out -/

/-- The selectors that `x` discovered have the names that were free in `x₀`, from the first one on,
    and all others are free in `x` still. -/
structure Named (x₀ x : Extraction) : Prop where
  replace_eq : ∀ m (e : Entry), x.discovered[m]? = some e → e.replace = e.kind.token (nthFree x₀.taken m)
  free_eq : x.names.free = {i | name i ∉ x₀.taken ∧
    ∀ m < x.discovered.size, Nat.nth (fun i => name i ∉ x₀.taken) m < i}

theorem Named.start (es : List Entry) (w : Whitelist) : Named (start es w) (start es w) := by
  have hd : (Extraction.start es w).discovered = #[] := discovered_start es w
  refine ⟨fun m e he => by simp [hd] at he, ?_⟩
  simp [(Sound.start es w).free_eq, hd]

/-- The step: the next name is the next one that was free. -/
theorem Named.discover (h : Named x₀ x) (k : Kind) (token : String) :
    Named x₀ (x.discover k token) := by
  obtain ⟨i, hleast, hname, hfree⟩ := x.names.alloc_spec
  have hnth := Nat.isLeast_nth_of_infinite (infinite_free x₀.taken) x.discovered.size
  rw [h.free_eq] at hleast hfree
  obtain rfl := hleast.unique hnth
  refine ⟨fun m e he => ?_, ?_⟩
  · have hpush : (x.discovered.push ⟨token, k.token x.names.alloc.1, k⟩)[m]? = some e := he
    rw [Array.getElem?_push] at hpush
    split_ifs at hpush with hm
    · subst hm
      rw [← Option.some.inj hpush, hname]
      rfl
    · exact h.replace_eq m e hpush
  · have hsize : (x.discover k token).discovered.size = x.discovered.size + 1 :=
      Array.size_push ..
    rw [hsize]
    refine hfree.trans (Set.ext fun j => ?_)
    simp only [Set.mem_sdiff, Set.mem_ofPred_eq, Set.mem_singleton_iff]
    constructor
    · rintro ⟨⟨hj, habove⟩, hne⟩
      refine ⟨hj, fun m hm => ?_⟩
      rcases Nat.lt_succ_iff_lt_or_eq.1 hm with hm | rfl
      · exact habove m hm
      · exact Nat.lt_of_le_of_ne (hnth.2 ⟨hj, habove⟩) (Ne.symm hne)
    · rintro ⟨hj, habove⟩
      exact ⟨⟨hj, fun m hm => habove m (Nat.lt_succ_of_lt hm)⟩,
        (habove _ (Nat.lt_succ_self _)).ne'⟩

theorem Named.meet (h : Named x₀ x) (o : Occurrence) : Named x₀ (x.meet o) := by
  obtain ⟨r, -, he⟩ | ⟨-, -, he⟩ | ⟨-, -, he⟩ := x.meet_cases o
  · rw [he]; exact ⟨h.replace_eq, h.free_eq⟩
  · rwa [he]
  · rw [he]; exact h.discover ..

/-- The run: **the selectors get the free names one after another**. -/
theorem named_scanAll (p : Pacing) (es : List Entry) (w : Whitelist) (texts : List String) :
    Named (start es w) ((start es w).scanAll p texts) :=
  scanAll_induction p (fun _ o h => h.meet o) (fun _ _ h => ⟨h.replace_eq, h.free_eq⟩) texts
    (.start es w)

theorem Named.exists_replace_eq_iff (h : Named x₀ x) {k : Kind} {n : String} :
    (∃ e ∈ x.discovered, e.replace = k.token n) ↔
      ∃ m, nthFree x₀.taken m = n ∧ (x.discovered[m]?).map Entry.kind = some k := by
  constructor
  · rintro ⟨e, he, heq⟩
    obtain ⟨m, hm⟩ := Array.getElem?_of_mem he
    rw [h.replace_eq m e hm, Kind.token_inj] at heq
    exact ⟨m, heq.2, by rw [hm, ← heq.1]; rfl⟩
  · rintro ⟨m, rfl, hk⟩
    obtain ⟨e, hm, rfl⟩ := Option.map_eq_some_iff.1 hk
    exact ⟨e, Array.mem_of_getElem? hm, h.replace_eq m e hm⟩

/-! ## Names that are left in place -/

/-- A selector that one of some stylesheets shows. -/
def ShownIn (texts : List String) (s : Sighting) : Prop :=
  ∃ text ∈ texts, ∃ ss, Stylesheet.Listing text.toList ss ∧ s ∈ ss

/-- No new name is written like a selector of the stylesheets that the whitelist protects. -/
def Spares (w : Whitelist) (texts : List String) (x : Extraction) : Prop :=
  ∀ s, ShownIn texts s → classify w s.token = some .whitelist →
    ∀ e ∈ x.discovered, e.replace ≠ String.ofList s.token

theorem ShownIn.token_eq {texts : List String} {s : Sighting} (h : ShownIn texts s) :
    String.ofList s.token = s.kind.token (String.ofList s.token.tail) := by
  obtain ⟨text, -, ss, hl, hs⟩ := h
  rw [Stylesheet.listing_iff.1 hl] at hs
  obtain ⟨o, -, rfl⟩ := List.mem_map.1 hs
  exact o.token_eq

/-- **When protected selectors are spared**: exactly if none of them has the name that is next when a
    selector of its kind is discovered. Entries of the whitelist and short names from before are
    never next. -/
theorem spares_iff (p : Pacing) (es : List Entry) (w : Whitelist) (texts : List String) :
    Spares w texts ((start es w).scanAll p texts) ↔
      ∀ s, ShownIn texts s → classify w s.token = some .whitelist →
        String.ofList s.token.tail ∉ w.reservedNames →
        String.ofList s.token.tail ∉ (start es w).entries.map (fun e => e.bare.replace) →
        ∀ m, nthFree (start es w).taken m = String.ofList s.token.tail →
          (((start es w).scanAll p texts).discovered[m]?).map Entry.kind ≠ some s.kind := by
  have hnamed := named_scanAll p es w texts
  constructor
  · intro h s hs hc _ _ m hm hk
    obtain ⟨e, he, heq⟩ := hnamed.exists_replace_eq_iff.2 ⟨m, hm, hk⟩
    exact h s hs hc e he (heq.trans hs.token_eq.symm)
  · intro h s hs hc e he heq
    rw [hs.token_eq] at heq
    obtain ⟨m, hm, hk⟩ := hnamed.exists_replace_eq_iff.1 ⟨e, he, heq⟩
    have hfree := nthFree_not_mem (start es w).taken m
    rw [hm, taken, whitelist_start, List.mem_append, not_or] at hfree
    exact h s hs hc hfree.1 hfree.2 m hm hk

/-- All letters are reserved, and classes that begin with `a` are protected. -/
def letterWhitelist : Whitelist :=
  .ofList ["a", "#b", "#c", "#d", "#e", "#f", "#g", "#h", "#i", "#j", "#k", "#l", "#m", "#n", "#o",
    "#p", "#q", "#r", "#s", "#t", "#u", "#v", "#w", "#x", "#y", "#z"]

/-- A name that an entry of the whitelist begins is not set aside: another selector gets it. -/
theorem not_spares_prefixed :
    ¬ Spares letterWhitelist [".aa{}.X{}"]
      ((start [] letterWhitelist).scanAll .disabled [".aa{}.X{}"]) := by
  have hshown : ShownIn [".aa{}.X{}"] ⟨.cls, ['.', 'a', 'a'], ['.', 'a', 'a']⟩ :=
    ⟨_, List.mem_singleton_self _, _, Stylesheet.listing_iff.2 rfl, by decide⟩
  have hfound : ((start [] letterWhitelist).scanAll .disabled [".aa{}.X{}"]).discovered =
      #[⟨".X", ".aa", .cls⟩] := by decide +kernel
  intro h
  refine h _ hshown (by decide +kernel) ⟨".X", ".aa", .cls⟩ ?_ rfl
  rw [hfound]
  exact Array.mem_singleton.2 rfl

end Extraction

end SelectorRename
