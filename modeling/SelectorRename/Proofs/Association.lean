/-
  Lists of keys and values, and lists side by side.

  * `lookup_eq_some_iff_mem`: if no key comes twice, looking a key up finds every member.
  * `lookup_filter_ne`, `lookup_map_replace`: what is found when a key is taken away or its value is
    replaced.
  * `forall₂_mem_left`, `forall₂_mem_right`: every member of a list has its partner in the other.
  * `forall₂_lookup_of_find?`: the first member of a kind has its partner under the key of that kind.
-/
import Mathlib.Data.List.Forall2
import Mathlib.Data.List.Nodup

namespace SelectorRename

variable {α β : Type} [BEq α] [LawfulBEq α] [DecidableEq α]

theorem lookup_cons_ite (a c : α) (d : β) (l : List (α × β)) :
    ((c, d) :: l).lookup a = if a = c then some d else l.lookup a := by
  rw [List.lookup_cons]
  by_cases h : a = c
  · simp [h]
  · rw [beq_false_of_ne h, if_neg h]

omit [DecidableEq α] in
theorem mem_of_lookup_eq_some {l : List (α × β)} {a : α} {b : β} (h : l.lookup a = some b) :
    (a, b) ∈ l := by
  obtain ⟨front, rest, rfl, -⟩ := List.lookup_eq_some_iff.1 h
  exact List.mem_append_right _ (List.mem_cons_self ..)

omit [DecidableEq α] in
/-- If no key comes twice, looking a key up finds every member. -/
theorem lookup_eq_some_iff_mem {l : List (α × β)} (h : (l.map Prod.fst).Nodup) {a : α} {b : β} :
    l.lookup a = some b ↔ (a, b) ∈ l := by
  refine ⟨mem_of_lookup_eq_some, fun hmem => ?_⟩
  induction l with
  | nil => cases hmem
  | cons m l ih =>
    rw [List.map_cons, List.nodup_cons] at h
    rw [List.lookup_cons]
    rcases List.mem_cons.1 hmem with rfl | hmem
    · simp
    · have hne : a ≠ m.1 := fun heq => h.1 (heq ▸ List.mem_map_of_mem (f := Prod.fst) hmem)
      rw [beq_false_of_ne hne]
      exact ih h.2 hmem

theorem lookup_filter_ne (a b : α) (l : List (α × β)) :
    (l.filter (·.1 ≠ a)).lookup b = if b = a then none else l.lookup b := by
  induction l with
  | nil => simp
  | cons m l ih =>
    obtain ⟨c, d⟩ := m
    rw [List.filter_cons]
    by_cases hc : c = a
    · subst hc
      rw [if_neg (by simp), ih, lookup_cons_ite]
      split_ifs <;> rfl
    · rw [if_pos (by simpa using hc), lookup_cons_ite, lookup_cons_ite, ih]
      by_cases hb : b = c
      · rw [if_pos hb, if_pos hb, if_neg (hb ▸ hc)]
      · rw [if_neg hb, if_neg hb]

theorem lookup_map_replace (a b : α) (x : β) (l : List (α × β)) :
    (l.map fun m => if m.1 = a then (m.1, x) else m).lookup b =
      if b = a then (l.lookup b).map fun _ => x else l.lookup b := by
  induction l with
  | nil => simp
  | cons m l ih =>
    obtain ⟨c, d⟩ := m
    have hhead : (if c = a then (c, x) else (c, d)) = (c, if c = a then x else d) := by
      split_ifs <;> rfl
    rw [List.map_cons, hhead, lookup_cons_ite, lookup_cons_ite, ih]
    by_cases hb : b = c
    · subst hb
      split_ifs <;> rfl
    · simp only [if_neg hb]

/-! ## Lists side by side -/

section Forall₂

variable {γ : Type} {R : γ → α × β → Prop}

theorem forall₂_mem_left {δ ε : Type} {S : δ → ε → Prop} {l : List δ} {l' : List ε}
    (h : List.Forall₂ S l l') {a : δ} (ha : a ∈ l) : ∃ b ∈ l', S a b := by
  induction h with
  | nil => cases ha
  | cons hab _ ih =>
    rcases List.mem_cons.1 ha with rfl | ha
    · exact ⟨_, List.mem_cons_self, hab⟩
    · obtain ⟨b, hb, hs⟩ := ih ha
      exact ⟨b, List.mem_cons_of_mem _ hb, hs⟩

theorem forall₂_mem_right {δ ε : Type} {S : δ → ε → Prop} {l : List δ} {l' : List ε}
    (h : List.Forall₂ S l l') {b : ε} (hb : b ∈ l') : ∃ a ∈ l, S a b :=
  forall₂_mem_left h.flip hb

/-- If the members of one kind are those whose partner has a certain key, then the first of them has
    its partner under that key. -/
theorem forall₂_lookup_of_find? {l : List γ} {l' : List (α × β)} (h : List.Forall₂ R l l')
    {p : γ → Bool} {key : α} (hp : ∀ c x, R c x → (x.1 = key ↔ p c = true)) {c : γ}
    (hc : l.find? p = some c) : ∃ b, l'.lookup key = some b ∧ R c (key, b) := by
  induction h with
  | nil => cases hc
  | @cons d x l l' hd _ ih =>
    obtain ⟨a, b⟩ := x
    rw [lookup_cons_ite]
    rw [List.find?_cons] at hc
    split at hc
    next hpd =>
      cases hc
      obtain rfl : a = key := (hp _ _ hd).2 hpd
      exact ⟨b, if_pos rfl, hd⟩
    next hpd =>
      have hne : key ≠ a := fun heq => by
        rw [(hp _ _ hd).1 heq.symm] at hpd
        cases hpd
      rw [if_neg hne]
      exact ih hc

end Forall₂

end SelectorRename
