/-
  Settled values: objects with each key once.

  * `Json.last?`: the value of a key in an object that may repeat it.
  * `Json.get?_settle`: in a settled object the last member of a key counts, and its value is settled.
  * `Json.nodup_named_settle`: no key comes twice.
-/
import SelectorRename.Json.Value
import SelectorRename.Proofs.Association

namespace SelectorRename

namespace Json

/-- The value of the last member of an object that has a key. -/
def last? (v : Json) (key : String) : Option Json :=
  match v with
  | .object members => members.reverse.lookup (some key)
  | _ => none

theorem getElem?_settleMembers (members : List (Option String × Json))
    (settled : Std.TreeMap (Option String) Json) (key : Option String) :
    (settleMembers settled members)[key]? =
      ((members.reverse.lookup key).map settle).or settled[key]? := by
  induction members generalizing settled with
  | nil => simp [settleMembers]
  | cons m members ih =>
    obtain ⟨other, v⟩ := m
    rw [settleMembers, ih, Std.TreeMap.getElem?_insert, List.reverse_cons, List.lookup_append]
    by_cases h : key = other
    · subst h
      cases members.reverse.lookup key <;> simp
    · have hne : compare other key ≠ .eq := by
        rw [Ne, Std.LawfulEqCmp.compare_eq_iff_eq]
        exact fun heq => h heq.symm
      have hlast : [(other, v)].lookup key = none := by simp [h]
      rw [if_neg hne, hlast, Option.or_none]

theorem nodup_keys_toList (m : Std.TreeMap (Option String) Json) :
    (m.toList.map Prod.fst).Nodup := by
  rw [Std.TreeMap.map_fst_toList_eq_keys]
  exact Std.TreeMap.nodup_keys

theorem lookup_toList (m : Std.TreeMap (Option String) Json) (key : Option String) :
    m.toList.lookup key = m[key]? := by
  ext v
  rw [lookup_eq_some_iff_mem (nodup_keys_toList m), Std.TreeMap.mem_toList_iff_getElem?_eq_some]

/-- **Of a repeated key the last member counts.** -/
theorem get?_settle (v : Json) (key : String) : v.settle.get? key = (v.last? key).map settle := by
  cases v with
  | object members =>
    rw [settle, get?, member?, lookup_toList, getElem?_settleMembers, last?]
    simp
  | array items => rfl
  | _ => rfl

/-! ## Named members -/

/-- The named members of an object have the values of their keys. -/
theorem lookup_named (v : Json) (key : String) : v.named.lookup key = v.get? key := by
  cases v with
  | object members =>
    rw [named, get?, member?]
    induction members with
    | nil => rfl
    | cons m members ih =>
      obtain ⟨other, v⟩ := m
      cases other with
      | none =>
        have hne : (some key == none) = false := rfl
        rw [List.lookup_cons, hne]
        exact ih
      | some other =>
        have hkey : (some key == some other) = (key == other) := rfl
        show List.lookup key ((other, v) :: members.filterMap _) = _
        rw [List.lookup_cons, List.lookup_cons, hkey, ih]
  | _ => rfl

theorem nodup_named {members : List (Option String × Json)} (h : (members.map Prod.fst).Nodup) :
    ((Json.object members).named.map Prod.fst).Nodup := by
  have hkeys : (Json.object members).named.map Prod.fst = (members.map Prod.fst).filterMap id := by
    rw [named, List.map_filterMap, List.filterMap_map]
    congr 1
    funext m
    obtain ⟨_ | key, v⟩ := m <;> rfl
  rw [hkeys]
  exact h.filterMap fun a b c ha hb => by simp_all

/-- No key of a settled object comes twice. -/
theorem nodup_named_settle (v : Json) : (v.settle.named.map Prod.fst).Nodup := by
  cases v with
  | object members =>
    rw [settle]
    exact nodup_named (nodup_keys_toList _)
  | _ => exact List.nodup_nil

end Json

end SelectorRename
