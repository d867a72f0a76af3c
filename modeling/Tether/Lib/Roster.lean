/-
# Tether.Lib.Roster — a map that lists some members of a growing table

The members of a table are numbered in the order in which they come, and each has a key.
A map `Lists` those of them that satisfy a predicate: it has the number of each under its
key, and nothing else.  Members change, come and go one at a time, and each such step of the
table has its operation on the map: none, `insert` or `erase`.

With distinct keys the map has as many entries as the table has such members.
-/
import Tether.Lib.KeyMap
import Tether.Lib.Lists

namespace Tether.Lib

set_option autoImplicit false

variable {α K : Type} [DecidableEq K]

def Lists (key : α → K) (p : α → Bool) (table : List α) (m : KeyMap K Nat) : Prop :=
  ∀ k i, m.lookup k = some i ↔ ∃ a, table[i]? = some a ∧ key a = k ∧ p a = true

variable {key : α → K} {p : α → Bool} {table : List α} {m : KeyMap K Nat} {i j : Nat} {a b : α}

omit [DecidableEq K] in
theorem index_unique (distinct : (table.map key).Nodup) (here : table[i]? = some a)
    (there : table[j]? = some b) (same : key a = key b) : i = j := by
  have inside : i < (table.map key).length := by
    rw [List.length_map]
    exact (List.getElem?_eq_some_iff.1 here).1
  refine (List.getElem?_inj inside distinct).1 ?_
  rw [List.getElem?_map, List.getElem?_map, here, there, Option.map_some, Option.map_some, same]

namespace Lists

theorem empty : Lists key p [] ∅ := by
  intro k i
  simp

/-- A member that is not listed joins the table. -/
theorem concat (lists : Lists key p table m) (out : p a = false) :
    Lists key p (table ++ [a]) m := by
  intro k i
  rw [lists k i]
  constructor
  · rintro ⟨b, here, rest⟩
    exact ⟨b, getElem?_append_of_some here [a], rest⟩
  · rintro ⟨b, here, same, within⟩
    rcases getElem?_concat_cases here with old | rfl
    · exact ⟨b, old, same, within⟩
    · rw [out] at within
      cases within

/-- A member changes without joining or leaving the list. -/
theorem update (lists : Lists key p table m) (here : table[i]? = some a) (kept : key b = key a)
    (same : p b = p a) : Lists key p (table.set i b) m := by
  intro k j
  rw [lists k j]
  constructor
  · rintro ⟨c, there, named, within⟩
    by_cases own : j = i
    · subst own
      cases here.symm.trans there
      exact ⟨b, List.getElem?_set_self (List.getElem?_eq_some_iff.1 here).1, kept.trans named,
        same.trans within⟩
    · exact ⟨c, by rw [List.getElem?_set_ne (Ne.symm own), there], named, within⟩
  · rintro ⟨c, there, named, within⟩
    rcases getElem?_set_cases there with ⟨rfl, rfl⟩ | ⟨-, old⟩
    · exact ⟨a, here, kept.symm.trans named, same.symm.trans within⟩
    · exact ⟨c, old, named, within⟩

theorem insert (lists : Lists key p table m) (distinct : (table.map key).Nodup)
    (here : table[i]? = some a) (kept : key b = key a) (enters : p b = true) :
    Lists key p (table.set i b) (Finmap.insert (key a) i m) := by
  intro k j
  rw [KeyMap.lookup_insert_eq]
  split
  · next own =>
      subst own
      constructor
      · rintro ⟨⟩
        exact ⟨b, List.getElem?_set_self (List.getElem?_eq_some_iff.1 here).1, kept, enters⟩
      · rintro ⟨c, there, named, -⟩
        rcases getElem?_set_cases there with ⟨rfl, -⟩ | ⟨-, old⟩
        · rfl
        · rw [index_unique distinct old here named]
  · next other =>
      rw [lists k j]
      constructor
      · rintro ⟨c, there, named, within⟩
        refine ⟨c, ?_, named, within⟩
        rw [List.getElem?_set_ne, there]
        rintro rfl
        cases here.symm.trans there
        exact other named.symm
      · rintro ⟨c, there, named, within⟩
        rcases getElem?_set_cases there with ⟨rfl, rfl⟩ | ⟨-, old⟩
        · exact absurd (named.symm.trans kept) other
        · exact ⟨c, old, named, within⟩

/-- Whether it was listed or not. -/
theorem erase (lists : Lists key p table m) (distinct : (table.map key).Nodup)
    (here : table[i]? = some a) (kept : key b = key a) (leaves : p b = false) :
    Lists key p (table.set i b) (Finmap.erase (key a) m) := by
  intro k j
  rw [KeyMap.lookup_erase_eq]
  split
  · next own =>
      subst own
      refine iff_of_false (by simp) ?_
      rintro ⟨c, there, named, within⟩
      rcases getElem?_set_cases there with ⟨rfl, rfl⟩ | ⟨ne, old⟩
      · rw [leaves] at within
        cases within
      · exact ne (index_unique distinct old here named)
  · next other =>
      rw [lists k j]
      constructor
      · rintro ⟨c, there, named, within⟩
        refine ⟨c, ?_, named, within⟩
        rw [List.getElem?_set_ne, there]
        rintro rfl
        cases here.symm.trans there
        exact other named.symm
      · rintro ⟨c, there, named, within⟩
        rcases getElem?_set_cases there with ⟨rfl, rfl⟩ | ⟨-, old⟩
        · exact absurd (named.symm.trans kept) other
        · exact ⟨c, old, named, within⟩

theorem mem_keys (lists : Lists key p table m) (k : K) :
    k ∈ m.keys ↔ ∃ a ∈ table, key a = k ∧ p a = true := by
  rw [Finmap.mem_keys, ← Finmap.lookup_isSome, Option.isSome_iff_exists]
  constructor
  · rintro ⟨i, held⟩
    obtain ⟨a, here, rest⟩ := (lists k i).1 held
    exact ⟨a, List.mem_of_getElem? here, rest⟩
  · rintro ⟨a, member, rest⟩
    obtain ⟨i, here⟩ := List.getElem?_of_mem member
    exact ⟨i, (lists k i).2 ⟨a, here, rest⟩⟩

/-- The map has as many entries as the table has members to list. -/
theorem card_keys (lists : Lists key p table m) (distinct : (table.map key).Nodup) :
    m.keys.card = (table.filter p).length := by
  have listed : ((table.filter p).map key).Nodup :=
    distinct.sublist (List.filter_sublist.map key)
  have same : m.keys = ((table.filter p).map key).toFinset := by
    ext k
    rw [lists.mem_keys, List.mem_toFinset, List.mem_map]
    simp only [List.mem_filter]
    constructor
    · rintro ⟨a, member, named, within⟩
      exact ⟨a, ⟨member, within⟩, named⟩
    · rintro ⟨a, ⟨member, within⟩, named⟩
      exact ⟨a, member, named, within⟩
  rw [same, List.toFinset_card_of_nodup listed, List.length_map]

theorem eq_empty (lists : Lists key p table m) (none : ∀ a ∈ table, p a = false) : m = ∅ := by
  refine Finmap.ext_lookup fun k => ?_
  rw [Finmap.lookup_empty, Option.eq_none_iff_forall_ne_some]
  intro i held
  obtain ⟨a, here, -, within⟩ := (lists k i).1 held
  rw [none a (List.mem_of_getElem? here)] at within
  cases within

end Lists

end Tether.Lib
