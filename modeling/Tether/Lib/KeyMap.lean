/-
# Tether.Lib.KeyMap — finite maps with a bag of values

A finite map is Mathlib's `Finmap` at a constant family: extensional equality and
at most one value per key by construction.  What is added is the reading of each
operation through `lookup`, and the bag of values a map iterates over in some
order (`values`).

A map `Indexes` a finite set when it stores each element under the element's own
key.  Writing one key of the map (`set`) is replacing the elements with that key
in the set, and the bag of values of an index is the set, each element once.
-/
import Mathlib.Data.Finmap
import Mathlib.Data.Finset.Dedup
import Mathlib.Data.Finset.Option

namespace Tether.Lib

set_option autoImplicit false

abbrev KeyMap (K V : Type) := Finmap fun _ : K => V

namespace KeyMap

variable {K V : Type} [DecidableEq K]

/-- The map that a list of pairs denotes; an earlier pair hides a later one. -/
def ofList (pairs : List (K × V)) : KeyMap K V :=
  List.toFinmap (pairs.map fun p => ⟨p.1, p.2⟩)

theorem lookup_ofList_nil (a : K) : (ofList [] : KeyMap K V).lookup a = none := by
  rw [ofList, Finmap.dlookup_list_toFinmap]
  rfl

theorem lookup_ofList_cons (a k : K) (v : V) (pairs : List (K × V)) :
    (ofList ((k, v) :: pairs)).lookup a = if a = k then some v else (ofList pairs).lookup a := by
  rw [ofList, Finmap.dlookup_list_toFinmap, ofList, Finmap.dlookup_list_toFinmap, List.map_cons]
  split
  · next same =>
      subst same
      exact List.dlookup_cons_eq _ _ _
  · next other => exact List.dlookup_cons_ne _ _ other

/-- The values, once per key, in no particular order. -/
def values (m : KeyMap K V) : Multiset V := m.entries.map fun entry => entry.2

theorem lookup_insert_eq (m : KeyMap K V) (k k' : K) (v : V) :
    (Finmap.insert k v m).lookup k' = if k' = k then some v else m.lookup k' := by
  split
  · rename_i same
    rw [same, Finmap.lookup_insert]
  · rename_i other
    rw [Finmap.lookup_insert_of_ne m other]

theorem lookup_erase_eq (m : KeyMap K V) (k k' : K) :
    (Finmap.erase k m).lookup k' = if k' = k then none else m.lookup k' := by
  split
  · rename_i same
    rw [same, Finmap.lookup_erase]
  · rename_i other
    rw [Finmap.lookup_erase_ne other]

/-- Union keeps the left map's binding. -/
theorem lookup_union_eq (m m' : KeyMap K V) (k : K) :
    (m ∪ m').lookup k = (m.lookup k).or (m'.lookup k) := by
  by_cases present : k ∈ m
  · obtain ⟨v, found⟩ := Finmap.mem_iff.1 present
    rw [Finmap.lookup_union_left present, found, Option.some_or]
  · rw [Finmap.lookup_union_right present, Finmap.lookup_eq_none.2 present, Option.none_or]

theorem mem_values (m : KeyMap K V) (v : V) : v ∈ values m ↔ ∃ k, m.lookup k = some v := by
  simp only [values, Multiset.mem_map]
  constructor
  · rintro ⟨⟨k, w⟩, member, rfl⟩
    exact ⟨k, Finmap.lookup_eq_some_iff.2 member⟩
  · rintro ⟨k, found⟩
    exact ⟨⟨k, v⟩, Finmap.lookup_eq_some_iff.1 found, rfl⟩

theorem all_iff (m : KeyMap K V) (p : K → V → Bool) :
    m.all p ↔ ∀ k v, m.lookup k = some v → p k v := by
  -- over the bag of entries, for any truth value the fold starts from
  have fold : ∀ (es : Multiset (Σ _ : K, V)) (b : Bool)
      [RightCommutative fun (b : Bool) (e : Σ _ : K, V) => b && p e.1 e.2],
      es.foldl (fun b e => b && p e.1 e.2) b = true ↔ b = true ∧ ∀ e ∈ es, p e.1 e.2 := by
    intro es
    induction es using Multiset.induction_on with
    | empty => simp
    | cons e es ih =>
        intro b _
        rw [Multiset.foldl_cons, ih, Bool.and_eq_true, Multiset.forall_mem_cons, and_assoc]
  rw [Finmap.all, Finmap.foldl, fold, and_iff_right rfl]
  simp only [Sigma.forall, Finmap.lookup_eq_some_iff]

/-- The same keys, each value under `g`. -/
def mapValues {W : Type} (g : K → V → W) (m : KeyMap K V) : KeyMap K W where
  entries := m.entries.map fun entry => ⟨entry.1, g entry.1 entry.2⟩
  nodupKeys := by
    have keys := m.nodupKeys
    rw [← Multiset.nodup_keys] at keys ⊢
    simpa [Multiset.keys, Multiset.map_map, Function.comp_def] using keys

theorem lookup_mapValues {W : Type} (g : K → V → W) (m : KeyMap K V) (k : K) :
    (mapValues g m).lookup k = (m.lookup k).map (g k) := by
  ext w
  rw [Finmap.lookup_eq_some_iff, Option.map_eq_some_iff]
  simp only [mapValues, Multiset.mem_map, Finmap.lookup_eq_some_iff]
  constructor
  · rintro ⟨⟨k', v⟩, member, same⟩
    cases same
    exact ⟨v, member, rfl⟩
  · rintro ⟨v, member, rfl⟩
    exact ⟨⟨k, v⟩, member, rfl⟩

theorem mapValues_mapValues {W X : Type} (g : K → V → W) (g' : K → W → X) (m : KeyMap K V) :
    mapValues g' (mapValues g m) = mapValues (fun k v => g' k (g k v)) m := by
  refine Finmap.ext_lookup fun k => ?_
  simp only [lookup_mapValues, Option.map_map, Function.comp_def]

theorem mapValues_id (m : KeyMap K V) : mapValues (fun _ v => v) m = m := by
  refine Finmap.ext_lookup fun k => ?_
  simp [lookup_mapValues]

/-- Only the keys that `p` accepts. -/
def restrict (p : K → Bool) (m : KeyMap K V) : KeyMap K V where
  entries := m.entries.filter fun entry => p entry.1
  nodupKeys := by
    have keys := m.nodupKeys
    rw [← Multiset.nodup_keys] at keys ⊢
    exact Multiset.nodup_of_le (Multiset.map_le_map (Multiset.filter_le _ _)) keys

theorem lookup_restrict (p : K → Bool) (m : KeyMap K V) (k : K) :
    (m.restrict p).lookup k = if p k then m.lookup k else none := by
  ext v
  rw [Finmap.lookup_eq_some_iff, restrict, Multiset.mem_filter, ← Finmap.lookup_eq_some_iff]
  split <;> simp_all

theorem restrict_eq_self {p : K → Bool} {m : KeyMap K V}
    (kept : ∀ k v, m.lookup k = some v → p k) : m.restrict p = m := by
  refine Finmap.ext_lookup fun k => ?_
  rw [lookup_restrict]
  split
  · rfl
  · next dropped =>
      cases found : m.lookup k with
      | none => rfl
      | some v => exact absurd (kept k v found) dropped

/-- Bind `k` to a value, or unbind it. -/
def set (m : KeyMap K V) (k : K) : Option V → KeyMap K V
  | none => m.erase k
  | some v => m.insert k v

theorem lookup_set (m : KeyMap K V) (k k' : K) (o : Option V) :
    (m.set k o).lookup k' = if k' = k then o else m.lookup k' := by
  cases o with
  | none => exact lookup_erase_eq m k k'
  | some v => exact lookup_insert_eq m k k' v

/-- Unbinding a key that is not bound changes nothing. -/
theorem set_lookup_self (m : KeyMap K V) (k : K) : m.set k (m.lookup k) = m := by
  refine Finmap.ext_lookup fun k' => ?_
  rw [lookup_set]
  split
  · rename_i same
    rw [same]
  · rfl

theorem set_none_of_absent {m : KeyMap K V} {k : K} (absent : m.lookup k = none) :
    m.set k none = m := by
  rw [← absent, set_lookup_self]

/-- Bind or unbind keys one after the other. -/
def write (m : KeyMap K V) (ws : List (K × Option V)) : KeyMap K V :=
  ws.foldl (fun m w => m.set w.1 w.2) m

theorem write_append (m : KeyMap K V) (ws ws' : List (K × Option V)) :
    m.write (ws ++ ws') = (m.write ws).write ws' :=
  List.foldl_append

/-- What a list of writes leaves under a key does not depend on the map it starts
from, or is what was there before. -/
theorem lookup_write_cases (ws : List (K × Option V)) (k : K) :
    (∀ m m' : KeyMap K V, (m.write ws).lookup k = (m'.write ws).lookup k) ∨
      ∀ m : KeyMap K V, (m.write ws).lookup k = m.lookup k := by
  induction ws with
  | nil => exact Or.inr fun m => rfl
  | cons w ws ih =>
      rcases ih with decided | untouched
      · exact Or.inl fun m m' => decided (m.set w.1 w.2) (m'.set w.1 w.2)
      · by_cases own : k = w.1
        · refine Or.inl fun m m' => ?_
          have written : ∀ m : KeyMap K V, (m.write (w :: ws)).lookup k = w.2 := fun m => by
            have first := untouched (m.set w.1 w.2)
            rw [lookup_set, if_pos own] at first
            exact first
          rw [written m, written m']
        · refine Or.inr fun m => ?_
          have first := untouched (m.set w.1 w.2)
          rw [lookup_set, if_neg own] at first
          exact first

/-- Writing the same list again changes nothing. -/
theorem write_write (m : KeyMap K V) (ws : List (K × Option V)) :
    (m.write ws).write ws = m.write ws := by
  refine Finmap.ext_lookup fun k => ?_
  rcases lookup_write_cases ws k with decided | untouched
  · exact decided _ _
  · exact untouched _

/-- `m` stores each element of `s` under its own key, and nothing else. -/
def Indexes (key : V → K) (m : KeyMap K V) (s : Finset V) : Prop :=
  ∀ k v, m.lookup k = some v ↔ v ∈ s ∧ key v = k

section Index

variable [DecidableEq V] {key : V → K} {m : KeyMap K V} {s : Finset V}

omit [DecidableEq V] in
theorem indexes_empty : Indexes key ∅ (∅ : Finset V) := by
  intro k v
  simp

omit [DecidableEq V] in
theorem Indexes.lookup_key (index : Indexes key m s) {v : V} (member : v ∈ s) :
    m.lookup (key v) = some v :=
  (index _ v).2 ⟨member, rfl⟩

omit [DecidableEq V] in
theorem Indexes.lookup_eq_none (index : Indexes key m s) {k : K}
    (fresh : ∀ v ∈ s, key v ≠ k) : m.lookup k = none := by
  cases found : m.lookup k with
  | none => rfl
  | some v =>
      obtain ⟨member, here⟩ := (index k v).1 found
      exact absurd here (fresh v member)

/-- Writing one key replaces the elements that have it. -/
theorem Indexes.set (index : Indexes key m s) {k : K} {o : Option V}
    (own : ∀ v, o = some v → key v = k) :
    Indexes key (m.set k o) (s.filter (key · ≠ k) ∪ o.toFinset) := by
  intro k' v
  rw [lookup_set, Finset.mem_union, Finset.mem_filter, Option.mem_toFinset, Option.mem_def]
  split
  · rename_i same
    subst same
    constructor
    · intro here
      exact ⟨Or.inr here, own v here⟩
    · rintro ⟨⟨-, away⟩ | here, keyed⟩
      · exact absurd keyed away
      · exact here
  · rename_i apart
    rw [index k' v]
    constructor
    · rintro ⟨member, keyed⟩
      exact ⟨Or.inl ⟨member, fun here => apart (keyed.symm.trans here)⟩, keyed⟩
    · rintro ⟨⟨member, -⟩ | here, keyed⟩
      · exact ⟨member, keyed⟩
      · exact absurd (keyed.symm.trans (own v here)) apart

omit [DecidableEq V] in
/-- An index iterates over its set, each element once. -/
theorem Indexes.values_eq (index : Indexes key m s) : values m = s.val := by
  have nodup : (values m).Nodup := by
    refine Multiset.Nodup.map_on ?_ (Multiset.NodupKeys.nodup m.nodupKeys)
    rintro ⟨k, v⟩ first ⟨k', v'⟩ second rfl
    have here := ((index k v).1 (Finmap.lookup_eq_some_iff.2 first)).2
    have there := ((index k' v).1 (Finmap.lookup_eq_some_iff.2 second)).2
    rw [← here, ← there]
  refine (Multiset.Nodup.ext nodup s.nodup).2 fun v => ?_
  rw [mem_values]
  constructor
  · rintro ⟨k, found⟩
    exact ((index k v).1 found).1
  · intro member
    exact ⟨key v, index.lookup_key member⟩

end Index

end KeyMap

end Tether.Lib
