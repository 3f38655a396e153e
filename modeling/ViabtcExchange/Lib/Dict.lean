import Mathlib.Data.Finmap
import Mathlib.Algebra.BigOperators.Group.Finset.Basic
import Mathlib.Tactic

/-!
# Dictionaries and sums over their entries

A dictionary is a finite map, and two dictionaries are the same when every lookup is. The sum
of a function over the entries follows an insertion or a deletion by the change at one key:
`sum_insert`, `sum_erase`.
-/

namespace ViabtcExchange

/-- A finite map from keys to values. -/
abbrev Dict (K V : Type) := Finmap fun _ : K => V

namespace Dict

variable {K V M : Type} [DecidableEq K]

/-- The value under a key. -/
def find (d : Dict K V) (k : K) : Option V := d.lookup k

@[simp] theorem find_empty (k : K) : find (∅ : Dict K V) k = none := Finmap.lookup_empty k

theorem find_insert (d : Dict K V) (k k' : K) (v : V) :
    find (d.insert k v) k' = if k' = k then some v else d.find k' := by
  unfold find
  split_ifs with h
  · subst h
    exact Finmap.lookup_insert d
  · exact Finmap.lookup_insert_of_ne d h

theorem find_erase (d : Dict K V) (k k' : K) :
    find (d.erase k) k' = if k' = k then none else d.find k' := by
  unfold find
  split_ifs with h
  · subst h
    exact Finmap.lookup_erase k' d
  · exact Finmap.lookup_erase_ne h

theorem find_eq_none {d : Dict K V} {k : K} : d.find k = none ↔ k ∉ d := Finmap.lookup_eq_none

theorem mem_of_find {d : Dict K V} {k : K} {v : V} (h : d.find k = some v) : k ∈ d := by
  by_contra hk
  rw [find_eq_none.mpr hk] at h
  cases h

theorem ext_find {d d' : Dict K V} (h : ∀ k, d.find k = d'.find k) : d = d' := Finmap.ext_lookup h

theorem mem_keys_iff {d : Dict K V} {k : K} : k ∈ d.keys ↔ d.find k ≠ none := by
  rw [Finmap.mem_keys, Ne, find_eq_none, not_not]

/-- A new key is one more. -/
theorem card_insert {d : Dict K V} {k : K} (h : d.find k = none) (v : V) :
    (d.insert k v : Dict K V).keys.card = d.keys.card + 1 := by
  have hkeys : (d.insert k v : Dict K V).keys = insert k d.keys := by
    ext k'
    rw [Finset.mem_insert, mem_keys_iff, mem_keys_iff, find_insert]
    by_cases hk : k' = k <;> simp [hk]
  rw [hkeys, Finset.card_insert_of_notMem fun hk => mem_keys_iff.mp hk h]

theorem card_insert_of_mem {d : Dict K V} {k : K} (h : d.find k ≠ none) (v : V) :
    (d.insert k v : Dict K V).keys.card = d.keys.card := by
  congr 1
  ext k'
  rw [mem_keys_iff, mem_keys_iff, find_insert]
  by_cases hk : k' = k
  · rw [if_pos hk, hk]
    exact iff_of_true (Option.some_ne_none v) h
  · rw [if_neg hk]

theorem card_erase {d : Dict K V} {k : K} (h : d.find k ≠ none) :
    (d.erase k : Dict K V).keys.card + 1 = d.keys.card := by
  rw [Finmap.keys_erase, Finset.card_erase_add_one (mem_keys_iff.mpr h)]

theorem erase_of_find_none {d : Dict K V} {k : K} (h : d.find k = none) : d.erase k = d := by
  refine ext_find fun k' => ?_
  rw [find_erase]
  split_ifs with hk
  · rw [hk, h]
  · rfl

/-- The entries after an insertion: the new one, and those under other keys. -/
theorem entries_insert (d : Dict K V) (k : K) (v : V) :
    (d.insert k v : Dict K V).entries = ⟨k, v⟩ ::ₘ (d.erase k : Dict K V).entries := by
  rw [← Finmap.entries_insert_of_notMem Finmap.notMem_erase_self]
  congr 1
  refine ext_find fun k' => ?_
  rw [find_insert, find_insert, find_erase]
  split_ifs <;> rfl

theorem entries_of_find {d : Dict K V} {k : K} {v : V} (h : d.find k = some v) :
    d.entries = ⟨k, v⟩ ::ₘ (d.erase k : Dict K V).entries := by
  rw [← entries_insert]
  congr 1
  refine ext_find fun k' => ?_
  rw [find_insert]
  split_ifs with hk
  · rw [hk, h]
  · rfl

/-- All elements of the lists in the entries. -/
def pool (d : Dict K V) (f : V → List M) : Multiset M :=
  d.entries.bind fun entry => (f entry.2 : Multiset M)

omit [DecidableEq K] in
@[simp] theorem pool_empty (f : V → List M) : Dict.pool (∅ : Dict K V) f = 0 := rfl

/-- One list gets an element more. -/
theorem pool_insert (d : Dict K V) {f : V → List M} {k : K} {v : V} {a : M}
    (h : f v = ((d.find k).map f).getD [] ++ [a]) :
    Dict.pool (d.insert k v) f = d.pool f + {a} := by
  unfold pool
  rw [entries_insert, Multiset.cons_bind, h]
  cases hfind : d.find k with
  | none =>
    rw [erase_of_find_none hfind]
    simp [add_comm]
  | some old =>
    rw [entries_of_find hfind, Multiset.cons_bind, Option.map_some, Option.getD_some,
      ← Multiset.coe_add, Multiset.coe_singleton]
    abel

/-- Keep the entries that satisfy `p`. -/
def filter (p : K → V → Bool) (d : Dict K V) : Dict K V where
  entries := d.entries.filter fun e => p e.1 e.2
  nodupKeys := by
    rw [← Multiset.nodup_keys] at *
    exact Multiset.nodup_of_le (Multiset.map_le_map (Multiset.filter_le _ _))
      (Multiset.nodup_keys.mpr d.nodupKeys)

theorem find_filter_eq_some {p : K → V → Bool} {d : Dict K V} {k : K} {v : V} :
    (d.filter p).find k = some v ↔ d.find k = some v ∧ p k v := by
  rw [find, find, ← Option.mem_def, ← Option.mem_def, Finmap.mem_lookup_iff, Finmap.mem_lookup_iff,
    filter, Multiset.mem_filter]

/-- Put another value under each key. -/
def mapValues {W : Type} (f : V → W) (d : Dict K V) : Dict K W where
  entries := d.entries.map fun e => ⟨e.1, f e.2⟩
  nodupKeys := by
    have hkeys := Multiset.nodup_keys.mpr d.nodupKeys
    rw [← Multiset.nodup_keys, Multiset.keys, Multiset.map_map]
    exact hkeys

theorem find_mapValues {W : Type} (f : V → W) (d : Dict K V) (k : K) :
    (d.mapValues f).find k = (d.find k).map f := by
  have hmem : ∀ w, (d.mapValues f).find k = some w ↔ ∃ v, d.find k = some v ∧ f v = w := by
    intro w
    rw [find, ← Option.mem_def, Finmap.mem_lookup_iff, mapValues, Multiset.mem_map]
    constructor
    · rintro ⟨⟨k', v⟩, hv, heq⟩
      cases heq
      exact ⟨v, Finmap.mem_lookup_iff.mpr hv, rfl⟩
    · rintro ⟨v, hv, rfl⟩
      exact ⟨⟨k, v⟩, Finmap.mem_lookup_iff.mp hv, rfl⟩
  apply Option.ext
  intro w
  rw [hmem, Option.map_eq_some_iff]

theorem mapValues_insert {W : Type} (f : V → W) (d : Dict K V) (k : K) (v : V) :
    mapValues f (d.insert k v) = (mapValues f d).insert k (f v) := by
  refine ext_find fun k' => ?_
  rw [find_mapValues, find_insert, find_insert, find_mapValues]
  split_ifs <;> rfl

/-- What `f` makes of the entry under `k`: zero when there is none. -/
def entry [Zero M] (d : Dict K V) (f : K → V → M) (k : K) : M :=
  ((d.find k).map (f k)).getD 0

/-- The sum of `f` over the entries. -/
def sum [AddCommMonoid M] (d : Dict K V) (f : K → V → M) : M :=
  ∑ k ∈ d.keys, d.entry f k

@[simp] theorem sum_empty [AddCommMonoid M] (f : K → V → M) : Dict.sum (∅ : Dict K V) f = 0 := by
  simp [Dict.sum]

theorem entry_of_notMem [Zero M] {d : Dict K V} {k : K} (f : K → V → M) (h : k ∉ d.keys) :
    d.entry f k = 0 := by
  have hnone : d.find k = none := find_eq_none.mpr fun hk => h (Finmap.mem_keys.mpr hk)
  simp [entry, hnone]

/-- Keys without an entry add nothing, so the sum may run over any larger set of keys. -/
theorem sum_eq_of_subset [AddCommMonoid M] (d : Dict K V) (f : K → V → M) {S : Finset K}
    (hS : d.keys ⊆ S) : d.sum f = ∑ k ∈ S, d.entry f k :=
  Finset.sum_subset hS fun _ _ hk => entry_of_notMem f hk

/-- Two dictionaries that agree off `k` differ in the sum by their entries at `k`. -/
theorem sum_of_agree [AddCommGroup M] {d d' : Dict K V} (k : K) (f : K → V → M)
    (h : ∀ k', k' ≠ k → d'.find k' = d.find k') :
    d'.sum f = d.sum f - d.entry f k + d'.entry f k := by
  have hk : k ∈ insert k (d.keys ∪ d'.keys) := Finset.mem_insert_self _ _
  have hd : d.keys ⊆ insert k (d.keys ∪ d'.keys) := fun x hx =>
    Finset.mem_insert_of_mem (Finset.mem_union_left _ hx)
  have hd' : d'.keys ⊆ insert k (d.keys ∪ d'.keys) := fun x hx =>
    Finset.mem_insert_of_mem (Finset.mem_union_right _ hx)
  rw [sum_eq_of_subset d f hd, sum_eq_of_subset d' f hd', ← Finset.add_sum_erase _ _ hk,
    ← Finset.add_sum_erase _ (d.entry f) hk]
  have hrest : ∀ x ∈ (insert k (d.keys ∪ d'.keys)).erase k, d'.entry f x = d.entry f x := by
    intro x hx
    rw [entry, entry, h x (Finset.ne_of_mem_erase hx)]
  rw [Finset.sum_congr rfl hrest]
  abel

theorem sum_insert [AddCommGroup M] (d : Dict K V) (k : K) (v : V) (f : K → V → M) :
    Dict.sum (d.insert k v) f = d.sum f - d.entry f k + f k v := by
  have h : ∀ k', k' ≠ k → find (d.insert k v) k' = d.find k' := fun k' hk => by
    rw [find_insert, if_neg hk]
  rw [sum_of_agree k f h]
  simp [entry, find_insert]

theorem sum_erase [AddCommGroup M] (d : Dict K V) (k : K) (f : K → V → M) :
    Dict.sum (d.erase k) f = d.sum f - d.entry f k := by
  have h : ∀ k', k' ≠ k → find (d.erase k) k' = d.find k' := fun k' hk => by
    rw [find_erase, if_neg hk]
  rw [sum_of_agree k f h]
  simp [entry, find_erase]

/-- A sum over entries that vanish is zero. -/
theorem sum_eq_zero [AddCommMonoid M] {d : Dict K V} {f : K → V → M}
    (h : ∀ k v, d.find k = some v → f k v = 0) : d.sum f = 0 := by
  refine Finset.sum_eq_zero fun k _ => ?_
  cases hk : d.find k with
  | none => simp [entry, hk]
  | some v => simp [entry, hk, h k v hk]

/-- Sums over the entries, summed up over `S`. -/
theorem sum_finset_sum [AddCommMonoid M] {ι : Type} (d : Dict K V) (S : Finset ι)
    (f : ι → K → V → M) : ∑ i ∈ S, d.sum (f i) = d.sum fun k v => ∑ i ∈ S, f i k v := by
  unfold Dict.sum
  rw [Finset.sum_comm]
  refine Finset.sum_congr rfl fun k _ => ?_
  unfold entry
  cases d.find k <;> simp

/-- The sums agree where the entries do. -/
theorem sum_congr [AddCommMonoid M] {d : Dict K V} {f g : K → V → M}
    (h : ∀ k v, d.find k = some v → f k v = g k v) : d.sum f = d.sum g := by
  refine Finset.sum_congr rfl fun k _ => ?_
  unfold entry
  cases hk : d.find k with
  | none => rfl
  | some v => simp [h k v hk]

/-- One entry is part of a sum of what is not negative. -/
theorem le_sum [AddCommMonoid M] [PartialOrder M] [IsOrderedAddMonoid M] {d : Dict K V}
    {f : K → V → M} {k : K} {v : V} (hk : d.find k = some v)
    (h : ∀ k v, d.find k = some v → 0 ≤ f k v) : f k v ≤ d.sum f := by
  have hentry : d.entry f k = f k v := by simp [entry, hk]
  rw [← hentry]
  refine Finset.single_le_sum (f := d.entry f) (fun k' _ => ?_)
    (Finmap.mem_keys.mpr (mem_of_find hk))
  unfold entry
  cases hk' : d.find k' with
  | none => exact le_rfl
  | some v' => exact h k' v' hk'

end Dict

end ViabtcExchange
