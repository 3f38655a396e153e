import Mathlib.Data.Nat.ModEq
import ViabtcExchange.Lib.Dict

/-!
# Requests that wait for a reply (`nw_state.c`)

A table of what is remembered about each request, under the sequence number that goes out with it.
`get_available_id` counts through the 32-bit numbers but 0 and passes over those in the table, so
that a number comes again after 2^32 - 1 requests (`sequenceOf`).
-/

namespace ViabtcExchange

/-- How many sequence numbers there are: 0 is none. -/
def sequences : ℕ := 2 ^ 32 - 1

/-- `nw_state`. -/
structure NwState (V : Type) where
  idStart : ℕ
  entries : Dict ℕ V

namespace NwState

variable {V : Type}

def create : NwState V := ⟨0, ∅⟩

/-- `nw_state_get`. -/
def get (s : NwState V) (id : ℕ) : Option V := s.entries.find id

/-- One step of `id_start`, a `uint32_t`. -/
def nextId (idStart : ℕ) : ℕ :=
  let id := (idStart + 1) % 2 ^ 32
  if id = 0 then 1 else id

/-- `get_available_id`, in so many rounds of its loop. -/
def getAvailableId (s : NwState V) : ℕ → ℕ → Option ℕ
  | 0, _ => none
  | rounds + 1, idStart =>
    if s.get (nextId idStart) = none then some (nextId idStart)
    else getAvailableId s rounds (nextId idStart)

/-- `nw_state_add`, with no id given. -/
def add (s : NwState V) (v : V) : Option (ℕ × NwState V) :=
  if s.entries.keys.card = sequences then none
  else
    (s.getAvailableId (2 ^ 32) s.idStart).map fun id => (id, ⟨id, s.entries.insert id v⟩)

/-- `nw_state_del`. -/
def del (s : NwState V) (id : ℕ) : NwState V := { s with entries := s.entries.erase id }

theorem get_del (s : NwState V) (id id' : ℕ) :
    (s.del id).get id' = if id' = id then none else s.get id' :=
  Dict.find_erase ..

theorem getAvailableId_spec {s : NwState V} {rounds idStart id : ℕ}
    (h : s.getAvailableId rounds idStart = some id) :
    (∃ i, id = nextId i) ∧ s.get id = none := by
  induction rounds generalizing idStart with
  | zero => cases h
  | succ rounds ih =>
    rw [getAvailableId] at h
    split_ifs at h with hfree
    · obtain rfl := Option.some.inj h
      exact ⟨⟨idStart, rfl⟩, hfree⟩
    · exact ih h

/-- What a new entry is added to. -/
theorem add_spec {s s' : NwState V} {v : V} {id : ℕ} (h : s.add v = some (id, s')) :
    s.get id = none ∧ ∀ id', s'.get id' = if id' = id then some v else s.get id' := by
  unfold add at h
  split_ifs at h
  obtain ⟨id', hid, heq⟩ := Option.map_eq_some_iff.mp h
  obtain ⟨rfl, rfl⟩ := Prod.mk.inj heq
  exact ⟨(getAvailableId_spec hid).2, fun id => Dict.find_insert ..⟩

/-! ## Which number a request gets -/

/-- The number of the `n`-th request, if none is passed over. -/
def sequenceOf (n : ℕ) : ℕ := n % sequences + 1

/-- `id_start` after so many requests, if none is passed over. -/
def startOf : ℕ → ℕ
  | 0 => 0
  | n + 1 => sequenceOf n

theorem sequenceOf_pos (n : ℕ) : 0 < sequenceOf n := Nat.succ_pos _

theorem sequenceOf_le (n : ℕ) : sequenceOf n ≤ sequences :=
  Nat.mod_lt _ (by decide)

theorem nextId_startOf (n : ℕ) : nextId (startOf n) = sequenceOf n := by
  cases n with
  | zero => rfl
  | succ n =>
    have hlt : n % sequences < sequences := Nat.mod_lt _ (by decide)
    have hsucc : (n + 1) % sequences = if n % sequences + 1 = sequences then 0
        else n % sequences + 1 := by
      rw [Nat.add_mod]
      have hone : 1 % sequences = 1 := by decide
      rw [hone]
      split_ifs with hlast
      · rw [hlast, Nat.mod_self]
      · exact Nat.mod_eq_of_lt (by omega)
    show (if (sequenceOf n + 1) % 2 ^ 32 = 0 then 1 else (sequenceOf n + 1) % 2 ^ 32) =
      (n + 1) % sequences + 1
    rw [hsucc]
    unfold sequenceOf
    generalize n % sequences = m at hlt ⊢
    unfold sequences at hlt ⊢
    split_ifs <;> omega

/-- Numbers that are fewer than all apart differ. -/
theorem eq_of_sequenceOf_eq {m n : ℕ} (h : sequenceOf m = sequenceOf n) (hmn : m ≤ n)
    (hlt : n - m < sequences) : m = n := by
  have hmod : m % sequences = n % sequences := Nat.succ.inj h
  have hdvd : sequences ∣ n - m := (Nat.modEq_iff_dvd' hmn).mp hmod
  have hzero := Nat.eq_zero_of_dvd_of_lt hdvd hlt
  omega

/-- The next number, where it is free. -/
theorem add_of_free {s : NwState V} {n : ℕ} (hstart : s.idStart = startOf n)
    (hkeys : ∀ id, s.get id ≠ none → 0 < id ∧ id ≤ sequences) (hfree : s.get (sequenceOf n) = none)
    (v : V) : s.add v = some (sequenceOf n, ⟨sequenceOf n, s.entries.insert (sequenceOf n) v⟩) := by
  have hsub : s.entries.keys ⊆ (Finset.Icc 1 sequences).erase (sequenceOf n) := by
    intro id hid
    have hget : s.get id ≠ none := fun hnone => Dict.find_eq_none.mp hnone (Finmap.mem_keys.mp hid)
    refine Finset.mem_erase.mpr ⟨fun heq => hget (heq ▸ hfree), Finset.mem_Icc.mpr ?_⟩
    exact hkeys id hget
  have hmem : sequenceOf n ∈ Finset.Icc 1 sequences :=
    Finset.mem_Icc.mpr ⟨sequenceOf_pos n, sequenceOf_le n⟩
  have hcard : s.entries.keys.card < sequences := by
    refine (Finset.card_le_card hsub).trans_lt ?_
    rw [Finset.card_erase_of_mem hmem, Nat.card_Icc]
    unfold sequences
    omega
  have hrounds : (2 ^ 32 : ℕ) = sequences + 1 := by decide
  unfold add
  rw [if_neg hcard.ne, hrounds, getAvailableId, hstart, nextId_startOf, if_pos hfree,
    Option.map_some]

end NwState

end ViabtcExchange
