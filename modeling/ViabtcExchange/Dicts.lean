import ViabtcExchange.Lib.Chained

/-!
# Dictionaries (`ut_dict.c`)

A dictionary is a table of chains, four times as many of them whenever there are four entries for
each. What its keys are is up to whoever creates it: they are compared by `key_compare`, and keys
that are equal must have the same hash (`DictTypes`). So a dictionary maps classes of equal keys
to values.

Sizes and counters are `uint32_t`. From 2^30 chains on `size * 4` is 0, and the next entry is put
into a table of 4 chains: it stays a dictionary all the same.

**Theorem (`dict_refines`).** Through every sequence of operations a dictionary is a finite map.
-/

namespace ViabtcExchange

/-- `dict_entry`, but for its pointer. -/
structure DictEntry (K V : Type) where
  key : K
  val : V
  id : ℕ

/-- `dict_types`: a hash function, and an equality that goes with it. -/
structure DictTypes (K : Type) where
  hashFunction : K → UInt32
  keyCompare : K → K → ℤ
  equiv : Equivalence fun k k' => keyCompare k k' = 0
  hash_eq : ∀ {k k'}, keyCompare k k' = 0 → hashFunction k = hashFunction k'

/-- `dict_t`. -/
structure DictT (K V : Type) where
  table : ChainTable (DictEntry K V)
  size : ℕ
  mask : ℕ
  used : ℕ
  idStart : ℕ
  idClear : ℕ

/-- `dict_iterator`, with `index + 1`, the number of chains that it has come to. -/
structure DictIterator where
  index : ℕ
  entry : Option ℕ
  nextEntry : Option ℕ

namespace DictT

variable {K V : Type}

/-! ## Operations

They are nothing (`none`) where they would read or write what is not there, or not return. Memory
for an entry or a table is always there.
-/

section Operations

/-- The loop of `dict_next_power`. -/
def nextPowerFrom : ℕ → ℕ → ℕ → Option ℕ
  | 0, _, _ => none
  | rounds + 1, realsize, size =>
    if size ≤ realsize then some realsize
    else nextPowerFrom rounds (realsize * 2 % 2 ^ 32) size

/-- `dict_next_power`. After 30 rounds `realsize` is 0 for ever. -/
def dictNextPower (size : ℕ) : Option ℕ := nextPowerFrom 32 4 size

/-- `dict_create`. -/
def dictCreate (initSize : ℕ) : Option (DictT K V) :=
  (dictNextPower initSize).map fun size => ⟨.empty size, size, size - 1, 0, 0, 0⟩

variable (types : DictTypes K)

/-- `DICT_HASH_KEY(dt, key) & mask`. -/
def indexIn (mask : ℕ) (key : K) : ℕ := (types.hashFunction key).toNat &&& mask

variable (d : DictT K V)

/-- `dict_expand`. What it has moved is taken off `used`, and it stops at 0. -/
def dictExpand (size : ℕ) : Option (DictT K V) :=
  (dictNextPower size).bind fun size =>
    (d.table.refile (fun e => indexIn types (size - 1) e.key)
      (fun moved => (d.used + 2 ^ 32 - moved % 2 ^ 32) % 2 ^ 32 ≠ 0) size).map fun table =>
        { d with table := table, size := size, mask := size - 1 }

/-- `dict_expand_if_needed`. -/
def dictExpandIfNeeded : Option (DictT K V) :=
  if d.size * 4 % 2 ^ 32 ≤ d.used then d.dictExpand types (d.size * 4 % 2 ^ 32) else some d

/-- `dt->used--`. -/
def decUsed : ℕ := (d.used + 2 ^ 32 - 1) % 2 ^ 32

/-- The loop of `check_clear`. -/
def checkClearFrom (index : ℕ) : ℕ → Option ℕ → Option ℕ → DictT K V → Option (DictT K V)
  | 0, _, _, _ => none
  | _ + 1, _, none, d => some d
  | rounds + 1, prev, some a, d =>
    (d.table.cells.find a).bind fun cell =>
      if cell.entry.id < d.idClear then
        (d.table.unlink index prev a).bind fun table =>
          checkClearFrom index rounds prev cell.next { d with table := table, used := d.decUsed }
      else checkClearFrom index rounds (some a) cell.next d

/-- `check_clear`. -/
def checkClear (index : ℕ) : Option (DictT K V) :=
  d.table.heads[index]?.bind fun head => checkClearFrom index d.table.rounds none head d

/-- `dict_find`: the entry, if there is one, and the dictionary. -/
def dictFind (key : K) : Option (Option ℕ × DictT K V) :=
  let index := indexIn types d.mask key
  (if 0 < d.idClear then d.checkClear index else some d).bind fun d =>
    (d.table.lookup (fun e => types.keyCompare key e.key = 0) index).map fun r =>
      (r.map Prod.snd, d)

/-- `dict_add`, with the address of the new entry: the entry, or `NULL`. -/
def dictAdd (key : K) (val : V) (a : ℕ) : Option (Option ℕ × DictT K V) :=
  (d.dictFind types key).bind fun r =>
    match r.1 with
    | some _ => some (none, r.2)
    | none =>
      (r.2.dictExpandIfNeeded types).bind fun d =>
        (d.table.push (indexIn types d.mask key) a ⟨key, val, d.idStart⟩).map fun table =>
          (some a, { d with
            table := table, idStart := (d.idStart + 1) % 2 ^ 64, used := (d.used + 1) % 2 ^ 32 })

/-- `dict_replace`. -/
def dictReplace (key : K) (val : V) (a : ℕ) : Option (ℤ × DictT K V) :=
  (d.dictFind types key).bind fun r =>
    match r.1 with
    | none => (r.2.dictAdd types key val a).map fun s => (if s.1 = none then -1 else 1, s.2)
    | some b =>
      (ChainTable.entryAt r.2.table.cells b).bind fun e =>
        (r.2.table.write b { e with val := val }).map fun table =>
          (0, { r.2 with table := table })

/-- `dict_delete`. -/
def dictDelete (key : K) : Option (ℤ × DictT K V) :=
  let index := indexIn types d.mask key
  (d.table.lookup (fun e => types.keyCompare e.key key = 0) index).bind fun r =>
    match r with
    | none => some (0, d)
    | some (prev, a) =>
      (d.table.unlink index prev a).map fun table =>
        (1, { d with table := table, used := d.decUsed })

/-- `dict_get_iterator`. -/
def dictGetIterator : DictIterator := ⟨0, none, none⟩

/-- The end of a round of `dict_next`: it returns the entry that the iterator has come to, or else
goes on. -/
def dictVisit (next : DictIterator → Option (Option ℕ × DictIterator)) (iter : DictIterator) :
    Option (Option ℕ × DictIterator) :=
  match iter.entry with
  | some a => (ChainTable.nextAt d.table.cells a).map fun nextEntry =>
      (some a, { iter with nextEntry := nextEntry })
  | none => next iter

/-- The loop of `dict_next`. -/
def dictNextFrom : ℕ → DictIterator → Option (Option ℕ × DictIterator)
  | 0, _ => none
  | rounds + 1, iter =>
    match iter.entry with
    | none =>
      if d.size ≤ iter.index then some (none, { iter with index := iter.index + 1 })
      else
        d.table.heads[iter.index]?.bind fun head =>
          d.dictVisit (dictNextFrom rounds) { iter with index := iter.index + 1, entry := head }
    | some _ => d.dictVisit (dictNextFrom rounds) { iter with entry := iter.nextEntry }

/-- `dict_next`. -/
def dictNext (iter : DictIterator) : Option (Option ℕ × DictIterator) :=
  d.dictNextFrom (d.size + 2) iter

/-- A loop over a dictionary that deletes the entries that `del` picks: the entries it comes to, and
what is left. -/
def iterate (del : ℕ × DictEntry K V → Bool) :
    ℕ → DictIterator → DictT K V → Option (List (ℕ × DictEntry K V) × DictT K V)
  | 0, _, _ => none
  | rounds + 1, iter, d =>
    (d.dictNext iter).bind fun r =>
      match r.1 with
      | none => some ([], d)
      | some a =>
        (ChainTable.entryAt d.table.cells a).bind fun e =>
          (if del (a, e) then (d.dictDelete types e.key).map Prod.snd else some d).bind fun d =>
            (iterate del rounds r.2 d).map fun s => ((a, e) :: s.1, s.2)

/-- `dict_clear`. -/
def dictClear : Option (DictT K V) :=
  (d.iterate types (fun _ => true) d.table.rounds dictGetIterator).map Prod.snd

end Operations

/-! ## Sizes and indexes -/

section Sizes

theorem nextPowerFrom_eq_some {rounds realsize size n : ℕ}
    (hreal : (∃ k ≤ 31, realsize = 2 ^ k) ∨ (realsize = 0 ∧ 0 < n))
    (h : nextPowerFrom rounds realsize n = some size) : ∃ k ≤ 31, size = 2 ^ k := by
  induction rounds generalizing realsize with
  | zero => cases h
  | succ rounds ih =>
    rw [nextPowerFrom] at h
    split_ifs at h with hle
    · obtain rfl := Option.some.inj h
      exact hreal.resolve_right fun hzero => by omega
    · refine ih ?_ h
      rcases hreal with ⟨k, hk, rfl⟩ | ⟨rfl, hn⟩
      · by_cases hlast : k = 31
        · subst hlast
          exact Or.inr ⟨by norm_num, by omega⟩
        · refine Or.inl ⟨k + 1, by omega, ?_⟩
          rw [← pow_succ, Nat.mod_eq_of_lt]
          exact Nat.pow_lt_pow_right (by norm_num) (by omega)
      · exact Or.inr ⟨by norm_num, hn⟩

theorem dictNextPower_eq_some {n size : ℕ} (h : dictNextPower n = some size) :
    ∃ k ≤ 31, size = 2 ^ k := nextPowerFrom_eq_some (Or.inl ⟨2, by norm_num, by norm_num⟩) h

/-- It returns for every size up to 2^31. -/
theorem exists_nextPowerFrom {rounds k n : ℕ} (hn : n ≤ 2 ^ 31) (hk : k ≤ 31)
    (hrounds : 31 < rounds + k) : ∃ size, nextPowerFrom rounds (2 ^ k) n = some size := by
  induction rounds generalizing k with
  | zero => omega
  | succ rounds ih =>
    rw [nextPowerFrom]
    by_cases hle : n ≤ 2 ^ k
    · exact ⟨_, if_pos hle⟩
    · have hlt : k < 31 := by
        by_contra hlast
        obtain rfl : k = 31 := by omega
        exact hle hn
      have hpow : (2 : ℕ) ^ (k + 1) < 2 ^ 32 := Nat.pow_lt_pow_right (by norm_num) (by omega)
      rw [if_neg hle, ← pow_succ, Nat.mod_eq_of_lt hpow]
      exact ih hlt (by omega)

theorem exists_dictNextPower {n : ℕ} (hn : n ≤ 2 ^ 31) :
    ∃ k ≤ 31, dictNextPower n = some (2 ^ k) := by
  have hreturns : ∃ size, nextPowerFrom 32 (2 ^ 2) n = some size :=
    exists_nextPowerFrom hn (by norm_num) (by norm_num)
  obtain ⟨size, hsize⟩ := hreturns
  obtain ⟨k, hk, rfl⟩ := dictNextPower_eq_some hsize
  exact ⟨k, hk, hsize⟩

/-- `size * 4`, which is 0 from 2^30 on. -/
theorem grown_le {k : ℕ} (hk : k ≤ 31) : 2 ^ k * 4 % 2 ^ 32 ≤ 2 ^ 31 := by
  by_cases hlt : k < 30
  · refine (Nat.mod_le _ _).trans ?_
    calc 2 ^ k * 4 = 2 ^ (k + 2) := by rw [pow_add]; norm_num
      _ ≤ 2 ^ 31 := Nat.pow_le_pow_right (by norm_num) (by omega)
  · have hcases : k = 30 ∨ k = 31 := by omega
    rcases hcases with rfl | rfl <;> norm_num

end Sizes

/-- Keys that are equal. -/
def setoid (types : DictTypes K) : Setoid K := ⟨fun k k' => types.keyCompare k k' = 0, types.equiv⟩

abbrev Class (types : DictTypes K) := Quotient (setoid types)

def classOf (types : DictTypes K) (key : K) : Class types := Quotient.mk (setoid types) key

instance (types : DictTypes K) : DecidableEq (Class types) :=
  @Quotient.decidableEq K (setoid types) fun k k' =>
    inferInstanceAs (Decidable (types.keyCompare k k' = 0))

section Indexes

variable {types : DictTypes K} {key key' : K} {k mask : ℕ}

theorem classOf_eq_iff : classOf types key = classOf types key' ↔ types.keyCompare key key' = 0 :=
  Quotient.eq (r := setoid types)

theorem indexIn_eq (h : classOf types key = classOf types key') :
    indexIn types mask key = indexIn types mask key' := by
  rw [indexIn, indexIn, types.hash_eq (classOf_eq_iff.mp h)]

theorem indexIn_lt (hmask : mask = 2 ^ k - 1) : indexIn types mask key < 2 ^ k := by
  rw [indexIn, hmask, Nat.and_two_pow_sub_one_eq_mod]
  exact Nat.mod_lt _ (by positivity)

end Indexes

/-- The entries of a chain. -/
def chain (d : DictT K V) (index : ℕ) : Option (List (DictEntry K V)) :=
  d.table.heads[index]?.bind fun head =>
    (follow (ChainTable.nextAt d.table.cells) d.table.rounds head).bind
      (List.mapM (ChainTable.entryAt d.table.cells))

/-! ## What a dictionary holds -/

/-- The chains of a dictionary, and the map that it is. -/
structure Holds (types : DictTypes K) (d : DictT K V) (m : Dict (Class types) V)
    (rows : ℕ → List ℕ) : Prop where
  filed : d.table.Filed (fun e => indexIn types d.mask e.key) rows
  complete : d.table.Complete rows
  length : d.table.heads.length = d.size
  power : ∃ k ≤ 31, d.size = 2 ^ k
  mask : d.mask = d.size - 1
  idClear : d.idClear = 0
  unique : ∀ a b e e', ChainTable.entryAt d.table.cells a = some e →
    ChainTable.entryAt d.table.cells b = some e' → classOf types e.key = classOf types e'.key →
      a = b
  maps : ∀ key v, m.find (classOf types key) = some v ↔
    ∃ a e, ChainTable.entryAt d.table.cells a = some e ∧ classOf types e.key = classOf types key ∧
      e.val = v
  card : d.table.cells.keys.card = m.keys.card
  used : d.used = m.keys.card
  few : m.keys.card ≤ 2 ^ 29

section Operations

variable {types : DictTypes K} {d : DictT K V} {m : Dict (Class types) V} {rows : ℕ → List ℕ}
  {a : ℕ} {e : DictEntry K V}

theorem Holds.represents (h : Holds types d m rows) :
    ChainTable.Represents (fun e => classOf types e.key) (fun _ e => e.val)
      (ChainTable.entryAt d.table.cells) m := by
  refine ⟨h.unique, fun c v => ?_⟩
  obtain ⟨key, rfl⟩ := Quotient.exists_rep c
  exact h.maps key v

theorem holds_dictCreate {n : ℕ} (h : dictCreate n = some d) : Holds types d ∅ fun _ => [] := by
  obtain ⟨size, hsize, rfl⟩ := Option.map_eq_some_iff.mp h
  refine ⟨ChainTable.filed_empty _ _, ChainTable.complete_empty _, List.length_replicate,
    dictNextPower_eq_some hsize, rfl, rfl, ?_, ?_, rfl, rfl, Nat.zero_le _⟩
  · intro a b e e' ha
    cases ha
  · intro key v
    refine iff_of_false (fun hv => ?_) ?_
    · rw [Dict.find_empty] at hv
      cases hv
    · rintro ⟨a, e, ha, -⟩
      cases ha

theorem Holds.index_lt (h : Holds types d m rows) (key : K) :
    indexIn types d.mask key < d.table.heads.length := by
  obtain ⟨k, -, hk⟩ := h.power
  rw [h.length, hk]
  exact indexIn_lt (h.mask.trans (by rw [hk]))

/-- An entry is in the chain of every key that is equal to its own. -/
theorem Holds.mem_row (h : Holds types d m rows) {key : K}
    (he : ChainTable.entryAt d.table.cells a = some e)
    (hkey : classOf types e.key = classOf types key) : a ∈ rows (indexIn types d.mask key) := by
  rw [← indexIn_eq hkey]
  exact h.filed.mem_row h.complete he

theorem Holds.find_entry (h : Holds types d m rows)
    (he : ChainTable.entryAt d.table.cells a = some e) :
    m.find (classOf types e.key) = some e.val := h.represents.find he

theorem Holds.dictFind (h : Holds types d m rows) (key : K) :
    ∃ r, d.dictFind types key = some (r, d) ∧
      ((r = none ∧ m.find (classOf types key) = none) ∨
        ∃ a e, r = some a ∧ ChainTable.entryAt d.table.cells a = some e ∧
          classOf types e.key = classOf types key ∧ m.find (classOf types key) = some e.val) := by
  have hzero : ¬0 < d.idClear := by
    rw [h.idClear]
    exact lt_irrefl 0
  rw [DictT.dictFind, if_neg hzero, Option.bind_some]
  rcases h.filed.lookup (fun e => decide (types.keyCompare key e.key = 0)) (h.index_lt key) with
    ⟨hlookup, hnone⟩ | ⟨before, a, after, e, hrow, he, hp, hlookup⟩
  · refine ⟨none, by rw [hlookup]; rfl, Or.inl ⟨rfl, ?_⟩⟩
    rw [Option.eq_none_iff_forall_ne_some]
    intro v hv
    obtain ⟨a, e, he, hkey, -⟩ := (h.maps key v).mp hv
    have hfalse := hnone a (h.mem_row he hkey) e he
    rw [decide_eq_false_iff_not] at hfalse
    exact hfalse (classOf_eq_iff.mp hkey.symm)
  · have hkey : classOf types e.key = classOf types key :=
      (classOf_eq_iff.mpr (of_decide_eq_true hp)).symm
    refine ⟨some a, by rw [hlookup]; rfl, Or.inr ⟨a, e, rfl, he, hkey, ?_⟩⟩
    rw [← hkey]
    exact h.find_entry he

/-- All entries come into the new table: `used` is not 0 before they have. -/
theorem Holds.dictExpand (h : Holds types d m rows) {n : ℕ} (hn : n ≤ 2 ^ 31) :
    ∃ d' rows', d.dictExpand types n = some d' ∧ Holds types d' m rows' ∧
      ∀ b, ChainTable.entryAt d'.table.cells b = ChainTable.entryAt d.table.cells b := by
  obtain ⟨k, hk, hpower⟩ := exists_dictNextPower hn
  have hcount : ∀ moved,
      decide ((d.used + 2 ^ 32 - moved % 2 ^ 32) % 2 ^ 32 ≠ 0) = false →
        d.table.cells.keys.card ≤ moved := by
    intro moved hstop
    have hfew := h.few
    have hle := Nat.mod_le moved (2 ^ 32)
    rw [decide_eq_false_iff_not, not_not, h.used] at hstop
    rw [h.card]
    omega
  obtain ⟨t', rows', hrefile, hlength, hfiled, hcomplete, hentries⟩ := h.filed.refile h.complete
    (fun e => indexIn types (2 ^ k - 1) e.key) _ (2 ^ k) (fun a e _ => indexIn_lt rfl) hcount
  have hmap := h.represents.congr hentries
  refine ⟨{ d with table := t', size := 2 ^ k, mask := 2 ^ k - 1 }, rows', ?_,
    ⟨hfiled, hcomplete, hlength, ⟨k, hk, rfl⟩, rfl, h.idClear, hmap.unique, fun _ => hmap.maps _,
      ?_, h.used, h.few⟩, hentries⟩
  · rw [DictT.dictExpand, hpower, Option.bind_some, hrefile, Option.map_some]
  · rw [← h.card]
    exact ChainTable.card_keys_of_entries fun b => by rw [hentries]

theorem Holds.dictExpandIfNeeded (h : Holds types d m rows) :
    ∃ d' rows', d.dictExpandIfNeeded types = some d' ∧ Holds types d' m rows' ∧
      ∀ b, ChainTable.entryAt d'.table.cells b = ChainTable.entryAt d.table.cells b := by
  rw [DictT.dictExpandIfNeeded]
  split_ifs
  · obtain ⟨k, hk, hsize⟩ := h.power
    refine h.dictExpand ?_
    rw [hsize]
    exact grown_le hk
  · exact ⟨d, rows, rfl, h, fun _ => rfl⟩

theorem Holds.dictAdd (h : Holds types d m rows) (key : K) (val : V)
    (ha : d.table.cells.find a = none) (hfew : m.keys.card < 2 ^ 29) :
    ∃ r d', d.dictAdd types key val a = some (r, d') ∧
      ((r = none ∧ d' = d ∧ m.find (classOf types key) ≠ none) ∨
        (r = some a ∧ m.find (classOf types key) = none ∧
          ∃ rows', Holds types d' (m.insert (classOf types key) val) rows')) := by
  obtain ⟨r, hfind, hr⟩ := h.dictFind key
  rw [DictT.dictAdd, hfind, Option.bind_some]
  rcases hr with ⟨rfl, hnone⟩ | ⟨b, e, rfl, -, -, hsome⟩
  · obtain ⟨d₁, rows₁, hexpand, h₁, hentries₁⟩ := h.dictExpandIfNeeded
    have ha₁ : d₁.table.cells.find a = none := by
      have hentry := hentries₁ a
      rw [ChainTable.entryAt, ChainTable.entryAt, ha, Option.map_none,
        Option.map_eq_none_iff] at hentry
      exact hentry
    obtain ⟨t', rows', hpush, hlength, hfiled, hcomplete, hentries, hcard⟩ := h₁.filed.add
      h₁.complete ha₁ ⟨key, val, d₁.idStart⟩ (h₁.index_lt key)
    have hmap := h₁.represents.insert hnone (by rw [ChainTable.entryAt, ha₁]; rfl) hentries
    have hcard' := Dict.card_insert hnone val
    refine ⟨some a, { d₁ with
      table := t', idStart := (d₁.idStart + 1) % 2 ^ 64, used := (d₁.used + 1) % 2 ^ 32 },
      ?_, Or.inr ⟨rfl, hnone, rows', ⟨hfiled, hcomplete, hlength.trans h₁.length, h₁.power,
        h₁.mask, h₁.idClear, hmap.unique, fun _ => hmap.maps _, ?_, ?_, ?_⟩⟩⟩
    · simp only
      rw [hexpand, Option.bind_some, hpush, Option.map_some]
    · show t'.cells.keys.card = _
      rw [hcard, hcard', h₁.card]
    · show (d₁.used + 1) % 2 ^ 32 = _
      rw [hcard', h₁.used]
      exact Nat.mod_eq_of_lt (by omega)
    · rw [hcard']
      exact hfew
  · exact ⟨none, d, rfl, Or.inl ⟨rfl, rfl, by rw [hsome]; exact Option.some_ne_none _⟩⟩

theorem Holds.dictReplace (h : Holds types d m rows) (key : K) (val : V)
    (ha : d.table.cells.find a = none) (hfew : m.keys.card < 2 ^ 29) :
    ∃ d' rows', d.dictReplace types key val a =
        some (if m.find (classOf types key) = none then 1 else 0, d') ∧
      Holds types d' (m.insert (classOf types key) val) rows' := by
  obtain ⟨r, hfind, hr⟩ := h.dictFind key
  rw [DictT.dictReplace, hfind, Option.bind_some]
  rcases hr with ⟨rfl, hnone⟩ | ⟨b, e, rfl, he, hkey, hsome⟩
  · obtain ⟨r, d', hadd, hr⟩ := h.dictAdd key val ha hfew
    rcases hr with ⟨-, -, hne⟩ | ⟨rfl, -, rows', h'⟩
    · exact absurd hnone hne
    · refine ⟨d', rows', ?_, h'⟩
      simp only
      rw [hadd, Option.map_some, if_neg (Option.some_ne_none a), if_pos hnone]
  · have hmem := h.filed.mem_row h.complete he
    obtain ⟨t', hwrite, hheads, hfiled, hentries⟩ := h.filed.write (e := { e with val := val }) hmem
      rfl
    have hfound : m.find (classOf types key) ≠ none := by
      rw [hsome]
      exact Option.some_ne_none _
    have hkeys : ∀ c, ChainTable.entryAt t'.cells c ≠ none ↔
        ChainTable.entryAt d.table.cells c ≠ none := by
      intro c
      rw [hentries]
      split_ifs with hcb
      · rw [hcb, he]
        simp
      · rfl
    have hmap := h.represents.replace (e := { e with val := val }) he rfl hentries
    rw [hkey] at hmap
    refine ⟨{ d with table := t' }, rows, ?_, ⟨hfiled, ?_, ?_, h.power, h.mask, h.idClear,
      hmap.unique, fun _ => hmap.maps _, ?_, ?_, ?_⟩⟩
    · simp only
      rw [he, Option.bind_some, hwrite, Option.map_some, if_neg hfound]
    · intro c hc
      rw [← ChainTable.entryAt_ne_none, hkeys, ChainTable.entryAt_ne_none] at hc
      exact h.complete c hc
    · show t'.heads.length = _
      rw [hheads]
      exact h.length
    · rw [Dict.card_insert_of_mem hfound, ← h.card]
      exact ChainTable.card_keys_of_entries hkeys
    · rw [Dict.card_insert_of_mem hfound]
      exact h.used
    · rw [Dict.card_insert_of_mem hfound]
      exact h.few

/-- What `dict_delete` takes out, and that it leaves the other chains as they are. -/
theorem Holds.dictDelete (h : Holds types d m rows) (key : K) :
    (d.dictDelete types key = some (0, d) ∧ m.find (classOf types key) = none) ∨
    ∃ a e d' rows', d.dictDelete types key = some (1, d') ∧
      ChainTable.entryAt d.table.cells a = some e ∧ classOf types e.key = classOf types key ∧
      rows' = Function.update rows (indexIn types d.mask key)
        ((rows (indexIn types d.mask key)).erase a) ∧
      Holds types d' (m.erase (classOf types key)) rows' ∧
      (∀ b, ChainTable.entryAt d'.table.cells b =
        if b = a then none else ChainTable.entryAt d.table.cells b) ∧
      d'.size = d.size := by
  rw [DictT.dictDelete]
  rcases h.filed.remove h.complete (fun e => decide (types.keyCompare e.key key = 0))
    (h.index_lt key) with ⟨hlookup, hnone⟩ | ⟨prev, a, e, t', hlookup, hmem, he, hp, hunlink,
      hlength, hfiled, hcomplete, hentries, hcard⟩
  · refine Or.inl ⟨by rw [hlookup]; rfl, ?_⟩
    rw [Option.eq_none_iff_forall_ne_some]
    intro v hv
    obtain ⟨a, e, he, hkey, -⟩ := (h.maps key v).mp hv
    have hfalse := hnone a (h.mem_row he hkey) e he
    rw [decide_eq_false_iff_not] at hfalse
    exact hfalse (classOf_eq_iff.mp hkey)
  · have hkey : classOf types e.key = classOf types key :=
      classOf_eq_iff.mpr (of_decide_eq_true hp)
    have hfound : m.find (classOf types key) ≠ none := by
      rw [← hkey, h.find_entry he]
      exact Option.some_ne_none _
    have hcard' := Dict.card_erase hfound
    have hmap := h.represents.erase he hentries
    rw [hkey] at hmap
    refine Or.inr ⟨a, e, { d with table := t', used := d.decUsed }, _, ?_, he, hkey, rfl,
      ⟨hfiled, hcomplete, hlength.trans h.length, h.power, h.mask, h.idClear, hmap.unique,
        fun _ => hmap.maps _, ?_, ?_, ?_⟩, hentries, rfl⟩
    · simp only [hlookup, Option.bind_some]
      rw [hunlink, Option.map_some]
    · have hold := h.card
      show t'.cells.keys.card = _
      omega
    · have hfew := h.few
      have hused := h.used
      show d.decUsed = _
      rw [decUsed, hused]
      omega
    · have hfew := h.few
      omega

/-! ## Iteration -/

/-- The chains from an index on. -/
def rowsFrom (rows : ℕ → List ℕ) (size index : ℕ) : List ℕ :=
  ((List.range' index (size - index)).map rows).flatten

/-- What an iterator still comes to: the rest of its chain, and the chains after it. -/
structure Pending (d : DictT K V) (rows : ℕ → List ℕ) (iter : DictIterator)
    (rest pending : List ℕ) : Prop where
  chain : (iter.entry = none ∧ rest = []) ∨
    (iter.entry ≠ none ∧ 0 < iter.index ∧ iter.nextEntry = rest.head? ∧
      ∃ front, rows (iter.index - 1) = front ++ rest)
  pending : pending = rest ++ rowsFrom rows d.size iter.index

theorem rowsFrom_of_le {size index : ℕ} (h : size ≤ index) : rowsFrom rows size index = [] := by
  rw [rowsFrom, Nat.sub_eq_zero_of_le h]
  rfl

theorem rowsFrom_of_lt {size index : ℕ} (h : index < size) :
    rowsFrom rows size index = rows index ++ rowsFrom rows size (index + 1) := by
  have hlength : size - index = (size - (index + 1)) + 1 := by omega
  rw [rowsFrom, hlength, List.range'_succ, List.map_cons, List.flatten_cons, rowsFrom]

theorem rowsFrom_congr {rows' : ℕ → List ℕ} {size index : ℕ}
    (h : ∀ i, index ≤ i → rows' i = rows i) :
    rowsFrom rows' size index = rowsFrom rows size index := by
  rw [rowsFrom, rowsFrom]
  congr 1
  refine List.map_congr_left fun i hi => h i ?_
  rw [List.mem_range'_1] at hi
  exact hi.1

/-- An iterator that has come to an entry. -/
theorem Holds.dictVisit (h : Holds types d m rows) {next} {index : ℕ} {nextEntry : Option ℕ}
    {front rest : List ℕ} (hrow : rows index = front ++ a :: rest) :
    d.dictVisit next ⟨index + 1, some a, nextEntry⟩ =
      some (some a, ⟨index + 1, some a, rest.head?⟩) := by
  have hmem : a ∈ rows index := by rw [hrow]; simp
  have hnodup := h.filed.nodup index
  rw [hrow] at hnodup
  show Option.map _ (ChainTable.nextAt d.table.cells a) = _
  rw [h.filed.linked index a hmem, hrow, nextIn_middle (notMem_front hnodup), Option.map_some]

/-- Between two chains the iterator goes on to the next chain that is not empty. -/
theorem Holds.nextFrom_none (h : Holds types d m rows) (index : ℕ) (nextEntry : Option ℕ)
    {rounds : ℕ} (hrounds : d.size < rounds + index) (hpos : 0 < rounds) :
    (rowsFrom rows d.size index = [] ∧
      ∃ iter, d.dictNextFrom rounds ⟨index, none, nextEntry⟩ = some (none, iter)) ∨
    ∃ a iter rest pending, rowsFrom rows d.size index = a :: pending ∧
      d.dictNextFrom rounds ⟨index, none, nextEntry⟩ = some (some a, iter) ∧
      iter.entry = some a ∧ 0 < iter.index ∧ iter.nextEntry = rest.head? ∧
      rows (iter.index - 1) = a :: rest ∧ pending = rest ++ rowsFrom rows d.size iter.index := by
  induction rounds generalizing index nextEntry with
  | zero => omega
  | succ rounds ih =>
    by_cases hend : d.size ≤ index
    · exact Or.inl ⟨rowsFrom_of_le hend, _, by rw [dictNextFrom]; exact if_pos hend⟩
    · rw [not_le] at hend
      have hhead : d.table.heads[index]? = some (rows index).head? :=
        h.filed.heads index (by rw [h.length]; exact hend)
      have hstep : d.dictNextFrom (rounds + 1) ⟨index, none, nextEntry⟩ =
          d.dictVisit (d.dictNextFrom rounds) ⟨index + 1, (rows index).head?, nextEntry⟩ := by
        rw [dictNextFrom]
        simp only [if_neg (not_le.mpr hend), hhead, Option.bind_some]
      rw [rowsFrom_of_lt hend, hstep]
      cases hrow : rows index with
      | nil =>
        rw [List.nil_append, List.head?_nil]
        exact ih _ _ (by omega) (by omega)
      | cons a rest =>
        have hrow' : rows index = [] ++ a :: rest := hrow
        refine Or.inr ⟨a, _, rest, _, rfl, h.dictVisit hrow', rfl, Nat.succ_pos _, rfl, hrow, rfl⟩

/-- `dict_next` comes to the first of the pending entries. -/
theorem Holds.dictNext (h : Holds types d m rows) {iter : DictIterator} {rest pending : List ℕ}
    (hiter : Pending d rows iter rest pending) :
    (pending = [] ∧ ∃ iter', d.dictNext iter = some (none, iter')) ∨
    ∃ a iter' front rest' pending', pending = a :: pending' ∧
      d.dictNext iter = some (some a, iter') ∧ iter'.entry = some a ∧ 0 < iter'.index ∧
      iter'.nextEntry = rest'.head? ∧ rows (iter'.index - 1) = front ++ a :: rest' ∧
      pending' = rest' ++ rowsFrom rows d.size iter'.index := by
  obtain ⟨index, entry, nextEntry⟩ := iter
  obtain ⟨hchain, rfl⟩ := hiter
  rw [DictT.dictNext]
  rcases hchain with ⟨hentry, rfl⟩ | ⟨hentry, hpos, hnext, front, hrow⟩
  · obtain rfl : entry = none := hentry
    rw [List.nil_append]
    rcases h.nextFrom_none index nextEntry
      (by omega : d.size < d.size + 2 + index) (by omega) with hend | ⟨a, iter', rest, pending,
        hrows, hstep, hentry', hpos', hnext', hrow', hpending⟩
    · exact Or.inl hend
    · exact Or.inr ⟨a, iter', [], rest, pending, hrows, hstep, hentry', hpos', hnext', hrow',
        hpending⟩
  · obtain ⟨b, rfl⟩ := Option.ne_none_iff_exists'.mp hentry
    obtain rfl : nextEntry = rest.head? := hnext
    have hstep : d.dictNextFrom (d.size + 2) ⟨index, some b, rest.head?⟩ =
        d.dictVisit (d.dictNextFrom (d.size + 1)) ⟨index, rest.head?, rest.head?⟩ := rfl
    rw [hstep]
    cases rest with
    | nil =>
      rw [List.head?_nil, List.nil_append]
      rcases h.nextFrom_none index none
        (by omega : d.size < d.size + 1 + index) (by omega) with hend | ⟨a, iter', rest, pending,
          hrows, hstep', hentry', hpos', hnext', hrow', hpending⟩
      · exact Or.inl hend
      · exact Or.inr ⟨a, iter', [], rest, pending, hrows, hstep', hentry', hpos', hnext', hrow',
          hpending⟩
    | cons a rest =>
      obtain ⟨index, rfl⟩ := Nat.exists_eq_succ_of_ne_zero hpos.ne'
      exact Or.inr ⟨a, _, front, rest, _, rfl, h.dictVisit hrow, rfl, Nat.succ_pos _, rfl, hrow,
        rfl⟩

end Operations

/-! ## Runs -/

/-- The dictionaries of all runs, each with the map that it is to be: no more than 2^29 entries, and
a new entry at an address that is free. -/
inductive Reached (types : DictTypes K) : DictT K V → Dict (Class types) V → Prop
  | create {initSize : ℕ} {d : DictT K V} (h : dictCreate initSize = some d) : Reached types d ∅
  | add {d d' : DictT K V} {m : Dict (Class types) V} {key : K} {val : V} {a : ℕ}
      {r : Option ℕ} (h : Reached types d m) (ha : d.table.cells.find a = none)
      (hfew : m.keys.card < 2 ^ 29) (hstep : d.dictAdd types key val a = some (r, d')) :
      Reached types d' (if m.find (classOf types key) = none then m.insert (classOf types key) val
        else m)
  | find {d d' : DictT K V} {m : Dict (Class types) V} {key : K} {r : Option ℕ}
      (h : Reached types d m) (hstep : d.dictFind types key = some (r, d')) : Reached types d' m
  | replace {d d' : DictT K V} {m : Dict (Class types) V} {key : K} {val : V} {a : ℕ} {r : ℤ}
      (h : Reached types d m) (ha : d.table.cells.find a = none) (hfew : m.keys.card < 2 ^ 29)
      (hstep : d.dictReplace types key val a = some (r, d')) :
      Reached types d' (m.insert (classOf types key) val)
  | delete {d d' : DictT K V} {m : Dict (Class types) V} {key : K} {r : ℤ}
      (h : Reached types d m) (hstep : d.dictDelete types key = some (r, d')) :
      Reached types d' (m.erase (classOf types key))
  | clear {d d' : DictT K V} {m : Dict (Class types) V} (h : Reached types d m)
      (hstep : d.dictClear types = some d') : Reached types d' ∅

section Runs

variable {types : DictTypes K} {d : DictT K V} {m : Dict (Class types) V} {rows : ℕ → List ℕ}
  {a : ℕ} {e : DictEntry K V}

/-- The entry that an iterator stands at may be deleted. -/
theorem Holds.pending_erase (h : Holds types d m rows) {d' : DictT K V} {rows' : ℕ → List ℕ}
    {iter : DictIterator} {front rest pending : List ℕ} (hsize : d'.size = d.size)
    (hrows : rows' = Function.update rows (iter.index - 1) ((rows (iter.index - 1)).erase a))
    (hne : iter.entry ≠ none) (hpos : 0 < iter.index) (hnext : iter.nextEntry = rest.head?)
    (hrow : rows (iter.index - 1) = front ++ a :: rest)
    (hpending : pending = rest ++ rowsFrom rows d.size iter.index) :
    Pending d' rows' iter rest pending := by
  have hnodup := h.filed.nodup (iter.index - 1)
  rw [hrow] at hnodup
  have hrest : rows' (iter.index - 1) = front ++ rest := by
    rw [hrows, Function.update_self, hrow, erase_middle hnodup]
  refine ⟨Or.inr ⟨hne, hpos, hnext, front, hrest⟩, ?_⟩
  rw [hpending, hsize]
  congr 1
  refine (rowsFrom_congr fun i hi => ?_).symm
  rw [hrows, Function.update_of_ne (by omega)]

/-- One entry after another, each looked at before it may be deleted. -/
theorem Reached.iterate (hreached : Reached types d m) (h : Holds types d m rows)
    (del : ℕ × DictEntry K V → Bool) {iter : DictIterator} {rest pending : List ℕ}
    (hiter : Pending d rows iter rest pending) (hnodup : pending.Nodup)
    (hmem : ∀ b ∈ pending, ∃ i, b ∈ rows i) {rounds : ℕ} (hrounds : pending.length < rounds) :
    ∃ visited d' m' rows', DictT.iterate types del rounds iter d = some (visited, d') ∧
      visited.map Prod.fst = pending ∧
      (∀ b e, (b, e) ∈ visited → ChainTable.entryAt d.table.cells b = some e) ∧
      Reached types d' m' ∧ Holds types d' m' rows' ∧
      ∀ b, ChainTable.entryAt d'.table.cells b =
        if b ∈ pending then (ChainTable.entryAt d.table.cells b).filter fun e => !del (b, e)
        else ChainTable.entryAt d.table.cells b := by
  induction pending generalizing d m rows iter rest rounds with
  | nil =>
    obtain ⟨rounds, rfl⟩ := Nat.exists_eq_succ_of_ne_zero (by omega : rounds ≠ 0)
    rcases h.dictNext hiter with ⟨-, iter', hnext⟩ | ⟨a, iter', front, rest', pending', hnil, -⟩
    · refine ⟨[], d, m, rows, ?_, rfl, fun _ _ hb => (nomatch hb), hreached, h, fun b => ?_⟩
      · rw [DictT.iterate, hnext, Option.bind_some]
      · rw [if_neg List.not_mem_nil]
    · cases hnil
  | cons a pending ih =>
    obtain ⟨rounds, rfl⟩ := Nat.exists_eq_succ_of_ne_zero (by omega : rounds ≠ 0)
    rw [List.nodup_cons] at hnodup
    rcases h.dictNext hiter with ⟨hnil, -⟩ | ⟨b, iter', front, rest', pending', hcons, hnext,
      hentry, hpos, hnextEntry, hrow, hpending⟩
    · cases hnil
    obtain ⟨rfl, rfl⟩ := List.cons.inj hcons
    have hin : a ∈ rows (iter'.index - 1) := by rw [hrow]; simp
    obtain ⟨e, he⟩ := Option.ne_none_iff_exists'.mp
      (ChainTable.entryAt_ne_none.mpr (h.filed.find_ne_none hin))
    rw [DictT.iterate, hnext, Option.bind_some]
    simp only [he, Option.bind_some]
    have hindex : indexIn types d.mask e.key = iter'.index - 1 := h.filed.slot_eq hin he
    have hrounds' : pending.length < rounds := Nat.lt_of_succ_lt_succ hrounds
    have hne : iter'.entry ≠ none := by
      rw [hentry]
      exact Option.some_ne_none a
    cases hdel : del (a, e) with
    | true =>
      rcases h.dictDelete e.key with ⟨-, hnone⟩ | ⟨a', e', d₁, rows₁, hdelete, he', hkey, hrows₁,
        h₁, hentries₁, hsize⟩
      · rw [h.find_entry he] at hnone
        cases hnone
      obtain rfl := h.unique a a' e e' he he' hkey.symm
      rw [hindex] at hrows₁
      have hiter₁ := h.pending_erase hsize hrows₁ hne hpos hnextEntry hrow hpending
      obtain ⟨visited, d', m', rows', hiterate, hvisited, hread, hreached', h', hentries⟩ := ih
        (hreached.delete hdelete) h₁ hiter₁ hnodup.2
        (by
          intro b hb
          have hba : b ≠ a := fun heq => hnodup.1 (heq ▸ hb)
          rw [hrows₁]
          exact ChainTable.exists_mem_erase hba (hmem b (List.mem_cons_of_mem _ hb))) hrounds'
      refine ⟨(a, e) :: visited, d', m', rows', ?_, by rw [List.map_cons, hvisited], ?_, hreached',
        h', fun b => ?_⟩
      · rw [if_pos rfl, hdelete, Option.map_some, Option.bind_some, hiterate, Option.map_some]
      · intro b f hb
        rcases List.mem_cons.mp hb with heq | hb
        · obtain ⟨rfl, rfl⟩ := Prod.mk.inj heq
          exact he
        · have hread' := hread b f hb
          rw [hentries₁] at hread'
          split_ifs at hread'
          exact hread'
      · rw [hentries, hentries₁]
        by_cases hba : b = a
        · subst hba
          rw [if_pos rfl, if_neg hnodup.1, if_pos List.mem_cons_self, he, Option.filter_some, hdel]
          rfl
        · rw [if_neg hba]
          simp only [List.mem_cons, hba, false_or]
    | false =>
      have hiter₁ : Pending d rows iter' rest' pending := by
        refine ⟨Or.inr ⟨hne, hpos, hnextEntry, front ++ [a], ?_⟩, hpending⟩
        rw [hrow]
        simp
      obtain ⟨visited, d', m', rows', hiterate, hvisited, hread, hreached', h', hentries⟩ := ih
        hreached h hiter₁ hnodup.2 (fun b hb => hmem b (List.mem_cons_of_mem _ hb)) hrounds'
      refine ⟨(a, e) :: visited, d', m', rows', ?_, by rw [List.map_cons, hvisited], ?_, hreached',
        h', fun b => ?_⟩
      · rw [if_neg Bool.false_ne_true, Option.bind_some, hiterate, Option.map_some]
      · intro b f hb
        rcases List.mem_cons.mp hb with heq | hb
        · obtain ⟨rfl, rfl⟩ := Prod.mk.inj heq
          exact he
        · exact hread b f hb
      · rw [hentries]
        by_cases hba : b = a
        · subst hba
          rw [if_neg hnodup.1, if_pos List.mem_cons_self, he, Option.filter_some, hdel]
          rfl
        · simp only [List.mem_cons, hba, false_or]

/-- A whole iteration. -/
theorem Reached.iterateAll (hreached : Reached types d m) (h : Holds types d m rows)
    (del : ℕ × DictEntry K V → Bool) :
    ∃ visited d' m' rows',
      DictT.iterate types del d.table.rounds dictGetIterator d = some (visited, d') ∧
      (visited.map Prod.fst).Nodup ∧
      (∀ a e, (a, e) ∈ visited ↔ ChainTable.entryAt d.table.cells a = some e) ∧
      Reached types d' m' ∧ Holds types d' m' rows' ∧
      ∀ a, ChainTable.entryAt d'.table.cells a =
        (ChainTable.entryAt d.table.cells a).filter fun e => !del (a, e) := by
  have hall : rowsFrom rows d.size 0 = ((List.range d.table.heads.length).map rows).flatten := by
    rw [rowsFrom, Nat.sub_zero, h.length, List.range_eq_range']
  have hnodup : (rowsFrom rows d.size 0).Nodup := by
    rw [hall]
    exact h.filed.nodup_flatten _
  have hmem : ∀ b, b ∈ rowsFrom rows d.size 0 ↔ ChainTable.entryAt d.table.cells b ≠ none := by
    intro b
    rw [hall, h.filed.mem_flatten h.complete, ChainTable.entryAt_ne_none]
  have hlength : (rowsFrom rows d.size 0).length < d.table.rounds := by
    rw [hall, h.filed.length_flatten h.complete]
    exact Nat.lt_succ_self _
  have hiter : Pending d rows dictGetIterator [] (rowsFrom rows d.size 0) :=
    ⟨Or.inl ⟨rfl, rfl⟩, rfl⟩
  obtain ⟨visited, d', m', rows', hiterate, hvisited, hread, hreached', h', hentries⟩ :=
    hreached.iterate h del hiter hnodup (fun b hb => h.complete b
      (ChainTable.entryAt_ne_none.mp ((hmem b).mp hb))) hlength
  refine ⟨visited, d', m', rows', hiterate, by rwa [hvisited], fun a e => ⟨hread a e, fun he => ?_⟩,
    hreached', h', fun a => ?_⟩
  · have ha : a ∈ visited.map Prod.fst := by
      rw [hvisited, hmem, he]
      exact Option.some_ne_none e
    obtain ⟨⟨a', f⟩, hf, rfl⟩ := List.mem_map.mp ha
    have hf' := hread a' f hf
    rw [he] at hf'
    rwa [Option.some.inj hf']
  · rw [hentries]
    by_cases ha : a ∈ rowsFrom rows d.size 0
    · rw [if_pos ha]
    · rw [if_neg ha]
      rw [hmem, not_not] at ha
      rw [ha]
      rfl

/-- To clear a dictionary is to delete what an iteration comes to. -/
theorem Reached.dictClear (hreached : Reached types d m) (h : Holds types d m rows) :
    ∃ d' rows', d.dictClear types = some d' ∧ Holds types d' ∅ rows' := by
  obtain ⟨visited, d', m', rows', hiterate, -, -, -, h', hentries⟩ :=
    hreached.iterateAll h fun _ => true
  have hempty : m' = ∅ := by
    refine Dict.ext_find fun k => ?_
    rw [Dict.find_empty]
    induction k using Quotient.inductionOn with
    | h key =>
      rw [Option.eq_none_iff_forall_ne_some]
      intro v hv
      obtain ⟨a, e, he, -⟩ := (h'.maps key v).mp hv
      rw [hentries, Option.filter_eq_some_iff] at he
      exact absurd he.2 (by simp)
  subst hempty
  refine ⟨d', rows', ?_, h'⟩
  rw [DictT.dictClear, hiterate, Option.map_some]

/-- Every operation keeps the map. -/
theorem Reached.holds (h : Reached types d m) : ∃ rows, Holds types d m rows := by
  induction h with
  | create h => exact ⟨_, holds_dictCreate h⟩
  | @add d d' m key val a r _ ha hfew hstep ih =>
    obtain ⟨rows, h⟩ := ih
    obtain ⟨r', d₁, hadd, hr⟩ := h.dictAdd key val ha hfew
    rw [hadd] at hstep
    cases hstep
    rcases hr with ⟨-, rfl, hne⟩ | ⟨-, hnone, rows', h'⟩
    · rw [if_neg hne]
      exact ⟨rows, h⟩
    · rw [if_pos hnone]
      exact ⟨rows', h'⟩
  | @find d d' m key r _ hstep ih =>
    obtain ⟨rows, h⟩ := ih
    obtain ⟨r', hfind, -⟩ := h.dictFind key
    rw [hfind] at hstep
    cases hstep
    exact ⟨rows, h⟩
  | @replace d d' m key val a r _ ha hfew hstep ih =>
    obtain ⟨rows, h⟩ := ih
    obtain ⟨d₁, rows', hreplace, h'⟩ := h.dictReplace key val ha hfew
    rw [hreplace] at hstep
    cases hstep
    exact ⟨rows', h'⟩
  | @delete d d' m key r _ hstep ih =>
    obtain ⟨rows, h⟩ := ih
    rcases h.dictDelete key with ⟨hdelete, hnone⟩ | ⟨a, e, d₁, rows', hdelete, -, -, -, h', -⟩
    · rw [hdelete] at hstep
      cases hstep
      rw [Dict.erase_of_find_none hnone]
      exact ⟨rows, h⟩
    · rw [hdelete] at hstep
      cases hstep
      exact ⟨rows', h'⟩
  | @clear d d' m hreached hstep ih =>
    obtain ⟨rows, h⟩ := ih
    obtain ⟨d₁, rows', hclear, h'⟩ := hreached.dictClear h
    rw [hclear] at hstep
    cases hstep
    exact ⟨rows', h'⟩

/-- What a dictionary does for a map. -/
structure Refines (types : DictTypes K) (d : DictT K V) (m : Dict (Class types) V) : Prop where
  /-- The entries of the chains are those of the map, each once and in the chain of its hash. -/
  chains : ∃ bucket : ℕ → List (DictEntry K V),
    (∀ i < d.size, d.chain i = some (bucket i) ∧
      ∀ e ∈ bucket i, (types.hashFunction e.key).toNat % d.size = i) ∧
    (∀ key v, m.find (classOf types key) = some v ↔
      ∃ i < d.size, ∃ e ∈ bucket i, classOf types e.key = classOf types key ∧ e.val = v) ∧
    ((List.range d.size).map fun i => (bucket i).length).sum = m.keys.card
  used : d.used = m.keys.card
  find : ∀ key, ∃ r, d.dictFind types key = some (r, d) ∧
    (r.bind fun a => (ChainTable.entryAt d.table.cells a).map DictEntry.val) =
      m.find (classOf types key)
  add : ∀ key val a, d.table.cells.find a = none → m.keys.card < 2 ^ 29 →
    ∃ r d', d.dictAdd types key val a = some (r, d') ∧
      (r = none ↔ m.find (classOf types key) ≠ none)
  replace : ∀ key val a, d.table.cells.find a = none → m.keys.card < 2 ^ 29 →
    ∃ d', d.dictReplace types key val a =
      some (if m.find (classOf types key) = none then 1 else 0, d')
  delete : ∀ key, ∃ d', d.dictDelete types key =
    some (if m.find (classOf types key) = none then 0 else 1, d')
  clear : ∃ d', d.dictClear types = some d'
  /-- An iteration comes to every entry once, and leaves those that it does not delete. -/
  iterate : ∀ del : ℕ × DictEntry K V → Bool, ∃ visited d' m',
    DictT.iterate types del d.table.rounds dictGetIterator d = some (visited, d') ∧
    (visited.map Prod.fst).Nodup ∧
    (∀ a e, (a, e) ∈ visited ↔ ChainTable.entryAt d.table.cells a = some e) ∧
    Reached types d' m' ∧
    ∀ a, ChainTable.entryAt d'.table.cells a =
      (ChainTable.entryAt d.table.cells a).filter fun e => !del (a, e)

/-- The chains as they are read from their heads. -/
theorem Holds.chain (h : Holds types d m rows) {i : ℕ} (hi : i < d.size) :
    d.chain i = some ((rows i).filterMap (ChainTable.entryAt d.table.cells)) := by
  have hrow : Linked (ChainTable.nextAt d.table.cells) ([] ++ rows i) := h.filed.linked i
  have hread : ∀ l : List ℕ, (∀ a ∈ l, a ∈ rows i) → l.mapM (ChainTable.entryAt d.table.cells) =
      some (l.filterMap (ChainTable.entryAt d.table.cells)) := by
    intro l
    induction l with
    | nil => exact fun _ => rfl
    | cons a l ih =>
      intro hl
      rw [List.forall_mem_cons] at hl
      obtain ⟨e, he⟩ := Option.ne_none_iff_exists'.mp
        (ChainTable.entryAt_ne_none.mpr (h.filed.find_ne_none hl.1))
      rw [List.mapM_cons, he, ih hl.2, List.filterMap_cons_some he]
      rfl
  rw [DictT.chain, h.filed.heads i (by rw [h.length]; exact hi), Option.bind_some,
    follow_spec hrow (h.filed.nodup i) (h.filed.length_lt_rounds i).le, Option.bind_some,
    hread _ fun a ha => ha]

/-- The dictionary is the map. -/
theorem dict_refines (hreached : Reached types d m) : Refines types d m := by
  obtain ⟨rows, h⟩ := hreached.holds
  obtain ⟨k, -, hsize⟩ := h.power
  constructor
  case chains =>
    refine ⟨fun i => (rows i).filterMap (ChainTable.entryAt d.table.cells), ?_, ?_, ?_⟩
    · intro i hi
      refine ⟨h.chain hi, fun e he => ?_⟩
      obtain ⟨a, ha, hentry⟩ := List.mem_filterMap.mp he
      have hindex : indexIn types d.mask e.key = i := h.filed.slot_eq ha hentry
      rw [← hindex, indexIn, h.mask, hsize, Nat.and_two_pow_sub_one_eq_mod]
    · intro key v
      rw [h.maps]
      constructor
      · rintro ⟨a, e, he, hkey, hv⟩
        have hrow := h.mem_row he hkey
        refine ⟨_, ?_, e, List.mem_filterMap.mpr ⟨a, hrow, he⟩, hkey, hv⟩
        rw [← h.length]
        exact h.index_lt key
      · rintro ⟨i, -, e, he, hkey, hv⟩
        obtain ⟨a, -, hentry⟩ := List.mem_filterMap.mp he
        exact ⟨a, e, hentry, hkey, hv⟩
    · rw [← h.card, ← h.filed.length_flatten h.complete, List.length_flatten, List.map_map,
        h.length]
      congr 1
      refine List.map_congr_left fun i _ => ?_
      have hall : ∀ a ∈ rows i, (ChainTable.entryAt d.table.cells a).isSome := fun a ha =>
        Option.isSome_iff_ne_none.mpr (ChainTable.entryAt_ne_none.mpr (h.filed.find_ne_none ha))
      exact List.filterMap_length_eq_length.mpr hall
  case used => exact h.used
  case find =>
    intro key
    obtain ⟨r, hfind, hr⟩ := h.dictFind key
    refine ⟨r, hfind, ?_⟩
    rcases hr with ⟨rfl, hnone⟩ | ⟨a, e, rfl, he, -, hsome⟩
    · exact hnone.symm
    · rw [Option.bind_some, he, Option.map_some, hsome]
  case add =>
    intro key val a ha hfew
    obtain ⟨r, d', hadd, hr⟩ := h.dictAdd key val ha hfew
    refine ⟨r, d', hadd, ?_⟩
    rcases hr with ⟨rfl, -, hne⟩ | ⟨rfl, hnone, -⟩
    · exact iff_of_true rfl hne
    · exact iff_of_false (Option.some_ne_none a) fun hne => hne hnone
  case replace =>
    intro key val a ha hfew
    obtain ⟨d', -, hreplace, -⟩ := h.dictReplace key val ha hfew
    exact ⟨d', hreplace⟩
  case delete =>
    intro key
    rcases h.dictDelete key with ⟨hdelete, hnone⟩ | ⟨a, e, d', -, hdelete, he, hkey, -⟩
    · exact ⟨d, by rw [if_pos hnone, hdelete]⟩
    · refine ⟨d', ?_⟩
      have hfound : m.find (classOf types key) ≠ none := by
        rw [← hkey, h.find_entry he]
        exact Option.some_ne_none _
      rw [if_neg hfound, hdelete]
  case clear =>
    obtain ⟨d', -, hclear, -⟩ := hreached.dictClear h
    exact ⟨d', hclear⟩
  case iterate =>
    intro del
    obtain ⟨visited, d', m', -, hiterate, hnodup, hvisited, hreached', -, hentries⟩ :=
      hreached.iterateAll h del
    exact ⟨visited, d', m', hiterate, hnodup, hvisited, hreached', hentries⟩

/-- Numbers as keys. -/
def numberTypes : DictTypes ℕ where
  hashFunction key := UInt32.ofNat key
  keyCompare key key' := (key : ℤ) - key'
  equiv := ⟨fun _ => sub_self _, fun h => by omega, fun h h' => by omega⟩
  hash_eq h := by rw [Int.ofNat_inj.mp (sub_eq_zero.mp h)]

/-- Two keys of one chain, the first with another value, and the second deleted. -/
theorem dict_refines_run : ∃ (d : DictT ℕ ℕ) (m : Dict (Class numberTypes) ℕ),
    m.find (classOf numberTypes 5) = some 55 ∧ Refines numberTypes d m := by
  obtain ⟨d₀, d₁, d₂, d₃, d₄, hcreate, hfive, hfree₁, hone, hfree₂, hreplace, hdelete⟩ :
      ∃ d₀ d₁ d₂ d₃ d₄ : DictT ℕ ℕ, dictCreate 0 = some d₀ ∧
        d₀.dictAdd numberTypes 5 50 100 = some (some 100, d₁) ∧
        d₁.table.cells.find 200 = none ∧
        d₁.dictAdd numberTypes 1 10 200 = some (some 200, d₂) ∧
        d₂.table.cells.find 300 = none ∧
        d₂.dictReplace numberTypes 5 55 300 = some (0, d₃) ∧
        d₃.dictDelete numberTypes 1 = some (1, d₄) :=
    ⟨_, _, _, _, _, rfl, rfl, rfl, rfl, rfl, rfl, rfl⟩
  have h₀ : Reached numberTypes d₀ ∅ := .create hcreate
  have hfree₀ : d₀.table.cells.find 100 = none := by
    cases hcreate
    rfl
  have h₁ := h₀.add hfree₀ (by decide) hfive
  have h₂ := h₁.add hfree₁ (by decide) hone
  have h₃ := h₂.replace hfree₂ (by decide) hreplace
  exact ⟨d₄, _, by decide, dict_refines (h₃.delete hdelete)⟩

end Runs

end DictT

end ViabtcExchange
