import ViabtcExchange.Lib.Chained
import ViabtcExchange.States

/-!
# The table of waiting requests in memory (`nw_state.c`)

`NwState` is what the table of `nw_state.c` is for: from a sequence number it comes to what is
remembered about the request. Here are its chains, with the timer of each entry. The data of an
entry is at its address, so the abstract table takes a number to an address.

A table grows four times as large with four entries for each chain. `table_size * 4` is a
`uint32_t`: with 2^30 chains it is 0, and `expand_if_needed` then moves all entries into a table
that has no chains (`add_largest`).

**Theorem (`stateTable_exact`).** As long as no entry is added to a table of 2^30 chains, the table
is the abstract one, and every timer takes out its own entry.
-/

namespace ViabtcExchange

/-- `nw_state`, with its active timers, and the entries that `on_timeout` has been called for. An
entry is its id, and its data is at its address. -/
structure StateTable where
  table : ChainTable ℕ
  tableSize : ℕ
  tableMask : ℕ
  used : ℕ
  idStart : ℕ
  timers : Finset ℕ
  timeouts : List ℕ

namespace NwState

variable {V : Type}

/-- `nw_state_add`, with an id that may be given. -/
def put (s : NwState V) (id : ℕ) (v : V) : Option (ℕ × NwState V) :=
  if id = 0 then s.add v
  else if s.get id ≠ none ∨ s.entries.keys.card = sequences then none
  else some (id, { s with entries := s.entries.insert id v })

/-- The entry with a value is gone. -/
def drop [DecidableEq V] (s : NwState V) (v : V) : NwState V :=
  { s with entries := s.entries.filter fun _ w => w ≠ v }

/-- The ids in a table are not 0. -/
def Numbered (s : NwState V) : Prop := ∀ id, s.get id ≠ none → 0 < id ∧ id ≤ sequences

theorem Numbered.keys_subset {s : NwState V} (h : s.Numbered) :
    s.entries.keys ⊆ Finset.Icc 1 sequences := by
  intro id hid
  rw [Dict.mem_keys_iff] at hid
  exact Finset.mem_Icc.mpr (h id hid)

theorem Numbered.card_le {s : NwState V} (h : s.Numbered) : s.entries.keys.card ≤ sequences := by
  have hcard := Finset.card_le_card h.keys_subset
  rwa [Nat.card_Icc, Nat.add_sub_cancel] at hcard

theorem nextId_pos (idStart : ℕ) : 0 < nextId idStart := by
  rw [nextId]
  split_ifs <;> omega

theorem nextId_le (idStart : ℕ) : nextId idStart ≤ sequences := by
  have hmod := Nat.mod_lt (idStart + 1) (by norm_num : 0 < 2 ^ 32)
  rw [nextId, sequences]
  split_ifs <;> omega

/-- Every value of `id_start` is one that a run without ids passed over comes to. -/
theorem exists_startOf {idStart : ℕ} (h : idStart ≤ sequences) : ∃ m, idStart = startOf m := by
  cases idStart with
  | zero => exact ⟨0, rfl⟩
  | succ n =>
    refine ⟨n + 1, ?_⟩
    rw [startOf, sequenceOf, Nat.mod_eq_of_lt h]

/-- While none is available, the loop counts on. -/
theorem taken_of_getAvailableId {s : NwState V} {rounds m : ℕ}
    (h : s.getAvailableId rounds (startOf m) = none) {i : ℕ} (hi : i < rounds) :
    s.get (sequenceOf (m + i)) ≠ none := by
  induction rounds generalizing m i with
  | zero => omega
  | succ rounds ih =>
    rw [getAvailableId, nextId_startOf] at h
    split_ifs at h with hfree
    cases i with
    | zero => exact hfree
    | succ i =>
      have hstart : sequenceOf m = startOf (m + 1) := rfl
      rw [hstart] at h
      have htaken := ih h (Nat.lt_of_succ_lt_succ hi)
      rwa [Nat.add_right_comm] at htaken

/-- `get_available_id` ends as long as an id is free. -/
theorem exists_getAvailableId {s : NwState V} (hstart : s.idStart ≤ sequences)
    (hcard : s.entries.keys.card < sequences) :
    ∃ id, s.getAvailableId (2 ^ 32) s.idStart = some id := by
  obtain ⟨m, hm⟩ := exists_startOf hstart
  rw [hm, ← Option.ne_none_iff_exists']
  intro hnone
  have hinj : Set.InjOn (fun i => sequenceOf (m + i)) (Finset.range sequences) := by
    intro i hi j hj heq
    rw [Finset.mem_coe, Finset.mem_range] at hi hj
    rcases le_total i j with hij | hij
    · have := eq_of_sequenceOf_eq heq (by omega) (by omega)
      omega
    · have := eq_of_sequenceOf_eq heq.symm (by omega) (by omega)
      omega
  have hsub : (Finset.range sequences).image (fun i => sequenceOf (m + i)) ⊆ s.entries.keys := by
    intro id hid
    obtain ⟨i, hi, rfl⟩ := Finset.mem_image.mp hid
    rw [Finset.mem_range] at hi
    rw [Dict.mem_keys_iff]
    exact taken_of_getAvailableId hnone (hi.trans (by decide))
  have hle := Finset.card_le_card hsub
  rw [Finset.card_image_of_injOn hinj, Finset.card_range] at hle
  omega

theorem getAvailableId_bounds {s : NwState V} {rounds idStart id : ℕ}
    (h : s.getAvailableId rounds idStart = some id) : 0 < id ∧ id ≤ sequences := by
  obtain ⟨⟨i, rfl⟩, -⟩ := getAvailableId_spec h
  exact ⟨nextId_pos i, nextId_le i⟩

end NwState

namespace StateTable

/-! ## Operations

They are nothing (`none`) where they would read or write what is not there, or not return.
-/

section Operations

/-- `nw_state_create`. -/
def create : StateTable := ⟨.empty 64, 64, 64 - 1, 0, 0, ∅, []⟩

variable (t : StateTable)

/-- `nw_state_get`. -/
def get (id : ℕ) : Option (Option ℕ) :=
  (t.table.lookup (fun e => e = id) (id &&& t.tableMask)).map fun r => r.map Prod.snd

/-- `expand_if_needed`, if there is memory for the new table. -/
def expandIfNeeded (calloc : Bool) : Option StateTable :=
  if t.used < t.tableSize * 4 % 2 ^ 32 then some t
  else if calloc then
    let size := t.tableSize * 4 % 2 ^ 32
    let mask := (size + 2 ^ 32 - 1) % 2 ^ 32
    (t.table.refile (fun id => id &&& mask) (fun _ => true) size).map fun table =>
      { t with table := table, tableSize := size, tableMask := mask }
  else some t

/-- `state_remove`. -/
def stateRemove (a : ℕ) : Option StateTable :=
  (ChainTable.entryAt t.table.cells a).bind fun id =>
    (t.table.lookup (fun e => e = id) (id &&& t.tableMask)).bind fun r =>
      match r with
      | none => some t
      | some (prev, _) => (t.table.unlink (id &&& t.tableMask) prev a).map fun table =>
          { t with table := table, used := (t.used + 2 ^ 32 - 1) % 2 ^ 32 }

/-- `on_timeout`, for an entry whose timer has run out. The `on_timeout` of the programs send a
reply, and leave the table alone. -/
def onTimeout (a : ℕ) : Option StateTable :=
  { t with timers := t.timers.erase a, timeouts := t.timeouts ++ [a] }.stateRemove a

/-- `get_available_id`, in so many rounds of its loop. -/
def getAvailableId : ℕ → ℕ → Option ℕ
  | 0, _ => none
  | rounds + 1, idStart =>
    (t.get (NwState.nextId idStart)).bind fun r =>
      if r = none then some (NwState.nextId idStart)
      else getAvailableId rounds (NwState.nextId idStart)

/-- The id of a new entry: the one that is given, or else an available one. -/
def chooseId (id : ℕ) : Option (ℕ × StateTable) :=
  if id ≠ 0 then some (id, t)
  else (t.getAvailableId (2 ^ 32) t.idStart).map fun id => (id, { t with idStart := id })

/-- `nw_state_add`, with the address of the new entry, if there is memory for it, and whether there
is memory for a larger table: the entry, or `NULL`. -/
def add (id : ℕ) (alloc : Option ℕ) (calloc : Bool) : Option (Option ℕ × StateTable) :=
  (if id ≠ 0 then t.get id else some none).bind fun old =>
    if old ≠ none ∨ t.used = 2 ^ 32 - 1 then some (none, t)
    else
      match alloc with
      | none => some (none, t)
      | some a =>
        (t.chooseId id).bind fun r =>
          ({ r.2 with timers := insert a r.2.timers }.expandIfNeeded calloc).bind fun t =>
            (t.table.push (r.1 &&& t.tableMask) a r.1).map fun table =>
              (some a, { t with table := table, used := (t.used + 1) % 2 ^ 32 })

/-- `nw_state_del`. -/
def del (id : ℕ) : Option (ℤ × StateTable) :=
  (t.get id).bind fun r =>
    match r with
    | none => some (-1, t)
    | some a => ({ t with timers := t.timers.erase a }.stateRemove a).map fun t => (0, t)

end Operations

/-! ## What a table holds -/

/-- The chains of a table, and the abstract table that it is. -/
structure Holds (t : StateTable) (s : NwState ℕ) (rows : ℕ → List ℕ) : Prop where
  filed : t.table.Filed (fun id => id &&& t.tableMask) rows
  complete : t.table.Complete rows
  length : t.table.heads.length = t.tableSize
  power : ∃ k ≤ 12, t.tableSize = 64 * 4 ^ k
  mask : t.tableMask = t.tableSize - 1
  entries : ∀ id a, s.get id = some a ↔ ChainTable.entryAt t.table.cells a = some id
  numbered : s.Numbered
  card : t.table.cells.keys.card = s.entries.keys.card
  used : t.used = s.entries.keys.card
  idStart : t.idStart = s.idStart
  start_le : s.idStart ≤ sequences

/-- The timers of the entries are active, and no others. -/
def Timed (t : StateTable) : Prop := ∀ a, a ∈ t.timers ↔ ChainTable.entryAt t.table.cells a ≠ none

section Tables

variable {t : StateTable} {s : NwState ℕ} {rows : ℕ → List ℕ} {a id : ℕ}

theorem holds_create : Holds create NwState.create fun _ => [] where
  filed := ChainTable.filed_empty _ _
  complete := ChainTable.complete_empty _
  length := List.length_replicate
  power := ⟨0, by norm_num, rfl⟩
  mask := rfl
  entries id a := by
    refine iff_of_false (fun h => ?_) (fun h => (nomatch h))
    rw [NwState.get, NwState.create, Dict.find_empty] at h
    cases h
  numbered id h := absurd (Dict.find_empty id) h
  card := rfl
  used := rfl
  idStart := rfl
  start_le := Nat.zero_le _

theorem timed_create : Timed create := by
  intro a
  refine iff_of_false (Finset.notMem_empty a) fun h => h ?_
  rw [ChainTable.entryAt, create, ChainTable.empty, Dict.find_empty]
  rfl

theorem size_eq (k : ℕ) : 64 * 4 ^ k = 2 ^ (2 * k + 6) := by
  rw [pow_add, pow_mul]
  norm_num
  ring

theorem index_lt {size mask : ℕ} (hsize : ∃ k, size = 64 * 4 ^ k) (hmask : mask = size - 1)
    (id : ℕ) : id &&& mask < size := by
  obtain ⟨k, rfl⟩ := hsize
  rw [hmask, size_eq, Nat.and_two_pow_sub_one_eq_mod]
  exact Nat.mod_lt _ (by positivity)

theorem Holds.represents (h : Holds t s rows) : ChainTable.Represents (fun id => id)
    (fun a _ => a) (ChainTable.entryAt t.table.cells) s.entries := by
  constructor
  · rintro a b id _ ha hb rfl
    have hget := (h.entries id a).mpr ha
    rw [(h.entries id b).mpr hb] at hget
    exact (Option.some.inj hget).symm
  · intro id a
    refine (h.entries id a).trans ⟨fun ha => ⟨a, id, ha, rfl, rfl⟩, ?_⟩
    rintro ⟨_, _, ha, rfl, rfl⟩
    exact ha

theorem entries_of_represents (h : ChainTable.Represents (fun id => id) (fun a _ => a)
    (ChainTable.entryAt t.table.cells) s.entries) (id a : ℕ) :
    s.get id = some a ↔ ChainTable.entryAt t.table.cells a = some id := by
  refine (h.maps id a).trans ⟨?_, fun ha => ⟨a, id, ha, rfl, rfl⟩⟩
  rintro ⟨_, _, ha, rfl, rfl⟩
  exact ha

theorem Holds.index_lt (h : Holds t s rows) (id : ℕ) :
    id &&& t.tableMask < t.table.heads.length := by
  obtain ⟨k, -, hk⟩ := h.power
  rw [h.length]
  exact StateTable.index_lt ⟨k, hk⟩ h.mask id

/-- Timers are not in the chains. -/
theorem Holds.withTimers (h : Holds t s rows) (timers : Finset ℕ) (timeouts : List ℕ) :
    Holds { t with timers := timers, timeouts := timeouts } s rows :=
  ⟨h.filed, h.complete, h.length, h.power, h.mask, h.entries, h.numbered, h.card, h.used, h.idStart,
    h.start_le⟩

theorem Timed.insert {t' : StateTable} (h : t.Timed) (htimers : t'.timers = insert a t.timers)
    (hentries : ∀ b, ChainTable.entryAt t'.table.cells b =
      if b = a then some id else ChainTable.entryAt t.table.cells b) : t'.Timed := by
  intro b
  rw [htimers, hentries]
  by_cases hba : b = a
  · rw [if_pos hba, hba]
    exact iff_of_true (Finset.mem_insert_self _ _) (Option.some_ne_none id)
  · rw [if_neg hba, ← h b, Finset.mem_insert, or_iff_right hba]

theorem Timed.erase {t' : StateTable} (h : t.Timed) (htimers : t'.timers = t.timers.erase a)
    (hentries : ∀ b, ChainTable.entryAt t'.table.cells b =
      if b = a then none else ChainTable.entryAt t.table.cells b) : t'.Timed := by
  intro b
  rw [htimers, hentries, Finset.mem_erase]
  by_cases hba : b = a
  · simp [hba]
  · rw [if_neg hba, ← h b, and_iff_right hba]

theorem Holds.used_le (h : Holds t s rows) : t.used ≤ sequences := by
  rw [h.used]
  exact h.numbered.card_le

/-- `nw_state_get` gives what the abstract table has. -/
theorem Holds.get (h : Holds t s rows) (id : ℕ) : t.get id = some (s.get id) := by
  rw [StateTable.get]
  rcases h.filed.lookup (fun e => decide (e = id)) (h.index_lt id) with
    ⟨hlookup, hnone⟩ | ⟨before, a, after, e, -, he, hp, hlookup⟩
  · rw [hlookup]
    cases hget : s.get id with
    | none => rfl
    | some a =>
      have he := (h.entries id a).mp hget
      have hfalse := hnone a (h.filed.mem_row h.complete he) id he
      simp at hfalse
  · obtain rfl := of_decide_eq_true hp
    rw [hlookup, (h.entries e a).mpr he]
    rfl

theorem Holds.getAvailableId (h : Holds t s rows) (rounds idStart : ℕ) :
    t.getAvailableId rounds idStart = s.getAvailableId rounds idStart := by
  induction rounds generalizing idStart with
  | zero => rfl
  | succ rounds ih =>
    rw [StateTable.getAvailableId, NwState.getAvailableId, h.get, Option.bind_some, ih]

/-- The id of a new entry, in the table and in the abstract one. -/
theorem Holds.chooseId (h : Holds t s rows) (hid : id ≤ sequences) (a : ℕ)
    (hfree : id ≠ 0 → s.get id = none) (hused : t.used ≠ sequences) :
    ∃ id' start, t.chooseId id = some (id', { t with idStart := start }) ∧
      s.put id a = some (id', ⟨start, s.entries.insert id' a⟩) ∧ 0 < id' ∧ id' ≤ sequences ∧
      start ≤ sequences ∧ s.get id' = none ∧ (id ≠ 0 → id' = id) := by
  have hcard : ¬s.entries.keys.card = sequences := h.used ▸ hused
  rw [StateTable.chooseId, NwState.put]
  by_cases hzero : id = 0
  · have hlt : s.entries.keys.card < sequences := lt_of_le_of_ne h.numbered.card_le hcard
    obtain ⟨id', hid'⟩ := NwState.exists_getAvailableId h.start_le hlt
    obtain ⟨hpos, hle⟩ := NwState.getAvailableId_bounds hid'
    refine ⟨id', id', ?_, ?_, hpos, hle, hle, (NwState.getAvailableId_spec hid').2,
      fun hne => absurd hzero hne⟩
    · rw [if_neg (not_not.mpr hzero), h.getAvailableId, h.idStart, hid', Option.map_some]
    · rw [if_pos hzero, NwState.add, if_neg hcard, hid', Option.map_some]
  · have hnew := hfree hzero
    have hput : ¬(s.get id ≠ none ∨ s.entries.keys.card = sequences) :=
      not_or.mpr ⟨not_not.mpr hnew, hcard⟩
    refine ⟨id, s.idStart, ?_, ?_, Nat.pos_of_ne_zero hzero, hid, h.start_le, hnew, fun _ => rfl⟩
    · rw [if_pos hzero, ← h.idStart]
    · rw [if_neg hzero, if_neg hput]

/-- Below 2^30 chains a table grows to four times as many. -/
theorem Holds.expandIfNeeded (h : Holds t s rows) {calloc : Bool}
    (hfits : t.tableSize < 2 ^ 30 ∨ calloc = false) :
    ∃ t' rows', t.expandIfNeeded calloc = some t' ∧ Holds t' s rows' ∧
      (∀ b, ChainTable.entryAt t'.table.cells b = ChainTable.entryAt t.table.cells b) ∧
      t'.timers = t.timers ∧ t'.timeouts = t.timeouts ∧
      t'.tableSize = if calloc = true ∧ t.tableSize * 4 ≤ t.used then t.tableSize * 4
        else t.tableSize := by
  obtain ⟨k, hk, hsize⟩ := h.power
  by_cases hgrow : calloc = true ∧ t.tableSize * 4 ≤ t.used
  · have hlt : t.tableSize < 2 ^ 30 := hfits.resolve_right (by rw [hgrow.1]; exact Bool.noConfusion)
    have hk' : k < 12 := by
      by_contra hge
      obtain rfl : k = 12 := by omega
      rw [hsize] at hlt
      exact absurd hlt (by norm_num)
    have hmod : t.tableSize * 4 % 2 ^ 32 = t.tableSize * 4 := Nat.mod_eq_of_lt (by omega)
    have hpos : 0 < t.tableSize := by rw [hsize]; positivity
    have hmask : (t.tableSize * 4 + 2 ^ 32 - 1) % 2 ^ 32 = t.tableSize * 4 - 1 := by omega
    have hpower : t.tableSize * 4 = 64 * 4 ^ (k + 1) := by
      rw [hsize, pow_succ]
      ring
    obtain ⟨t', rows', hrefile, hlength, hfiled, hcomplete, hentries⟩ := h.filed.refile h.complete
      (fun id => id &&& (t.tableSize * 4 - 1)) (fun _ => true) (t.tableSize * 4)
      (fun _ id _ => StateTable.index_lt ⟨k + 1, hpower⟩ rfl id) (fun n hn => (nomatch hn))
    refine ⟨{ t with
      table := t', tableSize := t.tableSize * 4, tableMask := t.tableSize * 4 - 1 }, rows', ?_,
      ⟨hfiled, hcomplete, hlength, ⟨k + 1, hk', hpower⟩, rfl, ?_, h.numbered, ?_, h.used, h.idStart,
        h.start_le⟩, hentries, rfl, rfl, by rw [if_pos hgrow]⟩
    · rw [StateTable.expandIfNeeded, hmod, if_neg (by omega), if_pos hgrow.1]
      simp only [hmask]
      rw [hrefile, Option.map_some]
    · intro id a
      rw [h.entries, hentries]
    · rw [← h.card]
      exact ChainTable.card_keys_of_entries fun b => by rw [hentries]
  · refine ⟨t, rows, ?_, h, fun _ => rfl, rfl, rfl, by rw [if_neg hgrow]⟩
    rw [StateTable.expandIfNeeded]
    split_ifs with hused hcalloc
    · rfl
    · have hlt : t.tableSize < 2 ^ 30 :=
        hfits.resolve_right (by rw [hcalloc]; exact Bool.noConfusion)
      rw [Nat.mod_eq_of_lt (by omega)] at hused
      exact absurd ⟨hcalloc, by omega⟩ hgrow
    · rfl

/-- What an add must not do: put an entry into a table of 2^30 chains when there is memory for
another table. -/
def Fits (t : StateTable) (id : ℕ) (alloc : Option ℕ) (calloc : Bool) : Prop :=
  t.tableSize < 2 ^ 30 ∨ calloc = false ∨ alloc = none ∨ t.used = sequences ∨
    (id ≠ 0 ∧ t.get id ≠ some none)

/-- The abstract table after an add. -/
def addTo (s : NwState ℕ) (id : ℕ) (alloc : Option ℕ) : NwState ℕ :=
  ((alloc.bind fun a => s.put id a).map Prod.snd).getD s

/-- An entry is pushed into the chain of its id. -/
theorem Holds.enter (h : Holds t s rows) (hused : t.used ≠ sequences)
    (ha : t.table.cells.find a = none) (hfree : s.get id = none) (hpos : 0 < id)
    (hle : id ≤ sequences) :
    ∃ table rows', t.table.push (id &&& t.tableMask) a id = some table ∧
      Holds { t with table := table, used := (t.used + 1) % 2 ^ 32 }
        ⟨s.idStart, s.entries.insert id a⟩ rows' ∧
      ∀ b, ChainTable.entryAt table.cells b =
        if b = a then some id else ChainTable.entryAt t.table.cells b := by
  obtain ⟨table, rows', hpush, hlength, hfiled, hcomplete, hentries, hcard⟩ :=
    h.filed.add h.complete ha id (h.index_lt id)
  have hcard' := Dict.card_insert hfree a
  have hmap := h.represents.insert hfree (by rw [ChainTable.entryAt, ha]; rfl) hentries
  refine ⟨table, rows', hpush, ⟨hfiled, hcomplete, hlength.trans h.length, h.power, h.mask, ?_, ?_,
    ?_, ?_, h.idStart, h.start_le⟩, hentries⟩
  · exact fun id' b => entries_of_represents
      (t := { t with table := table }) (s := ⟨s.idStart, s.entries.insert id a⟩) hmap id' b
  · intro id' hget
    rw [NwState.get, Dict.find_insert] at hget
    split_ifs at hget with hids
    · exact hids ▸ ⟨hpos, hle⟩
    · exact h.numbered id' hget
  · show table.cells.keys.card = Finset.card _
    rw [hcard, hcard', h.card]
  · have hmax := h.used_le
    rw [h.used, sequences] at hmax
    rw [h.used, sequences] at hused
    show (t.used + 1) % 2 ^ 32 = Finset.card _
    rw [hcard', h.used]
    exact Nat.mod_eq_of_lt (by omega)

/-- The abstract table refuses what `nw_state_add` refuses at its head. -/
theorem Holds.put_refused (h : Holds t s rows)
    (hrefused : (if id ≠ 0 then s.get id else none) ≠ none ∨ t.used = 2 ^ 32 - 1) (a : ℕ) :
    s.put id a = none := by
  rw [h.used] at hrefused
  rw [NwState.put]
  by_cases hzero : id = 0
  · rw [if_neg (not_not.mpr hzero)] at hrefused
    rw [if_pos hzero, NwState.add]
    exact if_pos (hrefused.resolve_left fun hne => hne rfl)
  · rw [if_pos hzero] at hrefused
    rw [if_neg hzero]
    exact if_pos hrefused

/-- What `nw_state_add` does. -/
theorem Holds.add (h : Holds t s rows) (htimed : t.Timed) (hid : id ≤ sequences)
    {alloc : Option ℕ} (ha : ∀ a, alloc = some a → t.table.cells.find a = none) {calloc : Bool}
    (hfits : t.Fits id alloc calloc) :
    ∃ t' rows', t.add id alloc calloc =
        some (alloc.bind fun a => (s.put id a).map fun _ => a, t') ∧
      Holds t' (addTo s id alloc) rows' ∧ t'.Timed ∧ t'.timeouts = t.timeouts ∧
      ∀ a id' s', alloc = some a → s.put id a = some (id', s') →
        (∀ b, ChainTable.entryAt t'.table.cells b =
          if b = a then some id' else ChainTable.entryAt t.table.cells b) ∧
        0 < id' ∧ (id ≠ 0 → id' = id) ∧ s.get id' = none ∧
        t'.tableSize = if calloc = true ∧ t.tableSize * 4 ≤ t.used then t.tableSize * 4
          else t.tableSize := by
  have hold : (if id ≠ 0 then t.get id else some none) =
      some (if id ≠ 0 then s.get id else none) := by
    by_cases hzero : id ≠ 0
    · rw [if_pos hzero, if_pos hzero, h.get]
    · rw [if_neg hzero, if_neg hzero]
  simp only [StateTable.add, hold, Option.bind_some]
  by_cases hrefused : (if id ≠ 0 then s.get id else none) ≠ none ∨ t.used = 2 ^ 32 - 1
  · have hput := h.put_refused hrefused
    refine ⟨t, rows, ?_, ?_, htimed, rfl, fun a id' s' _ hs' => ?_⟩
    · rw [if_pos hrefused]
      cases alloc with
      | none => rfl
      | some a => rw [Option.bind_some, hput, Option.map_none]
    · rw [addTo]
      cases alloc with
      | none => exact h
      | some a =>
        rw [Option.bind_some, hput]
        exact h
    · rw [hput] at hs'
      cases hs'
  · rw [if_neg hrefused]
    rw [not_or, not_not] at hrefused
    cases alloc with
    | none => exact ⟨t, rows, rfl, h, htimed, rfl, fun a _ _ hnone => (nomatch hnone)⟩
    | some a =>
      have hnew : id ≠ 0 → s.get id = none := by
        intro hzero
        have hnone := hrefused.1
        rwa [if_pos hzero] at hnone
      obtain ⟨id', start, hchoose, hput, hpos, hle, hstart, hfree, hgiven⟩ :=
        h.chooseId hid a hnew hrefused.2
      have hgrow : t.tableSize < 2 ^ 30 ∨ calloc = false := by
        rcases hfits with hsize | hcalloc | hnone | hused | ⟨hzero, htaken⟩
        · exact Or.inl hsize
        · exact Or.inr hcalloc
        · cases hnone
        · exact absurd hused hrefused.2
        · rw [h.get, hnew hzero] at htaken
          exact absurd rfl htaken
      have h₁ : Holds { t with idStart := start, timers := insert a t.timers }
          ⟨start, s.entries⟩ rows :=
        ⟨h.filed, h.complete, h.length, h.power, h.mask, h.entries, h.numbered, h.card, h.used, rfl,
          hstart⟩
      obtain ⟨t₂, rows₂, hexpand, h₂, hentries₂, htimers₂, htimeouts₂, hsize₂⟩ :=
        h₁.expandIfNeeded hgrow
      have ha₂ : t₂.table.cells.find a = none := by
        have hentry := hentries₂ a
        rw [ChainTable.entryAt, ChainTable.entryAt, ha a rfl, Option.map_none,
          Option.map_eq_none_iff] at hentry
        exact hentry
      have hused₂ : t₂.used ≠ sequences := by
        rw [h₂.used, ← h₁.used]
        exact hrefused.2
      obtain ⟨table, rows', hpush, h', hentries⟩ := h₂.enter hused₂ ha₂ hfree hpos hle
      have hentries' : ∀ b, ChainTable.entryAt table.cells b =
          if b = a then some id' else ChainTable.entryAt t.table.cells b := by
        intro b
        rw [hentries, hentries₂]
      have hadded : addTo s id (some a) = ⟨start, s.entries.insert id' a⟩ := by
        rw [addTo, Option.bind_some, hput]
        rfl
      refine ⟨{ t₂ with table := table, used := (t₂.used + 1) % 2 ^ 32 }, rows', ?_, hadded ▸ h',
        htimed.insert htimers₂ hentries', htimeouts₂, ?_⟩
      · simp only [hchoose, Option.bind_some]
        rw [hexpand, Option.bind_some, hpush, Option.map_some, hput, Option.map_some]
      · intro a' id'' s' halloc hput'
        obtain rfl := Option.some.inj halloc
        rw [hput] at hput'
        cases hput'
        exact ⟨hentries', hpos, hgiven, hfree, hsize₂⟩

/-- With 2^30 chains `table_size * 4` is 0: the new table has no chain for an entry. -/
theorem Holds.add_largest (h : Holds t s rows) (hid : id ≤ sequences) {alloc : Option ℕ}
    {calloc : Bool} (hfits : ¬t.Fits id alloc calloc) : t.add id alloc calloc = none := by
  simp only [Fits, not_or, not_lt, not_and, not_not] at hfits
  obtain ⟨hlarge, hcalloc, halloc, hused, hfree⟩ := hfits
  obtain ⟨a, rfl⟩ := Option.ne_none_iff_exists'.mp halloc
  obtain rfl : calloc = true := by simpa using hcalloc
  obtain ⟨k, hk, hsize⟩ := h.power
  obtain rfl : k = 12 := by
    by_contra hne
    have hpow : (4 : ℕ) ^ k ≤ 4 ^ 11 := Nat.pow_le_pow_right (by norm_num) (by omega)
    rw [hsize] at hlarge
    norm_num at hpow hlarge
    omega
  have hnew : id ≠ 0 → s.get id = none := by
    intro hzero
    have hget := hfree hzero
    rw [h.get] at hget
    exact Option.some.inj hget
  have hold : (if id ≠ 0 then t.get id else some none) = some none := by
    by_cases hzero : id ≠ 0
    · rw [if_pos hzero, h.get, hnew hzero]
    · rw [if_neg hzero]
  have hopen : ¬((none : Option ℕ) ≠ none ∨ t.used = 2 ^ 32 - 1) :=
    not_or.mpr ⟨not_not.mpr rfl, hused⟩
  obtain ⟨id', start, hchoose, -⟩ := h.chooseId hid a hnew hused
  have hsize' : t.tableSize * 4 % 2 ^ 32 = 0 := by
    rw [hsize]
    norm_num
  simp only [StateTable.add, hold, Option.bind_some, if_neg hopen, hchoose]
  rw [Option.bind_eq_none_iff]
  intro t₁ hexpand
  simp only [StateTable.expandIfNeeded, hsize', if_neg (Nat.not_lt_zero _), if_true] at hexpand
  obtain ⟨table, hrefile, rfl⟩ := Option.map_eq_some_iff.mp hexpand
  have hheads := List.length_eq_zero_iff.mp (ChainTable.length_refile hrefile)
  rw [Option.map_eq_none_iff, ChainTable.push, hheads]
  rfl

/-- The entry with the id of this one is this one, and its chain is found. -/
theorem Holds.stateRemove (h : Holds t s rows) (he : ChainTable.entryAt t.table.cells a = some id) :
    ∃ t' rows', t.stateRemove a = some t' ∧ Holds t' (s.del id) rows' ∧
      (∀ b, ChainTable.entryAt t'.table.cells b =
        if b = a then none else ChainTable.entryAt t.table.cells b) ∧
      t'.timers = t.timers ∧ t'.timeouts = t.timeouts := by
  have hget := (h.entries id a).mpr he
  have hfound : s.entries.find id ≠ none := by
    rw [show s.entries.find id = some a from hget]
    exact Option.some_ne_none a
  rw [StateTable.stateRemove, he, Option.bind_some]
  rcases h.filed.remove h.complete (fun e => decide (e = id)) (h.index_lt id) with
    ⟨-, hnone⟩ | ⟨prev, b, e, table, hlookup, -, hb, hp, hunlink, hlength, hfiled, hcomplete,
      hentries, hcard⟩
  · have hfalse := hnone a (h.filed.mem_row h.complete he) id he
    simp at hfalse
  · obtain rfl := of_decide_eq_true hp
    have hba := (h.entries e b).mpr hb
    rw [hget] at hba
    obtain rfl := Option.some.inj hba
    have hcard' : (s.del e).entries.keys.card + 1 = s.entries.keys.card := Dict.card_erase hfound
    refine ⟨{ t with table := table, used := (t.used + 2 ^ 32 - 1) % 2 ^ 32 }, _, ?_,
      ⟨hfiled, hcomplete, hlength.trans h.length, h.power, h.mask, ?_, ?_, ?_, ?_, h.idStart,
        h.start_le⟩, hentries, rfl, rfl⟩
    · rw [hlookup, Option.bind_some]
      simp only
      rw [hunlink, Option.map_some]
    · exact fun id' b => entries_of_represents
        (t := { t with table := table }) (s := s.del e) (h.represents.erase he hentries) id' b
    · intro id' hid'
      rw [NwState.get_del] at hid'
      split_ifs at hid' with hids
      · exact absurd rfl hid'
      · exact h.numbered id' hid'
    · have hold := h.card
      show table.cells.keys.card = _
      omega
    · have hmax := h.used_le
      have hused := h.used
      rw [sequences] at hmax
      show (t.used + 2 ^ 32 - 1) % 2 ^ 32 = _
      omega

theorem drop_eq_del (h : Holds t s rows) (he : ChainTable.entryAt t.table.cells a = some id) :
    s.drop a = s.del id := by
  have hentries : s.entries.filter (fun _ b => b ≠ a) = s.entries.erase id := by
    refine Dict.ext_find fun id' => ?_
    rw [Dict.find_erase]
    apply Option.ext
    intro b
    rw [Dict.find_filter_eq_some, decide_eq_true_eq]
    have hget := (h.entries id a).mpr he
    by_cases hids : id' = id
    · subst hids
      rw [if_pos rfl]
      refine iff_of_false ?_ fun hb => (nomatch hb)
      rintro ⟨hb, hba⟩
      rw [show s.entries.find id' = some a from hget] at hb
      exact hba (Option.some.inj hb).symm
    · rw [if_neg hids]
      refine and_iff_left_of_imp fun hb => ?_
      rintro rfl
      have hother := (h.entries id' b).mp hb
      rw [he] at hother
      exact hids (Option.some.inj hother).symm
  rw [NwState.drop, NwState.del, hentries]

theorem Holds.del (h : Holds t s rows) (htimed : t.Timed) (id : ℕ) :
    ∃ t' rows', t.del id = some (if s.get id = none then -1 else 0, t') ∧
      Holds t' (s.del id) rows' ∧ t'.Timed ∧ t'.timeouts = t.timeouts := by
  rw [StateTable.del, h.get, Option.bind_some]
  cases hget : s.get id with
  | none =>
    refine ⟨t, rows, rfl, ?_, htimed, rfl⟩
    have hsame : s.del id = s := by
      rw [NwState.del, Dict.erase_of_find_none hget]
    rw [hsame]
    exact h
  | some a =>
    have he := (h.entries id a).mp hget
    obtain ⟨t', rows', hremove, h', hentries, htimers, htimeouts⟩ :=
      (h.withTimers (t.timers.erase a) t.timeouts).stateRemove he
    refine ⟨t', rows', ?_, h', htimed.erase htimers hentries, htimeouts⟩
    rw [if_neg (Option.some_ne_none a)]
    simp only
    rw [hremove, Option.map_some]

/-- A timer that has run out takes out its own entry, after one call of `on_timeout`. -/
theorem Holds.onTimeout (h : Holds t s rows) (htimed : t.Timed) (ha : a ∈ t.timers) :
    ∃ t' rows', t.onTimeout a = some t' ∧ Holds t' (s.drop a) rows' ∧ t'.Timed ∧
      (∀ b, ChainTable.entryAt t'.table.cells b =
        if b = a then none else ChainTable.entryAt t.table.cells b) ∧
      t'.timeouts = t.timeouts ++ [a] := by
  obtain ⟨id, he⟩ := Option.ne_none_iff_exists'.mp ((htimed a).mp ha)
  obtain ⟨t', rows', hremove, h', hentries, htimers, htimeouts⟩ :=
    (h.withTimers (t.timers.erase a) (t.timeouts ++ [a])).stateRemove he
  rw [drop_eq_del h he]
  exact ⟨t', rows', hremove, h', htimed.erase htimers hentries, hentries, htimeouts⟩

end Tables

/-! ## Runs -/

/-- The tables of all runs whose adds meet a condition, each with what it is to be. A new entry gets
an address that is free, and only a timer that is active runs out. -/
inductive Reached (meets : StateTable → ℕ → Option ℕ → Bool → Prop) :
    StateTable → NwState ℕ → Prop
  | create : Reached meets create NwState.create
  | add {t t' : StateTable} {s : NwState ℕ} {id : ℕ} {alloc r : Option ℕ} {calloc : Bool}
      (h : Reached meets t s) (hid : id ≤ sequences)
      (ha : ∀ a, alloc = some a → t.table.cells.find a = none) (hmeets : meets t id alloc calloc)
      (hstep : t.add id alloc calloc = some (r, t')) : Reached meets t' (addTo s id alloc)
  | del {t t' : StateTable} {s : NwState ℕ} {id : ℕ} {r : ℤ} (h : Reached meets t s)
      (hstep : t.del id = some (r, t')) : Reached meets t' (s.del id)
  | expire {t t' : StateTable} {s : NwState ℕ} {a : ℕ} (h : Reached meets t s) (ha : a ∈ t.timers)
      (hstep : t.onTimeout a = some t') : Reached meets t' (s.drop a)

/-- What a table is to do, as long as the adds meet a condition. -/
structure Exact (meets : StateTable → ℕ → Option ℕ → Bool → Prop) (t : StateTable)
    (s : NwState ℕ) : Prop where
  /-- The entries have ids of their own, other than 0. -/
  distinct : ∀ a b id, ChainTable.entryAt t.table.cells a = some id →
    ChainTable.entryAt t.table.cells b = some id → a = b
  ids : ∀ a id, ChainTable.entryAt t.table.cells a = some id → 0 < id ∧ id ≤ sequences
  get : ∀ id, t.get id = some (s.get id)
  used : t.used = t.table.cells.keys.card
  /-- `get_available_id` returns, and not 0. -/
  availableId : t.used < sequences → ∃ id, t.getAvailableId (2 ^ 32) t.idStart = some id ∧
    0 < id ∧ id ≤ sequences ∧ s.get id = none
  add : ∀ id alloc calloc, id ≤ sequences →
    (∀ a, alloc = some a → t.table.cells.find a = none) → meets t id alloc calloc →
    ∃ t', t.add id alloc calloc =
        some (alloc.bind fun a => (s.put id a).map fun _ => a, t') ∧
      ∀ a id' s', alloc = some a → s.put id a = some (id', s') →
        (∀ b, ChainTable.entryAt t'.table.cells b =
          if b = a then some id' else ChainTable.entryAt t.table.cells b) ∧
        0 < id' ∧ (id ≠ 0 → id' = id) ∧ s.get id' = none
  del : ∀ id, ∃ t', t.del id = some (if s.get id = none then -1 else 0, t')
  /-- The timers are those of the entries, and one that runs out takes out its entry. -/
  timers : ∀ a, a ∈ t.timers ↔ ChainTable.entryAt t.table.cells a ≠ none
  expire : ∀ a ∈ t.timers, ∃ t', t.onTimeout a = some t' ∧
    (∀ b, ChainTable.entryAt t'.table.cells b =
      if b = a then none else ChainTable.entryAt t.table.cells b) ∧
    t'.timeouts = t.timeouts ++ [a]

section Runs

variable {t : StateTable} {s : NwState ℕ}

theorem Reached.holds (h : Reached Fits t s) : (∃ rows, Holds t s rows) ∧ t.Timed := by
  induction h with
  | create => exact ⟨⟨_, holds_create⟩, timed_create⟩
  | add _ hid ha hmeets hstep ih =>
    obtain ⟨⟨rows, h⟩, htimed⟩ := ih
    obtain ⟨t₁, rows', hadd, h', htimed', -⟩ := h.add htimed hid ha hmeets
    rw [hadd] at hstep
    cases hstep
    exact ⟨⟨rows', h'⟩, htimed'⟩
  | @del t t' s id r _ hstep ih =>
    obtain ⟨⟨rows, h⟩, htimed⟩ := ih
    obtain ⟨t₁, rows', hdel, h', htimed', -⟩ := h.del htimed id
    rw [hdel] at hstep
    cases hstep
    exact ⟨⟨rows', h'⟩, htimed'⟩
  | expire _ ha hstep ih =>
    obtain ⟨⟨rows, h⟩, htimed⟩ := ih
    obtain ⟨t₁, rows', hexpire, h', htimed', -⟩ := h.onTimeout htimed ha
    rw [hexpire] at hstep
    cases hstep
    exact ⟨⟨rows', h'⟩, htimed'⟩

/-- The table of waiting requests is exact as long as none is added to a table of 2^30 chains. -/
theorem stateTable_exact (hreached : Reached Fits t s) : Exact Fits t s := by
  obtain ⟨⟨rows, h⟩, htimed⟩ := hreached.holds
  constructor
  case distinct =>
    intro a b id ha hb
    have hget := (h.entries id a).mpr ha
    rw [(h.entries id b).mpr hb] at hget
    exact (Option.some.inj hget).symm
  case ids =>
    intro a id ha
    refine h.numbered id ?_
    rw [(h.entries id a).mpr ha]
    exact Option.some_ne_none a
  case get => exact h.get
  case used => rw [h.used, h.card]
  case availableId =>
    intro hused
    rw [h.used] at hused
    obtain ⟨id, hid⟩ := NwState.exists_getAvailableId h.start_le hused
    obtain ⟨hpos, hle⟩ := NwState.getAvailableId_bounds hid
    exact ⟨id, by rw [h.getAvailableId, h.idStart, hid], hpos, hle,
      (NwState.getAvailableId_spec hid).2⟩
  case add =>
    intro id alloc calloc hid ha hmeets
    obtain ⟨t', -, hadd, -, -, -, hput⟩ := h.add htimed hid ha hmeets
    refine ⟨t', hadd, fun a id' s' halloc hs' => ?_⟩
    obtain ⟨hentries, hpos, hgiven, hfree, -⟩ := hput a id' s' halloc hs'
    exact ⟨hentries, hpos, hgiven, hfree⟩
  case del =>
    intro id
    obtain ⟨t', -, hdel, -⟩ := h.del htimed id
    exact ⟨t', hdel⟩
  case timers => exact htimed
  case expire =>
    intro a ha
    obtain ⟨t', -, hexpire, -, -, hentries, htimeouts⟩ := h.onTimeout htimed ha
    exact ⟨t', hexpire, hentries, htimeouts⟩

/-- An id given, another chosen, the first deleted, and the timer of the second run out. -/
theorem stateTable_exact_run : ∃ t s, t.timeouts = [200] ∧ Exact Fits t s := by
  obtain ⟨t₁, t₂, t₃, t₄, hgiven, hfree, hchosen, hfits, hdel, htimer, hexpire, htimeouts⟩ :
      ∃ t₁ t₂ t₃ t₄ : StateTable, create.add 7 (some 100) true = some (some 100, t₁) ∧
        t₁.table.cells.find 200 = none ∧ t₁.add 0 (some 200) true = some (some 200, t₂) ∧
        t₁.tableSize < 2 ^ 30 ∧ t₂.del 7 = some (0, t₃) ∧ 200 ∈ t₃.timers ∧
        t₃.onTimeout 200 = some t₄ ∧ t₄.timeouts = [200] :=
    ⟨_, _, _, _, rfl, rfl, rfl, by decide, rfl, by decide, rfl, rfl⟩
  have hfree₀ : ∀ a, some 100 = some a → create.table.cells.find a = none := by
    rintro a ⟨⟩
    rfl
  have hfree₁ : ∀ a, some 200 = some a → t₁.table.cells.find a = none := by
    rintro a ⟨⟩
    exact hfree
  have hfits₀ : create.Fits 7 (some 100) true := Or.inl (by decide)
  have hfits₁ : t₁.Fits 0 (some 200) true := Or.inl hfits
  have hseven : 7 ≤ sequences := by decide
  have h₁ := Reached.create.add hseven hfree₀ hfits₀ hgiven
  have h₂ := h₁.add (Nat.zero_le _) hfree₁ hfits₁ hchosen
  exact ⟨t₄, _, htimeouts, stateTable_exact ((h₂.del hdel).expire htimer hexpire)⟩

/-- With so many adds that choose their ids there are so many entries, and chains for them. -/
theorem exists_filled {n : ℕ} (hn : n ≤ 2 ^ 30 + 1) :
    ∃ t s rows, Reached (fun _ _ _ _ => True) t s ∧ Holds t s rows ∧ t.Timed ∧ t.used = n ∧
      (t.tableSize = 64 ∨ t.tableSize < n) ∧ n ≤ t.tableSize * 4 := by
  induction n with
  | zero => exact ⟨_, _, _, .create, holds_create, timed_create, rfl, Or.inl rfl, Nat.zero_le _⟩
  | succ n ih =>
    obtain ⟨t, s, rows, hreached, h, htimed, hused, hsize, hroom⟩ := ih (by omega)
    obtain ⟨a, ha⟩ := Infinite.exists_notMem_finset t.table.cells.keys
    have hfree : ∀ b, some a = some b → t.table.cells.find b = none := by
      rintro b ⟨⟩
      rwa [Dict.mem_keys_iff, not_not] at ha
    have hsmall : t.tableSize < 2 ^ 30 := by omega
    have hfits : t.Fits 0 (some a) true := Or.inl hsmall
    obtain ⟨t', rows', hadd, h', htimed', -, hput⟩ := h.add htimed (Nat.zero_le _) hfree hfits
    have hlt : t.used ≠ sequences := by
      rw [hused, sequences]
      omega
    obtain ⟨id', start, -, hs', -, -, -, hnew, -⟩ := h.chooseId (Nat.zero_le _) a
      (fun hne => absurd rfl hne) hlt
    obtain ⟨-, -, -, -, hsize'⟩ := hput a id' _ rfl hs'
    have hused' : t'.used = n + 1 := by
      rw [h'.used, addTo, Option.bind_some, hs', Option.map_some, Option.getD_some,
        Dict.card_insert hnew, ← h.used, hused]
    refine ⟨t', _, rows', hreached.add (Nat.zero_le _) hfree trivial hadd, h', htimed', hused', ?_,
      ?_⟩
    · rw [hsize']
      split_ifs with hgrow
      · exact Or.inr (by omega)
      · exact hsize.imp_right fun hlt => by omega
    · rw [hsize']
      split_ifs with hgrow
      · omega
      · simp only [true_and, not_le] at hgrow
        omega

/-- After 2^30 + 1 adds the table has 2^30 chains, and the next add writes where nothing is. -/
theorem stateTable_overflow :
    ¬∀ t s, Reached (fun _ _ _ _ => True) t s → Exact (fun _ _ _ _ => True) t s := by
  intro hexact
  obtain ⟨t, s, rows, hreached, h, -, hused, hsize, hroom⟩ := exists_filled (le_refl (2 ^ 30 + 1))
  obtain ⟨a, ha⟩ := Infinite.exists_notMem_finset t.table.cells.keys
  have hfree : ∀ b, some a = some b → t.table.cells.find b = none := by
    rintro b ⟨⟩
    rwa [Dict.mem_keys_iff, not_not] at ha
  have hlarge : ¬t.tableSize < 2 ^ 30 := by
    obtain ⟨k, hk, hpower⟩ := h.power
    have hk12 : k = 12 := by
      by_contra hne
      have hpow : (4 : ℕ) ^ k ≤ 4 ^ 11 := Nat.pow_le_pow_right (by norm_num) (by omega)
      norm_num at hpow
      omega
    rw [hpower, hk12]
    norm_num
  have hfits : ¬t.Fits 0 (some a) true := by
    rintro (hsmall | hcalloc | hnone | hfull | ⟨hzero, -⟩)
    · exact hlarge hsmall
    · cases hcalloc
    · cases hnone
    · rw [hused, sequences] at hfull
      omega
    · exact hzero rfl
  obtain ⟨t', hadd, -⟩ := (hexact t s hreached).add 0 (some a) true (Nat.zero_le _) hfree trivial
  rw [h.add_largest (Nat.zero_le _) hfits] at hadd
  cases hadd

end Runs

end StateTable

end ViabtcExchange
