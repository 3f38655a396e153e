import ViabtcExchange.Lib.Dict
import ViabtcExchange.Lib.Pointers

/-!
# Chained hash tables in memory

The entries stand at addresses, each with a pointer to the next one of its chain, and the table has
the head of each chain. `Filed` says which chains a table has, and that each entry is in the chain
of its slot.

The steps of which hash tables are made up: to search a chain (`Filed.search`), to put an entry at
the head of one (`Filed.push`), to take one out behind the entry that the search came past
(`Filed.unlink`), and to move all entries to a table of another size (`Filed.refile`). The entries
of a table are those in its memory (`Complete`), so that what a table maps to what can be read off
the memory alone (`Represents`).
-/

namespace ViabtcExchange

structure Cell (E : Type) where
  entry : E
  next : Option ℕ

/-- A table, with the memory that the entries are in. -/
structure ChainTable (E : Type) where
  cells : Dict ℕ (Cell E)
  heads : List (Option ℕ)

namespace ChainTable

variable {E : Type}

/-! ## Steps -/

section Steps

/-- The pointer of a cell. -/
def nextAt (cells : Dict ℕ (Cell E)) (a : ℕ) : Option (Option ℕ) := (cells.find a).map Cell.next

def entryAt (cells : Dict ℕ (Cell E)) (a : ℕ) : Option E := (cells.find a).map Cell.entry

/-- A table without entries. -/
def empty (size : ℕ) : ChainTable E := ⟨∅, List.replicate size none⟩

/-- Go along a chain to the first entry that `p` picks: the cell before it, and its own. -/
def search (cells : Dict ℕ (Cell E)) (p : E → Bool) :
    ℕ → Option ℕ → Option ℕ → Option (Option (Option ℕ × ℕ))
  | 0, _, _ => none
  | _ + 1, _, none => some none
  | rounds + 1, prev, some a =>
    (cells.find a).bind fun cell =>
      if p cell.entry then some (some (prev, a)) else search cells p rounds (some a) cell.next

variable (t : ChainTable E)

/-- No chain has more entries. -/
def rounds : ℕ := t.cells.keys.card + 1

/-- Search the chain with an index. -/
def lookup (p : E → Bool) (index : ℕ) : Option (Option (Option ℕ × ℕ)) :=
  t.heads[index]?.bind fun head => search t.cells p t.rounds none head

/-- Put an entry at the head of a chain. -/
def push (index a : ℕ) (e : E) : Option (ChainTable E) :=
  t.heads[index]?.map fun head => ⟨t.cells.insert a ⟨e, head⟩, t.heads.set index (some a)⟩

/-- Take an entry out of its chain, where it comes after `prev`, and free it. -/
def unlink (index : ℕ) (prev : Option ℕ) (a : ℕ) : Option (ChainTable E) :=
  (t.cells.find a).bind fun cell =>
    match prev with
    | some p => (t.cells.find p).map fun before =>
        ⟨(t.cells.insert p { before with next := cell.next }).erase a, t.heads⟩
    | none =>
      if index < t.heads.length then some ⟨t.cells.erase a, t.heads.set index cell.next⟩ else none

/-- Write another entry to a cell. -/
def write (a : ℕ) (e : E) : Option (ChainTable E) :=
  (t.cells.find a).map fun cell => { t with cells := t.cells.insert a { cell with entry := e } }

/-- Move the entries of a chain to the table, which has the new heads; `moved` counts them. -/
def moveChain (slot : E → ℕ) : ℕ → Option ℕ → ChainTable E → ℕ → Option (ChainTable E × ℕ)
  | 0, _, _, _ => none
  | _ + 1, none, t, moved => some (t, moved)
  | rounds + 1, some a, t, moved =>
    (t.cells.find a).bind fun cell =>
      (t.push (slot cell.entry) a cell.entry).bind fun t =>
        moveChain slot rounds cell.next t (moved + 1)

/-- Move one chain after another, as long as `go` says so of the number of entries moved. -/
def moveChains (slot : E → ℕ) (go : ℕ → Bool) (rounds : ℕ) :
    List (Option ℕ) → ChainTable E → ℕ → Option (ChainTable E)
  | [], t, _ => some t
  | head :: heads, t, moved =>
    if go moved then
      (moveChain slot rounds head t moved).bind fun r => moveChains slot go rounds heads r.1 r.2
    else some t

/-- All entries in a table of another size, where `slot` says. -/
def refile (slot : E → ℕ) (go : ℕ → Bool) (size : ℕ) : Option (ChainTable E) :=
  moveChains slot go t.rounds t.heads ⟨t.cells, List.replicate size none⟩ 0

end Steps

/-! ## Chains -/

/-- The chains of a table. -/
structure Filed (slot : E → ℕ) (t : ChainTable E) (rows : ℕ → List ℕ) : Prop where
  nodup : ∀ i, (rows i).Nodup
  heads : ∀ i < t.heads.length, t.heads[i]? = some (rows i).head?
  cells : ∀ i, ∀ a ∈ rows i, ∃ e, t.cells.find a = some ⟨e, nextIn (rows i) a⟩ ∧ slot e = i
  bound : ∀ i, t.heads.length ≤ i → rows i = []

/-- All cells are in chains. -/
def Complete (t : ChainTable E) (rows : ℕ → List ℕ) : Prop :=
  ∀ a, t.cells.find a ≠ none → ∃ i, a ∈ rows i

section Chains

variable {slot : E → ℕ} {t : ChainTable E} {rows : ℕ → List ℕ} {i j a b : ℕ} {e : E}

theorem filed_empty (slot : E → ℕ) (size : ℕ) : Filed slot (empty size) fun _ => [] where
  nodup _ := List.nodup_nil
  heads i hi := by
    rw [empty, List.length_replicate] at hi
    rw [empty, List.getElem?_replicate, if_pos hi]
    rfl
  cells _ _ ha := (nomatch ha)
  bound _ _ := rfl

theorem complete_empty (size : ℕ) : Complete (empty size : ChainTable E) fun _ => [] := by
  intro a ha
  exact absurd (Dict.find_empty a) ha

theorem Filed.slot_eq (h : Filed slot t rows) (ha : a ∈ rows i) (he : entryAt t.cells a = some e) :
    slot e = i := by
  obtain ⟨e', hcell, hslot⟩ := h.cells i a ha
  rw [entryAt, hcell, Option.map_some] at he
  rwa [← Option.some.inj he]

/-- An entry is in one chain. -/
theorem Filed.row_inj (h : Filed slot t rows) (hi : a ∈ rows i) (hj : a ∈ rows j) : i = j := by
  obtain ⟨e, hcell, rfl⟩ := h.cells i a hi
  refine h.slot_eq hj ?_
  rw [entryAt, hcell, Option.map_some]

theorem Filed.lt_length (h : Filed slot t rows) (ha : a ∈ rows i) : i < t.heads.length := by
  by_contra hi
  rw [h.bound i (not_lt.mp hi)] at ha
  exact List.not_mem_nil ha

theorem Filed.linked (h : Filed slot t rows) (i : ℕ) : Linked (nextAt t.cells) (rows i) := by
  intro a ha
  obtain ⟨e, hcell, -⟩ := h.cells i a ha
  rw [nextAt, hcell, Option.map_some]

theorem Filed.find_ne_none (h : Filed slot t rows) (ha : a ∈ rows i) : t.cells.find a ≠ none := by
  obtain ⟨e, hcell, -⟩ := h.cells i a ha
  rw [hcell]
  exact Option.some_ne_none _

theorem Filed.mem_row (h : Filed slot t rows) (hcomplete : Complete t rows)
    (he : entryAt t.cells a = some e) : a ∈ rows (slot e) := by
  have hsome : t.cells.find a ≠ none := by
    rintro hnone
    rw [entryAt, hnone] at he
    cases he
  obtain ⟨i, hi⟩ := hcomplete a hsome
  rwa [h.slot_eq hi he]

theorem Filed.length_lt_rounds (h : Filed slot t rows) (i : ℕ) : (rows i).length < t.rounds := by
  have hsub : (rows i).toFinset ⊆ t.cells.keys := by
    intro a ha
    rw [List.mem_toFinset] at ha
    rw [Finmap.mem_keys]
    by_contra hnone
    exact h.find_ne_none ha (Dict.find_eq_none.mpr hnone)
  have hcard := Finset.card_le_card hsub
  rw [List.toFinset_card_of_nodup (h.nodup i)] at hcard
  exact Nat.lt_succ_of_le hcard

/-! ## Searching -/

/-- A search ends at the first entry that is picked, or at the end of the chain. -/
theorem Filed.search (h : Filed slot t rows) (p : E → Bool) {front rest : List ℕ}
    (hrow : rows i = front ++ rest) {rounds : ℕ} (hrounds : rest.length < rounds) :
    (ChainTable.search t.cells p rounds front.getLast? rest.head? = some none ∧
      ∀ a ∈ rest, ∀ e, entryAt t.cells a = some e → p e = false) ∨
    ∃ mid a after e, rest = mid ++ a :: after ∧ entryAt t.cells a = some e ∧ p e = true ∧
      ChainTable.search t.cells p rounds front.getLast? rest.head? =
        some (some ((front ++ mid).getLast?, a)) := by
  induction rest generalizing front rounds with
  | nil =>
    obtain ⟨rounds, rfl⟩ := Nat.exists_eq_succ_of_ne_zero (by omega : rounds ≠ 0)
    exact Or.inl ⟨rfl, fun a ha => (nomatch ha)⟩
  | cons a rest ih =>
    obtain ⟨rounds, rfl⟩ := Nat.exists_eq_succ_of_ne_zero (by omega : rounds ≠ 0)
    have hmem : a ∈ rows i := by
      rw [hrow]
      exact List.mem_append_right _ List.mem_cons_self
    have hnodup := h.nodup i
    rw [hrow] at hnodup
    obtain ⟨e, hcell, -⟩ := h.cells i a hmem
    rw [hrow, nextIn_middle (notMem_front hnodup)] at hcell
    have hentry : entryAt t.cells a = some e := by rw [entryAt, hcell, Option.map_some]
    rw [List.head?_cons, ChainTable.search, hcell, Option.bind_some]
    cases hp : p e with
    | true =>
      refine Or.inr ⟨[], a, rest, e, rfl, hentry, hp, ?_⟩
      rw [if_pos rfl, List.append_nil]
    | false =>
      have hmove : rows i = (front ++ [a]) ++ rest := by rw [hrow]; simp
      have htail := ih hmove (Nat.lt_of_succ_lt_succ hrounds)
      rw [List.getLast?_concat] at htail
      rw [if_neg Bool.false_ne_true]
      rcases htail with ⟨hsearch, hnone⟩ | ⟨mid, b, after, e', rfl, hb, hpb, hsearch⟩
      · refine Or.inl ⟨hsearch, List.forall_mem_cons.mpr ⟨fun e' he' => ?_, hnone⟩⟩
        rw [hentry] at he'
        rwa [← Option.some.inj he']
      · refine Or.inr ⟨a :: mid, b, after, e', rfl, hb, hpb, ?_⟩
        rw [hsearch, List.append_assoc, List.singleton_append]

theorem Filed.lookup (h : Filed slot t rows) (p : E → Bool) (hi : i < t.heads.length) :
    (t.lookup p i = some none ∧ ∀ a ∈ rows i, ∀ e, entryAt t.cells a = some e → p e = false) ∨
    ∃ before a after e, rows i = before ++ a :: after ∧ entryAt t.cells a = some e ∧ p e = true ∧
      t.lookup p i = some (some (before.getLast?, a)) := by
  rw [ChainTable.lookup, h.heads i hi, Option.bind_some]
  exact h.search p (List.nil_append _).symm (h.length_lt_rounds i)

/-! ## Writing -/

/-- A new entry at the head of its chain. -/
theorem Filed.push (h : Filed slot t rows) (ha : ∀ j, a ∉ rows j) (e : E)
    (hi : slot e < t.heads.length) :
    ∃ t', t.push (slot e) a e = some t' ∧ t'.heads.length = t.heads.length ∧
      Filed slot t' (Function.update rows (slot e) (a :: rows (slot e))) ∧
      ∀ b, t'.cells.find b =
        if b = a then some ⟨e, (rows (slot e)).head?⟩ else t.cells.find b := by
  refine ⟨⟨t.cells.insert a ⟨e, (rows (slot e)).head?⟩, t.heads.set (slot e) (some a)⟩, ?_,
    List.length_set, ?_, fun b => Dict.find_insert ..⟩
  · rw [ChainTable.push, h.heads _ hi, Option.map_some]
  constructor
  case nodup =>
    intro j
    by_cases hj : j = slot e
    · rw [hj, Function.update_self]
      exact List.nodup_cons.mpr ⟨ha _, h.nodup _⟩
    · rw [Function.update_of_ne hj]
      exact h.nodup j
  case heads =>
    intro j hj
    rw [List.length_set] at hj
    by_cases hje : j = slot e
    · rw [hje, Function.update_self, List.getElem?_set_self hi]
      rfl
    · rw [Function.update_of_ne hje, List.getElem?_set_ne (Ne.symm hje), h.heads j hj]
  case cells =>
    intro j b hb
    show ∃ e', Dict.find (t.cells.insert a _) b = _ ∧ _
    rw [Dict.find_insert]
    by_cases hj : j = slot e
    · subst hj
      rw [Function.update_self] at hb ⊢
      rcases List.mem_cons.mp hb with rfl | hb
      · exact ⟨e, by rw [if_pos rfl, nextIn_cons_self], rfl⟩
      · have hba : b ≠ a := fun heq => ha _ (heq ▸ hb)
        rw [if_neg hba, nextIn_cons_ne hba.symm]
        exact h.cells _ b hb
    · rw [Function.update_of_ne hj] at hb ⊢
      have hba : b ≠ a := fun heq => ha j (heq ▸ hb)
      rw [if_neg hba]
      exact h.cells j b hb
  case bound =>
    intro j hj
    rw [List.length_set] at hj
    rw [Function.update_of_ne (by omega)]
    exact h.bound j hj

/-- What `unlink` writes: the pointer to the entry becomes the pointer of the entry. -/
theorem Filed.unlink_writes (h : Filed slot t rows) {before after : List ℕ}
    (hrow : rows i = before ++ a :: after) :
    ∃ t', t.unlink i before.getLast? a = some t' ∧
      t'.heads = t.heads.set i (before ++ after).head? ∧
      ∀ b, t'.cells.find b = if b = a then none else (t.cells.find b).map fun cell =>
        { cell with next := if before.getLast? = some b then after.head? else cell.next } := by
  have hnodup := h.nodup i
  have hmem : a ∈ rows i := by
    rw [hrow]
    exact List.mem_append_right _ List.mem_cons_self
  have hi := h.lt_length hmem
  rw [hrow] at hnodup
  have hbefore := notMem_front hnodup
  obtain ⟨e, hcell, -⟩ := h.cells i a hmem
  rw [hrow, nextIn_middle hbefore] at hcell
  obtain rfl | ⟨before, c, rfl⟩ := List.eq_nil_or_concat' before
  · refine ⟨⟨t.cells.erase a, t.heads.set i after.head?⟩, ?_, rfl, fun b => ?_⟩
    · rw [ChainTable.unlink, hcell, Option.bind_some]
      exact if_pos hi
    · show Dict.find (t.cells.erase a) b = _
      rw [Dict.find_erase]
      cases t.cells.find b <;> rfl
  · have hc : c ∈ rows i := by rw [hrow]; simp
    have hca : c ≠ a := fun heq => hbefore (by rw [← heq]; simp)
    obtain ⟨cell, hcellc⟩ := Option.ne_none_iff_exists'.mp (h.find_ne_none hc)
    rw [List.getLast?_concat]
    refine ⟨⟨(t.cells.insert c { cell with next := after.head? }).erase a, t.heads⟩, ?_, ?_,
      fun b => ?_⟩
    · rw [ChainTable.unlink, hcell, Option.bind_some]
      simp only
      rw [hcellc, Option.map_some]
    · have hsame : (before ++ [c] ++ after).head? = (rows i).head? := by
        rw [hrow]
        cases before <;> rfl
      obtain ⟨hi', hget⟩ := List.getElem?_eq_some_iff.mp (h.heads i hi)
      rw [hsame, ← hget, List.set_getElem_self]
    · show Dict.find (Finmap.erase a _) b = _
      rw [Dict.find_erase, Dict.find_insert]
      by_cases hba : b = a
      · rw [if_pos hba, if_pos hba]
      · rw [if_neg hba, if_neg hba]
        by_cases hbc : b = c
        · rw [if_pos hbc, hbc, hcellc, Option.map_some, if_pos rfl]
        · rw [if_neg hbc]
          have hcb : ¬some c = some b := fun heq => hbc (Option.some.inj heq).symm
          simp only [if_neg hcb]
          cases t.cells.find b <;> rfl

/-- An entry is taken out behind the one before it. -/
theorem Filed.unlink (h : Filed slot t rows) {before after : List ℕ}
    (hrow : rows i = before ++ a :: after) :
    ∃ t', t.unlink i before.getLast? a = some t' ∧ t'.heads.length = t.heads.length ∧
      Filed slot t' (Function.update rows i (before ++ after)) ∧
      ∀ b, entryAt t'.cells b = if b = a then none else entryAt t.cells b := by
  have hnodup := h.nodup i
  have hmem : a ∈ rows i := by
    rw [hrow]
    exact List.mem_append_right _ List.mem_cons_self
  have hmiddle := hnodup
  rw [hrow] at hmiddle
  have herase : before ++ after = (rows i).erase a := by rw [hrow, erase_middle hmiddle]
  have hnext : nextIn (rows i) a = after.head? := by
    rw [hrow, nextIn_middle (notMem_front hmiddle)]
  obtain ⟨t', ht', hheads, hfind⟩ := h.unlink_writes hrow
  refine ⟨t', ht', by rw [hheads, List.length_set], ⟨?_, ?_, ?_, ?_⟩, fun b => ?_⟩
  · intro j
    by_cases hj : j = i
    · rw [hj, Function.update_self, herase]
      exact hnodup.erase a
    · rw [Function.update_of_ne hj]
      exact h.nodup j
  · intro j hj
    rw [hheads, List.length_set] at hj
    rw [hheads]
    by_cases hji : j = i
    · rw [hji, Function.update_self, List.getElem?_set_self (h.lt_length hmem)]
    · rw [Function.update_of_ne hji, List.getElem?_set_ne (Ne.symm hji), h.heads j hj]
  · intro j b hb
    rw [hfind]
    by_cases hj : j = i
    · subst hj
      rw [Function.update_self] at hb ⊢
      rw [herase] at hb ⊢
      have hba : b ≠ a := fun heq => hnodup.not_mem_erase (heq ▸ hb)
      obtain ⟨e', hcell', hslot'⟩ := h.cells j b (List.mem_of_mem_erase hb)
      refine ⟨e', ?_, hslot'⟩
      rw [if_neg hba, hcell', Option.map_some, nextIn_erase hnodup hba, hnext]
      have hlast : nextIn (rows j) b = some a ↔ before.getLast? = some b := by
        rw [hrow]
        exact nextIn_eq_some_iff hmiddle
      by_cases hb' : before.getLast? = some b
      · rw [if_pos hb', if_pos (hlast.mpr hb')]
      · rw [if_neg hb', if_neg fun heq => hb' (hlast.mp heq)]
    · rw [Function.update_of_ne hj] at hb ⊢
      have hba : b ≠ a := fun heq => hj (h.row_inj (heq ▸ hb) hmem)
      obtain ⟨e', hcell', hslot'⟩ := h.cells j b hb
      refine ⟨e', ?_, hslot'⟩
      have hlast : before.getLast? ≠ some b := by
        intro heq
        refine hj (h.row_inj hb ?_)
        rw [hrow]
        exact List.mem_append_left _ (List.mem_of_getLast? heq)
      rw [if_neg hba, hcell', Option.map_some, if_neg hlast]
  · intro j hj
    rw [hheads, List.length_set] at hj
    have hi := h.lt_length hmem
    rw [Function.update_of_ne (by omega)]
    exact h.bound j hj
  · rw [entryAt, entryAt, hfind]
    by_cases hba : b = a
    · rw [if_pos hba, if_pos hba]
      rfl
    · rw [if_neg hba, if_neg hba, Option.map_map]
      rfl

theorem entryAt_ne_none : entryAt t.cells a ≠ none ↔ t.cells.find a ≠ none := by
  rw [entryAt, Ne, Option.map_eq_none_iff]

theorem mem_keys : a ∈ t.cells.keys ↔ entryAt t.cells a ≠ none := by
  rw [entryAt_ne_none, Finmap.mem_keys, Ne, Dict.find_eq_none, not_not]

/-- The members of all chains, after one more has come to the head of one. -/
theorem exists_mem_push {b : ℕ} : (∃ j, b ∈ Function.update rows i (a :: rows i) j) ↔
    b = a ∨ ∃ j, b ∈ rows j := by
  constructor
  · rintro ⟨j, hj⟩
    by_cases hji : j = i
    · subst hji
      rw [Function.update_self, List.mem_cons] at hj
      exact hj.imp_right fun hj => ⟨_, hj⟩
    · rw [Function.update_of_ne hji] at hj
      exact Or.inr ⟨j, hj⟩
  · rintro (rfl | ⟨j, hj⟩)
    · exact ⟨i, by rw [Function.update_self]; exact List.mem_cons_self⟩
    · by_cases hji : j = i
      · subst hji
        exact ⟨_, by rw [Function.update_self]; exact List.mem_cons_of_mem _ hj⟩
      · exact ⟨j, by rwa [Function.update_of_ne hji]⟩

/-- The others stay in the chains when one is taken out. -/
theorem exists_mem_erase {b : ℕ} (hne : b ≠ a) (h : ∃ j, b ∈ rows j) :
    ∃ j, b ∈ Function.update rows i ((rows i).erase a) j := by
  obtain ⟨j, hj⟩ := h
  refine ⟨j, ?_⟩
  by_cases hji : j = i
  · subst hji
    rw [Function.update_self]
    exact (List.mem_erase_of_ne hne).mpr hj
  · rwa [Function.update_of_ne hji]

/-- A new entry is one entry more. -/
theorem Filed.add (h : Filed slot t rows) (hcomplete : Complete t rows)
    (ha : t.cells.find a = none) (e : E) (hi : slot e < t.heads.length) :
    ∃ t' rows', t.push (slot e) a e = some t' ∧ t'.heads.length = t.heads.length ∧
      Filed slot t' rows' ∧ Complete t' rows' ∧
      (∀ b, entryAt t'.cells b = if b = a then some e else entryAt t.cells b) ∧
      t'.cells.keys.card = t.cells.keys.card + 1 := by
  obtain ⟨t', hpush, hlength, hfiled, hfind⟩ := h.push (fun j hj => h.find_ne_none hj ha) e hi
  have hentries : ∀ b, entryAt t'.cells b = if b = a then some e else entryAt t.cells b := by
    intro b
    rw [entryAt, entryAt, hfind]
    split_ifs <;> rfl
  refine ⟨t', _, hpush, hlength, hfiled, fun b hb => ?_, hentries, ?_⟩
  · refine exists_mem_push.mpr ?_
    by_cases hba : b = a
    · exact Or.inl hba
    · rw [hfind, if_neg hba] at hb
      exact Or.inr (hcomplete b hb)
  · have hkeys : t'.cells.keys = insert a t.cells.keys := by
      ext b
      rw [Finset.mem_insert, mem_keys, mem_keys, hentries]
      by_cases hba : b = a <;> simp [hba]
    have hnew : a ∉ t.cells.keys := fun hmem => entryAt_ne_none.mp (mem_keys.mp hmem) ha
    rw [hkeys, Finset.card_insert_of_notMem hnew]

/-- The first entry that is picked is taken out, if there is one. -/
theorem Filed.remove (h : Filed slot t rows) (hcomplete : Complete t rows) (p : E → Bool)
    (hi : i < t.heads.length) :
    (t.lookup p i = some none ∧ ∀ a ∈ rows i, ∀ e, entryAt t.cells a = some e → p e = false) ∨
    ∃ prev a e t', t.lookup p i = some (some (prev, a)) ∧ a ∈ rows i ∧
      entryAt t.cells a = some e ∧ p e = true ∧ t.unlink i prev a = some t' ∧
      t'.heads.length = t.heads.length ∧
      Filed slot t' (Function.update rows i ((rows i).erase a)) ∧
      Complete t' (Function.update rows i ((rows i).erase a)) ∧
      (∀ b, entryAt t'.cells b = if b = a then none else entryAt t.cells b) ∧
      t'.cells.keys.card + 1 = t.cells.keys.card := by
  rcases h.lookup p hi with hnone | ⟨before, a, after, e, hrow, he, hp, hlookup⟩
  · exact Or.inl hnone
  have hmem : a ∈ rows i := by rw [hrow]; simp
  have herase : before ++ after = (rows i).erase a := by
    have hnodup := h.nodup i
    rw [hrow] at hnodup
    rw [hrow, erase_middle hnodup]
  obtain ⟨t', hunlink, hlength, hfiled, hentries⟩ := h.unlink hrow
  rw [herase] at hfiled
  refine Or.inr ⟨_, a, e, t', hlookup, hmem, he, hp, hunlink, hlength, hfiled, fun b hb => ?_,
    hentries, ?_⟩
  · rw [← entryAt_ne_none, hentries] at hb
    have hba : b ≠ a := fun heq => hb (if_pos heq)
    rw [if_neg hba, entryAt_ne_none] at hb
    exact exists_mem_erase hba (hcomplete b hb)
  · have hkeys : t'.cells.keys = t.cells.keys.erase a := by
      ext b
      rw [Finset.mem_erase, mem_keys, mem_keys, hentries]
      by_cases hba : b = a <;> simp [hba]
    have hold : a ∈ t.cells.keys := mem_keys.mpr (by rw [he]; exact Option.some_ne_none e)
    rw [hkeys, Finset.card_erase_add_one hold]

theorem card_keys_of_entries {t' : ChainTable E}
    (h : ∀ b, entryAt t'.cells b ≠ none ↔ entryAt t.cells b ≠ none) :
    t'.cells.keys.card = t.cells.keys.card := by
  congr 1
  ext b
  rw [mem_keys, mem_keys, h]

/-- Another entry under the same slot. -/
theorem Filed.write (h : Filed slot t rows) (ha : a ∈ rows i) (he : slot e = i) :
    ∃ t', t.write a e = some t' ∧ t'.heads = t.heads ∧ Filed slot t' rows ∧
      ∀ b, entryAt t'.cells b = if b = a then some e else entryAt t.cells b := by
  obtain ⟨old, hcell, -⟩ := h.cells i a ha
  refine ⟨{ t with cells := t.cells.insert a ⟨e, nextIn (rows i) a⟩ },
    by rw [ChainTable.write, hcell, Option.map_some], rfl,
    ⟨h.nodup, h.heads, fun j b hb => ?_, h.bound⟩, fun b => ?_⟩
  · show ∃ e', Dict.find (t.cells.insert a _) b = _ ∧ _
    rw [Dict.find_insert]
    by_cases hba : b = a
    · subst hba
      obtain rfl := h.row_inj ha hb
      exact ⟨e, if_pos rfl, he⟩
    · rw [if_neg hba]
      exact h.cells j b hb
  · show entryAt (t.cells.insert a _) b = _
    rw [entryAt, entryAt, Dict.find_insert]
    by_cases hba : b = a
    · rw [if_pos hba, if_pos hba]
      rfl
    · rw [if_neg hba, if_neg hba]

/-! ## Moving all entries -/

/-- The entries of a chain, which stands apart from the table, come to the heads of their chains. -/
theorem Filed.moveChain (h : Filed slot t rows) {l : List ℕ} (hnodup : l.Nodup)
    (hlinked : Linked (nextAt t.cells) l) (hnew : ∀ b ∈ l, ∀ j, b ∉ rows j)
    (hslot : ∀ b ∈ l, ∀ e, entryAt t.cells b = some e → slot e < t.heads.length) {rounds : ℕ}
    (hrounds : l.length < rounds) (moved : ℕ) :
    ∃ t' rows', ChainTable.moveChain slot rounds l.head? t moved = some (t', moved + l.length) ∧
      t'.heads.length = t.heads.length ∧ Filed slot t' rows' ∧
      (∀ b, (∃ j, b ∈ rows' j) ↔ b ∈ l ∨ ∃ j, b ∈ rows j) ∧
      (∀ b, entryAt t'.cells b = entryAt t.cells b) ∧
      ∀ b ∉ l, t'.cells.find b = t.cells.find b := by
  induction l generalizing t rows rounds moved with
  | nil =>
    obtain ⟨rounds, rfl⟩ := Nat.exists_eq_succ_of_ne_zero (by omega : rounds ≠ 0)
    exact ⟨t, rows, rfl, rfl, h, fun b => by simp, fun _ => rfl, fun _ _ => rfl⟩
  | cons a l ih =>
    obtain ⟨rounds, rfl⟩ := Nat.exists_eq_succ_of_ne_zero (by omega : rounds ≠ 0)
    rw [List.nodup_cons] at hnodup
    obtain ⟨⟨e, next⟩, hcell, hnext⟩ := Option.map_eq_some_iff.mp (hlinked a List.mem_cons_self)
    rw [nextIn_cons_self] at hnext
    obtain rfl : next = l.head? := hnext
    have hentry : entryAt t.cells a = some e := by rw [entryAt, hcell, Option.map_some]
    obtain ⟨t₁, hpush, hlength₁, hfiled₁, hfind₁⟩ := h.push (hnew a List.mem_cons_self) e
      (hslot a List.mem_cons_self e hentry)
    have hentries₁ : ∀ b, entryAt t₁.cells b = entryAt t.cells b := by
      intro b
      rw [entryAt, hfind₁]
      by_cases hba : b = a
      · rw [if_pos hba, hba, hentry]
        rfl
      · rw [if_neg hba]
        rfl
    have hother : ∀ b ∈ l, b ≠ a := fun b hb heq => hnodup.1 (heq ▸ hb)
    obtain ⟨t', rows', hmove, hlength, hfiled, hrows, hentries, hfind⟩ := ih hfiled₁ hnodup.2
      (by
        intro b hb
        have hlink := hlinked b (List.mem_cons_of_mem _ hb)
        rw [nextIn_cons_ne (hother b hb).symm] at hlink
        rw [nextAt, hfind₁, if_neg (hother b hb)]
        exact hlink)
      (by
        intro b hb j hj
        rcases exists_mem_push.mp ⟨j, hj⟩ with heq | ⟨j', hj'⟩
        · exact hother b hb heq
        · exact hnew b (List.mem_cons_of_mem _ hb) j' hj')
      (by
        intro b hb e' he'
        rw [hentries₁] at he'
        rw [hlength₁]
        exact hslot b (List.mem_cons_of_mem _ hb) e' he')
      (Nat.lt_of_succ_lt_succ hrounds) (moved + 1)
    refine ⟨t', rows', ?_, hlength.trans hlength₁, hfiled, fun b => ?_,
      fun b => (hentries b).trans (hentries₁ b), fun b hb => ?_⟩
    · rw [List.head?_cons, ChainTable.moveChain, hcell, Option.bind_some, hpush, Option.bind_some,
        hmove, List.length_cons, Nat.add_assoc, Nat.add_comm 1]
    · rw [hrows, exists_mem_push, List.mem_cons]
      tauto
    · rw [List.mem_cons, not_or] at hb
      rw [hfind b hb.2, hfind₁, if_neg hb.1]

/-- Chain by chain, until all entries have been moved. -/
theorem Filed.moveChains (h : Filed slot t rows) (go : ℕ → Bool) {chains : List (List ℕ)}
    (hnodup : chains.flatten.Nodup) (hlinked : ∀ l ∈ chains, Linked (nextAt t.cells) l)
    (hnew : ∀ b ∈ chains.flatten, ∀ j, b ∉ rows j)
    (hslot : ∀ b ∈ chains.flatten, ∀ e, entryAt t.cells b = some e → slot e < t.heads.length)
    {rounds : ℕ} (hrounds : ∀ l ∈ chains, l.length < rounds) (moved : ℕ)
    (hgo : ∀ n, go n = false → moved + chains.flatten.length ≤ n) :
    ∃ t' rows', ChainTable.moveChains slot go rounds (chains.map List.head?) t moved = some t' ∧
      t'.heads.length = t.heads.length ∧ Filed slot t' rows' ∧
      (∀ b, (∃ j, b ∈ rows' j) ↔ b ∈ chains.flatten ∨ ∃ j, b ∈ rows j) ∧
      ∀ b, entryAt t'.cells b = entryAt t.cells b := by
  induction chains generalizing t rows moved with
  | nil => exact ⟨t, rows, rfl, rfl, h, fun b => by simp, fun _ => rfl⟩
  | cons l chains ih =>
    rw [List.flatten_cons] at hnodup hnew hslot hgo
    rw [List.map_cons, ChainTable.moveChains]
    cases hmoved : go moved with
    | false =>
      have hempty : l ++ chains.flatten = [] := by
        rw [← List.length_eq_zero_iff]
        have hle := hgo moved hmoved
        omega
      refine ⟨t, rows, by rw [if_neg Bool.false_ne_true], rfl, h, fun b => ?_, fun _ => rfl⟩
      rw [List.flatten_cons, hempty]
      simp
    | true =>
      obtain ⟨hl, hchains, hdisjoint⟩ := List.nodup_append'.mp hnodup
      obtain ⟨t₁, rows₁, hmove, hlength₁, hfiled₁, hrows₁, hentries₁, hfind₁⟩ := h.moveChain hl
        (hlinked l List.mem_cons_self) (fun b hb => hnew b (List.mem_append_left _ hb))
        (fun b hb => hslot b (List.mem_append_left _ hb)) (hrounds l List.mem_cons_self) moved
      obtain ⟨t', rows', hmoves, hlength, hfiled, hrows, hentries⟩ := ih hfiled₁ hchains
        (by
          intro l' hl' b hb
          have hbl : b ∉ l := fun hbl => hdisjoint hbl (List.mem_flatten.mpr ⟨l', hl', hb⟩)
          rw [nextAt, hfind₁ b hbl]
          exact hlinked l' (List.mem_cons_of_mem _ hl') b hb)
        (by
          intro b hb j hj
          rcases (hrows₁ b).mp ⟨j, hj⟩ with hbl | ⟨j', hj'⟩
          · exact hdisjoint hbl hb
          · exact hnew b (List.mem_append_right _ hb) j' hj')
        (by
          intro b hb e he
          rw [hentries₁] at he
          rw [hlength₁]
          exact hslot b (List.mem_append_right _ hb) e he)
        (fun l' hl' => hrounds l' (List.mem_cons_of_mem _ hl')) (moved + l.length)
        (by
          intro n hn
          have hle := hgo n hn
          rw [List.length_append] at hle
          omega)
      refine ⟨t', rows', ?_, hlength.trans hlength₁, hfiled, fun b => ?_,
        fun b => (hentries b).trans (hentries₁ b)⟩
      · rw [if_pos rfl, hmove, Option.bind_some, hmoves]
      · rw [hrows, hrows₁, List.flatten_cons, List.mem_append]
        tauto

theorem Filed.nodup_flatten (h : Filed slot t rows) (n : ℕ) :
    ((List.range n).map rows).flatten.Nodup := by
  rw [List.nodup_flatten]
  refine ⟨fun l hl => ?_, ?_⟩
  · obtain ⟨i, -, rfl⟩ := List.mem_map.mp hl
    exact h.nodup i
  · rw [List.pairwise_map]
    refine List.Pairwise.imp (fun hij => ?_) List.nodup_range
    exact fun b hi hj => hij (h.row_inj hi hj)

/-- The entries of the chains are those in memory. -/
theorem Filed.mem_flatten (h : Filed slot t rows) (hcomplete : Complete t rows) {b : ℕ} :
    b ∈ ((List.range t.heads.length).map rows).flatten ↔ t.cells.find b ≠ none := by
  rw [List.mem_flatten]
  constructor
  · rintro ⟨l, hl, hb⟩
    obtain ⟨i, -, rfl⟩ := List.mem_map.mp hl
    exact h.find_ne_none hb
  · intro hb
    obtain ⟨i, hi⟩ := hcomplete b hb
    exact ⟨_, List.mem_map_of_mem (List.mem_range.mpr (h.lt_length hi)), hi⟩

theorem Filed.length_flatten (h : Filed slot t rows) (hcomplete : Complete t rows) :
    ((List.range t.heads.length).map rows).flatten.length = t.cells.keys.card := by
  rw [← List.toFinset_card_of_nodup (h.nodup_flatten _)]
  congr 1
  ext b
  rw [List.mem_toFinset, h.mem_flatten hcomplete, Finmap.mem_keys, Ne, Dict.find_eq_none, not_not]

/-- **All entries in a table of another size.** -/
theorem Filed.refile (h : Filed slot t rows) (hcomplete : Complete t rows) (slot' : E → ℕ)
    (go : ℕ → Bool) (size : ℕ) (hslot : ∀ a e, entryAt t.cells a = some e → slot' e < size)
    (hgo : ∀ n, go n = false → t.cells.keys.card ≤ n) :
    ∃ t' rows', t.refile slot' go size = some t' ∧ t'.heads.length = size ∧
      Filed slot' t' rows' ∧ Complete t' rows' ∧
      ∀ b, entryAt t'.cells b = entryAt t.cells b := by
  have hstart : Filed slot' ⟨t.cells, List.replicate size none⟩ fun _ => [] :=
    ⟨fun _ => List.nodup_nil, (filed_empty slot' size).heads, fun _ _ ha => (nomatch ha),
      fun _ _ => rfl⟩
  have hheads : t.heads = ((List.range t.heads.length).map rows).map List.head? := by
    refine List.ext_getElem? fun i => ?_
    rw [List.map_map, List.getElem?_map]
    by_cases hi : i < t.heads.length
    · rw [h.heads i hi, List.getElem?_range hi]
      rfl
    · rw [List.getElem?_eq_none (not_lt.mp hi), List.getElem?_eq_none]
      · rfl
      · rw [List.length_range]
        exact not_lt.mp hi
  obtain ⟨t', rows', hmoves, hlength, hfiled, hrows, hentries⟩ := hstart.moveChains go
    (h.nodup_flatten t.heads.length)
    (by
      intro l hl
      obtain ⟨i, -, rfl⟩ := List.mem_map.mp hl
      exact h.linked i)
    (fun _ _ _ hb => (nomatch hb))
    (by
      intro b _ e he
      rw [List.length_replicate]
      exact hslot b e he)
    (fun l hl => by
      obtain ⟨i, -, rfl⟩ := List.mem_map.mp hl
      exact h.length_lt_rounds i) 0
    (by
      intro n hn
      rw [h.length_flatten hcomplete, Nat.zero_add]
      exact hgo n hn)
  refine ⟨t', rows', ?_, hlength.trans List.length_replicate, hfiled, fun b hb => ?_, hentries⟩
  · rw [ChainTable.refile]
    rw [← hheads] at hmoves
    exact hmoves
  · refine (hrows b).mpr (Or.inl ((h.mem_flatten hcomplete).mpr fun hnone => hb ?_))
    have hentry := hentries b
    rw [entryAt, entryAt, hnone, Option.map_none, Option.map_eq_none_iff] at hentry
    exact hentry

/-! ### How many chains there are -/

variable {t' : ChainTable E}

theorem length_push (h : t.push i a e = some t') : t'.heads.length = t.heads.length := by
  obtain ⟨head, -, rfl⟩ := Option.map_eq_some_iff.mp h
  exact List.length_set

theorem length_moveChain {rounds moved moved' : ℕ} {head : Option ℕ}
    (h : moveChain slot rounds head t moved = some (t', moved')) :
    t'.heads.length = t.heads.length := by
  induction rounds generalizing head t moved with
  | zero => cases h
  | succ rounds ih =>
    cases head with
    | none =>
      cases h
      rfl
    | some a =>
      rw [moveChain] at h
      obtain ⟨cell, -, h⟩ := Option.bind_eq_some_iff.mp h
      obtain ⟨t₁, hpush, h⟩ := Option.bind_eq_some_iff.mp h
      exact (ih h).trans (length_push hpush)

theorem length_moveChains {go : ℕ → Bool} {rounds moved : ℕ} {heads : List (Option ℕ)}
    (h : moveChains slot go rounds heads t moved = some t') :
    t'.heads.length = t.heads.length := by
  induction heads generalizing t moved with
  | nil =>
    cases h
    rfl
  | cons head heads ih =>
    rw [moveChains] at h
    split_ifs at h
    · obtain ⟨r, hmove, h⟩ := Option.bind_eq_some_iff.mp h
      exact (ih h).trans (length_moveChain hmove)
    · cases h
      rfl

theorem length_refile {go : ℕ → Bool} {size : ℕ} (h : t.refile slot go size = some t') :
    t'.heads.length = size := (length_moveChains h).trans List.length_replicate

end Chains

/-! ## What the entries map -/

/-- Entries at addresses, one for each key, are a map. -/
structure Represents {C V : Type} [DecidableEq C] (key : E → C) (val : ℕ → E → V)
    (entries : ℕ → Option E) (m : Dict C V) : Prop where
  unique : ∀ a b e e', entries a = some e → entries b = some e' → key e = key e' → a = b
  maps : ∀ c v, m.find c = some v ↔ ∃ a e, entries a = some e ∧ key e = c ∧ val a e = v

section Represents

variable {C V : Type} [DecidableEq C] {key : E → C} {val : ℕ → E → V}
  {entries entries' : ℕ → Option E} {m : Dict C V} {a : ℕ} {e : E}

theorem Represents.congr (h : Represents key val entries m) (heq : ∀ b, entries' b = entries b) :
    Represents key val entries' m := by
  rw [funext heq]
  exact h

theorem Represents.find (h : Represents key val entries m) (he : entries a = some e) :
    m.find (key e) = some (val a e) := (h.maps _ _).mpr ⟨a, e, he, rfl, rfl⟩

theorem Represents.ne_of_find_none (h : Represents key val entries m) {c : C}
    (hnone : m.find c = none) {b : ℕ} {f : E} (hb : entries b = some f) : key f ≠ c := by
  rintro rfl
  rw [h.find hb] at hnone
  cases hnone

/-- An entry is written where its key is, or where nothing is and its key is nowhere. -/
theorem Represents.put (h : Represents key val entries m)
    (hother : ∀ b f, entries b = some f → b ≠ a → key f ≠ key e)
    (ha : ∀ f, entries a = some f → key f = key e)
    (hentries : ∀ b, entries' b = if b = a then some e else entries b) :
    Represents key val entries' (m.insert (key e) (val a e)) := by
  constructor
  · intro b c f f' hb hc heq
    rw [hentries] at hb hc
    split_ifs at hb hc with hba hca hca
    · exact hba.trans hca.symm
    · obtain rfl := Option.some.inj hb
      exact absurd heq.symm (hother c f' hc hca)
    · obtain rfl := Option.some.inj hc
      exact absurd heq (hother b f hb hba)
    · exact h.unique b c f f' hb hc heq
  · intro c v
    rw [Dict.find_insert]
    by_cases hc : c = key e
    · rw [if_pos hc]
      constructor
      · intro hv
        exact ⟨a, e, by rw [hentries, if_pos rfl], hc.symm, Option.some.inj hv⟩
      · rintro ⟨b, f, hb, heq, rfl⟩
        rw [hentries] at hb
        split_ifs at hb with hba
        · obtain rfl := Option.some.inj hb
          rw [hba]
        · exact absurd (heq.trans hc) (hother b f hb hba)
    · rw [if_neg hc, h.maps]
      constructor
      · rintro ⟨b, f, hb, heq, hv⟩
        have hba : b ≠ a := by
          rintro rfl
          exact hc (heq.symm.trans (ha f hb))
        exact ⟨b, f, by rw [hentries, if_neg hba, hb], heq, hv⟩
      · rintro ⟨b, f, hb, heq, hv⟩
        rw [hentries] at hb
        split_ifs at hb
        · obtain rfl := Option.some.inj hb
          exact absurd heq.symm hc
        · exact ⟨b, f, hb, heq, hv⟩

/-- An entry with a new key where nothing is. -/
theorem Represents.insert (h : Represents key val entries m) (hnone : m.find (key e) = none)
    (ha : entries a = none) (hentries : ∀ b, entries' b = if b = a then some e else entries b) :
    Represents key val entries' (m.insert (key e) (val a e)) := by
  refine h.put (fun b f hb _ => h.ne_of_find_none hnone hb) (fun f hf => ?_) hentries
  rw [ha] at hf
  cases hf

/-- An entry with the same key. -/
theorem Represents.replace (h : Represents key val entries m) {e' : E} (he : entries a = some e')
    (hkey : key e' = key e) (hentries : ∀ b, entries' b = if b = a then some e else entries b) :
    Represents key val entries' (m.insert (key e) (val a e)) := by
  refine h.put (fun b f hb hba heq => hba ?_) (fun f hf => ?_) hentries
  · exact h.unique b a f e' hb he (heq.trans hkey.symm)
  · rw [he] at hf
    rw [← Option.some.inj hf, hkey]

theorem Represents.erase (h : Represents key val entries m) (he : entries a = some e)
    (hentries : ∀ b, entries' b = if b = a then none else entries b) :
    Represents key val entries' (m.erase (key e)) := by
  constructor
  · intro b c f f' hb hc heq
    rw [hentries] at hb hc
    split_ifs at hb hc
    exact h.unique b c f f' hb hc heq
  · intro c v
    rw [Dict.find_erase]
    by_cases hc : c = key e
    · rw [if_pos hc]
      refine iff_of_false (fun hv => (nomatch hv)) ?_
      rintro ⟨b, f, hb, heq, -⟩
      rw [hentries] at hb
      split_ifs at hb with hba
      exact hba (h.unique b a f e hb he (heq.trans hc))
    · rw [if_neg hc, h.maps]
      constructor
      · rintro ⟨b, f, hb, heq, hv⟩
        have hba : b ≠ a := by
          rintro rfl
          rw [he] at hb
          obtain rfl := Option.some.inj hb
          exact hc heq.symm
        exact ⟨b, f, by rw [hentries, if_neg hba, hb], heq, hv⟩
      · rintro ⟨b, f, hb, heq, hv⟩
        rw [hentries] at hb
        split_ifs at hb
        exact ⟨b, f, hb, heq, hv⟩

end Represents

end ChainTable

end ViabtcExchange
