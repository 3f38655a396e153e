import Mathlib.Data.List.Sort
import Mathlib.Tactic

/-!
# Tables with an integer primary key

A table lists its rows in the order of their keys, which are distinct; an insertion under a key
that is taken is refused. A table is read in pages: the first `limit` rows above the last key
seen, again and again, until a page comes short.

**Theorem (`Table.scan_eq`).** Reading in pages visits the rows above the starting key in order,
each once, however they fall on the pages.
-/

namespace ViabtcExchange

structure Table (α : Type) where
  rows : List (ℕ × α)
  sorted : rows.Pairwise fun r r' => r.1 < r'.1

namespace Table

variable {α σ : Type}

def empty : Table α := ⟨[], List.Pairwise.nil⟩

/-- Put a row at its place, unless its key is taken. -/
def insertRow (r : ℕ × α) : List (ℕ × α) → List (ℕ × α)
  | [] => [r]
  | r' :: rows =>
    if r.1 < r'.1 then r :: r' :: rows
    else if r.1 = r'.1 then r' :: rows
    else r' :: insertRow r rows

theorem mem_insertRow {r x : ℕ × α} {rows : List (ℕ × α)} (h : x ∈ insertRow r rows) :
    x = r ∨ x ∈ rows := by
  induction rows with
  | nil => exact Or.inl (List.mem_singleton.mp h)
  | cons r' rows ih =>
    unfold insertRow at h
    split_ifs at h
    · exact List.mem_cons.mp h
    · exact Or.inr h
    · rcases List.mem_cons.mp h with rfl | h
      · exact Or.inr List.mem_cons_self
      · exact (ih h).imp_right (List.mem_cons_of_mem _)

theorem insertRow_sorted {r : ℕ × α} {rows : List (ℕ × α)}
    (h : rows.Pairwise fun r r' => r.1 < r'.1) :
    (insertRow r rows).Pairwise fun r r' => r.1 < r'.1 := by
  induction rows with
  | nil => simp [insertRow]
  | cons r' rows ih =>
    obtain ⟨hr', hrows⟩ := List.pairwise_cons.mp h
    unfold insertRow
    split_ifs with hlt heq
    · refine List.pairwise_cons.mpr ⟨fun x hx => ?_, h⟩
      rcases List.mem_cons.mp hx with rfl | hx
      · exact hlt
      · exact hlt.trans (hr' x hx)
    · exact h
    · refine List.pairwise_cons.mpr ⟨fun x hx => ?_, ih hrows⟩
      rcases mem_insertRow hx with rfl | hx
      · exact lt_of_le_of_ne (not_lt.mp hlt) (Ne.symm heq)
      · exact hr' x hx

/-- `INSERT`, refused when the key is taken. -/
def insert (t : Table α) (r : ℕ × α) : Table α := ⟨insertRow r t.rows, insertRow_sorted t.sorted⟩

theorem mem_insertRow_of_fresh {r x : ℕ × α} {rows : List (ℕ × α)}
    (hfresh : ∀ r' ∈ rows, r'.1 ≠ r.1) : x ∈ insertRow r rows ↔ x = r ∨ x ∈ rows := by
  induction rows with
  | nil => simp [insertRow]
  | cons r' rows ih =>
    have ih := ih fun r'' h => hfresh r'' (List.mem_cons_of_mem _ h)
    unfold insertRow
    split_ifs with hlt heq
    · simp
    · exact absurd heq.symm (hfresh r' List.mem_cons_self)
    · simp only [List.mem_cons, ih]
      exact or_left_comm

theorem mem_insert_of_fresh {t : Table α} {r x : ℕ × α} (hfresh : ∀ r' ∈ t.rows, r'.1 ≠ r.1) :
    x ∈ (t.insert r).rows ↔ x = r ∨ x ∈ t.rows :=
  mem_insertRow_of_fresh hfresh

/-- An `INSERT` of several rows, all of them or none: refused when a key is taken. -/
def insertAll (t : Table α) : List (ℕ × α) → Option (Table α)
  | [] => some t
  | r :: rs => if ∃ r' ∈ t.rows, r'.1 = r.1 then none else (t.insert r).insertAll rs

/-- Keys that are fresh and distinct are not refused. -/
theorem exists_insertAll {rs : List (ℕ × α)} : ∀ {t : Table α},
    (∀ r ∈ rs, ∀ r' ∈ t.rows, r'.1 ≠ r.1) → rs.Pairwise (fun r r' => r.1 ≠ r'.1) →
      ∃ t', t.insertAll rs = some t' := by
  induction rs with
  | nil => exact fun _ _ => ⟨_, rfl⟩
  | cons r rs ih =>
    intro t hfresh hdistinct
    obtain ⟨hr, hrs⟩ := List.pairwise_cons.mp hdistinct
    have hfresh₁ : ∀ r' ∈ t.rows, r'.1 ≠ r.1 := hfresh r List.mem_cons_self
    rw [insertAll, if_neg fun ⟨r', hr', heq⟩ => hfresh₁ r' hr' heq]
    refine ih (fun r'' hr'' r' hr' => ?_) hrs
    rcases (mem_insert_of_fresh hfresh₁).mp hr' with rfl | hr'
    · exact hr r'' hr''
    · exact hfresh r'' (List.mem_cons_of_mem _ hr'') r' hr'

/-- After an `INSERT` that is not refused the table has the new rows and the old ones. -/
theorem mem_insertAll {rs : List (ℕ × α)} {x : ℕ × α} : ∀ {t t' : Table α},
    t.insertAll rs = some t' → (x ∈ t'.rows ↔ x ∈ rs ∨ x ∈ t.rows) := by
  induction rs with
  | nil =>
    intro t t' h
    cases h
    simp
  | cons r rs ih =>
    intro t t' h
    rw [insertAll] at h
    split at h
    · cases h
    · rename_i hfresh
      have hfresh : ∀ r' ∈ t.rows, r'.1 ≠ r.1 := fun r' hr' heq => hfresh ⟨r', hr', heq⟩
      rw [ih h, mem_insert_of_fresh hfresh, List.mem_cons]
      exact or_left_comm.trans or_assoc.symm

/-- A row whose key is taken is refused. -/
theorem insertAll_taken {t : Table α} {r : ℕ × α} {rs : List (ℕ × α)} (hr : r ∈ t.rows) :
    t.insertAll (r :: rs) = none := by
  rw [insertAll, if_pos ⟨r, hr, rfl⟩]

/-- `WHERE id > last ORDER BY id`. -/
def above (t : Table α) (last : ℕ) : List (ℕ × α) := t.rows.filter fun r => last < r.1

/-- `WHERE id > last ORDER BY id LIMIT limit`. -/
def page (t : Table α) (limit last : ℕ) : List (ℕ × α) := (t.above last).take limit

/-- The key of the last of some rows read, the one before them when there are none. -/
def lastKey (last : ℕ) (rows : List (ℕ × α)) : ℕ := (rows.getLast?.map Prod.fst).getD last

theorem lastKey_append (last : ℕ) (xs ys : List (ℕ × α)) :
    lastKey last (xs ++ ys) = lastKey (lastKey last xs) ys := by
  cases h : ys.getLast? with
  | none => simp [lastKey, List.getLast?_eq_none_iff.mp h]
  | some y => simp [lastKey, List.getLast?_append, h]

/-- The rows above the last key of a full page are those behind the page. -/
theorem above_lastKey (t : Table α) {limit last : ℕ} (hlimit : 0 < limit)
    (hfull : limit ≤ (t.page limit last).length) :
    t.above (lastKey last (t.page limit last)) = (t.above last).drop limit := by
  set l := t.above last with hl
  have hsorted : l.Pairwise fun r r' => r.1 < r'.1 := t.sorted.sublist List.filter_sublist
  have hne : l.take limit ≠ [] := fun h => by
    rw [page, ← hl, h] at hfull
    exact absurd hfull (by simpa using hlimit.ne')
  obtain ⟨front, x, hx⟩ := List.eq_nil_or_concat (l.take limit) |>.resolve_left hne
  have hkey : lastKey last (t.page limit last) = x.1 := by
    rw [page, ← hl, hx]
    simp [lastKey]
  have hsplit : l = front ++ x :: l.drop limit := by
    conv_lhs => rw [← List.take_append_drop limit l, hx]
    simp
  rw [hsplit] at hsorted
  obtain ⟨-, htail, hcross⟩ := List.pairwise_append.mp hsorted
  have hlast : last < x.1 := by
    have hmem : x ∈ t.above last := by rw [← hl, hsplit]; simp
    simpa [above] using (List.mem_filter.mp hmem).2
  have hsub : t.above x.1 = l.filter fun r => x.1 < r.1 := by
    rw [hl, above, above, List.filter_filter]
    refine List.filter_congr fun r _ => ?_
    by_cases hr : x.1 < r.1
    · simp [hr, hlast.trans hr]
    · simp [hr]
  rw [hkey, hsub]
  conv_lhs => rw [hsplit]
  rw [List.filter_append, List.filter_cons, List.filter_eq_nil_iff.mpr, List.nil_append,
    if_neg (by simp), List.filter_eq_self.mpr]
  · intro r hr
    exact decide_eq_true ((List.pairwise_cons.mp htail).1 r hr)
  · intro r hr
    simpa using (hcross r hr x List.mem_cons_self).le

/-- Read the rows above `last` in pages and hand them to `f`, one after the other; the state and
the last key read, or nothing when `f` fails. -/
def scan (t : Table α) (limit : ℕ) (hlimit : 0 < limit) (f : σ → ℕ × α → Option σ) (last : ℕ)
    (s : σ) : Option (σ × ℕ) :=
  match (t.page limit last).foldlM f s with
  | none => none
  | some s =>
    if (t.page limit last).length < limit then some (s, lastKey last (t.page limit last))
    else t.scan limit hlimit f (lastKey last (t.page limit last)) s
termination_by (t.above last).length
decreasing_by
  rename_i hfull
  have hfull : limit ≤ (t.page limit last).length := not_lt.mp hfull
  have hle : limit ≤ (t.above last).length := hfull.trans (by simp [page])
  rw [t.above_lastKey hlimit hfull, List.length_drop]
  omega

theorem scan_eq (t : Table α) {limit : ℕ} (hlimit : 0 < limit) (f : σ → ℕ × α → Option σ)
    (last : ℕ) (s : σ) :
    t.scan limit hlimit f last s =
      ((t.above last).foldlM f s).map fun s => (s, lastKey last (t.above last)) := by
  induction h : (t.above last).length using Nat.strongRecOn generalizing last s with
  | _ n ih =>
    subst h
    have hsplit : t.above last = t.page limit last ++ (t.above last).drop limit :=
      (List.take_append_drop limit _).symm
    rw [scan]
    by_cases hfull : (t.page limit last).length < limit
    · have hpage : t.page limit last = t.above last := by
        refine List.take_of_length_le ?_
        rw [page, List.length_take] at hfull
        omega
      rw [hpage] at hfull ⊢
      cases (t.above last).foldlM f s <;> simp [hfull]
    · have hfull' := not_lt.mp hfull
      have habove := t.above_lastKey hlimit hfull'
      have hle : limit ≤ (t.above last).length := hfull'.trans (by simp [page])
      conv_rhs => rw [hsplit, List.foldlM_append, lastKey_append, ← habove]
      cases (t.page limit last).foldlM f s with
      | none => rfl
      | some s =>
        simp only [if_neg hfull]
        refine ih _ ?_ _ s rfl
        rw [habove, List.length_drop]
        omega

end Table

end ViabtcExchange
