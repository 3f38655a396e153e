import ViabtcExchange.Lib.Chain

/-!
# Reading a list in pages

A list is read in pages of `limit` elements, the `k`-th from the place `k * limit` on, and it may be
another list at each of them. What matters for an element that stays is only its place: where that
never decreases the element is on some page (`exists_mem_page`), and where it never increases on one
at most (`page_once`). In a list that is ordered the place is the number of the elements before it.
-/

namespace ViabtcExchange

variable {α κ : Type} [LinearOrder κ]

/-- The elements from a place on, up to `limit` of them. -/
def page (offset limit : ℕ) (l : List α) : List α := (l.drop offset).take limit

/-- A list that does not change is the list of its pages. -/
theorem flatten_pages (limit n : ℕ) (l : List α) :
    ((List.range n).map fun k => page (k * limit) limit l).flatten = l.take (n * limit) := by
  induction n with
  | zero => simp
  | succ n ih =>
    rw [List.range_succ, List.map_append, List.flatten_append, ih, List.map_singleton,
      List.flatten_singleton, page, Nat.add_one_mul, ← List.take_add]

variable [DecidableEq α] {l l' : List α} {x : α} {offset limit : ℕ}

/-- What is on a page, by its place. -/
theorem mem_page (h : l.Nodup) :
    x ∈ page offset limit l ↔ x ∈ l ∧ offset ≤ l.idxOf x ∧ l.idxOf x < offset + limit := by
  unfold page
  rw [List.mem_take_iff_getElem]
  constructor
  · rintro ⟨k, hk, rfl⟩
    rw [List.length_drop] at hk
    have hlt : offset + k < l.length := by omega
    rw [List.getElem_drop, h.idxOf_getElem _ hlt]
    exact ⟨List.getElem_mem _, by omega, by omega⟩
  · rintro ⟨hx, hle, hlt⟩
    have hidx := List.idxOf_lt_length_of_mem hx
    refine ⟨l.idxOf x - offset, ?_, ?_⟩
    · rw [List.length_drop]
      omega
    · rw [List.getElem_drop]
      simp only [Nat.add_sub_cancel' hle]
      exact List.getElem_idxOf hidx

section Pages

variable {ls : ℕ → List α} {n k k' : ℕ}

/-- An element whose place never decreases is on some page. -/
theorem exists_mem_page (hnodup : ∀ k ≤ n, (ls k).Nodup) (hmem : ∀ k ≤ n, x ∈ ls k)
    (hmono : ∀ k < n, (ls k).idxOf x ≤ (ls (k + 1)).idxOf x)
    (hend : (ls n).length ≤ (n + 1) * limit) : ∃ k ≤ n, x ∈ page (k * limit) limit (ls k) := by
  classical
  -- the first page that ends behind the element
  have hlast : (ls n).idxOf x < (n + 1) * limit :=
    (List.idxOf_lt_length_of_mem (hmem n le_rfl)).trans_le hend
  have hex : ∃ k, k ≤ n ∧ (ls k).idxOf x < (k + 1) * limit := ⟨n, le_rfl, hlast⟩
  obtain ⟨hle, hlt⟩ := Nat.find_spec hex
  have hmin := fun {j} => Nat.find_min (H := hex) (m := j)
  set k := Nat.find hex
  refine ⟨k, hle, (mem_page (hnodup k hle)).mpr ⟨hmem k hle, ?_, ?_⟩⟩
  · rcases Nat.eq_zero_or_pos k with hzero | hpos
    · rw [hzero, Nat.zero_mul]
      exact Nat.zero_le _
    · have hprev := hmin (j := k - 1) (by omega)
      rw [not_and, not_lt] at hprev
      have hstep := hmono (k - 1) (by omega)
      rw [Nat.sub_add_cancel hpos] at hprev hstep
      exact (hprev (by omega)).trans hstep
  · rw [← Nat.add_one_mul]
    exact hlt

/-- A list that only grows, and that at its beginning: what was in it is on some page. -/
theorem exists_mem_page_of_grow (hnodup : ∀ k ≤ n, (ls k).Nodup) (hx : x ∈ ls 0)
    (hgrow : ∀ k < n, ∃ more, ls (k + 1) = more ++ ls k) (hend : (ls n).length ≤ (n + 1) * limit) :
    ∃ k ≤ n, x ∈ page (k * limit) limit (ls k) := by
  have hmem : ∀ k ≤ n, x ∈ ls k := by
    intro k
    induction k with
    | zero => exact fun _ => hx
    | succ k ih =>
      intro hk
      obtain ⟨more, hmore⟩ := hgrow k hk
      rw [hmore]
      exact List.mem_append_right _ (ih (by omega))
  refine exists_mem_page hnodup hmem (fun k hk => ?_) hend
  obtain ⟨more, hmore⟩ := hgrow k hk
  have hnot : x ∉ more := fun hin =>
    (List.nodup_append.mp (hmore ▸ hnodup (k + 1) hk)).2.2 x hin x (hmem k hk.le) rfl
  rw [hmore, List.idxOf_append_of_notMem hnot]
  exact Nat.le_add_left _ _

/-- An element whose place never increases between two pages is on one of them at most. -/
theorem page_once (hnodup : ∀ j, k ≤ j → j ≤ k' → (ls j).Nodup) (hle : k ≤ k')
    (hmono : ∀ j, k ≤ j → j < k' → (ls (j + 1)).idxOf x ≤ (ls j).idxOf x)
    (hx : x ∈ page (k * limit) limit (ls k)) (hx' : x ∈ page (k' * limit) limit (ls k')) :
    k = k' := by
  have hlt := ((mem_page (hnodup k le_rfl hle)).mp hx).2.2
  have hge := ((mem_page (hnodup k' hle le_rfl)).mp hx').2.1
  have hfall : ∀ d, k + d ≤ k' → (ls (k + d)).idxOf x ≤ (ls k).idxOf x := by
    intro d
    induction d with
    | zero => exact fun _ => le_rfl
    | succ d ih => exact fun hd => (hmono (k + d) (by omega) (by omega)).trans (ih (by omega))
  have hplaces := hfall (k' - k) (by omega)
  rw [Nat.add_sub_cancel' hle] at hplaces
  rcases hle.eq_or_lt with heq | hlt'
  · exact heq
  · have hpages : (k + 1) * limit ≤ k' * limit := Nat.mul_le_mul_right _ hlt'
    rw [Nat.add_one_mul] at hpages
    omega

end Pages

/-! ## Ordered lists -/

namespace Ordered

variable {key key' : α → κ}

/-- The place of an element is the number of those before it. -/
theorem idxOf (h : Ordered key l) (hx : x ∈ l) :
    l.idxOf x = (l.filter fun y => key y < key x).length := by
  induction l with
  | nil => cases hx
  | cons y l ih =>
    obtain ⟨hy, hl⟩ := List.pairwise_cons.mp h
    rcases eq_or_ne y x with rfl | hne
    · have hnone : l.filter (fun z => key z < key y) = [] :=
        List.filter_eq_nil_iff.mpr fun z hz => by simpa using (hy z hz).le
      simp [hnone]
    · have hmem : x ∈ l := (List.mem_cons.mp hx).resolve_left hne.symm
      rw [List.idxOf_cons_ne _ hne, ih hl hmem, List.filter_cons_of_pos (by simpa using hy x hmem),
        List.length_cons]

/-- Where all that are before an element are before it in another list, its place is no less. -/
theorem idxOf_le (h : Ordered key l) (h' : Ordered key' l') (hx : x ∈ l) (hx' : x ∈ l')
    (hbefore : ∀ y ∈ l, key y < key x → y ∈ l' ∧ key' y < key' x) : l.idxOf x ≤ l'.idxOf x := by
  rw [h.idxOf hx, h'.idxOf hx']
  refine ((h.nodup.filter _).subperm fun y hy => ?_).length_le
  rw [List.mem_filter, decide_eq_true_eq] at hy ⊢
  exact hbefore y hy.1 hy.2

section Pages

variable {keys : ℕ → α → κ} {ls : ℕ → List α} {n k k' : ℕ}

variable (limit) in
/-- An element is on some page when it stays, and stays behind all that are before it. -/
theorem exists_mem_page (h : ∀ k ≤ n, Ordered (keys k) (ls k)) (hmem : ∀ k ≤ n, x ∈ ls k)
    (hbefore : ∀ k < n, ∀ y ∈ ls k, keys k y < keys k x →
      y ∈ ls (k + 1) ∧ keys (k + 1) y < keys (k + 1) x)
    (hend : (ls n).length ≤ (n + 1) * limit) : ∃ k ≤ n, x ∈ page (k * limit) limit (ls k) :=
  ViabtcExchange.exists_mem_page (fun k hk => (h k hk).nodup) hmem
    (fun k hk => (h k hk.le).idxOf_le (h (k + 1) hk) (hmem k hk.le) (hmem (k + 1) hk)
      (hbefore k hk)) hend

/-- An element is on one page at most when it stays, and nothing gets before it. -/
theorem page_once (h : ∀ j, k ≤ j → j ≤ k' → Ordered (keys j) (ls j)) (hle : k ≤ k')
    (hmem : ∀ j, k ≤ j → j ≤ k' → x ∈ ls j)
    (hbehind : ∀ j, k ≤ j → j < k' → ∀ y ∈ ls (j + 1), keys (j + 1) y < keys (j + 1) x →
      y ∈ ls j ∧ keys j y < keys j x)
    (hx : x ∈ page (k * limit) limit (ls k)) (hx' : x ∈ page (k' * limit) limit (ls k')) : k = k' :=
  ViabtcExchange.page_once (fun j hj hj' => (h j hj hj').nodup) hle
    (fun j hj hj' => (h (j + 1) (by omega) hj').idxOf_le (h j hj hj'.le) (hmem (j + 1) (by omega) hj')
      (hmem j hj hj'.le) (hbehind j hj hj')) hx hx'

end Pages

end Ordered

end ViabtcExchange
