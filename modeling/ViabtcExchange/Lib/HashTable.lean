import Mathlib.Tactic
import Mathlib.Algebra.Order.BigOperators.Group.Multiset

/-!
# Hash tables whose hash may change

A table of chained buckets, for keys that are compared by themselves. The hash is given to each
operation anew: it may be another function each time, as where a key is hashed by what it points to.

`contents` is what lies in the buckets, wherever. An operation finds only what lies in the bucket
of the present hash; a key that does is found, added once and deleted as in a set
(`contents_add`, `contents_delete`). To grow, a table puts all its keys where the present hash
has them (`expand_spec`).
-/

namespace ViabtcExchange

/-- `used` is the number of keys. -/
structure HashTable (K : Type) where
  size : ℕ
  table : ℕ → List K
  used : ℕ

namespace HashTable

variable {K : Type}

/-! ## Operations -/

/-- The first power of two from `realsize` on that is not less than `size`. -/
def nextPowerFrom : ℕ → ℕ → ℕ → ℕ
  | 0, realsize, _ => realsize
  | n + 1, realsize, size => if size ≤ realsize then realsize else nextPowerFrom n (realsize * 2) size

/-- Sizes are powers of two from 4 on. -/
@[irreducible] def nextPower (size : ℕ) : ℕ := nextPowerFrom size 4 size

def create (initSize : ℕ) : HashTable K := ⟨nextPower initSize, fun _ => [], 0⟩

section Operations

variable (hash : K → ℕ) (t : HashTable K) (k : K)

/-- The bucket of a key in a table of this size, a power of two. -/
def indexIn (size : ℕ) : ℕ := hash k &&& (size - 1)

def index : ℕ := indexIn hash k t.size

/-- A key at the head of its bucket. -/
def push (size : ℕ) (table : ℕ → List K) (k : K) : ℕ → List K :=
  Function.update table (indexIn hash k size) (k :: table (indexIn hash k size))

/-- The buckets one after the other, until all keys have been moved. -/
def refile (size : ℕ) (old : ℕ → List K) : List ℕ → ℕ → (ℕ → List K) → ℕ → List K
  | [], _, new => new
  | i :: is, used, new =>
    if used = 0 then new
    else refile size old is (used - (old i).length) ((old i).foldl (push hash size) new)

def expand (size : ℕ) : HashTable K :=
  let size := nextPower size
  ⟨size, refile hash size t.table (List.range t.size) t.used fun _ => [], t.used⟩

def expandIfNeeded : HashTable K := if t.size * 4 ≤ t.used then t.expand hash (t.size * 4) else t

variable [DecidableEq K]

def find : Bool := decide (k ∈ t.table (t.index hash k))

def add : HashTable K :=
  if t.find hash k then t
  else
    let t := t.expandIfNeeded hash
    { t with table := push hash t.size t.table k, used := t.used + 1 }

/-- The first entry of the bucket that has the key. -/
def delete : HashTable K :=
  if k ∈ t.table (t.index hash k) then
    { t with
      table := Function.update t.table (t.index hash k) ((t.table (t.index hash k)).erase k)
      used := t.used - 1 }
  else t

end Operations

/-! ## Contents -/

/-- The keys in the buckets. -/
def contents (t : HashTable K) : Multiset K := ∑ i ∈ Finset.range t.size, (t.table i : Multiset K)

/-- There are buckets, and the keys are counted. -/
structure Counted (t : HashTable K) : Prop where
  size : 0 < t.size
  used : t.used = t.contents.card

theorem mem_contents {t : HashTable K} {k : K} : k ∈ t.contents ↔ ∃ i < t.size, k ∈ t.table i := by
  unfold contents
  simp

theorem le_nextPowerFrom (n realsize size : ℕ) : realsize ≤ nextPowerFrom n realsize size := by
  induction n generalizing realsize with
  | zero => exact le_rfl
  | succ n ih =>
    unfold nextPowerFrom
    split_ifs
    · exact le_rfl
    · exact (Nat.le_mul_of_pos_right _ (by norm_num)).trans (ih _)

theorem nextPower_pos (size : ℕ) : 0 < nextPower size := by
  unfold nextPower
  exact lt_of_lt_of_le (by norm_num) (le_nextPowerFrom size 4 size)

theorem indexIn_lt (hash : K → ℕ) (k : K) {size : ℕ} (hsize : 0 < size) :
    indexIn hash k size < size :=
  lt_of_le_of_lt Nat.and_le_right (by omega)

theorem counted_create (initSize : ℕ) : (create initSize : HashTable K).Counted :=
  ⟨nextPower_pos initSize, by simp [contents, create]⟩

theorem contents_create (initSize : ℕ) : (create initSize : HashTable K).contents = 0 := by
  simp [contents, create]

/-- What changes in one bucket. -/
theorem contents_update (size : ℕ) (table : ℕ → List K) (used used' : ℕ) {i : ℕ} (hi : i < size)
    (bucket : List K) :
    contents ⟨size, Function.update table i bucket, used'⟩ + (table i : Multiset K) =
      contents ⟨size, table, used⟩ + (bucket : Multiset K) := by
  unfold contents
  dsimp only
  rw [← Finset.sum_erase_add _ _ (Finset.mem_range.mpr hi),
    ← Finset.sum_erase_add _ (fun j => (table j : Multiset K)) (Finset.mem_range.mpr hi),
    Function.update_self, add_assoc, add_assoc, add_comm (bucket : Multiset K)]
  refine congrArg (· + _) (Finset.sum_congr rfl fun j hj => ?_)
  rw [Function.update_of_ne (Finset.ne_of_mem_erase hj)]

theorem contents_push (hash : K → ℕ) {size : ℕ} (hsize : 0 < size) (table : ℕ → List K)
    (used used' : ℕ) (k : K) :
    contents ⟨size, push hash size table k, used'⟩ = k ::ₘ contents ⟨size, table, used⟩ := by
  have hupdate := contents_update size table used used' (indexIn_lt hash k hsize)
    (k :: table (indexIn hash k size))
  rw [← Multiset.cons_coe, Multiset.add_cons, ← Multiset.cons_add] at hupdate
  exact add_right_cancel hupdate

/-! ## Growing -/

/-- Every key lies where its hash was when it was put there. -/
def FiledBy (f : K → ℕ) (t : HashTable K) : Prop :=
  ∀ i < t.size, ∀ k ∈ t.table i, indexIn f k t.size = i

section Growing

variable {hash f : K → ℕ} {size : ℕ}

theorem filedBy_push {table : ℕ → List K} {used used' : ℕ} (k : K)
    (h : FiledBy f ⟨size, table, used⟩) (hk : f k = hash k) :
    FiledBy f ⟨size, push hash size table k, used'⟩ := by
  intro i hi k' hk'
  unfold push at hk'
  dsimp only at hk'
  by_cases hsame : i = indexIn hash k size
  · subst hsame
    rw [Function.update_self] at hk'
    rcases List.mem_cons.mp hk' with rfl | hk'
    · unfold indexIn
      rw [hk]
    · exact h _ hi k' hk'
  · rw [Function.update_of_ne hsame] at hk'
    exact h i hi k' hk'

/-- A bucket that is moved. -/
theorem foldl_push (hsize : 0 < size) (bucket : List K) (new : ℕ → List K) (used : ℕ)
    (hnew : FiledBy hash ⟨size, new, used⟩) :
    contents ⟨size, bucket.foldl (push hash size) new, used⟩ =
        contents ⟨size, new, used⟩ + (bucket : Multiset K) ∧
      FiledBy hash ⟨size, bucket.foldl (push hash size) new, used⟩ := by
  induction bucket generalizing new with
  | nil => exact ⟨(add_zero _).symm, hnew⟩
  | cons k bucket ih =>
    obtain ⟨hcontents, hfiled⟩ := ih (push hash size new k) (filedBy_push k hnew rfl)
    rw [List.foldl_cons, hcontents, contents_push hash hsize new used used k, ← Multiset.cons_coe,
      Multiset.cons_add, Multiset.add_cons]
    exact ⟨rfl, hfiled⟩

/-- All keys are moved, as long as they are counted. -/
theorem refile_spec (hsize : 0 < size) (old : ℕ → List K) (is : List ℕ) (count : ℕ)
    (hcount : count = ((is.map fun i => (old i : Multiset K)).sum).card) (new : ℕ → List K)
    (used : ℕ) (hnew : FiledBy hash ⟨size, new, used⟩) :
    contents ⟨size, refile hash size old is count new, used⟩ =
        contents ⟨size, new, used⟩ + (is.map fun i => (old i : Multiset K)).sum ∧
      FiledBy hash ⟨size, refile hash size old is count new, used⟩ := by
  induction is generalizing count new with
  | nil => exact ⟨(add_zero _).symm, hnew⟩
  | cons i is ih =>
    unfold refile
    split_ifs with hzero
    · have hnone : ((i :: is).map fun i => (old i : Multiset K)).sum = 0 :=
        Multiset.card_eq_zero.mp (hcount.symm.trans hzero)
      exact ⟨by rw [hnone, add_zero], hnew⟩
    · obtain ⟨hmoved, hfiled⟩ := foldl_push hsize (old i) new used hnew
      rw [List.map_cons, List.sum_cons, Multiset.card_add, Multiset.coe_card] at hcount
      obtain ⟨hcontents, hrefiled⟩ := ih (count - (old i).length) (by omega) _ hfiled
      rw [hcontents, hmoved, List.map_cons, List.sum_cons, add_assoc]
      exact ⟨rfl, hrefiled⟩

/-- A table grows without losing a key, and then each is where its hash has it now. -/
theorem expand_spec {t : HashTable K} (h : t.Counted) (hash : K → ℕ) (size : ℕ) :
    (t.expand hash size).contents = t.contents ∧ (t.expand hash size).FiledBy hash ∧
      (t.expand hash size).Counted := by
  have hpos := nextPower_pos size
  have hlist : ((List.range t.size).map fun i => (t.table i : Multiset K)).sum = t.contents :=
    rfl
  have hnone : FiledBy hash (⟨nextPower size, fun _ => [], t.used⟩ : HashTable K) :=
    fun _ _ _ hk => by cases hk
  have hspec :=
    refile_spec hpos t.table (List.range t.size) t.used (by rw [hlist]; exact h.used) _ _ hnone
  rw [hlist] at hspec
  have hempty : contents (⟨nextPower size, fun _ => [], t.used⟩ : HashTable K) = 0 := by
    simp [contents]
  rw [hempty, zero_add] at hspec
  exact ⟨hspec.1, hspec.2, hpos, h.used.trans (congrArg _ hspec.1.symm)⟩

end Growing

/-! ## A key that is where its hash has it -/

section Present

variable {hash f : K → ℕ} {t : HashTable K} {k : K}

/-- If the key is in the table at all, its hash has it now where it had it when it was put there. -/
def Steady (f hash : K → ℕ) (t : HashTable K) (k : K) : Prop :=
  k ∈ t.contents → indexIn hash k t.size = indexIn f k t.size

theorem Counted.mem_bucket_iff (h : t.Counted) (hfiled : t.FiledBy f)
    (hsteady : Steady f hash t k) :
    k ∈ t.table (t.index hash k) ↔ k ∈ t.contents := by
  constructor
  · exact fun hk => mem_contents.mpr ⟨_, indexIn_lt hash k h.size, hk⟩
  · intro hk
    obtain ⟨i, hi, hki⟩ := mem_contents.mp hk
    unfold index
    rw [hsteady hk, hfiled i hi k hki]
    exact hki

/-- No other key of the table is in the bucket it is looked for in. -/
theorem steady_of_mem_bucket (hfiled : t.FiledBy f) (hsize : 0 < t.size)
    (h : k ∈ t.table (t.index hash k)) : Steady f hash t k :=
  fun _ => (hfiled _ (indexIn_lt hash k hsize) k h).symm

variable [DecidableEq K]

/-- Such a key is found if it is there. -/
theorem find_iff (h : t.Counted) (hfiled : t.FiledBy f) (hsteady : Steady f hash t k) :
    t.find hash k = true ↔ k ∈ t.contents := by
  unfold find
  rw [decide_eq_true_iff]
  exact h.mem_bucket_iff hfiled hsteady

/-- Where the keys lie after one has been added. -/
def filedAfter (f hash : K → ℕ) (t : HashTable K) (k : K) : K → ℕ :=
  if t.find hash k then f else if t.size * 4 ≤ t.used then hash else Function.update f k (hash k)

/-- A key is added if it is not found. -/
theorem contents_add (h : t.Counted) (hash : K → ℕ) (k : K) :
    (t.add hash k).contents = (if t.find hash k then t.contents else k ::ₘ t.contents) ∧
      (t.add hash k).Counted := by
  unfold add
  split_ifs
  · exact ⟨rfl, h⟩
  · have hgrown : (t.expandIfNeeded hash).contents = t.contents ∧
        (t.expandIfNeeded hash).Counted := by
      unfold expandIfNeeded
      split_ifs
      · obtain ⟨hcontents, -, hcounted⟩ := expand_spec h hash (t.size * 4)
        exact ⟨hcontents, hcounted⟩
      · exact ⟨rfl, h⟩
    obtain ⟨hcontents, hcounted⟩ := hgrown
    have hpush := contents_push hash hcounted.size (t.expandIfNeeded hash).table
      (t.expandIfNeeded hash).used ((t.expandIfNeeded hash).used + 1) k
    refine ⟨hpush.trans (congrArg _ hcontents), hcounted.size, ?_⟩
    dsimp only
    rw [hpush, Multiset.card_cons]
    exact congrArg (· + 1) hcounted.used

theorem FiledBy.add (h : t.Counted) (hfiled : t.FiledBy f) (hash : K → ℕ) (k : K)
    (hnot : t.find hash k = false → k ∉ t.contents) :
    (t.add hash k).FiledBy (filedAfter f hash t k) := by
  unfold HashTable.add filedAfter
  split_ifs with hfound hgrow
  · exact hfiled
  · unfold expandIfNeeded
    rw [if_pos hgrow]
    exact filedBy_push k (expand_spec h hash (t.size * 4)).2.1 rfl
  · unfold expandIfNeeded
    rw [if_neg hgrow]
    refine @filedBy_push K hash _ t.size t.table t.used _ k (fun i hi k' hk' => ?_)
      (Function.update_self ..)
    have hne : k' ≠ k := by
      rintro rfl
      exact hnot (Bool.eq_false_of_not_eq_true hfound) (mem_contents.mpr ⟨i, hi, hk'⟩)
    unfold indexIn
    rw [Function.update_of_ne hne]
    exact hfiled i hi k' hk'

/-- A key that is where its hash has it is deleted once. -/
theorem contents_delete (h : t.Counted) (hfiled : t.FiledBy f) (hsteady : Steady f hash t k) :
    (t.delete hash k).contents = t.contents.erase k ∧ (t.delete hash k).Counted ∧
      (t.delete hash k).FiledBy f := by
  have hmem := h.mem_bucket_iff hfiled hsteady
  unfold delete
  split_ifs with hbucket
  · have hk := hmem.mp hbucket
    have hupdate := contents_update t.size t.table t.used (t.used - 1) (indexIn_lt hash k h.size)
      ((t.table (t.index hash k)).erase k)
    have hcontents : contents ⟨t.size, Function.update t.table (t.index hash k)
        ((t.table (t.index hash k)).erase k), t.used - 1⟩ = t.contents.erase k := by
      rw [← Multiset.coe_erase] at hupdate
      nth_rewrite 1 [show (t.table (indexIn hash k t.size) : Multiset K) =
        k ::ₘ (t.table (t.index hash k) : Multiset K).erase k
          from (Multiset.cons_erase hbucket).symm] at hupdate
      rw [Multiset.add_cons, ← Multiset.cons_add] at hupdate
      rw [show t.contents = _ from (add_right_cancel hupdate).symm, Multiset.erase_cons_head]
      rfl
    refine ⟨hcontents, ⟨h.size, ?_⟩, fun i hi k' hk' => ?_⟩
    · rw [hcontents, Multiset.card_erase_of_mem hk, ← h.used]
      rfl
    · dsimp only at hi hk' ⊢
      by_cases hsame : i = t.index hash k
      · subst hsame
        rw [Function.update_self] at hk'
        exact hfiled _ hi k' (List.mem_of_mem_erase hk')
      · rw [Function.update_of_ne hsame] at hk'
        exact hfiled i hi k' hk'
  · rw [Multiset.erase_of_notMem fun hk => hbucket (hmem.mpr hk)]
    exact ⟨rfl, h, hfiled⟩

end Present

end HashTable

end ViabtcExchange
