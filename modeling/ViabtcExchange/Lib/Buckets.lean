import Mathlib.Data.List.Sort
import Mathlib.Tactic

/-!
# Buckets of a sorted list

The elements of a list under one key are a bucket. When the list is sorted by its keys, its buckets,
taken in the order of the keys, are the list again (`flatten_buckets`), whether or not some of them
are empty. Buckets of a finer key lie in the buckets of a coarser one (`flatten_buckets_coarse`). Of
a list that is not sorted the buckets are a permutation (`flatten_buckets_perm`).
-/

namespace ViabtcExchange

variable {α β γ : Type}

/-- The elements under a key, in their order. -/
def bucket [DecidableEq β] (f : α → β) (l : List α) (k : β) : List α := l.filter fun a => f a = k

section Bucket

variable [DecidableEq β] (f : α → β)

@[simp] theorem bucket_nil (k : β) : bucket f [] k = [] := rfl

theorem bucket_append (l l' : List α) (k : β) :
    bucket f (l ++ l') k = bucket f l k ++ bucket f l' k :=
  List.filter_append ..

theorem bucket_snoc (l : List α) (a : α) (k : β) :
    bucket f (l ++ [a]) k = if f a = k then bucket f l k ++ [a] else bucket f l k := by
  rw [bucket_append]
  unfold bucket
  split_ifs with h
  · simp [h]
  · simp [h]

theorem mem_bucket {l : List α} {k : β} {a : α} : a ∈ bucket f l k ↔ a ∈ l ∧ f a = k := by
  simp [bucket]

/-- A bucket of a finer key, taken out of the bucket of a coarser one. -/
theorem bucket_bucket [DecidableEq γ] {g : α → γ} {l : List α} {k : β} {h : γ}
    (hfine : ∀ a ∈ l, f a = k → g a = h) : bucket f (bucket g l h) k = bucket f l k := by
  unfold bucket
  rw [List.filter_filter]
  refine List.filter_congr fun a ha => ?_
  by_cases hk : f a = k
  · simp [hk, hfine a ha hk]
  · simp [hk]

/-- The buckets of some keys make up what lies under them, in whatever order. -/
theorem flatten_buckets_perm {l : List α} {keys : List β} (hkeys : keys.Nodup) :
    (keys.map (bucket f l)).flatten.Perm (l.filter fun a => f a ∈ keys) := by
  induction keys with
  | nil => simp
  | cons k keys ih =>
    obtain ⟨hk, hkeys⟩ := List.nodup_cons.mp hkeys
    have hfirst : (l.filter fun a => f a ∈ k :: keys).filter (fun a => f a = k) = bucket f l k := by
      unfold bucket
      rw [List.filter_filter]
      refine List.filter_congr fun a _ => ?_
      by_cases ha : f a = k <;> simp [ha]
    have hrest : (l.filter fun a => f a ∈ k :: keys).filter (fun a => !decide (f a = k)) =
        l.filter fun a => f a ∈ keys := by
      rw [List.filter_filter]
      refine List.filter_congr fun a _ => ?_
      by_cases ha : f a = k <;> simp [ha, hk]
    have hsplit :=
      List.filter_append_perm (fun a => decide (f a = k)) (l.filter fun a => f a ∈ k :: keys)
    rw [hfirst, hrest] at hsplit
    exact ((ih hkeys).append_left _).trans hsplit

end Bucket

section Sorted

variable [LinearOrder β] {f : α → β}

/-- The bucket of the least key comes first. -/
theorem bucket_first {l : List α} {k : β} (hsorted : l.Pairwise fun a b => f a ≤ f b)
    (hk : ∀ a ∈ l, k ≤ f a) : bucket f l k ++ l.filter (fun a => k < f a) = l := by
  induction l with
  | nil => rfl
  | cons a l ih =>
    obtain ⟨ha, hl⟩ := List.pairwise_cons.mp hsorted
    have hrest := ih hl fun b hb => hk b (List.mem_cons_of_mem _ hb)
    unfold bucket at hrest ⊢
    rcases (hk a (List.mem_cons_self ..)).eq_or_lt with heq | hlt
    · have hnot : ¬k < f a := by
        rw [heq]
        exact lt_irrefl _
      rw [List.filter_cons_of_pos (by simpa using heq.symm),
        List.filter_cons_of_neg (by simpa using hnot), List.cons_append, hrest]
    · have hempty : l.filter (fun b => f b = k) = [] := by
        refine List.filter_eq_nil_iff.mpr fun b hb => ?_
        have hbk : k < f b := hlt.trans_le (ha b hb)
        simpa using hbk.ne'
      rw [hempty, List.nil_append] at hrest
      rw [List.filter_cons_of_neg (by simpa using hlt.ne'), hempty,
        List.filter_cons_of_pos (by simpa using hlt), hrest, List.nil_append]

/-- **The buckets of a sorted list make up the list.** -/
theorem flatten_buckets {l : List α} {keys : List β} (hsorted : l.Pairwise fun a b => f a ≤ f b)
    (hkeys : keys.Pairwise (· < ·)) (hall : ∀ a ∈ l, f a ∈ keys) :
    (keys.map (bucket f l)).flatten = l := by
  induction keys generalizing l with
  | nil =>
    have hempty : l = [] := List.eq_nil_iff_forall_not_mem.mpr fun a ha =>
      absurd (hall a ha) List.not_mem_nil
    rw [hempty]
    rfl
  | cons k keys ih =>
    obtain ⟨hk, hkeys⟩ := List.pairwise_cons.mp hkeys
    have hleast : ∀ a ∈ l, k ≤ f a := by
      intro a ha
      rcases List.mem_cons.mp (hall a ha) with heq | hmem
      · exact heq.ge
      · exact (hk _ hmem).le
    have hrest := @ih (l.filter fun a => k < f a) (hsorted.sublist List.filter_sublist) hkeys
      (by
        intro a ha
        obtain ⟨ha, hlt⟩ := List.mem_filter.mp ha
        have hlt : k < f a := by simpa using hlt
        rcases List.mem_cons.mp (hall a ha) with heq | hmem
        · exact absurd heq hlt.ne'
        · exact hmem)
    have hsame : ∀ k' ∈ keys, bucket f (l.filter fun a => k < f a) k' = bucket f l k' := by
      intro k' hk'
      unfold bucket
      rw [List.filter_filter]
      refine List.filter_congr fun a _ => ?_
      by_cases ha : f a = k'
      · simp [ha, hk k' hk']
      · simp [ha]
    rw [List.map_congr_left hsame] at hrest
    rw [List.map_cons, List.flatten_cons, hrest]
    exact bucket_first hsorted hleast

/-- The buckets of a finer key make up the bucket of a coarser one. -/
theorem flatten_buckets_coarse [DecidableEq γ] {g : α → γ} {l : List α} {keys : List β} {h : γ}
    (hsorted : l.Pairwise fun a b => f a ≤ f b) (hkeys : keys.Pairwise (· < ·))
    (hcoarse : ∀ a ∈ l, g a = h ↔ f a ∈ keys) :
    (keys.map (bucket f l)).flatten = bucket g l h := by
  have hsub : ∀ k ∈ keys, bucket f (bucket g l h) k = bucket f l k := fun k hk =>
    bucket_bucket f fun a ha heq => (hcoarse a ha).mpr (heq ▸ hk)
  rw [← List.map_congr_left hsub]
  refine flatten_buckets (hsorted.sublist List.filter_sublist) hkeys fun a ha => ?_
  obtain ⟨ha, heq⟩ := (mem_bucket g).mp ha
  exact (hcoarse a ha).mp heq

end Sorted

end ViabtcExchange
