import Mathlib.Algebra.Order.Group.MinMax
import Mathlib.Algebra.BigOperators.Group.List.Basic
import Mathlib.Data.List.Sort
import Mathlib.Tactic

/-!
# Meeting a demand from a list of offers

`greedy a l` takes from the offers of `l`, one after the other and from each as much as it can,
until `a` is met. What it takes:

* `greedy_initial` — from the first offers, none skipped;
* `greedy_dropLast` — all of every offer it takes from, but for the last;
* `greedy_min` — from an offer, the smaller of what it holds and what is still missing;
* `sum_greedy` — in all, the smaller of the demand and what is offered.
-/

namespace ViabtcExchange

variable {ι R : Type} [AddCommGroup R]

/-- What a list of offers, or of takings, comes to. -/
def total (l : List (ι × R)) : R := (l.map Prod.snd).sum

@[simp] theorem total_nil : total ([] : List (ι × R)) = 0 := rfl

@[simp] theorem total_cons (p : ι × R) (l : List (ι × R)) : total (p :: l) = p.2 + total l := by
  simp [total]

@[simp] theorem total_append (l l' : List (ι × R)) : total (l ++ l') = total l + total l' := by
  simp [total]

variable [LinearOrder R]

/-- Take from the offers until the demand is met. -/
def greedy (a : R) : List (ι × R) → List (ι × R)
  | [] => []
  | (i, x) :: l => if a = 0 then [] else (i, min a x) :: greedy (a - min a x) l

@[simp] theorem greedy_nil (a : R) : greedy a ([] : List (ι × R)) = [] := rfl

@[simp] theorem greedy_zero (l : List (ι × R)) : greedy 0 l = [] := by
  cases l with
  | nil => rfl
  | cons p l => exact if_pos rfl

theorem greedy_cons {a : R} (h : a ≠ 0) (p : ι × R) (l : List (ι × R)) :
    greedy a (p :: l) = (p.1, min a p.2) :: greedy (a - min a p.2) l := if_neg h

theorem greedy_initial (a : R) (l : List (ι × R)) :
    (greedy a l).map Prod.fst <+: l.map Prod.fst := by
  induction l generalizing a with
  | nil => exact List.prefix_rfl
  | cons p l ih =>
    by_cases h : a = 0
    · rw [h, greedy_zero]
      exact List.nil_prefix
    · rw [greedy_cons h, List.map_cons, List.map_cons, List.prefix_cons_inj]
      exact ih _

/-- Where something is still missing after an offer, the offer was taken whole. -/
theorem greedy_dropLast (a : R) (l : List (ι × R)) : (greedy a l).dropLast <+: l := by
  induction l generalizing a with
  | nil => exact List.prefix_rfl
  | cons p l ih =>
    by_cases h : a = 0
    · rw [h, greedy_zero]
      exact List.nil_prefix
    · rw [greedy_cons h]
      cases hrest : greedy (a - min a p.2) l with
      | nil => exact List.nil_prefix
      | cons q qs =>
        have hmin : min a p.2 = p.2 := by
          by_contra hne
          have ha : min a p.2 = a := (min_choice a p.2).resolve_right hne
          rw [ha, sub_self, greedy_zero] at hrest
          cases hrest
        rw [List.dropLast_cons_of_ne_nil (List.cons_ne_nil q qs), hmin, List.prefix_cons_inj,
          ← hrest]
        exact ih _

/-- What is taken from an offer: all it holds, or what is missing when its turn comes. -/
theorem greedy_min {a : R} {l pre post : List (ι × R)} {p : ι × R}
    (h : greedy a l = pre ++ p :: post) :
    ∃ x, (p.1, x) ∈ l ∧ p.2 = min (a - total pre) x := by
  induction l generalizing a pre with
  | nil => simp at h
  | cons q l ih =>
    by_cases ha : a = 0
    · simp [ha] at h
    · rw [greedy_cons ha] at h
      cases pre with
      | nil =>
        obtain ⟨rfl, -⟩ := List.cons.inj h
        exact ⟨q.2, List.mem_cons_self, by simp⟩
      | cons r pre =>
        obtain ⟨rfl, hrest⟩ := List.cons.inj h
        obtain ⟨x, hx, hmin⟩ := ih hrest
        refine ⟨x, List.mem_cons_of_mem _ hx, hmin.trans ?_⟩
        rw [total_cons, sub_sub]

variable [IsOrderedAddMonoid R]

theorem sum_greedy {a : R} {l : List (ι × R)} (ha : 0 ≤ a) (hl : ∀ p ∈ l, 0 ≤ p.2) :
    total (greedy a l) = min a (total l) := by
  induction l generalizing a with
  | nil => simp [ha]
  | cons p l ih =>
    obtain ⟨hp, hl⟩ := List.forall_mem_cons.mp hl
    have hrest : 0 ≤ total l := List.sum_nonneg fun x hx => by
      obtain ⟨q, hq, rfl⟩ := List.mem_map.mp hx
      exact hl q hq
    rcases ha.eq_or_lt with rfl | hpos
    · rw [greedy_zero, total_nil, total_cons, min_eq_left (add_nonneg hp hrest)]
    · rw [greedy_cons hpos.ne', total_cons, total_cons, ih (sub_nonneg.mpr (min_le_left _ _)) hl]
      rcases le_total a p.2 with hle | hle
      · rw [min_eq_left hle, sub_self, min_eq_left hrest, add_zero,
          min_eq_left (hle.trans (le_add_of_nonneg_right hrest))]
      · rw [min_eq_right hle, ← min_add_add_left, add_sub_cancel]

/-- As long as the demand is not met, no offer is passed over. -/
theorem greedy_all {a : R} {l : List (ι × R)} (ha : 0 ≤ a) (hl : ∀ p ∈ l, 0 ≤ p.2)
    (h : total (greedy a l) < a) : greedy a l = l := by
  induction l generalizing a with
  | nil => rfl
  | cons p l ih =>
    obtain ⟨hp, hl⟩ := List.forall_mem_cons.mp hl
    rcases ha.eq_or_lt with rfl | hpos
    · simp at h
    · rw [greedy_cons hpos.ne', total_cons] at h
      have hmin : min a p.2 = p.2 := by
        by_contra hne
        have hall : min a p.2 = a := (min_choice a p.2).resolve_right hne
        simp [hall] at h
      rw [greedy_cons hpos.ne', hmin]
      rw [hmin] at h
      rw [ih (sub_nonneg.mpr (hmin ▸ min_le_left a p.2)) hl (lt_sub_iff_add_lt'.mpr h)]

/-! ## Offers in order -/

/-- In an ordered list, the values below a threshold come first. -/
theorem filter_prefix {α : Type} {r : α → α → Prop} {p : α → Bool} {l : List α}
    (h : l.Pairwise r) (hp : ∀ x ∈ l, ∀ y ∈ l, r x y → p y = true → p x = true) :
    l.filter p <+: l := by
  induction l with
  | nil => exact List.prefix_rfl
  | cons x l ih =>
    obtain ⟨hx, hl⟩ := List.pairwise_cons.mp h
    have hrest := ih hl fun y hy z hz =>
      hp y (List.mem_cons_of_mem x hy) z (List.mem_cons_of_mem x hz)
    by_cases hpx : p x = true
    · rw [List.filter_cons_of_pos hpx, List.prefix_cons_inj]
      exact hrest
    · have hnone : (x :: l).filter p = [] := by
        refine List.filter_eq_nil_iff.mpr fun y hy hpy => ?_
        rcases List.mem_cons.mp hy with rfl | hmem
        · exact hpx hpy
        · exact hpx (hp x List.mem_cons_self y hy (hx y hmem) hpy)
      rw [hnone]
      exact List.nil_prefix

end ViabtcExchange
