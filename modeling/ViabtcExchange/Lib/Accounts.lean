import Mathlib.Algebra.Order.Group.Defs
import Mathlib.Algebra.BigOperators.Group.Finset.Basic
import Mathlib.Algebra.BigOperators.Group.Finset.Piecewise
import Mathlib.Tactic

/-!
# Accounts and postings

A ledger seen from above: every account holds an amount, a posting adds to one account, and a
list of postings is covered when none of them takes its account below zero. Accounts may be kept
to a limited precision: `r k` is what account `k` makes of an amount before it is stored.

* `postAll_apply` — an account that stores its amounts as they are holds, after a list of
  postings, what it held plus what was posted to it; so does the total over a set of such
  accounts, `sum_postAll`.
* `covers_append` — coverage composes along the list, so it can be proved one group of postings
  at a time; by `covers_filter`, also for two classes of accounts apart.
* `sum_postAll_le` — where storing only ever drops something, covered postings leave no more in
  the accounts than they post.
* `keeps_of_bound` — covered postings are exact when no account can outgrow its bound.
-/

namespace ViabtcExchange

variable {A R : Type} [DecidableEq A] [AddCommGroup R]

/-- Add to one account. -/
def post (r : A → R → R) (b : A → R) (p : A × R) : A → R :=
  Function.update b p.1 (r p.1 (b p.1 + p.2))

/-- Add to one account after the other. -/
def postAll (r : A → R → R) (b : A → R) (ps : List (A × R)) : A → R := ps.foldl (post r) b

/-- What a list of postings adds to one account. -/
def posted (ps : List (A × R)) (k : A) : R :=
  (ps.map fun p => if p.1 = k then p.2 else 0).sum

section Posted

@[simp] theorem posted_nil (k : A) : posted ([] : List (A × R)) k = 0 := rfl

@[simp] theorem posted_cons (p : A × R) (ps : List (A × R)) (k : A) :
    posted (p :: ps) k = (if p.1 = k then p.2 else 0) + posted ps k := by
  simp [posted]

@[simp] theorem posted_append (ps qs : List (A × R)) (k : A) :
    posted (ps ++ qs) k = posted ps k + posted qs k := by
  simp [posted]

end Posted

section PostAll

variable (r : A → R → R) (b : A → R)

@[simp] theorem postAll_nil : postAll r b [] = b := rfl

@[simp] theorem postAll_cons (p : A × R) (ps : List (A × R)) :
    postAll r b (p :: ps) = postAll r (post r b p) ps := rfl

theorem postAll_append (ps qs : List (A × R)) :
    postAll r b (ps ++ qs) = postAll r (postAll r b ps) qs := List.foldl_append

theorem post_self (p : A × R) : post r b p p.1 = r p.1 (b p.1 + p.2) := Function.update_self _ _ _

theorem post_of_ne {p : A × R} {k : A} (h : p.1 ≠ k) : post r b p k = b k :=
  Function.update_of_ne (Ne.symm h) _ _

/-- Postings elsewhere leave an account alone. -/
theorem postAll_of_ne {ps : List (A × R)} {k : A} (h : ∀ p ∈ ps, p.1 ≠ k) :
    postAll r b ps k = b k := by
  induction ps generalizing b with
  | nil => rfl
  | cons p ps ih =>
    obtain ⟨hp, hps⟩ := List.forall_mem_cons.mp h
    rw [postAll_cons, ih _ hps, post_of_ne r b hp]

/-- Postings to other accounts may be left out. -/
theorem postAll_filter {P : A → Bool} {k : A} (hk : P k = true) (ps : List (A × R)) :
    postAll r b ps k = postAll r b (ps.filter fun p => P p.1) k := by
  have hcongr : ∀ (ps : List (A × R)) (b b' : A → R), (∀ j, P j = true → b j = b' j) →
      postAll r b ps k = postAll r b' (ps.filter fun p => P p.1) k := by
    intro ps
    induction ps with
    | nil => exact fun b b' h => h k hk
    | cons p ps ih =>
      intro b b' h
      cases hp : P p.1 with
      | true =>
        rw [List.filter_cons_of_pos (by simpa using hp)]
        refine ih _ _ fun j hj => ?_
        rw [post, post, Function.update_apply, Function.update_apply, h p.1 hp, h j hj]
      | false =>
        rw [List.filter_cons_of_neg (by simp [hp])]
        refine ih _ _ fun j hj => ?_
        rw [post_of_ne r b fun hpj : p.1 = j => by simp [hpj, hj] at hp, h j hj]
  exact hcongr ps b b fun _ _ => rfl

end PostAll

/-! ## Exact postings -/

section Keeps

variable {r : A → R → R} {b : A → R}

/-- Every account stores what it is to hold as it is. -/
def Keeps (r : A → R → R) (b : A → R) : List (A × R) → Prop
  | [] => True
  | p :: ps => r p.1 (b p.1 + p.2) = b p.1 + p.2 ∧ Keeps r (post r b p) ps

theorem postAll_apply {ps : List (A × R)} (h : Keeps r b ps) (k : A) :
    postAll r b ps k = b k + posted ps k := by
  induction ps generalizing b with
  | nil => simp
  | cons p ps ih =>
    rw [postAll_cons, ih h.2, posted_cons, ← add_assoc]
    congr 1
    split_ifs with hk
    · rw [← hk, post_self, h.1]
    · rw [post_of_ne r b hk, add_zero]

theorem keeps_append (b : A → R) (ps qs : List (A × R)) :
    Keeps r b (ps ++ qs) ↔ Keeps r b ps ∧ Keeps r (postAll r b ps) qs := by
  induction ps generalizing b with
  | nil => simp [Keeps]
  | cons p ps ih => simp only [List.cons_append, Keeps, ih, postAll_cons, and_assoc]

/-- The total over a set of accounts moves by what is posted inside the set. -/
theorem sum_postAll {ps : List (A × R)} (h : Keeps r b ps) (S : Finset A) :
    ∑ k ∈ S, postAll r b ps k =
      ∑ k ∈ S, b k + (ps.map fun p => if p.1 ∈ S then p.2 else 0).sum := by
  rw [Finset.sum_congr rfl fun k _ => postAll_apply h k, Finset.sum_add_distrib]
  congr 1
  clear h
  induction ps with
  | nil => simp
  | cons p ps ih =>
    simp only [posted_cons, Finset.sum_add_distrib, Finset.sum_ite_eq, ih, List.map_cons,
      List.sum_cons]

end Keeps

/-! ## Coverage -/

section Covers

variable [LinearOrder R] {r : A → R → R}

/-- No posting takes its account below zero. -/
def Covers (r : A → R → R) (b : A → R) : List (A × R) → Prop
  | [] => True
  | p :: ps => 0 ≤ b p.1 + p.2 ∧ Covers r (post r b p) ps

@[simp] theorem covers_nil (b : A → R) : Covers r b [] := trivial

@[simp] theorem covers_cons (b : A → R) (p : A × R) (ps : List (A × R)) :
    Covers r b (p :: ps) ↔ 0 ≤ b p.1 + p.2 ∧ Covers r (post r b p) ps := Iff.rfl

theorem covers_append (b : A → R) (ps qs : List (A × R)) :
    Covers r b (ps ++ qs) ↔ Covers r b ps ∧ Covers r (postAll r b ps) qs := by
  induction ps generalizing b with
  | nil => simp
  | cons p ps ih => simp only [List.cons_append, covers_cons, ih, postAll_cons, and_assoc]

/-- Coverage looks at the accounts posted to only. -/
theorem covers_congr {b b' : A → R} {ps : List (A × R)} (h : ∀ p ∈ ps, b p.1 = b' p.1) :
    Covers r b ps ↔ Covers r b' ps := by
  induction ps generalizing b b' with
  | nil => simp
  | cons p ps ih =>
    obtain ⟨hp, hps⟩ := List.forall_mem_cons.mp h
    rw [covers_cons, covers_cons, hp]
    refine and_congr_right fun _ => ih fun q hq => ?_
    unfold post
    rw [hp, Function.update_apply, Function.update_apply, hps q hq]

/-- Postings to two classes of accounts do not meet. -/
theorem covers_filter (P : A → Bool) (b : A → R) (ps : List (A × R)) :
    Covers r b ps ↔
      Covers r b (ps.filter fun p => P p.1) ∧ Covers r b (ps.filter fun p => !P p.1) := by
  induction ps generalizing b with
  | nil => simp
  | cons p ps ih =>
    have hother : ∀ (Q : A → Bool), Q p.1 = false →
        (Covers r (post r b p) (ps.filter fun q => Q q.1) ↔
          Covers r b (ps.filter fun q => Q q.1)) := fun Q hQ =>
      covers_congr fun q hq => post_of_ne r b fun h => by
        have hq' := (List.mem_filter.mp hq).2
        rw [← h, hQ] at hq'
        cases hq'
    rw [covers_cons, ih]
    cases hP : P p.1 with
    | true =>
      simp only [List.filter_cons, hP, Bool.not_true, if_true, Bool.false_eq_true, if_false,
        covers_cons, hother (fun k => !P k) (by simp [hP]), and_assoc]
    | false =>
      simp only [List.filter_cons, hP, Bool.not_false, if_true, Bool.false_eq_true, if_false,
        covers_cons, hother P hP]
      tauto

/-- Coverage of a class of accounts, along a list in two parts. -/
theorem covers_filter_append (P : A → Bool) (b : A → R) (ps qs : List (A × R)) :
    Covers r b ((ps ++ qs).filter fun p => P p.1) ↔
      Covers r b (ps.filter fun p => P p.1) ∧
        Covers r (postAll r b ps) (qs.filter fun p => P p.1) := by
  rw [List.filter_append, covers_append]
  refine and_congr_right fun _ => covers_congr fun q hq => ?_
  exact (postAll_filter r b (List.mem_filter.mp hq).2 ps).symm

/-- Storing a non-negative amount drops a part of it at most. -/
def Drops (r : A → R → R) : Prop := ∀ k x, 0 ≤ x → 0 ≤ r k x ∧ r k x ≤ x

theorem postAll_nonneg (hr : Drops r) {b : A → R} {ps : List (A × R)} (h : Covers r b ps) {k : A}
    (hk : 0 ≤ b k) : 0 ≤ postAll r b ps k := by
  induction ps generalizing b with
  | nil => exact hk
  | cons p ps ih =>
    refine ih h.2 ?_
    rw [post, Function.update_apply]
    split_ifs with hkp
    · exact (hr _ _ h.1).1
    · exact hk

/-- What a list of postings adds to an account, not counting what it takes out. -/
def gained (ps : List (A × R)) (k : A) : R := (ps.map fun p => if p.1 = k then max p.2 0 else 0).sum

@[simp] theorem gained_nil (k : A) : gained ([] : List (A × R)) k = 0 := rfl

@[simp] theorem gained_cons (p : A × R) (ps : List (A × R)) (k : A) :
    gained (p :: ps) k = (if p.1 = k then max p.2 0 else 0) + gained ps k := by
  simp [gained]

@[simp] theorem gained_append (ps qs : List (A × R)) (k : A) :
    gained (ps ++ qs) k = gained ps k + gained qs k := by
  simp [gained]

variable [IsOrderedAddMonoid R]

theorem sum_postAll_le (hr : Drops r) {b : A → R} {ps : List (A × R)} (h : Covers r b ps)
    (S : Finset A) :
    ∑ k ∈ S, postAll r b ps k ≤
      ∑ k ∈ S, b k + (ps.map fun p => if p.1 ∈ S then p.2 else 0).sum := by
  induction ps generalizing b with
  | nil => simp
  | cons p ps ih =>
    have hpost : ∑ k ∈ S, post r b p k ≤ ∑ k ∈ S, b k + if p.1 ∈ S then p.2 else 0 := by
      have hle : ∀ k ∈ S, post r b p k ≤ b k + if p.1 = k then p.2 else 0 := fun k _ => by
        split_ifs with hk
        · rw [← hk, post_self]
          exact (hr _ _ h.1).2
        · rw [post_of_ne r b hk, add_zero]
      refine (Finset.sum_le_sum hle).trans_eq ?_
      rw [Finset.sum_add_distrib, Finset.sum_ite_eq]
    rw [postAll_cons, List.map_cons, List.sum_cons, ← add_assoc]
    exact (ih h.2).trans (add_le_add_left hpost _)

theorem gained_nonneg (ps : List (A × R)) (k : A) : 0 ≤ gained ps k := by
  refine List.sum_nonneg fun x hx => ?_
  obtain ⟨p, -, rfl⟩ := List.mem_map.mp hx
  split_ifs
  · exact le_max_right _ _
  · exact le_rfl

/-- Covered postings are exact, when every account stores the amounts of a set closed under
addition as they are, up to a bound it cannot reach. -/
theorem keeps_of_bound {G : A → R → Prop} {B : A → R} {b : A → R} {ps : List (A × R)}
    (hadd : ∀ k x y, G k x → G k y → G k (x + y))
    (hfix : ∀ k x, G k x → 0 ≤ x → x ≤ B k → r k x = x) (hb : ∀ k, G k (b k))
    (hps : ∀ p ∈ ps, G p.1 p.2) (hcov : Covers r b ps)
    (hbound : ∀ p ∈ ps, b p.1 + gained ps p.1 ≤ B p.1) :
    Keeps r b ps := by
  induction ps generalizing b with
  | nil => trivial
  | cons p ps ih =>
    obtain ⟨hp, hps⟩ := List.forall_mem_cons.mp hps
    have hfirst : b p.1 + max p.2 0 + gained ps p.1 ≤ B p.1 := by
      have h := hbound p List.mem_cons_self
      rwa [gained_cons, if_pos rfl, ← add_assoc] at h
    have hsum : G p.1 (b p.1 + p.2) := hadd _ _ _ (hb _) hp
    have hle : b p.1 + p.2 ≤ b p.1 + max p.2 0 := add_le_add_right (le_max_left _ _) _
    have hkeep : r p.1 (b p.1 + p.2) = b p.1 + p.2 :=
      hfix _ _ hsum hcov.1 (hle.trans ((le_add_of_nonneg_right (gained_nonneg ps _)).trans hfirst))
    refine ⟨hkeep, ih (fun k => ?_) hps hcov.2 fun q hq => ?_⟩
    · rw [post, Function.update_apply]
      split_ifs with hk
      · rw [hk, hkeep]
        exact hsum
      · exact hb k
    · have h := hbound q (List.mem_cons_of_mem p hq)
      rw [gained_cons] at h
      rw [post, Function.update_apply]
      split_ifs with hk
      · rw [hkeep, hk]
        exact (add_le_add_left hle _).trans hfirst
      · rwa [if_neg (Ne.symm hk), zero_add] at h

end Covers

end ViabtcExchange
