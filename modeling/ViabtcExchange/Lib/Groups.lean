import Mathlib.Data.List.Pairwise
import Mathlib.Order.RelClasses
import Mathlib.Tactic

/-!
# A sorted list in groups

A list that is sorted by a key falls into groups of equal keys, one behind the other. `scan` makes
the first groups in one pass: it takes what follows the first element as long as it belongs to it.

* `Grouping` — groups that hold each element once, under its key, and in the order of the keys.
* `Grouping.unique` — a list has one grouping.
* `grouping_scan` — a pass that tells by a test of its own which elements belong to the first makes
  the first groups, if the test is right on the elements behind it.
-/

namespace ViabtcExchange

variable {α κ : Type} {lt : κ → κ → Prop} {f : α → κ} {l : List α}

/-- The groups of `l`, each under its key. -/
structure Grouping (lt : κ → κ → Prop) (f : α → κ) (l : List α) (gs : List (κ × List α)) : Prop where
  all : gs.flatMap Prod.snd = l
  nonempty : ∀ g ∈ gs, g.2 ≠ []
  key : ∀ g ∈ gs, ∀ a ∈ g.2, f a = g.1
  sorted : gs.Pairwise fun g g' => lt g.1 g'.1

/-- The first `limit` groups. `same k` tells whether an element belongs to the key `k`. -/
def scan (same : κ → α → Bool) (f : α → κ) : ℕ → List α → List (κ × List α)
  | 0, _ => []
  | _, [] => []
  | limit + 1, a :: l =>
    (f a, a :: l.takeWhile (same (f a))) :: scan same f limit (l.dropWhile (same (f a)))

namespace Grouping

variable {gs gs' : List (κ × List α)}

theorem mem_of_mem (h : Grouping lt f l gs) {g : κ × List α} (hg : g ∈ gs) {a : α} (ha : a ∈ g.2) :
    a ∈ l := by
  rw [← h.all]
  exact List.mem_flatMap.mpr ⟨g, hg, ha⟩

theorem tail {g : κ × List α} (h : Grouping lt f l (g :: gs)) :
    Grouping lt f (gs.flatMap Prod.snd) gs where
  all := rfl
  nonempty g' hg' := h.nonempty g' (List.mem_cons_of_mem _ hg')
  key g' hg' := h.key g' (List.mem_cons_of_mem _ hg')
  sorted := List.Pairwise.of_cons h.sorted

/-- The groups by another key that agrees with it on the list. -/
theorem congr {f' : α → κ} (h : Grouping lt f l gs) (hf : ∀ a ∈ l, f' a = f a) :
    Grouping lt f' l gs where
  all := h.all
  nonempty := h.nonempty
  key g hg a ha := (hf a (h.mem_of_mem hg ha)).trans (h.key g hg a ha)
  sorted := h.sorted

variable [IsStrictTotalOrder κ lt]

/-- A group is all that has its key. -/
theorem filter_eq [DecidableEq κ] (h : Grouping lt f l gs) {g : κ × List α} (hg : g ∈ gs) :
    l.filter (f · = g.1) = g.2 := by
  induction gs generalizing l with
  | nil => cases hg
  | cons g' gs ih =>
    have hall : l = g'.2 ++ gs.flatMap Prod.snd := h.all.symm
    rw [hall, List.filter_append]
    rcases List.mem_cons.mp hg with rfl | hg
    · have hrest : (gs.flatMap Prod.snd).filter (f · = g.1) = [] := by
        refine List.filter_eq_nil_iff.mpr fun a ha => ?_
        obtain ⟨g', hg', ha⟩ := List.mem_flatMap.mp ha
        rw [h.key g' (List.mem_cons_of_mem _ hg') a ha, decide_eq_true_eq]
        intro heq
        have hlt := List.rel_of_pairwise_cons h.sorted hg'
        rw [heq] at hlt
        exact irrefl_of lt _ hlt
      have hfirst : g.2.filter (f · = g.1) = g.2 :=
        List.filter_eq_self.mpr fun a ha => decide_eq_true (h.key g List.mem_cons_self a ha)
      rw [hrest, hfirst, List.append_nil]
    · have hfirst : g'.2.filter (f · = g.1) = [] := by
        refine List.filter_eq_nil_iff.mpr fun a ha => ?_
        rw [h.key g' List.mem_cons_self a ha, decide_eq_true_eq]
        intro heq
        have hlt := List.rel_of_pairwise_cons h.sorted hg
        rw [heq] at hlt
        exact irrefl_of lt _ hlt
      rw [hfirst, List.nil_append]
      exact ih h.tail hg

omit [IsStrictTotalOrder κ lt] in
/-- A key of the list has a group, and no other has. -/
theorem exists_iff (h : Grouping lt f l gs) (k : κ) : (∃ g ∈ gs, g.1 = k) ↔ ∃ a ∈ l, f a = k := by
  constructor
  · rintro ⟨g, hg, rfl⟩
    obtain ⟨a, ha⟩ := List.exists_mem_of_ne_nil _ (h.nonempty g hg)
    exact ⟨a, h.mem_of_mem hg ha, h.key g hg a ha⟩
  · rintro ⟨a, ha, rfl⟩
    rw [← h.all] at ha
    obtain ⟨g, hg, ha⟩ := List.mem_flatMap.mp ha
    exact ⟨g, hg, (h.key g hg a ha).symm⟩

/-- **A list has one grouping.** -/
theorem unique (h : Grouping lt f l gs) (h' : Grouping lt f l gs') : gs = gs' := by
  classical
  have hmem : ∀ {gs gs' : List (κ × List α)}, Grouping lt f l gs → Grouping lt f l gs' →
      ∀ g ∈ gs, g ∈ gs' := by
    intro gs gs' h h' g hg
    obtain ⟨g', hg', hkey⟩ := (h'.exists_iff g.1).mpr ((h.exists_iff g.1).mp ⟨g, hg, rfl⟩)
    have hitems : g'.2 = g.2 := by rw [← h'.filter_eq hg', ← h.filter_eq hg, hkey]
    rwa [Prod.ext hkey hitems] at hg'
  have hne : ∀ {gs : List (κ × List α)}, Grouping lt f l gs → gs.Nodup := by
    intro gs h
    refine List.Pairwise.imp (fun {g g'} hlt heq => ?_) h.sorted
    rw [heq] at hlt
    exact irrefl_of lt _ hlt
  have hperm : gs.Perm gs' := (List.perm_ext_iff_of_nodup (hne h) (hne h')).mpr fun g =>
    ⟨hmem h h' g, hmem h' h g⟩
  refine hperm.eq_of_pairwise (fun g g' _ _ hlt hlt' => ?_) h.sorted h'.sorted
  exact absurd (trans_of lt hlt hlt') (irrefl_of lt _)

end Grouping

theorem scan_nil (same : κ → α → Bool) (f : α → κ) (limit : ℕ) : scan same f limit [] = [] := by
  cases limit <;> rfl

/-- **One pass makes the first groups**, when no key comes after a greater one and the test is right
on what stands behind an element. -/
theorem grouping_scan [IsStrictTotalOrder κ lt] (same : κ → α → Bool)
    (h : l.Pairwise fun a b => ¬lt (f b) (f a) ∧ (same (f a) b = true ↔ f b = f a)) :
    ∃ gs, Grouping lt f l gs ∧ ∀ limit, scan same f limit l = gs.take limit := by
  induction hn : l.length using Nat.strong_induction_on generalizing l with
  | _ n ih =>
    cases l with
    | nil => exact ⟨[], ⟨rfl, by simp, by simp, List.Pairwise.nil⟩, fun limit => by simp [scan_nil]⟩
    | cons a l =>
      obtain ⟨hfirst, hrest⟩ := List.pairwise_cons.mp h
      have hsplit := List.takeWhile_append_dropWhile (p := same (f a)) (l := l)
      have hin : ∀ b ∈ l.dropWhile (same (f a)), b ∈ l := fun b hb =>
        (List.dropWhile_suffix _).subset hb
      obtain ⟨gs, hgs, htake⟩ := ih _ (by
        have hle := (List.dropWhile_sublist (same (f a)) (l := l)).length_le
        simp only [← hn, List.length_cons]
        omega) (hrest.sublist (List.dropWhile_sublist (same (f a)))) rfl
      -- the keys behind the first group are greater than its key
      have hgreater : ∀ b ∈ l.dropWhile (same (f a)), lt (f a) (f b) := by
        have hsorted := hrest.sublist (List.dropWhile_sublist (same (f a)))
        have hhead := List.head?_dropWhile_not (same (f a)) l
        cases hdrop : l.dropWhile (same (f a)) with
        | nil => simp
        | cons c rest =>
          rw [hdrop] at hsorted hhead hin
          have hc := hfirst c (hin c List.mem_cons_self)
          have hne : f c ≠ f a := fun heq => by
            have hsame := hc.2.mpr heq
            simp [hsame] at hhead
          have hlt : lt (f a) (f c) :=
            (trichotomous_of lt (f a) (f c)).resolve_right fun h => h.elim (hne ·.symm) hc.1
          intro b hb
          rcases List.mem_cons.mp hb with rfl | hb
          · exact hlt
          · have hcb := (List.rel_of_pairwise_cons hsorted hb).1
            rcases trichotomous_of lt (f c) (f b) with h | h | h
            · exact trans_of lt hlt h
            · exact h ▸ hlt
            · exact absurd h hcb
      refine ⟨(f a, a :: l.takeWhile (same (f a))) :: gs, ⟨?_, ?_, ?_, ?_⟩, fun limit => ?_⟩
      · rw [List.flatMap_cons, hgs.all, List.cons_append, hsplit]
      · exact List.forall_mem_cons.mpr ⟨by simp, hgs.nonempty⟩
      · refine List.forall_mem_cons.mpr ⟨fun b hb => ?_, hgs.key⟩
        rcases List.mem_cons.mp hb with rfl | hb
        · rfl
        · have hmem := (List.takeWhile_prefix (same (f a))).subset hb
          exact (hfirst b hmem).2.mp (List.all_eq_true.mp List.all_takeWhile b hb)
      · refine List.pairwise_cons.mpr ⟨fun g hg => ?_, hgs.sorted⟩
        obtain ⟨b, hb⟩ := List.exists_mem_of_ne_nil _ (hgs.nonempty g hg)
        exact hgs.key g hg b hb ▸ hgreater b (hgs.mem_of_mem hg hb)
      · cases limit with
        | zero => rfl
        | succ limit => rw [scan, htake, List.take_succ_cons]

end ViabtcExchange
