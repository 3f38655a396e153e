import Mathlib.Data.List.Sort
import Mathlib.Tactic

/-!
# Ordered chains

A chain kept in order by a three-way comparison, the way a skiplist keeps its bottom level:
insertion walks past everything not above the new value, refuses an equal one, and links the
value in; a search walks the same way and looks at the last value passed; a deletion walks to
the first value not below its victim and unlinks it if it is the victim itself.

The comparison need only be sensible on the values that meet (`Lawful`): there it has to
compare keys in a linear order. Then, on a strictly ordered chain, insertion keeps the order
(`chainInsert_eq`), a search finds exactly what is there (`chainFind_of_mem`), and deletion
removes exactly its victim (`chainDelete_eq_erase`).
-/

namespace ViabtcExchange

variable {α κ : Type} [LinearOrder κ]

/-- Link `v` in, unless an equal value is there. -/
def chainInsert (cmp : α → α → Int) (l : List α) (v : α) : Option (List α) :=
  let before := l.takeWhile fun x => cmp x v ≤ 0
  let after := l.dropWhile fun x => cmp x v ≤ 0
  match before.getLast? with
  | some x => if cmp x v = 0 then none else some (before ++ v :: after)
  | none => some (v :: after)

/-- The value equal to `v`, if the chain holds one. -/
def chainFind (cmp : α → α → Int) (l : List α) (v : α) : Option α :=
  match (l.takeWhile fun x => cmp x v ≤ 0).getLast? with
  | some x => if cmp x v = 0 then some x else none
  | none => none

/-- Unlink `v`. -/
def chainDelete [DecidableEq α] (cmp : α → α → Int) (l : List α) (v : α) : List α :=
  match l.dropWhile fun x => cmp x v < 0 with
  | y :: after => if y = v then (l.takeWhile fun x => cmp x v < 0) ++ after else l
  | [] => l

/-- On the values of `S`, the comparison is that of the keys. -/
def Lawful (cmp : α → α → Int) (k : α → κ) (S : List α) : Prop :=
  ∀ x ∈ S, ∀ y ∈ S, (cmp x y < 0 ↔ k x < k y) ∧ (cmp x y = 0 ↔ k x = k y)

/-- The keys strictly increase along the chain. -/
def Ordered (k : α → κ) (l : List α) : Prop := l.Pairwise fun x y => k x < k y

namespace Lawful

variable {cmp : α → α → Int} {k : α → κ} {S T : List α}

theorem mono (h : Lawful cmp k S) (hT : ∀ x ∈ T, x ∈ S) : Lawful cmp k T :=
  fun x hx y hy => h x (hT x hx) y (hT y hy)

theorem le_iff (h : Lawful cmp k S) {x y : α} (hx : x ∈ S) (hy : y ∈ S) :
    cmp x y ≤ 0 ↔ k x ≤ k y := by
  obtain ⟨hlt, heq⟩ := h x hx y hy
  rw [le_iff_lt_or_eq, hlt, heq, le_iff_lt_or_eq]

end Lawful

/-! ## Splitting a chain at a key -/

theorem takeWhile_split {p : α → Bool} {a b : List α} (ha : ∀ x ∈ a, p x = true)
    (hb : ∀ x ∈ b, p x = false) : (a ++ b).takeWhile p = a := by
  rw [List.takeWhile_append_of_pos ha]
  cases b with
  | nil => simp
  | cons x b => simp [hb x List.mem_cons_self]

theorem dropWhile_split {p : α → Bool} {a b : List α} (ha : ∀ x ∈ a, p x = true)
    (hb : ∀ x ∈ b, p x = false) : (a ++ b).dropWhile p = b := by
  rw [List.dropWhile_append_of_pos ha]
  cases b with
  | nil => simp
  | cons x b => simp [hb x List.mem_cons_self]

namespace Ordered

variable {k : α → κ} {l : List α}

theorem nodup (h : Ordered k l) : l.Nodup :=
  List.Pairwise.imp (fun hlt heq => absurd (heq ▸ hlt) (lt_irrefl _)) h

theorem congr {k' : α → κ} (h : Ordered k l) (hk : ∀ x ∈ l, k' x = k x) : Ordered k' l :=
  List.Pairwise.imp_of_mem (fun hx hy hlt => by rwa [hk _ hx, hk _ hy]) h

/-- An ordered chain is known by its members. -/
theorem ext {l' : List α} (h : Ordered k l) (h' : Ordered k l') (hmem : ∀ x, x ∈ l ↔ x ∈ l') :
    l = l' := by
  have hperm : l.Perm l' := (List.perm_ext_iff_of_nodup h.nodup h'.nodup).mpr hmem
  exact hperm.eq_of_pairwise (fun _ _ _ _ hlt hgt => absurd hlt hgt.asymm) h h'

/-- An ordered chain splits at any key into what lies below and what does not. -/
theorem split (h : Ordered k l) (c : κ) :
    ∃ a b, l = a ++ b ∧ (∀ x ∈ a, k x < c) ∧ ∀ x ∈ b, c ≤ k x := by
  induction l with
  | nil => exact ⟨[], [], rfl, by simp, by simp⟩
  | cons x l ih =>
    obtain ⟨hx, hl⟩ := List.pairwise_cons.mp h
    rcases lt_or_ge (k x) c with hlt | hge
    · obtain ⟨a, b, rfl, ha, hb⟩ := ih hl
      exact ⟨x :: a, b, rfl, List.forall_mem_cons.mpr ⟨hlt, ha⟩, hb⟩
    · exact ⟨[], x :: l, rfl, by simp,
        List.forall_mem_cons.mpr ⟨hge, fun y hy => hge.trans (hx y hy).le⟩⟩

/-- Around one of its values, a chain is strictly below and strictly above. -/
theorem split_mem {v : α} (h : Ordered k l) (hv : v ∈ l) :
    ∃ a b, l = a ++ v :: b ∧ (∀ x ∈ a, k x < k v) ∧ ∀ x ∈ b, k v < k x := by
  obtain ⟨a, b, rfl⟩ := List.append_of_mem hv
  obtain ⟨-, hb, hab⟩ := List.pairwise_append.mp h
  exact ⟨a, b, rfl, fun x hx => hab x hx v List.mem_cons_self, (List.pairwise_cons.mp hb).1⟩

end Ordered

/-! ## The three operations on an ordered chain -/

section Operations

variable {cmp : α → α → Int} {k : α → κ} {l : List α} {v : α}

/-- Insertion of a value whose key is new succeeds and keeps the order. -/
theorem chainInsert_eq (hl : Ordered k l) (hcmp : Lawful cmp k (v :: l))
    (hv : ∀ x ∈ l, k x ≠ k v) :
    ∃ l', chainInsert cmp l v = some l' ∧ l'.Perm (v :: l) ∧ Ordered k l' := by
  obtain ⟨a, b, rfl, ha, hb⟩ := hl.split (k v)
  have hb' : ∀ x ∈ b, k v < k x := fun x hx =>
    lt_of_le_of_ne (hb x hx) (hv x (List.mem_append_right a hx)).symm
  have hle : ∀ x ∈ a ++ b, cmp x v ≤ 0 ↔ k x ≤ k v := fun x hx =>
    hcmp.le_iff (List.mem_cons_of_mem v hx) List.mem_cons_self
  have hpa : ∀ x ∈ a, decide (cmp x v ≤ 0) = true := fun x hx =>
    decide_eq_true ((hle x (List.mem_append_left b hx)).mpr (ha x hx).le)
  have hpb : ∀ x ∈ b, decide (cmp x v ≤ 0) = false := fun x hx =>
    decide_eq_false fun h => absurd (hb' x hx)
      (((hle x (List.mem_append_right a hx)).mp h).not_gt)
  refine ⟨a ++ v :: b, ?_, List.perm_middle, ?_⟩
  · unfold chainInsert
    rw [takeWhile_split hpa hpb, dropWhile_split hpa hpb]
    cases hlast : a.getLast? with
    | none => simp [List.getLast?_eq_none_iff.mp hlast]
    | some x =>
      have hx : x ∈ a := List.mem_of_getLast? hlast
      have hne : cmp x v ≠ 0 := fun h =>
        (ha x hx).ne ((hcmp x (by simp [hx]) v List.mem_cons_self).2.mp h)
      simp [hlast, hne]
  · obtain ⟨hoa, hob, hab⟩ := List.pairwise_append.mp hl
    refine List.pairwise_append.mpr ⟨hoa, List.pairwise_cons.mpr ⟨hb', hob⟩, fun x hx y hy => ?_⟩
    rcases List.mem_cons.mp hy with rfl | hy
    · exact ha x hx
    · exact hab x hx y hy

/-- A search finds a value that is there. -/
theorem chainFind_of_mem (hl : Ordered k l) (hcmp : Lawful cmp k l) (hv : v ∈ l) :
    chainFind cmp l v = some v := by
  obtain ⟨a, b, rfl, ha, hb⟩ := hl.split_mem hv
  have hle : ∀ x ∈ a ++ v :: b, cmp x v ≤ 0 ↔ k x ≤ k v := fun x hx => hcmp.le_iff hx hv
  have htake : (a ++ v :: b).takeWhile (fun x => cmp x v ≤ 0) = a ++ [v] := by
    rw [show a ++ v :: b = (a ++ [v]) ++ b by simp]
    refine takeWhile_split (fun x hx => decide_eq_true ?_) fun x hx => decide_eq_false fun h => ?_
    · rcases List.mem_append.mp hx with hx | hx
      · exact (hle x (by simp [hx])).mpr (ha x hx).le
      · rw [List.mem_singleton.mp hx]
        exact (hle v hv).mpr le_rfl
    · exact absurd (hb x hx) (((hle x (by simp [hx])).mp h).not_gt)
  have hself : cmp v v = 0 := ((hcmp v hv v hv).2).mpr rfl
  simp [chainFind, htake, hself]

/-- A search for a value unlike all others finds nothing. -/
theorem chainFind_eq_none (h : ∀ x ∈ l, cmp x v ≠ 0) : chainFind cmp l v = none := by
  unfold chainFind
  cases hlast : (l.takeWhile fun x => cmp x v ≤ 0).getLast? with
  | none => rfl
  | some x =>
    have hx : x ∈ l := (List.takeWhile_sublist _).subset (List.mem_of_getLast? hlast)
    simp [h x hx]

/-- Deletion unlinks its victim and nothing else. -/
theorem chainDelete_eq_erase [DecidableEq α] (hl : Ordered k l) (hcmp : Lawful cmp k l)
    (hv : v ∈ l) : chainDelete cmp l v = l.erase v := by
  obtain ⟨a, b, rfl, ha, hb⟩ := hl.split_mem hv
  have hva : v ∉ a := fun h => (ha v h).false
  have hlt : ∀ x ∈ a ++ v :: b, cmp x v < 0 ↔ k x < k v := fun x hx => (hcmp x hx v hv).1
  have hpa : ∀ x ∈ a, decide (cmp x v < 0) = true := fun x hx =>
    decide_eq_true ((hlt x (by simp [hx])).mpr (ha x hx))
  have hpb : ∀ x ∈ v :: b, decide (cmp x v < 0) = false := by
    intro x hx
    refine decide_eq_false fun h => ?_
    have hkx : k x < k v := (hlt x (List.mem_append_right a hx)).mp h
    rcases List.mem_cons.mp hx with rfl | hx
    · exact hkx.false
    · exact (hb x hx).not_gt hkx
  unfold chainDelete
  rw [dropWhile_split hpa hpb, takeWhile_split hpa hpb, List.erase_append_right _ hva]
  simp

end Operations

end ViabtcExchange
