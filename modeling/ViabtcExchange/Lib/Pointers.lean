import Mathlib.Data.List.Nodup
import Mathlib.Tactic

/-!
# Chains of pointers

Nodes stand at addresses, and each points to the one behind it. A chain is the list of the addresses
in their order: `nextIn` is the pointer that a node of it has, and a memory holds the chain if every
node of it has that pointer (`Linked`).

To insert behind a node and to unlink one change one pointer (`nextIn_insert`,
`nextIn_erase`). A loop that follows the pointers while a test holds ends at the last node
that passes it (`walk_spec`).
-/

namespace ViabtcExchange

/-- The address behind `a`. -/
def nextIn : List ℕ → ℕ → Option ℕ
  | [], _ => none
  | b :: rest, a => if b = a then rest.head? else nextIn rest a

section Neighbours

variable {l front rest : List ℕ} {a b p x : ℕ}

@[simp] theorem nextIn_cons_self (a : ℕ) (l : List ℕ) : nextIn (a :: l) a = l.head? := if_pos rfl

theorem nextIn_cons_ne (h : b ≠ a) (l : List ℕ) : nextIn (b :: l) a = nextIn l a := if_neg h

theorem nextIn_of_notMem (h : a ∉ l) : nextIn l a = none := by
  induction l with
  | nil => rfl
  | cons b rest ih =>
    rw [List.mem_cons, not_or] at h
    rw [nextIn_cons_ne (Ne.symm h.1)]
    exact ih h.2

theorem nextIn_middle (h : a ∉ front) : nextIn (front ++ a :: rest) a = rest.head? := by
  induction front with
  | nil => exact nextIn_cons_self a rest
  | cons b front ih =>
    rw [List.mem_cons, not_or] at h
    rw [List.cons_append, nextIn_cons_ne (Ne.symm h.1)]
    exact ih h.2

theorem notMem_front (hnodup : (front ++ a :: rest).Nodup) : a ∉ front := fun h =>
  (List.nodup_append'.mp hnodup).2.2 h List.mem_cons_self

theorem erase_middle (hnodup : (front ++ a :: rest).Nodup) :
    (front ++ a :: rest).erase a = front ++ rest := by
  rw [List.erase_append_right _ (notMem_front hnodup), List.erase_cons_head]

theorem mem_of_head? (h : l.head? = some a) : a ∈ l := by
  cases l with
  | nil => cases h
  | cons b rest =>
    obtain rfl := Option.some.inj h
    exact List.mem_cons_self

theorem mem_of_nextIn (h : nextIn l b = some a) : a ∈ l := by
  induction l with
  | nil => cases h
  | cons c rest ih =>
    rw [nextIn] at h
    split_ifs at h
    · exact List.mem_cons_of_mem _ (mem_of_head? h)
    · exact List.mem_cons_of_mem _ (ih h)

/-- A node that is put behind `p`. -/
theorem nextIn_insert (hp : p ∉ front) (hx : x ∉ front ++ p :: rest) (b : ℕ) :
    nextIn (front ++ p :: x :: rest) b =
      if b = p then some x else if b = x then rest.head? else nextIn (front ++ p :: rest) b := by
  induction front with
  | nil =>
    rw [List.nil_append, List.mem_cons, not_or] at hx
    simp only [List.nil_append, nextIn, List.head?_cons]
    by_cases hbp : b = p
    · rw [if_pos hbp.symm, if_pos hbp]
    · rw [if_neg (Ne.symm hbp), if_neg hbp, if_neg (Ne.symm hbp)]
      by_cases hbx : b = x
      · rw [if_pos hbx.symm, if_pos hbx]
      · rw [if_neg (Ne.symm hbx), if_neg hbx]
  | cons c front ih =>
    rw [List.mem_cons, not_or] at hp
    rw [List.cons_append, List.mem_cons, not_or] at hx
    simp only [List.cons_append, nextIn]
    rw [ih hp.2 hx.2]
    by_cases hcb : c = b
    · rw [if_pos hcb, if_pos hcb, if_neg fun h => hp.1 (h.symm.trans hcb.symm),
        if_neg fun h => hx.1 (h.symm.trans hcb.symm)]
      cases front <;> rfl
    · rw [if_neg hcb, if_neg hcb]

theorem nodup_insert (hx : x ∉ front ++ p :: rest) (hnodup : (front ++ p :: rest).Nodup) :
    (front ++ p :: x :: rest).Nodup := by
  have hmove : front ++ p :: x :: rest = (front ++ [p]) ++ x :: rest := by simp
  have hwhole : (front ++ [p]) ++ rest = front ++ p :: rest := by simp
  rw [hmove, List.perm_middle.nodup_iff, hwhole]
  exact List.nodup_cons.mpr ⟨hx, hnodup⟩

/-- The node behind the one that is unlinked comes behind the node before it. -/
theorem nextIn_erase (hnodup : l.Nodup) (hne : b ≠ x) :
    nextIn (l.erase x) b = if nextIn l b = some x then nextIn l x else nextIn l b := by
  induction l with
  | nil => rfl
  | cons c rest ih =>
    rw [List.nodup_cons] at hnodup
    by_cases hcx : c = x
    · subst hcx
      rw [List.erase_cons_head, nextIn_cons_ne hne.symm,
        if_neg fun h => hnodup.1 (mem_of_nextIn h)]
    · have htail : (c :: rest).erase x = c :: rest.erase x := by simp [hcx]
      rw [htail, nextIn_cons_ne hcx]
      by_cases hcb : c = b
      · subst hcb
        rw [nextIn_cons_self, nextIn_cons_self]
        cases rest with
        | nil => simp
        | cons d rest =>
          by_cases hdx : d = x
          · subst hdx
            simp
          · simp [hdx]
      · rw [nextIn_cons_ne hcb, nextIn_cons_ne hcb]
        exact ih hnodup.2

/-- Only one node of a chain has `x` behind it. -/
theorem nextIn_inj (hnodup : l.Nodup) (ha : nextIn l a = some x) (hb : nextIn l b = some x) :
    a = b := by
  induction l with
  | nil => cases ha
  | cons c rest ih =>
    rw [List.nodup_cons] at hnodup
    rw [nextIn] at ha hb
    have hhead : ∀ {d : ℕ}, rest.head? = some x → nextIn rest d ≠ some x := by
      intro d hhead hd
      cases rest with
      | nil => cases hhead
      | cons e rest =>
        obtain rfl := Option.some.inj hhead
        rw [nextIn] at hd
        have he := (List.nodup_cons.mp hnodup.2).1
        split_ifs at hd
        · exact he (mem_of_head? hd)
        · exact he (mem_of_nextIn hd)
    split_ifs at ha hb with hca hcb hcb
    · exact hca.symm.trans hcb
    · exact absurd hb (hhead ha)
    · exact absurd ha (hhead hb)
    · exact ih hnodup.2 ha hb

/-- What stands before `x` points to it. -/
theorem nextIn_eq_some_iff (hnodup : (front ++ x :: rest).Nodup) :
    nextIn (front ++ x :: rest) b = some x ↔ front.getLast? = some b := by
  obtain rfl | ⟨front, c, rfl⟩ := List.eq_nil_or_concat' front
  · refine iff_of_false (fun h => ?_) (fun h => (nomatch h))
    have hx := (List.nodup_cons.mp hnodup).1
    rw [List.nil_append, nextIn] at h
    split_ifs at h
    · exact hx (mem_of_head? h)
    · exact hx (mem_of_nextIn h)
  · rw [List.append_assoc, List.singleton_append] at hnodup ⊢
    have hnext : nextIn (front ++ c :: x :: rest) c = some x := nextIn_middle (notMem_front hnodup)
    rw [List.getLast?_concat, Option.some.injEq]
    constructor
    · exact fun h => nextIn_inj hnodup hnext h
    · rintro rfl
      exact hnext

end Neighbours

/-! ## Following the pointers -/

section Walks

variable (next : ℕ → Option (Option ℕ))

/-- The memory holds a chain: `next` reads the pointer of a node, and is nothing where there is
none. -/
def Linked (l : List ℕ) : Prop := ∀ a ∈ l, next a = some (nextIn l a)

/-- `while (node->next && go(node->next)) node = node->next`, in so many rounds. -/
def walk (go : ℕ → Option Bool) : ℕ → ℕ → Option ℕ
  | 0, _ => none
  | rounds + 1, a =>
    match next a with
    | none => none
    | some none => some a
    | some (some b) =>
      match go b with
      | none => none
      | some false => some a
      | some true => walk go rounds b

/-- All nodes from `p` on. -/
def follow : ℕ → Option ℕ → Option (List ℕ)
  | _, none => some []
  | 0, some _ => none
  | rounds + 1, some a => (next a).bind fun p => (follow rounds p).map (a :: ·)

variable {next} {go : ℕ → Option Bool} {front mid rest : List ℕ} {a : ℕ}

/-- The walk ends at the last node that passes. -/
theorem walk_spec (hlinked : Linked next (front ++ a :: (mid ++ rest)))
    (hnodup : (front ++ a :: (mid ++ rest)).Nodup) (hmid : ∀ b ∈ mid, go b = some true)
    (hrest : ∀ b, rest.head? = some b → go b = some false) {rounds : ℕ}
    (hrounds : mid.length < rounds) :
    walk next go rounds a = some ((a :: mid).getLast (List.cons_ne_nil a mid)) := by
  induction mid generalizing front a rounds with
  | nil =>
    obtain ⟨rounds, rfl⟩ := Nat.exists_eq_succ_of_ne_zero (by omega : rounds ≠ 0)
    have hnext := hlinked a (List.mem_append_right _ List.mem_cons_self)
    rw [nextIn_middle (notMem_front hnodup), List.nil_append] at hnext
    rw [walk, hnext]
    cases hhead : rest.head? with
    | none => rfl
    | some b => simp [hrest b hhead]
  | cons b mid ih =>
    obtain ⟨rounds, rfl⟩ := Nat.exists_eq_succ_of_ne_zero (by omega : rounds ≠ 0)
    have hnext := hlinked a (List.mem_append_right _ List.mem_cons_self)
    rw [nextIn_middle (notMem_front hnodup), List.cons_append, List.head?_cons] at hnext
    have hmove : front ++ a :: (b :: mid ++ rest) = (front ++ [a]) ++ b :: (mid ++ rest) := by simp
    rw [hmove] at hlinked hnodup
    have hgo := hmid b List.mem_cons_self
    have htail := ih hlinked hnodup (fun c hc => hmid c (List.mem_cons_of_mem _ hc))
      (Nat.lt_of_succ_lt_succ hrounds)
    rw [walk, hnext]
    simp only [hgo]
    rw [htail, List.getLast_cons (List.cons_ne_nil b mid)]

/-- From its first node a whole chain is followed. -/
theorem follow_spec (hlinked : Linked next (front ++ rest)) (hnodup : (front ++ rest).Nodup)
    {rounds : ℕ} (hrounds : rest.length ≤ rounds) : follow next rounds rest.head? = some rest := by
  induction rest generalizing front rounds with
  | nil => cases rounds <;> rfl
  | cons a rest ih =>
    obtain ⟨rounds, rfl⟩ := Nat.exists_eq_succ_of_ne_zero
      (by rw [List.length_cons] at hrounds; omega : rounds ≠ 0)
    have hnext := hlinked a (List.mem_append_right _ List.mem_cons_self)
    rw [nextIn_middle (notMem_front hnodup)] at hnext
    have hmove : front ++ a :: rest = (front ++ [a]) ++ rest := by simp
    rw [hmove] at hlinked hnodup
    have htail := ih hlinked hnodup (Nat.le_of_succ_le_succ hrounds)
    rw [List.head?_cons, follow, hnext, Option.bind_some, htail, Option.map_some]

end Walks

end ViabtcExchange
