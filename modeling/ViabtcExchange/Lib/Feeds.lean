import ViabtcExchange.Lib.SortedDiff

/-!
# Catching up with a feed of changes

Whoever reads a feed of changes from some point on, and has the entries it says nothing about from
elsewhere, has the dictionary: a change decides all by itself what becomes of its entry
(`applyAll_congr`). So changes that were already made may be made once more (`applyAll_overlap`).
-/

namespace ViabtcExchange

namespace Change

variable {K V : Type} [DecidableEq K]

@[simp] theorem applyAll_append (book : Dict K V) (cs cs' : List (Change K V)) :
    applyAll book (cs ++ cs') = applyAll (applyAll book cs) cs' := List.foldl_append

theorem find_apply_self (book book' : Dict K V) (c : Change K V) :
    (apply book c).find c.key = (apply book' c).find c.key := by
  cases c with
  | put k v => simp only [apply, key, Dict.find_insert, if_true]
  | drop k => simp only [apply, key, Dict.find_erase, if_true]

/-- An entry that is changed forgets what it was. -/
theorem find_applyAll_of_mem {cs : List (Change K V)} {k : K} (hk : k ∈ cs.map key)
    (book book' : Dict K V) : (applyAll book cs).find k = (applyAll book' cs).find k := by
  induction cs generalizing book book' with
  | nil => exact absurd hk List.not_mem_nil
  | cons c cs ih =>
    rw [applyAll_cons, applyAll_cons]
    rcases List.mem_cons.mp hk with rfl | hk
    · exact find_applyAll_congr (find_apply_self book book' c) cs
    · exact ih hk _ _

/-- Two dictionaries become the same by changes of all the entries they differ in. -/
theorem applyAll_congr {book book' : Dict K V} {cs : List (Change K V)}
    (h : ∀ k ∉ cs.map key, book.find k = book'.find k) : applyAll book cs = applyAll book' cs := by
  refine Dict.ext_find fun k => ?_
  by_cases hk : k ∈ cs.map key
  · exact find_applyAll_of_mem hk _ _
  · rw [find_applyAll_of_notMem hk, find_applyAll_of_notMem hk, h k hk]

/-- A snapshot may be newer than the first changes that are applied to it. -/
theorem applyAll_overlap (book : Dict K V) (as bs cs : List (Change K V)) :
    applyAll (applyAll book (as ++ bs)) (bs ++ cs) = applyAll book (as ++ (bs ++ cs)) := by
  rw [applyAll_append book as (bs ++ cs)]
  refine applyAll_congr fun k hk => ?_
  rw [List.map_append, List.mem_append, not_or] at hk
  rw [applyAll_append, find_applyAll_of_notMem hk.1]

/-- Only the changes of an entry matter for it. -/
theorem find_applyAll_filter (book : Dict K V) (cs : List (Change K V)) (k : K) :
    (applyAll book cs).find k = (applyAll book (cs.filter fun c => c.key = k)).find k := by
  induction cs generalizing book with
  | nil => rfl
  | cons c cs ih =>
    by_cases hk : c.key = k
    · rw [List.filter_cons_of_pos (by simpa using hk), applyAll_cons, applyAll_cons, ih]
    · rw [List.filter_cons_of_neg (by simpa using hk), applyAll_cons, ih]
      exact find_applyAll_congr (find_apply_of_ne book (Ne.symm hk)) _

/-- An entry stays in as long as none is dropped. -/
theorem find_ne_none_of_puts {cs : List (Change K V)} (hputs : ∀ c ∈ cs, ∃ k v, c = put k v)
    {book : Dict K V} {k : K} (h : book.find k ≠ none) : (applyAll book cs).find k ≠ none := by
  induction cs generalizing book with
  | nil => exact h
  | cons c cs ih =>
    obtain ⟨⟨k', v, rfl⟩, hcs⟩ := List.forall_mem_cons.mp hputs
    refine ih hcs ?_
    rw [apply, Dict.find_insert]
    split_ifs
    · exact Option.some_ne_none v
    · exact h

/-- Entries that are put in, all alike. -/
theorem find_puts {α : Type} {f : α → K} {g : α → V} {l : List α} {k : K} {v : V}
    (h : ∀ x ∈ l, f x = k → g x = v) :
    (applyAll ∅ (l.map fun x => put (f x) (g x))).find k = if k ∈ l.map f then some v else none := by
  have hstart : ∀ book : Dict K V,
      (applyAll book (l.map fun x => put (f x) (g x))).find k =
        if k ∈ l.map f then some v else book.find k := by
    intro book
    induction l generalizing book with
    | nil => simp
    | cons x l ih =>
      obtain ⟨hx, hl⟩ := List.forall_mem_cons.mp h
      rw [List.map_cons, applyAll_cons, ih hl, apply, Dict.find_insert, List.map_cons]
      by_cases hk : k ∈ l.map f
      · rw [if_pos hk, if_pos (List.mem_cons_of_mem _ hk)]
      · by_cases hkx : k = f x
        · rw [if_neg hk, if_pos hkx, if_pos (hkx ▸ List.mem_cons_self), hx hkx.symm]
        · rw [if_neg hk, if_neg hkx, if_neg (List.not_mem_cons_of_ne_of_not_mem hkx hk)]
  rw [hstart, Dict.find_empty]

end Change

end ViabtcExchange
