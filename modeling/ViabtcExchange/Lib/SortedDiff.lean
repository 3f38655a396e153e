import ViabtcExchange.Lib.Dict

/-!
# What changed between two sorted lists

A dictionary is sent as a list of entries in the order `lt` of their keys, and what became of it as
the changes that lead from one list to the next. Of the entries at the end of the old list that no
entry of the new one comes after, nothing is said when the new list is full: a reader who keeps only
the best `limit` entries loses them anyway.

`best_applyAll_diff`: such a reader has the new list after the changes. `best_applyAll_ne`: and not
if one of them is left out.
-/

namespace ViabtcExchange

/-- A change of one entry. -/
inductive Change (K V : Type)
  | put (k : K) (v : V)
  | drop (k : K)
deriving DecidableEq

namespace Change

variable {K V : Type} [DecidableEq K] {lt : K → K → Prop} [DecidableRel lt]

def apply (book : Dict K V) : Change K V → Dict K V
  | put k v => book.insert k v
  | drop k => book.erase k

def applyAll (book : Dict K V) (changes : List (Change K V)) : Dict K V := changes.foldl apply book

/-- A list as a dictionary. -/
def ofEntries (l : List (K × V)) : Dict K V := applyAll ∅ (l.map fun e => put e.1 e.2)

/-- The change from one value to another under the same key. -/
def amend [DecidableEq V] (e₁ e₂ : K × V) : List (Change K V) :=
  if e₁.2 = e₂.2 then [] else [put e₂.1 e₂.2]

/-- The changes from one list to another. -/
def diff [DecidableEq V] (lt : K → K → Prop) [DecidableRel lt] (full : Bool) :
    List (K × V) → List (K × V) → List (Change K V)
  | [], l₂ => l₂.map fun e => put e.1 e.2
  | e₁ :: l₁, [] => if full then [] else (e₁ :: l₁).map fun e => drop e.1
  | e₁ :: l₁, e₂ :: l₂ =>
    if e₁.1 = e₂.1 then amend e₁ e₂ ++ diff lt full l₁ l₂
    else if lt e₂.1 e₁.1 then put e₂.1 e₂.2 :: diff lt full (e₁ :: l₁) l₂
    else drop e₁.1 :: diff lt full l₁ (e₂ :: l₂)
termination_by l₁ l₂ => l₁.length + l₂.length

/-- The keys before `k`. -/
def better (lt : K → K → Prop) [DecidableRel lt] (book : Dict K V) (k : K) : Finset K :=
  book.keys.filter (lt · k)

/-- Keep the first `limit` entries. -/
def best (lt : K → K → Prop) [DecidableRel lt] (limit : ℕ) (book : Dict K V) : Dict K V :=
  Dict.filter (fun k _ => decide ((better lt book k).card < limit)) book

/-- The entries stand in the order of their keys. -/
def Sorted (lt : K → K → Prop) (l : List (K × V)) : Prop := l.Pairwise fun e e' => lt e.1 e'.1

instance (l : List (K × V)) : Decidable (Sorted lt l) :=
  inferInstanceAs (Decidable (l.Pairwise fun e e' => lt e.1 e'.1))

@[simp] theorem applyAll_nil (book : Dict K V) : applyAll book [] = book := rfl

@[simp] theorem applyAll_cons (book : Dict K V) (c : Change K V) (cs : List (Change K V)) :
    applyAll book (c :: cs) = applyAll (apply book c) cs := rfl

theorem find_drops (l : List (K × V)) (book : Dict K V) (k : K) :
    (applyAll book (l.map fun e => drop e.1)).find k =
      if k ∈ l.map Prod.fst then none else book.find k := by
  induction l generalizing book with
  | nil => simp
  | cons e l ih =>
    rw [List.map_cons, applyAll_cons, ih, apply, Dict.find_erase]
    by_cases he : k = e.1
    · simp only [he, if_true, ite_self, List.map_cons, List.mem_cons, true_or]
    · simp only [he, if_false, List.map_cons, List.mem_cons, false_or]

theorem find_puts_of_notMem {l : List (K × V)} {k : K} (hk : k ∉ l.map Prod.fst) (book : Dict K V) :
    (applyAll book (l.map fun e => put e.1 e.2)).find k = book.find k := by
  induction l generalizing book with
  | nil => rfl
  | cons e l ih =>
    rw [List.map_cons, List.mem_cons, not_or] at hk
    rw [List.map_cons, applyAll_cons, ih hk.2, apply, Dict.find_insert, if_neg hk.1]

section Order

variable [IsStrictTotalOrder K lt] {l l₁ l₂ : List (K × V)} {book : Dict K V}

omit [DecidableEq K] [DecidableRel lt] in
theorem Sorted.notMem {e : K × V} (h : Sorted lt (e :: l)) : e.1 ∉ l.map Prod.fst := by
  intro hmem
  obtain ⟨e', he', heq⟩ := List.mem_map.mp hmem
  have hlt := List.rel_of_pairwise_cons h he'
  rw [heq] at hlt
  exact irrefl_of lt _ hlt

omit [DecidableEq K] [DecidableRel lt] in
theorem Sorted.nodup (h : Sorted lt l) : (l.map Prod.fst).Nodup := by
  induction l with
  | nil => exact List.nodup_nil
  | cons e l ih => exact List.nodup_cons.mpr ⟨h.notMem, ih (List.Pairwise.of_cons h)⟩

omit [DecidableRel lt] in
theorem find_puts_of_mem (h : Sorted lt l) {e : K × V} (he : e ∈ l) (book : Dict K V) :
    (applyAll book (l.map fun e => put e.1 e.2)).find e.1 = some e.2 := by
  induction l generalizing book with
  | nil => exact absurd he List.not_mem_nil
  | cons e' l ih =>
    rw [List.map_cons, applyAll_cons]
    rcases List.mem_cons.mp he with rfl | he
    · rw [find_puts_of_notMem h.notMem, apply, Dict.find_insert, if_pos rfl]
    · exact ih (List.Pairwise.of_cons h) he _

omit [DecidableRel lt] in
theorem find_ofEntries_of_mem (h : Sorted lt l) {e : K × V} (he : e ∈ l) :
    (ofEntries l).find e.1 = some e.2 := find_puts_of_mem h he ∅

theorem find_ofEntries_of_notMem {k : K} (hk : k ∉ l.map Prod.fst) :
    (ofEntries l).find k = none := by
  unfold ofEntries
  rw [find_puts_of_notMem hk, Dict.find_empty]

/-- What the changes from `l₁` to `l₂` make of a dictionary that has the entries of `l₁`: a key that
is gone may be left only behind all of `l₂`, and only when it is full. -/
structure Patched (lt : K → K → Prop) (full : Bool) (l₁ l₂ : List (K × V))
    (book book' : Dict K V) : Prop where
  new : ∀ e ∈ l₂, book'.find e.1 = some e.2
  old : ∀ k ∈ l₁.map Prod.fst, k ∉ l₂.map Prod.fst →
    book'.find k = none ∨ (full ∧ ∀ e ∈ l₂, lt e.1 k)
  other : ∀ k ∉ l₁.map Prod.fst, k ∉ l₂.map Prod.fst → book'.find k = book.find k

variable [DecidableEq V] {full : Bool}

/-- **What the changes do.** -/
theorem patched_diff (h₁ : Sorted lt l₁) (h₂ : Sorted lt l₂)
    (hbook : ∀ e ∈ l₁, book.find e.1 = some e.2) :
    Patched lt full l₁ l₂ book (applyAll book (diff lt full l₁ l₂)) := by
  fun_induction diff lt full l₁ l₂ generalizing book with
  | case1 l₂ =>
    exact ⟨fun e he => find_puts_of_mem h₂ he book, fun k hk => absurd hk List.not_mem_nil,
      fun k _ hk => find_puts_of_notMem hk book⟩
  | case2 e₁ l₁ hfull =>
    exact ⟨fun e he => absurd he List.not_mem_nil,
      fun k _ _ => Or.inr ⟨hfull, fun e he => absurd he List.not_mem_nil⟩, fun k _ _ => rfl⟩
  | case3 e₁ l₁ hfull =>
    refine ⟨fun e he => absurd he List.not_mem_nil, fun k hk _ => Or.inl ?_, fun k hk _ => ?_⟩
    · rw [find_drops, if_pos hk]
    · rw [find_drops, if_neg hk]
  | case4 e₁ l₁ e₂ l₂ heq ih =>
    have hfirst : ∀ k, (applyAll book (amend e₁ e₂)).find k =
        if k = e₂.1 then some e₂.2 else book.find k := by
      intro k
      unfold amend
      split_ifs with hv hk hk
      · rw [applyAll_nil, hk, ← heq, hbook e₁ (List.mem_cons_self ..), hv]
      · rfl
      · rw [applyAll_cons, applyAll_nil, apply, Dict.find_insert, if_pos hk]
      · rw [applyAll_cons, applyAll_nil, apply, Dict.find_insert, if_neg hk]
    unfold applyAll at hfirst ⊢
    rw [List.foldl_append]
    have hrest := ih (List.Pairwise.of_cons h₁) (List.Pairwise.of_cons h₂) (fun e he => by
      have hne : e.1 ≠ e₂.1 := fun hk => h₁.notMem (heq ▸ hk ▸ List.mem_map_of_mem he)
      exact (hfirst _).trans ((if_neg hne).trans (hbook e (List.mem_cons_of_mem _ he))))
    refine ⟨fun e he => ?_, fun k hk hk' => ?_, fun k hk hk' => ?_⟩
    · rcases List.mem_cons.mp he with rfl | he
      · exact (hrest.other _ (heq ▸ h₁.notMem) h₂.notMem).trans ((hfirst _).trans (if_pos rfl))
      · exact hrest.new e he
    · rw [List.map_cons, List.mem_cons, not_or] at hk'
      rw [List.map_cons, List.mem_cons, heq] at hk
      have hmem := hk.resolve_left hk'.1
      refine (hrest.old k hmem hk'.2).imp_right fun hleft => ⟨hleft.1, fun e he => ?_⟩
      rcases List.mem_cons.mp he with rfl | he
      · obtain ⟨e', he', rfl⟩ := List.mem_map.mp hmem
        exact heq ▸ List.rel_of_pairwise_cons h₁ he'
      · exact hleft.2 e he
    · rw [List.map_cons, List.mem_cons, not_or] at hk hk'
      exact (hrest.other k hk.2 hk'.2).trans ((hfirst k).trans (if_neg hk'.1))
  | case5 e₁ l₁ e₂ l₂ hne hlt ih =>
    rw [applyAll_cons, apply]
    have habove : ∀ k ∈ (e₁ :: l₁).map Prod.fst, lt e₂.1 k := by
      intro k hk
      obtain ⟨e, he, rfl⟩ := List.mem_map.mp hk
      rcases List.mem_cons.mp he with rfl | he
      · exact hlt
      · exact trans_of lt hlt (List.rel_of_pairwise_cons h₁ he)
    have hnot : e₂.1 ∉ (e₁ :: l₁).map Prod.fst := fun hmem => irrefl_of lt _ (habove _ hmem)
    have hbook' : ∀ e ∈ e₁ :: l₁, Dict.find (book.insert e₂.1 e₂.2) e.1 = some e.2 := by
      intro e he
      have hne' : e.1 ≠ e₂.1 := fun hk => hnot (hk ▸ List.mem_map_of_mem he)
      rw [Dict.find_insert, if_neg hne', hbook e he]
    have hrest := ih h₁ (List.Pairwise.of_cons h₂) hbook'
    refine ⟨fun e he => ?_, fun k hk hk' => ?_, fun k hk hk' => ?_⟩
    · rcases List.mem_cons.mp he with rfl | he
      · rw [hrest.other _ hnot h₂.notMem, Dict.find_insert, if_pos rfl]
      · exact hrest.new e he
    · rw [List.map_cons, List.mem_cons, not_or] at hk'
      refine (hrest.old k hk hk'.2).imp_right fun hleft => ⟨hleft.1, fun e he => ?_⟩
      rcases List.mem_cons.mp he with rfl | he
      · exact habove k hk
      · exact hleft.2 e he
    · rw [List.map_cons, List.mem_cons, not_or] at hk'
      rw [hrest.other k hk hk'.2, Dict.find_insert, if_neg hk'.1]
  | case6 e₁ l₁ e₂ l₂ hne hlt ih =>
    rw [applyAll_cons, apply]
    have hlt' : lt e₁.1 e₂.1 :=
      ((trichotomous_of lt e₁.1 e₂.1).resolve_right fun h => h.elim hne hlt)
    have hnot : e₁.1 ∉ (e₂ :: l₂).map Prod.fst := by
      intro hmem
      obtain ⟨e, he, heq⟩ := List.mem_map.mp hmem
      rcases List.mem_cons.mp he with rfl | he
      · exact hne heq.symm
      · have htrans := trans_of lt hlt' (List.rel_of_pairwise_cons h₂ he)
        rw [heq] at htrans
        exact irrefl_of lt _ htrans
    have hbook' : ∀ e ∈ l₁, Dict.find (book.erase e₁.1) e.1 = some e.2 := by
      intro e he
      have hne' : e.1 ≠ e₁.1 := fun hk => h₁.notMem (hk ▸ List.mem_map_of_mem he)
      rw [Dict.find_erase, if_neg hne', hbook e (List.mem_cons_of_mem _ he)]
    have hrest := ih (List.Pairwise.of_cons h₁) h₂ hbook'
    refine ⟨hrest.new, fun k hk hk' => ?_, fun k hk hk' => ?_⟩
    · rcases List.mem_cons.mp hk with rfl | hk
      · rw [hrest.other _ h₁.notMem hnot, Dict.find_erase, if_pos rfl]
        exact Or.inl rfl
      · exact hrest.old k hk hk'
    · rw [List.map_cons, List.mem_cons, not_or] at hk
      rw [hrest.other k hk.2 hk', Dict.find_erase, if_neg hk.1]

omit [IsStrictTotalOrder K lt] [DecidableEq V] in
theorem find_best {limit : ℕ} {k : K} {v : V} :
    (best lt limit book).find k = some v ↔ book.find k = some v ∧
      (better lt book k).card < limit := by
  unfold best
  rw [Dict.find_filter_eq_some, decide_eq_true_eq]

omit [DecidableEq V] in
/-- What comes before an entry of `l` is fewer than `l`, when it is all in `l`. -/
theorem card_better_lt (h : Sorted lt l) {k : K} (hk : k ∈ l.map Prod.fst)
    (hbetter : ∀ k' ∈ book, lt k' k → k' ∈ l.map Prod.fst) :
    (better lt book k).card < l.length := by
  have hsub : better lt book k ⊂ (l.map Prod.fst).toFinset := by
    rw [Finset.ssubset_iff_of_subset]
    · exact ⟨k, List.mem_toFinset.mpr hk, fun hmem => irrefl_of lt _ (Finset.mem_filter.mp hmem).2⟩
    · intro k' hk'
      obtain ⟨hmem, hlt⟩ := Finset.mem_filter.mp hk'
      exact List.mem_toFinset.mpr (hbetter k' (Finmap.mem_keys.mp hmem) hlt)
  have hcard := Finset.card_lt_card hsub
  rwa [List.toFinset_card_of_nodup h.nodup, List.length_map] at hcard

omit [DecidableEq V] in
/-- A short list loses nothing. -/
theorem best_ofEntries {limit : ℕ} (h : Sorted lt l) (hsize : l.length ≤ limit) :
    best lt limit (ofEntries l) = ofEntries l := by
  have hin : ∀ k ∈ ofEntries l, k ∈ l.map Prod.fst := by
    intro k hk
    by_contra hnot
    exact absurd hk (Dict.find_eq_none.mp (find_ofEntries_of_notMem hnot))
  apply Dict.ext_find
  intro k
  apply Option.ext
  intro v
  rw [find_best, and_iff_left_iff_imp]
  intro hv
  exact (card_better_lt h (hin k (Dict.mem_of_find hv)) fun k' hk' _ => hin k' hk').trans_le hsize

/-- **Who keeps the best entries only has the new list after the changes.** -/
theorem best_applyAll_diff {limit : ℕ} (h₁ : Sorted lt l₁) (h₂ : Sorted lt l₂)
    (hsize : l₂.length ≤ limit) (hfull : full = true → limit ≤ l₂.length) :
    best lt limit (applyAll (ofEntries l₁) (diff lt full l₁ l₂)) = ofEntries l₂ := by
  have hpatched : Patched lt full l₁ l₂ _ _ :=
    patched_diff h₁ h₂ fun e he => find_ofEntries_of_mem h₁ he
  generalize applyAll (ofEntries l₁) (diff lt full l₁ l₂) = book at hpatched
  -- What is left over comes after all of `l₂`.
  have hleft : ∀ k ∈ book, k ∉ l₂.map Prod.fst → full = true ∧ ∀ e ∈ l₂, lt e.1 k := by
    intro k hk hnot
    have hsome : book.find k ≠ none := fun hnone => Dict.find_eq_none.mp hnone hk
    have hold : k ∈ l₁.map Prod.fst := by
      by_contra hnew
      exact hsome ((hpatched.other k hnew hnot).trans (find_ofEntries_of_notMem hnew))
    exact (hpatched.old k hold hnot).resolve_left hsome
  apply Dict.ext_find
  intro k
  by_cases hk : k ∈ l₂.map Prod.fst
  · obtain ⟨e, he, rfl⟩ := List.mem_map.mp hk
    rw [find_ofEntries_of_mem h₂ he, find_best]
    refine ⟨hpatched.new e he, (card_better_lt h₂ hk fun k' hk' hlt => ?_).trans_le hsize⟩
    by_contra hnot
    exact irrefl_of lt _ (trans_of lt hlt ((hleft k' hk' hnot).2 e he))
  · rw [find_ofEntries_of_notMem hk]
    by_contra hne
    obtain ⟨v, hv⟩ := Option.ne_none_iff_exists'.mp hne
    obtain ⟨hv, hcard⟩ := find_best.mp hv
    obtain ⟨hisFull, hbehind⟩ := hleft k (Dict.mem_of_find hv) hk
    have hsub : (l₂.map Prod.fst).toFinset ⊆ better lt book k := by
      intro k' hk'
      obtain ⟨e, he, rfl⟩ := List.mem_map.mp (List.mem_toFinset.mp hk')
      have hmem := Finmap.mem_keys.mpr (Dict.mem_of_find (hpatched.new e he))
      exact Finset.mem_filter.mpr ⟨hmem, hbehind e he⟩
    have hle := Finset.card_le_card hsub
    rw [List.toFinset_card_of_nodup h₂.nodup, List.length_map] at hle
    have := hfull hisFull
    omega

/-- Without changes the lists have the same entries. -/
theorem ofEntries_eq_of_diff_nil {limit : ℕ} (h₁ : Sorted lt l₁) (h₂ : Sorted lt l₂)
    (hsize₁ : l₁.length ≤ limit) (hsize₂ : l₂.length ≤ limit)
    (hfull : full = true → limit ≤ l₂.length) (hnil : diff lt full l₁ l₂ = []) :
    ofEntries l₁ = ofEntries l₂ := by
  have hbest := best_applyAll_diff h₁ h₂ hsize₂ hfull
  rw [hnil, applyAll_nil, best_ofEntries h₁ hsize₁] at hbest
  exact hbest

end Order

/-! ## Every change is needed -/

def key : Change K V → K
  | put k _ => k
  | drop k => k

omit [DecidableRel lt] in
theorem find_apply_of_ne (book : Dict K V) {c : Change K V} {k : K} (h : k ≠ c.key) :
    (apply book c).find k = book.find k := by
  cases c with
  | put k' v =>
    rw [apply, Dict.find_insert]
    exact if_neg h
  | drop k' =>
    rw [apply, Dict.find_erase]
    exact if_neg h

theorem find_applyAll_of_notMem {cs : List (Change K V)} {k : K} (hk : k ∉ cs.map key)
    (book : Dict K V) : (applyAll book cs).find k = book.find k := by
  induction cs generalizing book with
  | nil => rfl
  | cons c cs ih =>
    rw [List.map_cons, List.mem_cons, not_or] at hk
    rw [applyAll_cons, ih hk.2, find_apply_of_ne book hk.1]

/-- A change looks at no entry but its own. -/
theorem find_applyAll_congr {book book' : Dict K V} {k : K} (h : book.find k = book'.find k)
    (cs : List (Change K V)) : (applyAll book cs).find k = (applyAll book' cs).find k := by
  induction cs generalizing book book' with
  | nil => exact h
  | cons c cs ih =>
    refine ih ?_
    cases c with
    | put k' v => rw [apply, apply, Dict.find_insert, Dict.find_insert, h]
    | drop k' => rw [apply, apply, Dict.find_erase, Dict.find_erase, h]

/-- Why a change is there: an entry that is new, or one that is gone and would be seen. -/
def Needed (lt : K → K → Prop) (full : Bool) (l₁ l₂ : List (K × V)) : Change K V → Prop
  | put k v => (k, v) ∈ l₂ ∧ (k, v) ∉ l₁
  | drop k => k ∈ l₁.map Prod.fst ∧ k ∉ l₂.map Prod.fst ∧ (full = true → ∃ e ∈ l₂, lt k e.1)

omit [DecidableEq K] [DecidableRel lt] in
theorem Needed.key_mem {l₁ l₂ : List (K × V)} {full : Bool} {c : Change K V}
    (h : Needed lt full l₁ l₂ c) : c.key ∈ l₁.map Prod.fst ∨ c.key ∈ l₂.map Prod.fst := by
  cases c with
  | put k v => exact Or.inr (List.mem_map_of_mem h.1)
  | drop k => exact Or.inl h.1

section Necessity

variable [IsStrictTotalOrder K lt] [DecidableEq V] {l l₁ l₂ : List (K × V)} {full : Bool}

omit [DecidableEq K] [DecidableRel lt] [DecidableEq V] in
/-- A key before the first one is not in a sorted list. -/
theorem Sorted.notMem_of_lt {e : K × V} {k : K} (h : Sorted lt (e :: l)) (hk : lt k e.1) :
    k ∉ (e :: l).map Prod.fst := by
  intro hmem
  obtain ⟨e', he', rfl⟩ := List.mem_map.mp hmem
  rcases List.mem_cons.mp he' with rfl | he'
  · exact irrefl_of lt _ hk
  · exact irrefl_of lt _ (trans_of lt hk (List.rel_of_pairwise_cons h he'))

omit [DecidableRel lt] [DecidableEq V] in
theorem mem_of_find_ofEntries (h : Sorted lt l) {k : K} {v : V}
    (hfind : (ofEntries l).find k = some v) : (k, v) ∈ l := by
  by_cases hk : k ∈ l.map Prod.fst
  · obtain ⟨e, he, rfl⟩ := List.mem_map.mp hk
    rw [find_ofEntries_of_mem h he] at hfind
    rw [← Option.some.inj hfind]
    exact he
  · rw [find_ofEntries_of_notMem hk] at hfind
    cases hfind

theorem needed_of_mem_diff (h₁ : Sorted lt l₁) (h₂ : Sorted lt l₂) {c : Change K V}
    (hc : c ∈ diff lt full l₁ l₂) : Needed lt full l₁ l₂ c := by
  fun_induction diff lt full l₁ l₂ with
  | case1 l₂ =>
    obtain ⟨e, he, rfl⟩ := List.mem_map.mp hc
    exact ⟨he, List.not_mem_nil⟩
  | case2 e₁ l₁ hfull => cases hc
  | case3 e₁ l₁ hfull =>
    obtain ⟨e, he, rfl⟩ := List.mem_map.mp hc
    exact ⟨List.mem_map_of_mem he, List.not_mem_nil, fun h => absurd h hfull⟩
  | case4 e₁ l₁ e₂ l₂ heq ih =>
    rcases List.mem_append.mp hc with hc | hc
    · unfold amend at hc
      split_ifs at hc with hv
      · cases hc
      · obtain rfl := List.mem_singleton.mp hc
        refine ⟨List.mem_cons_self, fun hmem => ?_⟩
        rcases List.mem_cons.mp hmem with hsame | hmem
        · exact hv (congrArg Prod.snd hsame).symm
        · exact h₁.notMem (heq ▸ List.mem_map_of_mem (f := Prod.fst) hmem)
    · have hrest := ih (List.Pairwise.of_cons h₁) (List.Pairwise.of_cons h₂) hc
      cases c with
      | put k v =>
        refine ⟨List.mem_cons_of_mem _ hrest.1, fun hmem => ?_⟩
        rcases List.mem_cons.mp hmem with hsame | hmem
        · have hk : k = e₂.1 := (congrArg Prod.fst hsame).trans heq
          exact h₂.notMem (hk ▸ List.mem_map_of_mem (f := Prod.fst) hrest.1)
        · exact hrest.2 hmem
      | drop k =>
        obtain ⟨hmem, hnot, hseen⟩ := hrest
        refine ⟨List.mem_cons_of_mem _ hmem, fun hin => ?_, fun h => ?_⟩
        · rcases List.mem_cons.mp hin with rfl | hin
          · exact h₁.notMem (heq ▸ hmem)
          · exact hnot hin
        · obtain ⟨e, he, hlt⟩ := hseen h
          exact ⟨e, List.mem_cons_of_mem _ he, hlt⟩
  | case5 e₁ l₁ e₂ l₂ hne hlt ih =>
    have hnot₁ := h₁.notMem_of_lt hlt
    rcases List.mem_cons.mp hc with rfl | hc
    · exact ⟨List.mem_cons_self, fun hmem => hnot₁ (List.mem_map_of_mem (f := Prod.fst) hmem)⟩
    · have hrest := ih h₁ (List.Pairwise.of_cons h₂) hc
      cases c with
      | put k v => exact ⟨List.mem_cons_of_mem _ hrest.1, hrest.2⟩
      | drop k =>
        obtain ⟨hmem, hnot, hseen⟩ := hrest
        refine ⟨hmem, fun hin => ?_, fun h => ?_⟩
        · rcases List.mem_cons.mp hin with rfl | hin
          · exact hnot₁ hmem
          · exact hnot hin
        · obtain ⟨e, he, hlt'⟩ := hseen h
          exact ⟨e, List.mem_cons_of_mem _ he, hlt'⟩
  | case6 e₁ l₁ e₂ l₂ hne hlt ih =>
    have hlt' : lt e₁.1 e₂.1 :=
      (trichotomous_of lt e₁.1 e₂.1).resolve_right fun h => h.elim hne hlt
    have hnot₂ := h₂.notMem_of_lt hlt'
    rcases List.mem_cons.mp hc with rfl | hc
    · exact ⟨List.mem_cons_self, hnot₂, fun _ => ⟨e₂, List.mem_cons_self, hlt'⟩⟩
    · have hrest := ih (List.Pairwise.of_cons h₁) h₂ hc
      cases c with
      | put k v =>
        refine ⟨hrest.1, fun hmem => ?_⟩
        rcases List.mem_cons.mp hmem with rfl | hmem
        · exact hnot₂ (List.mem_map_of_mem (f := Prod.fst) hrest.1)
        · exact hrest.2 hmem
      | drop k => exact ⟨List.mem_cons_of_mem _ hrest.1, hrest.2⟩

theorem key_mem_of_mem_diff (h₁ : Sorted lt l₁) (h₂ : Sorted lt l₂) {k : K}
    (hk : k ∈ (diff lt full l₁ l₂).map key) : k ∈ l₁.map Prod.fst ∨ k ∈ l₂.map Prod.fst := by
  obtain ⟨c, hc, rfl⟩ := List.mem_map.mp hk
  exact (needed_of_mem_diff h₁ h₂ hc).key_mem

/-- No entry is changed twice. -/
theorem nodup_diff (h₁ : Sorted lt l₁) (h₂ : Sorted lt l₂) :
    ((diff lt full l₁ l₂).map key).Nodup := by
  fun_induction diff lt full l₁ l₂ with
  | case1 l₂ =>
    rw [List.map_map]
    exact h₂.nodup
  | case2 e₁ l₁ hfull => exact List.nodup_nil
  | case3 e₁ l₁ hfull =>
    rw [List.map_map]
    exact h₁.nodup
  | case4 e₁ l₁ e₂ l₂ heq ih =>
    have h₁' := List.Pairwise.of_cons h₁
    have h₂' := List.Pairwise.of_cons h₂
    have hnew : e₂.1 ∉ (diff lt full l₁ l₂).map key := by
      intro hmem
      rcases key_mem_of_mem_diff h₁' h₂' hmem with hk | hk
      · exact h₁.notMem (heq ▸ hk)
      · exact h₂.notMem hk
    unfold amend
    split_ifs
    · exact ih h₁' h₂'
    · exact List.nodup_cons.mpr ⟨hnew, ih h₁' h₂'⟩
  | case5 e₁ l₁ e₂ l₂ hne hlt ih =>
    have h₂' := List.Pairwise.of_cons h₂
    refine List.nodup_cons.mpr ⟨fun hmem => ?_, ih h₁ h₂'⟩
    rcases key_mem_of_mem_diff h₁ h₂' hmem with hk | hk
    · exact h₁.notMem_of_lt hlt hk
    · exact h₂.notMem hk
  | case6 e₁ l₁ e₂ l₂ hne hlt ih =>
    have h₁' := List.Pairwise.of_cons h₁
    have hlt' : lt e₁.1 e₂.1 :=
      (trichotomous_of lt e₁.1 e₂.1).resolve_right fun h => h.elim hne hlt
    refine List.nodup_cons.mpr ⟨fun hmem => ?_, ih h₁' h₂⟩
    rcases key_mem_of_mem_diff h₁' h₂ hmem with hk | hk
    · exact h₁.notMem hk
    · exact h₂.notMem_of_lt hlt' hk

/-- **Without any one of the changes the reader does not get the new list.** -/
theorem best_applyAll_ne {limit : ℕ} (h₁ : Sorted lt l₁) (h₂ : Sorted lt l₂)
    (hsize : l₂.length ≤ limit) (hfull : full = true ↔ limit ≤ l₂.length)
    {before after : List (Change K V)} {c : Change K V}
    (hdiff : diff lt full l₁ l₂ = before ++ c :: after) :
    best lt limit (applyAll (ofEntries l₁) (before ++ after)) ≠ ofEntries l₂ := by
  have hpatched : Patched lt full l₁ l₂ _ _ :=
    patched_diff h₁ h₂ fun e he => find_ofEntries_of_mem h₁ he
  have hneeded : Needed lt full l₁ l₂ c := needed_of_mem_diff h₁ h₂ (hdiff ▸ by simp)
  have hnodup : ((diff lt full l₁ l₂).map key).Nodup := nodup_diff h₁ h₂
  rw [hdiff, List.map_append, List.map_cons, List.nodup_middle, List.nodup_cons, ← List.map_append]
    at hnodup
  -- the entry of the change is as it was, and all others are as they are to be
  have hown := find_applyAll_of_notMem hnodup.1 (ofEntries l₁)
  have hother : ∀ k, k ≠ c.key → (applyAll (ofEntries l₁) (before ++ after)).find k =
      (applyAll (ofEntries l₁) (diff lt full l₁ l₂)).find k := fun k hk => by
    unfold applyAll
    rw [hdiff, List.foldl_append, List.foldl_append, List.foldl_cons]
    exact find_applyAll_congr (find_apply_of_ne _ hk).symm after
  generalize applyAll (ofEntries l₁) (before ++ after) = book at hown hother
  intro heq
  cases c with
  | put k v =>
    have hput : (best lt limit book).find k = some v := by
      rw [heq]
      exact find_ofEntries_of_mem h₂ hneeded.1
    have hfind := hown.symm.trans (find_best.mp hput).1
    exact hneeded.2 (mem_of_find_ofEntries h₁ hfind)
  | drop k =>
    obtain ⟨hmem, hnot, hseen⟩ := hneeded
    obtain ⟨e, he, rfl⟩ := List.mem_map.mp hmem
    have hfind : book.find e.1 = some e.2 := hown.trans (find_ofEntries_of_mem h₁ he)
    -- what comes before the entry is in the new list
    have hbetter : ∀ k ∈ better lt book e.1, k ∈ l₂.map Prod.fst := fun k hk => by
      obtain ⟨hin, hlt⟩ := Finset.mem_filter.mp hk
      by_contra hout
      have hne : k ≠ e.1 := fun h => irrefl_of lt k (h ▸ hlt)
      have hsome : book.find k ≠ none := fun hnone =>
        Dict.find_eq_none.mp hnone (Finmap.mem_keys.mp hin)
      rw [hother k hne] at hsome
      have hold : k ∈ l₁.map Prod.fst := by
        by_contra hnew
        exact hsome ((hpatched.other k hnew hout).trans (find_ofEntries_of_notMem hnew))
      obtain ⟨hisFull, hbehind⟩ := (hpatched.old k hold hout).resolve_left hsome
      obtain ⟨e', he', hlt'⟩ := hseen hisFull
      exact irrefl_of lt k (trans_of lt (trans_of lt hlt hlt') (hbehind e' he'))
    have hsub : better lt book e.1 ⊆ (l₂.map Prod.fst).toFinset := fun k hk =>
      List.mem_toFinset.mpr (hbetter k hk)
    have hlength : (l₂.map Prod.fst).toFinset.card = l₂.length := by
      rw [List.toFinset_card_of_nodup h₂.nodup, List.length_map]
    have hcard : (better lt book e.1).card < limit := by
      by_cases hisFull : full = true
      · obtain ⟨e', he', hlt'⟩ := hseen hisFull
        refine lt_of_lt_of_le (Finset.card_lt_card ((Finset.ssubset_iff_of_subset hsub).mpr
          ⟨e'.1, List.mem_toFinset.mpr (List.mem_map_of_mem he'), fun hmem => ?_⟩))
          (hlength.trans_le hsize)
        exact irrefl_of lt _ (trans_of lt hlt' (Finset.mem_filter.mp hmem).2)
      · have hfew : l₂.length < limit := not_le.mp fun h => hisFull (hfull.mpr h)
        exact (Finset.card_le_card hsub).trans_lt (hlength ▸ hfew)
    have hkept := find_best.mpr ⟨hfind, hcard⟩
    rw [heq, find_ofEntries_of_notMem hnot] at hkept
    cases hkept

omit [IsStrictTotalOrder K lt] in
theorem eq_of_diff_nil (hlength : full = true → l₁.length ≤ l₂.length)
    (hnil : diff lt full l₁ l₂ = []) : l₁ = l₂ := by
  fun_induction diff lt full l₁ l₂ with
  | case1 l₂ => exact (List.map_eq_nil_iff.mp hnil).symm
  | case2 e₁ l₁ hfull => exact absurd (hlength hfull) (by simp)
  | case3 e₁ l₁ hfull => cases hnil
  | case4 e₁ l₁ e₂ l₂ heq ih =>
    obtain ⟨hamend, hrest⟩ := List.append_eq_nil_iff.mp hnil
    have hvalue : e₁.2 = e₂.2 := by
      by_contra hne
      rw [amend, if_neg hne] at hamend
      cases hamend
    rw [Prod.ext heq hvalue, ih (fun h => Nat.le_of_succ_le_succ (hlength h)) hrest]
  | case5 e₁ l₁ e₂ l₂ hne hlt ih => cases hnil
  | case6 e₁ l₁ e₂ l₂ hne hlt ih => cases hnil

omit [IsStrictTotalOrder K lt] in
@[simp] theorem diff_self (l : List (K × V)) : diff lt full l l = [] := by
  induction l with
  | nil => rw [diff, List.map_nil]
  | cons e l ih => rw [diff, if_pos rfl, amend, if_pos rfl, ih, List.nil_append]

end Necessity

end Change

end ViabtcExchange
