import ViabtcExchange.Lib.Dict

/-!
# Doubly linked lists

Nodes stand at addresses, and point to each other. `LinkedList.Holds` says which items a list holds,
in their order and each at its address, and that there are no other nodes: what has been freed is
gone, and an operation that reads it is nothing (`none`).

Each operation has one lemma: `holds_listAddNodeTail`, `holds_listDel`, `listNext_of_mem`.
-/

namespace ViabtcExchange

structure ListNode (V : Type) where
  prev : Option ℕ
  next : Option ℕ
  value : V

/-- A list, with the memory that its nodes are in. -/
structure LinkedList (V : Type) where
  nodes : Dict ℕ (ListNode V)
  head : Option ℕ
  tail : Option ℕ
  len : ℕ

namespace LinkedList

variable {V : Type}

def empty : LinkedList V := ⟨∅, none, none, 0⟩

/-- Write to the node that a pointer points to. -/
def modify (nodes : Dict ℕ (ListNode V)) (a : ℕ) (f : ListNode V → ListNode V) :
    Option (Dict ℕ (ListNode V)) :=
  (nodes.find a).map fun node => nodes.insert a (f node)

/-- `list_add_node_tail`, with the new node at an address. -/
def listAddNodeTail (l : LinkedList V) (a : ℕ) (value : V) : Option (LinkedList V) :=
  match l.len, l.tail with
  | 0, _ => some ⟨l.nodes.insert a ⟨none, none, value⟩, some a, some a, 1⟩
  | len + 1, some last =>
    (modify l.nodes last fun node => { node with next := some a }).map fun nodes =>
      ⟨nodes.insert a ⟨some last, none, value⟩, l.head, some a, len + 2⟩
  | _ + 1, none => none

/-- The first half of `list_del`: the node's successor, or the end of the list, gets its `prev`. -/
def unlinkNext (l : LinkedList V) (node : ListNode V) : Option (LinkedList V) :=
  match node.next with
  | some next =>
    (modify l.nodes next fun n => { n with prev := node.prev }).map fun nodes =>
      { l with nodes := nodes }
  | none => some { l with tail := node.prev }

/-- The second half: the node's predecessor, or the start of the list, gets its `next`. -/
def unlinkPrev (l : LinkedList V) (node : ListNode V) : Option (LinkedList V) :=
  match node.prev with
  | some prev =>
    (modify l.nodes prev fun n => { n with next := node.next }).map fun nodes =>
      { l with nodes := nodes }
  | none => some { l with head := node.next }

/-- `list_del`. -/
def listDel (l : LinkedList V) (a : ℕ) : Option (LinkedList V) :=
  (l.nodes.find a).bind fun node =>
    (l.unlinkNext node).bind fun l =>
      (l.unlinkPrev node).map fun l => { l with nodes := l.nodes.erase a, len := l.len - 1 }

/-- `list_next`: the node the iterator comes to, if any, and where it goes on. -/
def listNext (l : LinkedList V) : Option ℕ → Option (Option (ℕ × V) × Option ℕ)
  | none => some (none, none)
  | some a => (l.nodes.find a).map fun node => (some (a, node.value), node.next)

/-! ## What a list holds -/

/-- The address of the first item. -/
def first (items : List (ℕ × V)) : Option ℕ := items.head?.map Prod.fst

/-- The address after `a`. -/
def nextOf : List (ℕ × V) → ℕ → Option ℕ
  | [], _ => none
  | (b, _) :: rest, a => if b = a then first rest else nextOf rest a

/-- The address before `a`, where `prev` is before all. -/
def prevOf : Option ℕ → List (ℕ × V) → ℕ → Option ℕ
  | _, [], _ => none
  | prev, (b, _) :: rest, a => if b = a then prev else prevOf (some b) rest a

/-- The address of the last item, or else `prev`. -/
def lastOf : Option ℕ → List (ℕ × V) → Option ℕ
  | prev, [] => prev
  | _, (b, _) :: rest => lastOf (some b) rest

/-- All items but the one at `a`. -/
def without (items : List (ℕ × V)) (a : ℕ) : List (ℕ × V) := items.filter fun item => item.1 ≠ a

structure Holds (l : LinkedList V) (items : List (ℕ × V)) : Prop where
  nodup : (items.map Prod.fst).Nodup
  nodes : ∀ a value, (a, value) ∈ items →
    l.nodes.find a = some ⟨prevOf none items a, nextOf items a, value⟩
  only : ∀ a, l.nodes.find a ≠ none → a ∈ items.map Prod.fst
  head : l.head = first items
  tail : l.tail = lastOf none items
  len : l.len = items.length

theorem holds_empty : Holds (empty : LinkedList V) [] :=
  ⟨List.nodup_nil, fun _ _ h => absurd h List.not_mem_nil, fun a h => absurd (Dict.find_empty a) h,
    rfl, rfl, rfl⟩

/-! ## Neighbours -/

section Neighbours

variable {items rest : List (ℕ × V)} {a b : ℕ} {v : V}

theorem first_mem (h : first items = some a) : a ∈ items.map Prod.fst := by
  cases items with
  | nil => cases h
  | cons item rest =>
    obtain rfl := Option.some.inj h
    exact List.mem_cons_self ..

theorem nextOf_mem (h : nextOf items b = some a) : a ∈ items.map Prod.fst := by
  induction items with
  | nil => cases h
  | cons item rest ih =>
    obtain ⟨c, v⟩ := item
    rw [nextOf] at h
    split_ifs at h
    · exact List.mem_cons_of_mem _ (first_mem h)
    · exact List.mem_cons_of_mem _ (ih h)

theorem without_of_notMem (h : a ∉ items.map Prod.fst) : without items a = items := by
  apply List.filter_eq_self.mpr
  intro item hitem
  rw [decide_eq_true_eq]
  rintro rfl
  exact h (List.mem_map_of_mem hitem)

theorem without_cons_self (h : a ∉ rest.map Prod.fst) : without ((a, v) :: rest) a = rest := by
  have hdrop : without ((a, v) :: rest) a = without rest a := List.filter_cons_of_neg (by simp)
  rw [hdrop, without_of_notMem h]

theorem without_cons_ne (h : b ≠ a) : without ((b, v) :: rest) a = (b, v) :: without rest a :=
  List.filter_cons_of_pos (by simpa using h)

theorem first_without (hnodup : (items.map Prod.fst).Nodup) :
    first (without items a) = if first items = some a then nextOf items a else first items := by
  cases items with
  | nil => rfl
  | cons item rest =>
    obtain ⟨c, v⟩ := item
    by_cases hc : c = a
    · subst hc
      rw [without_cons_self (List.nodup_cons.mp hnodup).1, nextOf, if_pos rfl]
      exact (if_pos rfl).symm
    · rw [without_cons_ne hc]
      exact (if_neg fun h => hc (Option.some.inj h)).symm

/-- The node after the one that is gone comes after the node before it. -/
theorem nextOf_without (hnodup : (items.map Prod.fst).Nodup) (hne : b ≠ a) :
    nextOf (without items a) b =
      if nextOf items b = some a then nextOf items a else nextOf items b := by
  induction items with
  | nil => rfl
  | cons item rest ih =>
    obtain ⟨c, v⟩ := item
    rw [List.map_cons, List.nodup_cons] at hnodup
    by_cases hca : c = a
    · subst hca
      rw [without_cons_self hnodup.1]
      have hskip : nextOf ((c, v) :: rest) b = nextOf rest b := if_neg hne.symm
      rw [hskip, if_neg fun h => hnodup.1 (nextOf_mem h)]
    · have hskip : nextOf ((c, v) :: rest) a = nextOf rest a := if_neg hca
      rw [without_cons_ne hca, hskip]
      by_cases hcb : c = b
      · rw [nextOf, nextOf, if_pos hcb, if_pos hcb]
        exact first_without hnodup.2
      · rw [nextOf, nextOf, if_neg hcb, if_neg hcb]
        exact ih hnodup.2

theorem prevOf_of_first {prev : Option ℕ} (h : first items = some a) :
    prevOf prev items a = prev := by
  cases items with
  | nil => cases h
  | cons item rest =>
    obtain ⟨c, v⟩ := item
    exact if_pos (Option.some.inj h)

/-- What is before all matters to the first item only. -/
theorem prevOf_of_not_first (prev prev' : Option ℕ) (h : first items ≠ some a) :
    prevOf prev items a = prevOf prev' items a := by
  cases items with
  | nil => rfl
  | cons item rest =>
    obtain ⟨c, v⟩ := item
    have hc : c ≠ a := fun hc => h (congrArg some hc)
    rw [prevOf, prevOf, if_neg hc, if_neg hc]

theorem prevOf_mem {prev : Option ℕ} (h : prevOf prev items b = some a) :
    prev = some a ∨ a ∈ items.map Prod.fst := by
  induction items generalizing prev with
  | nil => cases h
  | cons item rest ih =>
    obtain ⟨c, v⟩ := item
    rw [prevOf] at h
    split_ifs at h
    · exact Or.inl h
    · rcases ih h with hc | hmem
      · obtain rfl := Option.some.inj hc
        exact Or.inr (List.mem_cons_self ..)
      · exact Or.inr (List.mem_cons_of_mem _ hmem)

theorem prevOf_without {prev : Option ℕ} (hnodup : (items.map Prod.fst).Nodup) (hne : b ≠ a)
    (hprev : prev ≠ some a) : prevOf prev (without items a) b =
      if prevOf prev items b = some a then prevOf prev items a else prevOf prev items b := by
  induction items generalizing prev with
  | nil => rfl
  | cons item rest ih =>
    obtain ⟨c, v⟩ := item
    rw [List.map_cons, List.nodup_cons] at hnodup
    by_cases hca : c = a
    · subst hca
      rw [without_cons_self hnodup.1]
      have hskip : prevOf prev ((c, v) :: rest) b = prevOf (some c) rest b := if_neg hne.symm
      have hself : prevOf prev ((c, v) :: rest) c = prev := if_pos rfl
      rw [hskip, hself]
      by_cases hfirst : first rest = some b
      · rw [prevOf_of_first hfirst, prevOf_of_first hfirst, if_pos rfl]
      · have hnot : prevOf (some c) rest b ≠ some c := by
          rw [prevOf_of_not_first (some c) none hfirst]
          intro h
          rcases prevOf_mem h with h | h
          · cases h
          · exact hnodup.1 h
        rw [if_neg hnot, prevOf_of_not_first prev (some c) hfirst]
    · rw [without_cons_ne hca]
      by_cases hcb : c = b
      · have hself : ∀ l, prevOf prev ((c, v) :: l) b = prev := fun l => if_pos hcb
        rw [hself, hself, if_neg hprev]
      · have hskip : ∀ l, prevOf prev ((c, v) :: l) b = prevOf (some c) l b := fun l => if_neg hcb
        have hskip' : prevOf prev ((c, v) :: rest) a = prevOf (some c) rest a := if_neg hca
        rw [hskip, hskip, hskip']
        exact ih hnodup.2 fun h => hca (Option.some.inj h)

/-- What comes after `a` has `a` before it. -/
theorem nextOf_iff_prevOf {prev : Option ℕ} (hnodup : (items.map Prod.fst).Nodup)
    (ha : a ∈ items.map Prod.fst) (hb : b ∈ items.map Prod.fst) (hprev : prev ≠ some a) :
    nextOf items a = some b ↔ prevOf prev items b = some a := by
  induction items generalizing prev with
  | nil => exact absurd ha List.not_mem_nil
  | cons item rest ih =>
    obtain ⟨c, v⟩ := item
    rw [List.map_cons, List.nodup_cons] at hnodup
    rw [nextOf, prevOf]
    by_cases hcb : c = b
    · subst hcb
      rw [if_pos rfl]
      refine iff_of_false (fun h => ?_) hprev
      split_ifs at h
      · exact hnodup.1 (first_mem h)
      · exact hnodup.1 (nextOf_mem h)
    · have hb' : b ∈ rest.map Prod.fst := (List.mem_cons.mp hb).resolve_left (Ne.symm hcb)
      rw [if_neg hcb]
      by_cases hca : c = a
      · subst hca
        rw [if_pos rfl]
        constructor
        · exact prevOf_of_first
        · intro h
          by_contra hfirst
          rw [prevOf_of_not_first (some c) none hfirst] at h
          rcases prevOf_mem h with h | h
          · cases h
          · exact hnodup.1 h
      · rw [if_neg hca]
        exact ih hnodup.2 ((List.mem_cons.mp ha).resolve_left (Ne.symm hca)) hb'
          fun h => hca (Option.some.inj h)

theorem prevOf_ne_none {c : ℕ} (ha : a ∈ items.map Prod.fst) : prevOf (some c) items a ≠ none := by
  induction items generalizing c with
  | nil => exact absurd ha List.not_mem_nil
  | cons item rest ih =>
    obtain ⟨d, v⟩ := item
    rw [prevOf]
    split_ifs with hd
    · exact Option.some_ne_none c
    · exact ih ((List.mem_cons.mp ha).resolve_left (Ne.symm hd))

theorem lastOf_without {prev : Option ℕ} (hnodup : (items.map Prod.fst).Nodup)
    (ha : a ∈ items.map Prod.fst) : lastOf prev (without items a) =
      if nextOf items a = none then prevOf prev items a else lastOf prev items := by
  induction items generalizing prev with
  | nil => exact absurd ha List.not_mem_nil
  | cons item rest ih =>
    obtain ⟨c, v⟩ := item
    rw [List.map_cons, List.nodup_cons] at hnodup
    by_cases hca : c = a
    · subst hca
      rw [without_cons_self hnodup.1, nextOf, prevOf, if_pos rfl, if_pos rfl]
      cases rest with
      | nil => exact (if_pos rfl).symm
      | cons item rest => exact (if_neg (Option.some_ne_none _)).symm
    · rw [without_cons_ne hca, nextOf, prevOf, if_neg hca, if_neg hca]
      exact ih hnodup.2 ((List.mem_cons.mp ha).resolve_left (Ne.symm hca))

theorem lastOf_mem {prev : Option ℕ} (h : lastOf prev items = some a) :
    (items = [] ∧ prev = some a) ∨ a ∈ items.map Prod.fst := by
  induction items generalizing prev with
  | nil => exact Or.inl ⟨rfl, h⟩
  | cons item rest ih =>
    obtain ⟨c, v⟩ := item
    rcases ih h with ⟨-, hc⟩ | hmem
    · obtain rfl := Option.some.inj hc
      exact Or.inr (List.mem_cons_self ..)
    · exact Or.inr (List.mem_cons_of_mem _ hmem)

theorem length_without (hnodup : (items.map Prod.fst).Nodup) (ha : a ∈ items.map Prod.fst) :
    (without items a).length + 1 = items.length := by
  induction items with
  | nil => exact absurd ha List.not_mem_nil
  | cons item rest ih =>
    obtain ⟨c, v⟩ := item
    rw [List.map_cons, List.nodup_cons] at hnodup
    by_cases hca : c = a
    · subst hca
      rw [without_cons_self hnodup.1, List.length_cons]
    · rw [without_cons_ne hca, List.length_cons, List.length_cons,
        ih hnodup.2 ((List.mem_cons.mp ha).resolve_left (Ne.symm hca))]

theorem lastOf_concat (prev : Option ℕ) (items : List (ℕ × V)) (a : ℕ) (w : V) :
    lastOf prev (items ++ [(a, w)]) = some a := by
  induction items generalizing prev with
  | nil => rfl
  | cons item rest ih => exact ih (some item.1)

/-- The first item is the one that nothing comes before. -/
theorem prevOf_eq_none_iff (ha : a ∈ items.map Prod.fst) :
    prevOf none items a = none ↔ first items = some a := by
  constructor
  · intro h
    by_contra hfirst
    cases items with
    | nil => exact absurd ha List.not_mem_nil
    | cons item rest =>
      obtain ⟨c, v⟩ := item
      have hca : c ≠ a := fun hc => hfirst (congrArg some hc)
      rw [prevOf, if_neg hca] at h
      exact prevOf_ne_none ((List.mem_cons.mp ha).resolve_left (Ne.symm hca)) h
  · exact prevOf_of_first

/-! ### A node that is put between others -/

variable {front : List (ℕ × V)}

theorem nextOf_middle (ha : a ∉ front.map Prod.fst) :
    nextOf (front ++ (a, v) :: rest) a = first rest := by
  induction front with
  | nil => exact if_pos rfl
  | cons item front ih =>
    rw [List.map_cons, List.mem_cons, not_or] at ha
    rw [List.cons_append, nextOf, if_neg (Ne.symm ha.1)]
    exact ih ha.2

theorem prevOf_middle {prev : Option ℕ} (ha : a ∉ front.map Prod.fst) :
    prevOf prev (front ++ (a, v) :: rest) a = lastOf prev front := by
  induction front generalizing prev with
  | nil => exact if_pos rfl
  | cons item front ih =>
    rw [List.map_cons, List.mem_cons, not_or] at ha
    rw [List.cons_append, prevOf, if_neg (Ne.symm ha.1), lastOf]
    exact ih ha.2

theorem lastOf_append (prev : Option ℕ) (front rest : List (ℕ × V)) :
    lastOf prev (front ++ rest) = lastOf (lastOf prev front) rest := by
  induction front generalizing prev with
  | nil => rfl
  | cons item front ih => exact ih (some item.1)

theorem lastOf_eq_none {prev : Option ℕ} (h : lastOf prev items = none) : items = [] := by
  induction items generalizing prev with
  | nil => rfl
  | cons item rest ih =>
    obtain rfl := ih h
    cases h

/-- The new node comes after the last node before it. -/
theorem nextOf_insert {prev : Option ℕ} (hnodup : (front.map Prod.fst).Nodup) (hne : b ≠ a)
    (hprev : prev ≠ some b) : nextOf (front ++ (a, v) :: rest) b =
      if lastOf prev front = some b then some a else nextOf (front ++ rest) b := by
  induction front generalizing prev with
  | nil =>
    rw [List.nil_append, List.nil_append, lastOf, if_neg hprev]
    exact if_neg hne.symm
  | cons item front ih =>
    obtain ⟨c, w⟩ := item
    rw [List.map_cons, List.nodup_cons] at hnodup
    rw [List.cons_append, List.cons_append, nextOf, nextOf, lastOf]
    by_cases hcb : c = b
    · subst hcb
      rw [if_pos rfl, if_pos rfl]
      cases front with
      | nil => exact (if_pos rfl).symm
      | cons item front =>
        rw [if_neg]
        · rfl
        · intro hlast
          rcases lastOf_mem hlast with ⟨hnil, -⟩ | hmem
          · cases hnil
          · exact hnodup.1 hmem
    · rw [if_neg hcb, if_neg hcb]
      exact ih hnodup.2 fun h => hcb (Option.some.inj h)

/-- And before the first node after it. -/
theorem prevOf_insert {prev : Option ℕ} (hnodup : ((front ++ rest).map Prod.fst).Nodup)
    (hne : b ≠ a) : prevOf prev (front ++ (a, v) :: rest) b =
      if first rest = some b then some a else prevOf prev (front ++ rest) b := by
  induction front generalizing prev with
  | nil =>
    have hskip : prevOf prev ([] ++ (a, v) :: rest) b = prevOf (some a) rest b := if_neg hne.symm
    rw [hskip, List.nil_append]
    by_cases hfirst : first rest = some b
    · rw [if_pos hfirst, prevOf_of_first hfirst]
    · rw [if_neg hfirst, prevOf_of_not_first (some a) prev hfirst]
  | cons item front ih =>
    obtain ⟨c, w⟩ := item
    rw [List.cons_append, List.map_cons, List.nodup_cons] at hnodup
    rw [List.cons_append, List.cons_append, prevOf, prevOf]
    by_cases hcb : c = b
    · rw [if_pos hcb, if_pos hcb, if_neg]
      intro hfirst
      refine hnodup.1 ?_
      rw [List.map_append, hcb]
      exact List.mem_append_right _ (first_mem hfirst)
    · rw [if_neg hcb, if_neg hcb]
      exact ih hnodup.2

end Neighbours

/-! ## Operations -/

section Operations

variable {l : LinkedList V} {items : List (ℕ × V)} {a b : ℕ} {value : V}

theorem modify_eq {nodes : Dict ℕ (ListNode V)} {node : ListNode V} (f : ListNode V → ListNode V)
    (h : nodes.find a = some node) : modify nodes a f = some (nodes.insert a (f node)) := by
  unfold modify
  rw [h, Option.map_some]

theorem find_modify {nodes nodes' : Dict ℕ (ListNode V)} {f : ListNode V → ListNode V}
    (h : modify nodes a f = some nodes') (b : ℕ) :
    nodes'.find b = (nodes.find b).map fun node => if a = b then f node else node := by
  unfold modify at h
  obtain ⟨node, hnode, rfl⟩ := Option.map_eq_some_iff.mp h
  rw [Dict.find_insert]
  by_cases hab : b = a
  · rw [if_pos hab, hab, hnode, Option.map_some, if_pos rfl]
  · rw [if_neg hab]
    have hid : (fun node => if a = b then f node else node) = id := by
      funext node
      exact if_neg (Ne.symm hab)
    rw [hid, Option.map_id_fun, id]

/-- A write to a node that is there. -/
theorem exists_modify (nodes : Dict ℕ (ListNode V)) {n : ℕ} (f : ListNode V → ListNode V)
    (hn : nodes.find n ≠ none) :
    ∃ nodes', modify nodes n f = some nodes' ∧ ∀ b, nodes'.find b =
      (nodes.find b).map fun node => if some n = some b then f node else node := by
  obtain ⟨node, hnode⟩ := Option.ne_none_iff_exists'.mp hn
  have hmodify := modify_eq f hnode
  refine ⟨_, hmodify, fun b => ?_⟩
  rw [find_modify hmodify]
  simp only [Option.some.injEq]

theorem exists_unlinkNext (node : ListNode V)
    (hnext : ∀ b, node.next = some b → l.nodes.find b ≠ none) :
    ∃ l', l.unlinkNext node = some l' ∧
      (∀ b, l'.nodes.find b = (l.nodes.find b).map fun n =>
        { n with prev := if node.next = some b then node.prev else n.prev }) ∧
      l'.head = l.head ∧ l'.tail = (if node.next = none then node.prev else l.tail) ∧
      l'.len = l.len := by
  obtain ⟨prev, next, value⟩ := node
  cases next with
  | none =>
    refine ⟨{ l with tail := prev }, rfl, fun b => ?_, rfl, rfl, rfl⟩
    show l.nodes.find b = _
    cases l.nodes.find b <;> rfl
  | some n =>
    obtain ⟨nodes, hmodify, hfind⟩ :=
      exists_modify l.nodes (fun n => { n with prev := prev }) (hnext n rfl)
    refine ⟨{ l with nodes := nodes }, ?_, fun b => ?_, rfl, rfl, rfl⟩
    · show Option.map _ (modify l.nodes n fun n => { n with prev := prev }) = _
      rw [hmodify]
      rfl
    · rw [hfind]
      congr 1
      funext node
      split_ifs <;> rfl

theorem exists_unlinkPrev (node : ListNode V)
    (hprev : ∀ b, node.prev = some b → l.nodes.find b ≠ none) :
    ∃ l', l.unlinkPrev node = some l' ∧
      (∀ b, l'.nodes.find b = (l.nodes.find b).map fun n =>
        { n with next := if node.prev = some b then node.next else n.next }) ∧
      l'.head = (if node.prev = none then node.next else l.head) ∧ l'.tail = l.tail ∧
      l'.len = l.len := by
  obtain ⟨prev, next, value⟩ := node
  cases prev with
  | none =>
    refine ⟨{ l with head := next }, rfl, fun b => ?_, rfl, rfl, rfl⟩
    show l.nodes.find b = _
    cases l.nodes.find b <;> rfl
  | some n =>
    obtain ⟨nodes, hmodify, hfind⟩ :=
      exists_modify l.nodes (fun n => { n with next := next }) (hprev n rfl)
    refine ⟨{ l with nodes := nodes }, ?_, fun b => ?_, rfl, rfl, rfl⟩
    · show Option.map _ (modify l.nodes n fun n => { n with next := next }) = _
      rw [hmodify]
      rfl
    · rw [hfind]
      congr 1
      funext node
      split_ifs <;> rfl

/-- What `list_del` writes. -/
theorem exists_listDel {prev next : Option ℕ} (ha : l.nodes.find a = some ⟨prev, next, value⟩)
    (hnext : ∀ b, next = some b → l.nodes.find b ≠ none)
    (hprev : ∀ b, prev = some b → l.nodes.find b ≠ none) :
    ∃ l', l.listDel a = some l' ∧
      (∀ b, l'.nodes.find b = if b = a then none else (l.nodes.find b).map fun node =>
        ⟨if next = some b then prev else node.prev, if prev = some b then next else node.next,
          node.value⟩) ∧
      l'.head = (if prev = none then next else l.head) ∧
      l'.tail = (if next = none then prev else l.tail) ∧ l'.len = l.len - 1 := by
  obtain ⟨right, hright, hrfind, hrhead, hrtail, hrlen⟩ :=
    exists_unlinkNext (l := l) ⟨prev, next, value⟩ hnext
  have hprev' : ∀ b, prev = some b → right.nodes.find b ≠ none := by
    intro b hb hnone
    rw [hrfind, Option.map_eq_none_iff] at hnone
    exact hprev b hb hnone
  obtain ⟨left, hleft, hlfind, hlhead, hltail, hllen⟩ :=
    exists_unlinkPrev (l := right) ⟨prev, next, value⟩ hprev'
  refine ⟨{ left with nodes := left.nodes.erase a, len := left.len - 1 }, ?_, fun b => ?_, ?_, ?_,
    ?_⟩
  · rw [listDel, ha, Option.bind_some, hright, Option.bind_some, hleft, Option.map_some]
  · dsimp only
    rw [Dict.find_erase, hlfind, hrfind, Option.map_map]
    rfl
  · rw [← hrhead]
    exact hlhead
  · exact hltail.trans hrtail
  · show left.len - 1 = _
    rw [hllen, hrlen]

theorem Holds.mem_of_find (h : Holds l items) {node : ListNode V}
    (ha : l.nodes.find a = some node) :
    (a, node.value) ∈ items := by
  have hsome : l.nodes.find a ≠ none := by
    rw [ha]
    exact Option.some_ne_none node
  obtain ⟨⟨a', value⟩, hmem, rfl⟩ := List.mem_map.mp (h.only a hsome)
  have hnode := h.nodes _ _ hmem
  rw [ha] at hnode
  obtain rfl := Option.some.inj hnode
  exact hmem

theorem Holds.find_ne_none (h : Holds l items) (ha : a ∈ items.map Prod.fst) :
    l.nodes.find a ≠ none := by
  obtain ⟨⟨a', value⟩, hmem, rfl⟩ := List.mem_map.mp ha
  rw [h.nodes _ _ hmem]
  exact Option.some_ne_none _

/-- **To delete a node takes its item out.** -/
theorem holds_listDel (h : Holds l items) (ha : a ∈ items.map Prod.fst) :
    ∃ l', l.listDel a = some l' ∧ Holds l' (without items a) := by
  obtain ⟨⟨a', value⟩, hmem, rfl⟩ := List.mem_map.mp ha
  have hprevmem : ∀ b, prevOf none items a' = some b → b ∈ items.map Prod.fst := fun b hb =>
    (prevOf_mem hb).resolve_left fun h => by cases h
  obtain ⟨l', hdel, hfind, hhead, htail, hlen⟩ := exists_listDel (h.nodes a' value hmem)
    (fun b hb => h.find_ne_none (nextOf_mem hb)) fun b hb => h.find_ne_none (hprevmem b hb)
  refine ⟨l', hdel, (List.Sublist.map _ List.filter_sublist).nodup h.nodup, fun b w hb => ?_,
    fun b hb => ?_, ?_, ?_, ?_⟩
  · obtain ⟨hitem, hne⟩ := List.mem_filter.mp hb
    have hne : b ≠ a' := by simpa using hne
    have hbmem := List.mem_map_of_mem (f := Prod.fst) hitem
    rw [hfind, if_neg hne, h.nodes b w hitem, Option.map_some, nextOf_without h.nodup hne,
      prevOf_without h.nodup hne fun h => by cases h]
    dsimp only
    have hright : nextOf items a' = some b ↔ prevOf none items b = some a' :=
      nextOf_iff_prevOf h.nodup ha hbmem fun h => by cases h
    have hleft : nextOf items b = some a' ↔ prevOf none items a' = some b :=
      nextOf_iff_prevOf h.nodup hbmem ha fun h => by cases h
    simp only [hright, hleft]
  · rw [hfind] at hb
    by_cases hba : b = a'
    · exact absurd (if_pos hba) hb
    · rw [if_neg hba] at hb
      have hold : l.nodes.find b ≠ none := fun hnone => hb (by rw [hnone]; rfl)
      obtain ⟨item, hitem, rfl⟩ := List.mem_map.mp (h.only b hold)
      exact List.mem_map_of_mem (List.mem_filter.mpr ⟨hitem, by simpa using hba⟩)
  · rw [hhead, first_without h.nodup, h.head]
    simp only [prevOf_eq_none_iff ha]
  · rw [htail, lastOf_without h.nodup ha, h.tail]
  · have hlength := length_without h.nodup ha
    rw [hlen, h.len]
    omega

/-- **A node that has been put between others.** -/
theorem Holds.insert {l' : LinkedList V} {front rest : List (ℕ × V)} (h : Holds l (front ++ rest))
    (ha : l.nodes.find a = none)
    (hfind : ∀ b, l'.nodes.find b =
      if b = a then some ⟨lastOf none front, first rest, value⟩
      else (l.nodes.find b).map fun node =>
        ⟨if first rest = some b then some a else node.prev,
          if lastOf none front = some b then some a else node.next, node.value⟩)
    (hhead : l'.head = if lastOf none front = none then some a else l.head)
    (htail : l'.tail = if first rest = none then some a else l.tail) (hlen : l'.len = l.len + 1) :
    Holds l' (front ++ (a, value) :: rest) := by
  have hfresh : a ∉ (front ++ rest).map Prod.fst := fun hmem => h.find_ne_none hmem ha
  have hfront : a ∉ front.map Prod.fst := by
    rw [List.map_append, List.mem_append, not_or] at hfresh
    exact hfresh.1
  have hperm : ((front ++ (a, value) :: rest).map Prod.fst).Perm
      (a :: (front ++ rest).map Prod.fst) := List.perm_middle.map Prod.fst
  have hnodup := h.nodup
  rw [List.map_append] at hnodup
  refine ⟨hperm.nodup_iff.mpr (List.nodup_cons.mpr ⟨hfresh, h.nodup⟩), ?_, ?_, ?_, ?_, ?_⟩
  · intro b v hb
    rw [hfind]
    rcases List.mem_cons.mp (List.perm_middle.mem_iff.mp hb) with hb | hb
    · obtain ⟨rfl, rfl⟩ := Prod.mk.inj hb
      rw [if_pos rfl, nextOf_middle hfront, prevOf_middle hfront]
    · have hba : b ≠ a := fun heq => hfresh (heq ▸ List.mem_map_of_mem hb)
      rw [if_neg hba, h.nodes b v hb, Option.map_some, prevOf_insert h.nodup hba,
        nextOf_insert (List.nodup_append'.mp hnodup).1 hba (Option.some_ne_none b).symm]
  · intro b hb
    rw [hperm.mem_iff, List.mem_cons]
    by_cases hba : b = a
    · exact Or.inl hba
    · rw [hfind, if_neg hba] at hb
      exact Or.inr (h.only b fun hnone => hb (by rw [hnone]; rfl))
  · rw [hhead]
    cases front with
    | nil => exact if_pos rfl
    | cons item front =>
      rw [if_neg fun hnone => List.cons_ne_nil _ _ (lastOf_eq_none hnone), h.head]
      rfl
  · rw [htail, lastOf_append, lastOf]
    cases rest with
    | nil => exact if_pos rfl
    | cons item rest =>
      rw [h.tail, lastOf_append]
      exact if_neg (Option.some_ne_none _)
  · rw [hlen, h.len, List.perm_middle.length_eq, List.length_cons]

theorem Holds.find_eq_none (h : Holds l items) (ha : a ∉ items.map Prod.fst) :
    l.nodes.find a = none := by
  by_contra hsome
  exact ha (h.only a hsome)

variable (value) in
/-- **To add a node at a free address puts its item last.** -/
theorem holds_listAddNodeTail (h : Holds l items) (ha : a ∉ items.map Prod.fst) :
    ∃ l', l.listAddNodeTail a value = some l' ∧ Holds l' (items ++ [(a, value)]) := by
  have hfree := h.find_eq_none ha
  rcases List.eq_nil_or_concat' items with rfl | ⟨front, ⟨last, w⟩, rfl⟩
  · have hlen : l.len = 0 := h.len
    have hnil : Holds l ([] ++ []) := h
    refine ⟨_, by rw [listAddNodeTail, hlen], hnil.insert hfree (fun b => ?_) rfl rfl ?_⟩
    · rw [Dict.find_insert]
      by_cases hba : b = a
      · rw [if_pos hba, if_pos hba]
        rfl
      · rw [if_neg hba, if_neg hba]
        cases l.nodes.find b <;> rfl
    · rw [hlen]
  · have hlast : last ∈ (front ++ [(last, w)]).map Prod.fst := by simp
    have hlen : l.len = front.length + 1 := h.len.trans List.length_append
    have htail : l.tail = some last := h.tail.trans (lastOf_concat none front last w)
    obtain ⟨node, hnode⟩ := Option.ne_none_iff_exists'.mp (h.find_ne_none hlast)
    have hmodify := modify_eq (fun node => { node with next := some a }) hnode
    have hadd : l.listAddNodeTail a value =
        some ⟨(l.nodes.insert last { node with next := some a }).insert a ⟨some last, none, value⟩,
          l.head, some a, front.length + 2⟩ := by
      rw [listAddNodeTail, hlen, htail]
      show Option.map _ (modify l.nodes last fun node => { node with next := some a }) = _
      rw [hmodify]
      rfl
    have hend : Holds l ((front ++ [(last, w)]) ++ []) := by rwa [List.append_nil]
    refine ⟨_, hadd, hend.insert hfree (fun b => ?_) ?_ rfl ?_⟩
    · rw [Dict.find_insert, lastOf_concat]
      by_cases hba : b = a
      · rw [if_pos hba, if_pos hba]
        rfl
      · rw [if_neg hba, if_neg hba, find_modify hmodify]
        congr 1
        funext node
        by_cases hlb : last = b
        · rw [if_pos hlb, if_pos (congrArg some hlb)]
          rfl
        · rw [if_neg hlb, if_neg fun heq => hlb (Option.some.inj heq)]
          rfl
    · rw [lastOf_concat]
      rfl
    · rw [hlen]

theorem listNext_of_mem (h : Holds l items) (ha : (a, value) ∈ items) :
    l.listNext (some a) = some (some (a, value), nextOf items a) := by
  show Option.map _ (l.nodes.find a) = _
  rw [h.nodes a value ha, Option.map_some]

/-! ### An iterator in the middle -/

theorem Holds.notMem_front {front rest : List (ℕ × V)} (h : Holds l (front ++ (a, value) :: rest)) :
    a ∉ front.map Prod.fst := by
  have hnodup := h.nodup
  rw [List.map_append, List.map_cons, List.nodup_append'] at hnodup
  exact fun hmem => hnodup.2.2 hmem (List.mem_cons_self ..)

theorem Holds.mem_middle {front rest : List (ℕ × V)} (_ : Holds l (front ++ (a, value) :: rest)) :
    (a, value) ∈ front ++ (a, value) :: rest :=
  List.mem_append_right _ (List.mem_cons_self ..)

theorem listNext_middle {front rest : List (ℕ × V)} (h : Holds l (front ++ (a, value) :: rest)) :
    l.listNext (some a) = some (some (a, value), first rest) := by
  rw [listNext_of_mem h h.mem_middle, nextOf_middle h.notMem_front]

theorem holds_listDel_middle {front rest : List (ℕ × V)}
    (h : Holds l (front ++ (a, value) :: rest)) :
    ∃ l', l.listDel a = some l' ∧ Holds l' (front ++ rest) := by
  obtain ⟨l', hdel, hl'⟩ := holds_listDel h (List.mem_map_of_mem h.mem_middle)
  have hnodup := h.nodup
  rw [List.map_append, List.map_cons, List.nodup_append'] at hnodup
  have hself : without ((a, value) :: rest) a = rest :=
    without_cons_self (List.nodup_cons.mp hnodup.2.1).1
  have hwithout : without (front ++ (a, value) :: rest) a = front ++ rest := by
    rw [without, List.filter_append]
    exact congrArg₂ _ (without_of_notMem h.notMem_front) hself
  exact ⟨l', hdel, hwithout ▸ hl'⟩

theorem listNext_none (l : LinkedList V) : l.listNext none = some (none, none) := rfl

end Operations

end LinkedList

end ViabtcExchange
