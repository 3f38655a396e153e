import ViabtcExchange.Lib.Dict
import ViabtcExchange.Lib.Pointers

/-!
# Skiplists (`ut_skiplist.c`)

A node has a pointer for each level that it is on. The nodes on a level make a chain behind the
header, and every node is on level 0. A search goes along a level as far as it can and then one
level down; the nodes where it has gone down (`update`) are those whose pointers an insertion or a
deletion changes.

`Skiplist.Holds` says what a skiplist holds: values in their order, with the address and the height
of the node of each. **Theorem (`skiplist_refines`).** Whatever the heights, a skiplist is the set
of its values, through every sequence of operations.
-/

namespace ViabtcExchange

/-- `SKIPLIST_MAX_LEVEL`. -/
def skiplistMaxLevel : ℕ := 16

/-- `skiplist_node`: the header has no value. -/
structure SkiplistNode (V : Type) where
  value : Option V
  forward : List (Option ℕ)

/-- `skiplist_t`, with the memory that its nodes are in. -/
structure Skiplist (V : Type) where
  nodes : Dict ℕ (SkiplistNode V)
  header : ℕ
  level : ℕ
  len : ℕ

namespace Skiplist

variable {V : Type}

/-! ## Operations

What has been freed is gone: an operation that reads it is nothing (`none`), and so is one that
reads a pointer which a node does not have, and a loop that does not end.
-/

section Operations

/-- `skiplist_create`, with the header at an address. -/
def skiplistCreate (header : ℕ) : Skiplist V :=
  ⟨Finmap.insert header ⟨none, List.replicate skiplistMaxLevel none⟩ ∅, header, 1, 0⟩

/-- `node->forward[i]`. -/
def forwardAt (nodes : Dict ℕ (SkiplistNode V)) (i a : ℕ) : Option (Option ℕ) :=
  (nodes.find a).bind fun node => node.forward[i]?

def valueAt (nodes : Dict ℕ (SkiplistNode V)) (a : ℕ) : Option V :=
  (nodes.find a).bind SkiplistNode.value

/-- `node->forward[i] = p`. -/
def setForward (nodes : Dict ℕ (SkiplistNode V)) (a i : ℕ) (p : Option ℕ) :
    Option (Dict ℕ (SkiplistNode V)) :=
  (nodes.find a).bind fun node =>
    if i < node.forward.length then
      some (nodes.insert a { node with forward := node.forward.set i p })
    else none

variable (compare : V → V → ℤ) (t : Skiplist V)

/-- The loop of a search from level `i - 1` down to 0: the node it ends at, and `update`. -/
def descend (go : V → Bool) : ℕ → ℕ → Option (ℕ × List ℕ)
  | 0, node => some (node, [])
  | i + 1, node =>
    (walk (forwardAt t.nodes i) (fun b => (valueAt t.nodes b).map go) (t.len + 1) node).bind
      fun node => (descend go i node).map fun r => (r.1, r.2 ++ [node])

/-- If `compare(node->value, value) == 0`, of a node that has a value. -/
def isEqual (node : SkiplistNode V) (value : V) : Bool :=
  node.value.any fun v => compare v value = 0

/-- The first `i` levels of the loop that links a new node in. -/
def linkLevels (a : ℕ) (update : List ℕ) :
    ℕ → Dict ℕ (SkiplistNode V) → Option (Dict ℕ (SkiplistNode V))
  | 0, nodes => some nodes
  | i + 1, nodes =>
    (linkLevels a update i nodes).bind fun nodes =>
      update[i]?.bind fun u =>
        (forwardAt nodes i u).bind fun p =>
          (setForward nodes a i p).bind fun nodes => setForward nodes u i (some a)

/-- `skiplist_random_level`, with what `random` returns: its loop ends at the first draw that is not
below `SKIPLIST_P`. -/
def skiplistRandomLevel (draws : List ℕ) : ℕ :=
  min (1 + (draws.takeWhile fun r => 4 * (r &&& 0xFFFF) < 0xFFFF).length) skiplistMaxLevel

/-- `skiplist_insert`, with the address of the new node, if there is memory for it: whether it
returns other than `NULL`, and the list. -/
def skiplistInsert (value : V) (draws : List ℕ) (alloc : Option ℕ) : Option (Bool × Skiplist V) :=
  (t.descend (fun v => compare v value ≤ 0) t.level t.header).bind fun r =>
    (t.nodes.find r.1).bind fun node =>
      if isEqual compare node value then some (false, t)
      else
        let level := skiplistRandomLevel draws
        let update := r.2 ++ List.replicate (level - t.level) t.header
        match alloc with
        | none => some (false, { t with level := max t.level level })
        | some a =>
          let nodes := t.nodes.insert a ⟨some value, List.replicate level none⟩
          (linkLevels a update level nodes).map fun nodes =>
            (true, ⟨nodes, t.header, max t.level level, t.len + 1⟩)

/-- `skiplist_find`. -/
def skiplistFind (value : V) : Option (Option ℕ) :=
  (t.descend (fun v => compare v value ≤ 0) t.level t.header).bind fun r =>
    (t.nodes.find r.1).map fun node => if isEqual compare node value then some r.1 else none

/-- The first `i` levels of the loop that unlinks `x`. -/
def unlinkLevels (x : ℕ) (update : List ℕ) :
    ℕ → Dict ℕ (SkiplistNode V) → Option (Dict ℕ (SkiplistNode V))
  | 0, nodes => some nodes
  | i + 1, nodes =>
    (unlinkLevels x update i nodes).bind fun nodes =>
      update[i]?.bind fun u =>
        (forwardAt nodes i u).bind fun p =>
          if p = some x then (forwardAt nodes i x).bind fun q => setForward nodes u i q
          else some nodes

/-- Levels that have become empty are taken off, but for the last. -/
def lowerLevel (nodes : Dict ℕ (SkiplistNode V)) (header : ℕ) : ℕ → Option ℕ
  | 0 => some 0
  | level + 1 =>
    if level = 0 then some 1
    else
      match forwardAt nodes level header with
      | none => none
      | some none => lowerLevel nodes header level
      | some (some _) => some (level + 1)

/-- `skiplist_delete`. -/
def skiplistDelete (x : ℕ) : Option (Skiplist V) :=
  (valueAt t.nodes x).bind fun value =>
    (t.descend (fun v => compare v value < 0) t.level t.header).bind fun r =>
      (unlinkLevels x r.2 t.level t.nodes).bind fun nodes =>
        (lowerLevel nodes t.header t.level).map fun level =>
          ⟨nodes.erase x, t.header, level, t.len - 1⟩

/-- `skiplist_get_iterator`: where the iterator goes on. -/
def skiplistGetIterator : Option (Option ℕ) := forwardAt t.nodes 0 t.header

/-- `skiplist_next`: the node that the iterator comes to, and where it goes on. -/
def skiplistNext : Option ℕ → Option (Option ℕ × Option ℕ)
  | none => some (none, none)
  | some a => (forwardAt t.nodes 0 a).map fun next => (some a, next)

/-- A loop over a skiplist that deletes each node with a value that `del` picks: the values it comes
to, and what is left. -/
def iterate (del : V → Bool) : ℕ → Option ℕ → Skiplist V → Option (List V × Skiplist V)
  | 0, _, _ => none
  | rounds + 1, iter, t =>
    (t.skiplistNext iter).bind fun r =>
      match r.1 with
      | none => some ([], t)
      | some a =>
        (valueAt t.nodes a).bind fun value =>
          (if del value then t.skiplistDelete compare a else some t).bind fun t =>
            (iterate del rounds r.2 t).map fun s => (value :: s.1, s.2)

/-- The nodes of a level, from the header on. -/
def chain (i : ℕ) : Option (List ℕ) :=
  (forwardAt t.nodes i t.header).bind (follow (forwardAt t.nodes i) t.len)

end Operations

/-! ## What memory holds -/

/-- A node with its value and its height. -/
structure Tower (V : Type) where
  node : ℕ
  value : V
  height : ℕ

/-- The chain of a level, with the header. -/
def row (header : ℕ) (items : List (Tower V)) (i : ℕ) : List ℕ :=
  header :: (items.filter fun w => i < w.height).map Tower.node

/-- Where a search goes down from level `i` when it has passed `items`. -/
def lastOf (header : ℕ) (items : List (Tower V)) (i : ℕ) : ℕ :=
  (row header items i).getLast (List.cons_ne_nil _ _)

/-- A skiplist holds these towers, in their order. -/
structure Holds [LinearOrder V] (t : Skiplist V) (items : List (Tower V)) : Prop where
  nodup : (row t.header items 0).Nodup
  values : ∀ a v, valueAt t.nodes a = some v ↔ ∃ w ∈ items, w.node = a ∧ w.value = v
  linked : ∀ i < skiplistMaxLevel, Linked (forwardAt t.nodes i) (row t.header items i)
  heights : ∀ w ∈ items, 0 < w.height ∧ w.height ≤ t.level
  level_pos : 0 < t.level
  level_le : t.level ≤ skiplistMaxLevel
  len : t.len = items.length
  sorted : (items.map Tower.value).Pairwise (· < ·)

section Rows

variable {header i j : ℕ} {items lo hi : List (Tower V)} {w : Tower V}

theorem row_append : row header (lo ++ hi) i =
    row header lo i ++ (hi.filter fun w => i < w.height).map Tower.node := by
  simp [row]

theorem mem_middle {u : Tower V} : u ∈ lo ++ w :: hi ↔ u = w ∨ u ∈ lo ++ hi := by
  rw [List.mem_append, List.mem_cons, List.mem_append]
  tauto

theorem header_mem_row : header ∈ row header items i := List.mem_cons_self

theorem node_mem_row (hw : w ∈ items) (hi : i < w.height) : w.node ∈ row header items i :=
  List.mem_cons_of_mem _ (List.mem_map_of_mem (List.mem_filter.mpr ⟨hw, decide_eq_true hi⟩))

theorem row_sublist (h : i ≤ j) : (row header items j).Sublist (row header items i) := by
  refine List.Sublist.cons_cons _ (List.Sublist.map _ ?_)
  refine List.monotone_filter_right items fun w hw => ?_
  exact decide_eq_true (h.trans_lt (of_decide_eq_true hw))

/-- No tower is so high. -/
theorem row_of_heights (h : ∀ w ∈ items, w.height ≤ i) : row header items i = [header] := by
  have hnone : items.filter (fun w => i < w.height) = [] := by
    refine List.filter_eq_nil_iff.mpr fun w hw => ?_
    simpa using h w hw
  rw [row, hnone, List.map_nil]

theorem lastOf_of_heights (h : ∀ w ∈ items, w.height ≤ i) : lastOf header items i = header := by
  simp only [lastOf, row_of_heights h, List.getLast_singleton]

theorem lastOf_mem : lastOf header items i ∈ row header items i := List.getLast_mem _

theorem row_eq_append_lastOf :
    row header items i = (row header items i).dropLast ++ [lastOf header items i] :=
  (List.dropLast_append_getLast _).symm

theorem lastOf_concat (hw : i < w.height) : lastOf header (lo ++ [w]) i = w.node := by
  have hfilter : [w].filter (fun w => i < w.height) = [w] := by simp [hw]
  simp only [lastOf, row_append, hfilter, List.map_singleton, List.getLast_append_singleton]

theorem row_append_eq : row header (lo ++ hi) i =
    (row header lo i).dropLast ++
      lastOf header lo i :: (hi.filter fun w => i < w.height).map Tower.node := by
  rw [row_append, row_eq_append_lastOf, List.append_assoc, List.singleton_append,
    List.dropLast_concat, lastOf]

/-- A tower that is put between others is on the levels below its height. -/
theorem row_middle_of_lt (hw : i < w.height) : row header (lo ++ w :: hi) i =
    (row header lo i).dropLast ++
      lastOf header lo i :: w.node :: (hi.filter fun w => i < w.height).map Tower.node := by
  rw [row_append_eq, List.filter_cons, if_pos (decide_eq_true hw), List.map_cons]

theorem row_middle_of_le (hw : w.height ≤ i) :
    row header (lo ++ w :: hi) i = row header (lo ++ hi) i := by
  have hfalse : ¬decide (i < w.height) = true := by simpa using hw
  rw [row_append, row_append, List.filter_cons, if_neg hfalse]

end Rows

/-! ## Reads and writes -/

section Memory

variable {nodes : Dict ℕ (SkiplistNode V)} {i j a b x : ℕ} {p q : Option ℕ} {update : List ℕ}

theorem exists_of_forwardAt (h : forwardAt nodes i a = some p) :
    ∃ node, nodes.find a = some node ∧ node.forward[i]? = some p := Option.bind_eq_some_iff.mp h

/-- A pointer that can be read can be written. -/
theorem setForward_spec (h : forwardAt nodes i a = some q) (p : Option ℕ) :
    ∃ nodes', setForward nodes a i p = some nodes' ∧ (∀ b, valueAt nodes' b = valueAt nodes b) ∧
      ∀ j b, forwardAt nodes' j b = if j = i ∧ b = a then some p else forwardAt nodes j b := by
  obtain ⟨node, hnode, hq⟩ := exists_of_forwardAt h
  obtain ⟨hi, -⟩ := List.getElem?_eq_some_iff.mp hq
  refine ⟨_, by rw [setForward, hnode, Option.bind_some, if_pos hi], ?_, ?_⟩
  · intro b
    rw [valueAt, valueAt, Dict.find_insert]
    by_cases hb : b = a
    · rw [if_pos hb, hb, hnode]
      rfl
    · rw [if_neg hb]
  · intro j b
    rw [forwardAt, forwardAt, Dict.find_insert]
    by_cases hb : b = a
    · rw [if_pos hb, hb, hnode, Option.bind_some, Option.bind_some]
      by_cases hj : j = i
      · rw [if_pos ⟨hj, rfl⟩, hj, List.getElem?_set_self hi]
      · rw [if_neg fun h => hj h.1, List.getElem?_set_ne (Ne.symm hj)]
    · rw [if_neg hb, if_neg fun h => hb h.2]

/-- On each level the new node comes behind its `update`. -/
theorem linkLevels_spec {last : ℕ → ℕ} {behind : ℕ → Option ℕ}
    (hupdate : ∀ j < i, update[j]? = some (last j))
    (hbehind : ∀ j < i, forwardAt nodes j (last j) = some (behind j))
    (hnew : ∀ j < i, ∃ p, forwardAt nodes j a = some p) (hne : ∀ j < i, last j ≠ a) :
    ∃ nodes', linkLevels a update i nodes = some nodes' ∧
      (∀ b, valueAt nodes' b = valueAt nodes b) ∧
      ∀ j b, forwardAt nodes' j b =
        if j < i ∧ b = last j then some (some a)
        else if j < i ∧ b = a then some (behind j) else forwardAt nodes j b := by
  induction i with
  | zero => exact ⟨nodes, rfl, fun _ => rfl, fun j b => by simp⟩
  | succ i ih =>
    obtain ⟨nodes₁, hnodes₁, hvalue₁, hforward₁⟩ := ih (fun j hj => hupdate j (by omega))
      (fun j hj => hbehind j (by omega)) (fun j hj => hnew j (by omega)) fun j hj =>
        hne j (by omega)
    have hlast : forwardAt nodes₁ i (last i) = some (behind i) := by
      rw [hforward₁, if_neg fun h => absurd h.1 (lt_irrefl i),
        if_neg fun h => absurd h.1 (lt_irrefl i)]
      exact hbehind i (Nat.lt_succ_self i)
    obtain ⟨p, hp⟩ := hnew i (Nat.lt_succ_self i)
    have hnode : forwardAt nodes₁ i a = some p := by
      rw [hforward₁, if_neg fun h => absurd h.1 (lt_irrefl i),
        if_neg fun h => absurd h.1 (lt_irrefl i), hp]
    obtain ⟨nodes₂, hnodes₂, hvalue₂, hforward₂⟩ := setForward_spec hnode (behind i)
    have hlast₂ : forwardAt nodes₂ i (last i) = some (behind i) := by
      rw [hforward₂, if_neg fun h => hne i (Nat.lt_succ_self i) h.2, hlast]
    obtain ⟨nodes₃, hnodes₃, hvalue₃, hforward₃⟩ := setForward_spec hlast₂ (some a)
    refine ⟨nodes₃, ?_, fun b => by rw [hvalue₃, hvalue₂, hvalue₁], fun j b => ?_⟩
    · rw [linkLevels, hnodes₁, Option.bind_some, hupdate i (Nat.lt_succ_self i), Option.bind_some,
        hlast, Option.bind_some, hnodes₂, Option.bind_some, hnodes₃]
    · rw [hforward₃, hforward₂, hforward₁]
      have hni := hne i (Nat.lt_succ_self i)
      by_cases hj : j = i
      · subst hj
        have hlt : ¬j < j := lt_irrefl j
        have hlt' : j < j + 1 := Nat.lt_succ_self j
        simp only [hlt, hlt', true_and, false_and, if_false]
      · have hiff : j < i + 1 ↔ j < i := by omega
        simp only [hj, hiff, false_and, if_false]

/-- On each level on which `x` stands behind its `update`, its pointer goes there. -/
theorem unlinkLevels_spec (last : ℕ → ℕ) (behind after : ℕ → Option ℕ)
    (hupdate : ∀ j < i, update[j]? = some (last j))
    (hbehind : ∀ j < i, forwardAt nodes j (last j) = some (behind j))
    (hafter : ∀ j < i, behind j = some x → forwardAt nodes j x = some (after j)) :
    ∃ nodes', unlinkLevels x update i nodes = some nodes' ∧
      (∀ b, valueAt nodes' b = valueAt nodes b) ∧
      ∀ j b, forwardAt nodes' j b =
        if j < i ∧ b = last j ∧ behind j = some x then some (after j)
        else forwardAt nodes j b := by
  induction i with
  | zero => exact ⟨nodes, rfl, fun _ => rfl, fun j b => by simp⟩
  | succ i ih =>
    obtain ⟨nodes₁, hnodes₁, hvalue₁, hforward₁⟩ := ih (fun j hj => hupdate j (by omega))
      (fun j hj => hbehind j (by omega)) (fun j hj => hafter j (by omega))
    have hsame : ∀ b, forwardAt nodes₁ i b = forwardAt nodes i b := by
      intro b
      rw [hforward₁, if_neg fun h => absurd h.1 (lt_irrefl i)]
    have hlast := (hsame (last i)).trans (hbehind i (Nat.lt_succ_self i))
    by_cases hx : behind i = some x
    · have hnext := (hsame x).trans (hafter i (Nat.lt_succ_self i) hx)
      obtain ⟨nodes₂, hnodes₂, hvalue₂, hforward₂⟩ := setForward_spec hlast (after i)
      refine ⟨nodes₂, ?_, fun b => by rw [hvalue₂, hvalue₁], fun j b => ?_⟩
      · rw [unlinkLevels, hnodes₁, Option.bind_some, hupdate i (Nat.lt_succ_self i),
          Option.bind_some, hlast, Option.bind_some, if_pos hx, hnext, Option.bind_some, hnodes₂]
      · rw [hforward₂, hforward₁]
        by_cases hj : j = i
        · subst hj
          have hlt : ¬j < j := lt_irrefl j
          have hlt' : j < j + 1 := Nat.lt_succ_self j
          simp only [hlt, hlt', hx, true_and, and_true, false_and, if_false]
        · have hiff : j < i + 1 ↔ j < i := by omega
          simp only [hj, hiff, false_and, if_false]
    · refine ⟨nodes₁, ?_, hvalue₁, fun j b => ?_⟩
      · rw [unlinkLevels, hnodes₁, Option.bind_some, hupdate i (Nat.lt_succ_self i),
          Option.bind_some, hlast, Option.bind_some, if_neg hx]
      · rw [hforward₁]
        by_cases hj : j = i
        · subst hj
          rw [if_neg fun h => absurd h.1 (lt_irrefl j), if_neg fun h => hx h.2.2]
        · have hiff : j < i + 1 ↔ j < i := by omega
          simp only [hiff]

theorem forwardAt_erase (h : b ≠ x) : forwardAt (nodes.erase x) j b = forwardAt nodes j b := by
  rw [forwardAt, forwardAt, Dict.find_erase, if_neg h]

theorem valueAt_erase : valueAt (nodes.erase x) b = if b = x then none else valueAt nodes b := by
  rw [valueAt, valueAt, Dict.find_erase]
  split_ifs <;> rfl

end Memory

/-! ## Searches -/

section Searches

variable [LinearOrder V] {compare : V → V → ℤ} {t : Skiplist V} {items lo hi : List (Tower V)}
  {w : Tower V} {a i k : ℕ} {go : V → Bool}

theorem Holds.nodup_row (h : t.Holds items) (i : ℕ) : (row t.header items i).Nodup :=
  (row_sublist (Nat.zero_le i)).nodup h.nodup

theorem Holds.valueAt_node (h : t.Holds items) (hw : w ∈ items) :
    valueAt t.nodes w.node = some w.value := (h.values _ _).mpr ⟨w, hw, rfl, rfl⟩

theorem Holds.row_zero (h : t.Holds items) :
    row t.header items 0 = t.header :: items.map Tower.node := by
  have hall : items.filter (fun w => 0 < w.height) = items :=
    List.filter_eq_self.mpr fun w hw => decide_eq_true (h.heights w hw).1
  rw [row, hall]

theorem Holds.valueAt_header (h : t.Holds items) : valueAt t.nodes t.header = none := by
  rw [Option.eq_none_iff_forall_ne_some]
  intro v hv
  obtain ⟨w, hw, hnode, -⟩ := (h.values _ _).mp hv
  have hnodup := h.nodup
  rw [h.row_zero, List.nodup_cons] at hnodup
  exact hnodup.1 (hnode ▸ List.mem_map_of_mem hw)

/-- Along a level a search comes to the last node that passes. -/
theorem Holds.walk_row (h : t.Holds (lo ++ hi)) (hlo : ∀ w ∈ lo, go w.value = true)
    (hhi : ∀ w ∈ hi, go w.value = false) (hi_lt : i < skiplistMaxLevel)
    (ha : a ∈ row t.header lo i) :
    walk (forwardAt t.nodes i) (fun b => (valueAt t.nodes b).map go) (t.len + 1) a =
      some (lastOf t.header lo i) := by
  obtain ⟨front, mid, hrow⟩ := List.append_of_mem ha
  have hsplit : row t.header (lo ++ hi) i =
      front ++ a :: (mid ++ (hi.filter fun w => i < w.height).map Tower.node) := by
    rw [row_append, hrow, List.append_assoc, List.cons_append]
  have htail : ∀ b ∈ mid, b ∈ (lo.filter fun w => i < w.height).map Tower.node := by
    intro b hb
    rw [row] at hrow
    cases front with
    | nil => exact (List.cons.inj hrow).2 ▸ hb
    | cons c front =>
      rw [(List.cons.inj hrow).2]
      exact List.mem_append_right _ (List.mem_cons_of_mem _ hb)
  have hmid : ∀ b ∈ mid, (valueAt t.nodes b).map go = some true := by
    intro b hb
    obtain ⟨w, hw, rfl⟩ := List.mem_map.mp (htail b hb)
    have hmem := List.mem_of_mem_filter hw
    rw [h.valueAt_node (List.mem_append_left _ hmem), Option.map_some, hlo w hmem]
  have hrest : ∀ b, ((hi.filter fun w => i < w.height).map Tower.node).head? = some b →
      (valueAt t.nodes b).map go = some false := by
    intro b hb
    obtain ⟨w, hw, rfl⟩ := List.mem_map.mp (mem_of_head? hb)
    have hmem := List.mem_of_mem_filter hw
    rw [h.valueAt_node (List.mem_append_right _ hmem), Option.map_some, hhi w hmem]
  have hshort : mid.length < t.len + 1 := by
    have hlen := congrArg List.length hrow
    have hfilter := List.length_filter_le (fun w : Tower V => decide (i < w.height)) lo
    simp only [row, List.length_cons, List.length_map, List.length_append] at hlen
    rw [h.len, List.length_append]
    omega
  have hlinked := h.linked i hi_lt
  have hnodup := h.nodup_row i
  rw [hsplit] at hlinked hnodup
  rw [walk_spec hlinked hnodup hmid hrest hshort]
  simp only [lastOf, hrow, List.getLast_append_of_ne_nil _ (List.cons_ne_nil a mid)]

theorem Holds.descend_spec (h : t.Holds (lo ++ hi)) (hlo : ∀ w ∈ lo, go w.value = true)
    (hhi : ∀ w ∈ hi, go w.value = false) (hk : k ≤ skiplistMaxLevel) :
    t.descend go k (lastOf t.header lo k) =
      some (lastOf t.header lo 0, (List.range k).map (lastOf t.header lo)) := by
  induction k with
  | zero => rfl
  | succ k ih =>
    have hmem : lastOf t.header lo (k + 1) ∈ row t.header lo k :=
      (row_sublist (Nat.le_succ k)).mem lastOf_mem
    rw [descend, h.walk_row hlo hhi hk hmem, Option.bind_some, ih (by omega), Option.map_some,
      List.range_succ, List.map_append, List.map_singleton]

/-- A search from the header on. -/
theorem Holds.search (h : t.Holds (lo ++ hi)) (hlo : ∀ w ∈ lo, go w.value = true)
    (hhi : ∀ w ∈ hi, go w.value = false) :
    t.descend go t.level t.header =
      some (lastOf t.header lo 0, (List.range t.level).map (lastOf t.header lo)) := by
  have hheader : lastOf t.header lo t.level = t.header :=
    lastOf_of_heights fun w hw => (h.heights w (List.mem_append_left _ hw)).2
  have hdescend := h.descend_spec hlo hhi h.level_le
  rwa [hheader] at hdescend

theorem compare_nonpos (hlt : ∀ v w, compare v w < 0 ↔ v < w)
    (hzero : ∀ v w, compare v w = 0 ↔ v = w) {v value : V} : compare v value ≤ 0 ↔ v ≤ value := by
  rw [le_iff_lt_or_eq, hlt, hzero, ← le_iff_lt_or_eq]

/-- What a search for `value` leaves behind it, and what is before it. -/
theorem exists_split (hsorted : (items.map Tower.value).Pairwise (· < ·)) (value : V) :
    ∃ lo hi, items = lo ++ hi ∧ (∀ w ∈ lo, w.value ≤ value) ∧ ∀ w ∈ hi, value < w.value := by
  induction items with
  | nil => exact ⟨[], [], rfl, fun _ h => (nomatch h), fun _ h => (nomatch h)⟩
  | cons w items ih =>
    rw [List.map_cons, List.pairwise_cons] at hsorted
    by_cases hw : w.value ≤ value
    · obtain ⟨lo, hi, rfl, hlo, hhi⟩ := ih hsorted.2
      exact ⟨w :: lo, hi, rfl, List.forall_mem_cons.mpr ⟨hw, hlo⟩, hhi⟩
    · refine ⟨[], w :: items, rfl, fun _ h => (nomatch h), ?_⟩
      rw [not_le] at hw
      refine List.forall_mem_cons.mpr ⟨hw, fun u hu => ?_⟩
      exact hw.trans (hsorted.1 _ (List.mem_map_of_mem hu))

theorem Holds.search_le (hlt : ∀ v w, compare v w < 0 ↔ v < w)
    (hzero : ∀ v w, compare v w = 0 ↔ v = w) (h : t.Holds (lo ++ hi)) {value : V}
    (hlo : ∀ w ∈ lo, w.value ≤ value) (hhi : ∀ w ∈ hi, value < w.value) :
    t.descend (fun v => compare v value ≤ 0) t.level t.header =
      some (lastOf t.header lo 0, (List.range t.level).map (lastOf t.header lo)) := by
  refine h.search (fun w hw => ?_) fun w hw => ?_
  · exact decide_eq_true ((compare_nonpos hlt hzero).mpr (hlo w hw))
  · refine decide_eq_false fun hle => ?_
    exact absurd ((compare_nonpos hlt hzero).mp hle) (not_le.mpr (hhi w hw))

/-- The node at which a search for `value` ends has this value if any has. -/
theorem Holds.isEqual_iff (hzero : ∀ v w, compare v w = 0 ↔ v = w) (h : t.Holds (lo ++ hi))
    {value : V} (hlo : ∀ w ∈ lo, w.value ≤ value) (hhi : ∀ w ∈ hi, value < w.value) :
    ∃ node, t.nodes.find (lastOf t.header lo 0) = some node ∧
      (isEqual compare node value ↔ value ∈ (lo ++ hi).map Tower.value) ∧
      (isEqual compare node value → valueAt t.nodes (lastOf t.header lo 0) = some value) := by
  have hmem : lastOf t.header lo 0 ∈ row t.header (lo ++ hi) 0 := by
    rw [row_append]
    exact List.mem_append_left _ lastOf_mem
  obtain ⟨node, hnode, -⟩ := exists_of_forwardAt (h.linked 0 (by decide) _ hmem)
  have hvalue : node.value = valueAt t.nodes (lastOf t.header lo 0) := by
    rw [valueAt, hnode, Option.bind_some]
  have hbehind : value ∉ hi.map Tower.value := by
    intro hv
    obtain ⟨w, hw, hw'⟩ := List.mem_map.mp hv
    exact absurd hw' (hhi w hw).ne'
  refine ⟨node, hnode, ?_⟩
  rw [isEqual, hvalue, List.map_append, List.mem_append, or_iff_left hbehind]
  obtain rfl | ⟨l, w, rfl⟩ := List.eq_nil_or_concat' lo
  · have hlast : lastOf t.header ([] : List (Tower V)) 0 = t.header := rfl
    rw [hlast, h.valueAt_header]
    simp
  · have hw : w ∈ l ++ [w] ++ hi := by simp
    have hle := hlo w (by simp)
    rw [lastOf_concat (h.heights w hw).1, h.valueAt_node hw]
    simp only [Option.any_some, decide_eq_true_eq, hzero, Option.some.injEq, imp_self, and_true]
    rw [List.map_append, List.map_singleton, List.mem_append, List.mem_singleton]
    refine ⟨fun heq => Or.inr heq.symm, fun hv => ?_⟩
    -- What stands before the last node is less than it.
    rcases hv with hv | hv
    · have hsorted := h.sorted
      rw [List.map_append, List.map_append, List.pairwise_append, List.pairwise_append] at hsorted
      have hlt := hsorted.1.2.2 value hv w.value (by simp)
      exact absurd hle (not_le.mpr hlt)
    · exact hv.symm

theorem Holds.skiplistFind (hlt : ∀ v w, compare v w < 0 ↔ v < w)
    (hzero : ∀ v w, compare v w = 0 ↔ v = w) (h : t.Holds items) (value : V) :
    ∃ r, t.skiplistFind compare value = some r ∧
      (r.isSome ↔ value ∈ items.map Tower.value) ∧
      ∀ x, r = some x → valueAt t.nodes x = some value := by
  obtain ⟨lo, hi, rfl, hlo, hhi⟩ := exists_split h.sorted value
  obtain ⟨node, hnode, hiff, hfound⟩ := h.isEqual_iff hzero hlo hhi
  rw [Skiplist.skiplistFind, h.search_le hlt hzero hlo hhi, Option.bind_some, hnode,
    Option.map_some]
  refine ⟨_, rfl, ?_, ?_⟩
  · rw [← hiff]
    split_ifs with heq <;> simp [heq]
  · intro x hx
    split_ifs at hx with heq
    obtain rfl := Option.some.inj hx
    exact hfound heq

end Searches

/-! ## Insertion -/

section Insertion

variable [LinearOrder V] {compare : V → V → ℤ} {t : Skiplist V} {items lo hi : List (Tower V)}
  {a i level : ℕ} {value : V}

theorem Holds.find_ne_none (h : t.Holds items) {b : ℕ} (hi : i < skiplistMaxLevel)
    (hb : b ∈ row t.header items i) : t.nodes.find b ≠ none := by
  obtain ⟨node, hnode, -⟩ := exists_of_forwardAt (h.linked i hi b hb)
  rw [hnode]
  exact Option.some_ne_none node

theorem Holds.lastOf_mem_row (_ : t.Holds (lo ++ hi)) (i : ℕ) :
    lastOf t.header lo i ∈ row t.header (lo ++ hi) i := by
  rw [row_append]
  exact List.mem_append_left _ lastOf_mem

omit [LinearOrder V] in
theorem update_getElem? (h : ∀ w ∈ lo, w.height ≤ t.level) (hi : i < max t.level level) :
    ((List.range t.level).map (lastOf t.header lo) ++
      List.replicate (level - t.level) t.header)[i]? = some (lastOf t.header lo i) := by
  by_cases hlevel : i < t.level
  · rw [List.getElem?_append_left (by simpa using hlevel), List.getElem?_map,
      List.getElem?_range hlevel, Option.map_some]
  · rw [not_lt] at hlevel
    have hlast : lastOf t.header lo i = t.header :=
      lastOf_of_heights fun w hw => (h w hw).trans hlevel
    rw [List.getElem?_append_right (by simpa using hlevel), List.getElem?_replicate, hlast,
      if_pos (by rw [List.length_map, List.length_range]; omega)]

omit [LinearOrder V] in
/-- The values of the nodes, with one node more. -/
theorem values_middle {values : ℕ → Option V} {x : Tower V}
    (hnew : ∀ w ∈ lo ++ hi, w.node ≠ x.node)
    (h : ∀ b v, values b = some v ↔ ∃ w ∈ lo ++ hi, w.node = b ∧ w.value = v) (b : ℕ) (v : V) :
    (if b = x.node then some x.value else values b) = some v ↔
      ∃ w ∈ lo ++ x :: hi, w.node = b ∧ w.value = v := by
  simp only [mem_middle]
  by_cases hb : b = x.node
  · rw [if_pos hb]
    constructor
    · intro hv
      exact ⟨x, Or.inl rfl, hb.symm, Option.some.inj hv⟩
    · rintro ⟨w, rfl | hw, hnode, rfl⟩
      · rfl
      · exact absurd (hnode.trans hb) (hnew w hw)
  · rw [if_neg hb]
    refine (h b v).trans ⟨?_, ?_⟩
    · rintro ⟨w, hw, hnode, hvalue⟩
      exact ⟨w, Or.inr hw, hnode, hvalue⟩
    · rintro ⟨w, rfl | hw, hnode, hvalue⟩
      · exact absurd hnode.symm hb
      · exact ⟨w, hw, hnode, hvalue⟩

/-- The pointers that linking writes are those of the rows with the new node. -/
theorem Holds.linked_middle (h : t.Holds (lo ++ hi)) {j b : ℕ} (hj : j < skiplistMaxLevel)
    (hfresh : a ∉ row t.header (lo ++ hi) j)
    (hb : b ∈ row t.header (lo ++ ⟨a, value, level⟩ :: hi) j) :
    (if j < level ∧ b = lastOf t.header lo j then some (some a)
      else if j < level ∧ b = a then
        some (nextIn (row t.header (lo ++ hi) j) (lastOf t.header lo j))
      else if b = a then (List.replicate level none)[j]? else forwardAt t.nodes j b) =
      some (nextIn (row t.header (lo ++ ⟨a, value, level⟩ :: hi) j) b) := by
  by_cases hlevel : j < level
  · have hrow := h.nodup_row j
    have hold := h.linked j hj
    rw [row_append_eq] at hrow hfresh hold
    have hlast : lastOf t.header lo j ∉ (row t.header lo j).dropLast := notMem_front hrow
    rw [row_middle_of_lt hlevel] at hb ⊢
    rw [nextIn_insert hlast hfresh, row_append_eq, nextIn_middle hlast]
    simp only [hlevel, true_and]
    by_cases hbl : b = lastOf t.header lo j
    · rw [if_pos hbl, if_pos hbl]
    · rw [if_neg hbl, if_neg hbl]
      by_cases hba : b = a
      · rw [if_pos hba, if_pos hba]
      · rw [if_neg hba, if_neg hba, if_neg hba]
        refine hold b ?_
        simp at hb ⊢
        tauto
  · rw [row_middle_of_le (not_lt.mp hlevel)] at hb ⊢
    have hba : b ≠ a := fun heq => hfresh (heq ▸ hb)
    rw [if_neg fun h => hlevel h.1, if_neg fun h => hlevel h.1, if_neg hba]
    exact h.linked j hj b hb

/-- The new node is linked in on its levels, behind the last node that is not above it. -/
theorem Holds.link (h : t.Holds (lo ++ hi)) (hlo : ∀ w ∈ lo, w.value < value)
    (hhi : ∀ w ∈ hi, value < w.value) (ha : t.nodes.find a = none) (hpos : 0 < level)
    (hle : level ≤ skiplistMaxLevel) :
    ∃ nodes, linkLevels a ((List.range t.level).map (lastOf t.header lo) ++
        List.replicate (level - t.level) t.header) level
        (t.nodes.insert a ⟨some value, List.replicate level none⟩) = some nodes ∧
      Holds ⟨nodes, t.header, max t.level level, t.len + 1⟩ (lo ++ ⟨a, value, level⟩ :: hi) := by
  have hfresh : ∀ i < skiplistMaxLevel, a ∉ row t.header (lo ++ hi) i := by
    intro i hi hmem
    exact h.find_ne_none hi hmem ha
  have hforward : ∀ j b, forwardAt
      (t.nodes.insert a ⟨some value, List.replicate level none⟩ : Dict ℕ (SkiplistNode V)) j b =
        if b = a then (List.replicate level none)[j]? else forwardAt t.nodes j b := by
    intro j b
    rw [forwardAt, forwardAt, Dict.find_insert]
    split_ifs <;> rfl
  have hne : ∀ j < level, lastOf t.header lo j ≠ a := by
    intro j hj heq
    exact hfresh j (hj.trans_le hle) (heq ▸ h.lastOf_mem_row j)
  have hheights : ∀ w ∈ lo, w.height ≤ t.level := fun w hw =>
    (h.heights w (List.mem_append_left _ hw)).2
  obtain ⟨nodes, hnodes, hvalues, hlinks⟩ := linkLevels_spec
    (fun j hj => update_getElem? hheights (lt_max_of_lt_right hj))
    (fun j hj => by
      rw [hforward, if_neg (hne j hj), h.linked j (hj.trans_le hle) _ (h.lastOf_mem_row j)])
    (fun j hj => ⟨none, by rw [hforward, if_pos rfl, List.getElem?_replicate, if_pos hj]⟩) hne
  refine ⟨nodes, hnodes, ?_, ?_, ?_, ?_, ?_, ?_, ?_, ?_⟩
  · -- nodup
    have hnodup := h.nodup_row 0
    have hzero := hfresh 0 (by decide)
    rw [row_append_eq] at hnodup hzero
    rw [row_middle_of_lt hpos]
    exact nodup_insert hzero hnodup
  · -- values
    intro b v
    have hold : ∀ w ∈ lo ++ hi, w.node ≠ a := fun w hw hnode =>
      hfresh 0 (by decide) (hnode ▸ node_mem_row hw (h.heights w hw).1)
    have hvalue := values_middle (x := ⟨a, value, level⟩) hold h.values b v
    rw [hvalues, valueAt, Dict.find_insert]
    rw [apply_ite (fun node : Option (SkiplistNode V) => node.bind SkiplistNode.value)]
    exact hvalue
  · -- linked
    intro j hj b hb
    change forwardAt nodes j b = _
    rw [hlinks, hforward]
    exact h.linked_middle hj (hfresh j hj) hb
  · -- heights
    intro w hw
    obtain rfl | hw := mem_middle.mp hw
    · exact ⟨hpos, le_max_right _ _⟩
    · exact ⟨(h.heights w hw).1, (h.heights w hw).2.trans (le_max_left _ _)⟩
  · exact lt_max_of_lt_left h.level_pos
  · exact max_le h.level_le hle
  · show t.len + 1 = _
    rw [h.len, List.length_append, List.length_append, List.length_cons]
    rfl
  · have hsorted := h.sorted
    rw [List.map_append, List.pairwise_append] at hsorted
    rw [List.map_append, List.map_cons, List.pairwise_append, List.pairwise_cons]
    refine ⟨hsorted.1, ⟨?_, hsorted.2.1⟩, ?_⟩
    · simpa using hhi
    · intro v hv
      obtain ⟨w, hw, rfl⟩ := List.mem_map.mp hv
      rw [List.forall_mem_cons]
      exact ⟨hlo w hw, hsorted.2.2 _ (List.mem_map_of_mem hw)⟩

/-- `skiplist_insert` of a value that is there. -/
theorem Holds.skiplistInsert_of_mem (hlt : ∀ v w, compare v w < 0 ↔ v < w)
    (hzero : ∀ v w, compare v w = 0 ↔ v = w) (h : t.Holds items)
    (hmem : value ∈ items.map Tower.value) (draws : List ℕ) (alloc : Option ℕ) :
    t.skiplistInsert compare value draws alloc = some (false, t) := by
  obtain ⟨lo, hi, rfl, hlo, hhi⟩ := exists_split h.sorted value
  obtain ⟨node, hnode, hiff, -⟩ := h.isEqual_iff hzero hlo hhi
  rw [skiplistInsert, h.search_le hlt hzero hlo hhi, Option.bind_some, hnode, Option.bind_some,
    if_pos (hiff.mpr hmem)]

theorem skiplistRandomLevel_pos (draws : List ℕ) : 0 < skiplistRandomLevel draws := by
  rw [skiplistRandomLevel, lt_min_iff]
  exact ⟨by omega, by decide⟩

theorem skiplistRandomLevel_le (draws : List ℕ) : skiplistRandomLevel draws ≤ skiplistMaxLevel :=
  min_le_right _ _

/-- `skiplist_insert` of a value that is not there. Without memory it may leave more levels than
there are towers for. -/
theorem Holds.skiplistInsert_of_notMem (hlt : ∀ v w, compare v w < 0 ↔ v < w)
    (hzero : ∀ v w, compare v w = 0 ↔ v = w) (h : t.Holds items)
    (hmem : value ∉ items.map Tower.value) (draws : List ℕ) :
    t.skiplistInsert compare value draws none =
        some (false, { t with level := max t.level (skiplistRandomLevel draws) }) ∧
      ∀ a, t.nodes.find a = none → ∃ t' lo hi, items = lo ++ hi ∧
        t.skiplistInsert compare value draws (some a) = some (true, t') ∧
        t'.Holds (lo ++ ⟨a, value, skiplistRandomLevel draws⟩ :: hi) := by
  obtain ⟨lo, hi, rfl, hlo, hhi⟩ := exists_split h.sorted value
  obtain ⟨node, hnode, hiff, -⟩ := h.isEqual_iff hzero hlo hhi
  have hnew : ¬isEqual compare node value = true := fun heq => hmem (hiff.mp heq)
  have hsearch := h.search_le hlt hzero hlo hhi
  refine ⟨?_, fun a ha => ?_⟩
  · rw [skiplistInsert, hsearch, Option.bind_some, hnode, Option.bind_some, if_neg hnew]
  · have hless : ∀ w ∈ lo, w.value < value := fun w hw => (hlo w hw).lt_of_ne fun heq =>
      hmem (heq ▸ List.mem_map_of_mem (List.mem_append_left _ hw))
    obtain ⟨nodes, hnodes, hholds⟩ := h.link hless hhi ha (skiplistRandomLevel_pos draws)
      (skiplistRandomLevel_le draws)
    refine ⟨_, lo, hi, rfl, ?_, hholds⟩
    rw [skiplistInsert, hsearch, Option.bind_some, hnode, Option.bind_some, if_neg hnew]
    simp only [hnodes, Option.map_some]

/-- More levels than there are towers for do no harm. -/
theorem Holds.raise (h : t.Holds items) (level : ℕ) (hle : level ≤ skiplistMaxLevel) :
    Holds { t with level := max t.level level } items where
  nodup := h.nodup
  values := h.values
  linked := h.linked
  heights w hw := ⟨(h.heights w hw).1, (h.heights w hw).2.trans (le_max_left _ _)⟩
  level_pos := lt_max_of_lt_left h.level_pos
  level_le := max_le h.level_le hle
  len := h.len
  sorted := h.sorted

end Insertion

/-! ## Deletion -/

section Deletion

variable [LinearOrder V] {compare : V → V → ℤ} {t : Skiplist V} {items lo hi : List (Tower V)}
  {w : Tower V} {b i : ℕ}

omit [LinearOrder V] in
/-- Levels come off as long as no tower reaches them. -/
theorem lowerLevel_spec {nodes : Dict ℕ (SkiplistNode V)} {header level : ℕ}
    (hlinked : ∀ j < skiplistMaxLevel,
      forwardAt nodes j header = some (nextIn (row header items j) header))
    (hpos : 0 < level) (hle : level ≤ skiplistMaxLevel) (hheights : ∀ w ∈ items, w.height ≤ level) :
    ∃ level', lowerLevel nodes header level = some level' ∧ 0 < level' ∧ level' ≤ level ∧
      ∀ w ∈ items, w.height ≤ level' := by
  induction level with
  | zero => exact absurd hpos (lt_irrefl 0)
  | succ level ih =>
    by_cases hzero : level = 0
    · subst hzero
      exact ⟨1, rfl, hpos, le_refl 1, hheights⟩
    · have hnext := hlinked level hle
      rw [row, nextIn_cons_self] at hnext
      cases hhead : ((items.filter fun w => level < w.height).map Tower.node).head? with
      | none =>
        have hlower : ∀ w ∈ items, w.height ≤ level := by
          intro w hw
          by_contra hlt
          have hnil := List.map_eq_nil_iff.mp (List.head?_eq_none_iff.mp hhead)
          exact List.filter_eq_nil_iff.mp hnil w hw (decide_eq_true (not_le.mp hlt))
        obtain ⟨level', hlevel', hpos', hle', hheights'⟩ := ih (by omega) (by omega) hlower
        refine ⟨level', ?_, hpos', by omega, hheights'⟩
        rw [lowerLevel, if_neg hzero, hnext, hhead]
        exact hlevel'
      | some a =>
        refine ⟨level + 1, ?_, hpos, le_refl _, hheights⟩
        rw [lowerLevel, if_neg hzero, hnext, hhead]

/-- Without its tower a chain has one node less. -/
theorem Holds.row_erase (h : t.Holds (lo ++ w :: hi)) (i : ℕ) :
    row t.header (lo ++ hi) i = (row t.header (lo ++ w :: hi) i).erase w.node := by
  have hnodup := h.nodup_row i
  by_cases hw : i < w.height
  · rw [row_middle_of_lt hw] at hnodup ⊢
    have hmove : (row t.header lo i).dropLast ++ lastOf t.header lo i :: w.node ::
        (hi.filter fun w => i < w.height).map Tower.node =
        row t.header lo i ++ w.node :: (hi.filter fun w => i < w.height).map Tower.node := by
      rw [row_eq_append_lastOf]
      simp
    rw [hmove] at hnodup ⊢
    rw [erase_middle hnodup, row_append]
  · rw [not_lt] at hw
    have hzero := h.nodup_row 0
    rw [row_middle_of_le hw, List.erase_of_not_mem]
    intro hmem
    rw [row_middle_of_lt (h.heights w (by simp)).1] at hzero
    have hlow := (row_sublist (Nat.zero_le i)).mem hmem
    rw [row_append_eq] at hlow
    have hmove : (row t.header lo 0).dropLast ++ lastOf t.header lo 0 :: w.node ::
        (hi.filter fun w => 0 < w.height).map Tower.node =
        ((row t.header lo 0).dropLast ++ [lastOf t.header lo 0]) ++ w.node ::
          (hi.filter fun w => 0 < w.height).map Tower.node := by simp
    rw [hmove, List.perm_middle.nodup_iff, List.nodup_cons] at hzero
    exact hzero.1 (by simpa using hlow)

/-- Only `update` points to the node of a tower. -/
theorem Holds.eq_lastOf (h : t.Holds (lo ++ w :: hi))
    (hb : nextIn (row t.header (lo ++ w :: hi) i) b = some w.node) :
    b = lastOf t.header lo i ∧ i < t.level := by
  have hmem := mem_of_nextIn hb
  have hw : i < w.height := by
    by_contra hw
    have hnodup := h.nodup_row i
    rw [row_middle_of_le (not_lt.mp hw), h.row_erase] at hmem
    exact hnodup.not_mem_erase hmem
  have hnodup := h.nodup_row i
  rw [row_middle_of_lt hw] at hb hnodup
  have hlast := notMem_front hnodup
  exact ⟨nextIn_inj hnodup hb (nextIn_middle hlast), hw.trans_le (h.heights w (by simp)).2⟩

omit [LinearOrder V] in
/-- The values of the nodes, with one node less. -/
theorem values_erase {values : ℕ → Option V} (hother : ∀ u ∈ lo ++ hi, u.node ≠ w.node)
    (h : ∀ b v, values b = some v ↔ ∃ u ∈ lo ++ w :: hi, u.node = b ∧ u.value = v) (b : ℕ) (v : V) :
    (if b = w.node then none else values b) = some v ↔
      ∃ u ∈ lo ++ hi, u.node = b ∧ u.value = v := by
  by_cases hb : b = w.node
  · rw [if_pos hb]
    refine ⟨fun hv => (nomatch hv), ?_⟩
    rintro ⟨u, hu, hnode, -⟩
    exact absurd (hnode.trans hb) (hother u hu)
  · rw [if_neg hb, h]
    simp only [mem_middle]
    constructor
    · rintro ⟨u, rfl | hu, hnode, hvalue⟩
      · exact absurd hnode.symm hb
      · exact ⟨u, hu, hnode, hvalue⟩
    · rintro ⟨u, hu, hnode, hvalue⟩
      exact ⟨u, Or.inr hu, hnode, hvalue⟩

theorem Holds.skiplistDelete (hlt : ∀ v w, compare v w < 0 ↔ v < w)
    (h : t.Holds (lo ++ w :: hi)) :
    ∃ t', t.skiplistDelete compare w.node = some t' ∧ t'.header = t.header ∧
      t'.Holds (lo ++ hi) := by
  have hmem : w ∈ lo ++ w :: hi := by simp
  have hsorted := h.sorted
  rw [List.map_append, List.map_cons, List.pairwise_append, List.pairwise_cons] at hsorted
  have hsearch : t.descend (fun v => compare v w.value < 0) t.level t.header =
      some (lastOf t.header lo 0, (List.range t.level).map (lastOf t.header lo)) := by
    refine h.search (fun u hu => ?_) fun u hu => ?_
    · refine decide_eq_true ((hlt _ _).mpr ?_)
      exact hsorted.2.2 _ (List.mem_map_of_mem hu) _ List.mem_cons_self
    · refine decide_eq_false fun hless => ?_
      rw [hlt] at hless
      rcases List.mem_cons.mp hu with rfl | hu
      · exact lt_irrefl _ hless
      · exact lt_asymm hless (hsorted.2.1.1 _ (List.mem_map_of_mem hu))
  have hlevel := h.level_le
  have hupdate : ∀ j < t.level, ((List.range t.level).map (lastOf t.header lo))[j]? =
      some (lastOf t.header lo j) := by
    intro j hj
    rw [List.getElem?_map, List.getElem?_range hj, Option.map_some]
  obtain ⟨nodes, hnodes, hvalues, hlinks⟩ := unlinkLevels_spec (lastOf t.header lo)
    (fun j => nextIn (row t.header (lo ++ w :: hi) j) (lastOf t.header lo j))
    (fun j => nextIn (row t.header (lo ++ w :: hi) j) w.node) hupdate
    (fun j hj => h.linked j (hj.trans_le hlevel) _ (h.lastOf_mem_row j))
    fun j hj hbehind => h.linked j (hj.trans_le hlevel) w.node (mem_of_nextIn hbehind)
  -- What a node points to when `x` is unlinked.
  have hforward : ∀ j < skiplistMaxLevel, ∀ b ∈ row t.header (lo ++ hi) j,
      forwardAt nodes j b = some (nextIn (row t.header (lo ++ hi) j) b) ∧ b ≠ w.node := by
    intro j hj b hb
    have hnodup := h.nodup_row j
    rw [h.row_erase] at hb ⊢
    have hne : b ≠ w.node := fun heq => hnodup.not_mem_erase (heq ▸ hb)
    refine ⟨?_, hne⟩
    rw [hlinks, h.linked j hj b (List.mem_of_mem_erase hb), nextIn_erase hnodup hne]
    by_cases hb' : nextIn (row t.header (lo ++ w :: hi) j) b = some w.node
    · obtain ⟨rfl, hjl⟩ := h.eq_lastOf hb'
      rw [if_pos hb', if_pos ⟨hjl, rfl, hb'⟩]
    · rw [if_neg hb', if_neg]
      rintro ⟨-, rfl, hb''⟩
      exact hb' hb''
  have hheights : ∀ u ∈ lo ++ hi, u.height ≤ t.level := fun u hu =>
    (h.heights u (mem_middle.mpr (Or.inr hu))).2
  obtain ⟨level, hlower, hpos, hle, hheights'⟩ := lowerLevel_spec
    (fun j hj => (hforward j hj _ header_mem_row).1) h.level_pos hlevel hheights
  refine ⟨⟨nodes.erase w.node, t.header, level, t.len - 1⟩, ?_, rfl, ?_⟩
  · rw [Skiplist.skiplistDelete, h.valueAt_node hmem, Option.bind_some, hsearch, Option.bind_some,
      hnodes, Option.bind_some, hlower, Option.map_some]
  · refine ⟨?_, ?_, ?_, ?_, hpos, hle.trans hlevel, ?_, ?_⟩
    · have hnodup := h.nodup_row 0
      show (row t.header (lo ++ hi) 0).Nodup
      rw [h.row_erase]
      exact hnodup.erase _
    · intro b v
      have hother : ∀ u ∈ lo ++ hi, u.node ≠ w.node := fun u hu =>
        (hforward 0 (by decide) _
          (node_mem_row hu (h.heights u (mem_middle.mpr (Or.inr hu))).1)).2
      rw [valueAt_erase, hvalues]
      exact values_erase hother h.values b v
    · intro j hj b hb
      obtain ⟨hb', hne⟩ := hforward j hj b hb
      exact (forwardAt_erase hne).trans hb'
    · exact fun u hu => ⟨(h.heights u (mem_middle.mpr (Or.inr hu))).1, hheights' u hu⟩
    · show t.len - 1 = _
      rw [h.len, List.length_append, List.length_append, List.length_cons]
      omega
    · rw [List.map_append, List.pairwise_append]
      exact ⟨hsorted.1, hsorted.2.1.2, fun v hv u hu =>
        hsorted.2.2 v hv u (List.mem_cons_of_mem _ hu)⟩

end Deletion

/-! ## Iteration -/

section Iteration

variable [LinearOrder V] {compare : V → V → ℤ} {t : Skiplist V} {items front rest : List (Tower V)}

theorem Holds.forwardAt_node {w : Tower V} (h : t.Holds (front ++ w :: rest)) :
    forwardAt t.nodes 0 w.node = some (rest.map Tower.node).head? := by
  have hnodup := h.nodup_row 0
  have hrow : row t.header (front ++ w :: rest) 0 =
      (t.header :: front.map Tower.node) ++ w.node :: rest.map Tower.node := by
    rw [h.row_zero]
    simp
  rw [h.linked 0 (by decide) _ (node_mem_row (by simp) (h.heights w (by simp)).1), hrow,
    nextIn_middle]
  rw [hrow] at hnodup
  exact notMem_front hnodup

theorem Holds.chain (h : t.Holds items) {i : ℕ} (hi : i < skiplistMaxLevel) :
    t.chain i = some (row t.header items i).tail := by
  have hlen : ((items.filter fun w => i < w.height).map Tower.node).length ≤ t.len := by
    rw [List.length_map, h.len]
    exact List.length_filter_le _ _
  have hlinked : Linked (forwardAt t.nodes i)
      ([t.header] ++ (items.filter fun w => i < w.height).map Tower.node) := h.linked i hi
  rw [Skiplist.chain, h.linked i hi _ header_mem_row, Option.bind_some, row, nextIn_cons_self]
  exact follow_spec hlinked (h.nodup_row i) hlen

omit [LinearOrder V] in
theorem mapM_valueAt {nodes : Dict ℕ (SkiplistNode V)}
    (h : ∀ w ∈ items, valueAt nodes w.node = some w.value) :
    (items.map Tower.node).mapM (valueAt nodes) = some (items.map Tower.value) := by
  induction items with
  | nil => rfl
  | cons w items ih =>
    rw [List.forall_mem_cons] at h
    rw [List.map_cons, List.mapM_cons, h.1, ih h.2]
    rfl

end Iteration

/-! ## Runs -/

section Runs

variable [LinearOrder V] (compare : V → V → ℤ)

/-- The skiplists of all runs, each with the set that it is to be. A new node gets an address that
is free; a node that has been deleted is not deleted again. -/
inductive Reached : Skiplist V → Finset V → Prop
  | create (header : ℕ) : Reached (skiplistCreate header) ∅
  | insert {t t' : Skiplist V} {s : Finset V} {value : V} {draws : List ℕ} {alloc : Option ℕ}
      {inserted : Bool} (h : Reached t s) (ha : ∀ a, alloc = some a → t.nodes.find a = none)
      (hstep : t.skiplistInsert compare value draws alloc = some (inserted, t')) :
      Reached t' (if alloc.isSome then Insert.insert value s else s)
  | delete {t t' : Skiplist V} {s : Finset V} {x : ℕ} {value : V} (h : Reached t s)
      (hx : valueAt t.nodes x = some value) (hstep : t.skiplistDelete compare x = some t') :
      Reached t' (s.erase value)

/-- What a skiplist does for a set. -/
structure Refines (t : Skiplist V) (s : Finset V) : Prop where
  /-- The nodes of level 0 have the elements, in strict order. -/
  elements : (t.chain 0).bind (List.mapM (valueAt t.nodes)) = some (s.sort (· ≤ ·)) ∧
    (s.sort (· ≤ ·)).Pairwise (· < ·)
  levels : ∀ i, i + 1 < skiplistMaxLevel → ∃ upper lower, t.chain (i + 1) = some upper ∧
    t.chain i = some lower ∧ upper.Sublist lower
  len : t.len = s.card
  insert_mem : ∀ value ∈ s, ∀ draws alloc,
    t.skiplistInsert compare value draws alloc = some (false, t)
  insert_notMem : ∀ value ∉ s, ∀ draws a, t.nodes.find a = none →
    ∃ t', t.skiplistInsert compare value draws (some a) = some (true, t')
  insert_noMemory : ∀ value ∉ s, ∀ draws, ∃ level,
    t.skiplistInsert compare value draws none = some (false, { t with level := level })
  find : ∀ value, ∃ r, t.skiplistFind compare value = some r ∧ (r.isSome ↔ value ∈ s) ∧
    ∀ x, r = some x → valueAt t.nodes x = some value
  delete : ∀ x value, valueAt t.nodes x = some value →
    value ∈ s ∧ ∃ t', t.skiplistDelete compare x = some t'
  iterate : ∀ del : V → Bool, ∃ iter t', t.skiplistGetIterator = some iter ∧
    t.iterate compare del (t.len + 1) iter = some (s.sort (· ≤ ·), t') ∧
    Reached compare t' (s.filter fun v => !del v)

variable {compare} {t : Skiplist V} {s : Finset V}

/-- The iterator stands behind the node that may be deleted. -/
theorem Reached.iterate (hlt : ∀ v w, compare v w < 0 ↔ v < w) (del : V → Bool)
    {front rest : List (Tower V)} (hreached : Reached compare t s) (h : t.Holds (front ++ rest))
    {rounds : ℕ} (hrounds : rest.length < rounds) :
    ∃ t', t.iterate compare del rounds (rest.map Tower.node).head? =
        some (rest.map Tower.value, t') ∧
      Reached compare t' (s \ ((rest.map Tower.value).filter del).toFinset) := by
  induction rest generalizing t s front rounds with
  | nil =>
    obtain ⟨rounds, rfl⟩ := Nat.exists_eq_succ_of_ne_zero (by omega : rounds ≠ 0)
    refine ⟨t, rfl, ?_⟩
    simpa using hreached
  | cons w rest ih =>
    obtain ⟨rounds, rfl⟩ := Nat.exists_eq_succ_of_ne_zero (by omega : rounds ≠ 0)
    have hrounds' : rest.length < rounds := Nat.lt_of_succ_lt_succ hrounds
    have hvalue := h.valueAt_node (mem_middle.mpr (Or.inl rfl))
    rw [List.map_cons, List.head?_cons, Skiplist.iterate, skiplistNext, h.forwardAt_node,
      Option.map_some, Option.bind_some]
    simp only [hvalue, Option.bind_some]
    cases hdel : del w.value with
    | true =>
      obtain ⟨t₁, hdelete, -, hholds⟩ := h.skiplistDelete hlt
      obtain ⟨t', ht', hreached'⟩ := ih (hreached.delete hvalue hdelete) hholds hrounds'
      refine ⟨t', ?_, ?_⟩
      · rw [if_pos rfl, hdelete, Option.bind_some, ht', Option.map_some]
        rfl
      · rw [List.map_cons, List.filter_cons, if_pos hdel, List.toFinset_cons,
          Finset.sdiff_insert, ← Finset.erase_sdiff_comm]
        exact hreached'
    | false =>
      have hmove : front ++ w :: rest = (front ++ [w]) ++ rest := by simp
      rw [hmove] at h
      obtain ⟨t', ht', hreached'⟩ := ih hreached h hrounds'
      refine ⟨t', ?_, ?_⟩
      · rw [if_neg Bool.false_ne_true, Option.bind_some, ht', Option.map_some]
        rfl
      · rw [List.map_cons, List.filter_cons, if_neg (Bool.eq_false_iff.mp hdel)]
        exact hreached'

theorem holds_skiplistCreate (header : ℕ) : Holds (skiplistCreate header : Skiplist V) [] where
  nodup := List.nodup_singleton header
  values a v := by
    rw [valueAt, skiplistCreate, Dict.find_insert, Dict.find_empty]
    split_ifs <;> simp
  linked i hi a ha := by
    obtain rfl := List.mem_singleton.mp ha
    rw [forwardAt, skiplistCreate, Dict.find_insert, if_pos rfl, Option.bind_some,
      List.getElem?_replicate, if_pos hi]
    exact congrArg some (nextIn_cons_self a []).symm
  heights _ hw := (nomatch hw)
  level_pos := Nat.one_pos
  level_le := (by decide : 1 ≤ skiplistMaxLevel)
  len := rfl
  sorted := List.Pairwise.nil

/-- A run keeps the towers of the elements. -/
theorem Reached.holds (hlt : ∀ v w, compare v w < 0 ↔ v < w)
    (hzero : ∀ v w, compare v w = 0 ↔ v = w) (h : Reached compare t s) :
    ∃ items, t.Holds items ∧ s = (items.map Tower.value).toFinset := by
  induction h with
  | create header => exact ⟨[], holds_skiplistCreate header, rfl⟩
  | @insert t t' s value draws alloc inserted _ ha hstep ih =>
    obtain ⟨items, hholds, rfl⟩ := ih
    by_cases hmem : value ∈ items.map Tower.value
    · rw [hholds.skiplistInsert_of_mem hlt hzero hmem] at hstep
      cases hstep
      refine ⟨items, hholds, ?_⟩
      rw [Finset.insert_eq_of_mem (List.mem_toFinset.mpr hmem), ite_self]
    · obtain ⟨hnone, hsome⟩ := hholds.skiplistInsert_of_notMem hlt hzero hmem draws
      cases alloc with
      | none =>
        rw [hnone] at hstep
        cases hstep
        exact ⟨items, hholds.raise _ (skiplistRandomLevel_le draws), rfl⟩
      | some a =>
        obtain ⟨t₁, lo, hi, rfl, hinsert, hholds'⟩ := hsome a (ha a rfl)
        rw [hinsert] at hstep
        cases hstep
        refine ⟨_, hholds', ?_⟩
        ext v
        simp only [Option.isSome_some, if_true, Finset.mem_insert, List.mem_toFinset, List.mem_map,
          mem_middle]
        constructor
        · rintro (rfl | ⟨u, hu, rfl⟩)
          · exact ⟨_, Or.inl rfl, rfl⟩
          · exact ⟨u, Or.inr hu, rfl⟩
        · rintro ⟨u, rfl | hu, rfl⟩
          · exact Or.inl rfl
          · exact Or.inr ⟨u, hu, rfl⟩
  | @delete t t' s x value _ hx hstep ih =>
    obtain ⟨items, hholds, rfl⟩ := ih
    obtain ⟨w, hw, rfl, rfl⟩ := (hholds.values x value).mp hx
    obtain ⟨lo, hi, rfl⟩ := List.append_of_mem hw
    obtain ⟨t₁, hdelete, -, hholds'⟩ := hholds.skiplistDelete hlt
    rw [hdelete] at hstep
    cases hstep
    refine ⟨_, hholds', ?_⟩
    have hnodup : ((lo ++ w :: hi).map Tower.value).Nodup := hholds.sorted.imp ne_of_lt
    rw [List.map_append, List.map_cons, List.perm_middle.nodup_iff, List.nodup_cons] at hnodup
    ext v
    rw [Finset.mem_erase, List.mem_toFinset, List.mem_toFinset, List.map_append, List.map_append,
      List.map_cons, List.mem_append, List.mem_cons, List.mem_append]
    rw [List.mem_append] at hnodup
    constructor
    · rintro ⟨hne, hv | rfl | hv⟩
      · exact Or.inl hv
      · exact absurd rfl hne
      · exact Or.inr hv
    · intro hv
      refine ⟨fun heq => hnodup.1 (heq ▸ hv), ?_⟩
      tauto

/-- The skiplist is a sorted set. -/
theorem skiplist_refines (hlt : ∀ v w, compare v w < 0 ↔ v < w)
    (hzero : ∀ v w, compare v w = 0 ↔ v = w) (h : Reached compare t s) : Refines compare t s := by
  obtain ⟨items, hholds, rfl⟩ := h.holds hlt hzero
  have hnodup : (items.map Tower.value).Nodup := hholds.sorted.imp ne_of_lt
  have hsort : (items.map Tower.value).toFinset.sort (· ≤ ·) = items.map Tower.value :=
    (List.toFinset_sort (· ≤ ·) hnodup).mpr (hholds.sorted.imp le_of_lt)
  constructor
  case elements =>
    rw [hsort, hholds.chain (by decide), hholds.row_zero, List.tail_cons, Option.bind_some]
    exact ⟨mapM_valueAt fun w hw => hholds.valueAt_node hw, hholds.sorted⟩
  case levels =>
    intro i hi
    refine ⟨_, _, hholds.chain hi, hholds.chain (by omega), ?_⟩
    exact (row_sublist (Nat.le_succ i)).tail
  case len =>
    rw [List.toFinset_card_of_nodup hnodup, List.length_map, hholds.len]
  case insert_mem =>
    intro value hvalue draws alloc
    exact hholds.skiplistInsert_of_mem hlt hzero (List.mem_toFinset.mp hvalue) draws alloc
  case insert_notMem =>
    intro value hvalue draws a ha
    rw [List.mem_toFinset] at hvalue
    obtain ⟨-, hsome⟩ := hholds.skiplistInsert_of_notMem hlt hzero hvalue draws
    obtain ⟨t', -, -, -, hinsert, -⟩ := hsome a ha
    exact ⟨t', hinsert⟩
  case insert_noMemory =>
    intro value hvalue draws
    rw [List.mem_toFinset] at hvalue
    exact ⟨_, (hholds.skiplistInsert_of_notMem hlt hzero hvalue draws).1⟩
  case find =>
    intro value
    obtain ⟨r, hr, hiff, hfound⟩ := hholds.skiplistFind hlt hzero value
    exact ⟨r, hr, hiff.trans List.mem_toFinset.symm, hfound⟩
  case delete =>
    intro x value hx
    obtain ⟨w, hw, rfl, rfl⟩ := (hholds.values x value).mp hx
    refine ⟨List.mem_toFinset.mpr (List.mem_map_of_mem hw), ?_⟩
    obtain ⟨lo, hi, rfl⟩ := List.append_of_mem hw
    obtain ⟨t', hdelete, -, -⟩ := hholds.skiplistDelete hlt
    exact ⟨t', hdelete⟩
  case iterate =>
    intro del
    have hiter : t.skiplistGetIterator = some (items.map Tower.node).head? := by
      rw [skiplistGetIterator, hholds.linked 0 (by decide) _ header_mem_row, hholds.row_zero,
        nextIn_cons_self]
    have hrounds : items.length < t.len + 1 := by
      rw [hholds.len]
      exact Nat.lt_succ_self _
    have hwhole : t.Holds ([] ++ items) := hholds
    obtain ⟨t', ht', hreached⟩ := h.iterate hlt del hwhole hrounds
    refine ⟨_, t', hiter, by rw [hsort]; exact ht', ?_⟩
    have hset : (items.map Tower.value).toFinset.filter (fun v => !del v) =
        (items.map Tower.value).toFinset \ ((items.map Tower.value).filter del).toFinset := by
      ext v
      simp only [Finset.mem_filter, Finset.mem_sdiff, List.mem_toFinset, List.mem_filter,
        Bool.not_eq_true']
      constructor
      · rintro ⟨hv, hdel⟩
        exact ⟨hv, fun h => Bool.eq_false_iff.mp hdel h.2⟩
      · rintro ⟨hv, hdel⟩
        exact ⟨hv, Bool.eq_false_iff.mpr fun h => hdel ⟨hv, h⟩⟩
    rw [hset]
    exact hreached

/-- Two insertions, the second with a higher node, and the deletion of the first node. -/
theorem skiplist_refines_run :
    ∃ t : Skiplist ℤ, t.level = 3 ∧ Refines (fun v w => v - w) t {3} := by
  obtain ⟨t₁, t₂, t₃, hfive, hfree, hthree, hvalue, hdelete, hlevel⟩ :
      ∃ t₁ t₂ t₃ : Skiplist ℤ,
        (skiplistCreate 0).skiplistInsert (fun v w => v - w) 5 [0] (some 1) = some (true, t₁) ∧
        t₁.nodes.find 2 = none ∧
        t₁.skiplistInsert (fun v w => v - w) 3 [0, 0] (some 2) = some (true, t₂) ∧
        valueAt t₂.nodes 1 = some 5 ∧
        t₂.skiplistDelete (fun v w => v - w) 1 = some t₃ ∧ t₃.level = 3 :=
    ⟨_, _, _, rfl, rfl, rfl, rfl, rfl, rfl⟩
  have h₁ : Reached (fun v w => v - w) t₁ {5} :=
    Reached.insert (Reached.create 0) (by rintro a ⟨⟩; rfl) hfive
  have h₂ : Reached (fun v w => v - w) t₂ {3, 5} :=
    Reached.insert h₁ (by rintro a ⟨⟩; exact hfree) hthree
  have h₃ : Reached (fun v w => v - w) t₃ {3} := Reached.delete h₂ hvalue hdelete
  exact ⟨t₃, hlevel, skiplist_refines (fun v w => sub_neg) (fun v w => sub_eq_zero) h₃⟩

end Runs

end Skiplist

end ViabtcExchange
