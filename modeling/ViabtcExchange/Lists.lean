import ViabtcExchange.Lib.Links

/-!
# Linked lists (`ut_list.c`)

The operations besides `list_add_node_tail`, `list_del` and `list_next`. A list is a sequence of
nodes with their values: adding a node puts an element into the sequence, at one of its ends or next
to another, and `list_rotate` moves the last to the front.

**Theorem (`list_refines`).** After any operations the pointers of a list give the sequence, from
both ends.
-/

namespace ViabtcExchange

namespace LinkedList

variable {V : Type}

/-! ## Operations -/

section Operations

/-- `list_add_node_head`, with the new node at an address. -/
def listAddNodeHead (l : LinkedList V) (a : ℕ) (value : V) : Option (LinkedList V) :=
  match l.len, l.head with
  | 0, _ => some ⟨l.nodes.insert a ⟨none, none, value⟩, some a, some a, 1⟩
  | len + 1, some head =>
    (modify l.nodes head fun node => { node with prev := some a }).map fun nodes =>
      ⟨nodes.insert a ⟨none, some head, value⟩, some a, l.tail, len + 2⟩
  | _ + 1, none => none

/-- Write to the node that a pointer points to, if it is not `NULL`. -/
def modifyIf (nodes : Dict ℕ (ListNode V)) (p : Option ℕ) (f : ListNode V → ListNode V) :
    Option (Dict ℕ (ListNode V)) :=
  match p with
  | none => some nodes
  | some a => modify nodes a f

/-- `list_insert_node`, with the new node at an address. -/
def listInsertNode (l : LinkedList V) (pos a : ℕ) (value : V) (before : Bool) :
    Option (LinkedList V) :=
  (l.nodes.find pos).bind fun p =>
    let node : ListNode V :=
      if before then ⟨p.prev, some pos, value⟩ else ⟨some pos, p.next, value⟩
    let head := if before ∧ l.head = some pos then some a else l.head
    let tail := if ¬before ∧ l.tail = some pos then some a else l.tail
    (modifyIf (l.nodes.insert a node) node.prev fun n => { n with next := some a }).bind
      fun nodes => (modifyIf nodes node.next fun n => { n with prev := some a }).map
        fun nodes => ⟨nodes, head, tail, l.len + 1⟩

/-- `list_rotate`. -/
def listRotate (l : LinkedList V) : Option (LinkedList V) :=
  if l.len ≤ 1 then some l
  else
    match l.head, l.tail with
    | some head, some a =>
      (l.nodes.find a).bind fun node =>
        node.prev.bind fun tail =>
          (modify l.nodes tail fun node => { node with next := none }).bind fun nodes =>
            (modify nodes a fun node => { node with next := some head, prev := none }).bind
              fun nodes =>
                (modify nodes head fun node => { node with prev := some a }).map fun nodes =>
                  ⟨nodes, some a, some tail, l.len⟩
    | _, _ => none

/-- The loop of `list_clear`. -/
def clearNodes : ℕ → Option ℕ → Dict ℕ (ListNode V) → Option (Dict ℕ (ListNode V))
  | 0, _, nodes => some nodes
  | _ + 1, none, _ => none
  | len + 1, some a, nodes =>
    (nodes.find a).bind fun node => clearNodes len node.next (nodes.erase a)

/-- `list_clear`. -/
def listClear (l : LinkedList V) : Option (LinkedList V) :=
  (clearNodes l.len l.head l.nodes).map fun nodes => ⟨nodes, none, none, 0⟩

/-- `LIST_START_HEAD` and `LIST_START_TAIL`. -/
inductive Direction
  | head
  | tail

/-- `list_get_iterator`: where the iterator begins. -/
def listGetIterator (l : LinkedList V) : Direction → Option ℕ
  | .head => l.head
  | .tail => l.tail

/-- `list_next` in both directions. -/
def listNextIn (l : LinkedList V) :
    Direction → Option ℕ → Option (Option (ℕ × V) × Option ℕ)
  | .head, iter => l.listNext iter
  | .tail, none => some (none, none)
  | .tail, some a => (l.nodes.find a).map fun node => (some (a, node.value), node.prev)

/-- A loop over a list that deletes the nodes that `del` picks: the nodes it comes to, and what is
left. -/
def iterate (direction : Direction) (del : ℕ × V → Bool) :
    ℕ → Option ℕ → LinkedList V → Option (List (ℕ × V) × LinkedList V)
  | 0, _, _ => none
  | rounds + 1, iter, l =>
    (l.listNextIn direction iter).bind fun r =>
      match r.1 with
      | none => some ([], l)
      | some item =>
        (if del item then l.listDel item.1 else some l).bind fun l =>
          (iterate direction del rounds r.2 l).map fun s => (item :: s.1, s.2)

/-- The loop of `list_find`. -/
def findNode (l : LinkedList V) (compare : V → V → ℤ) (value : V) :
    ℕ → Option ℕ → Option (Option ℕ)
  | 0, _ => none
  | rounds + 1, iter =>
    (l.listNext iter).bind fun r =>
      match r.1 with
      | none => some none
      | some (a, v) =>
        if compare v value = 0 then some (some a) else findNode l compare value rounds r.2

/-- `list_find`. -/
def listFind (l : LinkedList V) (compare : Option (V → V → ℤ)) (value : V) : Option (Option ℕ) :=
  match compare with
  | none => some none
  | some compare => l.findNode compare value (l.len + 1) l.head

/-- The loop of `list_index`: so many nodes on. -/
def nodeAt (nodes : Dict ℕ (ListNode V)) (go : ListNode V → Option ℕ) :
    ℕ → Option ℕ → Option (Option ℕ)
  | 0, p => some p
  | _ + 1, none => some none
  | index + 1, some a => (nodes.find a).bind fun node => nodeAt nodes go index (go node)

/-- `list_index`. A `long` wraps around. -/
def listIndex (l : LinkedList V) (index : ℤ) : Option (Option ℕ) :=
  if index < 0 then
    nodeAt l.nodes ListNode.prev (((-index).bmod (2 ^ 64) - 1).bmod (2 ^ 64)).toNat l.tail
  else nodeAt l.nodes ListNode.next index.toNat l.head

/-- The loop of `list_dup`, with the addresses of the new nodes: it returns `NULL` when there is no
memory for another. -/
def dupNodes (l : LinkedList V) :
    ℕ → Option ℕ → LinkedList V → List ℕ → Option (Option (LinkedList V))
  | 0, _, _, _ => none
  | rounds + 1, iter, copy, addresses =>
    (l.listNext iter).bind fun r =>
      match r.1, addresses with
      | none, _ => some (some copy)
      | some _, [] => some none
      | some (_, value), a :: addresses =>
        (copy.listAddNodeTail a value).bind fun copy => dupNodes l rounds r.2 copy addresses

/-- `list_dup`. -/
def listDup (l : LinkedList V) (addresses : List ℕ) : Option (Option (LinkedList V)) :=
  l.dupNodes (l.len + 1) l.head empty addresses

end Operations

/-! ## Insertions -/

section Insertions

variable {l : LinkedList V} {items front rest : List (ℕ × V)} {a pos : ℕ} {w : V}

theorem exists_modifyIf (nodes : Dict ℕ (ListNode V)) (p : Option ℕ)
    (f : ListNode V → ListNode V) (hp : ∀ b, p = some b → nodes.find b ≠ none) :
    ∃ nodes', modifyIf nodes p f = some nodes' ∧ ∀ b, nodes'.find b =
      (nodes.find b).map fun n => if p = some b then f n else n := by
  cases p with
  | none =>
    refine ⟨nodes, rfl, fun b => ?_⟩
    cases nodes.find b <;> rfl
  | some c => exact exists_modify nodes f (hp c rfl)

variable (value : V)

theorem Holds.addHead (h : Holds l items) (ha : l.nodes.find a = none) :
    ∃ l', l.listAddNodeHead a value = some l' ∧ Holds l' ((a, value) :: items) := by
  have hstart : Holds l ([] ++ items) := h
  cases items with
  | nil =>
    have hlen : l.len = 0 := h.len
    refine ⟨_, by rw [listAddNodeHead, hlen], hstart.insert ha (fun b => ?_) rfl rfl ?_⟩
    · rw [Dict.find_insert]
      by_cases hba : b = a
      · rw [if_pos hba, if_pos hba]
        rfl
      · rw [if_neg hba, if_neg hba]
        cases l.nodes.find b <;> rfl
    · rw [hlen]
  | cons item rest =>
    obtain ⟨c, w⟩ := item
    have hlen : l.len = rest.length + 1 := h.len
    have hhead : l.head = some c := h.head
    obtain ⟨node, hnode⟩ := Option.ne_none_iff_exists'.mp
      (h.find_ne_none (List.mem_map_of_mem List.mem_cons_self))
    have hmodify := modify_eq (fun node => { node with prev := some a }) hnode
    have hadd : l.listAddNodeHead a value =
        some ⟨(l.nodes.insert c { node with prev := some a }).insert a ⟨none, some c, value⟩,
          some a, l.tail, rest.length + 2⟩ := by
      rw [listAddNodeHead, hlen, hhead]
      show Option.map _ (modify l.nodes c fun node => { node with prev := some a }) = _
      rw [hmodify]
      rfl
    refine ⟨_, hadd, hstart.insert ha (fun b => ?_) rfl rfl ?_⟩
    · rw [Dict.find_insert]
      by_cases hba : b = a
      · rw [if_pos hba, if_pos hba]
        rfl
      · rw [if_neg hba, if_neg hba, find_modify hmodify]
        have hfirst : first ((c, w) :: rest) = some c := rfl
        rw [hfirst]
        congr 1
        funext node
        by_cases hcb : c = b
        · rw [if_pos hcb, if_pos (congrArg some hcb)]
          rfl
        · rw [if_neg hcb, if_neg fun heq => hcb (Option.some.inj heq)]
          rfl
    · rw [hlen]

/-- The nodes on both sides of a new one come to point to it. -/
theorem Holds.exists_link (h : Holds l (front ++ rest)) (ha : l.nodes.find a = none) :
    ∃ nodes₁ nodes₂,
      modifyIf (l.nodes.insert a ⟨lastOf none front, first rest, value⟩) (lastOf none front)
        (fun n => { n with next := some a }) = some nodes₁ ∧
      modifyIf nodes₁ (first rest) (fun n => { n with prev := some a }) = some nodes₂ ∧
      ∀ head tail, (head = if lastOf none front = none then some a else l.head) →
        (tail = if first rest = none then some a else l.tail) →
        Holds ⟨nodes₂, head, tail, l.len + 1⟩ (front ++ (a, value) :: rest) := by
  have hlast : ∀ b, lastOf none front = some b → l.nodes.find b ≠ none := by
    intro b hb
    refine h.find_ne_none ?_
    rw [List.map_append]
    exact List.mem_append_left _ ((lastOf_mem hb).resolve_left fun hnone => (nomatch hnone.2))
  have hfirst : ∀ b, first rest = some b → l.nodes.find b ≠ none := by
    intro b hb
    refine h.find_ne_none ?_
    rw [List.map_append]
    exact List.mem_append_right _ (first_mem hb)
  have hkept : ∀ b, l.nodes.find b ≠ none → b ≠ a := by
    rintro b hb rfl
    exact hb ha
  obtain ⟨nodes₁, hnodes₁, hfind₁⟩ := exists_modifyIf
    (l.nodes.insert a ⟨lastOf none front, first rest, value⟩) (lastOf none front)
    (fun n => { n with next := some a }) (by
      intro b hb
      rw [Dict.find_insert, if_neg (hkept b (hlast b hb))]
      exact hlast b hb)
  obtain ⟨nodes₂, hnodes₂, hfind₂⟩ := exists_modifyIf nodes₁ (first rest)
    (fun n => { n with prev := some a }) (by
      intro b hb
      rw [hfind₁, Dict.find_insert, if_neg (hkept b (hfirst b hb)), Ne, Option.map_eq_none_iff]
      exact hfirst b hb)
  refine ⟨nodes₁, nodes₂, hnodes₁, hnodes₂, fun head tail hhead htail => ?_⟩
  refine h.insert ha (fun b => ?_) hhead htail rfl
  show nodes₂.find b = _
  rw [hfind₂, hfind₁, Dict.find_insert]
  by_cases hba : b = a
  · subst hba
    have hlast' : lastOf none front ≠ some b := fun heq => hlast b heq ha
    have hfirst' : first rest ≠ some b := fun heq => hfirst b heq ha
    rw [if_pos rfl, if_pos rfl, Option.map_some, Option.map_some, if_neg hlast', if_neg hfirst']
  · rw [if_neg hba, if_neg hba, Option.map_map]
    congr 1
    funext n
    simp only [Function.comp_apply]
    split_ifs <;> rfl

/-- The sequence with a new element next to the node at `pos`. -/
theorem Holds.insertNode (h : Holds l (front ++ (pos, w) :: rest)) (ha : l.nodes.find a = none)
    (before : Bool) :
    ∃ l', l.listInsertNode pos a value before = some l' ∧
      Holds l' (if before then front ++ (a, value) :: (pos, w) :: rest
        else front ++ (pos, w) :: (a, value) :: rest) := by
  have hpos := h.nodes pos w h.mem_middle
  rw [prevOf_middle h.notMem_front, nextOf_middle h.notMem_front] at hpos
  cases before with
  | true =>
    obtain ⟨nodes₁, nodes₂, hnodes₁, hnodes₂, hholds⟩ := h.exists_link value ha
    refine ⟨_, ?_, hholds (if l.head = some pos then some a else l.head) l.tail ?_ rfl⟩
    · rw [listInsertNode, hpos]
      simp only [Option.bind_some, if_true, true_and, not_true_eq_false, false_and, if_false]
      have hfirst : first ((pos, w) :: rest) = some pos := rfl
      rw [hfirst] at hnodes₁ hnodes₂
      rw [hnodes₁, Option.bind_some, hnodes₂, Option.map_some]
    · rw [h.head]
      cases front with
      | nil => exact (if_pos rfl).trans (if_pos rfl).symm
      | cons item front =>
        have hne : first (item :: front ++ (pos, w) :: rest) ≠ some pos := by
          intro heq
          refine h.notMem_front ?_
          rw [← Option.some.inj heq]
          exact List.mem_cons_self
        rw [if_neg hne, if_neg fun hnone => List.cons_ne_nil _ _ (lastOf_eq_none hnone)]
  | false =>
    have hmove : front ++ (pos, w) :: rest = (front ++ [(pos, w)]) ++ rest := by simp
    have hholds := h
    rw [hmove] at hholds
    obtain ⟨nodes₁, nodes₂, hnodes₁, hnodes₂, hholds⟩ := hholds.exists_link value ha
    rw [lastOf_concat] at hnodes₁
    have hgoal : (front ++ [(pos, w)]) ++ (a, value) :: rest =
        front ++ (pos, w) :: (a, value) :: rest := by simp
    rw [hgoal] at hholds
    refine ⟨_, ?_, hholds l.head (if l.tail = some pos then some a else l.tail) ?_ ?_⟩
    · rw [listInsertNode, hpos]
      simp only [Option.bind_some, Bool.false_eq_true, if_false, false_and, not_false_eq_true,
        true_and]
      rw [hnodes₁, Option.bind_some, hnodes₂, Option.map_some]
    · rw [lastOf_concat]
      rfl
    · rw [h.tail, lastOf_append, lastOf]
      cases rest with
      | nil => exact (if_pos rfl).trans (if_pos rfl).symm
      | cons item rest =>
        have hnodup := h.nodup
        rw [List.map_append, List.map_cons, List.nodup_append', List.nodup_cons] at hnodup
        have hne : lastOf (some pos) (item :: rest) ≠ some pos := by
          intro heq
          rcases lastOf_mem heq with ⟨hnil, -⟩ | hmem
          · cases hnil
          · exact hnodup.2.1.1 hmem
        rw [if_neg hne]
        rfl

end Insertions

/-! ## Rotation and clearing -/

section Rotation

variable {l : LinkedList V} {items front rest : List (ℕ × V)} {a head tail : ℕ} {value : V}

/-- To rotate is to take the last node out and to put it before the first. -/
theorem Holds.rotate (h : Holds l (front ++ [(a, value)])) (hfront : front ≠ []) :
    ∃ l', l.listRotate = some l' ∧ Holds l' ((a, value) :: front) := by
  obtain ⟨body, ⟨tail, w⟩, rfl⟩ := (List.eq_nil_or_concat' front).resolve_left hfront
  have hlast : lastOf none (body ++ [(tail, w)]) = some tail := lastOf_concat none body tail w
  obtain ⟨head, hhead⟩ : ∃ head, first (body ++ [(tail, w)]) = some head := by
    cases body <;> exact ⟨_, rfl⟩
  have hl_head : l.head = some head := by
    rw [h.head, ← hhead]
    cases body <;> rfl
  have hl_tail : l.tail = some a := h.tail.trans (lastOf_concat none _ a value)
  have hnode := h.nodes a value h.mem_middle
  rw [prevOf_middle h.notMem_front, nextOf_middle h.notMem_front, hlast] at hnode
  have hmem : ∀ b ∈ (body ++ [(tail, w)]).map Prod.fst, l.nodes.find b ≠ none ∧ b ≠ a := by
    intro b hb
    refine ⟨h.find_ne_none ?_, fun heq => h.notMem_front (heq ▸ hb)⟩
    rw [List.map_append]
    exact List.mem_append_left _ hb
  have htail := hmem tail (by simp)
  have hfirst := hmem head (first_mem hhead)
  -- What is left when the last node has been taken out.
  obtain ⟨cut, hcut, hfind, hcutHead, hcutTail, hcutLen⟩ := exists_listDel hnode
    (fun b hb => (nomatch hb)) (fun b hb => Option.some.inj hb ▸ htail.1)
  have hcutHolds : Holds cut ([] ++ (body ++ [(tail, w)])) := by
    obtain ⟨l', hdel, hl'⟩ := holds_listDel_middle h
    rw [hcut] at hdel
    obtain rfl := Option.some.inj hdel
    rwa [List.append_nil] at hl'
  -- The three writes.
  obtain ⟨nodes₁, hnodes₁, hfind₁⟩ := exists_modifyIf l.nodes (some tail)
    (fun node => { node with next := none }) fun b hb => Option.some.inj hb ▸ htail.1
  obtain ⟨nodes₂, hnodes₂, hfind₂⟩ := exists_modifyIf nodes₁ (some a)
    (fun node => { node with next := some head, prev := none }) (by
      rintro b ⟨⟩
      rw [hfind₁, hnode]
      exact Option.some_ne_none _)
  obtain ⟨nodes₃, hnodes₃, hfind₃⟩ := exists_modifyIf nodes₂ (some head)
    (fun node => { node with prev := some a }) (by
      rintro b ⟨⟩
      rw [hfind₂, hfind₁, Ne, Option.map_eq_none_iff, Option.map_eq_none_iff]
      exact hfirst.1)
  rw [modifyIf] at hnodes₁ hnodes₂ hnodes₃
  have hlen : l.len = body.length + 2 := by
    rw [h.len]
    simp
  refine ⟨⟨nodes₃, some a, some tail, l.len⟩, ?_, hcutHolds.insert ?_ (fun b => ?_) rfl ?_ ?_⟩
  · rw [listRotate, if_neg (by omega), hl_head, hl_tail]
    simp only [hnode, Option.bind_some, hnodes₁, hnodes₂, hnodes₃, Option.map_some]
  · rw [hfind, if_pos rfl]
  · show nodes₃.find b = _
    rw [hfind₃, hfind₂, hfind₁, hfind, hhead]
    by_cases hba : b = a
    · subst hba
      have htb : ¬some tail = some b := fun heq => htail.2 (Option.some.inj heq)
      have hhb : ¬some head = some b := fun heq => hfirst.2 (Option.some.inj heq)
      rw [if_pos rfl, hnode]
      simp only [Option.map_some, if_neg htb, if_neg hhb, if_true]
      rfl
    · rw [if_neg hba, if_neg hba]
      cases l.nodes.find b with
      | none => rfl
      | some node =>
        have hab : ¬a = b := Ne.symm hba
        simp only [Option.map_some, Option.some.injEq]
        by_cases hhb : head = b
        · by_cases htb : tail = b <;> simp [hhb, htb, hab, lastOf, first]
        · by_cases htb : tail = b <;> simp [hhb, htb, hab, lastOf, first]
  · rw [hcutTail, hhead]
    rfl
  · rw [hcutLen]
    show l.len = l.len - 1 + 1
    omega

theorem listRotate_short (h : Holds l items) (hlen : items.length ≤ 1) :
    l.listRotate = some l := by
  rw [listRotate, if_pos (h.len ▸ hlen)]

/-- The loop of `list_clear` frees the nodes one after another. -/
theorem clearNodes_spec (nodes : Dict ℕ (ListNode V)) (hnodup : (rest.map Prod.fst).Nodup)
    (hnext : ∀ b ∈ rest.map Prod.fst, (nodes.find b).map ListNode.next = some (nextOf rest b))
    (honly : ∀ b, nodes.find b ≠ none → b ∈ rest.map Prod.fst) :
    ∃ nodes', clearNodes rest.length (first rest) nodes = some nodes' ∧
      ∀ b, nodes'.find b = none := by
  induction rest generalizing nodes with
  | nil =>
    refine ⟨nodes, rfl, fun b => ?_⟩
    by_contra hb
    exact List.not_mem_nil (honly b hb)
  | cons item rest ih =>
    obtain ⟨a, value⟩ := item
    rw [List.map_cons, List.nodup_cons] at hnodup
    obtain ⟨node, hnode, hnode'⟩ := Option.map_eq_some_iff.mp (hnext a List.mem_cons_self)
    rw [nextOf, if_pos rfl] at hnode'
    obtain ⟨nodes', hclear, hempty⟩ := ih (nodes.erase a) hnodup.2 (by
      intro b hb
      have hba : b ≠ a := fun heq => hnodup.1 (heq ▸ hb)
      have hstep := hnext b (List.mem_cons_of_mem _ hb)
      rw [nextOf, if_neg hba.symm] at hstep
      rw [Dict.find_erase, if_neg hba, hstep]) (by
      intro b hb
      rw [Dict.find_erase] at hb
      split_ifs at hb with hba
      · exact absurd rfl hb
      · exact (List.mem_cons.mp (honly b hb)).resolve_left hba)
    refine ⟨nodes', ?_, hempty⟩
    have hfirst : first ((a, value) :: rest) = some a := rfl
    rw [hfirst, List.length_cons, clearNodes, hnode, Option.bind_some, hnode', hclear]

theorem Holds.clear (h : Holds l items) : ∃ l', l.listClear = some l' ∧ Holds l' [] := by
  obtain ⟨nodes', hclear, hempty⟩ := clearNodes_spec l.nodes h.nodup (fun b hb => by
    obtain ⟨⟨b', v⟩, hmem, rfl⟩ := List.mem_map.mp hb
    rw [h.nodes b' v hmem, Option.map_some]) h.only
  refine ⟨⟨nodes', none, none, 0⟩, ?_, List.nodup_nil, fun _ _ hb => (nomatch hb), ?_, rfl, rfl,
    rfl⟩
  · rw [listClear, h.len, h.head, hclear, Option.map_some]
  · exact fun b hb => absurd (hempty b) hb

end Rotation

/-! ## Reading a list -/

section Reading

/-- The element with an index; a negative index counts from the end. -/
def elementAt (items : List (ℕ × V)) (index : ℤ) : Option (ℕ × V) :=
  if 0 ≤ index then items[index.toNat]?
  else if -items.length ≤ index then items[(items.length + index).toNat]? else none

variable {l : LinkedList V} {items front rest : List (ℕ × V)} {a : ℕ} {value : V}

theorem Holds.find_middle (h : Holds l (front ++ (a, value) :: rest)) :
    l.nodes.find a = some ⟨lastOf none front, first rest, value⟩ := by
  rw [h.nodes a value h.mem_middle, prevOf_middle h.notMem_front, nextOf_middle h.notMem_front]

theorem listNextIn_tail (h : Holds l (front ++ (a, value) :: rest)) :
    l.listNextIn .tail (some a) = some (some (a, value), lastOf none front) := by
  rw [listNextIn, h.find_middle, Option.map_some]

theorem Holds.nodeAt_next (h : Holds l (front ++ rest)) (index : ℕ) :
    nodeAt l.nodes ListNode.next index (first rest) = some (rest[index]?.map Prod.fst) := by
  induction rest generalizing front index with
  | nil => cases index <;> rfl
  | cons item rest ih =>
    obtain ⟨a, value⟩ := item
    have hfirst : first ((a, value) :: rest) = some a := rfl
    cases index with
    | zero => rfl
    | succ index =>
      have hmove : front ++ (a, value) :: rest = (front ++ [(a, value)]) ++ rest := by simp
      rw [hfirst, nodeAt, h.find_middle, Option.bind_some, List.getElem?_cons_succ]
      rw [hmove] at h
      exact ih h index

theorem Holds.nodeAt_prev (h : Holds l (front.reverse ++ rest)) (index : ℕ) :
    nodeAt l.nodes ListNode.prev index (lastOf none front.reverse) =
      some (front[index]?.map Prod.fst) := by
  induction front generalizing rest index with
  | nil => cases index <;> rfl
  | cons item front ih =>
    obtain ⟨a, value⟩ := item
    rw [List.reverse_cons] at h ⊢
    rw [lastOf_concat]
    cases index with
    | zero => rfl
    | succ index =>
      rw [List.append_assoc, List.singleton_append] at h
      rw [nodeAt, h.find_middle, Option.bind_some, List.getElem?_cons_succ]
      exact ih h index

/-- `list_index` for every `long`. -/
theorem Holds.listIndex (h : Holds l items) {index : ℤ} (hlow : -2 ^ 63 ≤ index)
    (hhigh : index < 2 ^ 63) : l.listIndex index = some ((elementAt items index).map Prod.fst) := by
  rw [LinkedList.listIndex, elementAt]
  by_cases hneg : index < 0
  · have hwrap : ((-index).bmod (2 ^ 64) - 1).bmod (2 ^ 64) = -index - 1 := by
      rw [Int.bmod_sub_bmod, Int.bmod_eq_of_le_mul_two] <;> omega
    have hback : Holds l (items.reverse.reverse ++ []) := by
      rw [List.reverse_reverse, List.append_nil]
      exact h
    have hnode := hback.nodeAt_prev (-index - 1).toNat
    rw [List.reverse_reverse] at hnode
    rw [if_pos hneg, if_neg (by omega), hwrap, h.tail, hnode]
    by_cases hin : -(items.length : ℤ) ≤ index
    · rw [if_pos hin, List.getElem?_reverse (by omega)]
      congr 3
      omega
    · rw [if_neg hin, List.getElem?_eq_none]
      rw [List.length_reverse]
      omega
  · have hstart : Holds l ([] ++ items) := h
    rw [if_neg hneg, if_pos (by omega), h.head, hstart.nodeAt_next]

theorem Holds.findNode (compare : V → V → ℤ) (value : V) (h : Holds l (front ++ rest))
    {rounds : ℕ} (hrounds : rest.length < rounds) :
    l.findNode compare value rounds (first rest) =
      some ((rest.find? fun item => compare item.2 value = 0).map Prod.fst) := by
  induction rest generalizing front rounds with
  | nil =>
    obtain ⟨rounds, rfl⟩ := Nat.exists_eq_succ_of_ne_zero (by omega : rounds ≠ 0)
    rfl
  | cons item rest ih =>
    obtain ⟨a, v⟩ := item
    obtain ⟨rounds, rfl⟩ := Nat.exists_eq_succ_of_ne_zero (by omega : rounds ≠ 0)
    have hfirst : first ((a, v) :: rest) = some a := rfl
    have hmove : front ++ (a, v) :: rest = (front ++ [(a, v)]) ++ rest := by simp
    rw [hfirst, LinkedList.findNode, listNext_middle h, Option.bind_some]
    rw [hmove] at h
    simp only
    by_cases hv : compare v value = 0
    · simp [hv]
    · rw [if_neg hv, ih h (Nat.lt_of_succ_lt_succ hrounds)]
      simp [hv]

end Reading

/-! ## Runs -/

/-- The lists of all runs, each with the sequence of nodes that it is to be. A new node gets an
address that is free. -/
inductive Reached : LinkedList V → List (ℕ × V) → Prop
  | create : Reached empty []
  | addHead {l l' : LinkedList V} {items : List (ℕ × V)} {a : ℕ} {value : V} (h : Reached l items)
      (ha : l.nodes.find a = none) (hstep : l.listAddNodeHead a value = some l') :
      Reached l' ((a, value) :: items)
  | addTail {l l' : LinkedList V} {items : List (ℕ × V)} {a : ℕ} {value : V} (h : Reached l items)
      (ha : l.nodes.find a = none) (hstep : l.listAddNodeTail a value = some l') :
      Reached l' (items ++ [(a, value)])
  | insert {l l' : LinkedList V} {items : List (ℕ × V)} {i pos a : ℕ} {w value : V}
      (before : Bool) (h : Reached l items) (hpos : items[i]? = some (pos, w))
      (ha : l.nodes.find a = none) (hstep : l.listInsertNode pos a value before = some l') :
      Reached l' (items.insertIdx (if before then i else i + 1) (a, value))
  | rotate {l l' : LinkedList V} {items : List (ℕ × V)} (h : Reached l items)
      (hstep : l.listRotate = some l') : Reached l' items.rotateRight
  | del {l l' : LinkedList V} {items : List (ℕ × V)} {i a : ℕ} {value : V} (h : Reached l items)
      (hpos : items[i]? = some (a, value)) (hstep : l.listDel a = some l') :
      Reached l' (items.eraseIdx i)
  | clear {l l' : LinkedList V} {items : List (ℕ × V)} (h : Reached l items)
      (hstep : l.listClear = some l') : Reached l' []

section Runs

variable {l : LinkedList V} {items front rest : List (ℕ × V)} {i a pos : ℕ} {w value : V}

theorem exists_front (hpos : items[i]? = some (a, value)) :
    ∃ front rest, items = front ++ (a, value) :: rest ∧ front.length = i := by
  obtain ⟨hi, hget⟩ := List.getElem?_eq_some_iff.mp hpos
  refine ⟨items.take i, items.drop (i + 1), ?_, by simpa using hi.le⟩
  rw [← hget, List.cons_getElem_drop_succ, List.take_append_drop]

theorem rotateRight_concat (front : List (ℕ × V)) (item : ℕ × V) :
    (front ++ [item]).rotateRight = item :: front := by
  cases front with
  | nil => rfl
  | cons first front => simp [List.rotateRight]

theorem eraseIdx_middle (item : ℕ × V) :
    (front ++ item :: rest).eraseIdx front.length = front ++ rest := by
  rw [List.eraseIdx_append_of_length_le (le_refl _), Nat.sub_self, List.eraseIdx_cons_zero]

theorem insertIdx_middle (item : ℕ × V) :
    (front ++ rest).insertIdx front.length item = front ++ item :: rest := by
  induction front with
  | nil => rw [List.nil_append, List.length_nil, List.insertIdx_zero, List.nil_append]
  | cons first front ih =>
    rw [List.cons_append, List.length_cons, List.insertIdx_succ_cons, ih, List.cons_append]

/-- Every operation keeps the sequence. -/
theorem Reached.holds (h : Reached l items) : l.Holds items := by
  induction h with
  | create => exact holds_empty
  | addHead _ ha hstep ih =>
    obtain ⟨l', hadd, hholds⟩ := ih.addHead _ ha
    rw [hadd] at hstep
    cases hstep
    exact hholds
  | addTail _ ha hstep ih =>
    obtain ⟨l', hadd, hholds⟩ := holds_listAddNodeTail _ ih fun hmem => ih.find_ne_none hmem ha
    rw [hadd] at hstep
    cases hstep
    exact hholds
  | @insert _ _ _ _ pos _ w _ before _ hpos ha hstep ih =>
    obtain ⟨front, rest, rfl, rfl⟩ := exists_front hpos
    obtain ⟨l', hinsert, hholds⟩ := ih.insertNode _ ha before
    rw [hinsert] at hstep
    cases hstep
    cases before with
    | true =>
      rw [if_pos rfl, insertIdx_middle]
      exact hholds
    | false =>
      have hmove : front ++ (pos, w) :: rest = (front ++ [(pos, w)]) ++ rest := by simp
      have hlength : front.length + 1 = (front ++ [(pos, w)]).length := by simp
      rw [if_neg Bool.false_ne_true, hmove, hlength, insertIdx_middle, List.append_assoc]
      exact hholds
  | @rotate l l' items _ hstep ih =>
    obtain rfl | ⟨front, ⟨a, value⟩, rfl⟩ := List.eq_nil_or_concat' items
    · rw [listRotate_short ih (by simp)] at hstep
      cases hstep
      exact ih
    · rw [rotateRight_concat]
      by_cases hfront : front = []
      · subst hfront
        rw [listRotate_short ih (by simp)] at hstep
        cases hstep
        exact ih
      · obtain ⟨l', hrotate, hholds⟩ := ih.rotate hfront
        rw [hrotate] at hstep
        cases hstep
        exact hholds
  | del _ hpos hstep ih =>
    obtain ⟨front, rest, rfl, rfl⟩ := exists_front hpos
    obtain ⟨l', hdel, hholds⟩ := holds_listDel_middle ih
    rw [hdel] at hstep
    cases hstep
    rw [eraseIdx_middle]
    exact hholds
  | clear _ hstep ih =>
    obtain ⟨l', hclear, hholds⟩ := ih.clear
    rw [hclear] at hstep
    cases hstep
    exact hholds

theorem Reached.delMiddle (h : Reached l (front ++ (a, value) :: rest)) :
    ∃ l', l.listDel a = some l' ∧ Reached l' (front ++ rest) := by
  obtain ⟨l', hdel, -⟩ := holds_listDel_middle h.holds
  have hpos : (front ++ (a, value) :: rest)[front.length]? = some (a, value) := by simp
  have hreached := h.del hpos hdel
  rw [eraseIdx_middle] at hreached
  exact ⟨l', hdel, hreached⟩

/-- From the head on, the iterator stands behind the node that may be deleted. -/
theorem Reached.iterateHead (del : ℕ × V → Bool) (h : Reached l (front ++ rest)) {rounds : ℕ}
    (hrounds : rest.length < rounds) :
    ∃ l', l.iterate .head del rounds (first rest) = some (rest, l') ∧
      Reached l' (front ++ rest.filter fun item => !del item) := by
  induction rest generalizing l front rounds with
  | nil =>
    obtain ⟨rounds, rfl⟩ := Nat.exists_eq_succ_of_ne_zero (by omega : rounds ≠ 0)
    exact ⟨l, rfl, h⟩
  | cons item rest ih =>
    obtain ⟨a, value⟩ := item
    obtain ⟨rounds, rfl⟩ := Nat.exists_eq_succ_of_ne_zero (by omega : rounds ≠ 0)
    have hrounds' : rest.length < rounds := Nat.lt_of_succ_lt_succ hrounds
    have hfirst : first ((a, value) :: rest) = some a := rfl
    rw [hfirst, iterate, listNextIn, listNext_middle h.holds, Option.bind_some]
    simp only
    cases hdel : del (a, value) with
    | true =>
      obtain ⟨l₁, hlistDel, hreached⟩ := h.delMiddle
      obtain ⟨l', hl', hreached'⟩ := ih hreached hrounds'
      refine ⟨l', ?_, ?_⟩
      · rw [if_pos rfl, hlistDel, Option.bind_some, hl', Option.map_some]
      · rw [List.filter_cons, hdel]
        exact hreached'
    | false =>
      have hmove : front ++ (a, value) :: rest = (front ++ [(a, value)]) ++ rest := by simp
      rw [hmove] at h
      obtain ⟨l', hl', hreached'⟩ := ih h hrounds'
      refine ⟨l', ?_, ?_⟩
      · rw [if_neg Bool.false_ne_true, Option.bind_some, hl', Option.map_some]
      · rw [List.append_assoc, List.singleton_append] at hreached'
        rw [List.filter_cons, hdel]
        exact hreached'

/-- From the tail on, it stands before it. -/
theorem Reached.iterateTail (del : ℕ × V → Bool) (h : Reached l (front.reverse ++ rest))
    {rounds : ℕ} (hrounds : front.length < rounds) :
    ∃ l', l.iterate .tail del rounds (lastOf none front.reverse) = some (front, l') ∧
      Reached l' ((front.filter fun item => !del item).reverse ++ rest) := by
  induction front generalizing l rest rounds with
  | nil =>
    obtain ⟨rounds, rfl⟩ := Nat.exists_eq_succ_of_ne_zero (by omega : rounds ≠ 0)
    exact ⟨l, rfl, h⟩
  | cons item front ih =>
    obtain ⟨a, value⟩ := item
    obtain ⟨rounds, rfl⟩ := Nat.exists_eq_succ_of_ne_zero (by omega : rounds ≠ 0)
    have hrounds' : front.length < rounds := Nat.lt_of_succ_lt_succ hrounds
    rw [List.reverse_cons, List.append_assoc, List.singleton_append] at h
    rw [List.reverse_cons, lastOf_concat, iterate, listNextIn_tail h.holds, Option.bind_some]
    simp only
    cases hdel : del (a, value) with
    | true =>
      obtain ⟨l₁, hlistDel, hreached⟩ := h.delMiddle
      obtain ⟨l', hl', hreached'⟩ := ih hreached hrounds'
      refine ⟨l', ?_, ?_⟩
      · rw [if_pos rfl, hlistDel, Option.bind_some, hl', Option.map_some]
      · rw [List.filter_cons, hdel]
        exact hreached'
    | false =>
      obtain ⟨l', hl', hreached'⟩ := ih h hrounds'
      refine ⟨l', ?_, ?_⟩
      · rw [if_neg Bool.false_ne_true, Option.bind_some, hl', Option.map_some]
      · rw [List.filter_cons, hdel]
        simpa using hreached'

/-- The copy gets the values one after another, as long as there is memory. -/
theorem Reached.dupNodes {copied : List (ℕ × V)} {copy : LinkedList V} {addresses : List ℕ}
    (h : l.Holds (front ++ rest)) (hcopy : Reached copy copied)
    (hfree : ∀ a ∈ addresses, copy.nodes.find a = none) (hnodup : addresses.Nodup)
    (hlength : rest.length ≤ addresses.length) {rounds : ℕ} (hrounds : rest.length < rounds) :
    ∃ copy', l.dupNodes rounds (first rest) copy addresses = some (some copy') ∧
      Reached copy' (copied ++ addresses.zip (rest.map Prod.snd)) := by
  induction rest generalizing front copied copy addresses rounds with
  | nil =>
    obtain ⟨rounds, rfl⟩ := Nat.exists_eq_succ_of_ne_zero (by omega : rounds ≠ 0)
    refine ⟨copy, by cases addresses <;> rfl, ?_⟩
    simpa using hcopy
  | cons item rest ih =>
    obtain ⟨b, value⟩ := item
    obtain ⟨rounds, rfl⟩ := Nat.exists_eq_succ_of_ne_zero (by omega : rounds ≠ 0)
    cases addresses with
    | nil => cases hlength
    | cons a addresses =>
      rw [List.nodup_cons] at hnodup
      have hfirst : first ((b, value) :: rest) = some b := rfl
      have hmove : front ++ (b, value) :: rest = (front ++ [(b, value)]) ++ rest := by simp
      have ha := hfree a List.mem_cons_self
      obtain ⟨copy₁, hadd, hholds⟩ := holds_listAddNodeTail value hcopy.holds fun hmem =>
        hcopy.holds.find_ne_none hmem ha
      have hfree₁ : ∀ c ∈ addresses, copy₁.nodes.find c = none := by
        intro c hc
        refine hholds.find_eq_none fun hmem => ?_
        rw [List.map_append, List.mem_append] at hmem
        rcases hmem with hmem | hmem
        · exact hcopy.holds.find_ne_none hmem (hfree c (List.mem_cons_of_mem _ hc))
        · obtain rfl : c = a := by simpa using hmem
          exact hnodup.1 hc
      rw [hfirst, LinkedList.dupNodes, listNext_middle h, Option.bind_some]
      rw [hmove] at h
      obtain ⟨copy', hdup, hreached⟩ := ih h (hcopy.addTail ha hadd) hfree₁ hnodup.2
        (Nat.le_of_succ_le_succ hlength) (Nat.lt_of_succ_lt_succ hrounds)
      refine ⟨copy', ?_, ?_⟩
      · simp only
        rw [hadd, Option.bind_some, hdup]
      · rw [List.append_assoc, List.singleton_append] at hreached
        exact hreached

/-- What a list does for a sequence. -/
structure Refines (l : LinkedList V) (items : List (ℕ × V)) : Prop where
  forward : (l.iterate .head (fun _ => false) (l.len + 1) l.head).map Prod.fst = some items
  backward : (l.iterate .tail (fun _ => false) (l.len + 1) l.tail).map Prod.fst =
    some items.reverse
  len : l.len = items.length
  addHead : ∀ a value, l.nodes.find a = none → ∃ l', l.listAddNodeHead a value = some l'
  addTail : ∀ a value, l.nodes.find a = none → ∃ l', l.listAddNodeTail a value = some l'
  insert : ∀ (i pos : ℕ) w a value before, items[i]? = some (pos, w) → l.nodes.find a = none →
    ∃ l', l.listInsertNode pos a value before = some l'
  rotate : ∃ l', l.listRotate = some l'
  del : ∀ (i a : ℕ) value, items[i]? = some (a, value) → ∃ l', l.listDel a = some l'
  clear : ∃ l', l.listClear = some l'
  index : ∀ index : ℤ, -2 ^ 63 ≤ index → index < 2 ^ 63 →
    l.listIndex index = some ((elementAt items index).map Prod.fst)
  find : ∀ (compare : V → V → ℤ) value, l.listFind (some compare) value =
    some ((items.find? fun item => compare item.2 value = 0).map Prod.fst)
  dup : ∀ addresses : List ℕ, addresses.Nodup → items.length ≤ addresses.length →
    ∃ copy, l.listDup addresses = some (some copy) ∧
      Reached copy (addresses.zip (items.map Prod.snd))
  iterateHead : ∀ del, ∃ l', l.iterate .head del (l.len + 1) l.head = some (items, l') ∧
    Reached l' (items.filter fun item => !del item)
  iterateTail : ∀ del, ∃ l', l.iterate .tail del (l.len + 1) l.tail = some (items.reverse, l') ∧
    Reached l' (items.filter fun item => !del item)

/-- A list is the sequence of its nodes. -/
theorem list_refines (h : Reached l items) : Refines l items := by
  have hholds := h.holds
  have hrounds : items.length < l.len + 1 := by
    rw [hholds.len]
    exact Nat.lt_succ_self _
  have hstart : Reached l ([] ++ items) := h
  have hend : Reached l (items.reverse.reverse ++ []) := by
    rw [List.reverse_reverse, List.append_nil]
    exact h
  have hrounds' : items.reverse.length < l.len + 1 := by rwa [List.length_reverse]
  constructor
  case forward =>
    obtain ⟨l', hl', -⟩ := hstart.iterateHead (fun _ => false) hrounds
    rw [hholds.head, hl', Option.map_some]
  case backward =>
    obtain ⟨l', hl', -⟩ := hend.iterateTail (fun _ => false) hrounds'
    rw [List.reverse_reverse] at hl'
    rw [hholds.tail, hl', Option.map_some]
  case len => exact hholds.len
  case addHead =>
    intro a value ha
    obtain ⟨l', hadd, -⟩ := hholds.addHead value ha
    exact ⟨l', hadd⟩
  case addTail =>
    intro a value ha
    obtain ⟨l', hadd, -⟩ := holds_listAddNodeTail value hholds fun hmem =>
      hholds.find_ne_none hmem ha
    exact ⟨l', hadd⟩
  case insert =>
    intro i pos w a value before hpos ha
    obtain ⟨front, rest, rfl, -⟩ := exists_front hpos
    obtain ⟨l', hinsert, -⟩ := hholds.insertNode value ha before
    exact ⟨l', hinsert⟩
  case rotate =>
    obtain rfl | ⟨front, ⟨a, value⟩, rfl⟩ := List.eq_nil_or_concat' items
    · exact ⟨l, listRotate_short hholds (by simp)⟩
    · by_cases hfront : front = []
      · subst hfront
        exact ⟨l, listRotate_short hholds (by simp)⟩
      · obtain ⟨l', hrotate, -⟩ := hholds.rotate hfront
        exact ⟨l', hrotate⟩
  case del =>
    intro i a value hpos
    obtain ⟨front, rest, rfl, -⟩ := exists_front hpos
    obtain ⟨l', hdel, -⟩ := h.delMiddle
    exact ⟨l', hdel⟩
  case clear =>
    obtain ⟨l', hclear, -⟩ := hholds.clear
    exact ⟨l', hclear⟩
  case index => exact fun index => hholds.listIndex
  case find =>
    intro compare value
    rw [listFind, hholds.head]
    exact hstart.holds.findNode compare value hrounds
  case dup =>
    intro addresses hnodup hlength
    rw [listDup, hholds.head]
    exact Reached.create.dupNodes hstart.holds (fun a _ => Dict.find_empty a) hnodup hlength hrounds
  case iterateHead =>
    intro del
    rw [hholds.head]
    exact hstart.iterateHead del hrounds
  case iterateTail =>
    intro del
    obtain ⟨l', hl', hreached⟩ := hend.iterateTail del hrounds'
    rw [List.reverse_reverse] at hl'
    rw [List.filter_reverse, List.reverse_reverse, List.append_nil] at hreached
    exact ⟨l', hholds.tail ▸ hl', hreached⟩

/-- Two elements added, a third put behind them, and the last moved to the front. -/
theorem list_refines_run : ∃ l : LinkedList ℕ, Refines l [(3, 30), (1, 10), (2, 20)] := by
  obtain ⟨l₁, l₂, l₃, l₄, hadd₁, hfree₂, hadd₂, hfree₃, hinsert, hrotate⟩ :
      ∃ l₁ l₂ l₃ l₄ : LinkedList ℕ, (empty : LinkedList ℕ).listAddNodeTail 1 10 = some l₁ ∧
        l₁.nodes.find 2 = none ∧ l₁.listAddNodeTail 2 20 = some l₂ ∧
        l₂.nodes.find 3 = none ∧ l₂.listInsertNode 2 3 30 false = some l₃ ∧
        l₃.listRotate = some l₄ :=
    ⟨_, _, _, _, rfl, rfl, rfl, rfl, rfl, rfl⟩
  have h₁ : Reached l₁ [(1, 10)] := Reached.create.addTail (Dict.find_empty 1) hadd₁
  have h₂ : Reached l₂ [(1, 10), (2, 20)] := h₁.addTail hfree₂ hadd₂
  have hpos : [(1, 10), (2, 20)][1]? = some (2, 20) := rfl
  have h₃ : Reached l₃ [(1, 10), (2, 20), (3, 30)] := h₂.insert false hpos hfree₃ hinsert
  have h₄ : Reached l₄ [(3, 30), (1, 10), (2, 20)] := h₃.rotate hrotate
  exact ⟨l₄, list_refines h₄⟩

end Runs

end LinkedList

end ViabtcExchange
