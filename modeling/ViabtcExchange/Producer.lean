import Mathlib.Logic.Function.Basic
import ViabtcExchange.Lib.Links

/-!
# Messages to Kafka (`me_message.c`)

`push_message` hands a message to librdkafka at once when nothing is pending on its topic, and adds
it to the topic's list otherwise, or when the producer's queue is full. `on_timer` drains the lists
with `produce_list`, which deletes nodes while it iterates and stops at a full queue.

Main result: `Producer.accepted_then_pending`. What has been accepted on a topic, followed by what
is pending, is what was pushed.
-/

namespace ViabtcExchange

inductive KafkaTopic
  | balances
  | orders
  | deals
  deriving DecidableEq, Repr

/-- How `rd_kafka_produce` ends, with `rd_kafka_last_error`. -/
inductive Produced
  | success
  | queueFull
  | failed
  deriving DecidableEq, Repr

/-- `malloc`, as `list_create_node` calls it: an address that no node has, and any such address. -/
structure Malloc where
  node : ℕ → Dict ℕ (ListNode String) → ℕ
  fresh : ∀ n (nodes : Dict ℕ (ListNode String)), nodes.find (node n nodes) = none

/-- The lists of pending messages, and what `rd_kafka_produce` has accepted. -/
structure Producer where
  lists : KafkaTopic → LinkedList String
  accepted : KafkaTopic → List String
  calls : ℕ
  allocs : ℕ

namespace Producer

def start : Producer := ⟨fun _ => .empty, fun _ => [], 0, 0⟩

/-- `rd_kafka_produce`, which ends as the `n`-th call does. -/
def rdKafkaProduce (produce : ℕ → Produced) (p : Producer) (topic : KafkaTopic) (message : String) :
    Producer × Produced :=
  match produce p.calls with
  | .success =>
    ({ p with
        accepted := Function.update p.accepted topic (p.accepted topic ++ [message])
        calls := p.calls + 1 }, .success)
  | ret => ({ p with calls := p.calls + 1 }, ret)

def setList (p : Producer) (topic : KafkaTopic) (list : LinkedList String) : Producer :=
  { p with lists := Function.update p.lists topic list }

/-- `list_add_node_tail`, with the node from `malloc`. -/
def addNodeTail (malloc : Malloc) (p : Producer) (topic : KafkaTopic) (message : String) :
    Option Producer :=
  ((p.lists topic).listAddNodeTail (malloc.node p.allocs (p.lists topic).nodes) message).map
    fun list => { p.setList topic list with allocs := p.allocs + 1 }

def pushMessage (produce : ℕ → Produced) (malloc : Malloc) (p : Producer) (message : String)
    (topic : KafkaTopic) : Option (Producer × ℤ) :=
  if (p.lists topic).len ≠ 0 then
    (p.addNodeTail malloc topic message).map (·, 0)
  else
    match p.rdKafkaProduce produce topic message with
    | (p, .success) => some (p, 0)
    | (p, .queueFull) => (p.addNodeTail malloc topic message).map (·, 0)
    | (p, .failed) => some (p, -1)

/-- The loop of `produce_list`, from where its iterator is. -/
def produceLoop (produce : ℕ → Produced) (topic : KafkaTopic) :
    ℕ → Option ℕ → Producer → Option Producer
  | 0, _, _ => none
  | rounds + 1, iter, p =>
    match (p.lists topic).listNext iter with
    | none => none
    | some (none, _) => some p
    | some (some (node, value), next) =>
      match p.rdKafkaProduce produce topic value with
      | (p, .queueFull) => some p
      | (p, _) =>
        ((p.lists topic).listDel node).bind fun list =>
          produceLoop produce topic rounds next (p.setList topic list)

/-- Nothing, where the loop reads a freed node or takes more rounds than the list has nodes. -/
def produceList (produce : ℕ → Produced) (p : Producer) (topic : KafkaTopic) : Option Producer :=
  produceLoop produce topic ((p.lists topic).len + 1) (p.lists topic).head p

/-- What `on_timer` does about one list. -/
def drain (produce : ℕ → Produced) (p : Producer) (topic : KafkaTopic) : Option Producer :=
  if (p.lists topic).len ≠ 0 then p.produceList produce topic else some p

def onTimer (produce : ℕ → Produced) (p : Producer) : Option Producer :=
  (p.drain produce .balances).bind fun p =>
    (p.drain produce .orders).bind fun p => p.drain produce .deals

inductive Event
  | push (topic : KafkaTopic) (message : String)
  | timer

def handle (produce : ℕ → Produced) (malloc : Malloc) (p : Producer) : Event → Option Producer
  | .push topic message => (p.pushMessage produce malloc message topic).map Prod.fst
  | .timer => p.onTimer produce

def run (produce : ℕ → Produced) (malloc : Malloc) : Producer → List Event → Option Producer
  | p, [] => some p
  | p, event :: events => (p.handle produce malloc event).bind fun p => run produce malloc p events

/-! ## What is pending -/

/-- What has been pushed on a topic. -/
def pushed (topic : KafkaTopic) : List Event → List String
  | [] => []
  | .push topic' message :: events =>
    if topic' = topic then message :: pushed topic events else pushed topic events
  | .timer :: events => pushed topic events

/-- The messages are in order: those accepted, then those in the list. -/
def Orderly (p : Producer) (messages : KafkaTopic → List String) : Prop :=
  ∀ topic, ∃ items, (p.lists topic).Holds items ∧
    p.accepted topic ++ items.map Prod.snd = messages topic

theorem orderly_start : start.Orderly fun _ => [] := fun _ => ⟨[], LinkedList.holds_empty, rfl⟩

section Steps

variable {produce : ℕ → Produced} {malloc : Malloc} {p : Producer} {topic : KafkaTopic}
  {messages : KafkaTopic → List String} {message : String}

theorem rdKafkaProduce_success (h : produce p.calls = .success) (message : String) :
    p.rdKafkaProduce produce topic message =
      ({ p with
          accepted := Function.update p.accepted topic (p.accepted topic ++ [message])
          calls := p.calls + 1 }, .success) := by
  unfold rdKafkaProduce
  rw [h]

theorem rdKafkaProduce_queueFull (h : produce p.calls = .queueFull) (message : String) :
    p.rdKafkaProduce produce topic message = ({ p with calls := p.calls + 1 }, .queueFull) := by
  unfold rdKafkaProduce
  rw [h]

/-- It is enough to look at the topic that changes. -/
theorem Orderly.update {p' : Producer} {items : List (ℕ × String)} {after : List String}
    (h : p.Orderly messages) (hlists : ∀ t, t ≠ topic → p'.lists t = p.lists t)
    (haccepted : ∀ t, t ≠ topic → p'.accepted t = p.accepted t)
    (hitems : (p'.lists topic).Holds items)
    (hafter : p'.accepted topic ++ items.map Prod.snd = after) :
    p'.Orderly (Function.update messages topic after) := by
  intro t
  by_cases ht : t = topic
  · subst ht
    rw [Function.update_self]
    exact ⟨items, hitems, hafter⟩
  · rw [Function.update_of_ne ht, hlists t ht, haccepted t ht]
    exact h t

variable (malloc topic message) in
theorem Orderly.addNodeTail (h : p.Orderly messages) :
    ∃ p', p.addNodeTail malloc topic message = some p' ∧
      p'.Orderly (Function.update messages topic (messages topic ++ [message])) := by
  obtain ⟨items, hitems, heq⟩ := h topic
  have hfree : malloc.node p.allocs (p.lists topic).nodes ∉ items.map Prod.fst := fun hmem =>
    hitems.find_ne_none hmem (malloc.fresh _ _)
  obtain ⟨list, hadd, hlist⟩ := LinkedList.holds_listAddNodeTail message hitems hfree
  refine ⟨{ p.setList topic list with allocs := p.allocs + 1 }, ?_, ?_⟩
  · rw [Producer.addNodeTail, hadd, Option.map_some]
  · have hself : (Function.update p.lists topic list) topic = list := Function.update_self ..
    refine h.update (fun t ht => Function.update_of_ne ht ..) (fun _ _ => rfl)
      (hself.symm ▸ hlist) ?_
    show p.accepted topic ++ _ = _
    rw [List.map_append, ← List.append_assoc, heq]
    rfl

variable (malloc topic message) in
/-- **A push adds to what has been pushed.** -/
theorem Orderly.pushMessage (hproduce : ∀ n, produce n ≠ .failed) (h : p.Orderly messages) :
    ∃ p', p.pushMessage produce malloc message topic = some (p', 0) ∧
      p'.Orderly (Function.update messages topic (messages topic ++ [message])) := by
  unfold Producer.pushMessage
  by_cases hlen : (p.lists topic).len ≠ 0
  · obtain ⟨p', hadd, hp'⟩ := h.addNodeTail malloc topic message
    exact ⟨p', by rw [if_pos hlen, hadd, Option.map_some], hp'⟩
  · rw [if_neg hlen]
    cases hret : produce p.calls with
    | success =>
      rw [rdKafkaProduce_success hret]
      obtain ⟨items, hitems, heq⟩ := h topic
      obtain rfl : items = [] := by
        apply List.eq_nil_of_length_eq_zero
        rw [← hitems.len]
        exact not_not.mp hlen
      refine ⟨_, rfl, h.update (fun _ _ => rfl) (fun t ht => Function.update_of_ne ht ..) hitems ?_⟩
      rw [List.map_nil, List.append_nil] at heq ⊢
      rw [← heq]
      exact Function.update_self ..
    | queueFull =>
      rw [rdKafkaProduce_queueFull hret]
      have hcalls : { p with calls := p.calls + 1 }.Orderly messages := h
      obtain ⟨p', hadd, hp'⟩ := hcalls.addNodeTail malloc topic message
      refine ⟨p', ?_, hp'⟩
      dsimp only
      rw [hadd, Option.map_some]
    | failed => exact absurd hret (hproduce _)

/-- The iterator is at the head in each round: what it passes goes. -/
theorem Orderly.produceLoop (hproduce : ∀ n, produce n ≠ .failed) (h : p.Orderly messages)
    {items : List (ℕ × String)} (hitems : (p.lists topic).Holds items)
    (heq : p.accepted topic ++ items.map Prod.snd = messages topic) :
    ∃ p', produceLoop produce topic (items.length + 1) (LinkedList.first items) p = some p' ∧
      p'.Orderly messages := by
  induction items generalizing p with
  | nil => exact ⟨p, rfl, h⟩
  | cons item rest ih =>
    obtain ⟨node, value⟩ := item
    have hnext : LinkedList.nextOf ((node, value) :: rest) node = LinkedList.first rest :=
      if_pos rfl
    have hread : (p.lists topic).listNext (some node) =
        some (some (node, value), LinkedList.first rest) := by
      rw [LinkedList.listNext_of_mem hitems (List.mem_cons_self ..), hnext]
    rw [List.length_cons, Producer.produceLoop]
    show ∃ p', (match (p.lists topic).listNext (some node) with
      | none => none
      | some (none, _) => some p
      | some (some (node, value), next) => _) = some p' ∧ _
    rw [hread]
    dsimp only
    cases hret : produce p.calls with
    | success =>
      rw [rdKafkaProduce_success hret]
      obtain ⟨list, hdel, hlist⟩ := LinkedList.holds_listDel hitems (List.mem_cons_self ..)
      rw [LinkedList.without_cons_self (List.nodup_cons.mp hitems.nodup).1] at hlist
      dsimp only
      rw [hdel, Option.bind_some]
      have hself : Function.update messages topic (messages topic) = messages :=
        Function.update_eq_self ..
      have hlist' : (Function.update p.lists topic list topic).Holds rest := by
        rw [Function.update_self]
        exact hlist
      have hafter : Function.update p.accepted topic (p.accepted topic ++ [value]) topic ++
          rest.map Prod.snd = messages topic := by
        rw [Function.update_self, ← heq, List.append_assoc]
        rfl
      refine ih ?_ hlist' hafter
      rw [← hself]
      exact h.update (fun t ht => Function.update_of_ne ht ..)
        (fun t ht => Function.update_of_ne ht ..) hlist' hafter
    | queueFull =>
      rw [rdKafkaProduce_queueFull hret]
      exact ⟨_, rfl, h⟩
    | failed => exact absurd hret (hproduce _)

theorem Orderly.drain (hproduce : ∀ n, produce n ≠ .failed) (h : p.Orderly messages)
    (topic : KafkaTopic) : ∃ p', p.drain produce topic = some p' ∧ p'.Orderly messages := by
  unfold Producer.drain
  split_ifs
  · obtain ⟨items, hitems, heq⟩ := h topic
    rw [produceList, hitems.len, hitems.head]
    exact h.produceLoop hproduce hitems heq
  · exact ⟨p, rfl, h⟩

theorem Orderly.onTimer (hproduce : ∀ n, produce n ≠ .failed) (h : p.Orderly messages) :
    ∃ p', p.onTimer produce = some p' ∧ p'.Orderly messages := by
  unfold Producer.onTimer
  obtain ⟨p₁, hp₁, h₁⟩ := h.drain hproduce .balances
  obtain ⟨p₂, hp₂, h₂⟩ := h₁.drain hproduce .orders
  rw [hp₁, Option.bind_some, hp₂, Option.bind_some]
  exact h₂.drain hproduce .deals

theorem Orderly.run (hproduce : ∀ n, produce n ≠ .failed) (h : p.Orderly messages)
    (events : List Event) : ∃ p', p.run produce malloc events = some p' ∧
      p'.Orderly fun topic => messages topic ++ pushed topic events := by
  induction events generalizing p messages with
  | nil =>
    refine ⟨p, rfl, ?_⟩
    simpa [pushed] using h
  | cons event rest ih =>
    cases event with
    | push topic message =>
      obtain ⟨p₁, hp₁, h₁⟩ := h.pushMessage malloc topic message hproduce
      obtain ⟨p', hp', h'⟩ := ih h₁
      refine ⟨p', ?_, ?_⟩
      · rw [Producer.run, handle, hp₁]
        exact hp'
      · intro t
        obtain ⟨items, hitems, heq⟩ := h' t
        refine ⟨items, hitems, heq.trans ?_⟩
        dsimp only
        rw [pushed]
        by_cases ht : topic = t
        · subst ht
          rw [Function.update_self, if_pos rfl, List.append_assoc]
          rfl
        · rw [Function.update_of_ne (Ne.symm ht), if_neg ht]
    | timer =>
      obtain ⟨p₁, hp₁, h₁⟩ := h.onTimer hproduce
      obtain ⟨p', hp', h'⟩ := ih h₁
      refine ⟨p', ?_, h'⟩
      rw [Producer.run, handle, hp₁]
      exact hp'

end Steps

/-- **Messages leave in order.** Whatever is accepted and whatever finds the queue full, after any
events the messages accepted on a topic, then those pending, are those pushed. -/
theorem accepted_then_pending {produce : ℕ → Produced} (hproduce : ∀ n, produce n ≠ .failed)
    (malloc : Malloc) (events : List Event) :
    ∃ p, start.run produce malloc events = some p ∧
      ∀ topic, ∃ items, (p.lists topic).Holds items ∧
        p.accepted topic ++ items.map Prod.snd = pushed topic events :=
  orderly_start.run hproduce events

/-- An address above all others. -/
def exampleMalloc : Malloc where
  node _ nodes := nodes.keys.sup id + 1
  fresh n nodes := by
    refine Dict.find_eq_none.mpr fun hmem => ?_
    have hle := Finset.le_sup (f := id) (Finmap.mem_keys.mpr hmem)
    exact absurd hle (Nat.not_succ_le_self _)

/-- A full queue at first: the second deal waits behind the first. -/
theorem accepted_then_pending_queue_full :
    (∀ n : ℕ, (if n < 2 then Produced.queueFull else .success) ≠ .failed) ∧
      ∃ p, start.run (fun n => if n < 2 then .queueFull else .success) exampleMalloc
          [.push .deals "a", .push .deals "b", .timer, .push .orders "c", .push .deals "d",
            .timer] = some p ∧
        ∀ topic, ∃ items, (p.lists topic).Holds items ∧
          p.accepted topic ++ items.map Prod.snd =
            pushed topic [.push .deals "a", .push .deals "b", .timer, .push .orders "c",
              .push .deals "d", .timer] := by
  have hproduce : ∀ n : ℕ, (if n < 2 then Produced.queueFull else .success) ≠ .failed := by
    intro n
    split_ifs <;> decide
  exact ⟨hproduce, accepted_then_pending hproduce exampleMalloc _⟩

end Producer

end ViabtcExchange
