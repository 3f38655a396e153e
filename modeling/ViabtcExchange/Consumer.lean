import ViabtcExchange.Lib.Mailbox
import Mathlib.Logic.Relation

/-!
# The consumer of a topic (`ut_kafka.c`)

A thread reads a partition and puts what it gets at the head of `list`; the loop of the process takes
it from the tail and calls `callback`. The thread stops reading while there are `limit` messages in
`list`, and looks at its length without the lock.

**Theorem (`delivered`).** Whatever the two do in whatever order, the calls are for the messages of
the partition from `offset` on, each once and in their order; no more than `limit` are waiting; and
none waits for ever, for with nothing else published all of them are delivered.
-/

namespace ViabtcExchange

/-- Where `thread_routine` is: at the head of its loop, in `rd_kafka_consume`, or behind it with a
message. -/
inductive Fetch (μ : Type)
  | checking
  | consuming
  | holding (message : μ) (offset : ℕ)

/-- `log` is the partition, and `offset` where it is read next. -/
structure Consumer (μ : Type) where
  limit : ℕ
  log : List μ
  offset : ℕ
  thread : Fetch μ
  list : Mailbox (μ × ℕ)

namespace Consumer

variable {μ : Type} (capacity : ℕ)

/-- `kafka_consumer_create`. -/
def create (limit : ℕ) (log : List μ) (offset : ℕ) : Consumer μ :=
  ⟨limit, log, offset, .checking, .empty⟩

/-- `publish`: someone else writes to the partition. `nothing`: a timeout, an error or the end of the
partition. `turn`: `on_can_read`. -/
inductive Step : Consumer μ → Consumer μ → Prop
  | publish {c : Consumer μ} {message : μ} : Step c { c with log := c.log ++ [message] }
  | check {c : Consumer μ} : c.thread = .checking →
      Step c { c with thread := if c.list.queue.length ≥ c.limit then .checking else .consuming }
  | nothing {c : Consumer μ} : c.thread = .consuming → Step c { c with thread := .checking }
  | consume {c : Consumer μ} {message : μ} : c.thread = .consuming → c.log[c.offset]? = some message →
      Step c { c with offset := c.offset + 1, thread := .holding message c.offset }
  | post {c : Consumer μ} {message : μ} {offset : ℕ} : c.thread = .holding message offset →
      Step c { c with list := c.list.post capacity (message, offset), thread := .checking }
  | turn {c : Consumer μ} {list : Mailbox (μ × ℕ)} : c.list.turn = some list →
      Step c { c with list := list }

/-- The message the thread has. -/
def held (c : Consumer μ) : List (μ × ℕ) :=
  match c.thread with
  | .holding message offset => [(message, offset)]
  | _ => []

/-- Room for one is kept while the thread reads. -/
def reserved (c : Consumer μ) : ℕ :=
  match c.thread with
  | .checking => 0
  | _ => 1

/-- What is kept. `start` is the offset the consumer was created with. -/
structure Kept (start : ℕ) (c : Consumer μ) : Prop where
  begun : start ≤ c.offset
  bound : c.offset ≤ c.log.length
  all : c.list.all ++ c.held = (c.log.zipIdx.take c.offset).drop start
  room : c.list.queue.length + c.reserved ≤ c.limit
  awake : c.list.Awake

variable {capacity} {start : ℕ} {c c' : Consumer μ}

theorem kept_create {limit : ℕ} {log : List μ} (hstart : start ≤ log.length) :
    Kept start (create limit log start) := by
  refine ⟨le_rfl, hstart, ?_, Nat.zero_le _, Mailbox.awake_empty⟩
  refine (List.drop_eq_nil_iff.mpr ?_).symm
  exact List.length_take_le _ _

theorem Kept.step (hcapacity : 0 < capacity) (h : Kept start c) (hstep : Step capacity c c') :
    Kept start c' := by
  cases hstep with
  | @publish message =>
    refine ⟨h.begun, ?_, ?_, h.room, h.awake⟩
    · exact h.bound.trans (by simp)
    · refine h.all.trans (congrArg (List.drop start) ?_)
      show _ = ((c.log ++ [message]).zipIdx).take c.offset
      rw [List.zipIdx_append, List.take_append_of_le_length]
      rw [List.length_zipIdx]
      exact h.bound
  | check hthread =>
    have hall := h.all
    unfold held at hall
    rw [hthread] at hall
    refine ⟨h.begun, h.bound, ?_, ?_, h.awake⟩
    · unfold held
      split_ifs <;> exact hall
    · have hroom := h.room
      unfold reserved at hroom ⊢
      rw [hthread] at hroom
      dsimp only at hroom ⊢
      split_ifs with hfull
      · exact hroom
      · exact not_le.mp hfull
  | nothing hthread =>
    have hall := h.all
    have hroom := h.room
    unfold held at hall
    rw [hthread] at hall
    exact ⟨h.begun, h.bound, hall, by unfold reserved; dsimp only; omega, h.awake⟩
  | @consume message hthread hmessage =>
    have hall := h.all
    have hroom := h.room
    unfold held at hall
    unfold reserved at hroom
    rw [hthread] at hall hroom
    obtain ⟨hlt, hmessage⟩ := List.getElem?_eq_some_iff.mp hmessage
    refine ⟨h.begun.trans (Nat.le_succ _), hlt, ?_, hroom, h.awake⟩
    show c.list.all ++ [(message, c.offset)] = (c.log.zipIdx.take (c.offset + 1)).drop start
    rw [List.append_nil] at hall
    rw [List.take_succ_eq_append_getElem (by rw [List.length_zipIdx]; exact hlt),
      List.drop_append_of_le_length, ← hall, List.getElem_zipIdx, hmessage, Nat.zero_add]
    rw [List.length_take, List.length_zipIdx]
    exact le_min h.begun (h.begun.trans h.bound)
  | @post message offset hthread =>
    have hall := h.all
    have hroom := h.room
    unfold held at hall
    unfold reserved at hroom
    rw [hthread] at hall hroom
    refine ⟨h.begun, h.bound, ?_, ?_, Mailbox.awake_post hcapacity _⟩
    · show (c.list.post capacity (message, offset)).all ++ [] = _
      rw [List.append_nil, Mailbox.all_post, ← hall]
    · show (c.list.post capacity (message, offset)).queue.length + 0 ≤ c.limit
      rw [Mailbox.queue_post, List.length_append, List.length_singleton]
      exact hroom
  | turn hturn =>
    refine ⟨h.begun, h.bound, ?_, ?_, Mailbox.awake_turn hturn⟩
    · show _ ++ c.held = _
      rw [Mailbox.all_turn hturn]
      exact h.all
    · exact (Nat.add_le_add_right (Mailbox.length_turn hturn) _).trans h.room

theorem Kept.run (hcapacity : 0 < capacity) (h : Kept start c)
    (hrun : Relation.ReflTransGen (Step capacity) c c') : Kept start c' := by
  induction hrun with
  | refl => exact h
  | tail _ hstep ih => exact ih.step hcapacity hstep

/-! ## Everything is delivered -/

/-- What is left to do, if nothing else is published. -/
def pending (c : Consumer μ) : ℕ :=
  20 * (c.log.length - c.offset) + c.list.effort +
    match c.thread with
    | .checking => 2
    | .consuming => 1
    | .holding .. => 10

/-- If nothing is waiting, what has not been delivered has not been read. -/
theorem Kept.behind (h : Kept start c) (hmore : c.list.taken ≠ c.log.zipIdx.drop start)
    (hqueue : c.list.queue = []) (hheld : c.held = []) : c.offset < c.log.length := by
  by_contra hend
  refine hmore ?_
  have hall := h.all
  unfold Mailbox.all at hall
  rw [hheld, hqueue, List.append_nil, List.append_nil,
    List.take_of_length_le (by rw [List.length_zipIdx]; exact not_lt.mp hend)] at hall
  exact hall

/-- As long as there is a message that has not been delivered, one of the two can go on. -/
theorem Kept.progress (hlimit : 0 < c.limit) (h : Kept start c)
    (hmore : c.list.taken ≠ c.log.zipIdx.drop start) :
    ∃ c', Step capacity c c' ∧ c'.log = c.log ∧ c'.limit = c.limit ∧ c'.pending < c.pending := by
  cases hturn : c.list.turn with
  | some list =>
    refine ⟨_, .turn hturn, rfl, rfl, ?_⟩
    have := Mailbox.effort_turn hturn
    unfold pending
    dsimp only
    omega
  | none =>
    have hqueue := h.awake.queue_eq_nil hturn
    have hlength : c.list.queue.length = 0 := by rw [hqueue, List.length_nil]
    cases hthread : c.thread with
    | checking =>
      have hlt := h.behind hmore hqueue (by unfold held; rw [hthread])
      refine ⟨_, .check hthread, rfl, rfl, ?_⟩
      unfold pending
      dsimp only
      rw [hthread, if_neg (by omega)]
      dsimp only
      omega
    | consuming =>
      have hlt := h.behind hmore hqueue (by unfold held; rw [hthread])
      refine ⟨_, .consume hthread (List.getElem?_eq_getElem hlt), rfl, rfl, ?_⟩
      unfold pending
      dsimp only
      rw [hthread]
      dsimp only
      omega
    | holding message offset =>
      refine ⟨_, .post hthread, rfl, rfl, ?_⟩
      have : (c.list.post capacity (message, offset)).effort ≤ c.list.effort + 5 :=
        Mailbox.effort_post h.awake _
      unfold pending
      dsimp only
      rw [hthread]
      dsimp only
      omega

theorem Kept.catchUp (hcapacity : 0 < capacity) (hlimit : 0 < c.limit) (h : Kept start c) :
    ∃ c', Relation.ReflTransGen (Step capacity) c c' ∧ c'.log = c.log ∧
      c'.list.taken = c'.log.zipIdx.drop start := by
  obtain ⟨c', hrun, ⟨hlog, -, -⟩, htaken⟩ := exists_done_of_progress (Step capacity)
    (fun c' => c'.log = c.log ∧ 0 < c'.limit ∧ Kept start c')
    (fun c' => c'.list.taken = c'.log.zipIdx.drop start) pending
    (fun c₁ hkept hmore => by
      obtain ⟨c', hstep, hlog, hlimit', hless⟩ := hkept.2.2.progress hkept.2.1 hmore
      exact ⟨c', hstep, ⟨hlog.trans hkept.1, hlimit'.symm ▸ hkept.2.1,
        hkept.2.2.step hcapacity hstep⟩, hless⟩) ⟨rfl, hlimit, h⟩
  exact ⟨c', hrun, hlog, htaken⟩

theorem limit_run {limit : ℕ} {log : List μ}
    (hrun : Relation.ReflTransGen (Step capacity) (create limit log start) c) : c.limit = limit := by
  induction hrun with
  | refl => rfl
  | tail _ hstep ih => cases hstep <;> exact ih

/-- **A consumer delivers its partition.** At any point of any run, `callback` has been called for
messages of the partition from `start` on, each once and in their order, with their offsets; at most
`limit` are waiting; and from there on, with nothing else published, it can come to be called for all
that are in the partition. -/
theorem delivered (hcapacity : 0 < capacity) {limit : ℕ} (hlimit : 0 < limit) {log : List μ}
    (hstart : start ≤ log.length)
    (hrun : Relation.ReflTransGen (Step capacity) (create limit log start) c) :
    c.list.taken <+: c.log.zipIdx.drop start ∧ c.list.queue.length ≤ limit ∧
      ∃ c', Relation.ReflTransGen (Step capacity) c c' ∧ c'.log = c.log ∧
        c'.list.taken = c'.log.zipIdx.drop start := by
  have hkept := (kept_create hstart).run hcapacity hrun
  have hlimit' := limit_run hrun
  refine ⟨?_, ?_, hkept.catchUp hcapacity (hlimit'.symm ▸ hlimit)⟩
  · have htaken : c.list.taken <+: c.list.all ++ c.held :=
      (List.prefix_append _ _).trans (List.prefix_append _ _)
    rw [hkept.all, List.drop_take] at htaken
    exact htaken.trans (List.take_prefix _ _)
  · rw [← hlimit']
    exact (Nat.le_add_right _ _).trans hkept.room

/-- A message that is published after the consumer was created. -/
theorem delivered_published :
    ∃ c : Consumer String, Relation.ReflTransGen (Step 65536) (create 1000 ["a"] 1) c ∧
      c.log = ["a", "b"] ∧ c.list.taken = [("b", 1)] := by
  have hrun : Relation.ReflTransGen (Step 65536) (create 1000 ["a"] 1)
      { create 1000 ["a"] 1 with log := ["a", "b"] } := .single .publish
  obtain ⟨-, -, c, hrun', hlog, htaken⟩ := delivered (by decide) (by decide) (by decide) hrun
  refine ⟨c, hrun.trans hrun', hlog, ?_⟩
  rw [htaken, hlog]
  rfl

end Consumer

end ViabtcExchange
