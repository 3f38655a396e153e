import ViabtcExchange.Agreement
import ViabtcExchange.Reserves
import ViabtcExchange.Trails

/-!
# The event stream of an order (`push_order_message`)

An order that comes to rest is announced with PUT, then with UPDATE after every fill, and with
FINISH at its end; an order that never rests only with FINISH.

`order_finish` may return early, after FINISH was pushed. The order is then off the book, still
found, and a cancel pushes FINISH again. `Engine.CancelsBooked` excludes such cancels.

**Theorem (`Engine.event_stream`).** In a run without them, the messages about an order are a prefix
of FINISH or of PUT, UPDATE, …, FINISH, and an order that is not on the book has had its FINISH.
-/

namespace ViabtcExchange

/-- A prefix of FINISH, or of PUT, any number of UPDATE, and FINISH. -/
def StreamOk (kinds : List OrderEvent) : Prop :=
  kinds <+: [.finish] ∨ ∃ n, kinds <+: .put :: (List.replicate n .update ++ [.finish])

section Streams

variable {evs : List (OrderEvent × Order ℚ)} {left left' : ℚ} {o : Order ℚ}

/-- The `left` each message carries. -/
def leftsOf (evs : List (OrderEvent × Order ℚ)) : List ℚ := evs.map fun ev => ev.2.left

/-- The stream of an order on the book. -/
structure Opened (evs : List (OrderEvent × Order ℚ)) (left : ℚ) : Prop where
  kinds : ∃ n, evs.map Prod.fst = .put :: List.replicate n .update
  falls : (leftsOf evs).Pairwise (· ≥ ·)
  least : ∀ l ∈ leftsOf evs, left ≤ l

/-- The stream of an order that has left the book. -/
structure Ended (evs : List (OrderEvent × Order ℚ)) : Prop where
  kinds : evs.map Prod.fst = [.finish] ∨
    ∃ n, evs.map Prod.fst = .put :: (List.replicate n .update ++ [.finish])
  falls : (leftsOf evs).Pairwise (· ≥ ·)

theorem Opened.streamOk (h : Opened evs left) : StreamOk (evs.map Prod.fst) := by
  obtain ⟨n, hn⟩ := h.kinds
  rw [hn]
  exact Or.inr ⟨n, List.cons_prefix_cons.mpr ⟨rfl, List.prefix_append _ _⟩⟩

theorem Ended.streamOk (h : Ended evs) : StreamOk (evs.map Prod.fst) := by
  rcases h.kinds with hk | ⟨n, hk⟩ <;> rw [hk]
  · exact Or.inl (List.prefix_refl _)
  · exact Or.inr ⟨n, List.prefix_refl _⟩

/-- A closed stream ends with FINISH. -/
theorem Ended.finish (h : Ended evs) : .finish ∈ evs.map Prod.fst := by
  rcases h.kinds with hk | ⟨n, hk⟩ <;> rw [hk] <;> simp

/-- The `left` of one message more. -/
theorem falls_append (h : (leftsOf evs).Pairwise (· ≥ ·)) (hleast : ∀ l ∈ leftsOf evs, o.left ≤ l)
    (ev : OrderEvent) : (leftsOf (evs ++ [(ev, o)])).Pairwise (· ≥ ·) := by
  unfold leftsOf
  rw [List.map_append, List.pairwise_append]
  refine ⟨h, List.pairwise_singleton _ _, fun l hl l' hl' => ?_⟩
  rw [List.map_singleton, List.mem_singleton] at hl'
  rw [hl']
  exact hleast l hl

theorem Opened.update (h : Opened evs left) (hle : o.left ≤ left) :
    Opened (evs ++ [(.update, o)]) o.left := by
  have hleast : ∀ l ∈ leftsOf evs, o.left ≤ l := fun l hl => hle.trans (h.least l hl)
  obtain ⟨n, hn⟩ := h.kinds
  refine ⟨⟨n + 1, ?_⟩, falls_append h.falls hleast _, fun l hl => ?_⟩
  · rw [List.map_append, hn, List.replicate_succ', List.cons_append]
    rfl
  · unfold leftsOf at hl
    rw [List.map_append, List.mem_append] at hl
    rcases hl with hl | hl
    · exact hleast l hl
    · exact (List.mem_singleton.mp hl).ge

theorem Opened.close (h : Opened evs left) (hle : o.left ≤ left) :
    Ended (evs ++ [(.finish, o)]) := by
  have hleast : ∀ l ∈ leftsOf evs, o.left ≤ l := fun l hl => hle.trans (h.least l hl)
  obtain ⟨n, hn⟩ := h.kinds
  refine ⟨Or.inr ⟨n, ?_⟩, falls_append h.falls hleast _⟩
  rw [List.map_append, hn, List.cons_append]
  rfl

/-- What is left of a maker goes down. -/
theorem fillMaker_left_le {round : ℚ → ℚ} (hr : RoundsDown round) {x : Matching ℚ} {m : Market ℚ}
    {taker maker : Order ℚ} {t : Terms ℚ} (hq : Quoted round x m taker maker t) :
    (x.fillMaker (ratMpd round) m maker t).left ≤ maker.left :=
  (hr.le _ (sub_nonneg.mpr hq.amount_le)).trans (sub_le_self _ hq.amount_pos.le)

/-- A taker has no messages, and the stream of an order tells whether it is on the book. -/
theorem trailRules_events {round : ℚ → ℚ} (hr : RoundsDown round) :
    TrailRules round (fun _ _ _ => True) False (fun _ v _ => v.events = [])
      (fun _ v o => Opened v.events o.left) (fun _ v _ => Ended v.events) where
  steady _ := trivial
  new _ _ := rfl
  taker _ _ h := h
  update hq _ h _ := h.update (fillMaker_left_le hr hq.quoted)
  finish hq _ h _ := h.close (fillMaker_left_le hr hq.quoted)
  put {conf v o freeze} h := by
    unfold Trail.event
    rw [h]
    exact ⟨⟨0, rfl⟩, List.pairwise_singleton _ _, fun l hl => (List.mem_singleton.mp hl).ge⟩
  filled {conf v o} h := by
    unfold Trail.event
    rw [h]
    exact ⟨Or.inl rfl, List.pairwise_singleton _ _⟩
  cancel h := h.close le_rfl
  again h := h.elim

end Streams

namespace Engine

variable {e₀ e : Engine ℚ} {dictAsset : Dict String AssetType} {confs : List (MarketConf ℚ)}
  {ops : List (Op ℚ)}

/-- The condition on a request: an order to cancel that is found is on the book. -/
def CancelsBooked {D : Type} (e : Engine D) : Op D → Prop
  | .cancelOrder args => ∀ m, e.dictMarket.find args.market = some m → args.orderId ∈ m.orders →
    args.orderId ∈ m.book (m.order args.orderId).side
  | _ => True

theorem CancelsBooked.ready {round : ℚ → ℚ} {op : Op ℚ} (h : e.CancelsBooked op) :
    e.TrailReady round (fun _ _ _ => True) False op := by
  cases op with
  | limitOrder args => exact fun _ _ _ _ => trivial
  | marketOrder args => exact fun _ _ _ _ => trivial
  | cancelOrder args => exact fun m hm hi => Or.inr ⟨_, h m hm hi⟩
  | updateBalance args padding now => trivial
  | expire now => trivial

/-- The messages about every order id, after any run that cancels no order off the book. -/
theorem event_stream (hinit : Engine.init decimal128 dictAsset confs = some e₀)
    (hrun : e₀.run decimal128 true ops = some e) (hcancel : Along decimal128 true CancelsBooked e₀ ops)
    (i : ℕ) :
    let evs := orderEvents i e.statics.messages
    StreamOk (evs.map Prod.fst) ∧ (leftsOf evs).Pairwise (· ≥ ·) ∧
      (0 < i → i ≤ e.statics.orderIdStart →
        (∀ name m, e.dictMarket.find name = some m → ∀ side, i ∉ m.book side) →
        .finish ∈ evs.map Prod.fst) := by
  intro evs
  have hr := roundsDown_roundDown
  obtain ⟨hsane, h⟩ := trailed_run hr (trailRules_events hr) hinit
    (fun pre op post e₁ hops hpre => (hcancel pre op post e₁ hops hpre).ready) hrun
  rcases h.cases hsane i with ⟨hnew, hstart⟩ | ⟨name, m, side, hm, hi, -, hopen⟩ |
    ⟨-, -, -, -, -, hended⟩
  · have hnil : evs = [] := congrArg Trail.events hstart
    rw [hnil]
    exact ⟨Or.inl List.nil_prefix, List.Pairwise.nil, fun hi0 hi _ => by omega⟩
  · exact ⟨hopen.streamOk, hopen.falls, fun _ _ hno => absurd hi (hno name m hm side)⟩
  · exact ⟨hended.streamOk, hended.falls, fun _ _ _ => hended.finish⟩

end Engine

/-- The order of `stuckOps` is cancelled twice. -/
theorem finish_twice :
    ∃ e₀ e, Engine.init decimal128 exampleAssets [exampleConf 8] = some e₀ ∧
      e₀.run decimal128 true (stuckOps ++ [cancelOrder 1 2]) = some e ∧
      (orderEvents 2 e.statics.messages).map Prod.fst = [.put, .finish, .finish] ∧
      ¬StreamOk ((orderEvents 2 e.statics.messages).map Prod.fst) := by
  obtain ⟨e₀, e, hinit, hrun, hcheck⟩ := exampleRun_spec
    (by decide +kernel : (exampleRun decimal128 8 (stuckOps ++ [cancelOrder 1 2])).any (fun e =>
      decide ((orderEvents 2 e.statics.messages).map Prod.fst = [.put, .finish, .finish])) = true)
  have hkinds := of_decide_eq_true hcheck
  refine ⟨e₀, e, hinit, hrun, hkinds, fun h => ?_⟩
  rw [hkinds] at h
  rcases h with h | ⟨n, h⟩
  · exact absurd h.length_le (by decide)
  · cases n with
    | zero => exact absurd h.length_le (by decide)
    | succ n =>
      have hcons := (List.cons_prefix_cons.mp h).2
      rw [List.replicate_succ, List.cons_append] at hcons
      cases (List.cons_prefix_cons.mp hcons).1

instance {D : Type} (e : Engine D) (op : Op D) : Decidable (e.CancelsBooked op) := by
  refine op.casesOn ?_ ?_ ?_ ?_ ?_ <;> intros <;> unfold Engine.CancelsBooked
  all_goals infer_instance

theorem releasedOps_stream :
    ∃ e₀ e, Engine.init decimal128 exampleAssets [exampleConf 8] = some e₀ ∧
      e₀.run decimal128 true releasedOps = some e ∧
      (orderEvents 2 e.statics.messages).length = 2 ∧
      StreamOk ((orderEvents 2 e.statics.messages).map Prod.fst) := by
  obtain ⟨e₀, e, hinit, hrun, hcheck⟩ := exampleRun_spec
    (by decide +kernel : (exampleRun decimal128 8 releasedOps).any (fun e =>
      decide ((orderEvents 2 e.statics.messages).length = 2)) = true)
  have hcancel : Engine.Along decimal128 true Engine.CancelsBooked e₀ releasedOps :=
    of_decide_eq_true (exampleInit_spec (fun e₀ => decide (Engine.Along decimal128 true
      Engine.CancelsBooked e₀ releasedOps)) hinit (by decide +kernel))
  exact ⟨e₀, e, hinit, hrun, of_decide_eq_true hcheck,
    (Engine.event_stream hinit hrun hcancel 2).1⟩

end ViabtcExchange
