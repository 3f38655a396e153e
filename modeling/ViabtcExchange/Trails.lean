import ViabtcExchange.Indexes
import ViabtcExchange.Plan

/-!
# The trail of an order

What the outside sees of an order is the messages about it and about its deals, and the rows of the
fees debited for it. Its trail (`Statics.trail`) collects them, by its id. A trade adds to the
trails of its two orders, and to no other.

`TrailRules` lists what a property of orders and trails has to satisfy, one rule for each thing that
can happen to an order. **Theorem (`Engine.trailed_run`).** It then holds after every run: of the
orders on the book, of those that left it, and of those that are gone.
-/

namespace ViabtcExchange

/-- A deal as it is published: `side` is the side of the taker. -/
structure Deal where
  ask : Order ℚ
  bid : Order ℚ
  terms : Terms ℚ
  side : OrderSide
  money : String

/-- A fee debited from the balance of a user. -/
structure Fee where
  userId : ℕ
  asset : String
  fee : ℚ
deriving DecidableEq

/-- The messages about an order and about its deals, and the fees debited for it. -/
structure Trail where
  events : List (OrderEvent × Order ℚ)
  deals : List Deal
  fees : List Fee

namespace Trail

def start : Trail := ⟨[], [], []⟩

def event (v : Trail) (ev : OrderEvent) (o : Order ℚ) : Trail := { v with events := v.events ++ [(ev, o)] }

/-- A deal, and the fee a user pays for it, if there is one. -/
def trade (v : Trail) (d : Deal) (userId : ℕ) (leg : Leg ℚ) : Trail :=
  { v with
    deals := v.deals ++ [d]
    fees := v.fees ++ if 0 < leg.fee then [⟨userId, leg.feeAsset, leg.fee⟩] else [] }

end Trail

def orderEvents (i : ℕ) (messages : List (Message ℚ)) : List (OrderEvent × Order ℚ) :=
  messages.filterMap fun
    | .order ev o _ _ => if o.id = i then some (ev, o) else none
    | _ => none

def orderDeals (i : ℕ) (messages : List (Message ℚ)) : List Deal :=
  messages.filterMap fun
    | .deal _ ask bid t side _ _ money =>
      if ask.id = i ∨ bid.id = i then some ⟨ask, bid, t, side, money⟩ else none
    | _ => none

/-- The rows `append_balance_trade_fee` writes for an order. -/
def feeRows (i : ℕ) (history : List (HistoryRow ℚ)) : List Fee :=
  history.filterMap fun
    | .balance userId asset _ change _ (.trade _ orderId _ _ (some _)) =>
      if orderId = i then some ⟨userId, asset, -change⟩ else none
    | _ => none

def Statics.trail (s : Statics ℚ) (i : ℕ) : Trail :=
  ⟨orderEvents i s.messages, orderDeals i s.messages, feeRows i s.history⟩

/-- The deal of a trade. -/
def Matching.dealOf (x : Matching ℚ) (m : Market ℚ) (taker maker : Order ℚ) (t : Terms ℚ) : Deal :=
  match x.side with
  | .ask => ⟨taker, maker, t, .ask, m.money⟩
  | .bid => ⟨maker, taker, t, .bid, m.money⟩

section Outputs

variable {round : ℚ → ℚ} (s : Statics ℚ) (j : ℕ)

theorem trail_congr {s s' : Statics ℚ} (hm : s'.messages = s.messages)
    (hh : s'.history = s.history) :
    s'.trail = s.trail := by
  funext j
  unfold Statics.trail
  rw [hm, hh]

theorem trail_push_order (ev : OrderEvent) (o : Order ℚ) (stock money : String) :
    (s.push true (.order ev o stock money)).trail j =
      if o.id = j then (s.trail j).event ev o else s.trail j := by
  by_cases h : o.id = j <;>
    simp [Statics.trail, Statics.push, orderEvents, orderDeals, Trail.event, h]

@[simp] theorem trail_push_balance (u : ℕ) (asset business : String) (change : ℚ) :
    (s.push true (.balance u asset business change)).trail j = s.trail j := by
  simp [Statics.trail, Statics.push, orderEvents, orderDeals]

@[simp] theorem trail_append_order (o : Order ℚ) :
    (s.append true (.order o)).trail j = s.trail j := by
  simp [Statics.trail, Statics.append, feeRows]

@[simp] theorem trail_call (mpd : Mpd ℚ) (c : BalanceCall ℚ) :
    (s.call mpd c).trail j = s.trail j := rfl

/-- A deal is reported to both of its orders. -/
theorem trail_reportDeal (x : Matching ℚ) (m : Market ℚ) (taker maker : Order ℚ) (t : Terms ℚ)
    (dealId : ℕ) :
    (x.reportDeal true m s taker maker t dealId).trail j =
      if taker.id = j ∨ maker.id = j then
        { s.trail j with deals := (s.trail j).deals ++ [x.dealOf m taker maker t] }
      else s.trail j := by
  unfold Matching.reportDeal Matching.dealOf
  by_cases h : taker.id = j ∨ maker.id = j <;> cases x.side <;>
    simp [Statics.trail, Statics.push, Statics.append, orderEvents, orderDeals, feeRows, h, or_comm]

/-- A party leaves the row of the fee it pays. -/
theorem trail_payLeg (order : Order ℚ) (t : Terms ℚ) (leg : Leg ℚ) :
    (payLeg (ratMpd round) true s order t leg).trail j =
      { s.trail j with
        fees := (s.trail j).fees ++ if order.id = j ∧ 0 < leg.fee then
          [⟨order.userId, leg.feeAsset, leg.fee⟩] else [] } := by
  unfold payLeg Statics.appendBalanceTradeSub Statics.appendBalanceTradeAdd
    Statics.appendBalanceTradeFee Statics.appendUserBalanceHistory
  simp only [gt_iff_lt, ratMpd_zero, ratMpd_cmp_pos]
  by_cases hfee : 0 < leg.fee <;> by_cases hid : order.id = j <;>
    simp [Statics.trail, Statics.append, Statics.call, feeRows, hfee, hid]

theorem trail_orderFinish (m : Market ℚ) (id : ℕ) :
    (orderFinish (ratMpd round) true s m id).1.trail j = s.trail j := by
  unfold orderFinish
  by_cases hstuck : orderStuck (ratMpd round) s m id = true
  · rw [if_pos hstuck]
    rfl
  · rw [if_neg hstuck]
    dsimp only
    split_ifs <;> simp

theorem trail_settleMaker (m : Market ℚ) (id : ℕ) (maker : Order ℚ) :
    (settleMaker (ratMpd round) true s m id maker).1.trail j =
      if maker.id = j then
        (s.trail j).event (if maker.left = 0 then .finish else .update) maker
      else s.trail j := by
  unfold settleMaker
  simp only [ratMpd_zero, ratMpd_cmp_eq]
  by_cases hleft : maker.left = 0
  · simp only [hleft, if_true, trail_orderFinish, trail_push_order]
  · simp only [hleft, if_false, trail_push_order]

theorem trail_orderPut (m : Market ℚ) (o : Order ℚ) :
    (orderPut (ratMpd round) s m o).1.trail = s.trail := by
  rcases orderPut_statics (ratMpd round) s m o with h | h
  · rw [h]
  · rw [h]
    rfl

end Outputs

section Trades

variable {round : ℚ → ℚ} (x : Matching ℚ) (e : Execution ℚ) {i : ℕ} (t : Terms ℚ)

variable (round) in
/-- A trade adds to the trails of its taker and of its maker. -/
theorem trail_executeTrade (hid : (e.market.order i).id = i) (hne : e.taker.id ≠ i) (j : ℕ) :
    (executeTrade (ratMpd round) true x e i t).statics.trail j =
      if j = i then
        ((e.statics.trail j).trade (x.dealOf e.market e.taker (e.market.order i) t)
            (e.market.order i).userId (x.makerLeg e.market (e.market.order i) t)).event
          (if (x.fillMaker (ratMpd round) e.market (e.market.order i) t).left = 0 then .finish
            else .update) (x.fillMaker (ratMpd round) e.market (e.market.order i) t)
      else if j = e.taker.id then
        (e.statics.trail j).trade (x.dealOf e.market e.taker (e.market.order i) t) e.taker.userId
          (x.takerLeg e.market e.taker t)
      else e.statics.trail j := by
  have hmaker : (x.fillMaker (ratMpd round) e.market (e.market.order i) t).id = i := hid
  have hpay : (payTrade (ratMpd round) true x e i t).trail j =
      if j = i then (e.statics.trail j).trade (x.dealOf e.market e.taker (e.market.order i) t)
        (e.market.order i).userId (x.makerLeg e.market (e.market.order i) t)
      else if j = e.taker.id then (e.statics.trail j).trade (x.dealOf e.market e.taker
        (e.market.order i) t) e.taker.userId (x.takerLeg e.market e.taker t)
      else e.statics.trail j := by
    unfold payTrade
    simp only [trail_payLeg, trail_reportDeal, hid]
    by_cases hji : j = i
    · subst hji
      simp only [hne, false_and, if_false, List.append_nil, or_true, if_true, true_and]
      rfl
    · by_cases hj : j = e.taker.id
      · subst hj
        simp only [Ne.symm hji, false_and, if_false, List.append_nil, true_or, if_true, true_and,
          hji]
        rfl
      · simp only [Ne.symm hji, Ne.symm hj, hji, hj, false_and, if_false, List.append_nil, or_self]
        rfl
  change (settleMaker (ratMpd round) true (payTrade (ratMpd round) true x e i t) e.market i
    (x.fillMaker (ratMpd round) e.market (e.market.order i) t)).1.trail j = _
  rw [trail_settleMaker, hpay, hmaker]
  by_cases hji : j = i
  · rw [if_pos hji.symm, if_pos hji, if_pos hji]
  · rw [if_neg (Ne.symm hji), if_neg hji, if_neg hji]

end Trades

/-! ## Rules -/

/-- A trade of two orders. -/
structure Bargain (round : ℚ → ℚ) (x : Matching ℚ) (m : Market ℚ) (taker maker : Order ℚ) (t : Terms ℚ) :
    Prop where
  quote : x.quote m taker maker = some (.trade t)
  quoted : Quoted round x m taker maker t
  ne : taker.id ≠ maker.id
  deal : 0 ≤ t.deal

/-- What can happen to an order, and what it does to a property of it and its trail: `T` of an order
that takes, `O` of an order on the book, `C` of one that left it. Every trade satisfies `K`, and
under `A` an order that left the book may be cancelled once more. -/
structure TrailRules (round : ℚ → ℚ) (K : Matching ℚ → Order ℚ → Order ℚ → Prop) (A : Prop)
    (T O C : MarketConf ℚ → Trail → Order ℚ → Prop) : Prop where
  steady : ∀ {x m taker maker t}, K x taker maker → K x (x.fillTaker (ratMpd round) m taker t) maker
  new : ∀ {conf id type m userId side price amount takerFee makerFee source}, 0 ≤ takerFee →
    0 ≤ makerFee →
    T conf .start (newOrder (ratMpd round) id type m userId side price amount takerFee makerFee source)
  taker : ∀ {x m taker maker t v}, Bargain round x m taker maker t → K x taker maker →
    T m.conf v taker →
    T m.conf (v.trade (x.dealOf m taker maker t) taker.userId (x.takerLeg m taker t))
      (x.fillTaker (ratMpd round) m taker t)
  update : ∀ {x m taker maker t v}, Bargain round x m taker maker t → K x taker maker →
    O m.conf v maker → (x.fillMaker (ratMpd round) m maker t).left ≠ 0 →
    O m.conf ((v.trade (x.dealOf m taker maker t) maker.userId (x.makerLeg m maker t)).event .update
      (x.fillMaker (ratMpd round) m maker t)) (x.fillMaker (ratMpd round) m maker t)
  finish : ∀ {x m taker maker t v}, Bargain round x m taker maker t → K x taker maker →
    O m.conf v maker → (x.fillMaker (ratMpd round) m maker t).left = 0 →
    C m.conf ((v.trade (x.dealOf m taker maker t) maker.userId (x.makerLeg m maker t)).event .finish
      (x.fillMaker (ratMpd round) m maker t)) (x.fillMaker (ratMpd round) m maker t)
  put : ∀ {conf v o freeze}, T conf v o → O conf (v.event .put o) { o with freeze := freeze }
  filled : ∀ {conf v o}, T conf v o → C conf (v.event .finish o) o
  cancel : ∀ {conf v o}, O conf v o → C conf (v.event .finish o) o
  again : ∀ {conf v o}, A → C conf v o → C conf (v.event .finish o) o

section Walk

variable {round : ℚ → ℚ} {K : Matching ℚ → Order ℚ → Order ℚ → Prop} {A : Prop}
  {T O C : MarketConf ℚ → Trail → Order ℚ → Prop} {n : ℕ} {x : Matching ℚ} {e₀ e e' : Execution ℚ}
  {i : ℕ} {ids : List ℕ} {t : Terms ℚ}

/-- Every order of a market has the trail of an order on the book, or off it. -/
structure TrailedMarket (O C : MarketConf ℚ → Trail → Order ℚ → Prop) (s : Statics ℚ) (m : Market ℚ) :
    Prop where
  booked : ∀ side, ∀ i ∈ m.book side, O m.conf (s.trail i) (m.order i)
  kept : ∀ i ∈ m.orders, (∀ side, i ∉ m.book side) → C m.conf (s.trail i) (m.order i)

/-- `K` of every planned trade. -/
def PlanKeeps (round : ℚ → ℚ) (K : Matching ℚ → Order ℚ → Order ℚ → Prop) (x : Matching ℚ)
    (ids : List ℕ) (e : Execution ℚ) : Prop :=
  ∀ p ∈ (x.plan (ratMpd round) e.market ids e.taker).1, K x e.taker (e.market.order p.1)

/-- The matching loop on its way, with the trails. -/
structure TrailWalk (round : ℚ → ℚ) (K : Matching ℚ → Order ℚ → Order ℚ → Prop)
    (T O C : MarketConf ℚ → Trail → Order ℚ → Prop) (n : ℕ) (x : Matching ℚ) (e₀ : Execution ℚ)
    (ids : List ℕ) (e : Execution ℚ) : Prop where
  walk : Walk n x e₀ ids e
  plan : PlanKeeps round K x ids e
  orders : e.market.orders ⊆ e₀.market.orders
  other : ∀ j, j ∉ e₀.market.orders → j ≠ e.taker.id → e.statics.trail j = e₀.statics.trail j
  taker : T e.market.conf (e.statics.trail e.taker.id) e.taker
  market : TrailedMarket O C e.statics e.market
  gone : ∀ j ∈ e₀.market.orders, j ∉ e.market.orders →
    ∃ o, o.id = j ∧ C e.market.conf (e.statics.trail j) o

/-- A trade takes its maker out of the dictionary, or nothing. -/
theorem Traded.orders_cases {m m' : Market ℚ} {maker : Order ℚ} {stuck : Prop}
    (h : Traded n m m' i maker stuck) :
    m'.orders = m.orders ∨ maker.left = 0 ∧ m'.orders = m.orders.erase i := by
  by_cases hleft : maker.left = 0
  · by_cases hs : stuck
    · exact Or.inl (h.kept (Or.inr hs))
    · exact Or.inr ⟨hleft, h.dropped hleft hs⟩
  · exact Or.inl (h.kept (Or.inl hleft))

theorem TrailWalk.step (hr : RoundsDown round) (hx : x.Fair round) (hlocal : x.Local)
    (hrules : TrailRules round K A T O C) (hwf : e₀.market.WF n) (hn : n < e₀.taker.id)
    (h : TrailWalk round K T O C n x e₀ (i :: ids) e)
    (hleft : (ratMpd round).cmp e.taker.left (ratMpd round).zero ≠ 0)
    (hq : x.quote e.market e.taker (e.market.order i) = some (.trade t)) :
    TrailWalk round K T O C n x e₀ ids (executeTrade (ratMpd round) true x e i t) := by
  have hquoted := h.walk.quoted hx hleft hq
  obtain ⟨hio, -, hprice⟩ := h.walk.maker
  have hni := (List.nodup_cons.mp h.walk.nodup).1
  have hmem := h.walk.mem i List.mem_cons_self
  have hid : (e.market.order i).id = i := (h.walk.book.wf.named i hio).id
  have htid : e.taker.id = e₀.taker.id := h.walk.face.id
  have hne : e.taker.id ≠ i := fun heq => by
    have hle := h.walk.book.wf.le i hio
    omega
  have hdealt : Bargain round x e.market e.taker (e.market.order i) t :=
    ⟨hq, hquoted, hid.symm ▸ hne, hquoted.deal ▸
      hr.nonneg (mul_nonneg hprice.le hquoted.amount_pos.le)⟩
  have ht := executeTrade_market round true x e t h.walk.book.wf hio
  have htrail := trail_executeTrade round x e t hid hne
  have hplan := h.plan
  unfold PlanKeeps at hplan
  rw [(plan_trade true hlocal h.walk.book.wf hio hni hleft hq).1] at hplan
  obtain ⟨hK, hrest⟩ := List.forall_mem_cons.mp hplan
  set maker := x.fillMaker (ratMpd round) e.market (e.market.order i) t
  set e₁ := executeTrade (ratMpd round) true x e i t
  have hsub : e₁.market.orders ⊆ e.market.orders := by
    rcases ht.orders_cases with h | ⟨-, h⟩ <;> rw [h]
    exact Finset.erase_subset _ _
  have horder : ∀ j, j ≠ i → e₁.market.order j = e.market.order j := fun j hj => by
    rw [ht.order, Function.update_of_ne hj]
  have hself : e₁.market.order i = maker := by
    rw [ht.order, Function.update_self]
  have htaker : e₁.taker = x.fillTaker (ratMpd round) e.market e.taker t := rfl
  have htid₁ : e₁.taker.id = e.taker.id := rfl
  -- the trails of the other orders of the market
  have hold : ∀ j, j ≠ i → j ∈ e.market.orders → e₁.statics.trail j = e.statics.trail j :=
    fun j hj hjo => by
      have hjt : j ≠ e.taker.id := fun heq => by
        have hle := h.walk.book.wf.le j hjo
        omega
      rw [htrail, if_neg hj, if_neg hjt]
  have hbook : O e.market.conf (e.statics.trail i) (e.market.order i) := h.market.booked _ i hmem
  refine ⟨h.walk.step hr hx true hleft hq, fun p hp => ?_, hsub.trans h.orders, fun j hj hjt => ?_,
    ?_, ⟨fun side j hj => ?_, fun j hj hjb => ?_⟩, fun j hj hjo => ?_⟩
  · have hpi : p.1 ≠ i := fun heq => hni (heq ▸ mem_plan hp)
    rw [horder p.1 hpi, htaker]
    exact hrules.steady (hrest p hp)
  · have hji : j ≠ i := fun heq => hj (h.orders (heq ▸ hio))
    rw [htid₁] at hjt
    rw [htrail, if_neg hji, if_neg hjt]
    exact h.other j hj hjt
  · have hcur := htrail e.taker.id
    rw [if_neg hne, if_pos rfl] at hcur
    rw [ht.conf, htid₁, hcur]
    exact hrules.taker hdealt hK h.taker
  · rw [ht.conf]
    rw [ht.book] at hj
    by_cases hji : j = i
    · subst hji
      have hml : maker.left ≠ 0 := fun h0 => by
        rw [if_pos h0] at hj
        exact (h.walk.book.wf.nodup side).not_mem_erase hj
      have hcur := htrail j
      rw [if_pos rfl, if_neg hml] at hcur
      rw [hself, hcur]
      exact hrules.update hdealt hK hbook hml
    · have hj' : j ∈ e.market.book side := by
        split_ifs at hj
        · exact List.mem_of_mem_erase hj
        · exact hj
      rw [horder j hji, hold j hji (h.walk.book.wf.mem side j hj')]
      exact h.market.booked side j hj'
  · rw [ht.conf]
    by_cases hji : j = i
    · subst hji
      have hml : maker.left = 0 := by_contra fun h0 => by
        have hno := hjb x.side.opposite
        rw [ht.book, if_neg h0] at hno
        exact hno hmem
      have hcur := htrail j
      rw [if_pos rfl, if_pos hml] at hcur
      rw [hself, hcur]
      exact hrules.finish hdealt hK hbook hml
    · rw [horder j hji, hold j hji (hsub hj)]
      refine h.market.kept j (hsub hj) fun side hjs => hjb side ?_
      rw [ht.book]
      split_ifs
      · exact (List.mem_erase_of_ne hji).mpr hjs
      · exact hjs
  · rw [ht.conf]
    by_cases hji : j = i
    · subst hji
      have hml : maker.left = 0 := by_contra fun h0 => hjo ((ht.kept (Or.inl h0)).symm ▸ hio)
      have hcur := htrail j
      rw [if_pos rfl, if_pos hml] at hcur
      exact ⟨maker, hid, by rw [hcur]; exact hrules.finish hdealt hK hbook hml⟩
    · have hjo' : j ∉ e.market.orders := fun hmem' => hjo (by
        rcases ht.orders_cases with h | ⟨-, h⟩ <;> rw [h]
        · exact hmem'
        · exact Finset.mem_erase.mpr ⟨hji, hmem'⟩)
      obtain ⟨o, hoid, hC⟩ := h.gone j hj hjo'
      have hjt : j ≠ e.taker.id := fun heq => by
        have hle := hwf.le j hj
        omega
      exact ⟨o, hoid, by rw [htrail, if_neg hji, if_neg hjt]; exact hC⟩

/-- The loop starts with the trails as they are. -/
theorem trailWalk_start (h : BookOk n e.market) (hleft : 0 ≤ e.taker.left)
    (hplan : PlanKeeps round K x (e.market.book x.side.opposite) e)
    (hT : T e.market.conf (e.statics.trail e.taker.id) e.taker)
    (hm : TrailedMarket O C e.statics e.market) :
    TrailWalk round K T O C n x e (e.market.book x.side.opposite) e :=
  ⟨walk_start h hleft, hplan, subset_rfl, fun _ _ _ => rfl, hT, hm, fun _ hj hno => absurd hj hno⟩

theorem trailWalk_end (hr : RoundsDown round) (hx : x.Fair round) (hlocal : x.Local)
    (hrules : TrailRules round K A T O C) (h : BookOk n e.market) (hn : n < e.taker.id)
    (hleft : 0 ≤ e.taker.left) (hplan : PlanKeeps round K x (e.market.book x.side.opposite) e)
    (hT : T e.market.conf (e.statics.trail e.taker.id) e.taker)
    (hm : TrailedMarket O C e.statics e.market)
    (hrun : x.execute (ratMpd round) true e = some e') :
    ∃ ids, TrailWalk round K T O C n x e ids e' := by
  obtain ⟨ids, hw, -⟩ := executeLoop_rule (ratMpd round) true x
    (P := TrailWalk round K T O C n x e)
    (fun i ids e₁ t hw hl hq => hw.step hr hx hlocal hrules h.wf hn hl hq)
    (trailWalk_start h hleft hplan hT hm) hrun
  exact ⟨ids, hw⟩

end Walk

/-! ## Requests -/

section Requests

variable {round : ℚ → ℚ} {K : Matching ℚ → Order ℚ → Order ℚ → Prop} {A : Prop}
  {T O C : MarketConf ℚ → Trail → Order ℚ → Prop} {n : ℕ} {x : Matching ℚ} {s s' : Statics ℚ}
  {m m' : Market ℚ} {e₀ e : Execution ℚ} {userId : ℕ} {side : OrderSide}
  {amount price takerFee makerFee : ℚ} {source : String} {o : Outcome ℚ} {ids : List ℕ}

/-- What a request on a market does to the trails: it works on the orders of the market and on the
one it opens, and an order that is gone has the trail of one. -/
structure TrailStep (O C : MarketConf ℚ → Trail → Order ℚ → Prop) (s : Statics ℚ) (m : Market ℚ)
    (s' : Statics ℚ) (m' : Market ℚ) : Prop where
  conf : m'.conf = m.conf
  orders : ∀ j ∈ m'.orders, j ∈ m.orders ∨ s.orderIdStart < j
  other : ∀ j, j ∉ m.orders → j ≤ s.orderIdStart ∨ s'.orderIdStart < j → s'.trail j = s.trail j
  market : TrailedMarket O C s' m'
  gone : ∀ j, j ∈ m.orders ∨ s.orderIdStart < j ∧ j ≤ s'.orderIdStart → j ∉ m'.orders →
    ∃ o, o.id = j ∧ C m'.conf (s'.trail j) o

theorem TrailStep.refl (h : TrailedMarket O C s m) : TrailStep O C s m s m :=
  ⟨rfl, fun _ hj => Or.inl hj, fun _ _ _ => rfl, h, fun j hj hno => by
    rcases hj with hj | hj
    · exact absurd hj hno
    · omega⟩

/-- A taker that ends with its last message. -/
theorem TrailWalk.filled (hrules : TrailRules round K A T O C) (hwf : m.WF s.orderIdStart)
    (h : TrailWalk round K T O C s.orderIdStart x e₀ ids e) (hm : e₀.market = m)
    (hs : e₀.statics = s.openOrder) (hid : e.taker.id = s.orderIdStart + 1)
    (hn : s'.orderIdStart = s.orderIdStart + 1)
    (htrail : ∀ j, s'.trail j = if e.taker.id = j then (e.statics.trail j).event .finish e.taker
      else e.statics.trail j) : TrailStep O C s m s' e.market := by
  subst hm
  have hsame : ∀ j, j ≠ e.taker.id → s'.trail j = e.statics.trail j := fun j hj => by
    rw [htrail, if_neg (Ne.symm hj)]
  have hle : ∀ j ∈ e₀.market.orders, j ≠ e.taker.id := fun j hj heq => by
    have := hwf.le j hj
    omega
  refine ⟨h.walk.conf, fun j hj => Or.inl (h.orders hj), fun j hj hjn => ?_, ⟨fun side j hj => ?_,
    fun j hj hjb => ?_⟩, fun j hj hno => ?_⟩
  · rw [hsame j (by omega), h.other j hj (by omega), hs]
    rfl
  · rw [hsame j (hle j (h.orders (h.walk.book.wf.mem side j hj)))]
    exact h.market.booked side j hj
  · rw [hsame j (hle j (h.orders hj))]
    exact h.market.kept j hj hjb
  · rcases hj with hj | hj
    · rw [hsame j (hle j hj)]
      exact h.gone j hj hno
    · have hjt : e.taker.id = j := by omega
      refine ⟨e.taker, hjt, ?_⟩
      rw [htrail, if_pos hjt, ← hjt]
      exact hrules.filled h.taker

/-- A taker that comes to rest. -/
theorem TrailWalk.rested (hrules : TrailRules round K A T O C) (hwf : m.WF s.orderIdStart)
    (h : TrailWalk round K T O C s.orderIdStart x e₀ ids e) (hm : e₀.market = m)
    (hs : e₀.statics = s.openOrder) (hid : e.taker.id = s.orderIdStart + 1) {freeze : ℚ}
    (hput : Rested e.market m' e.taker freeze) (hn : s'.orderIdStart = s.orderIdStart + 1)
    (htrail : ∀ j, s'.trail j = if e.taker.id = j then (e.statics.trail j).event .put e.taker
      else e.statics.trail j) : TrailStep O C s m s' m' := by
  subst hm
  have hsame : ∀ j, j ≠ e.taker.id → s'.trail j = e.statics.trail j := fun j hj => by
    rw [htrail, if_neg (Ne.symm hj)]
  have hle : ∀ j ∈ e₀.market.orders, j ≠ e.taker.id := fun j hj heq => by
    have := hwf.le j hj
    omega
  have horder : ∀ j, j ≠ e.taker.id → m'.order j = e.market.order j := fun j hj => by
    rw [hput.order, Function.update_of_ne hj]
  have hnew : O e.market.conf (s'.trail e.taker.id) (m'.order e.taker.id) := by
    rw [hput.order, Function.update_self, htrail, if_pos rfl]
    exact hrules.put h.taker
  have hbook : ∀ side, ∀ j, j ≠ e.taker.id → (j ∈ m'.book side ↔ j ∈ e.market.book side) :=
    fun side j hj => by
      by_cases hside : side = e.taker.side
      · rw [hside, hput.book.mem_iff, List.mem_cons]
        exact or_iff_right hj
      · rw [hput.other side hside]
  refine ⟨hput.conf.trans h.walk.conf, fun j hj => ?_, fun j hj hjn => ?_, ⟨fun side j hj => ?_,
    fun j hj hjb => ?_⟩, fun j hj hno => ?_⟩
  · rw [hput.orders] at hj
    rcases Finset.mem_insert.mp hj with rfl | hj
    · exact Or.inr (by omega)
    · exact Or.inl (h.orders hj)
  · rw [hsame j (by omega), h.other j hj (by omega), hs]
    rfl
  · rw [hput.conf]
    by_cases hjt : j = e.taker.id
    · rw [hjt]
      exact hnew
    · rw [hsame j hjt, horder j hjt]
      exact h.market.booked side j ((hbook side j hjt).mp hj)
  · rw [hput.conf]
    rw [hput.orders] at hj
    rcases Finset.mem_insert.mp hj with rfl | hj
    · exact absurd (hput.book.mem_iff.mpr List.mem_cons_self) (hjb e.taker.side)
    · have hjt := hle j (h.orders hj)
      rw [hsame j hjt, horder j hjt]
      exact h.market.kept j hj fun side hjs => hjb side ((hbook side j hjt).mpr hjs)
  · rw [hput.orders, Finset.mem_insert, not_or] at hno
    rcases hj with hj | hj
    · rw [hsame j hno.1, hput.conf]
      exact h.gone j hj hno.2
    · omega

theorem trailStep_putLimit (hr : RoundsDown round) (hrules : TrailRules round K A T O C)
    (h : BookOk s.orderIdStart m) (hm : TrailedMarket O C s m)
    (hfresh : s.trail (s.orderIdStart + 1) = .start) (hamount : 0 < amount) (htaker : 0 ≤ takerFee)
    (hmaker : 0 ≤ makerFee)
    (hplan : PlanKeeps round K (limitMatching (ratMpd round) side) (m.book side.opposite)
      (startLimit (ratMpd round) s m userId side amount price takerFee makerFee source))
    (hput : marketPutLimitOrder (ratMpd round) true s m userId side amount price takerFee makerFee
      source = some o) : TrailStep O C s m o.statics o.market := by
  rcases marketPutLimitOrder_cases hput with ⟨ret, -, rfl⟩ | ⟨-, -, e, hrun, rfl⟩
  · exact TrailStep.refl hm
  set e₀ := startLimit (ratMpd round) s m userId side amount price takerFee makerFee source
  have hfixed := congrArg Prod.fst (executeLimitOrder_fixed hrun)
  have hid₀ : e₀.taker.id = s.orderIdStart + 1 := rfl
  rw [executeLimitOrder_eq] at hrun
  have hT : T e₀.market.conf (e₀.statics.trail e₀.taker.id) e₀.taker := by
    rw [hid₀, show e₀.statics.trail (s.orderIdStart + 1) = .start from hfresh]
    exact hrules.new htaker hmaker
  obtain ⟨ids, hw⟩ := trailWalk_end (n := s.orderIdStart) (e := e₀) hr (fair_limitMatching round side)
    (local_limitMatching side _) hrules h (by rw [hid₀]; exact Nat.lt_succ_self _) hamount.le
    (by rw [limitMatching_side]; exact hplan) hT ⟨hm.booked, hm.kept⟩ hrun
  have hid : e.taker.id = s.orderIdStart + 1 := hw.walk.face.id.trans hid₀
  have hn : (restLimitOrder (ratMpd round) true e).statics.orderIdStart = s.orderIdStart + 1 :=
    (congrArg Prod.fst (restLimitOrder_fixed (ratMpd round) true e)).trans hfixed
  by_cases hleft : e.taker.left = 0
  · have hmarket := (restLimitOrder_filled (ratMpd round) rfl true hleft).1
    rw [hmarket]
    refine hw.filled hrules h.wf rfl rfl hid hn fun j => ?_
    unfold restLimitOrder
    simp only [ratMpd_zero, ratMpd_cmp_eq, hleft, if_true, trail_push_order, trail_append_order]
  · obtain ⟨hrest, -⟩ := restLimitOrder_rests round true hw.walk.book.wf (by omega) hw.walk.face.type
      (hw.walk.face.market.trans (congrArg MarketConf.name hw.walk.conf).symm) hleft
    refine hw.rested hrules h.wf rfl rfl hid hrest hn fun j => ?_
    unfold restLimitOrder
    simp only [ratMpd_zero, ratMpd_cmp_eq, hleft, if_false, trail_orderPut, trail_push_order]

theorem trailStep_putMarket (hr : RoundsDown round) (hrules : TrailRules round K A T O C)
    (h : BookOk s.orderIdStart m) (hm : TrailedMarket O C s m)
    (hfresh : s.trail (s.orderIdStart + 1) = .start) (hamount : 0 < amount) (htaker : 0 ≤ takerFee)
    (hplan : PlanKeeps round K (marketMatching (ratMpd round) side) (m.book side.opposite)
      (startMarket (ratMpd round) s m userId side amount takerFee source))
    (hput : marketPutMarketOrder (ratMpd round) true s m userId side amount takerFee source =
      some o) : TrailStep O C s m o.statics o.market := by
  rcases marketPutMarketOrder_cases hput with ⟨ret, -, rfl⟩ | ⟨-, e, hrun, rfl⟩
  · exact TrailStep.refl hm
  set e₀ := startMarket (ratMpd round) s m userId side amount takerFee source
  have hfixed := congrArg Prod.fst (executeMarketOrder_fixed hrun)
  have hid₀ : e₀.taker.id = s.orderIdStart + 1 := rfl
  rw [executeMarketOrder_eq] at hrun
  have hT : T e₀.market.conf (e₀.statics.trail e₀.taker.id) e₀.taker := by
    rw [hid₀, show e₀.statics.trail (s.orderIdStart + 1) = .start from hfresh]
    exact hrules.new htaker le_rfl
  obtain ⟨ids, hw⟩ := trailWalk_end (n := s.orderIdStart) (e := e₀) hr (fair_marketMatching side hr)
    (local_marketMatching side _) hrules h (by rw [hid₀]; exact Nat.lt_succ_self _) hamount.le
    (by rw [marketMatching_side]; exact hplan) hT ⟨hm.booked, hm.kept⟩ hrun
  have hid : e.taker.id = s.orderIdStart + 1 := hw.walk.face.id.trans hid₀
  have hn : (closeMarketOrder true e).statics.orderIdStart = s.orderIdStart + 1 :=
    (congrArg Prod.fst (closeMarketOrder_fixed true e)).trans hfixed
  refine hw.filled hrules h.wf rfl rfl hid hn fun j => ?_
  unfold closeMarketOrder
  simp only [trail_push_order, trail_append_order]

theorem trailStep_cancel (hrules : TrailRules round K A T O C) (h : BookOk s.orderIdStart m)
    (hm : TrailedMarket O C s m) {i : ℕ} (hi : i ∈ m.orders)
    (hagain : A ∨ ∃ side, i ∈ m.book side) :
    TrailStep O C s m (marketCancelOrder (ratMpd round) true s m i).statics
      (marketCancelOrder (ratMpd round) true s m i).market := by
  have hfin := orderFinish_market round true
    (s.push true (.order .finish (m.order i) m.stock m.money)) h.wf hi
  have hid : (m.order i).id = i := (h.wf.named i hi).id
  set s' := (marketCancelOrder (ratMpd round) true s m i).statics
  set m' := (marketCancelOrder (ratMpd round) true s m i).market
  have hconf : m'.conf = m.conf := hfin.conf
  have horder : m'.order = m.order := hfin.order
  have hbook : ∀ side, m'.book side = (m.book side).erase i := hfin.book
  have htrail : ∀ j, s'.trail j =
      if i = j then (s.trail j).event .finish (m.order i) else s.trail j := fun j => by
    change (orderFinish (ratMpd round) true _ m i).1.trail j = _
    rw [trail_orderFinish, trail_push_order, hid]
  have hclosed : C m.conf (s'.trail i) (m.order i) := by
    rw [htrail, if_pos rfl]
    by_cases hb : ∃ side, i ∈ m.book side
    · obtain ⟨side, hside⟩ := hb
      exact hrules.cancel (hm.booked side i hside)
    · exact hrules.again (hagain.resolve_right hb) (hm.kept i hi fun side hside => hb ⟨side, hside⟩)
  have horders : ∀ j, j ≠ i → (j ∈ m'.orders ↔ j ∈ m.orders) := fun j hj => by
    by_cases hs : orderStuck (ratMpd round)
        (s.push true (.order .finish (m.order i) m.stock m.money)) m i = true
    · rw [show m'.orders = m.orders from hfin.kept hs]
    · rw [show m'.orders = m.orders.erase i from hfin.dropped hs, Finset.mem_erase]
      exact and_iff_right hj
  refine ⟨hconf, fun j hj => ?_, fun j hj _ => ?_, ⟨fun side j hj => ?_, fun j hj hjb => ?_⟩,
    fun j hj hno => ?_⟩
  · by_cases hji : j = i
    · exact Or.inl (hji ▸ hi)
    · exact Or.inl ((horders j hji).mp hj)
  · rw [htrail, if_neg fun hij : i = j => hj (hij ▸ hi)]
  · rw [hbook] at hj
    have hji : j ≠ i := fun heq => (h.wf.nodup side).not_mem_erase (heq ▸ hj)
    rw [hconf, horder, htrail, if_neg (Ne.symm hji)]
    exact hm.booked side j (List.mem_of_mem_erase hj)
  · rw [hconf, horder]
    by_cases hji : j = i
    · rw [hji]
      exact hclosed
    · rw [htrail, if_neg (Ne.symm hji)]
      refine hm.kept j ((horders j hji).mp hj) fun side hjs => hjb side ?_
      rw [hbook]
      exact (List.mem_erase_of_ne hji).mpr hjs
  · rw [hconf]
    by_cases hji : j = i
    · rw [hji]
      exact ⟨m.order i, hid, hclosed⟩
    · have hn : s'.orderIdStart = s.orderIdStart :=
        congrArg Prod.fst (marketCancelOrder_fixed (ratMpd round) true s m i)
      rcases hj with hj | hj
      · exact absurd ((horders j hji).mpr hj) hno
      · omega

end Requests

/-! ## Runs -/

namespace Engine

variable {round : ℚ → ℚ} {K : Matching ℚ → Order ℚ → Order ℚ → Prop} {A : Prop}
  {T O C : MarketConf ℚ → Trail → Order ℚ → Prop} {e₀ e e' : Engine ℚ} {op : Op ℚ}
  {dictAsset : Dict String AssetType} {confs : List (MarketConf ℚ)} {name : String} {m m' : Market ℚ}
  {s' : Statics ℚ}

/-- Every order id that was given out has the trail of an order on the book, off it, or gone. -/
structure Trailed (O C : MarketConf ℚ → Trail → Order ℚ → Prop) (e : Engine ℚ) : Prop where
  zero : e.statics.trail 0 = .start ∧ ∀ name m, e.dictMarket.find name = some m → 0 ∉ m.orders
  fresh : ∀ i, e.statics.orderIdStart < i → e.statics.trail i = .start
  market : ∀ name m, e.dictMarket.find name = some m → TrailedMarket O C e.statics m
  gone : ∀ i, 0 < i → i ≤ e.statics.orderIdStart →
    (∀ name m, e.dictMarket.find name = some m → i ∉ m.orders) →
    ∃ name m o, e.dictMarket.find name = some m ∧ o.id = i ∧ C m.conf (e.statics.trail i) o
  apart : ∀ name m name' m', e.dictMarket.find name = some m → e.dictMarket.find name' = some m' →
    ∀ i ∈ m.orders, i ∈ m'.orders → name = name'

/-- `K` of every trade an order is going to make, and, unless `A`, no cancelling of an order that
has left the book. -/
def TrailReady (round : ℚ → ℚ) (K : Matching ℚ → Order ℚ → Order ℚ → Prop) (A : Prop)
    (e : Engine ℚ) : Op ℚ → Prop
  | .limitOrder args => ∀ m, e.dictMarket.find args.market = some m →
    PlanKeeps round K (limitMatching (ratMpd round) args.side) (m.book args.side.opposite)
      (startLimit (ratMpd round) e.statics m args.userId args.side args.amount args.price
        args.takerFee args.makerFee args.source)
  | .marketOrder args => ∀ m, e.dictMarket.find args.market = some m →
    PlanKeeps round K (marketMatching (ratMpd round) args.side) (m.book args.side.opposite)
      (startMarket (ratMpd round) e.statics m args.userId args.side args.amount args.takerFee
        args.source)
  | .cancelOrder args => ∀ m, e.dictMarket.find args.market = some m →
    args.orderId ∈ m.orders → A ∨ ∃ side, args.orderId ∈ m.book side
  | _ => True

/-- A request on one market leaves the trails of the others. -/
theorem Trailed.put (h : Trailed O C e) (hsane : Sane e₀ e) (hm : e.dictMarket.find name = some m)
    (hle : e.statics.orderIdStart ≤ s'.orderIdStart)
    (hstep : TrailStep O C e.statics m s' m') : Trailed O C (e.put name s' m') := by
  have hfind : ∀ {name' m''}, (e.put name s' m').dictMarket.find name' = some m'' →
      name' = name ∧ m'' = m' ∨ name' ≠ name ∧ e.dictMarket.find name' = some m'' := by
    intro name' m'' h'
    simp only [Engine.put, Dict.find_insert] at h'
    split_ifs at h' with hname
    · exact Or.inl ⟨hname, (Option.some.inj h').symm⟩
    · exact Or.inr ⟨hname, h'⟩
  have hself : (e.put name s' m').dictMarket.find name = some m' := by
    simp [Engine.put, Dict.find_insert]
  have helse : ∀ {name' m''}, name' ≠ name → e.dictMarket.find name' = some m'' →
      (e.put name s' m').dictMarket.find name' = some m'' := fun {name' m''} hne h' => by
    simp [Engine.put, Dict.find_insert, hne, h']
  have hbound : ∀ {name' m''} {i : ℕ}, e.dictMarket.find name' = some m'' → i ∈ m''.orders →
      i ≤ e.statics.orderIdStart := fun {name' m'' i} h' hi =>
    (hsane.kept name' m'' h').book.wf.le i hi
  have hforeign : ∀ {name' m''} {i : ℕ}, name' ≠ name → e.dictMarket.find name' = some m'' →
      i ∈ m''.orders → i ∉ m.orders := fun {name' m'' i} hne h' hi hi' =>
    hne (h.apart name' m'' name m h' hm i hi hi')
  refine ⟨⟨?_, fun name' m'' h' h0 => ?_⟩, fun i hi => ?_, fun name' m'' h' => ?_,
    fun i hi0 hi hno => ?_, fun name₁ m₁ name₂ m₂ h₁ h₂ i hi₁ hi₂ => ?_⟩
  · exact (hstep.other 0 (h.zero.2 name m hm) (Or.inl (Nat.zero_le _))).trans h.zero.1
  · rcases hfind h' with ⟨-, rfl⟩ | ⟨-, h'⟩
    · rcases hstep.orders 0 h0 with h0 | h0
      · exact h.zero.2 name m hm h0
      · omega
    · exact h.zero.2 name' m'' h' h0
  · have hi' : s'.orderIdStart < i := hi
    have hnew : i ∉ m.orders := fun hmem => by
      have := hbound hm hmem
      omega
    exact (hstep.other i hnew (Or.inr hi')).trans (h.fresh i (by omega))
  · rcases hfind h' with ⟨-, rfl⟩ | ⟨hne, h'⟩
    · exact hstep.market
    · have hsame : ∀ i ∈ m''.orders, s'.trail i = e.statics.trail i := fun i hi =>
        hstep.other i (hforeign hne h' hi) (Or.inl (hbound h' hi))
      have hold := h.market name' m'' h'
      refine ⟨fun side i hi => ?_, fun i hi hib => ?_⟩
      · change O m''.conf (s'.trail i) (m''.order i)
        rw [hsame i ((hsane.kept name' m'' h').book.wf.mem side i hi)]
        exact hold.booked side i hi
      · change C m''.conf (s'.trail i) (m''.order i)
        rw [hsame i hi]
        exact hold.kept i hi hib
  · have hi' : i ≤ s'.orderIdStart := hi
    by_cases hin : i ∈ m.orders ∨ e.statics.orderIdStart < i ∧ i ≤ s'.orderIdStart
    · obtain ⟨o, hoid, hC⟩ := hstep.gone i hin (hno name m' hself)
      exact ⟨name, m', o, hself, hoid, hC⟩
    · rw [not_or] at hin
      have hile : i ≤ e.statics.orderIdStart := by omega
      have hgone : ∀ name' m'', e.dictMarket.find name' = some m'' → i ∉ m''.orders := by
        intro name' m'' h' hmem
        by_cases hne : name' = name
        · rw [hne, hm] at h'
          exact hin.1 (Option.some.inj h' ▸ hmem)
        · exact hno name' m'' (helse hne h') hmem
      obtain ⟨name', m'', o, h', hoid, hC⟩ := h.gone i hi0 hile hgone
      have hsame := hstep.other i hin.1 (Or.inl hile)
      by_cases hne : name' = name
      · rw [hne, hm] at h'
        obtain rfl := Option.some.inj h'
        exact ⟨name, m', o, hself, hoid, by
          change C m'.conf (s'.trail i) o
          rw [hstep.conf, hsame]
          exact hC⟩
      · exact ⟨name', m'', o, helse hne h', hoid, by
          change C m''.conf (s'.trail i) o
          rw [hsame]
          exact hC⟩
  · rcases hfind h₁ with ⟨hname₁, rfl⟩ | ⟨hname₁, hold₁⟩ <;>
      rcases hfind h₂ with ⟨hname₂, heq₂⟩ | ⟨hname₂, hold₂⟩
    · exact hname₁.trans hname₂.symm
    · rcases hstep.orders i hi₁ with hi | hi
      · exact absurd hi (hforeign hname₂ hold₂ hi₂)
      · have := hbound hold₂ hi₂
        omega
    · subst heq₂
      rcases hstep.orders i hi₂ with hi | hi
      · exact absurd hi (hforeign hname₁ hold₁ hi₁)
      · have := hbound hold₁ hi₁
        omega
    · exact h.apart name₁ m₁ name₂ m₂ hold₁ hold₂ i hi₁ hi₂

/-- An accepted request keeps what the rules say of every trail. -/
theorem Trailed.step (hr : RoundsDown round) (hrules : TrailRules round K A T O C)
    (h : Trailed O C e) (hsane : Sane e₀ e) (hready : e.TrailReady round K A op)
    (hstep : e.step (ratMpd round) true op = some e') : Trailed O C e' := by
  have hle := (step_fixed hstep).2
  have hcases := step_cases hstep
  cases op with
  | updateBalance args padding now =>
    obtain ⟨s, d, hupd, rfl⟩ := hcases
    have hn : s.orderIdStart = e.statics.orderIdStart :=
      congrArg Prod.fst (updateUserBalance_fixed hupd)
    have htrail : s.trail = e.statics.trail := by
      unfold updateUserBalance at hupd
      dsimp only at hupd
      split at hupd
      · exact congrArg (fun r => r.2.1.trail) hupd.symm
      · split at hupd
        · exact congrArg (fun r => r.2.1.trail) hupd.symm
        · refine (congrArg (fun r => r.2.1.trail) hupd.symm).trans (funext fun j => ?_)
          simp [Statics.appendUserBalanceHistory, Statics.trail, Statics.append, Statics.push,
            feeRows, orderEvents, orderDeals]
    refine ⟨⟨?_, h.zero.2⟩, fun i hi => ?_, fun name m hm => ⟨fun side i hi => ?_, fun i hi hib => ?_⟩,
      fun i hi0 hi hno => ?_, h.apart⟩
    · change s.trail 0 = _
      rw [htrail]
      exact h.zero.1
    · change s.trail i = _
      rw [htrail]
      exact h.fresh i (hn ▸ hi)
    · change O m.conf (s.trail i) (m.order i)
      rw [htrail]
      exact (h.market name m hm).booked side i hi
    · change C m.conf (s.trail i) (m.order i)
      rw [htrail]
      exact (h.market name m hm).kept i hi hib
    · obtain ⟨name, m, o, hm, hoid, hC⟩ := h.gone i hi0 (hn ▸ hi) hno
      refine ⟨name, m, o, hm, hoid, ?_⟩
      change C m.conf (s.trail i) o
      rw [htrail]
      exact hC
  | limitOrder args =>
    obtain ⟨m, o, hm, hok, hput, -, rfl⟩ := hcases
    exact h.put hsane hm hle (trailStep_putLimit hr hrules (hsane.kept _ m hm).book (h.market _ m hm)
      (h.fresh _ (Nat.lt_succ_self _)) (limitOk_pos hok).1 (feeRateOk_iff.mp hok.takerFee).1
      (feeRateOk_iff.mp hok.makerFee).1 (hready m hm) hput)
  | marketOrder args =>
    obtain ⟨m, o, hm, hok, hput, -, rfl⟩ := hcases
    exact h.put hsane hm hle (trailStep_putMarket hr hrules (hsane.kept _ m hm).book (h.market _ m hm)
      (h.fresh _ (Nat.lt_succ_self _)) ((ratMpd_cmp_pos _ _ _).mp hok.amount)
      (feeRateOk_iff.mp hok.takerFee).1 (hready m hm) hput)
  | cancelOrder args =>
    obtain ⟨m, hm, hmem, -, rfl⟩ := hcases
    exact h.put hsane hm hle (trailStep_cancel hrules (hsane.kept _ m hm).book (h.market _ m hm) hmem
      (hready m hm hmem))
  | expire now =>
    subst hcases
    exact ⟨h.zero, h.fresh, h.market, h.gone, h.apart⟩

theorem trailed_init (hinit : Engine.init (ratMpd round) dictAsset confs = some e₀) :
    Trailed O C e₀ := by
  have hstatics := init_statics hinit
  have hempty : ∀ name m, e₀.dictMarket.find name = some m → m.orders = ∅ ∧
      ∀ side, m.book side = [] :=
    fun name m hm => by
      obtain ⟨conf, -, -, hcreate⟩ := (init_spec hinit).2.2 name m hm
      exact ⟨(marketCreate_spec hcreate).2.1, (marketCreate_spec hcreate).2.2.2⟩
  refine ⟨⟨?_, fun name m hm h0 => ?_⟩, fun i _ => ?_,
    fun name m hm => ⟨fun side i hi => ?_, fun i hi _ => ?_⟩, fun i hi0 hi _ => ?_,
    fun name m name' m' hm _ i hi _ => ?_⟩
  · rw [hstatics]
    rfl
  · rw [(hempty name m hm).1] at h0
    cases h0
  · rw [hstatics]
    rfl
  · rw [(hempty name m hm).2 side] at hi
    cases hi
  · rw [(hempty name m hm).1] at hi
    cases hi
  · rw [hstatics] at hi
    exact absurd hi0 (not_lt.mpr hi)
  · rw [(hempty name m hm).1] at hi
    cases hi

/-- What the rules say holds of every trail after a run. -/
theorem trailed_run (hr : RoundsDown round) (hrules : TrailRules round K A T O C)
    (hinit : Engine.init (ratMpd round) dictAsset confs = some e₀) {ops : List (Op ℚ)}
    (hready : Along (ratMpd round) true (TrailReady round K A) e₀ ops)
    (hrun : e₀.run (ratMpd round) true ops = some e) : Sane e₀ e ∧ Trailed O C e :=
  run_induction (P := fun e => Sane e₀ e ∧ Trailed O C e)
    (fun _ _ _ h hq hstep => ⟨h.1.step hr hstep, h.2.step hr hrules h.1 hq hstep⟩)
    hready ⟨sane_init hinit, trailed_init hinit⟩ hrun

/-- The trail of any id: nothing yet, or that of an order on the book, or that of one off it. -/
theorem Trailed.cases (h : Trailed O C e) (hsane : Sane e₀ e) (i : ℕ) :
    (i = 0 ∨ e.statics.orderIdStart < i) ∧ e.statics.trail i = .start ∨
    (∃ name m side, e.dictMarket.find name = some m ∧ i ∈ m.book side ∧ (m.order i).id = i ∧
      O m.conf (e.statics.trail i) (m.order i)) ∨
    ∃ name m o, e.dictMarket.find name = some m ∧ o.id = i ∧ C m.conf (e.statics.trail i) o := by
  by_cases hnew : i = 0 ∨ e.statics.orderIdStart < i
  · refine Or.inl ⟨hnew, ?_⟩
    rcases hnew with rfl | hnew
    · exact h.zero.1
    · exact h.fresh i hnew
  rw [not_or] at hnew
  refine Or.inr ?_
  by_cases hfound : ∃ name m, e.dictMarket.find name = some m ∧ i ∈ m.orders
  · obtain ⟨name, m, hm, hi⟩ := hfound
    have hid : (m.order i).id = i := ((hsane.kept name m hm).book.wf.named i hi).id
    by_cases hbook : ∃ side, i ∈ m.book side
    · obtain ⟨side, hside⟩ := hbook
      exact Or.inl ⟨name, m, side, hm, hside, hid, (h.market name m hm).booked side i hside⟩
    · exact Or.inr ⟨name, m, m.order i, hm, hid, (h.market name m hm).kept i hi fun side hside =>
        hbook ⟨side, hside⟩⟩
  · exact Or.inr (h.gone i (by omega) (by omega) fun name m hm hi => hfound ⟨name, m, hm, hi⟩)

end Engine

end ViabtcExchange
