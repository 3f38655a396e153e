import ViabtcExchange.Indexes

/-!
# The accounts of an order

Five fields of an order move with every trade, on both sides of it: `left`, `freeze`,
`deal_stock`, `deal_money` and `deal_fee`. In exact arithmetic they stay consistent: what was
dealt and what is left make up the amount, the money dealt is no worse than the limit, and an
order at rest freezes what it may still have to give (`Resting`).

**Theorem (`Engine.accounted`).** Every order of the dictionary is `Resting`, after any run.

No condition on the balances is needed: a maker that is filled freezes nothing any more, so it is
taken out of the dictionary whether or not the calls before went through.
-/

namespace ViabtcExchange

/-- What a limit order has traded so far, against its amount and its limit. -/
structure Accounted (o : Order ℚ) : Prop where
  stock : o.dealStock + o.left = o.amount
  dealt : 0 ≤ o.dealStock
  money : match o.side with
    | .ask => o.price * o.dealStock ≤ o.dealMoney
    | .bid => o.dealMoney ≤ o.price * o.dealStock

/-- An accounted order that freezes what is left of it, in the asset it gives. -/
structure Resting (o : Order ℚ) : Prop extends Accounted o where
  freeze : o.freeze = restFreeze exactDecimal o

variable {x : Matching ℚ} {m : Market ℚ} {taker maker : Order ℚ} {t : Terms ℚ}

/-- A resting order trades at its own price, so it stays accounted. -/
theorem Accounted.fillMaker (h : Accounted maker) (hq : Quoted id x m taker maker t) :
    Accounted (x.fillMaker exactDecimal m maker t) where
  stock := by
    change maker.dealStock + t.amount + (maker.left - t.amount) = maker.amount
    linarith [h.stock]
  dealt := add_nonneg h.dealt hq.amount_pos.le
  money := by
    have hdeal : t.deal = maker.price * t.amount := hq.deal
    have hmoney := h.money
    change match maker.side with
      | .ask => maker.price * (maker.dealStock + t.amount) ≤ maker.dealMoney + t.deal
      | .bid => maker.dealMoney + t.deal ≤ maker.price * (maker.dealStock + t.amount)
    cases hs : maker.side with
    | ask =>
      simp only [hs] at hmoney
      linarith
    | bid =>
      simp only [hs] at hmoney
      linarith

/-- A taker trades at prices within its limit. -/
theorem Accounted.fillTaker (h : Accounted taker) (hq : Quoted id x m taker maker t)
    (hspend : x.spend t = t.amount) (hreach : ¬OutOfReach taker maker) :
    Accounted (x.fillTaker exactDecimal m taker t) where
  stock := by
    change taker.dealStock + t.amount + (taker.left - x.spend t) = taker.amount
    linarith [h.stock]
  dealt := add_nonneg h.dealt hq.amount_pos.le
  money := by
    have hdeal : t.deal = maker.price * t.amount := hq.deal
    have hmoney := h.money
    change match taker.side with
      | .ask => taker.price * (taker.dealStock + t.amount) ≤ taker.dealMoney + t.deal
      | .bid => taker.dealMoney + t.deal ≤ taker.price * (taker.dealStock + t.amount)
    cases hs : taker.side with
    | ask =>
      simp only [hs, OutOfReach, not_lt] at hmoney hreach
      have := mul_le_mul_of_nonneg_right hreach hq.amount_pos.le
      linarith
    | bid =>
      simp only [hs, OutOfReach, not_lt] at hmoney hreach
      have := mul_le_mul_of_nonneg_right hreach hq.amount_pos.le
      linarith

/-- What a maker gives was frozen for it. -/
theorem Resting.fillMaker (h : Resting maker) (hq : Quoted id x m taker maker t)
    (hside : maker.side = x.side.opposite) :
    Resting (x.fillMaker exactDecimal m maker t) where
  toAccounted := h.toAccounted.fillMaker hq
  freeze := by
    have hfreeze := h.freeze
    change maker.freeze - (x.makerLeg m maker t).give =
      match maker.side with
      | .ask => maker.left - t.amount
      | .bid => maker.price * (maker.left - t.amount)
    cases hs : maker.side with
    | ask =>
      simp only [restFreeze, hs] at hfreeze
      rw [makerLeg_give_ask (opposite_eq_ask (hs.symm.trans hside)), hfreeze]
    | bid =>
      simp only [restFreeze, hs] at hfreeze
      have hdeal : t.deal = maker.price * t.amount := hq.deal
      rw [makerLeg_give_bid (opposite_eq_bid (hs.symm.trans hside)), hfreeze, hdeal, mul_sub]
      rfl

/-- A filled order freezes nothing. -/
theorem Resting.freeze_eq_zero {o : Order ℚ} (h : Resting o) (hleft : o.left = 0) :
    o.freeze = 0 := by
  rw [h.freeze]
  unfold restFreeze
  cases o.side <;> simp [hleft]

theorem orderRules_resting : OrderRules id Resting Accounted fun _ _ => True where
  maker hq hside h := h.fillMaker hq hside
  release hq hside _ h _ hleft := ((h.fillMaker hq hside).freeze_eq_zero hleft).le
  face _ _ := trivial
  new {id m userId side amount price takerFee makerFee source} _ _ := by
    refine ⟨zero_add _, le_rfl, ?_⟩
    cases side <;> simp [newOrder]
  taker hq hspend _ hreach h := h.fillTaker hq hspend hreach
  rest h _ _ := ⟨⟨h.stock, h.dealt, h.money⟩, rfl⟩

namespace Engine

variable {c : Prop} {real : Bool} {e₀ e e' : Engine ℚ} {dictAsset : Dict String AssetType}
  {confs : List (MarketConf ℚ)} {ops : List (Op ℚ)}

/-- Matching in exact arithmetic asks nothing of the makers. -/
theorem ready_of_cancel {op : Op ℚ}
    (h : ∀ args m, op = .cancelOrder args → e.dictMarket.find args.market = some m → c →
      orderStuck exactDecimal e.statics m args.orderId = false) :
    e.Ready exactDecimal c (fun _ _ => True) op := by
  cases op with
  | limitOrder args => exact fun _ _ _ _ => trivial
  | marketOrder args => exact fun _ _ _ _ => trivial
  | cancelOrder args => exact fun m hm => h args m rfl hm
  | updateBalance args padding now => trivial
  | expire now => trivial

/-- A request keeps every order of the dictionary accounted. -/
theorem resting_step {op : Op ℚ} (h : e.Markets fun _ => Indexed False Resting)
    (hstep : e.step exactDecimal real op = some e') :
    e'.Markets fun _ => Indexed False Resting := by
  have hnone : e.Markets fun _ n m => Indexed False Resting n m ∧ ∀ i, False → i ≤ n ∧
      i ∉ m.orders :=
    fun name m hm => ⟨h name m hm, fun _ hi => hi.elim⟩
  have hready : e.Ready exactDecimal False (fun _ _ => True) op :=
    ready_of_cancel fun _ _ _ _ hc => hc.elim
  have hnext := indexed_step roundsDown_id orderRules_resting hnone
    hready hstep
  exact fun name m hm => (hnext name m hm).1

theorem resting_run (hinit : Engine.init exactDecimal dictAsset confs = some e₀)
    (hrun : e₀.run exactDecimal real ops = some e) : e.Markets fun _ => Indexed False Resting :=
  run_induction (Q := fun _ _ => True) (fun _ _ _ h _ hstep => resting_step h hstep)
    (fun _ _ _ _ _ _ => trivial) (indexed_init hinit) hrun

/-- The accounts of every open order, after any run in exact arithmetic. -/
theorem accounted (hinit : Engine.init exactDecimal dictAsset confs = some e₀)
    (hrun : e₀.run exactDecimal real ops = some e) {name : String} {m : Market ℚ}
    (hm : e.dictMarket.find name = some m) {i : ℕ} (hi : i ∈ m.orders) :
    let o := m.order i
    0 < o.left ∧ o.left ≤ o.amount ∧ o.dealStock + o.left = o.amount ∧
      (o.side = .ask → o.freeze = o.left ∧ o.price * o.dealStock ≤ o.dealMoney) ∧
      (o.side = .bid → o.freeze = o.price * o.left ∧ o.dealMoney ≤ o.price * o.dealStock) := by
  have hindexed := resting_run hinit hrun name m hm
  obtain ⟨⟨hstock, hdealt, hmoney⟩, hfreeze⟩ := hindexed.each i hi
  unfold restFreeze at hfreeze
  refine ⟨hindexed.left i hi, by linarith, hstock, fun hs => ?_, fun hs => ?_⟩
  · simp only [hs] at hfreeze hmoney
    exact ⟨hfreeze, hmoney⟩
  · simp only [hs] at hfreeze hmoney
    exact ⟨hfreeze, hmoney⟩

end Engine

/-- A bid that took at half its limit, and whose rest a later ask took a part of. -/
def twiceFilledOps : List (Op ℚ) :=
  [deposit 1 "CNY" 1 20, deposit 2 "BTC" 2 6, limitOrder 2 .ask 5 1 0 0, limitOrder 1 .bid 10 2 0 0,
    limitOrder 2 .ask 1 2 0 0]

theorem twiceFilled_accounted :
    ∃ e₀ e m, Engine.init exactDecimal exampleAssets [exampleConf 8] = some e₀ ∧
      e₀.run exactDecimal true twiceFilledOps = some e ∧ e.dictMarket.find "BTCCNY" = some m ∧
      (m.order 2).left = 4 ∧ (m.order 2).freeze = (m.order 2).price * (m.order 2).left ∧
      (m.order 2).dealMoney ≤ (m.order 2).price * (m.order 2).dealStock := by
  obtain ⟨e₀, e, m, hinit, hrun, hm, hcheck⟩ := exampleMarket_spec
    (by decide +kernel : (exampleMarket exactDecimal 8 twiceFilledOps).any (fun m =>
      (m.order 2).side = .bid ∧ 2 ∈ m.orders ∧ (m.order 2).left = 4) = true)
  obtain ⟨hside, horders, hleft⟩ := of_decide_eq_true hcheck
  exact ⟨e₀, e, m, hinit, hrun, hm, hleft,
    (Engine.accounted hinit hrun hm horders).2.2.2.2 hside⟩

end ViabtcExchange
