import ViabtcExchange.Engine

/-!
# Output does not matter

A live request appends history rows and pushes messages, a replayed one does not; nothing reads
them back. `silent` forgets them, and every function of the engine commutes with it: what a live
call leaves, once silent, is what the silent call leaves.

**Theorem (`Engine.silent_request`).** The code of a request and the silent state after it are
those of the request replayed on the silent state.
-/

namespace ViabtcExchange

variable {D : Type} (mpd : Mpd D) (real : Bool)

def Statics.silent (s : Statics D) : Statics D := { s with history := [], messages := [] }

def Execution.silent (e : Execution D) : Execution D := { e with statics := e.statics.silent }

def Outcome.silent (o : Outcome D) : Outcome D :=
  { o with statics := o.statics.silent, result := none }

def Engine.silent (e : Engine D) : Engine D := { e with statics := e.statics.silent }

namespace Statics

variable (s : Statics D)

@[simp] theorem append_false (row : HistoryRow D) : s.append false row = s := rfl

@[simp] theorem push_false (msg : Message D) : s.push false msg = s := rfl

@[simp] theorem silent_append (row : HistoryRow D) : (s.append real row).silent = s.silent := by
  cases real <;> rfl

@[simp] theorem silent_push (msg : Message D) : (s.push real msg).silent = s.silent := by
  cases real <;> rfl

@[simp] theorem silent_call (c : BalanceCall D) : (s.call mpd c).silent = s.silent.call mpd c := rfl

@[simp] theorem silent_ledger : s.silent.ledger = s.ledger := rfl
@[simp] theorem silent_orderIdStart : s.silent.orderIdStart = s.orderIdStart := rfl
@[simp] theorem silent_dealsIdStart : s.silent.dealsIdStart = s.dealsIdStart := rfl
@[simp] theorem silent_trades : s.silent.trades = s.trades := rfl

@[simp] theorem silent_openDeal (trade : Trade D) :
    (s.openDeal trade).silent = s.silent.openDeal trade := rfl

end Statics

section Trades

variable (s : Statics D) (m : Market D)

/-- What is left of `payLeg` when nothing is reported. -/
theorem silent_payLeg (order : Order D) (t : Terms D) (leg : Leg D) :
    (payLeg mpd real s order t leg).silent = payLeg mpd false s.silent order t leg := by
  unfold payLeg Statics.appendBalanceTradeFee Statics.appendBalanceTradeAdd
    Statics.appendBalanceTradeSub Statics.appendUserBalanceHistory
  simp only [apply_ite Statics.silent, Statics.silent_append, Statics.silent_call,
    Statics.append_false]

@[simp] theorem silent_orderStuck (id : ℕ) :
    orderStuck mpd s.silent m id = orderStuck mpd s m id := rfl

theorem silent_orderFinish (id : ℕ) :
    orderFinish mpd false s.silent m id =
      ((orderFinish mpd real s m id).1.silent, (orderFinish mpd real s m id).2) := by
  unfold orderFinish
  rw [silent_orderStuck]
  simp only [Statics.append_false, ite_self]
  split_ifs <;> simp only [Statics.silent_append, Statics.silent_call]

theorem silent_orderPut (order : Order D) :
    orderPut mpd s.silent m order =
      ((orderPut mpd s m order).1.silent, (orderPut mpd s m order).2) := by
  unfold orderPut
  split_ifs
  · rfl
  · rfl
  · dsimp only
    split
    · rfl
    · split <;> rfl

theorem silent_reportDeal (x : Matching D) (taker maker : Order D) (t : Terms D) (dealId : ℕ) :
    (x.reportDeal real m s taker maker t dealId).silent = s.silent := by
  unfold Matching.reportDeal
  split <;> simp only [Statics.silent_append, Statics.silent_push]

theorem reportDeal_false (x : Matching D) (taker maker : Order D) (t : Terms D) (dealId : ℕ) :
    x.reportDeal false m s taker maker t dealId = s := by
  unfold Matching.reportDeal
  split <;> rfl

theorem silent_payTrade (x : Matching D) (e : Execution D) (id : ℕ) (t : Terms D) :
    payTrade mpd false x e.silent id t = (payTrade mpd real x e id t).silent := by
  simp only [payTrade, silent_payLeg, silent_reportDeal, reportDeal_false,
    Statics.silent_openDeal, Execution.silent]

theorem silent_settleMaker (id : ℕ) (maker : Order D) :
    settleMaker mpd false s.silent m id maker =
      ((settleMaker mpd real s m id maker).1.silent, (settleMaker mpd real s m id maker).2) := by
  have h := silent_orderFinish mpd real (s.push real (.order .finish maker m.stock m.money))
    (m.setOrder id maker) id
  rw [Statics.silent_push] at h
  unfold settleMaker
  split_ifs
  · exact h
  · simp only [Statics.silent_push, Statics.push_false]

theorem silent_executeTrade (x : Matching D) (e : Execution D) (id : ℕ) (t : Terms D) :
    executeTrade mpd false x e.silent id t = (executeTrade mpd real x e id t).silent := by
  simp only [executeTrade, silent_payTrade mpd real]
  exact congrArg (fun p : Statics D × Market D =>
    (⟨p.1, p.2, x.fillTaker mpd e.market e.taker t⟩ : Execution D))
    (silent_settleMaker mpd real _ _ _ _)

theorem silent_executeLoop (x : Matching D) (ids : List ℕ) (e : Execution D) :
    executeLoop mpd false x ids e.silent =
      (executeLoop mpd real x ids e).map Execution.silent := by
  induction ids generalizing e with
  | nil => rfl
  | cons id ids ih =>
    unfold executeLoop
    simp only [show e.silent.taker = e.taker from rfl, show e.silent.market = e.market from rfl]
    split_ifs
    · rfl
    · cases x.quote e.market e.taker (e.market.order id) with
      | none => rfl
      | some q =>
        cases q with
        | stop => rfl
        | trade t =>
          dsimp only
          rw [silent_executeTrade mpd real, ih]

end Trades

/-! ## Requests -/

section Requests

variable (s : Statics D) (m : Market D)

theorem silent_execute (x : Matching D) (e : Execution D) :
    x.execute mpd false e.silent = (x.execute mpd real e).map Execution.silent :=
  silent_executeLoop mpd real x _ e

theorem silent_executeLimitOrder (e : Execution D) :
    executeLimitOrder mpd false e.silent = (executeLimitOrder mpd real e).map Execution.silent := by
  unfold executeLimitOrder
  cases h : e.taker.side <;> simp only [show e.silent.taker = e.taker from rfl, h] <;>
    exact silent_execute mpd real _ e

theorem silent_executeMarketOrder (e : Execution D) :
    executeMarketOrder mpd false e.silent =
      (executeMarketOrder mpd real e).map Execution.silent := by
  unfold executeMarketOrder
  cases h : e.taker.side <;> simp only [show e.silent.taker = e.taker from rfl, h] <;>
    exact silent_execute mpd real _ e

theorem silent_restLimitOrder (e : Execution D) :
    restLimitOrder mpd false e.silent = (restLimitOrder mpd real e).silent := by
  have h := silent_orderPut mpd
    (e.statics.push real (.order .put e.taker e.market.stock e.market.money)) e.market e.taker
  rw [Statics.silent_push] at h
  unfold restLimitOrder
  simp only [Execution.silent, Statics.append_false, Statics.push_false, h]
  split_ifs
  · simp [Outcome.silent, showOrder]
  · simp [Outcome.silent, showOrder]

theorem silent_closeMarketOrder (e : Execution D) :
    closeMarketOrder false e.silent = (closeMarketOrder real e).silent := by
  simp [closeMarketOrder, Execution.silent, Outcome.silent, showOrder]

theorem silent_marketPutLimitOrder (userId : ℕ) (side : OrderSide)
    (amount price takerFee makerFee : D) (source : String) :
    marketPutLimitOrder mpd false s.silent m userId side amount price takerFee makerFee source =
      (marketPutLimitOrder mpd real s m userId side amount price takerFee makerFee source).map
        Outcome.silent := by
  unfold marketPutLimitOrder
  simp only [show ∀ a r, hasAvailable mpd s.silent userId a r = hasAvailable mpd s userId a r from
    fun _ _ => rfl]
  split_ifs
  · rfl
  · rfl
  · have h := silent_executeLimitOrder mpd real ⟨s.openOrder, m,
      newOrder mpd s.openOrder.orderIdStart .limit m userId side price amount takerFee makerFee
        source⟩
    calc
      _ = (Option.map Execution.silent _).map (restLimitOrder mpd false) := congrArg _ h
      _ = _ := by
        simp only [Option.map_map, Function.comp_def, silent_restLimitOrder mpd real]

theorem silent_marketPutMarketOrder (userId : ℕ) (side : OrderSide) (amount takerFee : D)
    (source : String) :
    marketPutMarketOrder mpd false s.silent m userId side amount takerFee source =
      (marketPutMarketOrder mpd real s m userId side amount takerFee source).map
        Outcome.silent := by
  unfold marketPutMarketOrder
  simp only [show ∀ a r, hasAvailable mpd s.silent userId a r = hasAvailable mpd s userId a r from
    fun _ _ => rfl]
  split_ifs
  · rfl
  · cases m.book side.opposite with
    | nil => rfl
    | cons best _ =>
      dsimp only
      split_ifs
      · rfl
      · have h := silent_executeMarketOrder mpd real ⟨s.openOrder, m,
          newOrder mpd s.openOrder.orderIdStart .market m userId side mpd.zero amount takerFee
            mpd.zero source⟩
        calc
          _ = (Option.map Execution.silent _).map (closeMarketOrder false) := congrArg _ h
          _ = _ := by
            simp only [Option.map_map, Function.comp_def, silent_closeMarketOrder real]

theorem silent_marketCancelOrder (id : ℕ) :
    marketCancelOrder mpd false s.silent m id = (marketCancelOrder mpd real s m id).silent := by
  have h := silent_orderFinish mpd real
    (s.push real (.order .finish (m.order id) m.stock m.money)) m id
  rw [Statics.silent_push] at h
  simp only [marketCancelOrder, Statics.push_false, h]
  rfl

theorem silent_updateUserBalance (d : Dict UpdateKey ℚ) (args : UpdateArgs D) (padding : ℕ)
    (now : ℚ) :
    updateUserBalance mpd false s.silent d args padding now =
      ((updateUserBalance mpd real s d args padding now).1,
        (updateUserBalance mpd real s d args padding now).2.1.silent,
        (updateUserBalance mpd real s d args padding now).2.2) := by
  unfold updateUserBalance
  dsimp only [Statics.silent_ledger]
  cases d.find _ with
  | some _ => rfl
  | none =>
    dsimp only
    cases applyChange mpd s.ledger args.userId args.asset args.change with
    | none => rfl
    | some b =>
      simp only [Statics.appendUserBalanceHistory, Statics.append_false, Statics.push_false,
        Statics.silent_append, Statics.silent_push]
      rfl

end Requests

namespace Engine

variable (e : Engine D)

/-- What a request leaves, without its output. -/
def silentResult (r : ℤ × Engine D) : ℤ × Engine D := (r.1, r.2.silent)

theorem silent_finish (name : String) (o : Outcome D) :
    e.silent.finish name o.silent = silentResult (e.finish name o) := rfl

theorem silent_putLimit (args : LimitArgs D) :
    e.silent.putLimit mpd false args = (e.putLimit mpd real args).map silentResult := by
  unfold putLimit
  rw [show e.silent.dictMarket = e.dictMarket from rfl]
  cases e.dictMarket.find args.market with
  | none => rfl
  | some m =>
    dsimp only
    split_ifs
    · rfl
    · rw [show e.silent.statics = e.statics.silent from rfl, silent_marketPutLimitOrder mpd real,
        Option.map_map, Option.map_map]
      rfl

theorem silent_putMarket (args : MarketArgs D) :
    e.silent.putMarket mpd false args = (e.putMarket mpd real args).map silentResult := by
  unfold putMarket
  rw [show e.silent.dictMarket = e.dictMarket from rfl]
  cases e.dictMarket.find args.market with
  | none => rfl
  | some m =>
    dsimp only
    split_ifs
    · rfl
    · rw [show e.silent.statics = e.statics.silent from rfl, silent_marketPutMarketOrder mpd real,
        Option.map_map, Option.map_map]
      rfl

theorem silent_cancel (args : CancelArgs) :
    e.silent.cancel mpd false args = silentResult (e.cancel mpd real args) := by
  unfold cancel
  rw [show e.silent.dictMarket = e.dictMarket from rfl]
  cases e.dictMarket.find args.market with
  | none => rfl
  | some m =>
    dsimp only
    cases marketGetOrder m args.orderId with
    | none => rfl
    | some id =>
      dsimp only
      split_ifs
      · rfl
      · rw [show e.silent.statics = e.statics.silent from rfl, silent_marketCancelOrder mpd real]
        rfl

theorem silent_updateBalance (args : UpdateArgs D) (padding : ℕ) (now : ℚ) :
    e.silent.updateBalance mpd false args padding now =
      silentResult (e.updateBalance mpd real args padding now) := by
  unfold updateBalance
  rw [show e.silent.statics = e.statics.silent from rfl, silent_updateUserBalance mpd real]
  rfl

/-- A silent request on the silent state leaves what the live request leaves, without its
output. -/
theorem silent_request (op : Op D) :
    e.silent.request mpd false op = (e.request mpd real op).map silentResult := by
  cases op with
  | updateBalance args padding now =>
    exact congrArg some (silent_updateBalance mpd real e args padding now)
  | limitOrder args => exact silent_putLimit mpd real e args
  | marketOrder args => exact silent_putMarket mpd real e args
  | cancelOrder args => exact congrArg some (silent_cancel mpd real e args)
  | expire now => rfl

theorem silent_step (op : Op D) :
    e.silent.step mpd false op = (e.step mpd real op).map Engine.silent := by
  unfold step
  rw [silent_request mpd real]
  cases e.request mpd real op with
  | none => rfl
  | some r =>
    obtain ⟨ret, e'⟩ := r
    by_cases hret : ret = 0
    · subst hret
      rfl
    · simp only [Option.map_some, silentResult]
      split <;> split <;> simp_all

theorem silent_run (ops : List (Op D)) :
    e.silent.run mpd false ops = (e.run mpd real ops).map Engine.silent := by
  induction ops generalizing e with
  | nil => rfl
  | cons op ops ih =>
    simp only [run, List.foldlM_cons] at ih ⊢
    rw [silent_step mpd real]
    cases e.step mpd real op with
    | none => rfl
    | some e' => exact ih e'

end Engine

end ViabtcExchange
