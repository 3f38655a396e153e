import ViabtcExchange.Uncrossed

/-!
# What an order is going to trade

Which trades an order makes does not depend on any balance. `Matching.plan` is the matching loop
without the balances: it reads the trades, with their terms, off the makers as they rest, and says
how the taker comes out. `limitCalls` and `planCalls` are the balance calls this comes to.

A trade of the loop is the first of the plan, and what remains to be planned is not changed by it
(`plan_trade`).
-/

namespace ViabtcExchange

section Plan

variable {D : Type} (mpd : Mpd D) (x : Matching D) (m : Market D)

/-- The trades of the matching loop, and the taker after them. -/
def Matching.plan : List ℕ → Order D → List (ℕ × Terms D) × Order D
  | [], taker => ([], taker)
  | i :: ids, taker =>
    if mpd.cmp taker.left mpd.zero = 0 then ([], taker)
    else
      match x.quote m taker (m.order i) with
      | some (.trade t) =>
        let rest := Matching.plan ids (x.fillTaker mpd m taker t)
        ((i, t) :: rest.1, rest.2)
      | _ => ([], taker)

/-- The balance calls of planned trades. -/
def planCalls (taker : Order D) (ts : List (ℕ × Terms D)) : List (BalanceCall D) :=
  ts.flatMap fun p => tradeCalls mpd x m taker (m.order p.1) p.2

@[simp] theorem planCalls_nil (taker : Order D) : planCalls mpd x m taker [] = [] := rfl

@[simp] theorem planCalls_cons (taker : Order D) (p : ℕ × Terms D) (ts : List (ℕ × Terms D)) :
    planCalls mpd x m taker (p :: ts) =
      tradeCalls mpd x m taker (m.order p.1) p.2 ++ planCalls mpd x m taker ts := rfl

variable {mpd x m} {m' : Market D} {taker taker' : Order D} {ids : List ℕ} {i : ℕ} {t : Terms D}

theorem plan_of_left (h : mpd.cmp taker.left mpd.zero = 0) :
    x.plan mpd m ids taker = ([], taker) := by
  cases ids with
  | nil => rfl
  | cons i ids => exact if_pos h

theorem plan_of_stop (h : x.quote m taker (m.order i) = some .stop) :
    x.plan mpd m (i :: ids) taker = ([], taker) := by
  unfold Matching.plan
  simp only [h, ite_self]

theorem plan_of_trade (hleft : mpd.cmp taker.left mpd.zero ≠ 0)
    (h : x.quote m taker (m.order i) = some (.trade t)) :
    x.plan mpd m (i :: ids) taker =
      ((i, t) :: (x.plan mpd m ids (x.fillTaker mpd m taker t)).1,
        (x.plan mpd m ids (x.fillTaker mpd m taker t)).2) := by
  rw [Matching.plan, if_neg hleft]
  simp only [h]

/-- A loop that has stopped has nothing more planned. -/
theorem plan_of_stopped {e : Execution D} (h : Stopped mpd x ids e) :
    x.plan mpd e.market ids e.taker = ([], e.taker) := by
  rcases h with rfl | hleft | ⟨i, ids, rfl, hq⟩
  · rfl
  · exact plan_of_left hleft
  · exact plan_of_stop hq

/-- The parties pay the same whatever the state of the book. -/
structure Matching.Local (x : Matching D) : Prop where
  quote : ∀ {m m' : Market D}, m'.conf = m.conf → x.quote m' = x.quote m
  bidFeeAsset : ∀ {m m' : Market D}, m'.conf = m.conf → x.bidFeeAsset m' = x.bidFeeAsset m

variable (mpd) in
theorem local_limitAsk :
    (limitAsk mpd).Local := ⟨fun _ => rfl, fun h => congrArg MarketConf.money h⟩

variable (mpd) in
theorem local_limitBid :
    (limitBid mpd).Local := ⟨fun _ => rfl, fun h => congrArg MarketConf.money h⟩

variable (mpd) in
theorem local_marketAsk : (marketAsk mpd).Local :=
  ⟨fun _ => rfl, fun h => congrArg MarketConf.stock h⟩

variable (mpd) in
theorem local_marketBid : (marketBid mpd).Local where
  quote {m m'} h := by
    have hprec : m'.stockPrec = m.stockPrec := congrArg MarketConf.stockPrec h
    unfold marketBid
    simp only [hprec]
  bidFeeAsset h := congrArg MarketConf.stock h

theorem fillTaker_eq (m m' : Market D) :
    x.fillTaker mpd m' taker t = x.fillTaker mpd m taker t := by
  unfold Matching.fillTaker Matching.takerLeg partyLeg
  cases x.side <;> rfl

theorem tradeCalls_congr (hx : x.Local) (hconf : m'.conf = m.conf)
    (huser : taker'.userId = taker.userId) (maker : Order D) :
    tradeCalls mpd x m' taker' maker t = tradeCalls mpd x m taker maker t := by
  have hstock : m'.stock = m.stock := congrArg MarketConf.stock hconf
  have hmoney : m'.money = m.money := congrArg MarketConf.money hconf
  unfold tradeCalls legCalls Matching.takerLeg Matching.makerLeg
  rw [hx.bidFeeAsset hconf, huser]
  cases x.side <;> simp only [partyLeg, askLeg, bidLeg, OrderSide.opposite, hstock, hmoney] <;> rfl

/-- A plan is about the makers still to visit. -/
theorem plan_congr (hx : x.Local) (hconf : m'.conf = m.conf)
    (h : ∀ i ∈ ids, m'.order i = m.order i) : x.plan mpd m' ids taker = x.plan mpd m ids taker := by
  induction ids generalizing taker with
  | nil => rfl
  | cons i ids ih =>
    obtain ⟨hi, hids⟩ := List.forall_mem_cons.mp h
    unfold Matching.plan
    rw [hx.quote hconf, hi]
    simp only [fillTaker_eq m m', ih hids]

theorem mem_plan {p : ℕ × Terms D} (h : p ∈ (x.plan mpd m ids taker).1) : p.1 ∈ ids := by
  induction ids generalizing taker with
  | nil => simp [Matching.plan] at h
  | cons i ids ih =>
    unfold Matching.plan at h
    split_ifs at h
    · simp at h
    · split at h
      · rcases List.mem_cons.mp h with rfl | h
        · exact List.mem_cons_self
        · exact List.mem_cons_of_mem i (ih h)
      · simp at h

theorem planCalls_congr {ts : List (ℕ × Terms D)} (hx : x.Local) (hconf : m'.conf = m.conf)
    (huser : taker'.userId = taker.userId) (h : ∀ p ∈ ts, m'.order p.1 = m.order p.1) :
    planCalls mpd x m' taker' ts = planCalls mpd x m taker ts := by
  induction ts with
  | nil => rfl
  | cons p ts ih =>
    obtain ⟨hp, hts⟩ := List.forall_mem_cons.mp h
    rw [planCalls_cons, planCalls_cons, ih hts, hp, tradeCalls_congr hx hconf huser]

end Plan

/-! ## The calls of an order -/

section Calls

variable (mpd : Mpd ℚ) (x : Matching ℚ) (m : Market ℚ)

/-- The call that lets the rest of a limit order come to rest, if there is one. -/
def restCalls (taker : Order ℚ) : List (BalanceCall ℚ) :=
  if mpd.cmp taker.left mpd.zero = 0 then [] else [m.freezeCall mpd taker]

/-- The calls of a limit order, from `ids` on. -/
def limitCalls (ids : List ℕ) (taker : Order ℚ) : List (BalanceCall ℚ) :=
  planCalls mpd x m taker (x.plan mpd m ids taker).1 ++ restCalls mpd m (x.plan mpd m ids taker).2

/-- The calls of a market order, from `ids` on. -/
def marketCalls (ids : List ℕ) (taker : Order ℚ) : List (BalanceCall ℚ) :=
  planCalls mpd x m taker (x.plan mpd m ids taker).1

variable {mpd x} {round : ℚ → ℚ} {e : Execution ℚ} {ids : List ℕ} {i : ℕ} {t : Terms ℚ} {n : ℕ}

/-- The trade at hand is the first of the plan, and leaves the rest of it alone. -/
theorem plan_trade (real : Bool) (hx : x.Local) (hwf : e.market.WF n) (hi : i ∈ e.market.orders)
    (hids : i ∉ ids) (hleft : (ratMpd round).cmp e.taker.left (ratMpd round).zero ≠ 0)
    (hq : x.quote e.market e.taker (e.market.order i) = some (.trade t)) :
    let e' := executeTrade (ratMpd round) real x e i t
    let p := x.plan (ratMpd round) e'.market ids e'.taker
    x.plan (ratMpd round) e.market (i :: ids) e.taker = ((i, t) :: p.1, p.2) ∧
      planCalls (ratMpd round) x e'.market e'.taker p.1 =
        planCalls (ratMpd round) x e.market e.taker p.1 := by
  have ht := executeTrade_market round real x e t hwf hi
  have horder : ∀ j ∈ ids, (executeTrade (ratMpd round) real x e i t).market.order j =
      e.market.order j := fun j hj => by
    rw [ht.order, Function.update_of_ne fun hji : j = i => hids (hji ▸ hj)]
  have hplan := @plan_congr _ (ratMpd round) _ _ _
    (executeTrade (ratMpd round) real x e i t).taker _ hx ht.conf horder
  refine ⟨?_, ?_⟩
  · rw [hplan, plan_of_trade hleft hq]
    rfl
  · exact planCalls_congr hx ht.conf rfl fun p hp => horder _ (mem_plan hp)

theorem limitCalls_trade (real : Bool) (hx : x.Local) (hwf : e.market.WF n)
    (hi : i ∈ e.market.orders) (hids : i ∉ ids)
    (hleft : (ratMpd round).cmp e.taker.left (ratMpd round).zero ≠ 0)
    (hq : x.quote e.market e.taker (e.market.order i) = some (.trade t)) :
    limitCalls (ratMpd round) x e.market (i :: ids) e.taker =
      tradeCalls (ratMpd round) x e.market e.taker (e.market.order i) t ++
        limitCalls (ratMpd round) x (executeTrade (ratMpd round) real x e i t).market ids
          (executeTrade (ratMpd round) real x e i t).taker := by
  obtain ⟨hplan, hcalls⟩ := plan_trade real hx hwf hi hids hleft hq
  have hconf := (executeTrade_market round real x e t hwf hi).conf
  have hrest : ∀ o, restCalls (ratMpd round) (executeTrade (ratMpd round) real x e i t).market o =
      restCalls (ratMpd round) e.market o := fun o => by
    unfold restCalls Market.freezeCall
    rw [giveAsset_eq_of_conf hconf]
  unfold limitCalls
  rw [hplan, hcalls, hrest, planCalls_cons, List.append_assoc]

theorem marketCalls_trade (real : Bool) (hx : x.Local) (hwf : e.market.WF n)
    (hi : i ∈ e.market.orders) (hids : i ∉ ids)
    (hleft : (ratMpd round).cmp e.taker.left (ratMpd round).zero ≠ 0)
    (hq : x.quote e.market e.taker (e.market.order i) = some (.trade t)) :
    marketCalls (ratMpd round) x e.market (i :: ids) e.taker =
      tradeCalls (ratMpd round) x e.market e.taker (e.market.order i) t ++
        marketCalls (ratMpd round) x (executeTrade (ratMpd round) real x e i t).market ids
          (executeTrade (ratMpd round) real x e i t).taker := by
  obtain ⟨hplan, hcalls⟩ := plan_trade real hx hwf hi hids hleft hq
  unfold marketCalls
  rw [hplan, hcalls, planCalls_cons]

end Calls

/-! ## The matchings of a side -/

/-- The matching of a limit order. -/
def limitMatching (mpd : Mpd ℚ) : OrderSide → Matching ℚ
  | .ask => limitAsk mpd
  | .bid => limitBid mpd

/-- The matching of a market order. -/
def marketMatching (mpd : Mpd ℚ) : OrderSide → Matching ℚ
  | .ask => marketAsk mpd
  | .bid => marketBid mpd

theorem executeLimitOrder_eq (mpd : Mpd ℚ) (real : Bool) (e : Execution ℚ) :
    executeLimitOrder mpd real e = (limitMatching mpd e.taker.side).execute mpd real e := by
  unfold executeLimitOrder limitMatching
  cases e.taker.side <;> rfl

theorem executeMarketOrder_eq (mpd : Mpd ℚ) (real : Bool) (e : Execution ℚ) :
    executeMarketOrder mpd real e = (marketMatching mpd e.taker.side).execute mpd real e := by
  unfold executeMarketOrder marketMatching
  cases e.taker.side <;> rfl

section Sides

variable {round : ℚ → ℚ} (side : OrderSide)

theorem limitMatching_side (mpd : Mpd ℚ) :
    (limitMatching mpd side).side = side := by cases side <;> rfl

theorem marketMatching_side (mpd : Mpd ℚ) : (marketMatching mpd side).side = side := by
  cases side <;> rfl

theorem local_limitMatching (mpd : Mpd ℚ) : (limitMatching mpd side).Local := by
  cases side
  · exact local_limitAsk mpd
  · exact local_limitBid mpd

theorem local_marketMatching (mpd : Mpd ℚ) : (marketMatching mpd side).Local := by
  cases side
  · exact local_marketAsk mpd
  · exact local_marketBid mpd

variable (round) in
theorem fair_limitMatching : (limitMatching (ratMpd round) side).Fair round := by
  cases side
  · exact (greedy_limitAsk round).toFair
  · exact (greedy_limitBid round).toFair

theorem fair_marketMatching (hr : RoundsDown round) :
    (marketMatching (ratMpd round) side).Fair round := by
  cases side
  · exact (greedy_marketAsk round).toFair
  · exact fair_marketBid hr

end Sides

end ViabtcExchange
