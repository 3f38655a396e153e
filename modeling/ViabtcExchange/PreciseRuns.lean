import ViabtcExchange.Exactness
import ViabtcExchange.Precision

/-!
# Runs without a lost digit

`market_create` checks that prec_save has room for the products of two numbers of a market, and the
engine multiplies three where a fee is taken in money.

**Theorem (`precise_run`).** In a run of orders in whole ticks, on balances of less than 34 digits,
whose fees in money and whose updates are in whole units, all amounts are in whole units, matching
is exact, every call changes the balances by its amount, and no balance is stored as zero.
-/

namespace ViabtcExchange

/-! ## The loop -/

section Loop

variable {dictAsset : Dict String AssetType} {stock money : AssetType} {c : MarketConf ℚ}
  {x x' : Matching ℚ} {T : Order ℚ → Prop} {n i : ℕ} {ids : List ℕ} {e₀ e : Execution ℚ}
  {t : Terms ℚ} {real : Bool}

/-- The calls of the loop that are still to come. -/
def Execution.ahead (x : Matching ℚ) (ids : List ℕ) (e : Execution ℚ) : List (BalanceCall ℚ) :=
  planCalls decimal128 x e.market e.taker (x.plan decimal128 e.market ids e.taker).1

/-- The loop on its way, in whole ticks. -/
structure TickWalk (dictAsset : Dict String AssetType) (x x' : Matching ℚ) (T : Order ℚ → Prop)
    (n : ℕ) (e₀ : Execution ℚ) (ids : List ℕ) (e : Execution ℚ) : Prop where
  walk : Walk n x e₀ ids e
  indexed : Indexed False (Rests dictAsset e₀.market) n e.market
  taker : T e.taker
  fees : ∀ p ∈ (x'.plan exactDecimal e.market ids e.taker).1, MoneyFees dictAsset x' e.market p.2
  ledger : e.statics.ledger.callAll decimal128 (e.ahead x ids) =
    e₀.statics.ledger.callAll decimal128
      (e₀.ahead x (e₀.market.book x.side.opposite))
  rest : (x.plan decimal128 e.market ids e.taker).2 =
    (x.plan decimal128 e₀.market (e₀.market.book x.side.opposite) e₀.taker).2

theorem TickWalk.met (h : TickWalk dictAsset x x' T n e₀ (i :: ids) e) :
    Met dictAsset x e.market (e.market.order i) := by
  obtain ⟨hi, hleft, hprice⟩ := h.walk.maker
  exact ⟨(h.indexed.each i hi).congr h.walk.conf,
    h.walk.book.wf.side _ i (h.walk.mem i List.mem_cons_self), hleft, hprice⟩

theorem MoneyFees.congr {m m' : Market ℚ} (h : MoneyFees dictAsset x' m t)
    (hagrees : Agrees dictAsset stock money c x x' T) (hconf : m'.conf = m.conf) :
    MoneyFees dictAsset x' m' t := by
  have hmoney : m'.money = m.money := congrArg MarketConf.money hconf
  unfold MoneyFees
  rw [hmoney, hagrees.acts'.bidFeeAsset hconf]
  exact h

theorem TickWalk.step (hagrees : Agrees dictAsset stock money c x x' T)
    (hx : x.Fair (roundDown 34)) (hc : e₀.market.conf = c)
    (hconf : Engine.ConfOk dictAsset c stock money)
    (h : TickWalk dictAsset x x' T n e₀ (i :: ids) e)
    (hleft : decimal128.cmp e.taker.left decimal128.zero ≠ 0)
    (hq : x.quote e.market e.taker (e.market.order i) = some (.trade t)) :
    TickWalk dictAsset x x' T n e₀ ids (executeTrade decimal128 real x e i t) := by
  have hc' : e.market.conf = c := h.walk.conf.trans hc
  have hconf' : Engine.ConfOk dictAsset e.market.conf stock money := by rw [hc']; exact hconf
  have hmaker := h.met
  have htaker := h.walk.left_pos hleft
  have hleft' : exactDecimal.cmp e.taker.left exactDecimal.zero ≠ 0 := by simpa using hleft
  have hquote := hagrees.quote hc' hconf' h.taker hmaker.rests hmaker.side htaker hmaker.left
    hmaker.price fun t hq => h.fees (i, t)
      (by rw [plan_of_trade hleft' hq]; exact List.mem_cons_self)
  rw [hq] at hquote
  obtain ⟨-, htakers, hnext, hmakers, hrests⟩ := hagrees.trade hc' hconf' h.taker hmaker.rests
    hmaker.side htaker hmaker.left hmaker.price hquote.symm
  have hio := h.walk.maker.1
  have hni := (List.nodup_cons.mp h.walk.nodup).1
  have hwalk := h.walk.step roundsDown_roundDown hx real hleft hq
  have htraded := executeTrade_market (roundDown 34) real x e t h.walk.book.wf hio
  have hzero : (x.fillMaker decimal128 e.market (e.market.order i) t).left = 0 →
      (x.fillMaker decimal128 e.market (e.market.order i) t).freeze = 0 := fun h0 => by
    rw [hrests.freeze]
    unfold restFreeze
    cases (x.fillMaker decimal128 e.market (e.market.order i) t).side <;> simp [h0]
  have hquoted := h.walk.quoted hx hleft hq
  have hleft0 : 0 ≤ (x.fillMaker decimal128 e.market (e.market.order i) t).left :=
    roundDown_nonneg 34 (sub_nonneg.mpr hquoted.amount_le)
  have hindexed := h.indexed.traded hwalk.book htraded (sameFace_fillMaker _ x _ t) (fun h0 => by
    rw [orderStuck_eq_false (hzero h0).le]
    exact Bool.false_ne_true) hleft0 fun _ => hrests.congr h.walk.conf.symm
  have horder : ∀ j ∈ ids, (executeTrade decimal128 real x e i t).market.order j =
      e.market.order j := fun j hj => by
    rw [htraded.order, Function.update_of_ne fun hji : j = i => hni (hji ▸ hj)]
  obtain ⟨hplan, hcalls⟩ := plan_trade real hagrees.acts h.walk.book.wf hio hni hleft hq
  refine ⟨hwalk, hindexed.1, hnext, ?_, ?_, ?_⟩
  · have hfees := h.fees
    rw [plan_of_trade hleft' hquote.symm] at hfees
    obtain ⟨-, hfees⟩ := List.forall_mem_cons.mp hfees
    have hplan := @plan_congr _ exactDecimal x' _ _
      (executeTrade decimal128 real x e i t).taker _ hagrees.acts' htraded.conf horder
    obtain ⟨htrades, -⟩ := hagrees.plan_alike ids (m := e.market) htakers
    intro p hp
    rw [hplan] at hp
    refine (hfees p ?_).congr hagrees htraded.conf
    rw [← htrades]
    exact hp
  · have hzero' : decimal128.cmp (x.fillMaker decimal128 e.market (e.market.order i) t).left
        decimal128.zero = 0 →
        ¬decimal128.cmp (x.fillMaker decimal128 e.market (e.market.order i) t).freeze
          decimal128.zero > 0 := fun h0 => by
      rw [hzero (by simpa using h0)]
      simp
    have hledger := h.ledger
    unfold Execution.ahead at hledger ⊢
    rw [hplan, planCalls_cons, Ledger.callAll_append] at hledger
    rw [executeTrade_ledger decimal128 real x e i t hzero', hcalls]
    exact hledger
  · have hrest := h.rest
    rw [hplan] at hrest
    exact hrest

/-- What the loop leaves. -/
structure LoopEnd (dictAsset : Dict String AssetType) (x : Matching ℚ) (T : Order ℚ → Prop) (n : ℕ)
    (e e' : Execution ℚ) : Prop where
  indexed : Indexed False (Rests dictAsset e.market) n e'.market
  taker : T e'.taker
  face : SameFace e.taker e'.taker
  conf : e'.market.conf = e.market.conf
  ledger : e'.statics.ledger = e.statics.ledger.callAll decimal128
    (e.ahead x (e.market.book x.side.opposite))
  rest : e'.taker = (x.plan decimal128 e.market (e.market.book x.side.opposite) e.taker).2

theorem loop_end (hagrees : Agrees dictAsset stock money c x x' T) (hx : x.Fair (roundDown 34))
    (hc : e₀.market.conf = c) (hconf : Engine.ConfOk dictAsset c stock money)
    (h : Indexed False (Rests dictAsset e₀.market) n e₀.market) (hT : T e₀.taker)
    (hfees : ∀ p ∈ (x'.plan exactDecimal e₀.market (e₀.market.book x.side.opposite) e₀.taker).1,
      MoneyFees dictAsset x' e₀.market p.2)
    (hrun : x.execute decimal128 real e₀ = some e) : LoopEnd dictAsset x T n e₀ e := by
  have hstart : TickWalk dictAsset x x' T n e₀ (e₀.market.book x.side.opposite) e₀ :=
    ⟨walk_start h.book (hagrees.sizes.nonneg hT), h, hT, hfees, rfl, rfl⟩
  obtain ⟨ids, hend, hstopped⟩ := executeLoop_rule decimal128 real x
    (P := TickWalk dictAsset x x' T n e₀)
    (fun i ids e t h hleft hq => h.step hagrees hx hc hconf hleft hq) hstart hrun
  have hledger := hend.ledger
  have hrest := hend.rest
  unfold Execution.ahead at hledger
  rw [plan_of_stopped hstopped] at hledger hrest
  exact ⟨hend.indexed, hend.taker, hend.walk.face, hend.walk.conf, hledger, hrest⟩

end Loop

/-! ## Takers that were let in -/

section Takers

variable {dictAsset : Dict String AssetType} {stock money : AssetType} {c : MarketConf ℚ}
  {s : Statics ℚ} {m : Market ℚ} {userId : ℕ} {side : OrderSide}
  {amount price takerFee makerFee : ℚ} {source : String} {taker : Order ℚ}

/-- A limit order on its way through the book. -/
def PreciseLimit (dictAsset : Dict String AssetType) (c : MarketConf ℚ) : OrderSide → Order ℚ → Prop
  | .ask => FeeAsk dictAsset c
  | .bid => fun o => LimitBidTaker (ceiling dictAsset) c o ∧ IsFee c.feePrec o.takerFee

/-- A market order on its way through the book. -/
def PreciseMarket (dictAsset : Dict String AssetType) (c : MarketConf ℚ) (money : AssetType) :
    OrderSide → Order ℚ → Prop
  | .ask => FeeAsk dictAsset c
  | .bid => fun o => MarketBidTaker (ceiling dictAsset) c money o ∧ IsFee c.feePrec o.takerFee

theorem agrees_limit : Agrees dictAsset stock money c (limitMatching decimal128 side)
    (limitMatching exactDecimal side) (PreciseLimit dictAsset c side) := by
  cases side with
  | ask => exact agrees_limitAsk
  | bid => exact agrees_limitBid

theorem agrees_market : Agrees dictAsset stock money c (marketMatching decimal128 side)
    (marketMatching exactDecimal side) (PreciseMarket dictAsset c money side) := by
  cases side with
  | ask => exact agrees_marketAsk
  | bid => exact agrees_marketBid

/-- What is available fits the context. -/
theorem lt_ceiling_of_available {asset : String} {require : ℚ}
    (hbelow : Below s.ledger.dictAsset s.ledger.dictBalance)
    (havail : hasAvailable decimal128 s userId asset require = true) :
    require < ceiling s.ledger.dictAsset asset :=
  (le_of_hasAvailable havail).trans_lt (hbelow.balance_lt ⟨userId, .available, asset⟩)

variable (makerFee source) in
theorem preciseLimit_start (hbelow : Below s.ledger.dictAsset s.ledger.dictBalance)
    (hamount : 0 < amount) (hprice : 0 < price) (hgrid : OnGrid m.stockPrec amount)
    (hpgrid : OnGrid m.moneyPrec price) (hfee : IsFee m.feePrec takerFee)
    (havail : hasAvailable decimal128 s userId (m.giveAsset side)
      (limitRequire decimal128 side amount price) = true) :
    PreciseLimit s.ledger.dictAsset m.conf side
      (startLimit decimal128 s m userId side amount price takerFee makerFee source).taker := by
  have hlt := lt_ceiling_of_available hbelow havail
  cases side with
  | ask =>
    have hlt : amount < ceiling s.ledger.dictAsset m.stock := hlt
    exact ⟨⟨rfl, hgrid, hamount.le, hlt.le⟩, hfee⟩
  | bid =>
    refine ⟨⟨rfl, hgrid, hamount.le, hpgrid, hprice, ?_⟩, hfee⟩
    have hcost : amount * price < ceiling s.ledger.dictAsset m.money := lt_of_roundDown_lt hlt
    rw [mul_comm] at hcost
    exact hcost.le

variable (source) in
theorem preciseMarket_start (hbelow : Below s.ledger.dictAsset s.ledger.dictBalance)
    (hconf : Engine.ConfOk dictAsset m.conf stock money) (hamount : 0 < amount)
    (hgrid : OnGrid m.stockPrec amount) (hfee : IsFee m.feePrec takerFee)
    (havail : hasAvailable decimal128 s userId (m.giveAsset side) amount = true) :
    PreciseMarket s.ledger.dictAsset m.conf money side
      (startMarket decimal128 s m userId side amount takerFee source).taker := by
  have hlt := lt_ceiling_of_available hbelow havail
  cases side with
  | ask =>
    have hlt : amount < ceiling s.ledger.dictAsset m.stock := hlt
    exact ⟨⟨rfl, hgrid, hamount.le, hlt.le⟩, hfee⟩
  | bid =>
    have hlt : amount < ceiling s.ledger.dictAsset m.money := hlt
    have hdeal : m.stockPrec + m.moneyPrec ≤ money.precSave := hconf.deal
    exact ⟨⟨rfl, hgrid.mono (by omega), hamount.le, hlt.le⟩, hfee⟩

/-- What is left of a limit order rests as it should. -/
theorem PreciseLimit.rests (hconf : Engine.ConfOk dictAsset m.conf stock money)
    (hT : PreciseLimit dictAsset m.conf side taker) (hside : taker.side = side)
    (hprice : OnGrid m.moneyPrec taker.price) (hfee : IsFee m.feePrec taker.makerFee) :
    restFreeze decimal128 taker = restFreeze exactDecimal taker ∧
      Rests dictAsset m { taker with freeze := restFreeze decimal128 taker } := by
  cases side with
  | ask =>
    have hfreeze : ∀ mpd : Mpd ℚ, restFreeze mpd taker = taker.left := fun mpd => by
      simp [restFreeze, hside]
    rw [hfreeze, hfreeze]
    refine ⟨rfl, ⟨hT.1.grid, hprice, (hfreeze exactDecimal).symm, hfee⟩, ?_⟩
    rw [show ({ taker with freeze := taker.left } : Order ℚ).side = .ask from hside]
    exact hT.1.le
  | bid =>
    have hfreeze : ∀ round, restFreeze (ratMpd round) taker = round (taker.price * taker.left) :=
      fun round => by simp [restFreeze, hside]
    have hexact : restFreeze decimal128 taker = restFreeze exactDecimal taker := by
      rw [hfreeze, hfreeze]
      refine held (a := m.money) (cost_grid hconf hprice hT.1.grid)
        (mul_nonneg hT.1.pricePos.le hT.1.nonneg) hT.1.le
    refine ⟨hexact, ⟨hT.1.grid, hprice, hexact, hfee⟩, ?_⟩
    rw [show ({ taker with freeze := restFreeze decimal128 taker } : Order ℚ).side =
      .bid from hside]
    change restFreeze decimal128 taker ≤ ceiling dictAsset m.money
    rw [hexact, hfreeze]
    exact hT.1.le

end Takers

/-! ## Requests -/

section Requests

variable {stock money : AssetType} {s : Statics ℚ} {m m' : Market ℚ} {userId id n : ℕ}
  {side : OrderSide} {amount price takerFee makerFee : ℚ} {source : String} {o : Outcome ℚ}
  {real : Bool} {dictAsset : Dict String AssetType}

/-- The trades an order is going to make take their fees in money in whole units. -/
def FeesSaved (dictAsset : Dict String AssetType) (x : Matching ℚ) (m : Market ℚ)
    (taker : Order ℚ) : Prop :=
  ∀ p ∈ (x.plan exactDecimal m (m.book x.side.opposite) taker).1, MoneyFees dictAsset x m p.2

/-- What a request makes of its market and of the ledger, by the calls `cs`. -/
structure Settled (m : Market ℚ) (l : Ledger ℚ) (o : Outcome ℚ) (cs : List (BalanceCall ℚ)) : Prop where
  indexed : Indexed False (Rests l.dictAsset o.market) o.statics.orderIdStart o.market
  conf : o.market.conf = m.conf
  ledger : o.statics.ledger = l.callAll decimal128 cs
  whole : ∀ c ∈ cs, c.Whole l.dictAsset

theorem Indexed.congr (h : Indexed False (Rests dictAsset m) n m') (hconf : m'.conf = m.conf) :
    Indexed False (Rests dictAsset m') n m' :=
  ⟨h.book, h.left, fun i hi => (h.each i hi).congr hconf, False.elim⟩

theorem met_of_indexed {x : Matching ℚ} (h : Indexed False (Rests dictAsset m) n m) :
    ∀ i ∈ m.book x.side.opposite, Met dictAsset x m (m.order i) := fun i hi =>
  ⟨h.each i (h.book.wf.mem _ i hi), h.book.wf.side _ i hi, h.book.left _ i hi, h.book.price _ i hi⟩

/-- The numbers of a limit order in whole ticks. -/
structure LimitTicks (m : Market ℚ) (amount price takerFee makerFee : ℚ) : Prop where
  amount : OnGrid m.stockPrec amount
  price : OnGrid m.moneyPrec price
  takerFee : IsFee m.feePrec takerFee
  makerFee : IsFee m.feePrec makerFee

/-- The end of a limit order: it is filled, or comes to rest. -/
theorem settled_rest {l : Ledger ℚ} {e : Execution ℚ} {cs : List (BalanceCall ℚ)}
    (hconf : Engine.ConfOk l.dictAsset m.conf stock money)
    (h : Indexed False (Rests l.dictAsset m) n e.market) (hsame : e.market.conf = m.conf)
    (hledger : e.statics.ledger = l.callAll decimal128 cs) (hcs : ∀ c ∈ cs, c.Whole l.dictAsset)
    (hid : n < e.taker.id) (htype : e.taker.type = .limit) (hmarket : e.taker.market = m.name)
    (hleft0 : 0 ≤ e.taker.left)
    (hrests : Rests l.dictAsset m { e.taker with freeze := restFreeze decimal128 e.taker })
    (hn : e.statics.orderIdStart = e.taker.id)
    (hbook : BookOk e.taker.id (restLimitOrder decimal128 real e).market) :
    Settled m l (restLimitOrder decimal128 real e) (cs ++ restCalls decimal128 m e.taker) := by
  have hn' : (restLimitOrder decimal128 real e).statics.orderIdStart = e.taker.id :=
    (congrArg Prod.fst (restLimitOrder_fixed decimal128 real e)).trans hn
  unfold restCalls
  by_cases hleft : e.taker.left = 0
  · obtain ⟨hm, hs⟩ := restLimitOrder_filled decimal128 rfl real hleft
    have hl : (restLimitOrder decimal128 real e).statics.silent.ledger =
        e.statics.silent.ledger := by
      rw [hs]
    rw [Statics.silent_ledger, Statics.silent_ledger] at hl
    rw [if_pos (by simpa using hleft), List.append_nil]
    refine ⟨?_, ?_, hl.trans hledger, hcs⟩
    · rw [hm, hn']
      exact (h.congr hsame).mono hid.le
    · rw [hm]
      exact hsame
  · obtain ⟨hput, hs⟩ := restLimitOrder_rests (roundDown 34) real h.book.wf hid htype
      (hmarket.trans (congrArg MarketConf.name hsame).symm) hleft
    have hpos : 0 < e.taker.left := lt_of_le_of_ne hleft0 (Ne.symm hleft)
    have hconf' : (restLimitOrder decimal128 real e).market.conf = m.conf := hput.conf.trans hsame
    have hl : (restLimitOrder decimal128 real e).statics.ledger =
        e.statics.ledger.call decimal128 (e.market.freezeCall decimal128 e.taker) :=
      congrArg (fun s : Statics ℚ => s.ledger) hs
    have hcall : e.market.freezeCall decimal128 e.taker = m.freezeCall decimal128 e.taker := by
      unfold Market.freezeCall
      rw [giveAsset_eq_of_conf hsame]
    rw [if_neg (by simpa using hleft)]
    refine ⟨?_, hconf', ?_, fun c hc => ?_⟩
    · rw [hn']
      exact (h.rested hbook hput hid hpos hrests).congr hconf'
    · rw [hl, hcall, Ledger.callAll_append, ← hledger]
      rfl
    · rcases List.mem_append.mp hc with hc | hc
      · exact hcs c hc
      · obtain rfl := List.mem_singleton.mp hc
        exact hrests.freeze_grid hconf

/-- A limit order is matched, and rests, as in exact arithmetic. -/
theorem precise_putLimit (hbelow : Below s.ledger.dictAsset s.ledger.dictBalance)
    (hconf : Engine.ConfOk s.ledger.dictAsset m.conf stock money)
    (h : Indexed False (Rests s.ledger.dictAsset m) s.orderIdStart m) (hamount : 0 < amount)
    (hprice : 0 < price) (hticks : LimitTicks m amount price takerFee makerFee)
    (hfees : FeesSaved s.ledger.dictAsset (limitMatching exactDecimal side) m
      (startLimit decimal128 s m userId side amount price takerFee makerFee source).taker)
    (hput : marketPutLimitOrder decimal128 real s m userId side amount price takerFee makerFee
      source = some o) (hret : o.ret = 0) :
    let taker := (startLimit decimal128 s m userId side amount price takerFee makerFee source).taker
    let ids := m.book side.opposite
    let rest := ((limitMatching decimal128 side).plan decimal128 m ids taker).2
    Settled m s.ledger o (limitCalls decimal128 (limitMatching decimal128 side) m ids taker) ∧
      PlansExactly (limitMatching decimal128 side) (limitMatching exactDecimal side) m ids taker ∧
      restFreeze decimal128 rest = restFreeze exactDecimal rest := by
  have hbook := (bookOk_putLimit roundsDown_roundDown h.book hamount hprice hput).2.2
  rcases marketPutLimitOrder_cases hput with ⟨ret, hneg, rfl⟩ | ⟨havail, -, e, hrun, rfl⟩
  · exact absurd hret hneg.ne
  set e₀ := startLimit decimal128 s m userId side amount price takerFee makerFee source with he₀
  intro taker ids rest
  have hagrees : Agrees s.ledger.dictAsset stock money m.conf (limitMatching decimal128 side)
      (limitMatching exactDecimal side) (PreciseLimit s.ledger.dictAsset m.conf side) :=
        agrees_limit
  have hside : (limitMatching decimal128 side).side = side := limitMatching_side side _
  have hside' : (limitMatching exactDecimal side).side = side := limitMatching_side side _
  have hT : PreciseLimit s.ledger.dictAsset m.conf side taker :=
    preciseLimit_start makerFee source hbelow hamount hprice hticks.amount hticks.price
      hticks.takerFee havail
  have hmet := met_of_indexed (x := limitMatching decimal128 side) h
  unfold FeesSaved at hfees
  rw [hside'] at hfees
  rw [hside] at hmet
  obtain ⟨hexactly, hTrest, hcalls⟩ := hagrees.plan rfl hconf hmet hT hfees
  change PreciseLimit s.ledger.dictAsset m.conf side rest at hTrest
  have hid : e.taker.id = s.orderIdStart + 1 :=
    (executeLimitOrder_end roundsDown_roundDown real (e := e₀) h.book hamount.le hrun).face.id
  have hstart : e.statics.orderIdStart = s.orderIdStart + 1 :=
    congrArg Prod.fst (executeLimitOrder_fixed hrun)
  rw [executeLimitOrder_eq] at hrun
  have hfee : e.taker.makerFee = makerFee := execute_makerFee hrun
  have hend := loop_end hagrees (fair_limitMatching (roundDown 34) side) rfl hconf h hT
    (by rw [hside]; exact hfees) hrun
  obtain ⟨hindexed, -, hface, hconf', hledger, htaker⟩ := hend
  rw [hside] at htaker hledger
  change e.taker = rest at htaker
  have hrest : restFreeze decimal128 rest = restFreeze exactDecimal rest ∧
      Rests s.ledger.dictAsset m { rest with freeze := restFreeze decimal128 rest } := by
    rw [← htaker] at hTrest ⊢
    exact hTrest.rests hconf hface.side (hface.price ▸ hticks.price) (hfee ▸ hticks.makerFee)
  refine ⟨?_, hexactly, hrest.1⟩
  rw [← htaker] at hrest
  have hleft0 : 0 ≤ e.taker.left := by
    rw [htaker]
    exact hagrees.sizes.nonneg hTrest
  have hn : (restLimitOrder decimal128 real e).statics.orderIdStart = e.taker.id :=
    (congrArg Prod.fst (restLimitOrder_fixed decimal128 real e)).trans (hstart.trans hid.symm)
  rw [hn] at hbook
  change Settled m s.ledger _ (_ ++ restCalls decimal128 m rest)
  rw [← htaker]
  exact settled_rest hconf hindexed hconf' hledger hcalls (by rw [hid]; exact Nat.lt_succ_self _)
    hface.type hface.market hleft0 hrest.2 (hstart.trans hid.symm) hbook

/-- A market order is matched as in exact arithmetic. -/
theorem precise_putMarket (hbelow : Below s.ledger.dictAsset s.ledger.dictBalance)
    (hconf : Engine.ConfOk s.ledger.dictAsset m.conf stock money)
    (h : Indexed False (Rests s.ledger.dictAsset m) s.orderIdStart m) (hamount : 0 < amount)
    (hgrid : OnGrid m.stockPrec amount) (hfee : IsFee m.feePrec takerFee)
    (hfees : FeesSaved s.ledger.dictAsset (marketMatching exactDecimal side) m
      (startMarket decimal128 s m userId side amount takerFee source).taker)
    (hput : marketPutMarketOrder decimal128 real s m userId side amount takerFee source = some o)
    (hret : o.ret = 0) :
    let taker := (startMarket decimal128 s m userId side amount takerFee source).taker
    let ids := m.book side.opposite
    Settled m s.ledger o (marketCalls decimal128 (marketMatching decimal128 side) m ids taker) ∧
      PlansExactly (marketMatching decimal128 side) (marketMatching exactDecimal side) m ids taker := by
  have hle := (bookOk_putMarket roundsDown_roundDown h.book hamount hput).1
  rcases marketPutMarketOrder_cases hput with ⟨ret, hneg, rfl⟩ | ⟨havail, e, hrun, rfl⟩
  · exact absurd hret hneg.ne
  set e₀ := startMarket decimal128 s m userId side amount takerFee source with he₀
  intro taker ids
  have hagrees : Agrees s.ledger.dictAsset stock money m.conf (marketMatching decimal128 side)
      (marketMatching exactDecimal side) (PreciseMarket s.ledger.dictAsset m.conf money side) :=
    agrees_market
  have hside : (marketMatching decimal128 side).side = side := marketMatching_side side _
  have hside' : (marketMatching exactDecimal side).side = side := marketMatching_side side _
  have hT : PreciseMarket s.ledger.dictAsset m.conf money side taker :=
    preciseMarket_start source hbelow hconf hamount hgrid hfee havail
  have hmet := met_of_indexed (x := marketMatching decimal128 side) h
  unfold FeesSaved at hfees
  rw [hside'] at hfees
  rw [hside] at hmet
  obtain ⟨hexactly, -, hcalls⟩ := hagrees.plan rfl hconf hmet hT hfees
  rw [executeMarketOrder_eq] at hrun
  obtain ⟨hindexed, -, -, hconf', hledger, -⟩ := loop_end hagrees
    (fair_marketMatching side roundsDown_roundDown) rfl hconf h hT (by rw [hside]; exact hfees) hrun
  rw [hside] at hledger
  have hclosed : (closeMarketOrder real e).statics.ledger = e.statics.ledger := by
    cases real <;> rfl
  exact ⟨⟨(hindexed.congr hconf').mono hle, hconf', hclosed.trans hledger, hcalls⟩, hexactly⟩

variable (real) in
/-- What is released of an order that is cancelled is in whole units. -/
theorem precise_cancel (hconf : Engine.ConfOk s.ledger.dictAsset m.conf stock money)
    (h : Indexed False (Rests s.ledger.dictAsset m) s.orderIdStart m) (hid : id ∈ m.orders) :
    ∃ cs, Settled m s.ledger (marketCancelOrder decimal128 real s m id) cs := by
  obtain ⟨hn, hconf', -⟩ := bookOk_cancel (roundDown 34) real s h.book hid
  have hindexed : Indexed False (Rests s.ledger.dictAsset m)
      (marketCancelOrder decimal128 real s m id).statics.orderIdStart
      (marketCancelOrder decimal128 real s m id).market := by
    rw [hn]
    show Indexed _ _ _ (marketCancelOrder (ratMpd (roundDown 34)) real s m id).market
    exact (indexed_cancel real h hid False.elim).1
  have haccounts : (marketCancelOrder decimal128 real s m id).statics.accounts =
      (if m.frozen decimal128 id then s.call decimal128 (m.unfreezeCall id) else s).accounts := by
    unfold marketCancelOrder
    dsimp only
    rw [accounts_orderFinish]
    cases real <;> split_ifs <;> rfl
  have hledger := congrArg Prod.fst haccounts
  by_cases hfrozen : m.frozen decimal128 id = true
  · rw [if_pos hfrozen] at hledger
    refine ⟨[m.unfreezeCall id], hindexed.congr hconf', hconf', hledger, fun c hc => ?_⟩
    obtain rfl := List.mem_singleton.mp hc
    exact (h.each id hid).freeze_grid hconf
  · rw [if_neg hfrozen] at hledger
    exact ⟨[], hindexed.congr hconf', hconf', hledger, fun c hc => by cases hc⟩

/-- An update in whole units is a call for the amount of its change. -/
theorem precise_change {l : Ledger ℚ} {a : String} {change : ℚ} {b : Dict BalanceKey ℚ}
    (hgrid : OnGrid (assetPrec l.dictAsset a) change)
    (hrun : applyChange decimal128 l userId a change = some b) :
    ∃ c : BalanceCall ℚ, c.Whole l.dictAsset ∧ (l.call decimal128 c).dictBalance = b := by
  have habs : OnGrid (assetPrec l.dictAsset a) (roundDown 34 |change|) := by
    refine OnGrid.roundDown ?_ 34
    rcases abs_choice change with h | h <;> rw [h]
    · exact hgrid
    · exact hgrid.neg
  have hcall : ∀ c : BalanceCall ℚ, c.run decimal128 l.dictAsset l.dictBalance = some b →
      (l.call decimal128 c).dictBalance = b := fun c hc => by
    unfold Ledger.call
    rw [hc]
  unfold applyChange at hrun
  simp only [ratMpd_abs] at hrun
  split_ifs at hrun
  · exact ⟨.add userId .available a (roundDown 34 |change|), habs, hcall _ hrun⟩
  · exact ⟨.sub userId .available a (roundDown 34 |change|), habs, hcall _ hrun⟩

end Requests

/-! ## Runs -/

namespace Engine

variable {real : Bool} {e₀ e e' : Engine ℚ} {op : Op ℚ} {dictAsset : Dict String AssetType}
  {confs : List (MarketConf ℚ)} {ops : List (Op ℚ)}

/-- A request in whole ticks, on balances that fit the context. -/
def Ticks (e : Engine ℚ) (op : Op ℚ) : Prop :=
  Below e.statics.ledger.dictAsset e.statics.ledger.dictBalance ∧
    match op with
    | .limitOrder args => ∀ m, e.dictMarket.find args.market = some m →
      OnGrid m.stockPrec args.amount ∧ OnGrid m.moneyPrec args.price ∧
        OnGrid m.feePrec args.takerFee ∧ OnGrid m.feePrec args.makerFee
    | .marketOrder args => ∀ m, e.dictMarket.find args.market = some m →
      OnGrid m.stockPrec args.amount ∧ OnGrid m.feePrec args.takerFee
    | _ => True

/-- The fees in money a request is going to pay, and the change of an update, are in whole units. -/
def Saved (e : Engine ℚ) : Op ℚ → Prop
  | .updateBalance args _ _ => OnGrid (assetPrec e.statics.ledger.dictAsset args.asset) args.change
  | .limitOrder args => ∀ m, e.dictMarket.find args.market = some m →
    FeesSaved e.statics.ledger.dictAsset (limitMatching exactDecimal args.side) m
      (startLimit decimal128 e.statics m args.userId args.side args.amount args.price args.takerFee
        args.makerFee args.source).taker
  | .marketOrder args => ∀ m, e.dictMarket.find args.market = some m →
    FeesSaved e.statics.ledger.dictAsset (marketMatching exactDecimal args.side) m
      (startMarket decimal128 e.statics m args.userId args.side args.amount args.takerFee
        args.source).taker
  | _ => True

/-- An order is matched, and rests, as in exact arithmetic. -/
def Matches (e : Engine ℚ) : Op ℚ → Prop
  | .limitOrder args => ∀ m, e.dictMarket.find args.market = some m →
    let taker := (startLimit decimal128 e.statics m args.userId args.side args.amount args.price
      args.takerFee args.makerFee args.source).taker
    let x := limitMatching decimal128 args.side
    let rest := (x.plan decimal128 m (m.book args.side.opposite) taker).2
    PlansExactly x (limitMatching exactDecimal args.side) m (m.book args.side.opposite) taker ∧
      restFreeze decimal128 rest = restFreeze exactDecimal rest
  | .marketOrder args => ∀ m, e.dictMarket.find args.market = some m →
    PlansExactly (marketMatching decimal128 args.side) (marketMatching exactDecimal args.side) m
      (m.book args.side.opposite) (startMarket decimal128 e.statics m args.userId args.side
        args.amount args.takerFee args.source).taker
  | _ => True

/-- The calls of an accepted request. Those of an update are not recorded. -/
def Makes (e e' : Engine ℚ) (cs : List (BalanceCall ℚ)) : Op ℚ → Prop
  | .updateBalance _ _ _ =>
    e'.statics.ledger.dictBalance = (e.statics.ledger.callAll decimal128 cs).dictBalance
  | _ => e'.statics.ledger = e.statics.ledger.callAll decimal128 cs

/-- No digit is lost in an accepted request. -/
structure Precise (e : Engine ℚ) (op : Op ℚ) (e' : Engine ℚ) : Prop where
  matching : e.Matches op
  calls : ∃ cs, e.Makes e' cs op ∧ (∀ c ∈ cs, c.Whole e.statics.ledger.dictAsset) ∧
    ∀ pre c post, cs = pre ++ c :: post → (e.statics.ledger.callAll decimal128 pre).Posts c

/-- All amounts are in whole units. -/
structure InUnits (e₀ e : Engine ℚ) : Prop where
  sane : Sane e₀ e
  units : Units e.statics.ledger.dictAsset e.statics.ledger.dictBalance
  markets : e.Markets fun _ n m => Indexed False (Rests e₀.statics.ledger.dictAsset m) n m
  calls : ∀ c ∈ e.statics.ledger.calls, c.1.Whole e.statics.ledger.dictAsset

theorem mem_callAll {l : Ledger ℚ} {cs : List (BalanceCall ℚ)} {c : BalanceCall ℚ × Bool}
    (hc : c ∈ (l.callAll decimal128 cs).calls) : c ∈ l.calls ∨ c.1 ∈ cs := by
  induction cs generalizing l with
  | nil => exact Or.inl hc
  | cons d cs ih =>
    rcases ih hc with hc | hc
    · unfold Ledger.call at hc
      split at hc <;> rcases List.mem_append.mp hc with hc | hc
      · exact Or.inl hc
      · exact Or.inr (List.mem_singleton.mp hc ▸ List.mem_cons_self)
      · exact Or.inl hc
      · exact Or.inr (List.mem_singleton.mp hc ▸ List.mem_cons_self)
    · exact Or.inr (List.mem_cons_of_mem _ hc)

/-- A request that comes to calls for numbers of units. -/
theorem InUnits.settle {name : String} {m : Market ℚ} {o : Outcome ℚ} {cs : List (BalanceCall ℚ)}
    (h : InUnits e₀ e) (hsane : Sane e₀ (e.put name o.statics o.market))
    (hle : e.statics.orderIdStart ≤ o.statics.orderIdStart)
    (hset : Settled m e.statics.ledger o cs) :
    InUnits e₀ (e.put name o.statics o.market) ∧
      ∀ pre c post, cs = pre ++ c :: post → (e.statics.ledger.callAll decimal128 pre).Posts c := by
  obtain ⟨hindexed, -, hledger, hwhole⟩ := hset
  obtain ⟨hunits, hposts⟩ := units_callAll h.units hwhole
  have hassets : o.statics.ledger.dictAsset = e.statics.ledger.dictAsset := by
    rw [hledger, Ledger.callAll_dictAsset]
  refine ⟨⟨hsane, ?_, fun name' m' hm' => ?_, fun c hc => ?_⟩, hposts⟩
  · change Units o.statics.ledger.dictAsset o.statics.ledger.dictBalance
    rw [hassets, hledger]
    exact hunits
  · simp only [put, Dict.find_insert] at hm'
    split_ifs at hm'
    · obtain rfl := Option.some.inj hm'
      rw [← h.sane.assets]
      exact hindexed
    · exact (h.markets name' m' hm').mono hle
  · change c.1.Whole o.statics.ledger.dictAsset
    change c ∈ o.statics.ledger.calls at hc
    rw [hassets]
    rw [hledger] at hc
    exact (mem_callAll hc).elim (h.calls c) (hwhole c.1)

/-- An accepted request loses no digit. -/
theorem InUnits.step (hinit : Engine.init decimal128 dictAsset confs = some e₀) (h : InUnits e₀ e)
    (hticks : e.Ticks op) (hsaved : e.Saved op) (hstep : e.step decimal128 real op = some e') :
    InUnits e₀ e' ∧ e.Precise op e' := by
  have hsane := h.sane.step roundsDown_roundDown hstep
  have hcases := step_cases hstep
  obtain ⟨hbelow, hticks⟩ := hticks
  cases op with
  | updateBalance args padding now =>
    obtain ⟨s, d, hupd, rfl⟩ := hcases
    obtain ⟨b, hb, hl, -, -⟩ := updateUserBalance_cases hupd
    obtain ⟨c, hc, rfl⟩ := precise_change hsaved hb
    have hcs : ∀ c' ∈ [c], c'.Whole e.statics.ledger.dictAsset := fun c' hc' =>
      List.mem_singleton.mp hc' ▸ hc
    obtain ⟨hunits, hposts⟩ := units_callAll h.units hcs
    have hn : s.orderIdStart = e.statics.orderIdStart :=
      congrArg Prod.fst (updateUserBalance_fixed hupd)
    refine ⟨⟨hsane, ?_, fun name m hm => ?_, ?_⟩, trivial, [c], ?_, hcs, hposts⟩
    · change Units s.ledger.dictAsset s.ledger.dictBalance
      rw [hl]
      exact hunits
    · change Indexed False _ s.orderIdStart m
      rw [hn]
      exact h.markets name m hm
    · change ∀ c ∈ s.ledger.calls, c.1.Whole s.ledger.dictAsset
      rw [hl]
      exact h.calls
    · change s.ledger.dictBalance = _
      rw [hl]
      rfl
  | limitOrder args =>
    obtain ⟨m, o, hm, hok, hput, hret, rfl⟩ := hcases
    obtain ⟨hamount, hprice⟩ := limitOk_pos hok
    obtain ⟨stock, money, hconf⟩ := h.sane.confOk hinit hm
    obtain ⟨hgrid, hpgrid, htakerFee, hmakerFee⟩ := hticks m hm
    obtain ⟨htaker0, htaker1⟩ := feeRateOk_iff.mp hok.takerFee
    obtain ⟨hmaker0, hmaker1⟩ := feeRateOk_iff.mp hok.makerFee
    have hindexed := h.markets _ m hm
    rw [← h.sane.assets] at hindexed
    obtain ⟨hset, hexactly, hrest⟩ := precise_putLimit hbelow hconf hindexed hamount hprice
      ⟨hgrid, hpgrid, ⟨htakerFee, htaker0, htaker1.le⟩, ⟨hmakerFee, hmaker0, hmaker1.le⟩⟩
      (hsaved m hm) hput hret
    obtain ⟨hunits, hposts⟩ := h.settle hsane
      (bookOk_putLimit roundsDown_roundDown hindexed.book hamount hprice hput).1 hset
    refine ⟨hunits, fun m' hm' => ?_, _, hset.ledger, hset.whole, hposts⟩
    obtain rfl := Option.some.inj (hm.symm.trans hm')
    exact ⟨hexactly, hrest⟩
  | marketOrder args =>
    obtain ⟨m, o, hm, hok, hput, hret, rfl⟩ := hcases
    have hamount : 0 < args.amount := (ratMpd_cmp_pos _ _ _).mp hok.amount
    obtain ⟨stock, money, hconf⟩ := h.sane.confOk hinit hm
    obtain ⟨hgrid, htakerFee⟩ := hticks m hm
    obtain ⟨htaker0, htaker1⟩ := feeRateOk_iff.mp hok.takerFee
    have hindexed := h.markets _ m hm
    rw [← h.sane.assets] at hindexed
    obtain ⟨hset, hexactly⟩ := precise_putMarket hbelow hconf hindexed hamount hgrid
      ⟨htakerFee, htaker0, htaker1.le⟩ (hsaved m hm) hput hret
    obtain ⟨hunits, hposts⟩ := h.settle hsane
      (bookOk_putMarket roundsDown_roundDown hindexed.book hamount hput).1 hset
    refine ⟨hunits, fun m' hm' => ?_, _, hset.ledger, hset.whole, hposts⟩
    obtain rfl := Option.some.inj (hm.symm.trans hm')
    exact hexactly
  | cancelOrder args =>
    obtain ⟨m, hm, hmem, huser, rfl⟩ := hcases
    obtain ⟨stock, money, hconf⟩ := h.sane.confOk hinit hm
    have hindexed := h.markets _ m hm
    rw [← h.sane.assets] at hindexed
    obtain ⟨cs, hset⟩ := precise_cancel real hconf hindexed hmem
    obtain ⟨hunits, hposts⟩ := h.settle hsane
      (bookOk_cancel (roundDown 34) real e.statics hindexed.book hmem).1.ge hset
    exact ⟨hunits, trivial, cs, hset.ledger, hset.whole, hposts⟩
  | expire now =>
    subst hcases
    exact ⟨⟨hsane, h.units, h.markets, h.calls⟩, trivial, [], rfl, List.forall_mem_nil _,
      (units_callAll h.units (List.forall_mem_nil _)).2⟩

theorem inUnits_init (hinit : Engine.init decimal128 dictAsset confs = some e₀) :
    InUnits e₀ e₀ := by
  obtain ⟨hledger, -, -⟩ := init_spec hinit
  refine ⟨sane_init hinit, ?_, fun name m hm => ?_, ?_⟩
  · rw [hledger]
    exact ⟨fun k v hv => by simp at hv, fun k v hv => by simp at hv⟩
  · exact indexed_init (c := False) (P := Rests e₀.statics.ledger.dictAsset m) hinit name m hm
  · rw [hledger]
    exact List.forall_mem_nil _

/-- `market_create` with room for the product of three numbers. -/
def FeeRoom (dictAsset : Dict String AssetType) (conf : MarketConf ℚ) : Prop :=
  (conf.stockPrec + conf.moneyPrec + conf.feePrec : ℤ) ≤ assetPrec dictAsset conf.money

theorem InUnits.feeRoom (hinit : Engine.init decimal128 dictAsset confs = some e₀)
    (h : InUnits e₀ e) (hroom : ∀ conf ∈ confs, FeeRoom dictAsset conf) {name : String}
    {m : Market ℚ} (hm : e.dictMarket.find name = some m) :
    ∃ stock money, ConfOk e.statics.ledger.dictAsset m.conf stock money ∧
      m.stockPrec + m.moneyPrec + m.feePrec ≤ money.precSave := by
  obtain ⟨m₀, hm₀, hsame⟩ := Option.map_eq_some_iff.mp (h.sane.kept name m hm).conf
  obtain ⟨hledger, -, hmarkets⟩ := init_spec hinit
  obtain ⟨conf, hmem, -, hcreate⟩ := hmarkets name m₀ hm₀
  obtain ⟨stock, money, hconf⟩ := h.sane.confOk hinit hm
  refine ⟨stock, money, hconf, ?_⟩
  have hroom := hroom conf hmem
  unfold FeeRoom at hroom
  rw [← (marketCreate_spec hcreate).1, hsame, show dictAsset = e.statics.ledger.dictAsset by
    rw [h.sane.assets, hledger], assetPrec_eq hconf.findMoney] at hroom
  exact_mod_cast hroom

/-- The change of an update is in whole units. -/
def ChangeSaved (e : Engine ℚ) : Op ℚ → Prop
  | .updateBalance args _ _ => OnGrid (assetPrec e.statics.ledger.dictAsset args.asset) args.change
  | _ => True

/-- With that room the orders that are accepted are no exception. -/
theorem InUnits.saved_of_room (hinit : Engine.init decimal128 dictAsset confs = some e₀)
    (h : InUnits e₀ e) (hroom : ∀ conf ∈ confs, FeeRoom dictAsset conf) (hticks : e.Ticks op)
    (hupdate : e.ChangeSaved op) (hstep : e.step decimal128 real op = some e') : e.Saved op := by
  have hcases := step_cases hstep
  obtain ⟨hbelow, hticks⟩ := hticks
  cases op with
  | updateBalance args padding now => exact hupdate
  | limitOrder args =>
    obtain ⟨m, o, hm, hok, hput, hret, rfl⟩ := hcases
    intro m' hm'
    obtain rfl := Option.some.inj (hm.symm.trans hm')
    obtain ⟨hamount, hprice⟩ := limitOk_pos hok
    obtain ⟨stock, money, hconf, hfits⟩ := h.feeRoom hinit hroom hm
    obtain ⟨hgrid, hpgrid, htakerFee, -⟩ := hticks m hm
    obtain ⟨htaker0, htaker1⟩ := feeRateOk_iff.mp hok.takerFee
    have hindexed := h.markets _ m hm
    rw [← h.sane.assets] at hindexed
    rcases marketPutLimitOrder_cases hput with ⟨ret, hneg, rfl⟩ | ⟨havail, -⟩
    · exact absurd hret hneg.ne
    have hT := preciseLimit_start args.makerFee args.source hbelow hamount hprice hgrid hpgrid
      ⟨htakerFee, htaker0, htaker1.le⟩ havail
    have hmet := met_of_indexed (x := limitMatching decimal128 args.side) hindexed
    unfold FeesSaved
    rw [limitMatching_side] at hmet ⊢
    exact (agrees_limit (c := m.conf)).moneyFees_of_room rfl hconf hfits hmet hT
  | marketOrder args =>
    obtain ⟨m, o, hm, hok, hput, hret, rfl⟩ := hcases
    intro m' hm'
    obtain rfl := Option.some.inj (hm.symm.trans hm')
    have hamount : 0 < args.amount := (ratMpd_cmp_pos _ _ _).mp hok.amount
    obtain ⟨stock, money, hconf, hfits⟩ := h.feeRoom hinit hroom hm
    obtain ⟨hgrid, htakerFee⟩ := hticks m hm
    obtain ⟨htaker0, htaker1⟩ := feeRateOk_iff.mp hok.takerFee
    have hindexed := h.markets _ m hm
    rw [← h.sane.assets] at hindexed
    rcases marketPutMarketOrder_cases hput with ⟨ret, hneg, rfl⟩ | ⟨havail, -⟩
    · exact absurd hret hneg.ne
    have hT := preciseMarket_start args.source hbelow hconf hamount hgrid
      ⟨htakerFee, htaker0, htaker1.le⟩ havail
    have hmet := met_of_indexed (x := marketMatching decimal128 args.side) hindexed
    unfold FeesSaved
    rw [marketMatching_side] at hmet ⊢
    exact (agrees_market (c := m.conf)).moneyFees_of_room rfl hconf hfits hmet hT
  | cancelOrder args => trivial
  | expire now => trivial

/-- With that room the fees of a run are in whole units. -/
theorem along_saved_of_room (hinit : Engine.init decimal128 dictAsset confs = some e₀)
    (hroom : ∀ conf ∈ confs, FeeRoom dictAsset conf)
    (hok : Along decimal128 real (fun e op => e.Ticks op ∧ e.ChangeSaved op) e₀ ops)
    (hrun : e₀.run decimal128 real ops = some e) :
    Along decimal128 real (fun e op => e.Ticks op ∧ e.Saved op) e₀ ops := by
  intro pre op post e₁ hops hpre
  obtain ⟨hticks, hupdate⟩ := hok pre op post e₁ hops hpre
  rw [hops] at hok
  have hunits : InUnits e₀ e₁ := run_induction (fun _ _ _ h hop hstep =>
    (h.step hinit hop.1 (h.saved_of_room hinit hroom hop.1 hop.2 hstep) hstep).1) hok.prefix
    (inUnits_init hinit) hpre
  rw [hops, run_append, hpre, Option.bind_some, run_cons] at hrun
  obtain ⟨e₂, hstep, -⟩ := Option.bind_eq_some_iff.mp hrun
  exact ⟨hticks, hunits.saved_of_room hinit hroom hticks hupdate hstep⟩

instance (dictAsset : Dict String AssetType) (b : Dict BalanceKey ℚ) : Decidable (Below dictAsset b) := by
  unfold Below
  infer_instance

instance (dictAsset : Dict String AssetType) (x : Matching ℚ) (m : Market ℚ) (t : Terms ℚ) :
    Decidable (MoneyFees dictAsset x m t) := by
  unfold MoneyFees
  infer_instance

instance (dictAsset : Dict String AssetType) (x : Matching ℚ) (m : Market ℚ) (taker : Order ℚ) :
    Decidable (FeesSaved dictAsset x m taker) := by
  unfold FeesSaved
  infer_instance

instance (e : Engine ℚ) (op : Op ℚ) : Decidable (e.Ticks op) := by
  refine op.casesOn ?_ ?_ ?_ ?_ ?_ <;> intros <;> unfold Ticks
  all_goals infer_instance

instance (e : Engine ℚ) (op : Op ℚ) : Decidable (e.Saved op) := by
  refine op.casesOn ?_ ?_ ?_ ?_ ?_ <;> intros <;> unfold Saved
  all_goals infer_instance

/-- **Runs whose fees in money and whose updates are in whole units.** -/
theorem precise_run (hinit : Engine.init decimal128 dictAsset confs = some e₀)
    (hok : Along decimal128 real (fun e op => e.Ticks op ∧ e.Saved op) e₀ ops)
    (hrun : e₀.run decimal128 real ops = some e) :
    Units dictAsset e.statics.ledger.dictBalance ∧
      (∀ c ∈ e.statics.ledger.calls, c.1.Whole dictAsset) ∧
      Along decimal128 real (fun e op => ∀ e', e.step decimal128 real op = some e' → e.Precise op e')
        e₀ ops := by
  have hall : ∀ {ops e}, Along decimal128 real (fun e op => e.Ticks op ∧ e.Saved op) e₀ ops →
      e₀.run decimal128 real ops = some e → InUnits e₀ e := fun hok hrun =>
    run_induction (fun _ _ _ h hop hstep => (h.step hinit hop.1 hop.2 hstep).1) hok
      (inUnits_init hinit) hrun
  have hend := hall hok hrun
  have hassets : e.statics.ledger.dictAsset = dictAsset := by
    rw [hend.sane.assets, (init_spec hinit).1]
  refine ⟨?_, ?_, fun pre op post e₁ hops hpre e' hstep => ?_⟩
  · rw [← hassets]
    exact hend.units
  · rw [← hassets]
    exact hend.calls
  · have hop := hok pre op post e₁ hops hpre
    rw [hops] at hok
    have hunits := hall hok.prefix hpre
    exact (hunits.step hinit hop.1 hop.2 hstep).2

/-- The fees of `fundedOps` have the digits they need. -/
theorem precise_run_funded :
    ∃ e₀ e, Engine.init decimal128 exampleAssets [exampleConf 8] = some e₀ ∧
      e₀.run decimal128 true fundedOps = some e ∧ e.statics.ledger.calls.length = 14 ∧
      Units exampleAssets e.statics.ledger.dictBalance ∧
      ∀ c ∈ e.statics.ledger.calls, c.1.Whole exampleAssets := by
  obtain ⟨e₀, e, hinit, hrun, hcheck⟩ := exampleRun_spec
    (by decide +kernel : (exampleRun decimal128 8 fundedOps).any (fun e =>
      decide (e.statics.ledger.calls.length = 14)) = true)
  have hok : Along decimal128 true (fun e op => e.Ticks op ∧ e.Saved op) e₀ fundedOps :=
    of_decide_eq_true (exampleInit_spec (fun e₀ => decide (Along decimal128 true
      (fun e op => e.Ticks op ∧ e.Saved op) e₀ fundedOps)) hinit (by decide +kernel))
  obtain ⟨hunits, hcalls, -⟩ := precise_run hinit hok hrun
  exact ⟨e₀, e, hinit, hrun, of_decide_eq_true hcheck, hunits, hcalls⟩

end Engine

/-! ## A fee without room -/

/-- A market that `market_create` accepts, with 24 digits in a fee and 16 in a balance. -/
def tightConf : MarketConf ℚ := ⟨"BTCCNY", "BTC", "CNY", 8, 8, 8, 1 / 10 ^ 8⟩

def tightAssets : Dict String AssetType :=
  Finmap.insert "BTC" ⟨16, 8⟩ (Finmap.insert "CNY" ⟨16, 8⟩ ∅)

/-- An ask of one tick for one tick, with a fee of one tick, and the bid it waits for. -/
def tightOps : List (Op ℚ) :=
  [deposit 1 "CNY" 1 5, deposit 2 "BTC" 2 5, limitOrder 2 .ask (1 / 10 ^ 8) (1 / 10 ^ 8) 0 (1 / 10 ^ 8),
    limitOrder 1 .bid (1 / 10 ^ 8) (1 / 10 ^ 8) 0 0]

/-- The fee has more digits than the balance, and what is left of the balance is stored as zero. -/
theorem fee_cut :
    ∃ e₀ e, Engine.init decimal128 tightAssets [tightConf] = some e₀ ∧
      e₀.run decimal128 true tightOps = some e ∧ Engine.Along decimal128 true Engine.Ticks e₀ tightOps ∧
      (.sub 2 .available "CNY" (1 / 10 ^ 24), true) ∈ e.statics.ledger.calls ∧
      ¬(BalanceCall.sub 2 .available "CNY" (1 / 10 ^ 24)).Whole tightAssets ∧
      e.statics.ledger.dictBalance.find ⟨2, .available, "CNY"⟩ = some 0 := by
  have hcheck : (Engine.init decimal128 tightAssets [tightConf]).any (fun e₀ =>
      decide (Engine.Along decimal128 true Engine.Ticks e₀ tightOps) &&
        (e₀.run decimal128 true tightOps).any fun e =>
          decide ((.sub 2 .available "CNY" (1 / 10 ^ 24), true) ∈ e.statics.ledger.calls ∧
            e.statics.ledger.dictBalance.find ⟨2, .available, "CNY"⟩ = some 0)) = true := by
    decide +kernel
  obtain ⟨e₀, hinit, hcheck⟩ := (Option.any_eq_true _ _).mp hcheck
  obtain ⟨hticks, hcheck⟩ := Bool.and_eq_true_iff.mp hcheck
  obtain ⟨e, hrun, hcheck⟩ := (Option.any_eq_true _ _).mp hcheck
  obtain ⟨hcall, hfind⟩ := of_decide_eq_true hcheck
  refine ⟨e₀, e, hinit, hrun, of_decide_eq_true hticks, hcall, ?_, hfind⟩
  unfold BalanceCall.Whole
  decide +kernel

end ViabtcExchange
