import ViabtcExchange.Uncrossed

/-!
# Where the texts of the history come from

The rows of the history carry names of markets and assets, the sources of orders, and the businesses
and details of balance updates. Whatever holds of the configured names, of "trade", and of what the
requests bring along, holds of every text in the history (`Engine.Says.step`).
-/

namespace ViabtcExchange

/-- What holds of the texts: of configured names, of what requests say, and of their details. -/
structure Vocabulary where
  asset : String → Prop
  market : String → Prop
  word : String → Prop
  detail : Json → Prop

variable {D : Type} {mpd : Mpd D} {real : Bool} {V : Vocabulary} {old : List (HistoryRow D)}

/-- The texts of an order. -/
structure Order.Says (V : Vocabulary) (order : Order D) : Prop where
  market : V.market order.market
  source : ∀ source, order.source = some source → V.word source

def Detail.Says (V : Vocabulary) : Detail D → Prop
  | trade market _ _ _ _ => V.market market
  | update detail => V.detail detail

/-- The texts of a row that its statements write. -/
def HistoryRow.Says (V : Vocabulary) : HistoryRow D → Prop
  | order o => Order.Says V o
  | deal _ ask _ bid _ _ => Order.Says V ask ∧ Order.Says V bid
  | balance _ asset business _ _ detail => V.asset asset ∧ V.word business ∧ Detail.Says V detail

structure Market.Says (V : Vocabulary) (m : Market D) : Prop where
  name : V.market m.name
  stock : V.asset m.stock
  money : V.asset m.money
  orders : ∀ id, (m.order id).Says V

/-- What the history says since it was `old`. It only grows. -/
def Statics.Says (V : Vocabulary) (old : List (HistoryRow D)) (s : Statics D) : Prop :=
  ∃ rows, s.history = old ++ rows ∧ ∀ row ∈ rows, row.Says V

structure Execution.Says (V : Vocabulary) (old : List (HistoryRow D)) (e : Execution D) :
    Prop where
  statics : e.statics.Says V old
  market : e.market.Says V
  taker : e.taker.Says V

structure Engine.Says (V : Vocabulary) (e : Engine D) : Prop where
  assets : ∀ asset ∈ e.statics.ledger.dictAsset, V.asset asset
  markets : ∀ name m, e.dictMarket.find name = some m → m.Says V

/-- The texts a request brings along. -/
def Op.Says (V : Vocabulary) : Op D → Prop
  | .updateBalance args _ _ =>
    V.word args.business ∧ V.detail (.object (setId args.detail args.businessId))
  | .limitOrder args => V.word args.source
  | .marketOrder args => V.word args.source
  | _ => True

/-! ## The statics -/

section Statics

variable {s : Statics D}

theorem Statics.Says.append {row : HistoryRow D} (h : s.Says V old) (hrow : row.Says V) :
    (s.append real row).Says V old := by
  cases real with
  | false => exact h
  | true =>
    obtain ⟨rows, hrows, hall⟩ := h
    refine ⟨rows ++ [row], ?_, fun row' hmem => ?_⟩
    · rw [← List.append_assoc, ← hrows]
      rfl
    · rcases List.mem_append.mp hmem with hmem | hmem
      · exact hall row' hmem
      · obtain rfl := List.mem_singleton.mp hmem
        exact hrow

theorem Statics.Says.push {msg : Message D} (h : s.Says V old) : (s.push real msg).Says V old := by
  cases real <;> exact h

theorem Statics.Says.payLeg {order : Order D} {t : Terms D} {leg : Leg D} (h : s.Says V old)
    (htrade : V.word "trade") (hmarket : V.market order.market) (hgive : V.asset leg.giveAsset)
    (hget : V.asset leg.getAsset) (hfee : V.asset leg.feeAsset) :
    (payLeg mpd real s order t leg).Says V old := by
  have htwo : ∀ {s : Statics D}, s.Says V old →
      ((((s.call mpd (.sub order.userId leg.giveType leg.giveAsset leg.give)).appendBalanceTradeSub
        mpd real order leg.giveAsset leg.give t.price t.amount).call mpd
          (.add order.userId .available leg.getAsset leg.get)).appendBalanceTradeAdd mpd real order
            leg.getAsset leg.get t.price t.amount).Says V old := by
    intro s hs
    have hgave : (((s.call mpd (.sub order.userId leg.giveType leg.giveAsset
        leg.give)).appendBalanceTradeSub mpd real order leg.giveAsset leg.give t.price
          t.amount)).Says V old :=
      Statics.Says.append (show (s.call mpd _).Says V old from hs) ⟨hgive, htrade, hmarket⟩
    exact Statics.Says.append (show (Statics.call mpd _ _).Says V old from hgave)
      ⟨hget, htrade, hmarket⟩
  unfold ViabtcExchange.payLeg
  dsimp only
  split_ifs
  · exact Statics.Says.append (show (Statics.call mpd _ _).Says V old from htwo h)
      ⟨hfee, htrade, hmarket⟩
  · exact htwo h

end Statics

/-! ## Orders and markets -/

theorem Order.Says.fill {order : Order D} (h : order.Says V) (t : Terms D) (spent fee : D) :
    (order.fill mpd t spent fee).Says V := ⟨h.market, h.source⟩

theorem Market.Says.setOrder {m : Market D} {order : Order D} (h : m.Says V) (horder : order.Says V)
    (id : ℕ) : (m.setOrder id order).Says V where
  name := h.name
  stock := h.stock
  money := h.money
  orders i := by
    rw [setOrder_order, Function.update_apply]
    split_ifs
    · exact horder
    · exact h.orders i

theorem Market.Says.setBook {m : Market D} (h : m.Says V) (side : OrderSide) (ids : List ℕ) :
    (m.setBook side ids).Says V := by
  cases side <;> exact ⟨h.name, h.stock, h.money, h.orders⟩

theorem says_orderFinish {s : Statics D} {m : Market D} {id : ℕ} (hs : s.Says V old)
    (hm : m.Says V) :
    (orderFinish mpd real s m id).1.Says V old ∧ (orderFinish mpd real s m id).2.Says V := by
  have hunbook : (m.unbook mpd id).Says V := hm.setBook _ _
  unfold orderFinish
  dsimp only
  split_ifs with hstuck hdeal hfrozen hfrozen
  · exact ⟨hs, hunbook⟩
  · exact ⟨Statics.Says.append (show (s.call mpd _).Says V old from hs) (hm.orders id),
      ⟨hunbook.name, hunbook.stock, hunbook.money, hunbook.orders⟩⟩
  · exact ⟨hs.append (hm.orders id), ⟨hunbook.name, hunbook.stock, hunbook.money, hunbook.orders⟩⟩
  · exact ⟨hs, ⟨hunbook.name, hunbook.stock, hunbook.money, hunbook.orders⟩⟩
  · exact ⟨hs, ⟨hunbook.name, hunbook.stock, hunbook.money, hunbook.orders⟩⟩

theorem orderPut_says {s : Statics D} {m : Market D} {order : Order D} (hs : s.Says V old)
    (hm : m.Says V) (horder : order.Says V) :
    (orderPut mpd s m order).1.Says V old ∧ (orderPut mpd s m order).2.Says V := by
  have hadd : (m.addOrder order).Says V := by
    have hset := hm.setOrder horder order.id
    exact ⟨hset.name, hset.stock, hset.money, hset.orders⟩
  have husers : ∀ users, ((m.addOrder order).setUsers users).Says V := fun users =>
    ⟨hadd.name, hadd.stock, hadd.money, hadd.orders⟩
  unfold orderPut
  split_ifs
  · exact ⟨hs, hm⟩
  · exact ⟨hs, hm⟩
  · dsimp only
    split
    · exact ⟨hs, hadd⟩
    · split
      · exact ⟨hs, husers _⟩
      · have hrest : Order.Says V { order with freeze := restFreeze mpd order } :=
          ⟨horder.market, horder.source⟩
        exact ⟨hs, ((husers _).setBook _ _).setOrder hrest _⟩

/-! ## Matching -/

/-- The fee of a bid is taken in an asset of the market. -/
def Matching.FeeInMarket (x : Matching D) : Prop :=
  ∀ m : Market D, x.bidFeeAsset m = m.stock ∨ x.bidFeeAsset m = m.money

theorem partyLeg_says {m : Market D} (hm : m.Says V) {bidFeeAsset : String}
    (hfee : V.asset bidFeeAsset) (t : Terms D) (side : OrderSide) (type : BalanceType) (rate : D) :
    V.asset (partyLeg m bidFeeAsset t side type rate).giveAsset ∧
      V.asset (partyLeg m bidFeeAsset t side type rate).getAsset ∧
        V.asset (partyLeg m bidFeeAsset t side type rate).feeAsset := by
  cases side with
  | ask => exact ⟨hm.stock, hm.money, hm.money⟩
  | bid => exact ⟨hm.money, hm.stock, hfee⟩

theorem Execution.Says.trade {x : Matching D} {e : Execution D} (h : e.Says V old)
    (hx : x.FeeInMarket) (htrade : V.word "trade") (id : ℕ) (t : Terms D) : (executeTrade mpd real x e id t).Says V old := by
  have hfee : V.asset (x.bidFeeAsset e.market) := by
    rcases hx e.market with heq | heq
    · exact heq ▸ h.market.stock
    · exact heq ▸ h.market.money
  have hreport : ∀ s : Statics D, s.Says V old → (x.reportDeal real e.market s e.taker
      (e.market.order id) t s.dealsIdStart).Says V old := by
    intro s hs
    unfold Matching.reportDeal
    cases x.side with
    | ask =>
      have hrow : HistoryRow.Says V (.deal s.dealsIdStart e.taker .taker (e.market.order id)
          .maker t) := ⟨h.taker, h.market.orders id⟩
      exact (hs.append hrow).push
    | bid =>
      have hrow : HistoryRow.Says V (.deal s.dealsIdStart (e.market.order id) .maker e.taker
          .taker t) := ⟨h.market.orders id, h.taker⟩
      exact (hs.append hrow).push
  have hpay : (payTrade mpd real x e id t).Says V old := by
    obtain ⟨hgive, hget, hfee'⟩ :=
      partyLeg_says h.market hfee t x.side .available e.taker.takerFee
    obtain ⟨hgive', hget', hfee''⟩ :=
      partyLeg_says h.market hfee t x.side.opposite .freeze (e.market.order id).makerFee
    refine Statics.Says.payLeg ?_ htrade (h.market.orders id).market hgive' hget' hfee''
    refine Statics.Says.payLeg ?_ htrade h.taker.market hgive hget hfee'
    exact hreport (e.statics.openDeal _) h.statics
  have hmaker : (x.fillMaker mpd e.market (e.market.order id) t).Says V :=
    ⟨(h.market.orders id).market, (h.market.orders id).source⟩
  have htaker : (x.fillTaker mpd e.market e.taker t).Says V := h.taker.fill t _ _
  have hset := h.market.setOrder hmaker id
  have hsettle : (settleMaker mpd real (payTrade mpd real x e id t) e.market id
        (x.fillMaker mpd e.market (e.market.order id) t)).1.Says V old ∧
      (settleMaker mpd real (payTrade mpd real x e id t) e.market id
        (x.fillMaker mpd e.market (e.market.order id) t)).2.Says V := by
    unfold settleMaker
    dsimp only
    split_ifs
    · exact says_orderFinish hpay.push hset
    · exact ⟨hpay.push, hset⟩
  exact ⟨hsettle.1, hsettle.2, htaker⟩

theorem Execution.Says.execute {x : Matching D} {e e' : Execution D} (h : e.Says V old)
    (hx : x.FeeInMarket) (htrade : V.word "trade") (hrun : x.execute mpd real e = some e') : e'.Says V old := by
  obtain ⟨-, hend, -⟩ := executeLoop_rule mpd real x (P := fun _ e => e.Says V old)
    (fun id _ e t h _ _ => h.trade hx htrade id t) h hrun
  exact hend

theorem Execution.Says.limit {e e' : Execution D} (h : e.Says V old) (htrade : V.word "trade")
    (hrun : executeLimitOrder mpd real e = some e') : e'.Says V old := by
  unfold executeLimitOrder at hrun
  split at hrun
  · exact h.execute (fun m => Or.inr rfl) htrade hrun
  · exact h.execute (fun m => Or.inr rfl) htrade hrun

theorem Execution.Says.marketOrder {e e' : Execution D} (h : e.Says V old) (htrade : V.word "trade")
    (hrun : executeMarketOrder mpd real e = some e') : e'.Says V old := by
  unfold executeMarketOrder at hrun
  split at hrun
  · exact h.execute (fun m => Or.inl rfl) htrade hrun
  · exact h.execute (fun m => Or.inl rfl) htrade hrun

theorem Execution.Says.rest {e : Execution D} (h : e.Says V old) :
    (restLimitOrder mpd real e).statics.Says V old ∧ (restLimitOrder mpd real e).market.Says V := by
  unfold restLimitOrder
  dsimp only
  split_ifs
  · exact ⟨(Statics.Says.append h.statics (show HistoryRow.Says V (.order e.taker) from
      h.taker)).push, h.market⟩
  · exact orderPut_says (Statics.Says.push h.statics) h.market h.taker

/-! ## Requests -/

namespace Engine

variable {e e' : Engine D}

theorem Says.put {name : String} {s : Statics D} {m : Market D} (h : e.Says V)
    (hassets : s.ledger.dictAsset = e.statics.ledger.dictAsset) (hm : m.Says V) :
    (e.put name s m).Says V where
  assets := by
    intro asset hasset
    have hasset : asset ∈ s.ledger.dictAsset := hasset
    exact h.assets asset (hassets ▸ hasset)
  markets name' m' hm' := by
    have hm' : Dict.find (e.dictMarket.insert name m) name' = some m' := hm'
    rw [Dict.find_insert] at hm'
    split_ifs at hm' with heq
    · obtain rfl := Option.some.inj hm'
      exact hm
    · exact h.markets name' m' hm'

/-- A new engine says what is configured. -/
theorem init_says {dictAsset : Dict String AssetType} {confs : List (MarketConf D)}
    (hinit : Engine.init mpd dictAsset confs = some e)
    (hassets : ∀ asset ∈ dictAsset, V.asset asset) (hnames : ∀ conf ∈ confs, V.market conf.name) :
    e.Says V := by
  obtain ⟨hledger, -, hmarkets⟩ := init_spec hinit
  refine ⟨fun asset hasset => hassets asset (by rwa [hledger] at hasset), fun name m hm => ?_⟩
  obtain ⟨conf, hconf, -, hcreate⟩ := hmarkets name m hm
  obtain ⟨stock, money, hok⟩ := marketCreate_confOk hcreate
  have hname := hnames conf hconf
  have hstock := hassets conf.stock (Dict.mem_of_find hok.findStock)
  have hmoney := hassets conf.money (Dict.mem_of_find hok.findMoney)
  unfold marketCreate at hcreate
  split_ifs at hcreate
  obtain rfl := Option.some.inj hcreate
  exact ⟨hname, hstock, hmoney, fun _ => ⟨hname, fun source hsource => by cases hsource⟩⟩

theorem applyChange_known {l : Ledger D} {userId : ℕ} {asset : String} {change : D}
    {b : Dict BalanceKey D} (h : applyChange mpd l userId asset change = some b) :
    asset ∈ l.dictAsset := by
  by_contra hunknown
  have hfind : l.dictAsset.find asset = none := Dict.find_eq_none.mpr hunknown
  unfold applyChange balanceAdd balanceSub at h
  rw [hfind] at h
  split_ifs at h

/-- **A request writes no text but its own and those configured.** -/
theorem Says.step {op : Op D} (h : e.Says V) (htrade : V.word "trade") (hop : op.Says V)
    (hstep : e.step mpd real op = some e') : e'.Says V ∧ e'.statics.Says V e.statics.history := by
  have hold : e.statics.Says V e.statics.history :=
    ⟨[], (List.append_nil _).symm, fun row hrow => absurd hrow List.not_mem_nil⟩
  have hassets := (step_fixed hstep).1
  have hcases := step_cases hstep
  cases op with
  | updateBalance args padding now =>
    obtain ⟨s, d, hupd, rfl⟩ := hcases
    refine ⟨⟨fun asset hasset => h.assets asset (hassets ▸ hasset), h.markets⟩, ?_⟩
    unfold updateUserBalance at hupd
    dsimp only at hupd
    split at hupd
    · cases hupd
    · split at hupd
      · cases hupd
      · rename_i hchange
        obtain ⟨-, rfl, -⟩ := Prod.mk.inj hupd |>.imp_right Prod.mk.inj
        refine Statics.Says.push (Statics.Says.append ?_ ?_)
        · exact hold
        · exact ⟨h.assets _ (applyChange_known hchange), hop⟩
  | limitOrder args =>
    obtain ⟨m, o, hm, -, hput, -, rfl⟩ := hcases
    have hmarket := h.markets _ m hm
    rcases marketPutLimitOrder_cases hput with ⟨ret, -, rfl⟩ | ⟨-, -, ex, hrun, rfl⟩
    · exact ⟨h.put hassets hmarket, hold⟩
    · have hstart : (startLimit mpd e.statics m args.userId args.side args.amount args.price
          args.takerFee args.makerFee args.source).Says V e.statics.history :=
        ⟨hold, hmarket, ⟨hmarket.name, fun source hsource => Option.some.inj hsource ▸ hop⟩⟩
      have hrest := @Execution.Says.rest D mpd real V e.statics.history ex
        (hstart.limit htrade hrun)
      exact ⟨h.put hassets hrest.2, hrest.1⟩
  | marketOrder args =>
    obtain ⟨m, o, hm, -, hput, -, rfl⟩ := hcases
    have hmarket := h.markets _ m hm
    rcases marketPutMarketOrder_cases hput with ⟨ret, -, rfl⟩ | ⟨-, ex, hrun, rfl⟩
    · exact ⟨h.put hassets hmarket, hold⟩
    · have hstart : (startMarket mpd e.statics m args.userId args.side args.amount args.takerFee
          args.source).Says V e.statics.history :=
        ⟨hold, hmarket, ⟨hmarket.name, fun source hsource => Option.some.inj hsource ▸ hop⟩⟩
      have hex := hstart.marketOrder htrade hrun
      exact ⟨h.put hassets hex.market, Statics.Says.push (hex.statics.append hex.taker)⟩
  | cancelOrder args =>
    obtain ⟨m, hm, -, -, rfl⟩ := hcases
    have hmarket := h.markets _ m hm
    have hfinish := @says_orderFinish D mpd real V e.statics.history
      (e.statics.push real (.order .finish (m.order args.orderId) m.stock m.money)) m args.orderId
      hold.push hmarket
    exact ⟨h.put hassets hfinish.2, hfinish.1⟩
  | expire now =>
    obtain rfl := hcases
    exact ⟨⟨h.assets, h.markets⟩, hold⟩

end Engine

end ViabtcExchange
