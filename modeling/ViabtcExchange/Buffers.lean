import ViabtcExchange.History
import ViabtcExchange.JsonDump
import ViabtcExchange.Replay

/-!
# The buffers of escaped texts (`me_operlog.c`, `me_history.c`)

`mysql_real_escape_string` may write twice its text and a NUL. `flush_log` gives it the dump of a
request, `append_user_balance` the dump of a detail, and both give it 10240 bytes of the stack.
Nothing bounds the dumps: a request may be as long as a package, and the numbers of a trade have all
the digits they came with.

**Theorem (`escaped_fits`).** The texts of an accepted request fit where its parameters as they are
logged have at most 5093 bytes, the name of the request included, and what is variable in the
details of its trades has at most 5085.
-/

namespace ViabtcExchange

/-- Room for twice the text and its end. -/
def InBuffer (cs : List Char) : Prop := 2 * utf8Size cs + 1 ≤ bufSize

theorem inBuffer_iff {cs : List Char} : InBuffer cs ↔ utf8Size cs ≤ 5119 := by
  unfold InBuffer bufSize
  omega

/-! ## Details -/

section Details

variable {D : Type} (toText : D → String)

/-- The object the `append_balance_trade_*` functions build. -/
def tradeDetail (market : String) (orderId : ℕ) (price amount : D) (feeRate : Option D) : Json :=
  .object <|
    [("m", .string market), ("i", jsonInteger orderId), ("p", .string (toText price)),
      ("a", .string (toText amount))] ++
    match feeRate with
    | some fee => [("f", .string (toText fee))]
    | none => []

/-- Details of trades are dumped with their keys sorted. -/
def Detail.dump (d : JsonDumps) : Detail D → List Char
  | .trade market orderId price amount feeRate =>
    d.dumps true (tradeDetail toText market orderId price amount feeRate)
  | .update detail => d.dumps false detail

/-- The bytes of an id. -/
def idSize (id : ℕ) : ℕ := (jsonInteger id).dumpSize fun _ => 0

/-- The bytes of a number between quotes. -/
def numSize (x : D) : ℕ := charsSize (toText x).toList

/-- What is variable in the detail of a trade, the key of the fee included. -/
def tradeSize (market : String) (orderId : ℕ) (price amount : D) (feeRate : Option D) : ℕ :=
  charsSize market.toList + idSize orderId + numSize toText price + numSize toText amount +
    match feeRate with
    | some fee => 9 + numSize toText fee
    | none => 0

theorem dumpSize_tradeDetail (realSize : ℚ → ℕ) (market : String) (orderId : ℕ) (price amount : D)
    (feeRate : Option D) :
    (tradeDetail toText market orderId price amount feeRate).dumpSize realSize =
      34 + tradeSize toText market orderId price amount feeRate := by
  have hid : (jsonInteger orderId).dumpSize realSize = idSize orderId := rfl
  have hm : charsSize "m".toList = 1 := rfl
  have hi : charsSize "i".toList = 1 := rfl
  have hp : charsSize "p".toList = 1 := rfl
  have ha : charsSize "a".toList = 1 := rfl
  have hf : charsSize "f".toList = 1 := rfl
  unfold tradeDetail tradeSize numSize
  cases feeRate <;>
    simp only [Json.dumpSize, List.cons_append, List.nil_append, membersSize, stringSize, hid, hm,
      hi, hp, ha, hf] <;> omega

theorem inBuffer_trade (d : JsonDumps) (market : String) (orderId : ℕ) (price amount : D)
    (feeRate : Option D) :
    InBuffer ((Detail.trade market orderId price amount feeRate).dump toText d) ↔
      tradeSize toText market orderId price amount feeRate ≤ 5085 := by
  rw [inBuffer_iff, Detail.dump, d.size, dumpSize_tradeDetail]
  omega

/-- The details of the balance rows. -/
def detailsOf (history : List (HistoryRow D)) : List (Detail D) :=
  history.filterMap fun
    | .balance _ _ _ _ _ detail => some detail
    | _ => none

@[simp] theorem detailsOf_append (h h' : List (HistoryRow D)) :
    detailsOf (h ++ h') = detailsOf h ++ detailsOf h' := List.filterMap_append

end Details

/-! ## What a trade writes -/

section Trade

variable {D : Type} (mpd : Mpd D) (s : Statics D)

@[simp] theorem detailsOf_call (c : BalanceCall D) :
    detailsOf (s.call mpd c).history = detailsOf s.history := rfl

@[simp] theorem detailsOf_push (real : Bool) (msg : Message D) :
    detailsOf (s.push real msg).history = detailsOf s.history := by
  cases real <;> rfl

@[simp] theorem detailsOf_append_order (real : Bool) (order : Order D) :
    detailsOf (s.append real (.order order)).history = detailsOf s.history := by
  cases real
  · rfl
  · simp [Statics.append, detailsOf]

@[simp] theorem detailsOf_append_deal (real : Bool) (dealId : ℕ) (ask bid : Order D)
    (askRole bidRole : MarketRole) (t : Terms D) :
    detailsOf (s.append real (.deal dealId ask askRole bid bidRole t)).history =
      detailsOf s.history := by
  cases real
  · rfl
  · simp [Statics.append, detailsOf]

theorem detailsOf_reportDeal (real : Bool) (x : Matching D) (m : Market D) (taker maker : Order D)
    (t : Terms D) (dealId : ℕ) :
    detailsOf (x.reportDeal real m s taker maker t dealId).history = detailsOf s.history := by
  unfold Matching.reportDeal
  cases x.side <;> simp

theorem detailsOf_orderFinish (real : Bool) (m : Market D) (id : ℕ) :
    detailsOf (orderFinish mpd real s m id).1.history = detailsOf s.history := by
  unfold orderFinish
  dsimp only
  split_ifs <;> simp

theorem detailsOf_settleMaker (real : Bool) (m : Market D) (id : ℕ) (maker : Order D) :
    detailsOf (settleMaker mpd real s m id maker).1.history = detailsOf s.history := by
  unfold settleMaker
  dsimp only
  split_ifs
  · rw [detailsOf_orderFinish, detailsOf_push]
  · exact detailsOf_push s real _

theorem detailsOf_orderPut (m : Market D) (order : Order D) :
    detailsOf (orderPut mpd s m order).1.history = detailsOf s.history := by
  rcases orderPut_statics mpd s m order with h | h
  · rw [h]
  · rw [h]
    rfl

theorem detailsOf_restLimitOrder (real : Bool) (e : Execution D) :
    detailsOf (restLimitOrder mpd real e).statics.history = detailsOf e.statics.history := by
  unfold restLimitOrder
  dsimp only
  split_ifs
  · simp
  · simp [detailsOf_orderPut]

theorem detailsOf_closeMarketOrder (real : Bool) (e : Execution D) :
    detailsOf (closeMarketOrder real e).statics.history = detailsOf e.statics.history := by
  simp [closeMarketOrder]

theorem detailsOf_cancel (real : Bool) (m : Market D) (id : ℕ) :
    detailsOf (marketCancelOrder mpd real s m id).statics.history = detailsOf s.history := by
  unfold marketCancelOrder
  dsimp only
  rw [detailsOf_orderFinish, detailsOf_push]

/-- The details of what a party pays and gets. -/
def legDetails (order : Order D) (t : Terms D) (leg : Leg D) : List (Detail D) :=
  (legEntries mpd order t leg).map Entry.detail

theorem detailsOf_payLeg (order : Order D) (t : Terms D) (leg : Leg D) :
    detailsOf (payLeg mpd true s order t leg).history =
      detailsOf s.history ++ legDetails mpd order t leg := by
  have hall : ∀ (ens : List (Entry D)) (s : Statics D),
      detailsOf (ens.foldl (Statics.enter mpd true) s).history =
        detailsOf s.history ++ ens.map Entry.detail := fun ens => by
    induction ens with
    | nil => exact fun s => (List.append_nil _).symm
    | cons en ens ih =>
      intro s
      rw [List.foldl_cons, ih]
      simp [Statics.enter, Statics.appendUserBalanceHistory, Statics.append, detailsOf,
        Statics.call]
  rw [payLeg_eq, hall, legDetails]

/-- The details of a trade. -/
def tradeDetails (x : Matching D) (m : Market D) (taker maker : Order D) (t : Terms D) :
    List (Detail D) :=
  legDetails mpd taker t (x.takerLeg m taker t) ++ legDetails mpd maker t (x.makerLeg m maker t)

theorem detailsOf_executeTrade (x : Matching D) (e : Execution D) (id : ℕ) (t : Terms D) :
    detailsOf (executeTrade mpd true x e id t).statics.history =
      detailsOf e.statics.history ++
        tradeDetails mpd x e.market e.taker (e.market.order id) t := by
  unfold executeTrade
  dsimp only
  rw [detailsOf_settleMaker]
  unfold payTrade tradeDetails
  dsimp only
  rw [detailsOf_payLeg, detailsOf_payLeg, detailsOf_reportDeal, List.append_assoc]
  rfl

/-- The fee rate is part of the longest detail of a party, where the party pays a fee. -/
def Leg.ratePaid (leg : Leg D) : Option D :=
  if mpd.cmp leg.fee mpd.zero > 0 then some leg.feeRate else none

/-- The details of a party fit where the longest does. -/
theorem inBuffer_legDetails (toText : D → String) (d : JsonDumps) (order : Order D) (t : Terms D)
    (leg : Leg D) : (∀ detail ∈ legDetails mpd order t leg, InBuffer (detail.dump toText d)) ↔
      tradeSize toText order.market order.id t.price t.amount (leg.ratePaid mpd) ≤ 5085 := by
  unfold legDetails legEntries Leg.ratePaid
  by_cases hfee : mpd.cmp leg.fee mpd.zero > 0
  · simp only [if_pos hfee, List.map_cons, List.map_nil, List.forall_mem_cons, inBuffer_trade]
    unfold tradeSize
    simp
    omega
  · simp only [if_neg hfee, List.map_cons, List.map_nil, List.forall_mem_cons, inBuffer_trade]
    simp

end Trade

/-! ## What an order writes -/

section Orders

variable {round : ℚ → ℚ} {x : Matching ℚ} {e e' : Execution ℚ} {n : ℕ}

/-- The details of planned trades. -/
def planDetails (mpd : Mpd ℚ) (x : Matching ℚ) (m : Market ℚ) (taker : Order ℚ)
    (ts : List (ℕ × Terms ℚ)) : List (Detail ℚ) :=
  ts.flatMap fun p => tradeDetails mpd x m taker (m.order p.1) p.2

/-- The details of a party are about its face and its fee rate. -/
theorem legDetails_congr (mpd : Mpd ℚ) {order order' : Order ℚ} {t : Terms ℚ} {leg leg' : Leg ℚ}
    (hface : SameFace order order') (hfee : leg'.fee = leg.fee)
    (hrate : leg'.feeRate = leg.feeRate) :
    legDetails mpd order' t leg' = legDetails mpd order t leg := by
  unfold legDetails legEntries
  rw [hfee, hrate, hface.id, hface.market]
  split_ifs <;> rfl

theorem tradeDetails_congr {mpd : Mpd ℚ} {m m' : Market ℚ} {taker taker' maker : Order ℚ}
    {t : Terms ℚ} (hface : SameFace taker taker') (hfee : taker'.takerFee = taker.takerFee) :
    tradeDetails mpd x m' taker' maker t = tradeDetails mpd x m taker maker t := by
  unfold tradeDetails Matching.takerLeg Matching.makerLeg
  rw [hfee]
  congr 1
  · apply legDetails_congr mpd hface <;> cases x.side <;> rfl
  · apply legDetails_congr mpd (sameFace_refl maker) <;> cases x.side <;> rfl

/-- What the trades of an order have written, and what is still planned, is the whole plan. -/
theorem detailsOf_execute (hr : RoundsDown round) (hx : x.Fair round) (hlocal : x.Local)
    (hbook : BookOk n e.market) (hleft : 0 ≤ e.taker.left)
    (hrun : x.execute (ratMpd round) true e = some e') :
    detailsOf e'.statics.history = detailsOf e.statics.history ++
      planDetails (ratMpd round) x e.market e.taker
        (x.plan (ratMpd round) e.market (e.market.book x.side.opposite) e.taker).1 := by
  let P : List ℕ → Execution ℚ → Prop := fun ids e₁ =>
    Walk n x e ids e₁ ∧ e₁.taker.takerFee = e.taker.takerFee ∧
      detailsOf e₁.statics.history ++ planDetails (ratMpd round) x e₁.market e₁.taker
          (x.plan (ratMpd round) e₁.market ids e₁.taker).1 =
        detailsOf e.statics.history ++ planDetails (ratMpd round) x e.market e.taker
          (x.plan (ratMpd round) e.market (e.market.book x.side.opposite) e.taker).1
  have hstep : ∀ i ids e₁ t, P (i :: ids) e₁ →
      (ratMpd round).cmp e₁.taker.left (ratMpd round).zero ≠ 0 →
      x.quote e₁.market e₁.taker (e₁.market.order i) = some (.trade t) →
      P ids (executeTrade (ratMpd round) true x e₁ i t) := by
    rintro i ids e₁ t ⟨hw, hfee, hrest⟩ hl hq
    obtain ⟨hi, hids⟩ := List.nodup_cons.mp hw.nodup
    obtain ⟨hplan, -⟩ := plan_trade true hlocal hw.book.wf hw.maker.1 hi hl hq
    have ht := executeTrade_market round true x e₁ t hw.book.wf hw.maker.1
    refine ⟨hw.step hr hx true hl hq, hfee, ?_⟩
    rw [hplan] at hrest
    rw [← hrest, detailsOf_executeTrade, List.append_assoc]
    congr 1
    unfold planDetails
    rw [List.flatMap_cons]
    congr 1
    refine List.flatMap_congr fun p hp => ?_
    rw [ht.order, Function.update_of_ne fun hpi : p.1 = i => hi (hpi ▸ mem_plan hp)]
    exact tradeDetails_congr (sameFace_fillTaker _ x _ t) rfl
  obtain ⟨ids, ⟨-, -, hrest⟩, hstop⟩ := executeLoop_rule (ratMpd round) true x hstep
    ⟨walk_start hbook hleft, rfl, rfl⟩ hrun
  rw [plan_of_stopped hstop] at hrest
  simpa [planDetails] using hrest

/-- What is variable in the details of a party has room. -/
def PartyFits (mpd : Mpd ℚ) (toText : ℚ → String) (order : Order ℚ) (t : Terms ℚ) (leg : Leg ℚ) :
    Prop :=
  tradeSize toText order.market order.id t.price t.amount (leg.ratePaid mpd) ≤ 5085

/-- And so for both parties of every trade that an order is going to make. -/
def Matching.TextsFit (mpd : Mpd ℚ) (toText : ℚ → String) (x : Matching ℚ) (e : Execution ℚ) : Prop :=
  ∀ p ∈ (x.plan mpd e.market (e.market.book x.side.opposite) e.taker).1,
    PartyFits mpd toText e.taker p.2 (x.takerLeg e.market e.taker p.2) ∧
      PartyFits mpd toText (e.market.order p.1) p.2 (x.makerLeg e.market (e.market.order p.1) p.2)

theorem inBuffer_planDetails (mpd : Mpd ℚ) (toText : ℚ → String) (d : JsonDumps) :
    (∀ detail ∈ planDetails mpd x e.market e.taker
        (x.plan mpd e.market (e.market.book x.side.opposite) e.taker).1,
      InBuffer (detail.dump toText d)) ↔ x.TextsFit mpd toText e := by
  unfold planDetails Matching.TextsFit PartyFits
  simp only [List.forall_mem_flatMap, tradeDetails, List.forall_mem_append, inBuffer_legDetails]

end Orders

/-! ## Requests -/

namespace Engine

variable {e e' : Engine ℚ} {op : Op ℚ}

/-- The condition on the trades a request is going to make. -/
def TextsFit (mpd : Mpd ℚ) (toText : ℚ → String) (e : Engine ℚ) : Op ℚ → Prop
  | .limitOrder args => ∀ m, e.dictMarket.find args.market = some m →
    (limitMatching mpd args.side).TextsFit mpd toText
      (startLimit mpd e.statics m args.userId args.side args.amount args.price args.takerFee
        args.makerFee args.source)
  | .marketOrder args => ∀ m, e.dictMarket.find args.market = some m →
    (marketMatching mpd args.side).TextsFit mpd toText
      (startMarket mpd e.statics m args.userId args.side args.amount args.takerFee args.source)
  | _ => True

/-- The detail an update writes. -/
def updateDetails : Op ℚ → List (Detail ℚ)
  | .updateBalance args _ _ => [.update (.object (setId args.detail args.businessId))]
  | _ => []

theorem details_step {round : ℚ → ℚ} (hr : RoundsDown round)
    (hbooks : e.Markets fun _ n m => BookOk n m) (hstep : e.step (ratMpd round) true op = some e') :
    ∃ details, detailsOf e'.statics.history = detailsOf e.statics.history ++ details ∧
      ∀ (toText : ℚ → String) (d : JsonDumps),
        (∀ detail ∈ details, InBuffer (detail.dump toText d)) ↔
        (∀ detail ∈ updateDetails op, InBuffer (detail.dump toText d)) ∧
          e.TextsFit (ratMpd round) toText op := by
  have hcases := step_cases hstep
  cases op with
  | updateBalance args padding now =>
    obtain ⟨s, d, hupd, rfl⟩ := hcases
    refine ⟨updateDetails (.updateBalance args padding now), ?_, fun toText d => by simp [TextsFit]⟩
    unfold updateUserBalance at hupd
    dsimp only at hupd
    split at hupd
    · cases hupd
    · split at hupd
      · cases hupd
      · cases hupd
        rw [detailsOf_push]
        exact detailsOf_append e.statics.history _
  | limitOrder args =>
    obtain ⟨m, o, hm, hok, hput, hret, rfl⟩ := hcases
    rcases marketPutLimitOrder_cases hput with ⟨ret, hneg, rfl⟩ | ⟨-, -, ex, hrun, rfl⟩
    · exact absurd hret hneg.ne
    · rw [executeLimitOrder_eq] at hrun
      refine ⟨_, (detailsOf_restLimitOrder _ true ex).trans <|
        detailsOf_execute hr (fair_limitMatching round args.side) (local_limitMatching args.side _)
          (hbooks _ m hm) (limitOk_pos hok).1.le hrun, fun toText d => ?_⟩
      rw [inBuffer_planDetails]
      simp [updateDetails, TextsFit, hm]
  | marketOrder args =>
    obtain ⟨m, o, hm, hok, hput, hret, rfl⟩ := hcases
    rcases marketPutMarketOrder_cases hput with ⟨ret, hneg, rfl⟩ | ⟨-, ex, hrun, rfl⟩
    · exact absurd hret hneg.ne
    · rw [executeMarketOrder_eq] at hrun
      refine ⟨_, (detailsOf_closeMarketOrder true ex).trans <|
        detailsOf_execute hr (fair_marketMatching args.side hr) (local_marketMatching args.side _)
          (hbooks _ m hm) ((ratMpd_cmp_pos _ _ _).mp hok.amount).le hrun, fun toText d => ?_⟩
      rw [inBuffer_planDetails]
      simp [updateDetails, TextsFit, hm]
  | cancelOrder args =>
    obtain ⟨m, hm, hmem, huser, rfl⟩ := hcases
    refine ⟨[], ?_, fun toText d => by simp [updateDetails, TextsFit]⟩
    rw [List.append_nil]
    exact detailsOf_cancel _ _ true m args.orderId
  | expire now =>
    subst hcases
    exact ⟨[], (List.append_nil _).symm, fun toText d => by simp [updateDetails, TextsFit]⟩

end Engine

theorem dumpSize_le_elements (realSize : ℚ → ℕ) {v : Json} {vs : List Json} (h : v ∈ vs) :
    v.dumpSize realSize ≤ elementsSize realSize vs := by
  induction vs with
  | nil => cases h
  | cons w vs ih =>
    cases vs with
    | nil =>
      rw [List.mem_singleton.mp h]
      exact le_refl (w.dumpSize realSize)
    | cons w' vs =>
      have hsize : elementsSize realSize (w :: w' :: vs) =
        w.dumpSize realSize + 2 + elementsSize realSize (w' :: vs) := rfl
      rcases List.mem_cons.mp h with rfl | h
      · omega
      · have := ih h
        omega

theorem dumpSize_operDetail (realSize : ℚ → ℕ) (method : String) (params : List Json) :
    (operDetail method params).dumpSize realSize =
      26 + charsSize method.toList + (Json.array params).dumpSize realSize := by
  have hmethod : charsSize "method".toList = 6 := rfl
  have hparams : charsSize "params".toList = 6 := rfl
  simp only [operDetail, Json.dumpSize, membersSize, stringSize, hmethod, hparams]
  omega

namespace Server

variable {s s' : Server ℚ} {command : Command} {params : List Json} {padding : ℕ} {now : ℚ}

/-- Every text that a request has left to be escaped fits its buffer. -/
def Buffered (d : JsonDumps) (toText : ℚ → String) (s s' : Server ℚ) : Prop :=
  ∃ logs details, s'.operlog.list = s.operlog.list ++ logs ∧
    detailsOf s'.engine.statics.history = detailsOf s.engine.statics.history ++ details ∧
    (∀ log ∈ logs, InBuffer (d.dumps true log.detail)) ∧
    ∀ detail ∈ details, InBuffer (detail.dump toText d)

/-- The condition on a request: short parameters, and short numbers in the trades it makes. -/
structure RequestFits (mpd : Mpd ℚ) (d : JsonDumps) (toText : ℚ → String) (s : Server ℚ)
    (command : Command) (params : List Json) (padding : ℕ) (now : ℚ) : Prop where
  short : charsSize command.method.toList + (Json.array (command.logged params)).dumpSize d.realSize ≤
    5093
  trades : ∀ op, command.read mpd s.engine params padding now = .ok op → s.engine.TextsFit mpd toText op

theorem inBuffer_log (d : JsonDumps) (method : String) (params : List Json) :
    InBuffer (d.dumps true (operDetail method params)) ↔
      charsSize method.toList + (Json.array params).dumpSize d.realSize ≤ 5093 := by
  rw [inBuffer_iff, d.size, dumpSize_operDetail]
  omega

/-- The detail of an update is part of what is logged. -/
theorem inBuffer_update {mpd : Mpd ℚ} {op : Op ℚ} (d : JsonDumps) (toText : ℚ → String)
    (hread : command.read mpd s.engine params padding now = .ok op)
    (h : charsSize command.method.toList +
      (Json.array (command.logged params)).dumpSize d.realSize ≤ 5093) :
    ∀ detail ∈ Engine.updateDetails op, InBuffer (detail.dump toText d) := by
  intro detail hdetail
  cases command with
  | balanceUpdate =>
    obtain ⟨args, hargs, rfl⟩ := read_map.mp hread
    rw [List.mem_singleton.mp hdetail]
    obtain ⟨hlen, -, -, -, -, ⟨k, hk, hid⟩, -, hobj⟩ := readUpdateBalance_ok.mp hargs
    have hmem : Json.object (setId args.detail args.businessId) ∈
        Command.balanceUpdate.logged params := by
      simp only [Command.logged, hk, hobj, ← hid]
      exact List.mem_iff_getElem?.mpr ⟨5, by simp [hlen]⟩
    have hle := dumpSize_le_elements d.realSize hmem
    have hsize : (Json.array (Command.balanceUpdate.logged params)).dumpSize d.realSize =
      2 + elementsSize d.realSize (Command.balanceUpdate.logged params) := rfl
    rw [inBuffer_iff, Detail.dump, d.size]
    omega
  | orderPutLimit =>
    obtain ⟨r, -, rfl⟩ := read_map.mp hread
    cases hdetail
  | orderPutMarket =>
    obtain ⟨r, -, rfl⟩ := read_map.mp hread
    cases hdetail
  | orderCancel =>
    obtain ⟨r, -, rfl⟩ := read_map.mp hread
    cases hdetail

end Server

open Engine in
/-- **When the texts fit.** -/
theorem escaped_fits (d : JsonDumps) (toText : ℚ → String)
    (dictAsset : Dict String AssetType) (confs : List (MarketConf ℚ)) (e₀ : Engine ℚ)
    (ops : List (Op ℚ)) (s s' : Server ℚ) (blocked : Bool) (command : Command) (params : List Json)
    (padding : ℕ) (now : ℚ) (reply : Reply ℚ)
    (hinit : Engine.init decimal128 dictAsset confs = some e₀)
    (hrun : e₀.run decimal128 true ops = some s.engine)
    (hserve : s.onRecvPkg decimal128 blocked command params padding now = some (reply, s'))
    (hok : reply.isError = false) :
    s.Buffered d toText s' ↔ s.RequestFits decimal128 d toText command params padding now := by
  have hr : RoundsDown (roundDown 34) := roundsDown_roundDown
  have hsane : Sane e₀ s.engine := run_induction (P := Sane e₀)
    (fun e op e' h _ hstep => h.step hr hstep) (Q := fun _ _ => True) (fun _ _ _ _ _ _ => trivial)
    (sane_init hinit) hrun
  have hbooks : s.engine.Markets fun _ n m => BookOk n m := fun name m hm =>
    (hsane.kept name m hm).book
  obtain ⟨herr, -⟩ | ⟨-, op, hserved⟩ := Server.onRecvPkg_cases hserve
  · simp [hok] at herr
  obtain ⟨details, hdetails, hfits⟩ := details_step hr hbooks hserved.step
  have hlog := congrArg Operlog.list hserved.log
  constructor
  · rintro ⟨logs, details', hlogs, hdetails', hlogsFit, hdetailsFit⟩
    obtain rfl := List.append_cancel_left (hdetails.symm.trans hdetails')
    obtain rfl := List.append_cancel_left (hlog.symm.trans hlogs)
    refine ⟨(Server.inBuffer_log d _ _).mp (hlogsFit _ List.mem_cons_self), fun op' hread => ?_⟩
    rw [← Except.ok.inj (hserved.read.symm.trans hread)]
    exact ((hfits toText d).mp hdetailsFit).2
  · rintro ⟨hparams, htrades⟩
    refine ⟨_, details, hlog, hdetails, fun log hmem => ?_, (hfits toText d).mpr
      ⟨Server.inBuffer_update d toText hserved.read hparams, htrades op hserved.read⟩⟩
    rw [List.mem_singleton.mp hmem]
    exact (Server.inBuffer_log d _ _).mpr hparams

section Notes

/-- A printer for requests without real numbers. -/
def wholeDumps : JsonDumps := plainDumps fun _ => []

/-- An empty deposit. -/
theorem deposit_buffered : ∃ (s s' : Server ℚ) (reply : Reply ℚ), exampleServer = some s ∧
    s.onRecvPkg decimal128 false .balanceUpdate depositParams 0 0 = some (reply, s') ∧
      reply.isError = false ∧ s.Buffered wholeDumps (fun _ => "1") s' := by
  obtain ⟨s, s', reply, hs, hserve, hok⟩ := deposit_served
  obtain ⟨e, he, rfl⟩ := Option.map_eq_some_iff.mp hs
  refine ⟨_, s', reply, hs, hserve, hok, (escaped_fits wholeDumps _ exampleAssets [exampleConf 8] e []
    _ s' false .balanceUpdate depositParams 0 0 reply he rfl hserve hok).mpr ⟨by decide, ?_⟩⟩
  intro op hread
  obtain ⟨args, -, rfl⟩ := read_map.mp hread
  trivial

/-- A deposit with a detail. -/
def detailParams (detail : List (String × Json)) : List Json :=
  [.integer 1, .string "BTC", .string "deposit", .integer 1, .string "1", .object detail]

def noteParams (note : String) : List Json := detailParams [("note", .string note)]

/-- Nothing but apostrophes, each of which is escaped by two bytes. -/
def apostrophes (n : ℕ) : String := String.ofList (List.replicate n (Char.ofNat 39))

theorem charsSize_apostrophes (n : ℕ) : charsSize (apostrophes n).toList = n := by
  have hone : charSize (Char.ofNat 39) = 1 := by decide
  simp [apostrophes, charsSize, hone]

/-- More than half a buffer. -/
@[irreducible] def longNote : String := apostrophes 5200

theorem charsSize_longNote : charsSize longNote.toList = 5200 := by
  unfold longNote
  exact charsSize_apostrophes 5200

theorem note_served : ∃ (s s' : Server ℚ) (reply : Reply ℚ), exampleServer = some s ∧
    s.onRecvPkg decimal128 false .balanceUpdate (noteParams longNote) 0 0 = some (reply, s') ∧
      reply.isError = false :=
  exampleServer_served (by decide +kernel)

theorem dumpSize_detailParams (realSize : ℚ → ℕ) (detail : List (String × Json)) :
    (Json.array (detailParams detail)).dumpSize realSize = 33 + membersSize realSize detail := by
  have hcoin : stringSize "BTC" = 5 := by decide
  have hbusiness : stringSize "deposit" = 9 := by decide
  have hone : stringSize "1" = 3 := by decide
  have hint : integerSize 1 = 1 := by decide
  simp only [detailParams, Json.dumpSize, elementsSize, hcoin, hbusiness, hone, hint]
  omega

theorem dumpSize_noteParams (realSize : ℚ → ℕ) (note : String) :
    (Json.array (noteParams note)).dumpSize realSize = 43 + charsSize note.toList := by
  have hnote : stringSize "note" = 6 := by decide
  rw [noteParams, dumpSize_detailParams, membersSize, Json.dumpSize, hnote, stringSize]
  omega

theorem dumpSize_logged (realSize : ℚ → ℕ) (note : String) :
    (Json.array (Command.balanceUpdate.logged (noteParams note))).dumpSize realSize =
      52 + charsSize note.toList := by
  have hnote : stringSize "note" = 6 := by decide
  have hid : stringSize "id" = 4 := by decide
  have hint : integerSize 1 = 1 := by decide
  have hlogged : Command.balanceUpdate.logged (noteParams note) =
      detailParams [("note", .string note), ("id", .integer 1)] := by
    rfl
  rw [hlogged, dumpSize_detailParams, membersSize, membersSize, Json.dumpSize, Json.dumpSize, hnote,
    hid, hint, stringSize]
  omega

/-- **A long note is written over the end of the buffer**, in a request of half a package. -/
theorem note_overruns : ¬ ∀ (d : JsonDumps) (toText : ℚ → String) (s s' : Server ℚ)
    (command : Command) (params : List Json) (padding : ℕ) (now : ℚ) (reply : Reply ℚ),
      exampleServer = some s → (Json.array params).dumpSize d.realSize ≤ 5300 →
        s.onRecvPkg decimal128 false command params padding now = some (reply, s') →
          reply.isError = false → s.Buffered d toText s' := fun hall => by
  obtain ⟨s, s', reply, hs, hserve, hok⟩ := note_served
  have hsize : (Json.array (noteParams longNote)).dumpSize wholeDumps.realSize ≤ 5300 := by
    rw [dumpSize_noteParams, charsSize_longNote]
    omega
  obtain ⟨logs, details, hlogs, -, hfits, -⟩ := hall wholeDumps (fun _ => "1") s s' .balanceUpdate
    (noteParams longNote) 0 0 reply hs hsize hserve hok
  obtain ⟨herr, -⟩ | ⟨-, op, hserved⟩ := Server.onRecvPkg_cases hserve
  · simp [hok] at herr
  have hlist := congrArg Operlog.list hserved.log
  obtain rfl := List.append_cancel_left (hlist.symm.trans hlogs)
  have hlogged : (Json.array (Command.balanceUpdate.logged (noteParams longNote))).dumpSize
      wholeDumps.realSize = 52 + charsSize longNote.toList := dumpSize_logged _ _
  have hshort := (Server.inBuffer_log wholeDumps Command.balanceUpdate.method
    (Command.balanceUpdate.logged (noteParams longNote))).mp (hfits _ List.mem_cons_self)
  rw [hlogged, charsSize_longNote] at hshort
  omega

end Notes

end ViabtcExchange
