import ViabtcExchange.HistorySql
import ViabtcExchange.Lib.Paging
import ViabtcExchange.Lives
import ViabtcExchange.Replies

/-!
# Reading the open orders in pages (`me_server.c`)

`order.query` lists the orders of a user in a market, the newest first, and `order.book` those on a
side of the book. A client reads such a list page by page, and the engine does not wait for it:
between two pages it serves other requests.

**Theorem (`order_query_pages`).** An order that stays open is on some page as long as no newer
order of the user is closed, and on one page at most as long as the user rests no order.
**Theorem (`order_book_pages`).** An order that stays on the book is on some page as long as no
order before it leaves the book, and on one page at most as long as none undercuts it.
-/

namespace ViabtcExchange

/-! ## The handlers -/

/-- What `get_order_info` shows of an order, the times aside. -/
structure OrderInfo (D : Type) where
  id : ℕ
  market : String
  source : Option String
  type : OrderType
  side : OrderSide
  user : ℕ
  price : D
  amount : D
  takerFee : D
  makerFee : D
  left : D
  dealStock : D
  dealMoney : D
  dealFee : D
deriving DecidableEq, Repr

def getOrderInfo {D : Type} (order : Order D) : OrderInfo D where
  id := order.id
  market := order.market
  source := order.source
  type := order.type
  side := order.side
  user := order.userId
  price := order.price
  amount := order.amount
  takerFee := order.takerFee
  makerFee := order.makerFee
  left := order.left
  dealStock := order.dealStock
  dealMoney := order.dealMoney
  dealFee := order.dealFee

/-- The result of `order.query`, and that of `order.book`, which calls the records "orders". -/
structure OrderRecords (D : Type) where
  limit : ℤ
  offset : ℤ
  total : ℕ
  records : List (OrderInfo D)
deriving DecidableEq, Repr

/-- `ORDER_LIST_MAX_LEN`. -/
def orderListMaxLen : ℕ := 101

/-- `ORDER_BOOK_MAX_LEN`. -/
def orderBookMaxLen : ℕ := 101

/-- `json_integer` of a `size_t`. -/
def ofUint64 (n : ℕ) : ℤ := (n : ℤ).bmod (2 ^ 64)

section Handlers

variable {D : Type}

/-- The walk of both handlers: `offset` nodes are passed over, then up to `limit` shown. -/
def Market.showOrders (m : Market D) (ids : List ℕ) (offset limit : ℕ) : OrderRecords D where
  limit := ofUint64 limit
  offset := ofUint64 offset
  total := ids.length
  records :=
    if offset < ids.length then (page offset limit ids).map fun id => getOrderInfo (m.order id)
    else []

/-- A user without a list is answered as one with an empty list. -/
def Engine.onCmdOrderQuery (e : Engine D) (params : List Json) : Except Refusal (OrderRecords D) := do
  check (params.length = 4)
  let userId ← integerAt params 0
  let (_, m) ← marketAt params e.dictMarket 1
  let offset ← integerAt params 2
  let limit ← integerAt params 3
  check (toUint64 limit ≤ orderListMaxLen)
  return m.showOrders ((marketGetOrderList m (toUint32 userId)).getD []) (toUint64 offset)
    (toUint64 limit)

def Engine.onCmdOrderBook (e : Engine D) (params : List Json) : Except Refusal (OrderRecords D) := do
  check (params.length = 4)
  let (_, m) ← marketAt params e.dictMarket 0
  let side ← sideAt params 1
  let offset ← integerAt params 2
  let limit ← integerAt params 3
  check (toUint64 limit ≤ orderBookMaxLen)
  return m.showOrders (m.book side) (toUint64 offset) (toUint64 limit)

/-- `none` is answered as `null`. -/
def Engine.onCmdOrderDetail (e : Engine D) (params : List Json) :
    Except Refusal (Option (OrderInfo D)) := do
  check (params.length = 2)
  let (_, m) ← marketAt params e.dictMarket 0
  let orderId ← integerAt params 1
  return (marketGetOrder m (toUint64 orderId)).map fun id => getOrderInfo (m.order id)

theorem Market.showOrders_records (m : Market D) (ids : List ℕ) (offset limit : ℕ) :
    (m.showOrders ids offset limit).records =
      (page offset limit ids).map fun id => getOrderInfo (m.order id) := by
  unfold Market.showOrders
  split_ifs with h
  · rfl
  · rw [page, List.drop_eq_nil_of_le (not_lt.mp h), List.take_nil, List.map_nil]

/-- The ids of the orders that are shown. -/
def OrderRecords.ids (r : OrderRecords D) : List ℕ := r.records.map OrderInfo.id

/-- Of a list of orders that are what their ids say, a page is shown. -/
theorem Market.showOrders_ids {m : Market D} {ids : List ℕ} (h : ∀ i ∈ ids, (m.order i).id = i)
    (offset limit : ℕ) : (m.showOrders ids offset limit).ids = page offset limit ids := by
  rw [OrderRecords.ids, Market.showOrders_records, List.map_map]
  refine (List.map_congr_left fun i hi => ?_).trans (List.map_id _)
  exact h i (List.mem_of_mem_drop (List.mem_of_mem_take hi))

theorem toUint64_natCast {n : ℕ} (h : n < 2 ^ 64) : toUint64 n = n := by
  unfold toUint64
  omega

theorem toUint32_natCast {n : ℕ} (h : n < 2 ^ 32) : toUint32 n = n := by
  unfold toUint32
  omega

theorem ofUint64_natCast {n : ℕ} (h : n < 2 ^ 63) : ofUint64 n = n := by
  unfold ofUint64
  rw [Int.bmod_eq_of_le] <;> omega

/-- What is answered to a request for a page of the orders of a user. -/
theorem Engine.onCmdOrderQuery_ok {e : Engine D} {name : String} {userId offset limit : ℤ}
    {r : OrderRecords D}
    (h : e.onCmdOrderQuery [.integer userId, .string name, .integer offset, .integer limit] = .ok r) :
    ∃ m, e.dictMarket.find name = some m ∧ toUint64 limit ≤ orderListMaxLen ∧
      r = m.showOrders ((m.users.find (toUint32 userId)).getD []) (toUint64 offset)
        (toUint64 limit) := by
  unfold Engine.onCmdOrderQuery at h
  simp only [read_bind, check_ok, integerAt_ok, decide_eq_true_eq] at h
  obtain ⟨-, -, u, hu, ⟨name', m⟩, hmarket, o, ho, l, hl, -, hlimit, hr⟩ := h
  obtain ⟨str, hstr, hfind⟩ := read_bind.mp hmarket
  cases stringAt_ok.mp hstr
  cases hu
  cases ho
  cases hl
  obtain hr := Except.ok.inj hr
  cases hm : e.dictMarket.find name with
  | none => simp [hm] at hfind
  | some m' =>
    rw [hm] at hfind
    cases hfind
    exact ⟨m, rfl, hlimit, hr.symm⟩

/-- What is answered to a request for a page of the book. -/
theorem Engine.onCmdOrderBook_ok {e : Engine D} {name : String} {code offset limit : ℤ}
    {r : OrderRecords D}
    (h : e.onCmdOrderBook [.string name, .integer code, .integer offset, .integer limit] = .ok r) :
    ∃ m side, e.dictMarket.find name = some m ∧ sideAt [.integer code] 0 = .ok side ∧
      toUint64 limit ≤ orderBookMaxLen ∧
      r = m.showOrders (m.book side) (toUint64 offset) (toUint64 limit) := by
  unfold Engine.onCmdOrderBook at h
  simp only [read_bind, check_ok, integerAt_ok, decide_eq_true_eq] at h
  obtain ⟨-, -, ⟨name', m⟩, hmarket, side, hside, o, ho, l, hl, -, hlimit, hr⟩ := h
  obtain ⟨str, hstr, hfind⟩ := read_bind.mp hmarket
  cases stringAt_ok.mp hstr
  cases ho
  cases hl
  obtain hr := Except.ok.inj hr
  cases hm : e.dictMarket.find name with
  | none => simp [hm] at hfind
  | some m' =>
    rw [hm] at hfind
    cases hfind
    exact ⟨m, side, rfl, hside, hlimit, hr.symm⟩

end Handlers

/-! ## Orders that stay -/

/-- The better of two prices on a side. -/
def OrderSide.Better : OrderSide → ℚ → ℚ → Prop
  | .ask, price, price' => price < price'
  | .bid, price, price' => price' < price

/-- A later order is before an earlier one for a better price only. -/
theorem OrderSide.better_of_key {m m' : Market ℚ} {side : OrderSide} {i j : ℕ}
    (h : m'.key side i < m.key side j) (hij : j < i) :
    side.Better (m'.order i).price (m.order j).price := by
  cases side with
  | ask =>
    rcases Prod.Lex.toLex_lt_toLex.mp h with hlt | ⟨-, hlt⟩
    · exact hlt
    · exact absurd hlt hij.asymm
  | bid =>
    rcases Prod.Lex.toLex_lt_toLex.mp h with hlt | ⟨-, hlt⟩
    · exact neg_lt_neg_iff.mp hlt
    · exact absurd hlt hij.asymm

section Requests

variable {round : ℚ → ℚ} {n : ℕ} {x : Matching ℚ} {e₀ e e' : Execution ℚ} {m : Market ℚ}
  {s : Statics ℚ} {real : Bool} {P : ℕ → OrderSide → ℚ → Prop}

/-- The loop on its way: the orders look as they did, and none has come back to the book. -/
structure Sights (n : ℕ) (x : Matching ℚ) (e₀ : Execution ℚ) (ids : List ℕ) (e : Execution ℚ) :
    Prop where
  visits : Visits n x e₀ ids e
  face : ∀ i, SameFace (e₀.market.order i) (e.market.order i)
  book : ∀ side, e.market.book side ⊆ e₀.market.book side

theorem Sights.step {id : ℕ} {ids : List ℕ} {t : Terms ℚ} (h : Sights n x e₀ (id :: ids) e) :
    Sights n x e₀ ids (executeTrade (ratMpd round) real x e id t) := by
  have hid := h.visits.wf.mem _ id (h.visits.mem id List.mem_cons_self)
  have htraded := executeTrade_market round real x e t h.visits.wf hid
  refine ⟨h.visits.step, fun i => (h.face i).trans ?_, fun side i hi => h.book side ?_⟩
  · rw [htraded.order, Function.update_apply]
    split_ifs with hi
    · rw [hi]
      exact sameFace_fillMaker _ x _ t
    · exact sameFace_refl _
  · rw [htraded.book] at hi
    split_ifs at hi
    · exact List.mem_of_mem_erase hi
    · exact hi

theorem sights_execute (h : e.market.WF n) (hrun : x.execute (ratMpd round) real e = some e') :
    ∃ ids, Sights n x e ids e' := by
  obtain ⟨ids, hw, -⟩ := executeLoop_rule (ratMpd round) real x (P := Sights n x e)
    (fun _ _ _ _ h _ _ => h.step)
      ⟨⟨h, fun _ hi => hi, h.nodup _, sameFace_refl _, rfl, subset_rfl⟩, fun _ => sameFace_refl _,
        fun _ => List.Subset.refl _⟩ hrun
  exact ⟨ids, hw⟩

/-- What a market has become: the orders look as they did when they were made, none has come back
to the book, and the new ones satisfy `P`. -/
structure Later (P : ℕ → OrderSide → ℚ → Prop) (n : ℕ) (m : Market ℚ) (n' : ℕ) (m' : Market ℚ) :
    Prop where
  le : n ≤ n'
  wf : m'.WF n'
  face : ∀ i ≤ n, SameFace (m.order i) (m'.order i)
  book : ∀ side, ∀ i ∈ m'.book side, i ∈ m.book side ∨ n < i
  orders : ∀ i ∈ m'.orders, i ∈ m.orders ∨
    n < i ∧ P (m'.order i).userId (m'.order i).side (m'.order i).price

theorem Later.refl (h : m.WF n) : Later P n m n m :=
  ⟨le_rfl, h, fun _ _ => sameFace_refl _, fun _ _ => Or.inl, fun _ => Or.inl⟩

theorem Later.trans {m' m'' : Market ℚ} {n' n'' : ℕ} (h : Later P n m n' m')
    (h' : Later P n' m' n'' m'') : Later P n m n'' m'' where
  le := h.le.trans h'.le
  wf := h'.wf
  face i hi := (h.face i hi).trans (h'.face i (hi.trans h.le))
  book side i hi := (h'.book side i hi).elim (h.book side i) fun hlt => Or.inr (h.le.trans_lt hlt)
  orders i hi := by
    rcases h'.orders i hi with hold | ⟨hlt, hP⟩
    · refine (h.orders i hold).imp_right fun ⟨hlt, hP⟩ => ⟨hlt, ?_⟩
      have hface := h'.face i (h.wf.le i hold)
      rwa [hface.userId, hface.side, hface.price]
    · exact Or.inr ⟨h.le.trans_lt hlt, hP⟩

/-- The keys of the orders do not change. -/
theorem Later.key {m' : Market ℚ} {n' i : ℕ} (h : Later P n m n' m') (hi : i ≤ n)
    (side : OrderSide) : m'.key side i = m.key side i := by
  cases side <;> simp only [Market.key, (h.face i hi).price]

theorem Sights.later {ids : List ℕ} (h : Sights n x e₀ ids e) {n' : ℕ} (hn : n ≤ n') :
    Later P n e₀.market n' e.market :=
  ⟨hn, h.visits.wf.mono hn, fun i _ => h.face i, fun side _ hi => Or.inl (h.book side hi),
    fun _ hi => Or.inl (h.visits.orders hi)⟩

variable {userId : ℕ} {side : OrderSide} {amount price takerFee makerFee : ℚ} {source : String}
  {o : Outcome ℚ}

theorem later_putLimit (h : m.WF s.orderIdStart) (hP : P userId side price)
    (hput : marketPutLimitOrder (ratMpd round) real s m userId side amount price takerFee makerFee
      source = some o) : Later P s.orderIdStart m o.statics.orderIdStart o.market := by
  rcases marketPutLimitOrder_cases hput with ⟨ret, -, rfl⟩ | ⟨-, -, e, hrun, rfl⟩
  · exact Later.refl h
  · obtain ⟨x, ids, hw⟩ : ∃ x ids, Sights s.orderIdStart x (startLimit (ratMpd round) s m userId side
        amount price takerFee makerFee source) ids e := by
      unfold executeLimitOrder at hrun
      split at hrun <;> exact ⟨_, sights_execute h hrun⟩
    have hstart : e.statics.orderIdStart = s.orderIdStart + 1 :=
      congrArg Prod.fst (executeLimitOrder_fixed hrun)
    have hid : e.taker.id = s.orderIdStart + 1 := hw.visits.face.id
    by_cases hleft : e.taker.left = 0
    · obtain ⟨hm, hs⟩ := restLimitOrder_filled _ rfl real hleft
      have hn : (restLimitOrder (ratMpd round) real e).statics.orderIdStart = s.orderIdStart + 1 :=
        (congrArg Statics.orderIdStart hs).trans hstart
      rw [hn, hm]
      exact hw.later (Nat.le_succ _)
    · obtain ⟨hrest, hs⟩ := restLimitOrder_rests round real hw.visits.wf
        (by rw [hid]; exact Nat.lt_succ_self _) hw.visits.face.type
        (hw.visits.face.market.trans (congrArg MarketConf.name hw.visits.conf).symm) hleft
      have hn : (restLimitOrder (ratMpd round) real e).statics.orderIdStart = e.taker.id :=
        (congrArg Statics.orderIdStart hs).trans (hstart.trans hid.symm)
      rw [hn]
      refine ⟨by omega, hrest.wf, fun i hi => ?_, fun sd i hi => ?_, fun i hi => ?_⟩
      · rw [hrest.order, Function.update_of_ne (by omega)]
        exact hw.face i
      · by_cases hsd : sd = e.taker.side
        · rw [hsd, hrest.book.mem_iff, List.mem_cons] at hi
          rcases hi with rfl | hi
          · exact Or.inr (by omega)
          · exact Or.inl (hsd ▸ hw.book _ hi)
        · rw [hrest.other sd hsd] at hi
          exact Or.inl (hw.book sd hi)
      · rw [hrest.orders] at hi
        rcases Finset.mem_insert.mp hi with rfl | hi
        · refine Or.inr ⟨by omega, ?_⟩
          rw [hrest.order, Function.update_self]
          change P e.taker.userId e.taker.side e.taker.price
          rwa [hw.visits.face.userId, hw.visits.face.side, hw.visits.face.price]
        · exact Or.inl (hw.visits.orders hi)

theorem later_putMarket (h : m.WF s.orderIdStart)
    (hput : marketPutMarketOrder (ratMpd round) real s m userId side amount takerFee source =
      some o) : Later P s.orderIdStart m o.statics.orderIdStart o.market := by
  rcases marketPutMarketOrder_cases hput with ⟨ret, -, rfl⟩ | ⟨-, e, hrun, rfl⟩
  · exact Later.refl h
  · obtain ⟨x, ids, hw⟩ : ∃ x ids, Sights s.orderIdStart x (startMarket (ratMpd round) s m userId
        side amount takerFee source) ids e := by
      unfold executeMarketOrder at hrun
      split at hrun <;> exact ⟨_, sights_execute h hrun⟩
    have hn : (closeMarketOrder real e).statics.orderIdStart = s.orderIdStart + 1 :=
      (congrArg Prod.fst (closeMarketOrder_fixed real e)).trans
        (congrArg Prod.fst (executeMarketOrder_fixed hrun))
    rw [hn]
    exact hw.later (Nat.le_succ _)

theorem later_cancel {id : ℕ} (h : m.WF s.orderIdStart) (hid : id ∈ m.orders) :
    Later P s.orderIdStart m (marketCancelOrder (ratMpd round) real s m id).statics.orderIdStart
      (marketCancelOrder (ratMpd round) real s m id).market := by
  have hfin := orderFinish_market round real
    (s.push real (.order .finish (m.order id) m.stock m.money)) h hid
  have hn : (marketCancelOrder (ratMpd round) real s m id).statics.orderIdStart = s.orderIdStart :=
    congrArg Prod.fst (marketCancelOrder_fixed (ratMpd round) real s m id)
  rw [hn]
  refine ⟨le_rfl, hfin.wf, fun i _ => ?_, fun side i hi => Or.inl ?_, fun i hi => Or.inl ?_⟩
  · change SameFace _ ((orderFinish (ratMpd round) real _ m id).2.order i)
    rw [hfin.order]
    exact sameFace_refl _
  · refine List.mem_of_mem_erase (a := i) (b := id) ?_
    rw [← hfin.book]
    exact hi
  · by_cases hstuck : orderStuck (ratMpd round)
        (s.push real (.order .finish (m.order id) m.stock m.money)) m id = true
    · exact hfin.kept hstuck ▸ hi
    · exact Finset.mem_of_mem_erase (hfin.dropped hstuck ▸ hi)

end Requests

namespace Engine

variable {round : ℚ → ℚ} {real : Bool} {d : Dict String (Market ℚ)} {e e' : Engine ℚ} {op : Op ℚ}
  {name : String} {m m' : Market ℚ} {P : ℕ → OrderSide → ℚ → Prop}

/-- The limit orders of a market satisfy `P`. -/
def Places (name : String) (P : ℕ → OrderSide → ℚ → Prop) : Op ℚ → Prop
  | .limitOrder args => args.market = name → P args.userId args.side args.price
  | _ => True

theorem later_step (h : Shaped d e) (hop : Places name P op)
    (hstep : e.step (ratMpd round) real op = some e') (hm : e.dictMarket.find name = some m)
    (hm' : e'.dictMarket.find name = some m') :
    Later P e.statics.orderIdStart m e'.statics.orderIdStart m' := by
  have hwf := h.wf name m hm
  have hsame : e'.dictMarket.find name = some m → e.statics.orderIdStart ≤ e'.statics.orderIdStart →
      Later P e.statics.orderIdStart m e'.statics.orderIdStart m' := fun hfind hle => by
    obtain rfl := Option.some.inj (hfind.symm.trans hm')
    exact ⟨hle, hwf.mono hle, fun _ _ => sameFace_refl _, fun _ _ => Or.inl, fun _ => Or.inl⟩
  have hle := (step_fixed hstep).2
  -- a request on a market writes back this one
  have hput : ∀ {name₁ s m₁}, e' = e.put name₁ s m₁ →
      (∀ m₀, e.dictMarket.find name₁ = some m₀ → name₁ = name →
        Later P e.statics.orderIdStart m₀ s.orderIdStart m₁) →
      Later P e.statics.orderIdStart m e'.statics.orderIdStart m' := by
    rintro name₁ s m₁ rfl hlater
    by_cases hname : name = name₁
    · rw [Engine.put, Dict.find_insert, if_pos hname] at hm'
      obtain rfl := Option.some.inj hm'
      exact hlater m (hname ▸ hm) hname.symm
    · refine hsame ?_ hle
      rw [Engine.put, Dict.find_insert, if_neg hname]
      exact hm
  have hcases := step_cases hstep
  cases op with
  | updateBalance args padding now =>
    obtain ⟨s, dict, -, rfl⟩ := hcases
    exact hsame hm hle
  | limitOrder args =>
    obtain ⟨m₁, o, hm₁, -, ho, -, heq⟩ := hcases
    refine hput heq fun m₀ hm₀ hname => ?_
    obtain rfl := Option.some.inj (hm₁.symm.trans hm₀)
    exact later_putLimit (h.wf _ _ hm₁) (hop hname) ho
  | marketOrder args =>
    obtain ⟨m₁, o, hm₁, -, ho, -, heq⟩ := hcases
    refine hput heq fun m₀ hm₀ _ => ?_
    obtain rfl := Option.some.inj (hm₁.symm.trans hm₀)
    exact later_putMarket (h.wf _ _ hm₁) ho
  | cancelOrder args =>
    obtain ⟨m₁, hm₁, hid, -, heq⟩ := hcases
    refine hput heq fun m₀ hm₀ _ => ?_
    obtain rfl := Option.some.inj (hm₁.symm.trans hm₀)
    exact later_cancel (h.wf _ _ hm₁) hid
  | expire now =>
    have heq : e' = { e with dictUpdate := expireUpdates e.dictUpdate now } := hcases
    exact hsame (by rw [heq]; exact hm) hle

theorem later_run {ops : List (Op ℚ)} (h : Shaped d e) (hops : ∀ op ∈ ops, Places name P op)
    (hrun : e.run (ratMpd round) real ops = some e') (hm : e.dictMarket.find name = some m)
    (hm' : e'.dictMarket.find name = some m') :
    Later P e.statics.orderIdStart m e'.statics.orderIdStart m' := by
  induction ops generalizing e m with
  | nil =>
    obtain rfl := Option.some.inj hrun
    obtain rfl := Option.some.inj (hm.symm.trans hm')
    exact Later.refl (h.wf name m hm)
  | cons op ops ih =>
    rw [run_cons] at hrun
    obtain ⟨e₁, hstep, hrun⟩ := Option.bind_eq_some_iff.mp hrun
    have h₁ := h.step hstep
    have hconf := (h₁.conf name).trans (h.conf name).symm
    rw [hm, Option.map_some] at hconf
    obtain ⟨m₁, hm₁, -⟩ := Option.map_eq_some_iff.mp hconf
    obtain ⟨hop, hops⟩ := List.forall_mem_cons.mp hops
    exact (later_step h hop hstep hm hm₁).trans (ih h₁ hops hrun hm₁)

/-! ## Page after page -/

/-- The engine when the pages `0` to `n` are asked for, and what it serves in between. -/
structure Reading (mpd : Mpd ℚ) (e₀ : Engine ℚ) (n : ℕ) (es : ℕ → Engine ℚ) (ops : ℕ → List (Op ℚ)) :
    Prop where
  start : ∃ before, e₀.run mpd true before = some (es 0)
  next : ∀ k < n, (es k).run mpd true (ops k) = some (es (k + 1))

section Pages

variable {e₀ : Engine ℚ} {dictAsset : Dict String AssetType} {confs : List (MarketConf ℚ)} {n : ℕ}
  {es : ℕ → Engine ℚ} {ops : ℕ → List (Op ℚ)} {side : OrderSide} {userId x : ℕ}

theorem Shaped.run {ops : List (Op ℚ)} (h : Shaped d e) (hrun : e.run (ratMpd round) real ops = some e') :
    Shaped d e' :=
  run_induction (Q := fun _ _ => True) (fun _ _ _ h _ hstep => h.step hstep)
    (fun _ _ _ _ _ _ => trivial) h hrun

theorem Reading.shaped (h : Reading (ratMpd round) e₀ n es ops)
    (hinit : Engine.init (ratMpd round) dictAsset confs = some e₀) {k : ℕ} (hk : k ≤ n) :
    Shaped e₀.dictMarket (es k) := by
  induction k with
  | zero =>
    obtain ⟨before, hrun⟩ := h.start
    exact (shaped_init hinit).run hrun
  | succ k ih => exact (ih (by omega)).run (h.next k hk)

/-- What a market becomes from one page to another. -/
theorem Reading.later (h : Reading (ratMpd round) e₀ n es ops)
    (hinit : Engine.init (ratMpd round) dictAsset confs = some e₀) {k k' : ℕ} (hle : k ≤ k')
    (hk' : k' ≤ n) (hm : (es k).dictMarket.find name = some m)
    (hm' : (es k').dictMarket.find name = some m') :
    Later (fun _ _ _ => True) (es k).statics.orderIdStart m (es k').statics.orderIdStart m' := by
  obtain ⟨j, rfl⟩ := Nat.exists_eq_add_of_le hle
  have hplaces : ∀ op : Op ℚ, Places name (fun _ _ _ => True) op := fun op => by
    cases op <;> simp [Places]
  induction j generalizing m' with
  | zero =>
    obtain rfl := Option.some.inj (hm.symm.trans hm')
    exact Later.refl ((h.shaped hinit (by omega)).wf name m hm)
  | succ j ih =>
    have hconf := ((h.shaped hinit (k := k + j) (by omega)).conf name).trans
      ((h.shaped hinit (k := k) (by omega)).conf name).symm
    rw [hm, Option.map_some] at hconf
    obtain ⟨m₁, hm₁, -⟩ := Option.map_eq_some_iff.mp hconf
    exact (ih (by omega) (by omega) hm₁).trans (later_run (h.shaped hinit (by omega))
      (fun op _ => hplaces op) (h.next (k + j) (by omega)) hm₁ hm')

/-- The market every page is read from. -/
theorem Reading.market (h : Reading (ratMpd round) e₀ n es ops)
    (hinit : Engine.init (ratMpd round) dictAsset confs = some e₀) {ms : ℕ → Market ℚ}
    (hms : ∀ k ≤ n, (es k).dictMarket.find name = some (ms k)) {k : ℕ} (hk : k ≤ n) :
    (ms k).WF (es k).statics.orderIdStart := (h.shaped hinit hk).wf name _ (hms k hk)

/-- An order that is there later on was there all the time, from when it had its id. -/
theorem Reading.mem_orders (h : Reading (ratMpd round) e₀ n es ops)
    (hinit : Engine.init (ratMpd round) dictAsset confs = some e₀) {ms : ℕ → Market ℚ}
    (hms : ∀ k ≤ n, (es k).dictMarket.find name = some (ms k)) {k j k' : ℕ} (hkj : k ≤ j)
    (hjk' : j ≤ k') (hk' : k' ≤ n) (hx : x ∈ (ms k).orders) (hx' : x ∈ (ms k').orders) :
    x ∈ (ms j).orders := by
  have hle := (h.market hinit hms (by omega)).le x hx
  have hlater := (h.later hinit hkj (by omega) (hms k (by omega)) (hms j (by omega))).le
  rcases (h.later hinit hjk' hk' (hms j (by omega)) (hms k' hk')).orders x hx' with hold | ⟨hnew, -⟩
  · exact hold
  · omega

/-- An order is open in a market, for a user. -/
def Open (e : Engine ℚ) (name : String) (userId i : ℕ) : Prop :=
  ∃ m, e.dictMarket.find name = some m ∧ i ∈ m.orders ∧ (m.order i).userId = userId

/-- A limit order of a user in a market. -/
def RestsFor (name : String) (userId : ℕ) : Op ℚ → Prop
  | .limitOrder args => args.market = name ∧ args.userId = userId
  | _ => False

/-- The replies to the requests for the pages of the orders of a user. -/
structure UserPages (es : ℕ → Engine ℚ) (name : String) (userId limit n : ℕ) (ms : ℕ → Market ℚ)
    (rs : ℕ → OrderRecords ℚ) : Prop where
  find : ∀ k ≤ n, (es k).dictMarket.find name = some (ms k)
  reply : ∀ k ≤ n, rs k =
    (ms k).showOrders (((ms k).users.find userId).getD []) (k * limit) limit

theorem userPages_of_replies {limit : ℕ} (huser : userId < 2 ^ 32) (hlimit : limit ≤ orderListMaxLen)
    (hoffset : n * limit < 2 ^ 63) {rs : ℕ → OrderRecords ℚ}
    (hrs : ∀ k ≤ n, (es k).onCmdOrderQuery
      [.integer userId, .string name, .integer (k * limit : ℕ), .integer limit] = .ok (rs k)) :
    ∃ ms, UserPages es name userId limit n ms rs := by
  have hlimit' : toUint64 (limit : ℤ) = limit :=
    toUint64_natCast (hlimit.trans_lt (by norm_num [orderListMaxLen]))
  have hreply : ∀ k, ∃ m, k ≤ n → (es k).dictMarket.find name = some m ∧
      rs k = m.showOrders ((m.users.find userId).getD []) (k * limit) limit := by
    intro k
    by_cases hk : k ≤ n
    · obtain ⟨m, hm, -, hr⟩ := onCmdOrderQuery_ok (hrs k hk)
      have hle : k * limit ≤ n * limit := Nat.mul_le_mul_right _ hk
      rw [toUint32_natCast huser, hlimit', toUint64_natCast (by omega)] at hr
      exact ⟨m, fun _ => ⟨hm, hr⟩⟩
    · obtain ⟨m, -⟩ := onCmdOrderQuery_ok (hrs 0 (Nat.zero_le _))
      exact ⟨m, fun hk' => absurd hk' hk⟩
  choose ms hms using hreply
  exact ⟨ms, fun k hk => (hms k hk).1, fun k hk => (hms k hk).2⟩

namespace UserPages

variable {limit : ℕ} {ms : ℕ → Market ℚ} {rs : ℕ → OrderRecords ℚ}
  (h : UserPages es name userId limit n ms rs) (hread : Reading (ratMpd round) e₀ n es ops)
  (hinit : Engine.init (ratMpd round) dictAsset confs = some e₀)

include h hread hinit

/-- A page is one of the list of the user. -/
theorem list {k : ℕ} (hk : k ≤ n) :
    Ordered OrderDual.toDual (((ms k).users.find userId).getD []) ∧
      ∀ i, i ∈ ((ms k).users.find userId).getD [] ↔ i ∈ (ms k).orders ∧
        ((ms k).order i).userId = userId :=
  (hread.market hinit h.find hk).userList_spec userId

theorem ids {k : ℕ} (hk : k ≤ n) :
    (rs k).ids = page (k * limit) limit (((ms k).users.find userId).getD []) := by
  rw [h.reply k hk]
  exact Market.showOrders_ids (fun i hi => ((hread.market hinit h.find hk).named i
    (((h.list hread hinit hk).2 i).mp hi).1).id) _ _

/-- Orders are shown as they are, and those of the user only. -/
theorem record {k : ℕ} (hk : k ≤ n) {info : OrderInfo ℚ} (hinfo : info ∈ (rs k).records) :
    info.id ∈ (ms k).orders ∧ ((ms k).order info.id).userId = userId ∧
      info = getOrderInfo ((ms k).order info.id) := by
  rw [h.reply k hk, Market.showOrders_records] at hinfo
  obtain ⟨i, hi, rfl⟩ := List.mem_map.mp hinfo
  obtain ⟨horder, huid⟩ := ((h.list hread hinit hk).2 i).mp
    (List.mem_of_mem_drop (List.mem_of_mem_take hi))
  have hid : ((ms k).order i).id = i := ((hread.market hinit h.find hk).named i horder).id
  change ((ms k).order i).id ∈ _ ∧ ((ms k).order ((ms k).order i).id).userId = _ ∧
    _ = getOrderInfo ((ms k).order ((ms k).order i).id)
  rw [hid]
  exact ⟨horder, huid, rfl⟩

theorem open_iff {k : ℕ} (hk : k ≤ n) (i : ℕ) :
    (es k).Open name userId i ↔ i ∈ ((ms k).users.find userId).getD [] := by
  rw [(h.list hread hinit hk).2]
  refine ⟨fun ⟨m, hm, hi⟩ => ?_, fun hi => ⟨ms k, h.find k hk, hi⟩⟩
  obtain rfl := Option.some.inj (hm.symm.trans (h.find k hk))
  exact hi

/-- An order that stays open, like those before it, is shown. -/
theorem shown (hx : ∀ k ≤ n, (es k).Open name userId x)
    (hnewer : ∀ k < n, ∀ i > x, (es k).Open name userId i → (es (k + 1)).Open name userId i)
    (htotal : (rs n).total ≤ (n + 1) * limit) :
    ∃ k ≤ n, getOrderInfo ((ms k).order x) ∈ (rs k).records := by
  have hopen := fun k (hk : k ≤ n) => h.open_iff hread hinit hk
  obtain ⟨k, hk, hpage⟩ := Ordered.exists_mem_page limit
    (fun k hk => (h.list hread hinit hk).1) (fun k hk => (hopen k hk x).mp (hx k hk))
    (fun k hk i hi hlt => ⟨(hopen _ hk i).mp (hnewer k hk i hlt ((hopen k hk.le i).mpr hi)), hlt⟩)
    (by rw [h.reply n le_rfl] at htotal; exact htotal)
  refine ⟨k, hk, ?_⟩
  rw [h.reply k hk, Market.showOrders_records]
  exact List.mem_map_of_mem hpage

/-- An order is shown once, unless a newer one has come. -/
theorem shown_once {k k' : ℕ} (hle : k ≤ k') (hk' : k' ≤ n)
    (hrests : ∀ j, k ≤ j → j < k' → ∀ op ∈ ops j, ¬RestsFor name userId op)
    (hxk : x ∈ (rs k).ids) (hxk' : x ∈ (rs k').ids) : k = k' := by
  have hlist := fun k (hk : k ≤ n) => h.list hread hinit hk
  have hwf := fun k (hk : k ≤ n) => hread.market hinit h.find hk
  rw [h.ids hread hinit (hle.trans hk')] at hxk
  rw [h.ids hread hinit hk'] at hxk'
  have hin : ∀ j, k ≤ j → j ≤ k' → x ∈ ((ms j).users.find userId).getD [] := by
    intro j hkj hjk'
    have hxl := (mem_page (hlist k (by omega)).1.nodup).mp hxk
    have hxl' := (mem_page (hlist k' hk').1.nodup).mp hxk'
    obtain ⟨horder, huid⟩ := ((hlist k (by omega)).2 x).mp hxl.1
    refine ((hlist j (by omega)).2 x).mpr ⟨hread.mem_orders hinit h.find hkj hjk' hk' horder
      (((hlist k' hk').2 x).mp hxl'.1).1, ?_⟩
    exact ((hread.later hinit hkj (by omega) (h.find k (by omega)) (h.find j (by omega))).face x
      ((hwf k (by omega)).le x horder)).userId.trans huid
  refine Ordered.page_once (fun j _ hjk' => (hlist j (by omega)).1) hle hin
    (fun j hkj hjk' i hi hlt => ⟨?_, hlt⟩) hxk hxk'
  have hlater := later_run (P := fun u _ _ => u ≠ userId) (hread.shaped hinit (k := j) (by omega))
    (fun op hop => ?_) (hread.next j (by omega)) (h.find j (by omega)) (h.find (j + 1) (by omega))
  · obtain ⟨hio, hiu⟩ := ((hlist (j + 1) (by omega)).2 i).mp hi
    rcases hlater.orders i hio with hold | ⟨-, hne⟩
    · refine ((hlist j (by omega)).2 i).mpr ⟨hold, ?_⟩
      exact (hlater.face i ((hwf j (by omega)).le i hold)).userId.symm.trans hiu
    · exact absurd hiu hne
  · have hno := hrests j hkj hjk' op hop
    cases op with
    | limitOrder args => exact fun hname huid => hno ⟨hname, huid⟩
    | _ => trivial

end UserPages

/-- **An order of a user in the pages of `order.query`**, from the newest on: while it stays open and
no newer order of the user is closed, one of the pages shows it, if the last one ends the list. And
while the user rests no order between two pages, only one of them does. -/
theorem order_query_pages (hinit : Engine.init (ratMpd round) dictAsset confs = some e₀)
    (hread : Reading (ratMpd round) e₀ n es ops) {limit : ℕ} (huser : userId < 2 ^ 32)
    (hlimit : limit ≤ orderListMaxLen) (hoffset : n * limit < 2 ^ 63) {rs : ℕ → OrderRecords ℚ}
    (hrs : ∀ k ≤ n, (es k).onCmdOrderQuery
      [.integer userId, .string name, .integer (k * limit : ℕ), .integer limit] = .ok (rs k)) :
    ((∀ k ≤ n, (es k).Open name userId x) →
      (∀ k < n, ∀ i > x, (es k).Open name userId i → (es (k + 1)).Open name userId i) →
      (rs n).total ≤ (n + 1) * limit →
      ∃ k ≤ n, ∃ m, (es k).dictMarket.find name = some m ∧ getOrderInfo (m.order x) ∈ (rs k).records) ∧
    ∀ k k', k ≤ k' → k' ≤ n → (∀ j, k ≤ j → j < k' → ∀ op ∈ ops j, ¬RestsFor name userId op) →
      x ∈ (rs k).ids → x ∈ (rs k').ids → k = k' := by
  obtain ⟨ms, hpages⟩ := userPages_of_replies huser hlimit hoffset hrs
  refine ⟨fun hx hnewer htotal => ?_, fun k k' hle hk' => hpages.shown_once hread hinit hle hk'⟩
  obtain ⟨k, hk, hshown⟩ := hpages.shown hread hinit hx hnewer htotal
  exact ⟨k, hk, ms k, hpages.find k hk, hshown⟩

/-- An order is on a side of a market's book. -/
def OnBook (e : Engine ℚ) (name : String) (side : OrderSide) (i : ℕ) : Prop :=
  ∃ m, e.dictMarket.find name = some m ∧ i ∈ m.book side

/-- An order of a side is before another one. -/
def Ahead (e : Engine ℚ) (name : String) (side : OrderSide) (i j : ℕ) : Prop :=
  ∃ m, e.dictMarket.find name = some m ∧ i ∈ m.book side ∧ m.key side i < m.key side j

/-- A limit order with a better price than the order `x` has. -/
def Undercuts (e : Engine ℚ) (name : String) (side : OrderSide) (x : ℕ) : Op ℚ → Prop
  | .limitOrder args => args.market = name ∧ args.side = side ∧
    ∃ m, e.dictMarket.find name = some m ∧ side.Better args.price (m.order x).price
  | _ => False

/-- **An order in the pages of `order.book`**: while it and the orders before it stay on the book,
one of the pages shows it, if the last one ends the side. And while no order undercuts it between
two pages, only one of them does. -/
theorem order_book_pages (hinit : Engine.init (ratMpd round) dictAsset confs = some e₀)
    (hread : Reading (ratMpd round) e₀ n es ops) {limit : ℕ} (hlimit : limit ≤ orderBookMaxLen)
    (hoffset : n * limit < 2 ^ 63) {rs : ℕ → OrderRecords ℚ}
    (hrs : ∀ k ≤ n, (es k).onCmdOrderBook
      [.string name, .integer side.code, .integer (k * limit : ℕ), .integer limit] = .ok (rs k)) :
    ((∀ k ≤ n, (es k).OnBook name side x) →
      (∀ k < n, ∀ i, (es k).Ahead name side i x → (es (k + 1)).OnBook name side i) →
      (rs n).total ≤ (n + 1) * limit →
      ∃ k ≤ n, ∃ m, (es k).dictMarket.find name = some m ∧ getOrderInfo (m.order x) ∈ (rs k).records) ∧
    ∀ k k', k ≤ k' → k' ≤ n →
      (∀ j, k ≤ j → j < k' → ∀ op ∈ ops j, ¬(es j).Undercuts name side x op) →
      x ∈ (rs k).ids → x ∈ (rs k').ids → k = k' := by
  have hlimit' : toUint64 (limit : ℤ) = limit :=
    toUint64_natCast (hlimit.trans_lt (by norm_num [orderBookMaxLen]))
  have hreply : ∀ k, ∃ m, k ≤ n → (es k).dictMarket.find name = some m ∧
      rs k = m.showOrders (m.book side) (k * limit) limit := by
    intro k
    by_cases hk : k ≤ n
    · obtain ⟨m, side', hm, hside, -, hr⟩ := onCmdOrderBook_ok (hrs k hk)
      obtain rfl : side' = side := by
        cases side <;> exact (Except.ok.inj hside).symm
      have hle : k * limit ≤ n * limit := Nat.mul_le_mul_right _ hk
      rw [hlimit', toUint64_natCast (by omega)] at hr
      exact ⟨m, fun _ => ⟨hm, hr⟩⟩
    · obtain ⟨m, -⟩ := onCmdOrderBook_ok (hrs 0 (Nat.zero_le _))
      exact ⟨m, fun hk' => absurd hk' hk⟩
  choose ms hms using hreply
  have hfind := fun k (hk : k ≤ n) => (hms k hk).1
  have hwf := fun k (hk : k ≤ n) => hread.market hinit hfind hk
  have hids : ∀ k ≤ n, (rs k).ids = page (k * limit) limit ((ms k).book side) := fun k hk => by
    rw [(hms k hk).2]
    exact Market.showOrders_ids (fun i hi => ((hwf k hk).named i ((hwf k hk).mem side i hi)).id) _ _
  have hbook : ∀ k ≤ n, ∀ i, (es k).OnBook name side i ↔ i ∈ (ms k).book side := by
    intro k hk i
    refine ⟨fun ⟨m, hm, hi⟩ => ?_, fun hi => ⟨ms k, hfind k hk, hi⟩⟩
    obtain rfl := Option.some.inj (hm.symm.trans (hfind k hk))
    exact hi
  refine ⟨fun hx hahead htotal => ?_, fun k k' hle hk' hcut hxk hxk' => ?_⟩
  · have hin := fun k (hk : k ≤ n) => (hbook k hk x).mp (hx k hk)
    have hbefore : ∀ k < n, ∀ i ∈ (ms k).book side, (ms k).key side i < (ms k).key side x →
        i ∈ (ms (k + 1)).book side ∧ (ms (k + 1)).key side i < (ms (k + 1)).key side x := by
      intro k hk i hi hlt
      have hi' := (hbook (k + 1) hk i).mp (hahead k hk i ⟨ms k, hfind k hk.le, hi, hlt⟩)
      have hlater := hread.later hinit (Nat.le_succ k) hk (hfind k hk.le) (hfind (k + 1) hk)
      have hold : ∀ j ∈ (ms k).book side, (ms (k + 1)).key side j = (ms k).key side j :=
        fun j hj => hlater.key ((hwf k hk.le).le j ((hwf k hk.le).mem side j hj)) side
      exact ⟨hi', by rwa [hold i hi, hold x (hin k hk.le)]⟩
    obtain ⟨k, hk, hpage⟩ := Ordered.exists_mem_page limit
      (fun k hk => (hwf k hk).sorted side) hin hbefore
      (by rw [(hms n le_rfl).2] at htotal; exact htotal)
    refine ⟨k, hk, ms k, hfind k hk, ?_⟩
    rw [(hms k hk).2, Market.showOrders_records]
    exact List.mem_map_of_mem hpage
  · rw [hids k (hle.trans hk')] at hxk
    rw [hids k' hk'] at hxk'
    have hxl := ((mem_page ((hwf k (hle.trans hk')).nodup side)).mp hxk).1
    have hxl' := ((mem_page ((hwf k' hk').nodup side)).mp hxk').1
    have hlex := (hwf k (hle.trans hk')).le x ((hwf k (hle.trans hk')).mem side x hxl)
    have hin : ∀ j, k ≤ j → j ≤ k' → x ∈ (ms j).book side := by
      intro j hkj hjk'
      have hlater := hread.later hinit hkj (by omega) (hfind k (by omega)) (hfind j (by omega))
      have hlater' := hread.later hinit hjk' hk' (hfind j (by omega)) (hfind k' hk')
      rcases hlater'.book side x hxl' with hold | hnew
      · exact hold
      · exact absurd (hlex.trans hlater.le) (not_le.mpr hnew)
    refine Ordered.page_once (fun j _ hjk' => (hwf j (by omega)).sorted side) hle hin
      (fun j hkj hjk' i hi hlt => ?_) hxk hxk'
    set px := ((ms j).order x).price with hpx
    have hlater := later_run (P := fun _ s p => s = side → ¬side.Better p px)
      (hread.shaped hinit (k := j) (by omega)) (fun op hop => ?_) (hread.next j (by omega))
      (hfind j (by omega)) (hfind (j + 1) (by omega))
    · have hxj := hin j hkj hjk'.le
      have hnx := (hwf j (by omega)).le x ((hwf j (by omega)).mem side x hxj)
      rw [hlater.key hnx] at hlt
      rcases hlater.book side i hi with hold | hnew
      · have hni := (hwf j (by omega)).le i ((hwf j (by omega)).mem side i hold)
        exact ⟨hold, by rwa [hlater.key hni] at hlt⟩
      · -- a new order has a higher id, so it is before `x` only with a better price
        rcases hlater.orders i ((hwf (j + 1) (by omega)).mem side i hi) with hold | ⟨-, hworse⟩
        · exact absurd ((hwf j (by omega)).le i hold) (not_le.mpr hnew)
        · refine absurd ?_ (hworse ((hwf (j + 1) (by omega)).side side i hi))
          exact OrderSide.better_of_key hlt (hnx.trans_lt hnew)
    · have hno := hcut j hkj hjk' op hop
      cases op with
      | limitOrder args =>
        exact fun hname hside hbetter => hno ⟨hname, hside, ms j, hfind j (by omega), hbetter⟩
      | _ => trivial

end Pages

/-! ## Two pages -/

/-- Two asks of one user. -/
def beforePages : List (Op ℚ) :=
  [deposit 1 "BTC" 1 10, limitOrder 1 .ask 1 10 0 0, limitOrder 1 .ask 1 11 0 0, deposit 2 "CNY" 2 10]

/-- A bid that rests, between two pages. -/
def betweenPages : List (Op ℚ) := [limitOrder 2 .bid 1 5 0 0]

def pagesRun : Option (Engine ℚ × Engine ℚ) :=
  (exampleRun decimal128 8 beforePages).bind fun e =>
    (e.run decimal128 true betweenPages).map fun e' => (e, e')

/-- The first two pages of a list, as requests are answered. -/
def twoPages (onCmd : Engine ℚ → List Json → Except Refusal (OrderRecords ℚ)) (params : ℕ → List Json)
    (check : Engine ℚ → Engine ℚ → OrderRecords ℚ → OrderRecords ℚ → Bool) : Engine ℚ × Engine ℚ → Bool
  | (e, e') =>
    match onCmd e (params 0), onCmd e' (params 1) with
    | .ok r, .ok r' => check e e' r r'
    | _, _ => false

theorem twoPages_spec (onCmd : Engine ℚ → List Json → Except Refusal (OrderRecords ℚ))
    (params : ℕ → List Json) (check : Engine ℚ → Engine ℚ → OrderRecords ℚ → OrderRecords ℚ → Bool)
    (h : pagesRun.any (twoPages onCmd params check) = true) :
    ∃ (e₀ : Engine ℚ) (es : ℕ → Engine ℚ) (rs : ℕ → OrderRecords ℚ),
      Engine.init decimal128 exampleAssets [exampleConf 8] = some e₀ ∧
      Reading decimal128 e₀ 1 es (fun _ => betweenPages) ∧
      (∀ k ≤ 1, onCmd (es k) (params k) = .ok (rs k)) ∧ check (es 0) (es 1) (rs 0) (rs 1) = true := by
  obtain ⟨⟨e, e'⟩, hp, hcheck⟩ := (Option.any_eq_true _ _).mp h
  obtain ⟨e₁, hrun, hp⟩ := Option.bind_eq_some_iff.mp hp
  obtain ⟨e₂, hrun', heq⟩ := Option.map_eq_some_iff.mp hp
  obtain ⟨rfl, rfl⟩ := Prod.ext_iff.mp heq
  obtain ⟨e₀, hinit, hrun⟩ := Option.bind_eq_some_iff.mp hrun
  unfold twoPages at hcheck
  dsimp only at hcheck hrun'
  split at hcheck
  · rename_i r r' hr hr'
    refine ⟨e₀, fun k => if k = 0 then e₁ else e₂, fun k => if k = 0 then r else r', hinit,
      ⟨⟨beforePages, hrun⟩, fun k hk => ?_⟩, fun k hk => ?_, hcheck⟩
    · obtain rfl : k = 0 := by omega
      exact hrun'
    · rcases Nat.le_one_iff_eq_zero_or_eq_one.mp hk with rfl | rfl
      · exact hr
      · exact hr'
  · cases hcheck

/-- A check of the market of an engine. -/
def checkMarket (e : Engine ℚ) (check : Market ℚ → Bool) : Bool :=
  (e.dictMarket.find "BTCCNY").any check

theorem checkMarket_spec {e : Engine ℚ} {check : Market ℚ → Bool}
    (h : checkMarket e check = true) :
    ∃ m, e.dictMarket.find "BTCCNY" = some m ∧ check m = true := (Option.any_eq_true _ _).mp h

/-- The older ask is on the second page. -/
theorem order_query_pages_two :
    ∃ (e₀ : Engine ℚ) (es : ℕ → Engine ℚ) (rs : ℕ → OrderRecords ℚ),
      Engine.init decimal128 exampleAssets [exampleConf 8] = some e₀ ∧
      Reading decimal128 e₀ 1 es (fun _ => betweenPages) ∧
      (∃ k ≤ 1, ∃ m, (es k).dictMarket.find "BTCCNY" = some m ∧
        getOrderInfo (m.order 1) ∈ (rs k).records) ∧
      ∀ k k', k ≤ k' → k' ≤ 1 → 1 ∈ (rs k).ids → 1 ∈ (rs k').ids → k = k' := by
  obtain ⟨e₀, es, rs, hinit, hread, hrs, hcheck⟩ := twoPages_spec onCmdOrderQuery
    (fun k => [.integer (1 : ℕ), .string "BTCCNY", .integer (k * 1 : ℕ), .integer (1 : ℕ)])
    (fun e e' _ r' => checkMarket e (fun m => m.orders = {1, 2} ∧ (m.order 1).userId = 1) &&
      checkMarket e' (fun m => m.orders = {1, 2, 3} ∧ (m.order 1).userId = 1 ∧
        (m.order 2).userId = 1) && decide (r'.total ≤ 2))
    (by decide +kernel)
  rw [Bool.and_eq_true, Bool.and_eq_true, decide_eq_true_eq] at hcheck
  obtain ⟨⟨hcheck, hcheck'⟩, htotal⟩ := hcheck
  obtain ⟨m, hm, hm₁⟩ := checkMarket_spec hcheck
  obtain ⟨m', hm', hm₂⟩ := checkMarket_spec hcheck'
  obtain ⟨horders, hone⟩ := of_decide_eq_true hm₁
  obtain ⟨horders', hone', htwo'⟩ := of_decide_eq_true hm₂
  have hpages := order_query_pages (x := 1) hinit hread (by norm_num) (by decide) (by norm_num) hrs
  refine ⟨e₀, es, rs, hinit, hread, hpages.1 (fun k hk => ?_) (fun k hk i hlt hi => ?_) htotal,
    fun k k' hle hk' => hpages.2 k k' hle hk' fun _ _ _ op hop => ?_⟩
  · rcases Nat.le_one_iff_eq_zero_or_eq_one.mp hk with rfl | rfl
    · exact ⟨m, hm, by simp [horders], hone⟩
    · exact ⟨m', hm', by simp [horders'], hone'⟩
  · obtain rfl : k = 0 := by omega
    obtain ⟨m₁, hm₁, hi, -⟩ := hi
    obtain rfl := Option.some.inj (hm₁.symm.trans hm)
    rw [horders, Finset.mem_insert, Finset.mem_singleton] at hi
    obtain rfl : i = 2 := by omega
    exact ⟨m', hm', by simp [horders'], htwo'⟩
  · rw [betweenPages, List.mem_singleton] at hop
    subst hop
    simp [RestsFor, limitOrder]

/-- The higher ask is on the second page. -/
theorem order_book_pages_two :
    ∃ (e₀ : Engine ℚ) (es : ℕ → Engine ℚ) (rs : ℕ → OrderRecords ℚ),
      Engine.init decimal128 exampleAssets [exampleConf 8] = some e₀ ∧
      Reading decimal128 e₀ 1 es (fun _ => betweenPages) ∧
      (∃ k ≤ 1, ∃ m, (es k).dictMarket.find "BTCCNY" = some m ∧
        getOrderInfo (m.order 2) ∈ (rs k).records) ∧
      ∀ k k', k ≤ k' → k' ≤ 1 → 2 ∈ (rs k).ids → 2 ∈ (rs k').ids → k = k' := by
  obtain ⟨e₀, es, rs, hinit, hread, hrs, hcheck⟩ := twoPages_spec onCmdOrderBook
    (fun k => [.string "BTCCNY", .integer OrderSide.ask.code, .integer (k * 1 : ℕ),
      .integer (1 : ℕ)])
    (fun e e' _ r' => checkMarket e (fun m => m.book .ask = [1, 2]) &&
      checkMarket e' (fun m => m.book .ask = [1, 2]) && decide (r'.total ≤ 2))
    (by decide +kernel)
  rw [Bool.and_eq_true, Bool.and_eq_true, decide_eq_true_eq] at hcheck
  obtain ⟨⟨hcheck, hcheck'⟩, htotal⟩ := hcheck
  obtain ⟨m, hm, hasks⟩ := checkMarket_spec hcheck
  obtain ⟨m', hm', hasks'⟩ := checkMarket_spec hcheck'
  rw [decide_eq_true_eq] at hasks hasks'
  have hpages := order_book_pages (x := 2) hinit hread (by decide) (by norm_num) hrs
  refine ⟨e₀, es, rs, hinit, hread, hpages.1 (fun k hk => ?_) (fun k hk i hi => ?_) htotal,
    fun k k' hle hk' => hpages.2 k k' hle hk' fun _ _ _ op hop => ?_⟩
  · rcases Nat.le_one_iff_eq_zero_or_eq_one.mp hk with rfl | rfl
    · exact ⟨m, hm, by simp [hasks]⟩
    · exact ⟨m', hm', by simp [hasks']⟩
  · obtain rfl : k = 0 := by omega
    obtain ⟨m₁, hm₁, hi, -⟩ := hi
    obtain rfl := Option.some.inj (hm₁.symm.trans hm)
    exact ⟨m', hm', by rwa [hasks', ← hasks]⟩
  · rw [betweenPages, List.mem_singleton] at hop
    subst hop
    simp [Undercuts, limitOrder]

end Engine

end ViabtcExchange
