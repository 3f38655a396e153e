import ViabtcExchange.BalanceSpec
import ViabtcExchange.Indexes

/-!
# Three indexes of one set of orders

`m->orders`, the two sides of the book and the lists of the users hold the same orders
(`Market.IndexesAgree`) as long as `order_finish` goes through to its end. It returns early when
`balance_unfreeze` fails, with the order off the book and in the other two, and its callers do
not look. `Engine.Releases` is the condition on a request, in the state it comes in, under which
it does go through: the order to cancel freezes no more than the user's FREEZE balance, and the
bids a new ask meets freeze no more than price times amount left.

**Theorem (`Engine.indexes_agree`).** In a run of such requests the indexes agree at every point,
and an order that was cancelled or filled is in none of them from then on.

A rest whose `balance_freeze` failed is enough to break the condition: see `stuckOps`.
-/

namespace ViabtcExchange

/-! ## Agreement -/

section Agree

variable {D : Type}

structure Market.IndexesAgree (m : Market D) : Prop where
  booked : ∀ i, i ∈ m.orders ↔ i ∈ m.book (m.order i).side
  own : ∀ side, ∀ i ∈ m.book side, (m.order i).side = side
  listed : ∀ i, i ∈ m.orders ↔ ∃ l, m.users.find (m.order i).userId = some l ∧ i ∈ l
  owned : ∀ u l, m.users.find u = some l → ∀ i ∈ l, (m.order i).userId = u
  books : m.asks.length + m.bids.length = m.orders.card
  lists : (m.users.sum fun _ l => l.length) = m.orders.card

/-- An order that is in no container, and is not found. -/
structure Market.Gone (m : Market D) (i : ℕ) : Prop where
  orders : i ∉ m.orders
  book : ∀ side, i ∉ m.book side
  users : ∀ u l, m.users.find u = some l → i ∉ l
  found : marketGetOrder m i = none

end Agree

section Indexed

variable {P : Order ℚ → Prop} {n : ℕ} {m : Market ℚ}

theorem Indexed.mem_book_iff (h : Indexed True P n m) (i : ℕ) (side : OrderSide) :
    i ∈ m.book side ↔ i ∈ m.orders ∧ (m.order i).side = side :=
  ⟨fun hi => ⟨h.book.wf.mem side i hi, h.book.wf.side side i hi⟩,
    fun hi => hi.2 ▸ h.booked trivial i hi.1⟩

/-- The two sides split the dictionary. -/
theorem Indexed.card_books (h : Indexed True P n m) :
    m.asks.length + m.bids.length = m.orders.card := by
  have hasks : m.asks.toFinset = m.orders.filter fun i => (m.order i).side = .ask := by
    ext i
    rw [List.mem_toFinset, Finset.mem_filter]
    exact h.mem_book_iff i .ask
  have hbids : m.bids.toFinset = m.orders.filter fun i => ¬(m.order i).side = .ask := by
    ext i
    rw [List.mem_toFinset, Finset.mem_filter]
    refine (h.mem_book_iff i .bid).trans (and_congr_right fun _ => ?_)
    cases (m.order i).side <;> simp
  have hnodup : m.asks.Nodup := h.book.wf.nodup .ask
  have hnodup' : m.bids.Nodup := h.book.wf.nodup .bid
  rw [← List.toFinset_card_of_nodup hnodup, ← List.toFinset_card_of_nodup hnodup', hasks, hbids,
    Finset.card_filter_add_card_filter_not]

/-- The lists of the users split the dictionary. -/
theorem Market.WF.card_lists (h : m.WF n) :
    (m.users.sum fun _ l => l.length) = m.orders.card := by
  have hmaps : ∀ i ∈ m.orders, (m.order i).userId ∈ m.users.keys := fun i hi => by
    obtain ⟨l, hl, -⟩ := h.listed i hi
    exact Finmap.mem_keys.mpr (Dict.mem_of_find hl)
  rw [Dict.sum, Finset.card_eq_sum_card_fiberwise hmaps]
  refine Finset.sum_congr rfl fun u _ => ?_
  unfold Dict.entry
  cases hl : m.users.find u with
  | none =>
    rw [Finset.filter_eq_empty_iff.mpr]
    · rfl
    · rintro i hi rfl
      obtain ⟨l, hl', -⟩ := h.listed i hi
      rw [hl] at hl'
      cases hl'
  | some l =>
    have hfiber : l.toFinset = m.orders.filter fun i => (m.order i).userId = u := by
      ext i
      rw [List.mem_toFinset, Finset.mem_filter]
      exact h.mem_list_iff hl i
    rw [← hfiber, List.toFinset_card_of_nodup (h.users u l hl).1.nodup]
    rfl

theorem Indexed.agree (h : Indexed True P n m) : m.IndexesAgree where
  booked i := by rw [h.mem_book_iff]; simp
  own side i hi := h.book.wf.side side i hi
  listed i := by
    refine ⟨h.book.wf.listed i, fun ⟨l, hl, hi⟩ => ((h.book.wf.mem_list_iff hl i).mp hi).1⟩
  owned u l hl i hi := ((h.book.wf.mem_list_iff hl i).mp hi).2
  books := h.card_books
  lists := h.book.wf.card_lists

theorem Market.WF.gone (h : m.WF n) {i : ℕ} (hi : i ∉ m.orders) : m.Gone i where
  orders := hi
  book side hmem := hi (h.mem side i hmem)
  users u l hl hmem := hi ((h.mem_list_iff hl i).mp hmem).1
  found := by simp [marketGetOrder, hi]

end Indexed

/-! ## What a filled maker still freezes -/

/-- An ask freezes what is left of it, up to the rounding of the context. -/
def AskFrozen (o : Order ℚ) : Prop := o.side = .ask → o.freeze = o.left

/-- A bid freezes no more than the last fill takes. -/
def Releases (round : ℚ → ℚ) (taker maker : Order ℚ) : Prop :=
  maker.side = .bid → Meets taker maker → maker.freeze ≤ round (maker.price * maker.left)

theorem orderRules_frozen {round : ℚ → ℚ} (hr : RoundsDown round) :
    OrderRules round AskFrozen (fun _ => True) (Releases round) where
  maker {x m taker maker t} hq hside hP hask := by
    have hx : x.side = .bid := opposite_eq_ask (hask.symm.trans hside)
    change round (maker.freeze - (x.makerLeg m maker t).give) = round (maker.left - t.amount)
    rw [makerLeg_give_ask hx, hP hask]
  release {x m taker maker t} hq hside hmeets hP hR hleft := by
    have hamount : maker.left = t.amount :=
      sub_eq_zero.mp (hr.eq_zero (sub_nonneg.mpr hq.amount_le) hleft)
    change round (maker.freeze - (x.makerLeg m maker t).give) ≤ 0
    cases hs : maker.side with
    | ask =>
      have hx : x.side = .bid := opposite_eq_ask (hs.symm.trans hside)
      rw [makerLeg_give_ask hx, hP hs, hamount, sub_self, hr.zero]
    | bid =>
      have hx : x.side = .ask := opposite_eq_bid (hs.symm.trans hside)
      rw [makerLeg_give_bid hx, hq.deal, ← hamount]
      exact hr.nonpos (sub_nonpos.mpr (hR hs hmeets))
  face hface hR hside hmeets := hR hside fun hlimit => by
    have h := hmeets (hface.type.trans hlimit)
    simpa only [OutOfReach, hface.side, hface.price] using h
  new _ _ := trivial
  taker _ _ _ _ _ := trivial
  rest {o} _ _ _ hask := by
    have hside : o.side = .ask := hask
    simp [restFreeze, hside]

/-! ## Runs -/

/-- `balance_unfreeze` of what is frozen succeeds. -/
theorem accepts_unfreeze {round : ℚ → ℚ} {l : Ledger ℚ} {u : ℕ} {a : String} {ty : AssetType}
    {x : ℚ} (hty : l.dictAsset.find a = some ty) (hx : 0 < x)
    (hle : x ≤ balanceOf l.dictBalance ⟨u, .freeze, a⟩) :
    l.accepts (ratMpd round) (.unfreeze u a x) = true := by
  have hfind := find_of_pos (hx.trans_le hle)
  have hadd : (balanceAdd (ratMpd round) l.dictAsset l.dictBalance u .available a x).isSome := by
    unfold balanceAdd balanceSet
    cases balanceGet l.dictBalance u .available a <;>
      simp [hty, not_lt.mpr hx.le, hx.ne']
  obtain ⟨b, hb⟩ := Option.isSome_iff_exists.mp hadd
  simp [Ledger.accepts, BalanceCall.run, balanceUnfreeze, balanceMove, hty, not_lt.mpr hx.le,
    balanceGet, hfind, not_lt.mpr hle, hb]

namespace Engine

/-- The condition on a request: a bid that a new ask meets freezes no more than its last fill
takes, and an order to cancel freezes no more than its user's FREEZE balance. -/
def Releases (mpd : Mpd ℚ) (e : Engine ℚ) : Op ℚ → Prop
  | .limitOrder args => args.side = .ask → ∀ m, e.dictMarket.find args.market = some m →
    ∀ i ∈ m.bids, args.price ≤ (m.order i).price →
      (m.order i).freeze ≤ mpd.mul (m.order i).price (m.order i).left
  | .marketOrder args => args.side = .ask → ∀ m, e.dictMarket.find args.market = some m →
    ∀ i ∈ m.bids, (m.order i).freeze ≤ mpd.mul (m.order i).price (m.order i).left
  | .cancelOrder args => ∀ m, e.dictMarket.find args.market = some m →
    (m.order args.orderId).freeze ≤ 0 ∨
      (m.order args.orderId).freeze ≤ balanceOf e.statics.ledger.dictBalance
        ⟨(m.order args.orderId).userId, .freeze, m.giveAsset (m.order args.orderId).side⟩
  | _ => True

/-- Order `i` of market `name` is cancelled by a request, or filled by it: as a maker, whose
record then has nothing left, or as the taker. -/
inductive Closed (mpd : Mpd ℚ) (real : Bool) (e : Engine ℚ) : Op ℚ → Engine ℚ → String → ℕ → Prop
  | cancelled {args e'} : Closed mpd real e (.cancelOrder args) e' args.market args.orderId
  | filledMaker {op e' name m m' i} : e.dictMarket.find name = some m → i ∈ m.orders →
      e'.dictMarket.find name = some m' → (m'.order i).left = 0 → Closed mpd real e op e' name i
  | filledLimit {args e' m ex} : e.dictMarket.find args.market = some m →
      executeLimitOrder mpd real (startLimit mpd e.statics m args.userId args.side args.amount
        args.price args.takerFee args.makerFee args.source) = some ex →
      ex.taker.left = 0 → Closed mpd real e (.limitOrder args) e' args.market ex.taker.id
  | filledMarket {args e' m ex} : e.dictMarket.find args.market = some m →
      executeMarketOrder mpd real (startMarket mpd e.statics m args.userId args.side args.amount
        args.takerFee args.source) = some ex →
      ex.taker.left = 0 → Closed mpd real e (.marketOrder args) e' args.market ex.taker.id

variable {round : ℚ → ℚ} {real : Bool} {e₀ e e' : Engine ℚ} {op : Op ℚ}
  {dictAsset : Dict String AssetType} {confs : List (MarketConf ℚ)}

/-- The condition on a request, as the walk uses it. -/
theorem ready_of_releases (hinit : Engine.init (ratMpd round) dictAsset confs = some e₀)
    (hsane : Sane e₀ e) (h : e.Releases (ratMpd round) op) :
    e.Ready (ratMpd round) True (ViabtcExchange.Releases round) op := by
  have hbid : ∀ {name : String} {m : Market ℚ} {side : OrderSide} {i : ℕ},
      e.dictMarket.find name = some m → i ∈ m.book side.opposite → (m.order i).side = .bid →
      side = .ask := fun {name m side i} hm hi hs =>
    opposite_eq_bid (hs.symm.trans ((hsane.kept name m hm).book.wf.side _ i hi))
  cases op with
  | limitOrder args =>
    intro m hm i hi hs hmeets
    have hside := hbid hm hi hs
    rw [hside] at hi
    refine h hside m hm i hi ?_
    have hmeets := hmeets rfl
    simpa [OutOfReach, startLimit, newOrder, hside] using hmeets
  | marketOrder args =>
    intro m hm i hi hs _
    have hside := hbid hm hi hs
    rw [hside] at hi
    exact h hside m hm i hi
  | cancelOrder args =>
    intro m hm _
    obtain ⟨stock, money, hok⟩ := hsane.confOk hinit hm
    have hty : ∃ ty, e.statics.ledger.dictAsset.find
        (m.giveAsset (m.order args.orderId).side) = some ty := by
      cases (m.order args.orderId).side with
      | ask => exact ⟨stock, hok.findStock⟩
      | bid => exact ⟨money, hok.findMoney⟩
    obtain ⟨ty, hty⟩ := hty
    unfold orderStuck
    rcases le_or_gt (m.order args.orderId).freeze 0 with hle | hpos
    · simp [Market.frozen, hle]
    · rw [Market.unfreezeCall, accepts_unfreeze hty hpos ((h m hm).resolve_left (not_le.mpr hpos))]
      simp
  | updateBalance args padding now => trivial
  | expire now => trivial

/-- What a run under the condition keeps of every market; `absent` orders stay away. -/
def Tracked (e₀ : Engine ℚ) (absent : String → ℕ → Prop) (e : Engine ℚ) : Prop :=
  Sane e₀ e ∧ e.Markets fun name n m =>
    Indexed True AskFrozen n m ∧ ∀ i, absent name i → i ≤ n ∧ i ∉ m.orders

theorem Tracked.run {absent : String → ℕ → Prop} {ops : List (Op ℚ)} (hr : RoundsDown round)
    (hinit : Engine.init (ratMpd round) dictAsset confs = some e₀) (h : Tracked e₀ absent e)
    (hrel : Along (ratMpd round) real (fun e op => e.Releases (ratMpd round) op) e ops)
    (hrun : e.run (ratMpd round) real ops = some e') : Tracked e₀ absent e' :=
  run_induction (fun _ _ _ h hrel hstep => ⟨h.1.step hr hstep,
    indexed_step hr (orderRules_frozen hr) h.2 (ready_of_releases hinit h.1 hrel) hstep⟩)
    hrel h hrun

/-- A closed order is in no container right after the request. -/
theorem Closed.absent (hr : RoundsDown round) {name : String} {i : ℕ}
    (h : e.Markets fun _ => Indexed True AskFrozen)
    (h' : e'.Markets fun _ => Indexed True AskFrozen)
    (hready : e.Ready (ratMpd round) True (ViabtcExchange.Releases round) op)
    (hstep : e.step (ratMpd round) real op = some e')
    (hclosed : Closed (ratMpd round) real e op e' name i) :
    ∀ m', e'.dictMarket.find name = some m' → i ≤ e'.statics.orderIdStart ∧ i ∉ m'.orders := by
  have hle := (step_fixed hstep).2
  have hcases := step_cases hstep
  intro m' hm'
  cases hclosed with
  | @cancelled args =>
    obtain ⟨m, hm, hmem, -, rfl⟩ := hcases
    have hm₁ : (marketCancelOrder (ratMpd round) real e.statics m args.orderId).market = m' := by
      simpa [put, Dict.find_insert] using hm'
    have horders := (indexed_cancel real (h _ m hm) hmem (hready m hm)).2.2 trivial
    refine ⟨((h _ m hm).book.wf.le _ hmem).trans hle, ?_⟩
    rw [← hm₁, horders]
    exact Finset.notMem_erase _ _
  | @filledMaker _ _ _ m m₁ _ hm hmem hm₁ hleft =>
    obtain rfl := Option.some.inj (hm'.symm.trans hm₁)
    refine ⟨((h _ m hm).book.wf.le _ hmem).trans hle, fun hi => ?_⟩
    exact absurd hleft ((h' name m' hm').left i hi).ne'
  | @filledLimit args _ m ex hm hrun hleft =>
    obtain ⟨m₁, o, hm₁, hok, hput, hret, rfl⟩ := hcases
    obtain rfl := Option.some.inj (hm.symm.trans hm₁)
    have hindexed := h _ m hm
    obtain ⟨hamount, hprice⟩ := limitOk_pos hok
    obtain ⟨-, hsub, -⟩ := indexed_executeLimitOrder hr (orderRules_frozen hr) (e := startLimit
      (ratMpd round) e.statics m args.userId args.side args.amount args.price args.takerFee
      args.makerFee args.source) hindexed hamount.le trivial (hready m hm) hrun
    have hend := executeLimitOrder_end hr real (e := startLimit (ratMpd round) e.statics m
      args.userId args.side args.amount args.price args.takerFee args.makerFee args.source)
      hindexed.book hamount.le hrun
    have hid : ex.taker.id = e.statics.orderIdStart + 1 := hend.face.id
    rcases marketPutLimitOrder_cases hput with ⟨ret, hneg, rfl⟩ | ⟨-, -, ex', hrun', rfl⟩
    · exact absurd hret hneg.ne
    · obtain rfl := Option.some.inj (hrun.symm.trans hrun')
      obtain ⟨hmarket, -⟩ := restLimitOrder_filled (ratMpd round) rfl real hleft
      have hm₂ : ex.market = m' := by
        simpa [put, Dict.find_insert, hmarket] using hm'
      have hfixed := congrArg Prod.fst ((restLimitOrder_fixed (ratMpd round) real
        ex).trans (executeLimitOrder_fixed hrun))
      refine ⟨hid.trans_le (le_of_eq hfixed.symm), fun hi => ?_⟩
      rw [← hm₂, hid] at hi
      exact absurd (hindexed.book.wf.le _ (hsub hi)) (Nat.not_succ_le_self _)
  | @filledMarket args _ m ex hm hrun hleft =>
    obtain ⟨m₁, o, hm₁, hok, hput, hret, rfl⟩ := hcases
    obtain rfl := Option.some.inj (hm.symm.trans hm₁)
    have hindexed := h _ m hm
    have hamount := (ratMpd_cmp_pos _ _ _).mp hok.amount
    obtain ⟨-, hsub⟩ := indexed_executeMarketOrder hr (orderRules_frozen hr) (e := startMarket
      (ratMpd round) e.statics m args.userId args.side args.amount args.takerFee args.source)
      hindexed hamount.le rfl (hready m hm) hrun
    obtain ⟨ex', hrun', hface, -, -⟩ := executeMarketOrder_end hr real (e := startMarket
      (ratMpd round) e.statics m args.userId args.side args.amount args.takerFee args.source)
      hindexed.book hamount.le
    obtain rfl := Option.some.inj (hrun.symm.trans hrun')
    have hid : ex.taker.id = e.statics.orderIdStart + 1 := hface.id
    rcases marketPutMarketOrder_cases hput with ⟨ret, hneg, rfl⟩ | ⟨-, ex', hrun'', rfl⟩
    · exact absurd hret hneg.ne
    · obtain rfl := Option.some.inj (hrun.symm.trans hrun'')
      have hm₂ : ex.market = m' := by
        simpa [put, Dict.find_insert, closeMarketOrder] using hm'
      have hfixed := congrArg Prod.fst ((closeMarketOrder_fixed real ex).trans
        (executeMarketOrder_fixed hrun))
      refine ⟨hid.trans_le (le_of_eq hfixed.symm), fun hi => ?_⟩
      rw [← hm₂, hid] at hi
      exact absurd (hindexed.book.wf.le _ (hsub hi)) (Nat.not_succ_le_self _)

/-- In a run of requests under the condition, the indexes agree at every point, and a closed
order never comes back. -/
theorem indexes_agree {ops : List (Op ℚ)}
    (hinit : Engine.init decimal128 dictAsset confs = some e₀)
    (hrun : e₀.run decimal128 real ops = some e)
    (hrel : Along decimal128 real (fun e op => e.Releases decimal128 op) e₀ ops) :
    (∀ name m, e.dictMarket.find name = some m → m.IndexesAgree) ∧
      ∀ pre op post e₁ e₂ name i, ops = pre ++ op :: post → e₀.run decimal128 real pre = some e₁ →
        e₁.step decimal128 real op = some e₂ → Closed decimal128 real e₁ op e₂ name i →
        ∀ m, e.dictMarket.find name = some m → m.Gone i := by
  have hr := roundsDown_roundDown
  have hstart : ∀ absent : String → ℕ → Prop, (∀ name i, ¬absent name i) →
      Tracked e₀ absent e₀ := fun absent hno =>
    ⟨sane_init hinit, fun name m hm => ⟨indexed_init hinit name m hm, fun i hi =>
      absurd hi (hno name i)⟩⟩
  have hnone := hstart (fun _ _ => False) fun _ _ h => h
  refine ⟨fun name m hm => ((hnone.run hr hinit hrel hrun).2 name m hm).1.agree, ?_⟩
  rintro pre op post e₁ e₂ name i rfl hpre hstep hclosed m hm
  rw [run_append, hpre, Option.bind_some, run_cons, hstep, Option.bind_some] at hrun
  have h₁ := hnone.run hr hinit hrel.prefix hpre
  have hrel₁ := along_cons.mp (hrel.suffix pre hpre)
  have hready := ready_of_releases hinit h₁.1 hrel₁.1
  have h₂ := indexed_step hr (orderRules_frozen hr) h₁.2 hready hstep
  have habsent := hclosed.absent hr (fun name m hm => (h₁.2 name m hm).1)
    (fun name m hm => (h₂ name m hm).1) hready hstep
  have htracked : Tracked e₀ (fun name' i' => name' = name ∧ i' = i) e₂ := by
    refine ⟨h₁.1.step hr hstep, fun name' m' hm' => ⟨(h₂ name' m' hm').1, ?_⟩⟩
    rintro i' ⟨rfl, rfl⟩
    exact habsent m' hm'
  obtain ⟨hindexed, hgone⟩ := (htracked.run hr hinit (hrel₁.2 e₂ hstep) hrun).2 name m hm
  exact hindexed.book.wf.gone (hgone i ⟨rfl, rfl⟩).2

instance (mpd : Mpd ℚ) (e : Engine ℚ) (op : Op ℚ) : Decidable (e.Releases mpd op) := by
  refine op.casesOn ?_ ?_ ?_ ?_ ?_ <;> intros <;> unfold Releases
  all_goals infer_instance

end Engine

/-! ## An order that is stuck -/

/-- The fee of the trade leaves the bid 4.5 to freeze 5 from: `balance_freeze` fails, and so does
`balance_unfreeze` when the rest is cancelled. -/
def stuckOps : List (Op ℚ) :=
  [deposit 1 "CNY" 1 10, deposit 2 "BTC" 2 5, limitOrder 2 .ask 5 1 0 0,
    limitOrder 1 .bid 10 1 (1 / 10) 0, cancelOrder 1 2]

/-- The cancelled order is off the book, and still found. -/
theorem stuck_after_cancel :
    ∃ e₀ e m, Engine.init decimal128 exampleAssets [exampleConf 8] = some e₀ ∧
      e₀.run decimal128 true stuckOps = some e ∧ e.dictMarket.find "BTCCNY" = some m ∧
      ¬m.IndexesAgree ∧ m.bids = [] ∧ m.users.find 1 = some [2] ∧ marketGetOrder m 2 = some 2 := by
  obtain ⟨e₀, e, m, hinit, hrun, hm, hcheck⟩ := exampleMarket_spec
    (by decide +kernel : (exampleMarket decimal128 8 stuckOps).any (fun m =>
      (m.order 2).side = .bid ∧ 2 ∈ m.orders ∧ m.bids = [] ∧ m.users.find 1 = some [2]) = true)
  obtain ⟨hside, horders, hbids, husers⟩ := of_decide_eq_true hcheck
  refine ⟨e₀, e, m, hinit, hrun, hm, fun hagree => ?_, hbids, husers,
    by simp [marketGetOrder, horders]⟩
  have hbooked := (hagree.booked 2).mp horders
  rw [hside] at hbooked
  simp [Market.book, hbids] at hbooked

/-- The same without the fee: the rest is cancelled and gone, and so is the filled ask. -/
def releasedOps : List (Op ℚ) :=
  [deposit 1 "CNY" 1 10, deposit 2 "BTC" 2 5, limitOrder 2 .ask 5 1 0 0, limitOrder 1 .bid 10 1 0 0,
    cancelOrder 1 2]

theorem releasedOps_agree :
    ∃ e₀ e m, Engine.init decimal128 exampleAssets [exampleConf 8] = some e₀ ∧
      e₀.run decimal128 true releasedOps = some e ∧ e.dictMarket.find "BTCCNY" = some m ∧
      m.IndexesAgree ∧ m.Gone 2 := by
  obtain ⟨e₀, e, m, hinit, hrun, hm, -⟩ := exampleMarket_spec
    (by decide +kernel : (exampleMarket decimal128 8 releasedOps).any (fun _ => true) = true)
  have hrel : Engine.Along decimal128 true (fun e op => e.Releases decimal128 op) e₀ releasedOps :=
    of_decide_eq_true (exampleInit_spec (fun e₀ => decide (Engine.Along decimal128 true
      (fun e op => e.Releases decimal128 op) e₀ releasedOps)) hinit (by decide +kernel))
  obtain ⟨hagree, hgone⟩ := Engine.indexes_agree hinit hrun hrel
  refine ⟨e₀, e, m, hinit, hrun, hm, hagree _ m hm, ?_⟩
  obtain ⟨e₁, hpre, hlast⟩ := Option.bind_eq_some_iff.mp
    ((Engine.run_append (releasedOps.take 4) [cancelOrder 1 2]).symm.trans hrun)
  rw [Engine.run_cons] at hlast
  obtain ⟨e₂, hstep, -⟩ := Option.bind_eq_some_iff.mp hlast
  exact hgone (releasedOps.take 4) (cancelOrder 1 2) [] e₁ e₂ "BTCCNY" 2 rfl hpre hstep .cancelled m hm

end ViabtcExchange
