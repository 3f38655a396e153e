import ViabtcExchange.Reserves

/-!
# Runs that lose no digit

Balances are cut to `prec_save` digits, and a fee may have more. Where the fees of a trade fit, a
paid trade posts exactly what its calls say (`Solvent.postedExactly`), and the whole engine only
ever does two things to the balances besides the updates: trades, and moves between the balances of
a user. `Stable J` says that both keep `J`, and `Stable.step` that then every request does.
-/

namespace ViabtcExchange

section Accounts

variable {D : Type} (mpd : Mpd D) (real : Bool)

/-- The rows `append_user_balance` writes for a user and an asset: change and balance. -/
def rowsOf (u : ℕ) (a : String) (history : List (HistoryRow D)) : List (D × D) :=
  history.filterMap fun
    | .balance u' a' _ change balance _ => if u' = u ∧ a' = a then some (change, balance) else none
    | _ => none

/-- The part of the state that is about balances: the ledger, the trades, and the balance rows. -/
def Statics.accounts (s : Statics D) : Ledger D × List (Trade D) × (ℕ → String → List (D × D)) :=
  (s.ledger, s.trades, fun u a => rowsOf u a s.history)

variable (s : Statics D)

@[simp] theorem accounts_push (msg : Message D) : (s.push real msg).accounts = s.accounts := by
  cases real <;> rfl

@[simp] theorem accounts_append_order (order : Order D) :
    (s.append real (.order order)).accounts = s.accounts := by
  cases real
  · rfl
  · simp [Statics.append, Statics.accounts, rowsOf]

@[simp] theorem accounts_append_deal (dealId : ℕ) (ask bid : Order D) (askRole bidRole : MarketRole)
    (t : Terms D) :
    (s.append real (.deal dealId ask askRole bid bidRole t)).accounts = s.accounts := by
  cases real
  · rfl
  · simp [Statics.append, Statics.accounts, rowsOf]

theorem accounts_reportDeal (x : Matching D) (m : Market D) (taker maker : Order D) (t : Terms D)
    (dealId : ℕ) : (x.reportDeal real m s taker maker t dealId).accounts = s.accounts := by
  unfold Matching.reportDeal
  cases x.side <;> simp

/-- What `orderFinish` does to the accounts. -/
theorem accounts_orderFinish (m : Market D) (id : ℕ) :
    (orderFinish mpd real s m id).1.accounts =
      (if m.frozen mpd id then s.call mpd (m.unfreezeCall id) else s).accounts := by
  unfold orderFinish
  by_cases hstuck : orderStuck mpd s m id = true
  · have hfrozen : m.frozen mpd id = true := (Bool.and_eq_true _ _ ▸ hstuck).1
    rw [if_pos hstuck, if_pos hfrozen]
  · rw [if_neg hstuck]
    dsimp only
    split_ifs <;> simp

/-- A filled maker that freezes nothing any more leaves the accounts alone. -/
theorem accounts_settleMaker (m : Market D) (id : ℕ) (maker : Order D)
    (h : mpd.cmp maker.left mpd.zero = 0 → ¬mpd.cmp maker.freeze mpd.zero > 0) :
    (settleMaker mpd real s m id maker).1.accounts = s.accounts := by
  unfold settleMaker
  dsimp only
  split_ifs with hleft
  · rw [accounts_orderFinish, if_neg]
    · simp
    · simpa [Market.frozen] using h hleft
  · simp

theorem accounts_orderPut (m : Market D) (order : Order D) :
    ((orderPut mpd s m order).1.accounts).2 = s.accounts.2 := by
  rcases orderPut_statics mpd s m order with h | h
  · rw [h]
  · rw [h]
    rfl

theorem accounts_restLimitOrder (e : Execution D) :
    ((restLimitOrder mpd real e).statics.accounts).2 = e.statics.accounts.2 := by
  unfold restLimitOrder
  dsimp only
  split_ifs
  · simp
  · simp [accounts_orderPut]

theorem accounts_closeMarketOrder (e : Execution D) :
    (closeMarketOrder real e).statics.accounts = e.statics.accounts := by
  simp [closeMarketOrder]

theorem accounts_cancel (m : Market D) (id : ℕ) (h : m.frozen mpd id = true) :
    (marketCancelOrder mpd real s m id).statics.accounts =
      (s.call mpd (m.unfreezeCall id)).accounts := by
  unfold marketCancelOrder
  dsimp only
  rw [accounts_orderFinish, if_pos h]
  cases real <;> rfl

end Accounts

/-! ## Exact calls -/

section Exact

variable {round : ℚ → ℚ} {real : Bool} {F : ℚ → Prop} {S : String → ℚ} {other : ℕ → String → ℚ}
  {n : ℕ} {m : Market ℚ} {stock money : AssetType} {dictAsset : Dict String AssetType}
  {x : Matching ℚ} {taker maker order : Order ℚ} {t : Terms ℚ} {leg : Leg ℚ} {l : Ledger ℚ}
  {k : BalanceKey}

/-- The fees of a trade have no more digits than the balances they come from. -/
def FeesFit (dictAsset : Dict String AssetType) (x : Matching ℚ) (m : Market ℚ) (t : Terms ℚ) :
    Prop :=
  Fits dictAsset ⟨0, .available, m.money⟩ t.askFee ∧
    Fits dictAsset ⟨0, .available, x.bidFeeAsset m⟩ t.bidFee

theorem gained_feePosting (u : ℕ) (a : String) (fee : ℚ) : gained (feePosting u a fee) k = 0 := by
  unfold feePosting
  split_ifs with hfee
  · rw [gained_cons, gained_nil, max_eq_right (neg_nonpos.mpr hfee.le), ite_self, add_zero]
  · rfl

theorem gained_gains (hget : 0 ≤ leg.get) :
    gained (gains order leg) k =
      if (⟨order.userId, .available, leg.getAsset⟩ : BalanceKey) = k then leg.get else 0 := by
  unfold gains
  rw [gained_cons, gained_feePosting, add_zero, max_eq_left hget]

/-- A party gains what it gets. -/
theorem gained_legCalls (hgive : 0 ≤ leg.give) (hget : 0 ≤ leg.get) :
    gained (postings (legCalls (ratMpd round) order leg)) k =
      if (⟨order.userId, .available, leg.getAsset⟩ : BalanceKey) = k then leg.get else 0 := by
  rw [postings_legCalls, gained_cons, gained_gains hget, max_eq_right (neg_nonpos.mpr hgive),
    ite_self, zero_add]

theorem LegOk.gained_le (h : LegOk dictAsset S leg) (u : ℕ) (a : String) (hS : 0 ≤ S a) :
    gained (postings (legCalls (ratMpd round) order leg)) ⟨u, .available, a⟩ +
      gained (postings (legCalls (ratMpd round) order leg)) ⟨u, .freeze, a⟩ ≤ S a := by
  rw [gained_legCalls h.give h.get, gained_legCalls h.give h.get]
  by_cases hk : order.userId = u ∧ leg.getAsset = a
  · obtain ⟨rfl, rfl⟩ := hk
    simpa using h.getLe
  · have hne : (⟨order.userId, .available, leg.getAsset⟩ : BalanceKey) ≠ ⟨u, .available, a⟩ :=
      fun heq => hk (by simpa using heq)
    simpa [hne] using hS

/-- The postings of a party have no more digits than its accounts. -/
theorem LegOk.fits (h : LegOk dictAsset S leg)
    (hfee : Fits dictAsset ⟨0, .available, leg.feeAsset⟩ leg.fee) :
    ∀ p ∈ postings (legCalls (ratMpd round) order leg), Fits dictAsset p.1 p.2 := by
  intro p hp
  rw [postings_legCalls] at hp
  rcases List.mem_cons.mp hp with rfl | hp
  · exact fun ty hty => (h.giveFits order.userId leg.giveType ty hty).neg
  rcases List.mem_cons.mp hp with rfl | hp
  · exact h.getFits _ _
  · unfold feePosting at hp
    split_ifs at hp
    · rw [List.mem_singleton.mp hp]
      exact fun ty hty => (hfee ty hty).neg
    · cases hp

/-- A paid trade whose fees fit posts exactly what its calls say. -/
theorem Solvent.exactCalls (h : Solvent F S other n l m)
    (hset : Setting round S other l.dictAsset m stock money)
    (hq : Quoted round x m taker maker t) (hs : Sized S m maker t)
    (hprice : OnGrid m.moneyPrec maker.price) (hpos : 0 < maker.price)
    (hcov : Covers (saved round l.dictAsset) l.balance
      (postings (tradeCalls (ratMpd round) x m taker maker t)))
    (hfees : FeesFit l.dictAsset x m t) :
    ExactCalls round S l (tradeCalls (ratMpd round) x m taker maker t) := by
  have hdeal := hs.deal hset hq hprice hpos
  have hgood := @good_tradeCalls _ _ _ taker maker _ _ hset.known
    (hq.bidFee.imp And.left And.left) hq.amount_pos (hdeal ▸ mul_pos hpos hq.amount_pos)
    (hs.amount_exact hset hq.amount_pos) ((congrArg round hdeal).trans hq.deal.symm)
  have hleg :
      ∀ side type rate, LegOk l.dictAsset S (partyLeg m (x.bidFeeAsset m) t side type rate) :=
    fun side type rate => hs.legOk hset hq hprice hpos _ side type rate
  have hfee : ∀ side type rate, Fits l.dictAsset
      ⟨0, .available, (partyLeg m (x.bidFeeAsset m) t side type rate).feeAsset⟩
      (partyLeg m (x.bidFeeAsset m) t side type rate).fee := fun side type rate => by
    cases side with
    | ask => exact hfees.1
    | bid => exact hfees.2
  have hfits : ∀ p ∈ postings (tradeCalls (ratMpd round) x m taker maker t),
      Fits l.dictAsset p.1 p.2 := fun p hp => by
    unfold tradeCalls at hp
    rw [postings_append] at hp
    rcases List.mem_append.mp hp with hp | hp
    · exact (hleg _ _ _).fits (hfee _ _ _) p hp
    · exact (hleg _ _ _).fits (hfee _ _ _) p hp
  have hS : ∀ a, 0 ≤ S a := fun a => (h.sound.nonneg ⟨0, .available, a⟩).trans (h.balance_le _)
  have hgained : ∀ u a,
      gained (postings (tradeCalls (ratMpd round) x m taker maker t)) ⟨u, .available, a⟩ +
        gained (postings (tradeCalls (ratMpd round) x m taker maker t)) ⟨u, .freeze, a⟩ ≤
      2 * S a := fun u a => by
    have htaker := @LegOk.gained_le round _ _ taker _
      (hleg x.side .available taker.takerFee) u a (hS a)
    have hmaker := @LegOk.gained_le round _ _ maker _
      (hleg x.side.opposite .freeze maker.makerFee) u a (hS a)
    unfold tradeCalls Matching.takerLeg Matching.makerLeg
    rw [postings_append, gained_append, gained_append]
    linarith
  have hknown : ∀ p ∈ postings (tradeCalls (ratMpd round) x m taker maker t),
      ∃ ty, l.dictAsset.find p.1.asset = some ty := fun p hp => by
    obtain ⟨c, hc, hpc⟩ := List.mem_flatMap.mp hp
    obtain ⟨-, hk, -⟩ := hgood c hc
    cases c <;> simp [BalanceCall.postings] at hpc
    case add => exact hpc ▸ hk
    case sub => exact hpc ▸ hk
    case freeze => rcases hpc with rfl | rfl <;> exact hk
    case unfreeze => rcases hpc with rfl | rfl <;> exact hk
  have hkey : ∀ k, gained (postings (tradeCalls (ratMpd round) x m taker maker t)) k ≤
      3 * S k.asset := by
    rintro ⟨u, type, a⟩
    have hnonneg := fun type => gained_nonneg
      (postings (tradeCalls (ratMpd round) x m taker maker t)) ⟨u, type, a⟩
    have hle := hgained u a
    have haS := hS a
    cases type with
    | available => exact le_trans (by linarith [hnonneg .freeze]) (by linarith : 2 * S a ≤ 3 * S a)
    | freeze => exact le_trans (by linarith [hnonneg .available]) (by linarith : 2 * S a ≤ 3 * S a)
  exact ⟨hgood, hcov, h.keeps hset hfits hknown hcov fun p _ => hkey p.1, hfits, h.sound, h.supply,
    hset.room, hgained⟩

end Exact

/-! ## What every change of the accounts keeps -/

section Stable

variable {round : ℚ → ℚ} {real : Bool} {F : ℚ → Prop} {S : String → ℚ} {other : ℕ → String → ℚ}
  {n : ℕ} {stock money : AssetType} {x : Matching ℚ} {e₀ e : Execution ℚ} {J : Statics ℚ → Prop}

/-- Whether a call moves an amount between the two balances of a user. -/
def BalanceCall.isMove {D : Type} : BalanceCall D → Bool
  | .freeze _ _ _ | .unfreeze _ _ _ => true
  | _ => false

/-- `J` is about the accounts, and kept by trades and moves that are exact. -/
structure Stable (round : ℚ → ℚ) (real : Bool) (J : Statics ℚ → Prop) : Prop where
  quiet : ∀ {s s' : Statics ℚ}, s'.accounts = s.accounts → J s → J s'
  pay : ∀ {S : String → ℚ} {x : Matching ℚ} {e : Execution ℚ} {i : ℕ} {t : Terms ℚ},
    ExactCalls round S e.statics.ledger
      (tradeCalls (ratMpd round) x e.market e.taker (e.market.order i) t) →
    0 ≤ t.askFee → 0 ≤ t.bidFee → J e.statics → J (payTrade (ratMpd round) real x e i t)
  move : ∀ {S : String → ℚ} {s : Statics ℚ} {c : BalanceCall ℚ}, c.isMove = true →
    ExactCalls round S s.ledger [c] → J s → J (s.call (ratMpd round) c)

/-- The fees of all planned trades fit. -/
def PlanFits (round : ℚ → ℚ) (x : Matching ℚ) (ids : List ℕ) (e : Execution ℚ) : Prop :=
  ∀ p ∈ (x.plan (ratMpd round) e.market ids e.taker).1,
    FeesFit e.statics.ledger.dictAsset x e.market p.2

/-- What the trades of an order keep besides solvency. -/
def Keeping (round : ℚ → ℚ) (x : Matching ℚ) (J : Statics ℚ → Prop) (ids : List ℕ)
    (e : Execution ℚ) : Prop :=
  0 ≤ e.taker.takerFee ∧ PlanFits round x ids e ∧ J e.statics

theorem Quoted.fees_nonneg {m : Market ℚ} {taker maker : Order ℚ} {t : Terms ℚ}
    (hr : RoundsDown round) (h : Quoted round x m taker maker t) (hdeal : 0 ≤ t.deal)
    (htaker : 0 ≤ taker.takerFee) (hmaker : 0 ≤ maker.makerFee) : 0 ≤ t.askFee ∧ 0 ≤ t.bidFee := by
  have hask : 0 ≤ x.askRate taker maker := by
    unfold Matching.askRate
    cases x.side <;> assumption
  have hbid : 0 ≤ x.bidRate taker maker := by
    unfold Matching.bidRate
    cases x.side <;> assumption
  refine ⟨h.askFee ▸ hr.nonneg (mul_nonneg hdeal hask), ?_⟩
  rcases h.bidFee with ⟨-, hfee⟩ | ⟨-, hfee⟩ <;> rw [hfee]
  · exact hr.nonneg (mul_nonneg hdeal hbid)
  · exact hr.nonneg (mul_nonneg h.amount_pos.le hbid)

theorem keeping_trade (hJ : Stable round real J) (hF : ∀ y, F y → 0 ≤ y) (hx : x.Local)
    (hset : Setting round S other e₀.statics.ledger.dictAsset e₀.market stock money) :
    TradeInvariant round real F S other n x e₀ (Keeping round x J) := by
  rintro e i ids t hw hsolvent hassets hok hleft hq ⟨hfee, hplan, hj⟩
  have hset' := hset.congr hw.conf
  rw [← hassets] at hset'
  have hi := hw.mem i List.mem_cons_self
  have hmaker := hsolvent.maker hi
  obtain ⟨hio, hmleft, hprice⟩ := hw.maker
  have hni := (List.nodup_cons.mp hw.nodup).1
  have hdeal := hok.sized.deal hset' hok.quoted hmaker.price hprice
  have hr := hset.digits.toRoundsDown
  have hheads := (plan_trade real hx hw.book.wf hio hni hleft hq).1
  unfold PlanFits at hplan
  rw [hheads] at hplan
  obtain ⟨hfees, hrest⟩ := List.forall_mem_cons.mp hplan
  have hexact := hsolvent.exactCalls hset' hok.quoted hok.sized hmaker.price hprice
    hok.posted.covers hfees
  obtain ⟨hask, hbid⟩ := hok.quoted.fees_nonneg hr (hdeal ▸ (mul_pos hprice
    hok.quoted.amount_pos).le) hfee (hF _ hmaker.fee)
  have hconf := (executeTrade_market round real x e t hw.book.wf hio).conf
  have hdict : (executeTrade (ratMpd round) real x e i t).statics.ledger.dictAsset =
      e.statics.ledger.dictAsset := congrArg Prod.snd
        (executeTrade_fixed (ratMpd round) real x e i t)
  refine ⟨hfee, fun p hp => ?_, ?_⟩
  · have hp' := hrest p hp
    unfold FeesFit at hp' ⊢
    rw [hdict, hx.bidFeeAsset hconf,
      show (executeTrade (ratMpd round) real x e i t).market.money = e.market.money from
        congrArg MarketConf.money hconf]
    exact hp'
  · have hbound : (e.market.order i).freeze ≤ S (e.market.giveAsset (e.market.order i).side) := by
      rw [hsolvent.indexed.book.wf.side _ i hi]
      exact hsolvent.freeze_le_bound hset.other hi
    obtain ⟨hbacked, -, -⟩ := hmaker.fillMaker hset' hok.quoted hok.sized
      (hsolvent.indexed.book.wf.side _ i hi) hprice hbound
    refine hJ.quiet (accounts_settleMaker (ratMpd round) real _ e.market i _ fun h0 => ?_)
      (hJ.pay hexact hask hbid hj)
    have h0' : (x.fillMaker (ratMpd round) e.market (e.market.order i) t).left = 0 := by
      simpa using h0
    have hzero : (x.fillMaker (ratMpd round) e.market (e.market.order i) t).freeze = 0 := by
      rw [hbacked.freeze]
      unfold restFreeze
      cases (x.fillMaker (ratMpd round) e.market (e.market.order i) t).side <;> simp [h0']
    simp [hzero]

/-- Taking the next order id is not about balances. -/
theorem accounts_openOrder {D : Type} (s : Statics D) : s.openOrder.accounts = s.accounts := rfl

/-- Filled or resting, an order keeps what exact moves keep. -/
theorem Stable.restLimitOrder (hJ : Stable round real J)
    (hposted : PostedExactly round S e.statics.ledger
      (ViabtcExchange.restLimitOrder (ratMpd round) real e).statics.ledger
      (restCalls (ratMpd round) e.market e.taker)) (hj : J e.statics) :
    J (ViabtcExchange.restLimitOrder (ratMpd round) real e).statics := by
  have hrest := accounts_restLimitOrder (ratMpd round) real e
  obtain ⟨hledger, hexact⟩ := hposted
  unfold restCalls at hledger hexact
  split_ifs at hledger hexact
  · exact hJ.quiet (Prod.ext hledger hrest) hj
  · have hmove : J (e.statics.call (ratMpd round) (e.market.freezeCall (ratMpd round) e.taker)) :=
      hJ.move rfl hexact hj
    exact hJ.quiet (s := e.statics.call (ratMpd round) (e.market.freezeCall (ratMpd round) e.taker))
      (Prod.ext hledger hrest) hmove

end Stable

/-! ## Updates -/

section Update

variable {round : ℚ → ℚ} {l : Ledger ℚ} {b : Dict BalanceKey ℚ} {u : ℕ} {a : String} {ty : AssetType}
  {change x : ℚ} {type : BalanceType}

/-- `balance_sub` only takes what is there. -/
theorem balanceSub_le {dictAsset : Dict String AssetType} {b b' : Dict BalanceKey ℚ}
    (hrun : balanceSub (ratMpd round) dictAsset b u type a x = some b') :
    x ≤ balanceOf b ⟨u, type, a⟩ := by
  unfold balanceSub at hrun
  cases hty : dictAsset.find a with
  | none => simp [hty] at hrun
  | some ty =>
    simp only [hty] at hrun
    split_ifs at hrun
    unfold balanceGet at hrun
    cases hb : b.find ⟨u, type, a⟩ with
    | none => simp [hb] at hrun
    | some r =>
      simp only [hb] at hrun
      split_ifs at hrun with hlt
      simpa [balanceOf, hb] using hlt

/-- An update whose change and outcome fit the balance posts exactly the change. -/
theorem applyChange_exact (hr : RoundsDown round) (hs : l.Sound)
    (hty : l.dictAsset.find a = some ty) (hgrid : OnGrid ty.precSave change)
    (hexact : ∀ y, OnGrid ty.precSave y → |y| ≤ l.balance ⟨u, .available, a⟩ + |change| →
      round y = y)
    (hrun : applyChange (ratMpd round) l u a change = some b) :
    balanceOf b = postAll (saved round l.dictAsset) l.balance [(⟨u, .available, a⟩, change)] ∧
      Keeps (saved round l.dictAsset) l.balance [(⟨u, .available, a⟩, change)] ∧
      0 ≤ l.balance ⟨u, .available, a⟩ + change := by
  have hbal : 0 ≤ l.balance ⟨u, .available, a⟩ := hs.nonneg _
  have hbgrid : OnGrid ty.precSave (l.balance ⟨u, .available, a⟩) := hs.onGrid hty
  have habs : round |change| = |change| := by
    refine hexact _ ?_ (by rw [abs_abs]; linarith)
    rcases abs_choice change with h | h <;> rw [h]
    · exact hgrid
    · exact hgrid.neg
  have hkeep : 0 ≤ l.balance ⟨u, .available, a⟩ + change →
      saved round l.dictAsset ⟨u, .available, a⟩ (l.balance ⟨u, .available, a⟩ + change) =
        l.balance ⟨u, .available, a⟩ + change := fun h0 => by
    refine saved_of_fits (fun ty' hty' => ?_) (hexact _ (hbgrid.add hgrid) ?_)
    · obtain rfl := Option.some.inj (hty.symm.trans hty')
      exact hbgrid.add hgrid
    · rw [abs_of_nonneg h0]
      linarith [le_abs_self change]
  unfold applyChange at hrun
  simp only [ratMpd_abs, habs, ge_iff_le, ratMpd_zero, ratMpd_cmp_nonneg] at hrun
  split_ifs at hrun with hsign
  · rw [abs_of_nonneg hsign] at hrun habs
    obtain ⟨b', hb', hval, -⟩ := balanceAdd_post (b := l.dictBalance) (u := u) (t := .available) hr
      hty hsign habs
    obtain rfl := Option.some.inj (hrun.symm.trans hb')
    exact ⟨hval, ⟨hkeep (add_nonneg hbal hsign), trivial⟩, add_nonneg hbal hsign⟩
  · rw [abs_of_neg (not_le.mp hsign)] at hrun
    have hle : -change ≤ l.balance ⟨u, .available, a⟩ := balanceSub_le hrun
    have h0 : 0 ≤ l.balance ⟨u, .available, a⟩ + change := by linarith
    obtain ⟨b', hb', hval, -⟩ := balanceSub_post (b := l.dictBalance) (u := u) (t := .available)
      (x := -change) hr hty (by linarith [not_le.mp hsign])
      (by rw [neg_neg]; exact h0)
    obtain rfl := Option.some.inj (hrun.symm.trans hb')
    rw [neg_neg] at hval
    exact ⟨hval, ⟨hkeep h0, trivial⟩, h0⟩

end Update

namespace Engine

variable {round : ℚ → ℚ} {real : Bool} {F : ℚ → Prop} {J : Statics ℚ → Prop} {e₀ e e' : Engine ℚ}
  {op : Op ℚ} {dictAsset : Dict String AssetType} {confs : List (MarketConf ℚ)}

/-- The fees of the trades a request is going to make have no more digits than the balances. -/
def FeesFit (round : ℚ → ℚ) (e : Engine ℚ) : Op ℚ → Prop
  | .limitOrder args => ∀ m, e.dictMarket.find args.market = some m →
    PlanFits round (limitMatching (ratMpd round) args.side) (m.book args.side.opposite)
      (startLimit (ratMpd round) e.statics m args.userId args.side args.amount args.price
        args.takerFee args.makerFee args.source)
  | .marketOrder args => ∀ m, e.dictMarket.find args.market = some m →
    PlanFits round (marketMatching (ratMpd round) args.side) (m.book args.side.opposite)
      (startMarket (ratMpd round) e.statics m args.userId args.side args.amount args.takerFee
        args.source)
  | _ => True

/-- The change of an update, and the balance after it, have no more digits than the balances, and
no more than the context. -/
def ChangeFits (e : Engine ℚ) : Op ℚ → Prop
  | .updateBalance args _ _ => ∀ ty, e.statics.ledger.dictAsset.find args.asset = some ty →
    OnGrid ty.precSave args.change ∧
      supply e.statics.ledger.dictBalance args.asset + |args.change| < 10 ^ (34 - (ty.precSave : ℤ))
  | _ => True

/-- The condition on a request: it is funded, and no amount has more digits than its balance. -/
def Exact (e : Engine ℚ) (op : Op ℚ) : Prop :=
  e.Funded op ∧ e.FeesFit (roundDown 34) op ∧ e.ChangeFits op

theorem ChangeFits.applyChange {e : Engine ℚ} {args : UpdateArgs ℚ} {padding : ℕ} {now : ℚ}
    {b : Dict BalanceKey ℚ} (h : e.ChangeFits (.updateBalance args padding now))
    (hs : e.statics.ledger.Sound)
    (hrun : applyChange decimal128 e.statics.ledger args.userId args.asset args.change = some b) :
    let k : BalanceKey := ⟨args.userId, .available, args.asset⟩
    let l := e.statics.ledger
    balanceOf b = postAll (saved (roundDown 34) l.dictAsset) l.balance [(k, args.change)] ∧
      Keeps (saved (roundDown 34) l.dictAsset) l.balance [(k, args.change)] ∧
      0 ≤ l.balance k + args.change ∧
      ∃ ty, l.dictAsset.find args.asset = some ty ∧ OnGrid ty.precSave args.change := by
  intro k l
  cases hty : e.statics.ledger.dictAsset.find args.asset with
  | none => simp [ViabtcExchange.applyChange, balanceAdd, balanceSub, hty] at hrun
  | some ty =>
    obtain ⟨hgrid, hroom⟩ := h ty hty
    obtain ⟨hval, hkeep, h0⟩ := applyChange_exact roundsDown_roundDown hs hty hgrid (fun y hy hle => by
      refine roundDown_of_onGrid hy ((hle.trans ?_).trans_lt hroom)
      have hsupply := balanceOf_le_supply hs k
      have hbal : e.statics.ledger.balance k ≤ supply e.statics.ledger.dictBalance args.asset :=
        hsupply
      linarith) hrun
    exact ⟨hval, hkeep, h0, ty, rfl, hgrid⟩

theorem Stable.step (hJ : Stable round real J)
    (hinit : Engine.init (ratMpd round) dictAsset confs = some e₀) (hd : RoundsDigits round)
    (hF : ∀ y, F y → 0 ≤ y ∧ y ≤ 1) (h : Solvent F e₀ e) (hpays : e.Pays round F op)
    (hfees : e.FeesFit round op) (hstep : e.step (ratMpd round) real op = some e')
    (hupdate : ∀ args padding now s d, op = .updateBalance args padding now →
      updateUserBalance (ratMpd round) real e.statics e.dictUpdate args padding now = (0, s, d) →
      J e.statics → J s) (hj : J e.statics) : J e'.statics := by
  have hcases := step_cases hstep
  have hF0 : ∀ y, F y → 0 ≤ y := fun y hy => (hF y hy).1
  cases op with
  | updateBalance args padding now =>
    obtain ⟨s, d, hupd, rfl⟩ := hcases
    exact hupdate args padding now s d rfl hupd hj
  | limitOrder args =>
    obtain ⟨m, o, hm, hok, hput, hret, rfl⟩ := hcases
    obtain ⟨hroom, hall⟩ := hpays
    obtain ⟨hgrid, hpgrid, hfee, hpays⟩ := hall m hm
    obtain ⟨hamount, hprice⟩ := limitOk_pos hok
    obtain ⟨stock, money, hset⟩ := h.setting hinit hd hroom hm
    have hlocal : (limitMatching (ratMpd round) args.side).Local := by
      cases args.side
      · exact local_limitAsk _
      · exact local_limitBid _
    obtain ⟨-, ids, ex, ⟨-, -, hj'⟩, rfl, hposted⟩ := (h.market hm).putLimit hset
      ⟨hamount, hprice, hgrid, hpgrid, hfee⟩ hpays
      (keeping_trade hJ hF0 hlocal hset)
      ⟨(feeRateOk_iff.mp hok.takerFee).1, hfees m hm, hJ.quiet (accounts_openOrder _) hj⟩ hput hret
    exact hJ.restLimitOrder hposted hj'
  | marketOrder args =>
    obtain ⟨m, o, hm, hok, hput, hret, rfl⟩ := hcases
    obtain ⟨hroom, hall⟩ := hpays
    have hamount : 0 < args.amount := (ratMpd_cmp_pos _ _ _).mp hok.amount
    obtain ⟨hfee0, hfee1⟩ := feeRateOk_iff.mp hok.takerFee
    obtain ⟨stock, money, hset⟩ := h.setting hinit hd hroom hm
    have hlocal : (marketMatching (ratMpd round) args.side).Local := by
      cases args.side
      · exact local_marketAsk _
      · exact local_marketBid _
    obtain ⟨-, ids, ex, ⟨-, -, hj'⟩, rfl⟩ := (h.market hm).putMarket hset (fun y hy => (hF y hy).2)
      ⟨hamount, hall m hm, hfee1.le⟩
      (keeping_trade hJ hF0 hlocal hset)
      ⟨hfee0, hfees m hm, hJ.quiet (accounts_openOrder _) hj⟩ hput hret
    exact hJ.quiet (accounts_closeMarketOrder real ex) hj'
  | cancelOrder args =>
    obtain ⟨m, hm, hmem, huser, rfl⟩ := hcases
    obtain ⟨stock, money, hset⟩ := h.setting hinit hd hpays hm
    obtain ⟨-, hposted, -⟩ := (h.market hm).cancel real hset hmem
    have hfrozen : m.frozen (ratMpd round) args.orderId = true := by
      have hpos := (h.market hm).freeze_pos ((h.market hm).indexed.booked trivial _ hmem)
      simpa [Market.frozen] using hpos
    exact hJ.quiet (accounts_cancel (ratMpd round) real e.statics m args.orderId hfrozen)
      (hJ.move rfl hposted.exact hj)
  | expire now =>
    subst hcases
    exact hj

end Engine

end ViabtcExchange
