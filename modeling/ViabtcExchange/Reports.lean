import ViabtcExchange.Runs

/-!
# No balance changes silently

Whoever shows balances hears of their changes by the messages of the engine: that of an update
names the user and the asset, and that of an order stands for both assets of its market. The calls
of a request come before and after its messages, and those of a trade for two users.

**Theorem (`Engine.step_reported`).** Of every balance that a request changes, one of the messages
it pushes is about the user and the asset.
-/

namespace ViabtcExchange

section Reported

variable {D : Type} {mpd : Mpd D}

/-- A message about the balances of a user in an asset: `accessws` asks for them when it comes. -/
def Message.Concerns (userId : ℕ) (asset : String) : Message D → Prop
  | .balance u a _ _ => u = userId ∧ a = asset
  | .order _ o stock money => o.userId = userId ∧ (asset = stock ∨ asset = money)
  | .deal .. => False

/-- What a user has of an asset, available and frozen. -/
def Ledger.balances (l : Ledger D) (userId : ℕ) (asset : String) : Option D × Option D :=
  (balanceGet l.dictBalance userId .available asset, balanceGet l.dictBalance userId .freeze asset)

/-- The messages that were pushed since. -/
def Statics.since (s s' : Statics D) : List (Message D) := s'.messages.drop s.messages.length

/-- Of every balance that has changed there is a message, but for those in `T`. -/
structure Reported (T : ℕ → String → Prop) (s s' : Statics D) : Prop where
  grows : s.messages <+: s'.messages
  covered : ∀ u a, s'.ledger.balances u a ≠ s.ledger.balances u a →
    T u a ∨ ∃ msg ∈ s.since s', msg.Concerns u a

theorem Statics.append_since {s s' : Statics D} (h : s.messages <+: s'.messages) :
    s.messages ++ s.since s' = s'.messages := by
  obtain ⟨ms, hms⟩ := h
  rw [Statics.since, ← hms, List.drop_left]

theorem Statics.since_trans {s s' s'' : Statics D} (h : s.messages <+: s'.messages)
    (h' : s'.messages <+: s''.messages) : s.since s'' = s.since s' ++ s'.since s'' := by
  have hlen := h.length_le
  unfold Statics.since
  rw [← Statics.append_since h', List.drop_append_of_le_length hlen, List.drop_left]

/-! ## Calls -/

theorem balanceGet_insert_of_ne (b : Dict BalanceKey D) {k : BalanceKey} (v : D) {u : ℕ}
    {type : BalanceType} {a : String} (h : ⟨u, type, a⟩ ≠ k) :
    balanceGet (b.insert k v) u type a = balanceGet b u type a := by
  unfold balanceGet
  rw [Dict.find_insert, if_neg h]

theorem balanceGet_erase_of_ne (b : Dict BalanceKey D) {k : BalanceKey} {u : ℕ}
    {type : BalanceType} {a : String} (h : ⟨u, type, a⟩ ≠ k) :
    balanceGet (b.erase k) u type a = balanceGet b u type a := by
  unfold balanceGet
  rw [Dict.find_erase, if_neg h]

variable {dictAsset : Dict String AssetType} {b b' : Dict BalanceKey D} {u userId : ℕ}
  {a asset : String} {type type' : BalanceType} {amount : D}

/-- The balances of another user, or in another asset. -/
def Elsewhere (u userId : ℕ) (a asset : String) : Prop := u ≠ userId ∨ a ≠ asset

theorem Elsewhere.ne (h : Elsewhere u userId a asset) :
    (⟨u, type, a⟩ : BalanceKey) ≠ ⟨userId, type', asset⟩ := by
  rintro ⟨⟩
  exact h.elim (· rfl) (· rfl)

theorem balanceGet_balanceSet (hne : Elsewhere u userId a asset)
    (h : balanceSet mpd dictAsset b userId type' asset amount = some b') :
    balanceGet b' u type a = balanceGet b u type a := by
  unfold balanceSet at h
  split at h
  · cases h
  · split_ifs at h
    · obtain rfl := Option.some.inj h
      exact balanceGet_erase_of_ne b hne.ne
    · obtain rfl := Option.some.inj h
      exact balanceGet_insert_of_ne b _ hne.ne

theorem balanceGet_balanceAdd (hne : Elsewhere u userId a asset)
    (h : balanceAdd mpd dictAsset b userId type' asset amount = some b') :
    balanceGet b' u type a = balanceGet b u type a := by
  unfold balanceAdd at h
  split at h
  · cases h
  · split_ifs at h
    split at h
    · obtain rfl := Option.some.inj h
      exact balanceGet_insert_of_ne b _ hne.ne
    · exact balanceGet_balanceSet hne h

theorem balanceGet_balanceLower (hne : Elsewhere u userId a asset) (ty : AssetType) (result : D) :
    balanceGet (balanceLower mpd b userId type' asset ty result amount) u type a =
      balanceGet b u type a := by
  unfold balanceLower
  dsimp only
  split_ifs
  · exact balanceGet_erase_of_ne b hne.ne
  · exact balanceGet_insert_of_ne b _ hne.ne

theorem balanceGet_balanceSub (hne : Elsewhere u userId a asset)
    (h : balanceSub mpd dictAsset b userId type' asset amount = some b') :
    balanceGet b' u type a = balanceGet b u type a := by
  unfold balanceSub at h
  split at h
  · cases h
  · split_ifs at h
    split at h
    · cases h
    · split_ifs at h
      obtain rfl := Option.some.inj h
      exact balanceGet_balanceLower hne _ _

theorem balanceGet_balanceMove {src dst : BalanceType} (hne : Elsewhere u userId a asset)
    (h : balanceMove mpd dictAsset b src dst userId asset amount = some b') :
    balanceGet b' u type a = balanceGet b u type a := by
  unfold balanceMove at h
  split at h
  · cases h
  · split_ifs at h
    split at h
    · cases h
    · split_ifs at h
      split at h
      · cases h
      · rename_i b₁ hadd
        obtain rfl := Option.some.inj h
        exact (balanceGet_balanceLower hne _ _).trans (balanceGet_balanceAdd hne hadd)

/-- Whose balances a call is about, and in what. -/
def BalanceCall.target : BalanceCall D → ℕ × String
  | .add userId _ asset _ => (userId, asset)
  | .sub userId _ asset _ => (userId, asset)
  | .freeze userId asset _ => (userId, asset)
  | .unfreeze userId asset _ => (userId, asset)

/-- A call touches the balances of one user in one asset. -/
theorem Ledger.balances_call (l : Ledger D) {c : BalanceCall D} (h : (u, a) ≠ c.target) :
    (l.call mpd c).balances u a = l.balances u a := by
  have hne : Elsewhere u c.target.1 a c.target.2 := by
    by_contra hno
    rw [Elsewhere, not_or, not_not, not_not] at hno
    exact h (Prod.ext hno.1 hno.2)
  unfold Ledger.call
  cases hrun : c.run mpd l.dictAsset l.dictBalance with
  | none => rfl
  | some b' =>
    have hget : ∀ type, balanceGet b' u type a = balanceGet l.dictBalance u type a := fun type => by
      cases c with
      | add => exact balanceGet_balanceAdd hne hrun
      | sub => exact balanceGet_balanceSub hne hrun
      | freeze => exact balanceGet_balanceMove hne hrun
      | unfreeze => exact balanceGet_balanceMove hne hrun
    exact Prod.ext (hget _) (hget _)

/-! ## Reports -/

namespace Reported

variable {T T' : ℕ → String → Prop} {s s' s'' : Statics D}

theorem refl (T : ℕ → String → Prop) (s : Statics D) : Reported T s s :=
  ⟨List.prefix_refl _, fun _ _ h => absurd rfl h⟩

/-- What needs a report no more, or has got it. -/
theorem weaken (h : Reported T s s')
    (hT : ∀ u a, T u a → T' u a ∨ ∃ msg ∈ s.since s', msg.Concerns u a) : Reported T' s s' :=
  ⟨h.grows, fun u a hne => (h.covered u a hne).elim (hT u a) Or.inr⟩

theorem call (h : Reported T s s') (c : BalanceCall D) (hT : T c.target.1 c.target.2) :
    Reported T s (s'.call mpd c) := by
  refine ⟨h.grows, fun u a hne => ?_⟩
  by_cases htarget : (u, a) = c.target
  · rw [← htarget] at hT
    exact Or.inl hT
  · refine h.covered u a fun heq => hne ?_
    exact (Ledger.balances_call _ htarget).trans heq

theorem congr (h : Reported T s s') (hmessages : s''.messages = s'.messages)
    (hledger : s''.ledger = s'.ledger) : Reported T s s'' := by
  refine ⟨hmessages ▸ h.grows, fun u a hne => ?_⟩
  rw [hledger] at hne
  unfold Statics.since
  rw [hmessages]
  exact h.covered u a hne

theorem append (h : Reported T s s') (row : HistoryRow D) : Reported T s (s'.append true row) :=
  h.congr rfl rfl

theorem push (h : Reported T s s') (msg : Message D) : Reported T s (s'.push true msg) := by
  have hsince : s.since (s'.push true msg) = s.since s' ++ [msg] := by
    have hlen := h.grows.length_le
    unfold Statics.since Statics.push
    rw [if_pos rfl]
    dsimp only
    rw [List.drop_append_of_le_length hlen]
  refine ⟨h.grows.trans (List.prefix_append _ _), fun u a hne => ?_⟩
  refine (h.covered u a hne).imp_right fun ⟨old, hold, hconcerns⟩ => ⟨old, ?_, hconcerns⟩
  rw [hsince]
  exact List.mem_append_left _ hold

theorem mem_since_push (h : s.messages <+: s'.messages) (msg : Message D) :
    msg ∈ s.since (s'.push true msg) := by
  have hlen := h.length_le
  unfold Statics.since Statics.push
  rw [if_pos rfl]
  dsimp only
  rw [List.drop_append_of_le_length hlen]
  exact List.mem_append_right _ List.mem_cons_self

theorem trans (h : Reported T s s') (h' : Reported T s' s'') : Reported T s s'' := by
  refine ⟨h.grows.trans h'.grows, fun u a hne => ?_⟩
  rw [Statics.since_trans h.grows h'.grows]
  by_cases hsame : s''.ledger.balances u a = s'.ledger.balances u a
  · rw [hsame] at hne
    exact (h.covered u a hne).imp_right fun ⟨msg, hmsg, hc⟩ => ⟨msg, List.mem_append_left _ hmsg, hc⟩
  · exact (h'.covered u a hsame).imp_right fun ⟨msg, hmsg, hc⟩ =>
      ⟨msg, List.mem_append_right _ hmsg, hc⟩

end Reported

/-! ## Trades -/

section Trades

variable {T : ℕ → String → Prop} {s s' : Statics D} {m : Market D}

/-- The two assets of a market, for a user. -/
def AssetsOf (userId : ℕ) (m : Market D) (u : ℕ) (a : String) : Prop :=
  u = userId ∧ (a = m.stock ∨ a = m.money)

theorem concerns_order {o : Order D} {m : Market D} {event : OrderEvent} {u : ℕ} {a : String}
    (h : AssetsOf o.userId m u a) : (Message.order event o m.stock m.money).Concerns u a :=
  ⟨h.1.symm, h.2⟩

theorem giveAsset_cases (m : Market D) (side : OrderSide) :
    m.giveAsset side = m.stock ∨ m.giveAsset side = m.money := by
  cases side with
  | ask => exact Or.inl rfl
  | bid => exact Or.inr rfl

/-- The assets a leg moves. -/
structure Leg.Within (leg : Leg D) (m : Market D) : Prop where
  give : leg.giveAsset = m.stock ∨ leg.giveAsset = m.money
  get : leg.getAsset = m.stock ∨ leg.getAsset = m.money
  fee : leg.feeAsset = m.stock ∨ leg.feeAsset = m.money

theorem within_partyLeg (m : Market D) {bidFeeAsset : String} (t : Terms D) (side : OrderSide)
    (giveType : BalanceType) (feeRate : D) (hfee : bidFeeAsset = m.stock ∨ bidFeeAsset = m.money) :
    (partyLeg m bidFeeAsset t side giveType feeRate).Within m := by
  cases side with
  | ask => exact ⟨Or.inl rfl, Or.inr rfl, Or.inr rfl⟩
  | bid => exact ⟨Or.inr rfl, Or.inl rfl, hfee⟩

theorem Reported.payLeg (h : Reported T s s') (order : Order D) (t : Terms D) {leg : Leg D}
    (hleg : leg.Within m) (hT : ∀ a, a = m.stock ∨ a = m.money → T order.userId a) :
    Reported T s (payLeg mpd true s' order t leg) := by
  have hgiven : Reported T s ((s'.call mpd (.sub order.userId leg.giveType leg.giveAsset leg.give))
      |>.appendBalanceTradeSub mpd true order leg.giveAsset leg.give t.price t.amount) :=
    (h.call (.sub _ _ _ _) (hT _ hleg.give)).congr rfl rfl
  have hgot : Reported T s (((s'.call mpd (.sub order.userId leg.giveType leg.giveAsset leg.give))
      |>.appendBalanceTradeSub mpd true order leg.giveAsset leg.give t.price t.amount)
      |>.call mpd (.add order.userId .available leg.getAsset leg.get)
      |>.appendBalanceTradeAdd mpd true order leg.getAsset leg.get t.price t.amount) :=
    (hgiven.call (.add _ _ _ _) (hT _ hleg.get)).congr rfl rfl
  unfold ViabtcExchange.payLeg
  dsimp only
  split_ifs
  · exact (hgot.call (.sub _ _ _ _) (hT _ hleg.fee)).congr rfl rfl
  · exact hgot

theorem Reported.orderFinish (h : Reported T s s') (id : ℕ)
    (hT : ∀ a, a = m.stock ∨ a = m.money → T (m.order id).userId a) :
    Reported T s (orderFinish mpd true s' m id).1 := by
  have hunfreeze : Reported T s (s'.call mpd (m.unfreezeCall id)) :=
    h.call _ (hT _ (giveAsset_cases m _))
  unfold ViabtcExchange.orderFinish
  by_cases hstuck : orderStuck mpd s' m id = true
  · rw [if_pos hstuck]
    exact hunfreeze
  · have hfreed : Reported T s (if m.frozen mpd id then s'.call mpd (m.unfreezeCall id) else s') := by
      split_ifs
      · exact hunfreeze
      · exact h
    rw [if_neg hstuck]
    dsimp only
    split_ifs at hfreed ⊢
    all_goals first | exact hfreed.append _ | exact hfreed

theorem orderFinish_messages (s : Statics D) (m : Market D) (id : ℕ) :
    (orderFinish mpd true s m id).1.messages = s.messages := by
  unfold orderFinish
  dsimp only
  split_ifs <;> rfl

theorem conf_unbook (m : Market D) (id : ℕ) : (m.unbook mpd id).conf = m.conf := conf_setBook ..

theorem conf_orderFinish (real : Bool) (s : Statics D) (m : Market D) (id : ℕ) :
    (orderFinish mpd real s m id).2.conf = m.conf := by
  unfold orderFinish
  by_cases hstuck : orderStuck mpd s m id = true
  · rw [if_pos hstuck]
    exact conf_unbook m id
  · rw [if_neg hstuck]
    exact conf_unbook m id

theorem conf_executeTrade (real : Bool) (x : Matching D) (e : Execution D) (id : ℕ) (t : Terms D) :
    (executeTrade mpd real x e id t).market.conf = e.market.conf := by
  unfold executeTrade settleMaker
  dsimp only
  split_ifs
  · exact conf_orderFinish real _ _ id
  · rfl

/-- The fee of a bid is taken in an asset of the market. -/
def Matching.FeeWithin (x : Matching D) : Prop :=
  ∀ m : Market D, x.bidFeeAsset m = m.stock ∨ x.bidFeeAsset m = m.money

/-- A maker is reported at once, and a taker when its request is done. -/
theorem Reported.executeTrade {x : Matching D} (hx : x.FeeWithin) {e : Execution D}
    (h : Reported (AssetsOf e.taker.userId e.market) s e.statics) (id : ℕ) (t : Terms D) :
    Reported (AssetsOf e.taker.userId e.market) s (executeTrade mpd true x e id t).statics := by
  set maker := x.fillMaker mpd e.market (e.market.order id) t
  set T : ℕ → String → Prop := fun u a =>
    AssetsOf e.taker.userId e.market u a ∨ AssetsOf maker.userId e.market u a
  have hdeal : Reported T s (payTrade mpd true x e id t) := by
    have hreport : Reported T s (x.reportDeal true e.market (e.statics.openDeal
        ⟨t, e.market.money, x.bidFeeAsset e.market⟩) e.taker (e.market.order id) t
        (e.statics.dealsIdStart + 1)) := by
      have hopen : Reported T s (e.statics.openDeal ⟨t, e.market.money, x.bidFeeAsset e.market⟩) :=
        ⟨h.grows, (h.weaken fun u a hT => Or.inl (Or.inl hT)).covered⟩
      unfold Matching.reportDeal
      split <;> exact (hopen.append _).push _
    exact (hreport.payLeg e.taker t (within_partyLeg _ t _ _ _ (hx e.market)) fun a ha =>
      Or.inl ⟨rfl, ha⟩).payLeg (e.market.order id) t (within_partyLeg _ t _ _ _ (hx e.market))
        fun a ha => Or.inr ⟨rfl, ha⟩
  change Reported _ s (settleMaker mpd true (payTrade mpd true x e id t) e.market id maker).1
  unfold settleMaker
  dsimp only
  split_ifs with hleft
  · refine ((hdeal.push (.order .finish maker e.market.stock e.market.money)).orderFinish id
      (m := e.market.setOrder id maker) fun a ha => ?_).weaken fun u a hT => hT.imp_right fun hm => ?_
    · rw [Market.setOrder_order, Function.update_self]
      exact Or.inr ⟨rfl, ha⟩
    · refine ⟨.order .finish maker e.market.stock e.market.money, ?_, concerns_order hm⟩
      unfold Statics.since
      rw [orderFinish_messages]
      exact Reported.mem_since_push hdeal.grows _
  · refine (hdeal.push (.order .update maker e.market.stock e.market.money)).weaken fun u a hT =>
      hT.imp_right fun hm => ⟨_, Reported.mem_since_push hdeal.grows _, concerns_order hm⟩

theorem Reported.execute {x : Matching D} (hx : x.FeeWithin) {e e' : Execution D}
    (hrun : x.execute mpd true e = some e') :
    e'.market.conf = e.market.conf ∧ e'.taker.userId = e.taker.userId ∧
      Reported (AssetsOf e.taker.userId e.market) e.statics e'.statics := by
  have hstep : ∀ id (ids : List ℕ) (e₁ : Execution D) t, e₁.market.conf = e.market.conf ∧
      e₁.taker.userId = e.taker.userId ∧
        Reported (AssetsOf e.taker.userId e.market) e.statics e₁.statics →
      (ViabtcExchange.executeTrade mpd true x e₁ id t).market.conf = e.market.conf ∧
        (ViabtcExchange.executeTrade mpd true x e₁ id t).taker.userId = e.taker.userId ∧
        Reported (AssetsOf e.taker.userId e.market) e.statics
          (ViabtcExchange.executeTrade mpd true x e₁ id t).statics := by
    rintro id ids e₁ t ⟨hconf, huser, h⟩
    have hassets : AssetsOf e₁.taker.userId e₁.market = AssetsOf e.taker.userId e.market := by
      unfold AssetsOf
      rw [huser, show e₁.market.stock = e.market.stock from congrArg MarketConf.stock hconf,
        show e₁.market.money = e.market.money from congrArg MarketConf.money hconf]
    rw [← hassets] at h ⊢
    exact ⟨(conf_executeTrade true x e₁ id t).trans hconf, huser, h.executeTrade hx id t⟩
  obtain ⟨-, hend, -⟩ := executeLoop_rule mpd true x
    (P := fun _ e₁ => e₁.market.conf = e.market.conf ∧ e₁.taker.userId = e.taker.userId ∧
      Reported (AssetsOf e.taker.userId e.market) e.statics e₁.statics)
    (fun id ids e₁ t h _ _ => hstep id ids e₁ t h) ⟨rfl, rfl, Reported.refl _ _⟩ hrun
  exact hend

end Trades

/-! ## Requests -/

section Requests

variable {s : Statics D} {m : Market D} {side : OrderSide} {price takerFee makerFee : D}
  {source : String} {o : Outcome D}

/-- No balance has changed without a message. -/
def NothingUnreported : ℕ → String → Prop := fun _ _ => False

theorem feeWithin_money {x : Matching D} (h : ∀ m, x.bidFeeAsset m = m.money) : x.FeeWithin :=
  fun m => Or.inr (h m)

theorem feeWithin_stock {x : Matching D} (h : ∀ m, x.bidFeeAsset m = m.stock) : x.FeeWithin :=
  fun m => Or.inl (h m)

/-- What is left to report at the end is what the message about the taker reports. -/
theorem Reported.done {e e' : Execution D} {s' : Statics D} {event : OrderEvent}
    (hconf : e'.market.conf = e.market.conf) (huser : e'.taker.userId = e.taker.userId)
    (h : Reported (AssetsOf e.taker.userId e.market) s s')
    (hmem : .order event e'.taker e'.market.stock e'.market.money ∈ s.since s') :
    Reported NothingUnreported s s' := by
  refine h.weaken fun u a hT => Or.inr ⟨_, hmem, ?_⟩
  refine concerns_order ⟨hT.1.trans huser.symm, ?_⟩
  rw [show e'.market.stock = e.market.stock from congrArg MarketConf.stock hconf,
    show e'.market.money = e.market.money from congrArg MarketConf.money hconf]
  exact hT.2

theorem Reported.orderPut {T : ℕ → String → Prop} {s' : Statics D} (h : Reported T s s')
    (order : Order D) (hT : ∀ a, a = m.stock ∨ a = m.money → T order.userId a) :
    Reported T s (orderPut mpd s' m order).1 := by
  rcases orderPut_statics mpd s' m order with heq | heq
  · rw [heq]
    exact h
  · rw [heq]
    exact h.call _ (hT _ (giveAsset_cases m _))

theorem orderPut_messages (s : Statics D) (m : Market D) (order : Order D) :
    (orderPut mpd s m order).1.messages = s.messages := by
  rcases orderPut_statics mpd s m order with heq | heq
  · rw [heq]
  · rw [heq]
    rfl

theorem reported_putLimit
    (h : marketPutLimitOrder mpd true s m userId side amount price takerFee makerFee source = some o) :
    Reported NothingUnreported s o.statics := by
  rcases marketPutLimitOrder_cases h with ⟨ret, -, rfl⟩ | ⟨-, -, e, hrun, rfl⟩
  · exact Reported.refl _ _
  · obtain ⟨hconf, huser, hrep⟩ : e.market.conf = m.conf ∧ e.taker.userId = userId ∧
        Reported (AssetsOf userId m) s.openOrder e.statics := by
      unfold executeLimitOrder at hrun
      split at hrun
      · exact Reported.execute (feeWithin_money fun _ => rfl) hrun
      · exact Reported.execute (feeWithin_money fun _ => rfl) hrun
    have hrep : Reported (AssetsOf userId m) s e.statics := ⟨hrep.grows, hrep.covered⟩
    unfold restLimitOrder
    dsimp only
    split_ifs
    · exact ((hrep.append _).push _).done
        (e := startLimit mpd s m userId side amount price takerFee makerFee source) hconf huser
        (Reported.mem_since_push (hrep.append (.order e.taker)).grows _)
    · have hput : Reported (AssetsOf userId m) s (orderPut mpd (e.statics.push true
          (.order .put e.taker e.market.stock e.market.money)) e.market e.taker).1 :=
        (hrep.push _).orderPut e.taker fun a ha => ⟨huser, by
          rwa [← show e.market.stock = m.stock from congrArg MarketConf.stock hconf,
            ← show e.market.money = m.money from congrArg MarketConf.money hconf]⟩
      have hmem : .order .put e.taker e.market.stock e.market.money ∈ s.since (orderPut mpd
          (e.statics.push true (.order .put e.taker e.market.stock e.market.money)) e.market
          e.taker).1 := by
        unfold Statics.since
        rw [orderPut_messages]
        exact Reported.mem_since_push hrep.grows _
      exact Reported.done (e := startLimit mpd s m userId side amount price takerFee makerFee source)
        hconf huser hput hmem

theorem reported_putMarket
    (h : marketPutMarketOrder mpd true s m userId side amount takerFee source = some o) :
    Reported NothingUnreported s o.statics := by
  rcases marketPutMarketOrder_cases h with ⟨ret, -, rfl⟩ | ⟨-, e, hrun, rfl⟩
  · exact Reported.refl _ _
  · obtain ⟨hconf, huser, hrep⟩ : e.market.conf = m.conf ∧ e.taker.userId = userId ∧
        Reported (AssetsOf userId m) s.openOrder e.statics := by
      unfold executeMarketOrder at hrun
      split at hrun
      · exact Reported.execute (feeWithin_stock fun _ => rfl) hrun
      · exact Reported.execute (feeWithin_stock fun _ => rfl) hrun
    have hrep : Reported (AssetsOf userId m) s e.statics := ⟨hrep.grows, hrep.covered⟩
    exact ((hrep.append _).push _).done
      (e := startMarket mpd s m userId side amount takerFee source) hconf huser
      (Reported.mem_since_push (hrep.append (.order e.taker)).grows _)

theorem reported_cancel (s : Statics D) (m : Market D) (id : ℕ) :
    Reported NothingUnreported s (marketCancelOrder mpd true s m id).statics := by
  have hpush := (Reported.refl (AssetsOf (m.order id).userId m) s).push
    (.order .finish (m.order id) m.stock m.money)
  refine (hpush.orderFinish (m := m) id fun a ha => ⟨rfl, ha⟩).weaken fun u a hT =>
    Or.inr ⟨.order .finish (m.order id) m.stock m.money, ?_, concerns_order hT⟩
  unfold Statics.since
  rw [orderFinish_messages]
  exact Reported.mem_since_push (List.prefix_refl _) _

theorem reported_update {s' : Statics D} {d d' : Dict UpdateKey ℚ} {args : UpdateArgs D} {padding : ℕ}
    {now : ℚ} {ret : ℤ} (h : updateUserBalance mpd true s d args padding now = (ret, s', d')) :
    Reported NothingUnreported s s' := by
  unfold updateUserBalance at h
  dsimp only at h
  split at h
  · obtain ⟨-, rfl, -⟩ := Prod.mk.inj h |>.imp_right Prod.mk.inj
    exact Reported.refl _ _
  · split at h
    · obtain ⟨-, rfl, -⟩ := Prod.mk.inj h |>.imp_right Prod.mk.inj
      exact Reported.refl _ _
    · rename_i b hb
      obtain ⟨-, rfl, -⟩ := Prod.mk.inj h |>.imp_right Prod.mk.inj
      refine ⟨List.prefix_append _ _, fun u a hne => Or.inr
        ⟨.balance args.userId args.asset args.business args.change,
          Reported.mem_since_push (List.prefix_refl _) _, ?_⟩⟩
      by_contra hno
      rw [Message.Concerns, not_and_or] at hno
      have helse : Elsewhere u args.userId a args.asset :=
        hno.imp (fun h heq => h heq.symm) fun h heq => h heq.symm
      have hget : ∀ type, balanceGet b u type a = balanceGet s.ledger.dictBalance u type a := by
        intro type
        unfold applyChange at hb
        split_ifs at hb
        · exact balanceGet_balanceAdd helse hb
        · exact balanceGet_balanceSub helse hb
      exact hne (Prod.ext (hget _) (hget _))

end Requests

namespace Engine

variable {e e' : Engine D} {op : Op D}

/-- **No request changes a balance silently**: messages are only added, and among them is one about
the user and the asset. -/
theorem step_reported (h : e.step mpd true op = some e') :
    e.statics.messages <+: e'.statics.messages ∧
      ∀ u a, e'.statics.ledger.balances u a ≠ e.statics.ledger.balances u a →
        ∃ msg ∈ e.statics.since e'.statics, msg.Concerns u a := by
  have hreported : Reported NothingUnreported e.statics e'.statics := by
    have hcases := step_cases h
    cases op with
    | updateBalance args padding now =>
      obtain ⟨s, d, hupd, rfl⟩ := hcases
      exact reported_update hupd
    | limitOrder args =>
      obtain ⟨m, o, -, -, hput, -, rfl⟩ := hcases
      exact reported_putLimit hput
    | marketOrder args =>
      obtain ⟨m, o, -, -, hput, -, rfl⟩ := hcases
      exact reported_putMarket hput
    | cancelOrder args =>
      obtain ⟨m, -, -, -, rfl⟩ := hcases
      exact reported_cancel _ m _
    | expire now =>
      have heq : e' = { e with dictUpdate := expireUpdates e.dictUpdate now } := hcases
      rw [heq]
      exact Reported.refl _ _
  exact ⟨hreported.grows, fun u a hne => (hreported.covered u a hne).resolve_left id⟩

theorem run_messages {ops : List (Op D)} (h : e.run mpd true ops = some e') :
    e.statics.messages <+: e'.statics.messages := by
  induction ops generalizing e with
  | nil =>
    obtain rfl := Option.some.inj h
    exact List.prefix_refl _
  | cons op ops ih =>
    rw [run_cons] at h
    obtain ⟨e₁, hstep, hrun⟩ := Option.bind_eq_some_iff.mp h
    exact (step_reported hstep).1.trans (ih hrun)

end Engine

end Reported

end ViabtcExchange
