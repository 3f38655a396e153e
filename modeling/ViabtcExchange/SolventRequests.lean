import ViabtcExchange.Agreement
import ViabtcExchange.Covered

/-!
# Requests on a solvent market

Resting freezes what the order may still have to give, and cancelling releases it; with the
matching in between, each request takes a solvent market to a solvent one
(`Solvent.putLimit`, `Solvent.putMarket`, `Solvent.cancel`).
-/

namespace ViabtcExchange

section Requests

variable {round : ℚ → ℚ} {F : ℚ → Prop} {S : String → ℚ} {other : ℕ → String → ℚ} {n : ℕ}
  {m m' : Market ℚ} {stock money : AssetType} {dictAsset : Dict String AssetType} {l : Ledger ℚ}
  {o : Order ℚ} {freeze : ℚ} {i : ℕ}

/-- An order that comes to rest adds what it freezes. -/
theorem frozenIn_rested (hwf : m.WF n) (hid : n < o.id) (hput : Rested m m' o freeze) (u : ℕ)
    (a : String) :
    m'.frozenIn u a = m.frozenIn u a +
      if m.giveAsset o.side = a then (if o.userId = u then freeze else 0) else 0 := by
  have hold : ∀ s, ∀ j ∈ m.book s, (m'.order j).frozenFor u = (m.order j).frozenFor u := by
    intro s j hj
    rw [hput.order, Function.update_of_ne]
    rintro rfl
    exact ((hwf.le _ (hwf.mem s _ hj)).trans_lt hid).false
  have hself : (m'.order o.id).frozenFor u = if o.userId = u then freeze else 0 := by
    rw [hput.order, Function.update_self]
    rfl
  refine frozenIn_change hput.conf ?_ fun s hs => ?_
  · rw [frozenOn_eq, (hput.book.map fun j => (m'.order j).frozenFor u).sum_eq, List.map_cons,
      List.sum_cons, hself, List.map_congr_left (hold o.side), add_comm]
    rfl
  · rw [frozenOn_eq, hput.other s hs, List.map_congr_left (hold s)]
    rfl

/-- An order that is finished takes what it froze with it. -/
theorem frozenIn_finished {stuck : Prop} (hwf : m.WF n) (hfin : Finished n m m' i stuck)
    {side : OrderSide} (hi : i ∈ m.book side) (u : ℕ) (a : String) :
    m'.frozenIn u a = m.frozenIn u a +
      if m.giveAsset side = a then -(m.order i).frozenFor u else 0 := by
  refine frozenIn_change hfin.conf ?_ fun s hs => ?_
  · rw [frozenOn_eq, hfin.book, hfin.order, ← sub_eq_add_neg, frozenOn_eq,
      ← List.sum_map_erase (fun j => (m.order j).frozenFor u) hi]
    ring
  · have hni : i ∉ m.book s := fun hmem => hs ((hwf.book_eq hmem).trans (hwf.book_eq hi).symm)
    rw [frozenOn_eq, hfin.book, hfin.order, List.erase_of_not_mem hni]
    rfl

/-- What moving an amount between the two balances of a user does to the FREEZE balances. -/
theorem balance_freeze_move {b : BalanceKey → ℚ} {r : BalanceKey → ℚ → ℚ} {u v : ℕ}
    {a c : String} {x : ℚ} {ps : List (BalanceKey × ℚ)}
    (hps : ps.filter (fun p => !p.1.isAvailable) = [(⟨u, .freeze, a⟩, x)])
    (hkeep : r ⟨u, .freeze, a⟩ (b ⟨u, .freeze, a⟩ + x) = b ⟨u, .freeze, a⟩ + x) :
    postAll r b ps ⟨v, .freeze, c⟩ =
      b ⟨v, .freeze, c⟩ + if a = c then (if u = v then x else 0) else 0 := by
  rw [postAll_filter (P := fun k => !k.isAvailable) r b rfl, hps, postAll_cons, postAll_nil,
    post, Function.update_apply]
  by_cases hac : a = c
  · by_cases huv : u = v
    · subst hac huv
      simpa using hkeep
    · simp [hac, huv, Ne.symm huv]
  · simp [hac, Ne.symm hac]

/-- A move between the balances of a user that goes through. -/
theorem Ledger.move_spec {c : BalanceCall ℚ} (hr : RoundsDown round) (hc : c.Good round l.dictAsset)
    (hcov : Covers (saved round l.dictAsset) l.balance c.postings) :
    Posted round l (l.call (ratMpd round) c) [c] ∧ (l.AllOk → (l.call (ratMpd round) c).AllOk) ∧
      (l.Sound → (l.call (ratMpd round) c).Sound) := by
  obtain ⟨hbal, hok, hsound⟩ := Ledger.call_spec hr hc hcov
  refine ⟨⟨rfl, ?_, ?_⟩, hok, hsound⟩ <;> rw [postings_cons, postings_nil, List.append_nil]
  · exact hbal
  · exact hcov

/-- Covered postings on the grids of their accounts are exact, as long as they do not add more than
three times the bound. -/
theorem Solvent.keeps (h : Solvent F S other n l m)
    (hset : Setting round S other l.dictAsset m stock money) {ps : List (BalanceKey × ℚ)}
    (hps : ∀ p ∈ ps, Fits l.dictAsset p.1 p.2)
    (hknown : ∀ p ∈ ps, ∃ ty, l.dictAsset.find p.1.asset = some ty)
    (hcov : Covers (saved round l.dictAsset) l.balance ps)
    (hgain : ∀ p ∈ ps, gained ps p.1 ≤ 3 * S p.1.asset) :
    Keeps (saved round l.dictAsset) l.balance ps := by
  refine keeps_of_bound (G := fun k x => Fits l.dictAsset k x ∧
    (l.dictAsset.find k.asset = none → x = 0)) (B := fun k => 4 * S k.asset) ?_ ?_ ?_ ?_ hcov ?_
  · rintro k x y ⟨hx, hx0⟩ ⟨hy, hy0⟩
    exact ⟨hx.add hy, fun hnone => by rw [hx0 hnone, hy0 hnone, add_zero]⟩
  · rintro k x ⟨hx, hx0⟩ hnonneg hle
    cases hfind : l.dictAsset.find k.asset with
    | none =>
      rw [hx0 hfind, saved, hfind]
      exact hset.digits.toRoundsDown.zero
    | some ty => exact hset.saved_exact ⟨ty, hfind⟩ hx (by rwa [abs_of_nonneg hnonneg])
  · intro k
    refine ⟨h.sound.fits k, fun hnone => ?_⟩
    cases hfind : l.dictBalance.find k with
    | none => simp [Ledger.balance, balanceOf, hfind]
    | some v =>
      obtain ⟨-, ty, hty, -⟩ := h.sound k v hfind
      rw [hnone] at hty
      cases hty
  · intro p hp
    obtain ⟨ty, hty⟩ := hknown p hp
    exact ⟨hps p hp, fun hnone => by rw [hnone] at hty; cases hty⟩
  · intro p hp
    have hle := h.balance_le p.1
    have hgain := hgain p hp
    linarith

/-- A move between the balances of a user is exact. -/
theorem Solvent.keeps_move (h : Solvent F S other n l m)
    (hset : Setting round S other l.dictAsset m stock money) {u : ℕ} {a : String} {x : ℚ}
    {src dst : BalanceType} (hne : src ≠ dst) (hpos : 0 < x)
    (hfits : ∀ type, Fits l.dictAsset ⟨u, type, a⟩ x)
    (hknown : ∃ ty, l.dictAsset.find a = some ty)
    (hcov : Covers (saved round l.dictAsset) l.balance [(⟨u, src, a⟩, -x), (⟨u, dst, a⟩, x)]) :
    Keeps (saved round l.dictAsset) l.balance [(⟨u, src, a⟩, -x), (⟨u, dst, a⟩, x)] := by
  have hxS : x ≤ S a := by
    have hle := h.balance_le ⟨u, src, a⟩
    have hsrc : 0 ≤ l.balance ⟨u, src, a⟩ + -x := hcov.1
    change l.balance ⟨u, src, a⟩ ≤ S a at hle
    linarith
  refine h.keeps hset ?_ ?_ hcov ?_
  · rintro p hp
    rcases List.mem_pair.mp hp with rfl | rfl
    · exact fun ty hty => (hfits src ty hty).neg
    · exact hfits dst
  · rintro p hp
    rcases List.mem_pair.mp hp with rfl | rfl <;> exact hknown
  · rintro p hp
    have hS : 0 ≤ S a := hpos.le.trans hxS
    rcases List.mem_pair.mp hp with rfl | rfl
    · simp only [gained_cons, gained_nil, if_true, max_eq_right (neg_nonpos.mpr hpos.le)]
      rw [if_neg (by simpa using hne.symm)]
      linarith
    · simp only [gained_cons, gained_nil, if_true, max_eq_left hpos.le]
      rw [if_neg (by simpa using hne)]
      linarith

/-- Calls that go through and post exactly what they are for, with room to spare. -/
structure ExactCalls (round : ℚ → ℚ) (S : String → ℚ) (l : Ledger ℚ) (cs : List (BalanceCall ℚ)) :
    Prop where
  good : ∀ c ∈ cs, c.Good round l.dictAsset
  covers : Covers (saved round l.dictAsset) l.balance (postings cs)
  keeps : Keeps (saved round l.dictAsset) l.balance (postings cs)
  fits : ∀ p ∈ postings cs, Fits l.dictAsset p.1 p.2
  sound : l.Sound
  supply : ∀ a, supply l.dictBalance a ≤ S a
  room : Roomy round l.dictAsset S
  gained : ∀ u a, gained (postings cs) ⟨u, .available, a⟩ + gained (postings cs) ⟨u, .freeze, a⟩ ≤
    2 * S a

/-- Exact calls that have been made. -/
structure PostedExactly (round : ℚ → ℚ) (S : String → ℚ) (l l' : Ledger ℚ)
    (cs : List (BalanceCall ℚ)) : Prop where
  ledger : l' = l.callAll (ratMpd round) cs
  exact : ExactCalls round S l cs

theorem Solvent.exactMove (h : Solvent F S other n l m)
    (hset : Setting round S other l.dictAsset m stock money) {c : BalanceCall ℚ} {u : ℕ}
    {a : String} {x : ℚ} {src dst : BalanceType}
    (hc : c.postings = [(⟨u, src, a⟩, -x), (⟨u, dst, a⟩, x)]) (hgood : c.Good round l.dictAsset)
    (hne : src ≠ dst) (hpos : 0 < x) (hfits : ∀ type, Fits l.dictAsset ⟨u, type, a⟩ x)
    (hknown : ∃ ty, l.dictAsset.find a = some ty)
    (hcov : Covers (saved round l.dictAsset) l.balance c.postings) : ExactCalls round S l [c] := by
  have hps : postings [c] = [(⟨u, src, a⟩, -x), (⟨u, dst, a⟩, x)] := by
    rw [postings_cons, postings_nil, List.append_nil, hc]
  have hxS : x ≤ S a := by
    rw [hc] at hcov
    have hle := h.balance_le ⟨u, src, a⟩
    have hsrc : 0 ≤ l.balance ⟨u, src, a⟩ + -x := hcov.1
    change l.balance ⟨u, src, a⟩ ≤ S a at hle
    linarith
  refine ⟨fun d hd => by rwa [List.mem_singleton.mp hd], ?_, ?_, ?_, h.sound, h.supply, hset.room,
    ?_⟩
  all_goals rw [hps]
  · rwa [hc] at hcov
  · rw [hc] at hcov
    exact h.keeps_move hset hne hpos hfits hknown hcov
  · intro p hp
    rcases List.mem_pair.mp hp with rfl | rfl
    · exact fun ty hty => (hfits src ty hty).neg
    · exact hfits dst
  · intro v b
    simp only [gained_cons, gained_nil, add_zero, max_eq_right (neg_nonpos.mpr hpos.le), ite_self,
      zero_add, max_eq_left hpos.le]
    have hS := (h.sound.nonneg ⟨v, .available, b⟩).trans (h.balance_le _)
    change 0 ≤ S b at hS
    by_cases hub : u = v ∧ a = b
    · obtain ⟨rfl, rfl⟩ := hub
      cases dst <;> simp <;> linarith
    · have hno : ∀ type, (⟨u, dst, a⟩ : BalanceKey) ≠ ⟨v, type, b⟩ := fun type heq =>
        hub ⟨congrArg BalanceKey.userId heq, congrArg BalanceKey.asset heq⟩
      simp only [hno, if_false]
      linarith

/-- No calls at all. -/
theorem Solvent.exactNone (h : Solvent F S other n l m)
    (hset : Setting round S other dictAsset m stock money) (hl : l.dictAsset = dictAsset) :
    ExactCalls round S l [] := by
  subst hl
  refine ⟨by simp, trivial, trivial, by simp, h.sound, h.supply, hset.room, fun u a => ?_⟩
  have hS := (h.sound.nonneg ⟨u, .available, a⟩).trans (h.balance_le _)
  change 0 ≤ S a at hS
  simpa using hS

/-- A solvent market lets an order rest that has what it freezes. -/
theorem Solvent.rest (h : Solvent F S other n l m)
    (hset : Setting round S other l.dictAsset m stock money) (hput : Rested m m' o freeze)
    (hid : n < o.id) (hbook : BookOk o.id m') (hleft : 0 < o.left) (hprice : 0 < o.price)
    (hgrid : OnGrid m.stockPrec o.left) (hpgrid : OnGrid m.moneyPrec o.price) (hF : F o.makerFee)
    (hfreeze : freeze = restFreeze exactDecimal o)
    (hhas : freeze ≤ l.balance ⟨o.userId, .available, m.giveAsset o.side⟩) :
    let c := BalanceCall.freeze o.userId (m.giveAsset o.side) freeze
    Solvent F S other o.id (l.call (ratMpd round) c) m' ∧ ExactCalls round S l [c] := by
  intro c
  have hpos : 0 < freeze := by
    rw [hfreeze]
    unfold restFreeze
    cases o.side with
    | ask => exact hleft
    | bid => exact mul_pos hprice hleft
  have hfits :
      ∀ type, Fits l.dictAsset ⟨o.userId, type, m.giveAsset o.side⟩ freeze := fun type => by
    rw [hfreeze]
    exact hset.fits_restFreeze hgrid hpgrid o.userId type
  set a := m.giveAsset o.side with ha
  have hS : freeze ≤ S a := hhas.trans (h.balance_le _)
  obtain ⟨ty, hty⟩ := hset.known.give o.side
  have hkeep : round freeze = freeze := hset.room a ty freeze hty (hfits .freeze ty hty) (by
    rw [abs_of_pos hpos]
    linarith)
  have hgood : c.Good round l.dictAsset := ⟨hpos, ⟨ty, hty⟩, hkeep⟩
  have hfrozen : 0 ≤ l.balance ⟨o.userId, .freeze, a⟩ := h.sound.nonneg _
  have hfrozenle := h.balance_le ⟨o.userId, .freeze, a⟩
  have hcov : Covers (saved round l.dictAsset) l.balance c.postings := by
    refine ⟨by change 0 ≤ l.balance _ + -freeze; linarith, ?_, trivial⟩
    rw [post_of_ne _ _ (by simp)]
    exact add_nonneg hfrozen hpos.le
  obtain ⟨hposted, hok, hsound⟩ := Ledger.move_spec hset.digits.toRoundsDown hgood hcov
  have hbal := hposted.balance
  refine ⟨⟨hsound h.sound, hok h.ok, fun b => ?_, ?_, fun u b => ?_⟩,
    h.exactMove hset rfl hgood (by decide) hpos hfits ⟨ty, hty⟩ hcov⟩
  · refine (supply_post_le hset.digits.toRoundsDown hbal hposted.covers b).trans ?_
    have hzero : issued (postings [c]) b = 0 := by
      simp only [postings_cons, postings_nil, c, BalanceCall.postings, List.append_nil, issued_cons,
        issued_nil]
      split_ifs <;> ring
    rw [hzero, add_zero]
    exact h.supply b
  · have hsp : m'.stockPrec = m.stockPrec := congrArg MarketConf.stockPrec hput.conf
    have hmp : m'.moneyPrec = m.moneyPrec := congrArg MarketConf.moneyPrec hput.conf
    rw [hsp, hmp]
    exact h.indexed.rested hbook hput hid hleft ⟨hgrid, hpgrid, hfreeze, hF⟩
  · rw [hbal, balance_freeze_move (u := o.userId) (a := a) (x := freeze) rfl, h.frozen,
      frozenIn_rested h.indexed.book.wf hid hput, add_assoc]
    refine hset.saved_exact ⟨ty, hty⟩ ((h.sound.fits _).add (hfits .freeze)) ?_
    rw [abs_of_nonneg (add_nonneg hfrozen hpos.le)]
    change l.balance _ ≤ S a at hfrozenle
    change l.balance _ + freeze ≤ 4 * S a
    linarith

/-- A cancelled order gets back what it froze. -/
theorem Solvent.cancel (real : Bool) {s : Statics ℚ} (h : Solvent F S other n s.ledger m)
    (hset : Setting round S other s.ledger.dictAsset m stock money) (hi : i ∈ m.orders) :
    let o := marketCancelOrder (ratMpd round) real s m i
    Solvent F S other n o.statics.ledger o.market ∧
      PostedExactly round S s.ledger o.statics.ledger [m.unfreezeCall i] ∧
      orderStuck (ratMpd round) s m i = false := by
  have hbooked := h.indexed.booked trivial i hi
  have hpos := h.freeze_pos hbooked
  have hle := h.freeze_le hset.other hbooked
  have hS := h.balance_le ⟨(m.order i).userId, .freeze, m.giveAsset (m.order i).side⟩
  have havail : 0 ≤ s.ledger.balance
      ⟨(m.order i).userId, .available, m.giveAsset (m.order i).side⟩ := h.sound.nonneg _
  obtain ⟨ty, hty⟩ := hset.known.give (m.order i).side
  have hbacked := h.maker hbooked
  set f := (m.order i).freeze with hf
  set u := (m.order i).userId with hu
  set a := m.giveAsset (m.order i).side with ha
  have hfits : ∀ type, Fits s.ledger.dictAsset ⟨u, type, a⟩ f := fun type => by
    rw [hf, hbacked.freeze]
    exact hset.fits_restFreeze hbacked.left hbacked.price u type
  have hfS : f ≤ S a := hle.trans hS
  have hkeep : round f = f := hset.room a ty f hty (hfits .freeze ty hty) (by
    rw [abs_of_pos hpos]
    linarith)
  have hgood : (m.unfreezeCall i).Good round s.ledger.dictAsset := ⟨hpos, ⟨ty, hty⟩, hkeep⟩
  have hcov : Covers (saved round s.ledger.dictAsset) s.ledger.balance
      (m.unfreezeCall i).postings := by
    refine ⟨by change 0 ≤ s.ledger.balance ⟨u, .freeze, a⟩ + -f; linarith, ?_, trivial⟩
    rw [post_of_ne _ _ (by simp)]
    exact add_nonneg havail hpos.le
  obtain ⟨hposted, hok, hsound⟩ := Ledger.move_spec hset.digits.toRoundsDown hgood hcov
  have hfrozen : m.frozen (ratMpd round) i = true := by
    simp only [Market.frozen, gt_iff_lt, ratMpd_zero, ratMpd_cmp_pos, decide_eq_true_eq]
    exact hpos
  have hstuck : orderStuck (ratMpd round) s m i = false := by
    unfold orderStuck
    rw [Market.unfreezeCall, accepts_unfreeze hty hpos hle]
    simp
  have hledger : (marketCancelOrder (ratMpd round) real s m i).statics.ledger =
      s.ledger.call (ratMpd round) (m.unfreezeCall i) := by
    have hsilent := congrArg (fun o : Outcome ℚ => o.statics.ledger)
      (silent_marketCancelOrder (ratMpd round) real s m i)
    refine Eq.trans hsilent.symm ?_
    simp only [marketCancelOrder, Statics.push_false, orderFinish_statics]
    rw [if_pos hfrozen]
    rfl
  have hfin := orderFinish_market round real
    (s.push real (.order .finish (m.order i) m.stock m.money)) h.indexed.book.wf hi
  obtain ⟨hindexed, -, -⟩ := indexed_cancel real h.indexed hi fun _ => hstuck
  have hbal := hposted.balance
  intro o
  have hconf : o.market.conf = m.conf := hfin.conf
  have hsp : o.market.stockPrec = m.stockPrec := congrArg MarketConf.stockPrec hconf
  have hmp : o.market.moneyPrec = m.moneyPrec := congrArg MarketConf.moneyPrec hconf
  change Solvent F S other n (marketCancelOrder (ratMpd round) real s m i).statics.ledger o.market ∧
    PostedExactly round S s.ledger
      (marketCancelOrder (ratMpd round) real s m i).statics.ledger _ ∧ _
  rw [hledger]
  refine ⟨⟨hsound h.sound, hok h.ok, fun b => ?_, ?_, fun v b => ?_⟩,
    ⟨rfl, h.exactMove hset rfl hgood (by decide) hpos hfits ⟨ty, hty⟩ hcov⟩, hstuck⟩
  · refine (supply_post_le hset.digits.toRoundsDown hbal hposted.covers b).trans ?_
    have hzero : issued (postings [m.unfreezeCall i]) b = 0 := by
      simp only [postings_cons, postings_nil, Market.unfreezeCall, BalanceCall.postings,
        List.append_nil, issued_cons, issued_nil]
      split_ifs <;> ring
    rw [hzero, add_zero]
    exact h.supply b
  · rw [hsp, hmp]
    exact hindexed
  · have hmove : o.market.frozenIn v b = m.frozenIn v b + _ :=
      frozenIn_finished h.indexed.book.wf hfin hbooked v b
    rw [hbal, balance_freeze_move (u := u) (a := a) (x := -f) rfl, h.frozen, hmove, add_assoc]
    · unfold Order.frozenFor
      rw [← hu, ← hf, ← ha]
      congr 2
      split_ifs <;> simp
    refine hset.saved_exact ⟨ty, hty⟩ ((h.sound.fits _).add fun ty hty => (hfits .freeze ty hty).neg)
      ?_
    rw [← sub_eq_add_neg, abs_of_nonneg (sub_nonneg.mpr hle)]
    change s.ledger.balance ⟨u, .freeze, a⟩ ≤ S a at hS
    change s.ledger.balance ⟨u, .freeze, a⟩ - f ≤ 4 * S a
    linarith

theorem Solvent.mono {n' : ℕ} (h : Solvent F S other n l m) (hn : n ≤ n') :
    Solvent F S other n' l m := ⟨h.sound, h.ok, h.supply, h.indexed.mono hn, h.frozen⟩

/-! ## Limit orders -/

variable {x : Matching ℚ} {T : Order ℚ → Prop} {Funds : List ℕ → Execution ℚ → Prop}
  {e₀ e' : Execution ℚ} {ids : List ℕ}

/-- Matching leaves the fee rate the taker is going to have as a maker alone. -/
theorem execute_makerFee {mpd : Mpd ℚ} {real : Bool} (hrun : x.execute mpd real e₀ = some e') :
    e'.taker.makerFee = e₀.taker.makerFee := by
  obtain ⟨_, h, -⟩ := executeLoop_rule mpd real x
    (P := fun _ e => e.taker.makerFee = e₀.taker.makerFee) (fun _ _ _ _ h _ _ => h) rfl hrun
  exact h

/-- A limit order that may rest: what its price, and its fee as a maker, have to be. -/
structure LimitTaker (F : ℚ → Prop) (n : ℕ) (e : Execution ℚ) : Prop where
  id : n < e.taker.id
  type : e.taker.type = .limit
  market : e.taker.market = e.market.name
  price : 0 < e.taker.price
  grid : OnGrid e.market.moneyPrec e.taker.price
  fee : F e.taker.makerFee

/-- What the order freezes as it comes to rest is exact when it has it. -/
theorem Setting.restFreeze_exact (hset : Setting round S other dictAsset m stock money)
    (hgrid : OnGrid m.stockPrec o.left) (hpgrid : OnGrid m.moneyPrec o.price) (hleft : 0 ≤ o.left)
    (hprice : 0 < o.price) (hle : restFreeze exactDecimal o ≤ S (m.giveAsset o.side)) :
    restFreeze (ratMpd round) o = restFreeze exactDecimal o := by
  unfold restFreeze at hle ⊢
  cases hs : o.side with
  | ask => rfl
  | bid =>
    simp only [hs] at hle ⊢
    have hcost : 0 ≤ o.price * o.left := mul_nonneg hprice.le hleft
    refine hset.money_exact (by rw [add_comm]; exact hpgrid.mul hgrid) ?_
    have hle' : o.price * o.left ≤ S m.money := hle
    rw [abs_of_nonneg hcost]
    linarith

/-- The end of a limit order: it is filled, or comes to rest. -/
theorem Solvent.limitEnd (real : Bool)
    (hset : Setting round S other dictAsset e₀.market stock money)
    (hw : SolventWalk F S other dictAsset n x T e₀ ids e') (hend : LimitEnd n e₀ e')
    (htaker : LimitTaker F n e₀) (hfee : e'.taker.makerFee = e₀.taker.makerFee)
    (hgrid : OnGrid e₀.market.stockPrec e'.taker.left)
    (hhas : e'.taker.left ≠ 0 → restFreeze exactDecimal e'.taker ≤
      e'.statics.ledger.balance ⟨e'.taker.userId, .available, e'.market.giveAsset e'.taker.side⟩) :
    let o := restLimitOrder (ratMpd round) real e'
    Solvent F S other e₀.taker.id o.statics.ledger o.market ∧
      PostedExactly round S e'.statics.ledger o.statics.ledger
        (restCalls (ratMpd round) e'.market e'.taker) := by
  have hid : e'.taker.id = e₀.taker.id := hend.face.id
  intro o
  unfold restCalls
  by_cases hleft : e'.taker.left = 0
  · obtain ⟨hm, hs⟩ := restLimitOrder_filled (ratMpd round) rfl real hleft
    have hl : o.statics.silent.ledger = e'.statics.silent.ledger := by rw [hs]
    rw [Statics.silent_ledger, Statics.silent_ledger] at hl
    rw [hl, show o.market = e'.market from hm, if_pos (by simpa using hleft)]
    exact ⟨hw.solvent.mono htaker.id.le, rfl, hw.solvent.exactNone (hset.congr hend.conf) hw.assets⟩
  · have hset' := hset.congr hend.conf
    have hassets := hw.assets
    subst hassets
    obtain ⟨hput, hs⟩ := restLimitOrder_rests round real hend.book.wf
      (by rw [hid]; exact htaker.id) (hend.face.type.trans htaker.type)
      (hend.face.market.trans (htaker.market.trans (congrArg MarketConf.name hend.conf).symm)) hleft
    have hpos : 0 < e'.taker.left := lt_of_le_of_ne hend.left (Ne.symm hleft)
    have hprice : 0 < e'.taker.price := hend.face.price ▸ htaker.price
    have hsp : e'.market.stockPrec = e₀.market.stockPrec :=
      congrArg MarketConf.stockPrec hend.conf
    have hmp : e'.market.moneyPrec = e₀.market.moneyPrec :=
      congrArg MarketConf.moneyPrec hend.conf
    have hgrid' : OnGrid e'.market.stockPrec e'.taker.left := hsp ▸ hgrid
    have hpgrid : OnGrid e'.market.moneyPrec e'.taker.price := by
      rw [hmp, hend.face.price]
      exact htaker.grid
    have hfreeze := hset'.restFreeze_exact hgrid' hpgrid hpos.le hprice
      ((hhas hleft).trans (hw.solvent.balance_le _))
    have hbook : BookOk e'.taker.id o.market := hend.book.rested hput (by rw [hid]; exact htaker.id)
      hpos hprice fun j hj => by
        have hout := hend.swept.resolve_left hleft j (by rw [← hend.face.side]; exact hj)
        simpa only [OutOfReach] using hout
    have hl : o.statics.ledger = e'.statics.ledger.call (ratMpd round)
        (e'.market.freezeCall (ratMpd round) e'.taker) :=
      congrArg (fun s : Statics ℚ => s.ledger) hs
    obtain ⟨hsolvent, hexact⟩ := hw.solvent.rest hset' hput (by rw [hid]; exact htaker.id) hbook hpos
      hprice hgrid' hpgrid (hfee ▸ htaker.fee) hfreeze (hfreeze ▸ hhas hleft)
    rw [if_neg (by simpa using hleft), hl, ← hid]
    exact ⟨hsolvent, rfl, hexact⟩

/-! ## Matching to its end -/

/-- What every trade of a matching keeps, when it goes through. -/
def TradeInvariant (round : ℚ → ℚ) (real : Bool) (F : ℚ → Prop) (S : String → ℚ)
    (other : ℕ → String → ℚ) (n : ℕ) (x : Matching ℚ) (e₀ : Execution ℚ)
    (I : List ℕ → Execution ℚ → Prop) : Prop :=
  ∀ {e : Execution ℚ} {i : ℕ} {ids : List ℕ} {t : Terms ℚ}, Walk n x e₀ (i :: ids) e →
    Solvent F S other n e.statics.ledger e.market →
    e.statics.ledger.dictAsset = e₀.statics.ledger.dictAsset →
    TradeOk round S x e (executeTrade (ratMpd round) real x e i t) i t →
    (ratMpd round).cmp e.taker.left (ratMpd round).zero ≠ 0 →
    x.quote e.market e.taker (e.market.order i) = some (.trade t) →
    I (i :: ids) e → I ids (executeTrade (ratMpd round) real x e i t)

variable {I : List ℕ → Execution ℚ → Prop} {real : Bool}

/-- The whole matching of a taker that is financed. -/
theorem Solvent.matching (hx : x.Fair round)
    (hsizes : Sizes round F S other e₀.statics.ledger.dictAsset stock money e₀.market.conf x T)
    (hfunds : Finances round F S other e₀.statics.ledger.dictAsset n x T e₀ Funds)
    (hset : Setting round S other e₀.statics.ledger.dictAsset e₀.market stock money)
    (h : Solvent F S other n e₀.statics.ledger e₀.market) (hT : T e₀.taker)
    (hf : Funds (e₀.market.book x.side.opposite) e₀)
    (hI : TradeInvariant round real F S other n x e₀ I)
    (hstart : I (e₀.market.book x.side.opposite) e₀)
    (hrun : x.execute (ratMpd round) real e₀ = some e') :
    ∃ ids, SolventWalk F S other e₀.statics.ledger.dictAsset n x T e₀ ids e' ∧ Funds ids e' ∧
      I ids e' ∧ Stopped (ratMpd round) x ids e' :=
  solventWalk_end hx hsizes hfunds hset real
    (fun hw hok hleft hq hi => hI hw.walk hw.solvent hw.assets hok hleft hq hi) h hT rfl
      hf hstart hrun

/-- What the balance check says of a taker's funds. -/
theorem le_of_hasAvailable {s : Statics ℚ} {u : ℕ} {a : String} {require : ℚ}
    (h : hasAvailable (ratMpd round) s u a require = true) :
    require ≤ s.ledger.balance ⟨u, .available, a⟩ := by
  unfold hasAvailable balanceGet at h
  unfold Ledger.balance balanceOf
  cases hfind : s.ledger.dictBalance.find ⟨u, .available, a⟩ with
  | none => simp [hfind] at h
  | some v => simpa [hfind] using h

/-- A bid whose rounded price is there can be paid for exactly. -/
theorem Setting.cost_le (hset : Setting round S other l.dictAsset m stock money)
    (h : Solvent F S other n l m) {u : ℕ} {y : ℚ} (hy : OnGrid (m.stockPrec + m.moneyPrec) y)
    (hpos : 0 < y) (hle : round y ≤ l.balance ⟨u, .available, m.money⟩) :
    y ≤ l.balance ⟨u, .available, m.money⟩ := by
  have hS := h.balance_le ⟨u, .available, m.money⟩
  have hgrid : OnGrid money.precSave (l.balance ⟨u, .available, m.money⟩) :=
    h.sound.onGrid hset.conf.findMoney
  set A := l.balance ⟨u, .available, m.money⟩
  have hA : 0 < A := (hset.digits.toRoundsDown.pos y hpos).trans_le hle
  change A ≤ S m.money at hS
  have hexact : ∀ z, OnGrid money.precSave z → 0 ≤ z → z ≤ 4 * S m.money → round z = z :=
    fun z hz hz0 hzS => hset.room _ money z hset.conf.findMoney hz (by rwa [abs_of_nonneg hz0])
  -- Twice what is there is still held exactly, so a cost above it would not round below it.
  have hlt : y < 2 * A := by
    by_contra hno
    have htwo : OnGrid money.precSave (2 * A) := by
      rw [two_mul]
      exact hgrid.add hgrid
    have hmono := hset.digits.mono (2 * A) y (by linarith) (not_lt.mp hno)
    rw [hexact _ htwo (by linarith) (by linarith)] at hmono
    linarith
  rwa [hexact y (hset.money_grid hy) hpos.le (by linarith)] at hle

/-- A limit order that is covered to its end has what its rest freezes. -/
theorem SolventWalk.rest_le (hset : Setting round S other dictAsset e₀.market stock money)
    (hw : SolventWalk F S other dictAsset n x T e₀ ids e') (hx : e₀.taker.side = x.side)
    (hgrid : OnGrid e₀.market.stockPrec e'.taker.left)
    (hpgrid : OnGrid e₀.market.moneyPrec e₀.taker.price) (hprice : 0 < e₀.taker.price)
    (hne : e'.taker.left ≠ 0) (hstop : Stopped (ratMpd round) x ids e')
    (hf : LimitFunds round dictAsset x ids e') :
    restFreeze exactDecimal e'.taker ≤
      e'.statics.ledger.balance
        ⟨e'.taker.userId, .available, e'.market.giveAsset e'.taker.side⟩ := by
  have hleft : 0 < e'.taker.left := lt_of_le_of_ne hw.walk.left (Ne.symm hne)
  have hside : e'.taker.side = x.side := hw.walk.face.side.trans hx
  have hset' := hset.congr hw.walk.conf
  have hassets := hw.assets
  subst hassets
  obtain ⟨hmoney, hstock⟩ := hf
  have hcalls : limitCalls (ratMpd round) x e'.market ids e'.taker =
      [e'.market.freezeCall (ratMpd round) e'.taker] := by
    unfold limitCalls restCalls
    rw [plan_of_stopped hstop, planCalls_nil, if_neg (by simpa using hleft.ne')]
    rfl
  rw [hcalls] at hmoney
  -- The freeze is covered where it is taken out of money.
  have hcovered : e'.market.giveAsset e'.taker.side = e'.market.money →
      restFreeze (ratMpd round) e'.taker ≤ e'.statics.ledger.balance
        ⟨e'.taker.userId, .available, e'.market.money⟩ := fun hgive => by
    unfold Market.freezeCall at hmoney
    rw [hgive] at hmoney
    simp only [postings_cons, postings_nil, BalanceCall.postings, BalanceKey.availableIn,
      BalanceKey.isAvailable, List.append_nil, List.filter_cons, decide_true, Bool.and_self,
      if_true, covers_cons] at hmoney
    linarith [hmoney.1]
  cases hs : e'.taker.side with
  | ask =>
    have hrest : restFreeze exactDecimal e'.taker = e'.taker.left := by simp [restFreeze, hs]
    have hrest' : restFreeze (ratMpd round) e'.taker = e'.taker.left := by simp [restFreeze, hs]
    rw [hs] at hcovered
    change e'.market.stock = _ → _ at hcovered
    rw [hrest]
    by_cases heq : e'.market.stock = e'.market.money
    · change _ ≤ e'.statics.ledger.balance ⟨_, _, e'.market.stock⟩
      rw [heq, ← hrest']
      exact hcovered heq
    · exact hstock (hside.symm.trans hs) heq
  | bid =>
    have hrest : restFreeze exactDecimal e'.taker = e'.taker.price * e'.taker.left := by
      simp [restFreeze, hs]
    have hrest' : restFreeze (ratMpd round) e'.taker = round (e'.taker.price * e'.taker.left) := by
      simp [restFreeze, hs]
    rw [hs] at hcovered
    have hle := hcovered rfl
    rw [hrest'] at hle
    rw [hrest]
    refine hset'.cost_le hw.solvent ?_ (mul_pos (hw.walk.face.price ▸ hprice) hleft) hle
    have hsp : e'.market.stockPrec = e₀.market.stockPrec :=
      congrArg MarketConf.stockPrec hw.walk.conf
    have hmp : e'.market.moneyPrec = e₀.market.moneyPrec :=
      congrArg MarketConf.moneyPrec hw.walk.conf
    rw [hsp, hmp, add_comm, hw.walk.face.price]
    exact hpgrid.mul hgrid

end Requests

/-! ## The requests -/

section Orders

variable {round : ℚ → ℚ} {real : Bool} {F : ℚ → Prop} {S : String → ℚ} {other : ℕ → String → ℚ}
  {s : Statics ℚ} {m : Market ℚ} {stock money : AssetType} {userId : ℕ} {side : OrderSide}
  {amount price takerFee makerFee : ℚ} {source : String} {o : Outcome ℚ}
  {I : List ℕ → Execution ℚ → Prop}

/-- A limit order has what its trades and its rest take, or no fee is paid in the market. -/
def LimitPays (round : ℚ → ℚ) (F : ℚ → Prop) (e : Execution ℚ) : Prop :=
  LimitFunds round e.statics.ledger.dictAsset (limitMatching (ratMpd round) e.taker.side)
      (e.market.book e.taker.side.opposite) e ∨
    e.taker.takerFee = 0 ∧ ∀ y, F y → y = 0

/-- What is asked of a limit order's numbers. -/
structure LimitSound (F : ℚ → Prop) (m : Market ℚ) (amount price makerFee : ℚ) : Prop where
  amount_pos : 0 < amount
  price_pos : 0 < price
  grid : OnGrid m.stockPrec amount
  priceGrid : OnGrid m.moneyPrec price
  fee : F makerFee

/-- A limit order of one kind, from its admission to its rest. -/
theorem Solvent.executeLimit {x : Matching ℚ} {T : Order ℚ → Prop}
    {Funds : List ℕ → Execution ℚ → Prop} {e₀ e' : Execution ℚ} {n : ℕ} (hx : x.Fair round)
    (hexec : executeLimitOrder (ratMpd round) real e₀ = x.execute (ratMpd round) real e₀)
    (hsizes : Sizes round F S other e₀.statics.ledger.dictAsset stock money e₀.market.conf x T)
    (hfunds : Finances round F S other e₀.statics.ledger.dictAsset n x T e₀ Funds)
    (hset : Setting round S other e₀.statics.ledger.dictAsset e₀.market stock money)
    (h : Solvent F S other n e₀.statics.ledger e₀.market) (hT : T e₀.taker)
    (hgrid : ∀ o, T o → OnGrid e₀.market.stockPrec o.left) (htaker : LimitTaker F n e₀)
    (hf : Funds (e₀.market.book x.side.opposite) e₀)
    (hrest : ∀ ids e', SolventWalk F S other e₀.statics.ledger.dictAsset n x T e₀ ids e' →
      e'.taker.left ≠ 0 → Stopped (ratMpd round) x ids e' →
      Funds ids e' → restFreeze exactDecimal e'.taker ≤ e'.statics.ledger.balance
        ⟨e'.taker.userId, .available, e'.market.giveAsset e'.taker.side⟩)
    (hI : TradeInvariant round real F S other n x e₀ I)
    (hstart : I (e₀.market.book x.side.opposite) e₀)
    (hrun : executeLimitOrder (ratMpd round) real e₀ = some e') :
    let o := restLimitOrder (ratMpd round) real e'
    Solvent F S other e₀.taker.id o.statics.ledger o.market ∧ ∃ ids, I ids e' ∧
      PostedExactly round S e'.statics.ledger o.statics.ledger
        (restCalls (ratMpd round) e'.market e'.taker) := by
  have hend := executeLimitOrder_end hset.digits.toRoundsDown real h.indexed.book
    (hsizes.nonneg hT) hrun
  have hrun' := hrun
  rw [hexec] at hrun'
  obtain ⟨ids, hw, hf', hi, hstop⟩ := Solvent.matching hx hsizes hfunds hset h hT hf hI hstart hrun'
  obtain ⟨hsolvent, hposted⟩ := Solvent.limitEnd real hset hw hend htaker
    (execute_makerFee hrun') (hgrid _ hw.taker)
    fun hleft => hrest ids e' hw hleft hstop hf'
  exact ⟨hsolvent, ids, hi, hposted⟩

/-- A limit order that is paid for keeps a solvent market. -/
theorem Solvent.putLimit (h : Solvent F S other s.orderIdStart s.ledger m)
    (hset : Setting round S other s.ledger.dictAsset m stock money)
    (hok : LimitSound F m amount price makerFee)
    (hpays : LimitPays round F
      (startLimit (ratMpd round) s m userId side amount price takerFee makerFee source))
    (hI : TradeInvariant round real F S other s.orderIdStart (limitMatching (ratMpd round) side)
      (startLimit (ratMpd round) s m userId side amount price takerFee makerFee source) I)
    (hstart : I (m.book side.opposite)
      (startLimit (ratMpd round) s m userId side amount price takerFee makerFee source))
    (hput : marketPutLimitOrder (ratMpd round) real s m userId side amount price takerFee makerFee
      source = some o) (hret : o.ret = 0) :
    Solvent F S other o.statics.orderIdStart o.statics.ledger o.market ∧ ∃ ids e', I ids e' ∧
      o = restLimitOrder (ratMpd round) real e' ∧
      PostedExactly round S e'.statics.ledger o.statics.ledger
        (restCalls (ratMpd round) e'.market e'.taker) := by
  rcases marketPutLimitOrder_cases hput with ⟨ret, hneg, rfl⟩ | ⟨havail, -, e', hrun, rfl⟩
  · exact absurd hret hneg.ne
  have hhas := le_of_hasAvailable havail
  have hfixed := congrArg Prod.fst ((restLimitOrder_fixed (ratMpd round) real e').trans
    (executeLimitOrder_fixed hrun))
  have hid : (restLimitOrder (ratMpd round) real e').statics.orderIdStart =
      s.orderIdStart + 1 := hfixed
  set e₀ := startLimit (ratMpd round) s m userId side amount price takerFee makerFee source with he₀
  have htaker : LimitTaker F s.orderIdStart e₀ :=
    ⟨Nat.lt_succ_self _, rfl, rfl, hok.price_pos, hok.priceGrid, hok.fee⟩
  have hr := hset.digits.toRoundsDown
  have hexec := executeLimitOrder_eq (ratMpd round) real e₀
  suffices hall : Solvent F S other e₀.taker.id
        (restLimitOrder (ratMpd round) real e').statics.ledger
        (restLimitOrder (ratMpd round) real e').market ∧ ∃ ids, I ids e' ∧
      PostedExactly round S e'.statics.ledger
        (restLimitOrder (ratMpd round) real e').statics.ledger
        (restCalls (ratMpd round) e'.market e'.taker) by
    obtain ⟨hsolvent, ids, hi, hposted⟩ := hall
    rw [hid]
    exact ⟨hsolvent, ids, e', hi, rfl, hposted⟩
  cases side with
  | ask =>
    have hle : amount ≤ s.ledger.balance ⟨userId, .available, m.stock⟩ := hhas
    have hT : AskTaker S m.conf e₀.taker :=
      ⟨rfl, hok.grid, hok.amount_pos.le, hle.trans (h.balance_le ⟨userId, .available, m.stock⟩)⟩
    have hx := (greedy_limitAsk round).toFair
    have hsizes : Sizes round F S other s.ledger.dictAsset stock money m.conf
        (limitAsk (ratMpd round)) (AskTaker S m.conf) := sizes_ask (greedy_limitAsk round) rfl
    rcases hpays with hfunds | ⟨hzero, hF⟩
    · exact Solvent.executeLimit hx hexec hsizes (finances_limit hx (local_limitAsk _)
        (fun _ => rfl) (fun _ => rfl) hset) hset h hT (fun _ h => h.grid) htaker hfunds
        (fun ids e' hw hleft hstop hf => hw.rest_le hset rfl hw.taker.grid hok.priceGrid
          hok.price_pos hleft hstop hf) hI hstart hrun
    · have hsizes' := hsizes.withFee (· = 0)
      refine Solvent.executeLimit hx hexec hsizes' (finances_thrifty hx hsizes' hset
        (thrifty_limitAsk hr hF)) hset h ⟨hT, hzero⟩ (fun _ h => h.1.grid) htaker hle
        (fun ids e' hw hleft hstop hf => ?_) hI hstart hrun
      have hrest : restFreeze exactDecimal e'.taker = e'.taker.left := by
        simp [restFreeze, hw.taker.1.side]
      exact hrest.trans_le hf
  | bid =>
    have hcost : price * amount ≤ s.ledger.balance ⟨userId, .available, m.money⟩ := by
      rw [mul_comm]
      exact hset.cost_le h (hok.grid.mul hok.priceGrid) (mul_pos hok.amount_pos hok.price_pos) hhas
    have hT : LimitBidTaker S m.conf e₀.taker :=
      ⟨rfl, hok.grid, hok.amount_pos.le, hok.priceGrid, hok.price_pos,
        hcost.trans (h.balance_le ⟨userId, .available, m.money⟩)⟩
    have hx := (greedy_limitBid round).toFair
    have hsizes : Sizes round F S other s.ledger.dictAsset stock money m.conf
        (limitBid (ratMpd round)) (LimitBidTaker S m.conf) := sizes_limitBid
    rcases hpays with hfunds | ⟨hzero, hF⟩
    · exact Solvent.executeLimit hx hexec hsizes (finances_limit hx (local_limitBid _)
        (fun _ => rfl) (fun _ => rfl) hset) hset h hT (fun _ h => h.grid) htaker hfunds
        (fun ids e' hw hleft hstop hf => hw.rest_le hset rfl hw.taker.grid hok.priceGrid
          hok.price_pos hleft hstop hf) hI hstart hrun
    · have hsizes' := hsizes.withFee (· = 0)
      refine Solvent.executeLimit hx hexec hsizes' (finances_thrifty hx hsizes' hset
        (thrifty_limitBid hr hF)) hset h ⟨hT, hzero⟩ (fun _ h => h.1.grid) htaker hcost
        (fun ids e' hw hleft hstop hf => ?_) hI hstart hrun
      have hrest : restFreeze exactDecimal e'.taker = e'.taker.price * e'.taker.left := by
        simp [restFreeze, hw.taker.1.side]
      exact hrest.trans_le hf

/-- The digits a market order's amount may have: those of an ask are the market's, those of a bid
the ones money is kept with. -/
def MarketGrid (dictAsset : Dict String AssetType) (m : Market ℚ) (side : OrderSide)
    (amount : ℚ) : Prop :=
  match side with
  | .ask => OnGrid m.stockPrec amount
  | .bid => ∀ ty, dictAsset.find m.money = some ty → OnGrid ty.precSave amount

/-- What is asked of a market order's numbers. -/
structure MarketSound (dictAsset : Dict String AssetType) (m : Market ℚ) (side : OrderSide)
    (amount takerFee : ℚ) : Prop where
  amount_pos : 0 < amount
  grid : MarketGrid dictAsset m side amount
  fee : takerFee ≤ 1

/-- A market order keeps a solvent market, as long as no fee rate is above one. -/
theorem Solvent.putMarket (h : Solvent F S other s.orderIdStart s.ledger m)
    (hset : Setting round S other s.ledger.dictAsset m stock money) (hF : ∀ y, F y → y ≤ 1)
    (hok : MarketSound s.ledger.dictAsset m side amount takerFee)
    (hI : TradeInvariant round real F S other s.orderIdStart (marketMatching (ratMpd round) side)
      (startMarket (ratMpd round) s m userId side amount takerFee source) I)
    (hstart : I (m.book side.opposite)
      (startMarket (ratMpd round) s m userId side amount takerFee source))
    (hput : marketPutMarketOrder (ratMpd round) real s m userId side amount takerFee source =
      some o) (hret : o.ret = 0) :
    Solvent F S other o.statics.orderIdStart o.statics.ledger o.market ∧ ∃ ids e', I ids e' ∧
      o = closeMarketOrder real e' := by
  rcases marketPutMarketOrder_cases hput with ⟨ret, hneg, rfl⟩ | ⟨havail, e', hrun, rfl⟩
  · exact absurd hret hneg.ne
  have hhas := le_of_hasAvailable havail
  have hle : s.orderIdStart ≤ (closeMarketOrder real e').statics.orderIdStart := by
    have hfixed := congrArg Prod.fst ((closeMarketOrder_fixed real e').trans
      (executeMarketOrder_fixed hrun))
    exact (Nat.le_succ _).trans hfixed.ge
  set e₀ := startMarket (ratMpd round) s m userId side amount takerFee source with he₀
  have hr := hset.digits.toRoundsDown
  rw [executeMarketOrder_eq] at hrun
  have hclosed : (closeMarketOrder real e').statics.ledger = e'.statics.ledger := by
    cases real <;> rfl
  suffices hall : ∃ ids, Solvent F S other s.orderIdStart e'.statics.ledger e'.market ∧ I ids e' by
    obtain ⟨ids, hsolvent, hi⟩ := hall
    rw [hclosed]
    exact ⟨hsolvent.mono hle, ids, e', hi, rfl⟩
  cases side with
  | ask =>
    have hbal : amount ≤ s.ledger.balance ⟨userId, .available, m.stock⟩ := hhas
    have hT : AskTaker S m.conf e₀.taker :=
      ⟨rfl, hok.grid, hok.amount_pos.le, hbal.trans (h.balance_le ⟨userId, .available, m.stock⟩)⟩
    have hx := (greedy_marketAsk round).toFair
    have hsizes := Sizes.withFee (@sizes_ask round F S other s.ledger.dictAsset stock money
      m.conf _ _ (greedy_marketAsk round) rfl) (· ≤ 1)
    obtain ⟨ids, hw, -, hi, -⟩ := Solvent.matching hx hsizes (finances_thrifty hx hsizes hset
      (thrifty_marketAsk hr hF)) hset h ⟨hT, hok.fee⟩ hbal hI hstart hrun
    exact ⟨ids, hw.solvent, hi⟩
  | bid =>
    have hbal : amount ≤ s.ledger.balance ⟨userId, .available, m.money⟩ := hhas
    have hT : MarketBidTaker S m.conf money e₀.taker :=
      ⟨rfl, hok.grid money hset.conf.findMoney, hok.amount_pos.le,
        hbal.trans (h.balance_le ⟨userId, .available, m.money⟩)⟩
    have hx := fair_marketBid hr
    have hsizes := Sizes.withFee (@sizes_marketBid round F S other s.ledger.dictAsset stock
      money m.conf hset.digits) (· ≤ 1)
    obtain ⟨ids, hw, -, hi, -⟩ := Solvent.matching hx hsizes (finances_thrifty hx hsizes hset
      (thrifty_marketBid hr hF)) hset h ⟨hT, hok.fee⟩ hbal hI hstart hrun
    exact ⟨ids, hw.solvent, hi⟩

end Orders

end ViabtcExchange
