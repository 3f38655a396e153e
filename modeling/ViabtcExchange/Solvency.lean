import ViabtcExchange.Indexes
import ViabtcExchange.Postings

/-!
# What a market has frozen

`Solvent` ties a ledger to the book of a market: the FREEZE balance of every user is what his
orders freeze, here and in the other markets (`other`), and every order freezes what it may still
have to give. Under it a maker can always pay; that the AVAILABLE balances can, too, is a
condition on the calls ahead. The condition is what the code takes for granted: it looks at no
result of these calls.

Amounts have to be exact for this. `Roomy` says that the context holds every amount of an asset up
to a few times `S`, the bound of its supply.

**Theorem (`Solvent.trade`).** One trade whose AVAILABLE postings are covered goes through and
keeps the market solvent.
-/

namespace ViabtcExchange

/-- The context holds the amounts of every asset up to four times the bound. -/
def Roomy (round : ℚ → ℚ) (dictAsset : Dict String AssetType) (S : String → ℚ) : Prop :=
  ∀ a ty x, dictAsset.find a = some ty → OnGrid ty.precSave x → |x| ≤ 4 * S a → round x = x

/-- What stays the same during a request on a market. -/
structure Setting (round : ℚ → ℚ) (S : String → ℚ) (other : ℕ → String → ℚ)
    (dictAsset : Dict String AssetType) (m : Market ℚ) (stock money : AssetType) : Prop where
  digits : RoundsDigits round
  room : Roomy round dictAsset S
  conf : Engine.ConfOk dictAsset m.conf stock money
  other : ∀ u a, 0 ≤ other u a

/-- An order at rest: in whole ticks, and freezing what it may still have to give. -/
structure Backed (F : ℚ → Prop) (stockPrec moneyPrec : ℕ) (o : Order ℚ) : Prop where
  left : OnGrid stockPrec o.left
  price : OnGrid moneyPrec o.price
  freeze : o.freeze = restFreeze exactDecimal o
  fee : F o.makerFee

/-- What the orders of a user on a side freeze. -/
def Market.frozenOn (m : Market ℚ) (side : OrderSide) (u : ℕ) : ℚ :=
  ((m.book side).map fun i => if (m.order i).userId = u then (m.order i).freeze else 0).sum

/-- What the open orders of a user freeze in an asset: asks freeze stock, and bids money. -/
def Market.frozenIn (m : Market ℚ) (u : ℕ) (a : String) : ℚ :=
  (if m.stock = a then m.frozenOn .ask u else 0) + if m.money = a then m.frozenOn .bid u else 0

structure Solvent (F : ℚ → Prop) (S : String → ℚ) (other : ℕ → String → ℚ) (n : ℕ) (l : Ledger ℚ)
    (m : Market ℚ) : Prop where
  sound : l.Sound
  ok : l.AllOk
  supply : ∀ a, supply l.dictBalance a ≤ S a
  indexed : Indexed True (Backed F m.stockPrec m.moneyPrec) n m
  frozen : ∀ u a, l.balance ⟨u, .freeze, a⟩ = other u a + m.frozenIn u a

/-! ## The sums of the frozen amounts -/

section Frozen

variable {n : ℕ} {m m' : Market ℚ} {side : OrderSide} {i : ℕ} {u : ℕ} {a : String}

/-- What one order adds to the sum of its user. -/
def Order.frozenFor (o : Order ℚ) (u : ℕ) : ℚ := if o.userId = u then o.freeze else 0

theorem frozenOn_eq :
    m.frozenOn side u = ((m.book side).map fun i => (m.order i).frozenFor u).sum :=
  rfl

/-- A change on one side shows in the asset of that side. -/
theorem frozenIn_change {d : ℚ} (hconf : m'.conf = m.conf)
    (hside : m'.frozenOn side u = m.frozenOn side u + d)
    (hother : ∀ s, s ≠ side → m'.frozenOn s u = m.frozenOn s u) :
    m'.frozenIn u a = m.frozenIn u a + if m.giveAsset side = a then d else 0 := by
  have hstock : m'.stock = m.stock := congrArg MarketConf.stock hconf
  have hmoney : m'.money = m.money := congrArg MarketConf.money hconf
  unfold Market.frozenIn
  rw [hstock, hmoney]
  cases side with
  | ask =>
    rw [hside, hother .bid (by simp), Market.giveAsset]
    split_ifs <;> ring
  | bid =>
    rw [hside, hother .ask (by simp), Market.giveAsset]
    split_ifs <;> ring

/-- A sum over a list that holds `i`, when only what it makes of `i` changes. -/
theorem sum_map_change {f g : ℕ → ℚ} {l : List ℕ} (hl : l.Nodup) (hi : i ∈ l)
    (h : ∀ j, j ≠ i → g j = f j) : (l.map g).sum = (l.map f).sum + (g i - f i) := by
  have hrest : (l.erase i).map g = (l.erase i).map f :=
    List.map_congr_left fun j hj => h j (hl.mem_erase_iff.mp hj).1
  rw [← List.sum_map_erase g hi, ← List.sum_map_erase f hi, hrest]
  ring

theorem frozenOn_traded {maker : Order ℚ} {stuck : Prop} (hwf : m.WF n)
    (ht : Traded n m m' i maker stuck) (hi : i ∈ m.book side)
    (hzero : maker.left = 0 → maker.freeze = 0) :
    m'.frozenOn side u = m.frozenOn side u + (maker.frozenFor u - (m.order i).frozenFor u) := by
  have hupdate : ((m.book side).map fun j => (m'.order j).frozenFor u).sum =
      m.frozenOn side u + (maker.frozenFor u - (m.order i).frozenFor u) := by
    rw [sum_map_change (f := fun j => (m.order j).frozenFor u) (hwf.nodup side) hi fun j hj => by
      rw [ht.order, Function.update_of_ne hj], ht.order, Function.update_self, frozenOn_eq]
  rw [← hupdate, frozenOn_eq, ht.book]
  split_ifs with hleft
  · have hnone : (m'.order i).frozenFor u = 0 := by
      rw [ht.order, Function.update_self, Order.frozenFor, hzero hleft, ite_self]
    rw [← List.sum_map_erase _ hi, hnone, zero_add]
  · rfl

theorem frozenOn_traded_of_ne {maker : Order ℚ} {stuck : Prop} (hwf : m.WF n)
    (ht : Traded n m m' i maker stuck) (hi : i ∈ m.book side) {s : OrderSide} (hs : s ≠ side) :
    m'.frozenOn s u = m.frozenOn s u := by
  have hni : i ∉ m.book s := fun hmem => hs ((hwf.book_eq hmem).trans (hwf.book_eq hi).symm)
  have hbook : m'.book s = m.book s := by
    rw [ht.book, List.erase_of_not_mem hni, ite_self]
  rw [frozenOn_eq, frozenOn_eq, hbook]
  congr 1
  refine List.map_congr_left fun j hj => ?_
  rw [ht.order, Function.update_of_ne fun hji : j = i => hni (hji ▸ hj)]

/-- A trade moves the frozen amount of the maker's user. -/
theorem frozenIn_traded {maker : Order ℚ} {stuck : Prop} (hwf : m.WF n)
    (ht : Traded n m m' i maker stuck) (hi : i ∈ m.book side)
    (hzero : maker.left = 0 → maker.freeze = 0) :
    m'.frozenIn u a = m.frozenIn u a +
      if m.giveAsset side = a then maker.frozenFor u - (m.order i).frozenFor u else 0 :=
  frozenIn_change ht.conf (frozenOn_traded hwf ht hi hzero) fun _ hs =>
    frozenOn_traded_of_ne hwf ht hi hs

/-- An order is a part of what its user has frozen. -/
theorem freeze_le_frozenIn (h : ∀ s, ∀ j ∈ m.book s, 0 ≤ (m.order j).freeze)
    (hi : i ∈ m.book side) :
    (m.order i).freeze ≤ m.frozenIn (m.order i).userId (m.giveAsset side) := by
  have hnonneg : ∀ s u, 0 ≤ m.frozenOn s u := fun s u => List.sum_nonneg fun x hx => by
    obtain ⟨j, hj, rfl⟩ := List.mem_map.mp hx
    split_ifs
    · exact h s j hj
    · exact le_rfl
  have hle : (m.order i).freeze ≤ m.frozenOn side (m.order i).userId := by
    have hmem : (m.order i).freeze ∈ (m.book side).map fun j =>
        (m.order j).frozenFor (m.order i).userId :=
      List.mem_map.mpr ⟨i, hi, if_pos rfl⟩
    refine List.single_le_sum (fun x hx => ?_) _ hmem
    obtain ⟨j, hj, rfl⟩ := List.mem_map.mp hx
    split_ifs
    · exact h side j hj
    · exact le_rfl
  unfold Market.frozenIn
  cases side with
  | ask =>
    rw [Market.giveAsset, if_pos rfl]
    split_ifs <;> linarith [hnonneg .bid (m.order i).userId]
  | bid =>
    rw [Market.giveAsset, if_pos rfl]
    split_ifs <;> linarith [hnonneg .ask (m.order i).userId]

end Frozen

/-! ## What the context holds exactly -/

section Exact

variable {round : ℚ → ℚ} {F : ℚ → Prop} {S : String → ℚ} {other : ℕ → String → ℚ} {n : ℕ}
  {m : Market ℚ} {stock money : AssetType} {dictAsset : Dict String AssetType} {y : ℚ}

namespace Setting

variable (hset : Setting round S other dictAsset m stock money)
include hset

theorem stock_grid (hy : OnGrid m.stockPrec y) : OnGrid stock.precSave y :=
  hy.mono (by exact_mod_cast Nat.le_of_add_right_le hset.conf.stockFee)

theorem money_grid (hy : OnGrid (m.stockPrec + m.moneyPrec) y) : OnGrid money.precSave y :=
  hy.mono (by exact_mod_cast hset.conf.deal)

theorem stock_exact (hy : OnGrid m.stockPrec y) (hle : |y| ≤ 4 * S m.stock) : round y = y :=
  hset.room _ stock y hset.conf.findStock (hset.stock_grid hy) hle

theorem money_exact (hy : OnGrid (m.stockPrec + m.moneyPrec) y) (hle : |y| ≤ 4 * S m.money) :
    round y = y :=
  hset.room _ money y hset.conf.findMoney (hset.money_grid hy) hle

/-- An amount of stock is held exactly when the money it costs is within the bound: a price is at
least one tick, so the amount has no more digits than its cost. -/
theorem left_exact {price : ℚ} (hy : OnGrid m.stockPrec y) (hy0 : 0 ≤ y)
    (hp : OnGrid m.moneyPrec price) (hp0 : 0 < price) (hle : price * y ≤ S m.money) :
    round y = y := by
  obtain ⟨k, hk⟩ := hp
  have htick : (1 : ℚ) ≤ price * 10 ^ (m.moneyPrec : ℤ) := by
    have hpos : (0 : ℚ) < k := hk ▸ mul_pos hp0 (ten_zpow_pos _)
    rw [hk]
    exact_mod_cast Int.cast_pos.mp hpos
  have hscaled : y * 10 ^ (-(m.moneyPrec : ℤ)) ≤ price * y := by
    rw [zpow_neg, ← div_eq_mul_inv, div_le_iff₀ (ten_zpow_pos _)]
    nlinarith
  have hgrid : OnGrid (m.stockPrec + m.moneyPrec) (y * 10 ^ (-(m.moneyPrec : ℤ))) := by
    obtain ⟨j, hj⟩ := hy
    refine ⟨j, ?_⟩
    rw [mul_assoc, ← zpow_add₀ (by norm_num : (10 : ℚ) ≠ 0), ← hj]
    congr 2
    ring
  have hnonneg : 0 ≤ y * 10 ^ (-(m.moneyPrec : ℤ)) := mul_nonneg hy0 (ten_zpow_pos _).le
  have hexact := hset.money_exact hgrid (by rw [abs_of_nonneg hnonneg]; linarith)
  rw [hset.digits.scale] at hexact
  exact mul_right_cancel₀ (ten_zpow_ne _) hexact

theorem known : KnownAssets dictAsset m :=
  ⟨⟨stock, hset.conf.findStock⟩, ⟨money, hset.conf.findMoney⟩⟩

/-- An account stores an amount on its grid as it is, up to the bound. -/
theorem saved_exact {k : BalanceKey} (hk : ∃ ty, dictAsset.find k.asset = some ty)
    (hy : Fits dictAsset k y) (hle : |y| ≤ 4 * S k.asset) : saved round dictAsset k y = y := by
  obtain ⟨ty, hty⟩ := hk
  exact saved_of_fits hy (hset.room _ ty y hty (hy ty hty) hle)

/-- What an order of a side gives or freezes fits the asset it does so in. -/
theorem fits_restFreeze {o : Order ℚ} (hleft : OnGrid m.stockPrec o.left)
    (hprice : OnGrid m.moneyPrec o.price) (u : ℕ) (type : BalanceType) :
    Fits dictAsset ⟨u, type, m.giveAsset o.side⟩ (restFreeze exactDecimal o) := by
  intro ty hty
  unfold restFreeze
  cases hs : o.side with
  | ask =>
    rw [hs] at hty
    obtain rfl := Option.some.inj (hset.conf.findStock.symm.trans hty)
    exact hset.stock_grid hleft
  | bid =>
    rw [hs] at hty
    obtain rfl := Option.some.inj (hset.conf.findMoney.symm.trans hty)
    refine hset.money_grid ?_
    rw [add_comm]
    exact hprice.mul hleft

end Setting

/-- An order at rest freezes something. -/
theorem Backed.freeze_pos {sp mp : ℕ} {o : Order ℚ} (h : Backed F sp mp o) (hleft : 0 < o.left)
    (hprice : 0 < o.price) : 0 < o.freeze := by
  rw [h.freeze]
  unfold restFreeze
  cases o.side with
  | ask => exact hleft
  | bid => exact mul_pos hprice hleft

namespace Solvent

variable {l : Ledger ℚ} {i : ℕ} {side : OrderSide}

theorem maker (h : Solvent F S other n l m) (hi : i ∈ m.book side) :
    Backed F m.stockPrec m.moneyPrec (m.order i) :=
  h.indexed.each i (h.indexed.book.wf.mem side i hi)

theorem freeze_pos (h : Solvent F S other n l m) (hi : i ∈ m.book side) : 0 < (m.order i).freeze :=
  (h.maker hi).freeze_pos (h.indexed.book.left side i hi) (h.indexed.book.price side i hi)

/-- What an order freezes is there. -/
theorem freeze_le (h : Solvent F S other n l m) (hother : ∀ u a, 0 ≤ other u a)
    (hi : i ∈ m.book side) :
    (m.order i).freeze ≤ l.balance ⟨(m.order i).userId, .freeze, m.giveAsset side⟩ := by
  have hle := freeze_le_frozenIn (fun s j hj => (h.freeze_pos hj).le) hi
  rw [h.frozen]
  linarith [hother (m.order i).userId (m.giveAsset side)]

theorem balance_le (h : Solvent F S other n l m) (k : BalanceKey) : l.balance k ≤ S k.asset :=
  (balanceOf_le_supply h.sound k).trans (h.supply _)

theorem freeze_le_bound (h : Solvent F S other n l m) (hother : ∀ u a, 0 ≤ other u a)
    (hi : i ∈ m.book side) : (m.order i).freeze ≤ S (m.giveAsset side) :=
  (h.freeze_le hother hi).trans (h.balance_le _)

end Solvent

end Exact

/-! ## One trade -/

/-- A trade in whole ticks that both assets have room for. -/
structure Sized (S : String → ℚ) (m : Market ℚ) (maker : Order ℚ) (t : Terms ℚ) : Prop where
  grid : OnGrid m.stockPrec t.amount
  amount_le : t.amount ≤ S m.stock
  cost_le : maker.price * t.amount ≤ S m.money

section Trade

variable {round : ℚ → ℚ} {F : ℚ → Prop} {S : String → ℚ} {other : ℕ → String → ℚ} {n : ℕ}
  {m : Market ℚ} {stock money : AssetType} {dictAsset : Dict String AssetType} {x : Matching ℚ}
  {taker maker : Order ℚ} {t : Terms ℚ}

theorem Sized.amount_exact (h : Sized S m maker t)
    (hset : Setting round S other dictAsset m stock money) (hpos : 0 < t.amount) :
    round t.amount = t.amount := by
  have hle := h.amount_le
  exact hset.stock_exact h.grid (by rw [abs_of_pos hpos]; linarith)

theorem Sized.cost_grid (h : Sized S m maker t) (hprice : OnGrid m.moneyPrec maker.price) :
    OnGrid (m.stockPrec + m.moneyPrec) (maker.price * t.amount) := by
  rw [add_comm]
  exact hprice.mul h.grid

/-- The money of a trade is its exact price. -/
theorem Sized.deal (h : Sized S m maker t)
    (hset : Setting round S other dictAsset m stock money) (hq : Quoted round x m taker maker t)
    (hprice : OnGrid m.moneyPrec maker.price) (hpos : 0 < maker.price) :
    t.deal = maker.price * t.amount := by
  have hcost : 0 < maker.price * t.amount := mul_pos hpos hq.amount_pos
  have hle := h.cost_le
  rw [hq.deal]
  exact hset.money_exact (h.cost_grid hprice) (by rw [abs_of_pos hcost]; linarith)

/-- What the maker gives of what it freezes. -/
theorem give_eq (hside : maker.side = x.side.opposite) (hdeal : t.deal = maker.price * t.amount) :
    (x.makerLeg m maker t).give = restFreeze exactDecimal { maker with left := t.amount } := by
  unfold restFreeze
  cases hs : maker.side with
  | ask => exact makerLeg_give_ask (opposite_eq_ask (hs.symm.trans hside))
  | bid =>
    rw [makerLeg_give_bid (opposite_eq_bid (hs.symm.trans hside)), hdeal]
    rfl

/-- A maker is left in whole ticks, freezing what it may still have to give. -/
theorem Backed.fillMaker (h : Backed F m.stockPrec m.moneyPrec maker)
    (hset : Setting round S other dictAsset m stock money) (hq : Quoted round x m taker maker t)
    (hs : Sized S m maker t) (hside : maker.side = x.side.opposite) (hprice : 0 < maker.price)
    (hbound : maker.freeze ≤ S (m.giveAsset maker.side)) :
    Backed F m.stockPrec m.moneyPrec (x.fillMaker (ratMpd round) m maker t) ∧
      (x.fillMaker (ratMpd round) m maker t).left = maker.left - t.amount ∧
      (x.fillMaker (ratMpd round) m maker t).freeze =
        maker.freeze - (x.makerLeg m maker t).give := by
  have hdeal := hs.deal hset hq h.price hprice
  have hgrid : OnGrid m.stockPrec (maker.left - t.amount) := h.left.sub hs.grid
  have hrest : 0 ≤ maker.left - t.amount := sub_nonneg.mpr hq.amount_le
  have hfreeze := h.freeze
  have hgive := give_eq (m := m) hside hdeal
  have hleft : round (maker.left - t.amount) = maker.left - t.amount := by
    unfold restFreeze at hfreeze
    cases hms : maker.side with
    | ask =>
      simp only [hms, Market.giveAsset] at hbound hfreeze
      refine hset.stock_exact hgrid ?_
      rw [abs_of_nonneg hrest]
      linarith [hq.amount_pos]
    | bid =>
      simp only [hms, Market.giveAsset] at hbound hfreeze
      refine hset.left_exact hgrid hrest h.price hprice (le_trans ?_ hbound)
      rw [hfreeze]
      exact mul_le_mul_of_nonneg_left (sub_le_self _ hq.amount_pos.le) hprice.le
  have hdiff : maker.freeze - (x.makerLeg m maker t).give =
      restFreeze exactDecimal { maker with left := maker.left - t.amount } := by
    rw [hgive, hfreeze]
    unfold restFreeze
    cases maker.side with
    | ask => rfl
    | bid => exact (mul_sub _ _ _).symm
  have hkept : round (maker.freeze - (x.makerLeg m maker t).give) =
      maker.freeze - (x.makerLeg m maker t).give := by
    rw [hdiff]
    unfold restFreeze
    cases hms : maker.side with
    | ask => exact hleft
    | bid =>
      simp only [restFreeze, hms, Market.giveAsset] at hbound hfreeze
      have hcost : 0 ≤ maker.price * (maker.left - t.amount) := mul_nonneg hprice.le hrest
      have hcostle : maker.price * (maker.left - t.amount) ≤ maker.price * maker.left :=
        mul_le_mul_of_nonneg_left (sub_le_self _ hq.amount_pos.le) hprice.le
      have hS : maker.price * maker.left ≤ S m.money := by
        rw [hfreeze] at hbound
        exact hbound
      refine hset.money_exact (by rw [add_comm]; exact h.price.mul hgrid) ?_
      change |maker.price * (maker.left - t.amount)| ≤ _
      rw [abs_of_nonneg hcost]
      linarith
  refine ⟨⟨?_, h.price, ?_, h.fee⟩, hleft, hkept⟩
  · change OnGrid m.stockPrec (round (maker.left - t.amount))
    rw [hleft]
    exact hgrid
  · change round (maker.freeze - (x.makerLeg m maker t).give) =
      restFreeze exactDecimal { maker with left := round (maker.left - t.amount) }
    rw [hkept, hleft, hdiff]

variable {e : Execution ℚ} {i : ℕ}

/-- The calls of a list all go through, and leave the balances their postings make. -/
structure Posted (round : ℚ → ℚ) (l l' : Ledger ℚ) (cs : List (BalanceCall ℚ)) : Prop where
  ledger : l' = l.callAll (ratMpd round) cs
  balance : l'.balance = postAll (saved round l.dictAsset) l.balance (postings cs)
  covers : Covers (saved round l.dictAsset) l.balance (postings cs)

/-- An AVAILABLE cover is all a trade needs: the maker has frozen what it gives. -/
theorem Solvent.covers_trade (h : Solvent F S other n e.statics.ledger e.market)
    (hother : ∀ u a, 0 ≤ other u a) (hi : i ∈ e.market.book x.side.opposite)
    (hgive : (x.makerLeg e.market (e.market.order i) t).give ≤ (e.market.order i).freeze)
    (hcov : Covers (saved round e.statics.ledger.dictAsset) e.statics.ledger.balance
      ((postings (tradeCalls (ratMpd round) x e.market e.taker (e.market.order i) t)).filter
        fun p => p.1.isAvailable)) :
    Covers (saved round e.statics.ledger.dictAsset) e.statics.ledger.balance
      (postings (tradeCalls (ratMpd round) x e.market e.taker (e.market.order i) t)) := by
  refine (covers_filter BalanceKey.isAvailable _ _).mpr ⟨hcov, ?_⟩
  rw [filter_freeze]
  refine ⟨?_, trivial⟩
  have hle := h.freeze_le hother hi
  change 0 ≤ e.statics.ledger.balance _ + -_
  linarith

/-- What a trade does to the FREEZE balances: the maker's goes down by what it gives. -/
theorem balance_freeze_trade {b : BalanceKey → ℚ} {r : BalanceKey → ℚ → ℚ} {u : ℕ} {a : String}
    (hkeep : let k : BalanceKey := ⟨maker.userId, .freeze, m.giveAsset x.side.opposite⟩
      r k (b k - (x.makerLeg m maker t).give) = b k - (x.makerLeg m maker t).give) :
    postAll r b (postings (tradeCalls (ratMpd round) x m taker maker t)) ⟨u, .freeze, a⟩ =
      b ⟨u, .freeze, a⟩ - if m.giveAsset x.side.opposite = a then
        (if maker.userId = u then (x.makerLeg m maker t).give else 0) else 0 := by
  rw [postAll_filter (P := fun k => !k.isAvailable) r b rfl, filter_freeze, postAll_cons,
    postAll_nil, post, Function.update_apply]
  by_cases ha : m.giveAsset x.side.opposite = a
  · by_cases hu : maker.userId = u
    · subst ha hu
      simpa [sub_eq_add_neg] using hkeep
    · simp [ha, hu, Ne.symm hu]
  · simp [ha, Ne.symm ha]

theorem Solvent.trade (real : Bool) (h : Solvent F S other n e.statics.ledger e.market)
    (hset : Setting round S other e.statics.ledger.dictAsset e.market stock money)
    (hq : Quoted round x e.market e.taker (e.market.order i) t)
    (hs : Sized S e.market (e.market.order i) t) (hi : i ∈ e.market.book x.side.opposite)
    (hcov : Covers (saved round e.statics.ledger.dictAsset) e.statics.ledger.balance
      ((postings (tradeCalls (ratMpd round) x e.market e.taker (e.market.order i) t)).filter
        fun p => p.1.isAvailable)) :
    let e' := executeTrade (ratMpd round) real x e i t
    Solvent F S other n e'.statics.ledger e'.market ∧
      Posted round e.statics.ledger e'.statics.ledger
        (tradeCalls (ratMpd round) x e.market e.taker (e.market.order i) t) := by
  set maker := e.market.order i with hmaker
  have hio := h.indexed.book.wf.mem _ i hi
  have hside : maker.side = x.side.opposite := h.indexed.book.wf.side _ i hi
  have hprice : 0 < maker.price := h.indexed.book.price _ i hi
  have hbound : maker.freeze ≤ S (e.market.giveAsset maker.side) := by
    rw [hside]
    exact h.freeze_le_bound hset.other hi
  obtain ⟨hbacked, hleft, hfreeze⟩ := (h.maker hi).fillMaker hset hq hs hside hprice hbound
  set maker' := x.fillMaker (ratMpd round) e.market maker t with hmaker'
  have hleft0 : 0 ≤ maker'.left := by
    rw [hleft]
    exact sub_nonneg.mpr hq.amount_le
  have hfreeze0 : 0 ≤ maker'.freeze := by
    rw [hbacked.freeze]
    unfold restFreeze
    cases maker'.side with
    | ask => exact hleft0
    | bid => exact mul_nonneg hprice.le hleft0
  have hzero : maker'.left = 0 → maker'.freeze = 0 := fun h0 => by
    rw [hbacked.freeze]
    unfold restFreeze
    cases maker'.side <;> simp [h0]
  have hdeal := hs.deal hset hq (h.maker hi).price hprice
  have hledger : (executeTrade (ratMpd round) real x e i t).statics.ledger =
      e.statics.ledger.callAll (ratMpd round)
        (tradeCalls (ratMpd round) x e.market e.taker maker t) :=
    executeTrade_ledger _ real x e i t fun h0 => by
      have h0' : maker'.left = 0 := by simpa using h0
      rw [← hmaker, ← hmaker', hzero h0']
      simp
  have hcovers := h.covers_trade hset.other hi (by linarith) hcov
  have hgood := @good_tradeCalls _ _ _ e.taker maker _ _ hset.known
    (hq.bidFee.imp And.left And.left) hq.amount_pos (hdeal ▸ mul_pos hprice hq.amount_pos)
    (hs.amount_exact hset hq.amount_pos) ((congrArg round hdeal).trans hq.deal.symm)
  obtain ⟨hbal, hok, hsound⟩ := Ledger.callAll_spec hset.digits.toRoundsDown hgood hcovers
  have ht := executeTrade_market round real x e t h.indexed.book.wf hio
  have hindexed := h.indexed.traded (h.indexed.book.traded ht (sameFace_fillMaker _ x _ t) hleft0)
    ht (sameFace_fillMaker _ x _ t) (fun h0 => by
      rw [orderStuck_eq_false (hzero h0).le]
      exact Bool.false_ne_true) hleft0 fun _ => hbacked
  have hgive := give_eq (m := e.market) hside hdeal
  have hgive0 : 0 ≤ (x.makerLeg e.market maker t).give := by
    rw [hgive]
    unfold restFreeze
    cases maker.side with
    | ask => exact hq.amount_pos.le
    | bid => exact mul_nonneg hprice.le hq.amount_pos.le
  have hkeep : let k : BalanceKey := ⟨maker.userId, .freeze, e.market.giveAsset x.side.opposite⟩
      saved round e.statics.ledger.dictAsset k
          (e.statics.ledger.balance k - (x.makerLeg e.market maker t).give) =
        e.statics.ledger.balance k - (x.makerLeg e.market maker t).give := by
    intro k
    have hfit : Fits e.statics.ledger.dictAsset k (x.makerLeg e.market maker t).give := by
      have h := hset.fits_restFreeze (o := { maker with left := t.amount }) hs.grid
        (h.maker hi).price maker.userId .freeze
      rw [← hgive, show ({ maker with left := t.amount } : Order ℚ).side =
        x.side.opposite from hside] at h
      exact h
    have hle := h.freeze_le hset.other hi
    have hS := h.balance_le k
    refine hset.saved_exact (hset.known.give _) (fun ty hty => (h.sound.onGrid hty).sub (hfit ty hty))
      ?_
    rw [abs_of_nonneg (by linarith)]
    have hS0 : 0 ≤ S k.asset := (h.sound.nonneg k).trans hS
    linarith
  have hconf : (executeTrade (ratMpd round) real x e i t).market.conf = e.market.conf := ht.conf
  refine ⟨⟨?_, ?_, fun a => ?_, ?_, fun u a => ?_⟩, hledger, ?_, hcovers⟩
  · rw [hledger]
    exact hsound h.sound
  · rw [hledger]
    exact hok h.ok
  · rw [hledger]
    refine (supply_post_le hset.digits.toRoundsDown hbal hcovers a).trans ?_
    rw [issued_tradeCalls]
    have hS := h.supply a
    have hfees : 0 ≤ (if e.market.money = a then max t.askFee 0 else 0) +
        if x.bidFeeAsset e.market = a then max t.bidFee 0 else 0 := by
      split_ifs <;> positivity
    linarith
  · rw [show (executeTrade (ratMpd round) real x e i t).market.stockPrec = e.market.stockPrec from
      congrArg MarketConf.stockPrec hconf, show (executeTrade (ratMpd round) real x e i
      t).market.moneyPrec = e.market.moneyPrec from congrArg MarketConf.moneyPrec hconf]
    exact hindexed.1
  · rw [hledger, hbal, balance_freeze_trade hkeep, h.frozen,
      frozenIn_traded h.indexed.book.wf ht hi hzero]
    have hdiff : maker'.frozenFor u - maker.frozenFor u =
        -if maker.userId = u then (x.makerLeg e.market maker t).give else 0 := by
      have huser : maker'.userId = maker.userId := rfl
      unfold Order.frozenFor
      rw [huser]
      split_ifs <;> linarith
    rw [← hmaker, ← hmaker', hdiff]
    split_ifs <;> ring
  · rw [hledger]
    exact hbal

end Trade

end ViabtcExchange
