import ViabtcExchange.Admission
import ViabtcExchange.Loop

/-!
# The sizes of a market bid (`execute_market_bid_order`)

At every maker a market bid divides its money by the price, cuts the quotient to ticks and then goes
down tick by tick until the money is enough. On finite numbers the quotient has been rounded towards
zero twice, so that the inner loop is left at once, with the largest number of ticks the money pays
for as long as that has no more than 34 digits. A NaN is never enough, and the loop never left.

**Theorem (`bid_sized`).** A market bid that is let in finds the largest sizes, ends, and spends no
more than its amount, exactly when its amount is a finite number and so are the prices of the makers
on its way, none of them has a NaN left, no size on the way has more than 34 digits, and those
behind a maker that is too dear are too dear as well, as they are in the order of prices.
-/

namespace ViabtcExchange

/-! ## What is asked of a bid -/

/-- The inner loop is left with the largest number of ticks the money pays for. -/
def TakesLargest (stockPrec : ℕ) (left price : Special) : Prop :=
  ∃ l p a : ℚ, left = .finite l ∧ price = .finite p ∧
    (∃ rounds, sizeDown special128 stockPrec left price rounds
      (special128.rescale (special128.div left price) (-stockPrec)) = some (.finite a)) ∧
    OnGrid stockPrec a ∧ a * p ≤ l ∧ ∀ b, OnGrid stockPrec b → b * p ≤ l → b ≤ a

/-- The money does not pay for a single tick. -/
def TooDear (stockPrec : ℕ) (left price : Special) : Prop :=
  ∀ l p : ℚ, left = .finite l → price = .finite p → l < 10 ^ (-(stockPrec : ℤ)) * p

def NotNegative (a : Special) : Prop := ∃ x, a = .finite x ∧ 0 ≤ x

/-- One maker after the other. -/
def SizedAlong (real : Bool) : List ℕ → Execution Special → Prop
  | [], _ => True
  | id :: ids, e =>
    special128.cmp e.taker.left special128.zero = 0 ∨
      TakesLargest e.market.stockPrec e.taker.left (e.market.order id).price ∧
        match (marketBid special128).quote e.market e.taker (e.market.order id) with
        | some (.trade t) =>
          NotNegative (executeTrade special128 real (marketBid special128) e id t).taker.left ∧
            SizedAlong real ids (executeTrade special128 real (marketBid special128) e id t)
        | _ => ∀ j ∈ id :: ids, TooDear e.market.stockPrec e.taker.left (e.market.order j).price

/-- The money of the trades so far. -/
def Execution.deals (e : Execution Special) : List Special := e.statics.trades.map (·.terms.deal)

/-- The deals between two states of a bid come to no more than the money there was. -/
def Spends (e e' : Execution Special) : Prop :=
  NotNegative e'.taker.left ∧ ∃ (amount : ℚ) (deals : List ℚ), e.taker.left = .finite amount ∧
    e'.deals = e.deals ++ deals.map .finite ∧ deals.sum ≤ amount

structure BidSized (real : Bool) (e : Execution Special) : Prop where
  visits : SizedAlong real e.market.asks e
  ends : ∃ e', executeMarketOrder special128 real e = some e' ∧ Spends e e'

/-! ## The condition -/

/-- What is bought of a maker, of as many ticks as the money pays for. -/
def bought (ticks : ℚ) : Special → ℚ
  | .finite y => min ticks y
  | _ => ticks

/-- Makers that can be bought from with the money `l`, one after the other. -/
def Buys (m : Market Special) : List ℕ → ℚ → Prop
  | [], _ => True
  | id :: ids, l =>
    l = 0 ∨ ∃ p, (m.order id).price = .finite p ∧ (m.order id).left ≠ .nan ∧
      roundDown 34 (truncTo m.stockPrec (l / p)) = truncTo m.stockPrec (l / p) ∧
      if truncTo m.stockPrec (l / p) = 0 then
        ∀ j ∈ ids, TooDear m.stockPrec (.finite l) (m.order j).price
      else
        Buys m ids (roundDown 34
          (l - roundDown 34 (p * bought (truncTo m.stockPrec (l / p)) (m.order id).left)))

/-- Asks that were let in. -/
structure AskBook (m : Market Special) (ids : List ℕ) : Prop where
  nodup : ids.Nodup
  price : ∀ i ∈ ids, 0 < special128.cmp (m.order i).price special128.zero
  left : ∀ i ∈ ids, 0 < special128.cmp (m.order i).left special128.zero

/-! ## One maker -/

section Quote

variable {m : Market Special} {taker maker : Order Special} {l p : ℚ} {prec rounds : ℕ}

theorem cmp_finite {x y : ℚ} : special128.cmp (.finite x) (.finite y) > 0 ↔ y < x :=
  ratMpd_cmp_pos (roundDown 34) _ _

theorem cmp_pos_finite {x : ℚ} : 0 < special128.cmp (.finite x) special128.zero ↔ 0 < x := by
  rw [specialMpd_zero, specialMpd_cmp, ratMpd_cmp_pos]

theorem cmp_eq_finite {x : ℚ} : special128.cmp (.finite x) special128.zero = 0 ↔ x = 0 := by
  rw [specialMpd_zero, specialMpd_cmp, ratMpd_cmp_eq]

/-- The quotient, cut to ticks. -/
theorem rescale_div (hp : p ≠ 0) :
    special128.rescale (special128.div (.finite l) (.finite p)) (-prec) =
      .finite (truncTo prec (roundDown 34 (l / p))) := by
  rw [specialMpd_div _ _ _ hp, specialMpd_rescale, neg_neg, ratMpd_div]

/-- The inner loop is left at once. -/
theorem sizeDown_finite (hl : 0 ≤ l) (hp : 0 < p) :
    sizeDown special128 prec (.finite l) (.finite p) (rounds + 1)
        (.finite (truncTo prec (roundDown 34 (l / p)))) =
      some (.finite (truncTo prec (roundDown 34 (l / p)))) := by
  have hq : 0 ≤ l / p := div_nonneg hl hp.le
  have hround : roundDown 34 (l / p) ≤ l / p := roundDown_le 34 hq
  have hle : truncTo prec (roundDown 34 (l / p)) * p ≤ l :=
    (le_div_iff₀ hp).mp ((truncTo_le _ (roundDown_nonneg 34 hq)).trans hround)
  have hnonneg : 0 ≤ truncTo prec (roundDown 34 (l / p)) * p :=
    mul_nonneg (truncTo_nonneg _ (roundDown_nonneg 34 hq)) hp.le
  rw [sizeDown, if_neg]
  rw [specialMpd_mul, specialMpd_cmp, gt_iff_lt, ratMpd_cmp_pos, ratMpd_mul, not_lt]
  exact (roundDown_le 34 hnonneg).trans hle

/-- The size is the largest if it has no more digits than the context. -/
theorem takesLargest_iff (hl : 0 ≤ l) (hp : 0 < p) :
    TakesLargest prec (.finite l) (.finite p) ↔
      roundDown 34 (truncTo prec (l / p)) = truncTo prec (l / p) := by
  have hq : 0 ≤ l / p := div_nonneg hl hp.le
  rw [← truncTo_roundDown (by norm_num) prec hq]
  constructor
  · rintro ⟨l', p', a, hl', hp', ⟨rounds, hsize⟩, hgrid, hle, hmax⟩
    obtain rfl := Special.finite.inj hl'
    obtain rfl := Special.finite.inj hp'
    rw [rescale_div hp.ne'] at hsize
    obtain ⟨n, rfl⟩ : ∃ n, rounds = n + 1 := by
      cases rounds with
      | zero => cases hsize
      | succ n => exact ⟨n, rfl⟩
    rw [sizeDown_finite hl hp] at hsize
    obtain rfl := Special.finite.inj (Option.some.inj hsize)
    apply le_antisymm
    · exact truncTo_mono _ (roundDown_nonneg 34 hq) (roundDown_le 34 hq)
    · exact hmax _ (onGrid_truncTo _ _) ((le_div_iff₀ hp).mp (truncTo_le _ hq))
  · intro heq
    refine ⟨l, p, truncTo prec (l / p), rfl, rfl, ⟨1, ?_⟩, onGrid_truncTo _ _,
      (le_div_iff₀ hp).mp (truncTo_le _ hq), fun b hb hle => ?_⟩
    · rw [rescale_div hp.ne', sizeDown_finite hl hp, heq]
    · exact le_truncTo_of_onGrid hb hq ((le_div_iff₀ hp).mpr hle)

/-- The size at a maker: no more than it has left. -/
def capped (ticks : ℚ) : Special → Special
  | .nan => .nan
  | left => .finite (bought ticks left)

theorem capped_eq {ticks : ℚ} {left : Special} (hleft : 0 < special128.cmp left special128.zero) :
    (if special128.cmp (.finite ticks) left > 0 then left else .finite ticks) =
      capped ticks left := by
  cases left with
  | nan => rfl
  | infinity neg =>
    cases neg with
    | false => rfl
    | true => exact absurd hleft (by decide)
  | finite y =>
    by_cases h : y < ticks
    · rw [if_pos (cmp_finite.mpr h)]
      exact congrArg Special.finite (min_eq_right h.le).symm
    · rw [if_neg fun hcmp => h (cmp_finite.mp hcmp)]
      exact congrArg Special.finite (min_eq_left (not_lt.mp h)).symm

/-- What the loop does at a maker. -/
theorem quote_finite (hl : 0 ≤ l) (hp : 0 < p) (htaker : taker.left = .finite l)
    (hprice : maker.price = .finite p) (hleft : 0 < special128.cmp maker.left special128.zero)
    (hdigits : roundDown 34 (truncTo m.stockPrec (l / p)) = truncTo m.stockPrec (l / p)) :
    (marketBid special128).quote m taker maker =
      some (if special128.cmp (capped (truncTo m.stockPrec (l / p)) maker.left) special128.zero = 0
        then .stop
        else .trade (termsOf special128 maker (capped (truncTo m.stockPrec (l / p)) maker.left)
          (fun deal => special128.mul deal maker.makerFee)
          (fun _ => special128.mul (capped (truncTo m.stockPrec (l / p)) maker.left)
            taker.takerFee))) := by
  rw [← truncTo_roundDown (by norm_num) _ (div_nonneg hl hp.le)] at hdigits
  have hsize : sizeDown special128 m.stockPrec taker.left maker.price special128.fuel
      (special128.rescale (special128.div taker.left maker.price) (-m.stockPrec)) =
        some (.finite (truncTo m.stockPrec (l / p))) := by
    rw [htaker, hprice, rescale_div hp.ne', ← hdigits]
    exact sizeDown_finite hl hp
  unfold marketBid
  dsimp only
  rw [hsize, Option.map_some, capped_eq hleft]

section Bought

variable {ticks : ℚ} {left : Special}

theorem capped_of_ne (h : left ≠ .nan) : capped ticks left = .finite (bought ticks left) := by
  cases left with
  | nan => exact absurd rfl h
  | infinity neg => rfl
  | finite y => rfl

theorem bought_le : bought ticks left ≤ ticks := by
  cases left with
  | nan => exact le_rfl
  | infinity neg => exact le_rfl
  | finite y => exact min_le_left _ _

theorem bought_nonneg (hticks : 0 ≤ ticks) (hleft : 0 < special128.cmp left special128.zero) :
    0 ≤ bought ticks left := by
  cases left with
  | nan => exact hticks
  | infinity neg => exact hticks
  | finite y => exact le_min hticks (cmp_pos_finite.mp hleft).le

theorem bought_eq_zero (hticks : 0 ≤ ticks) (hleft : 0 < special128.cmp left special128.zero) :
    bought ticks left = 0 ↔ ticks = 0 := by
  cases left with
  | nan => exact Iff.rfl
  | infinity neg => exact Iff.rfl
  | finite y =>
    have hy : 0 < y := cmp_pos_finite.mp hleft
    unfold bought
    constructor
    · intro h
      rcases min_choice ticks y with hmin | hmin
      · exact hmin.symm.trans h
      · exact absurd (hmin.symm.trans h) hy.ne'
    · rintro rfl
      exact min_eq_left hy.le

end Bought

/-- At a maker with numbers the bid stops if not a single tick can be paid, and trades otherwise. -/
theorem quote_cases (hl : 0 ≤ l) (hp : 0 < p) (htaker : taker.left = .finite l)
    (hprice : maker.price = .finite p) (hleft : 0 < special128.cmp maker.left special128.zero)
    (hnan : maker.left ≠ .nan)
    (hdigits : roundDown 34 (truncTo m.stockPrec (l / p)) = truncTo m.stockPrec (l / p)) :
    truncTo m.stockPrec (l / p) = 0 ∧
        (marketBid special128).quote m taker maker = some .stop ∨
      truncTo m.stockPrec (l / p) ≠ 0 ∧
        ∃ t, (marketBid special128).quote m taker maker = some (.trade t) ∧
          t.deal = .finite
            (roundDown 34 (p * bought (truncTo m.stockPrec (l / p)) maker.left)) := by
  have hticks : 0 ≤ truncTo m.stockPrec (l / p) := truncTo_nonneg _ (div_nonneg hl hp.le)
  rw [quote_finite hl hp htaker hprice hleft hdigits, capped_of_ne hnan]
  by_cases hzero : truncTo m.stockPrec (l / p) = 0
  · rw [if_pos (cmp_eq_finite.mpr ((bought_eq_zero hticks hleft).mpr hzero))]
    exact Or.inl ⟨hzero, rfl⟩
  · rw [if_neg fun h => hzero ((bought_eq_zero hticks hleft).mp (cmp_eq_finite.mp h))]
    refine Or.inr ⟨hzero, _, rfl, ?_⟩
    unfold termsOf
    rw [hprice, specialMpd_mul, ratMpd_mul]

theorem tooDear_of_zero (hl : 0 ≤ l) (hp : 0 < p) (hzero : truncTo prec (l / p) = 0) :
    TooDear prec (.finite l) (.finite p) := by
  intro l' p' hl' hp'
  obtain rfl := Special.finite.inj hl'
  obtain rfl := Special.finite.inj hp'
  have hlt := lt_truncTo_add prec (div_nonneg hl hp.le)
  rw [hzero, zero_add, div_lt_iff₀ hp] at hlt
  rwa [zpow_neg, ← one_div]

/-- In the order of prices nothing behind a maker that is too dear can be had. -/
theorem tooDear_behind {ids : List ℕ}
    (hascending : ∀ j ∈ ids, ∀ q, (m.order j).price = .finite q → p ≤ q)
    (hdear : TooDear prec (.finite l) (.finite p)) :
    ∀ j ∈ ids, TooDear prec (.finite l) (m.order j).price := fun j hj l' q hl' hq => by
  obtain rfl := Special.finite.inj hl'
  refine (hdear l p rfl rfl).trans_le ?_
  exact mul_le_mul_of_nonneg_left (hascending j hj q hq) (zpow_pos (by norm_num) _).le

end Quote

/-! ## The loop -/

section Loop

variable {m : Market Special} {real : Bool} {ids : List ℕ} {e : Execution Special} {l : ℚ}

theorem orderFinish_order {D : Type} (mpd : Mpd D) (real : Bool) (s : Statics D) (m : Market D)
    (id : ℕ) :
    (orderFinish mpd real s m id).2.order = m.order ∧
      (orderFinish mpd real s m id).2.conf = m.conf := by
  unfold orderFinish Market.unbook
  dsimp only
  split_ifs <;> exact ⟨Market.setBook_order .., conf_setBook ..⟩

/-- A trade leaves the orders of the others alone, and the market what it is. -/
theorem executeTrade_order {D : Type} (mpd : Mpd D) (real : Bool) (x : Matching D)
    (e : Execution D) (id : ℕ) (t : Terms D) :
    (∀ j ≠ id, (executeTrade mpd real x e id t).market.order j = e.market.order j) ∧
      (executeTrade mpd real x e id t).market.conf = e.market.conf := by
  have hset : ∀ maker, ∀ j ≠ id, (e.market.setOrder id maker).order j = e.market.order j :=
    fun maker j hj => by rw [Market.setOrder_order, Function.update_of_ne hj]
  unfold executeTrade settleMaker
  dsimp only
  split_ifs
  · obtain ⟨horder, hconf⟩ := orderFinish_order mpd real
      ((payTrade mpd real x e id t).push real (.order .finish _ _ _)) (e.market.setOrder id _) id
    exact ⟨fun j hj => (congrFun horder j).trans (hset _ j hj), hconf⟩
  · exact ⟨fun j hj => hset _ j hj, rfl⟩

/-- The makers that are still to come are those of the book, and there is money. -/
structure Ahead (m : Market Special) (ids : List ℕ) (l : ℚ) (e : Execution Special) : Prop where
  book : AskBook m ids
  order : ∀ j ∈ ids, e.market.order j = m.order j
  stockPrec : e.market.stockPrec = m.stockPrec
  left : e.taker.left = .finite l
  nonneg : 0 ≤ l

theorem AskBook.tail {id : ℕ} (h : AskBook m (id :: ids)) : AskBook m ids :=
  ⟨h.nodup.of_cons, fun i hi => h.price i (List.mem_cons_of_mem _ hi),
    fun i hi => h.left i (List.mem_cons_of_mem _ hi)⟩

/-- A deal costs no more than there is, and what is left is rounded once more. -/
theorem cost_le {prec : ℕ} {p : ℚ} {left : Special} (hl : 0 ≤ l) (hp : 0 < p)
    (hleft : 0 < special128.cmp left special128.zero) :
    0 ≤ l - roundDown 34 (p * bought (truncTo prec (l / p)) left) := by
  have hq : 0 ≤ l / p := div_nonneg hl hp.le
  have hticks : 0 ≤ truncTo prec (l / p) := truncTo_nonneg _ hq
  have hle : bought (truncTo prec (l / p)) left * p ≤ l :=
    (le_div_iff₀ hp).mp (bought_le.trans (truncTo_le _ hq))
  rw [sub_nonneg]
  refine (roundDown_le 34 (mul_nonneg hp.le (bought_nonneg hticks hleft))).trans ?_
  rwa [mul_comm]

variable (real) in
theorem Ahead.trade {id : ℕ} {p : ℚ} {t : Terms Special} (h : Ahead m (id :: ids) l e) (hp : 0 < p)
    (hdeal : t.deal =
      .finite (roundDown 34 (p * bought (truncTo m.stockPrec (l / p)) (m.order id).left))) :
    Ahead m ids
      (roundDown 34 (l - roundDown 34 (p * bought (truncTo m.stockPrec (l / p)) (m.order id).left)))
      (executeTrade special128 real (marketBid special128) e id t) := by
  obtain ⟨horder, hconf⟩ := executeTrade_order special128 real (marketBid special128) e id t
  refine ⟨h.book.tail, fun j hj => ?_, ?_, ?_, ?_⟩
  · have hne : j ≠ id := fun heq => (List.nodup_cons.mp h.book.nodup).1 (heq ▸ hj)
    exact (horder j hne).trans (h.order j (List.mem_cons_of_mem _ hj))
  · exact (congrArg MarketConf.stockPrec hconf).trans h.stockPrec
  · show special128.sub e.taker.left t.deal = _
    rw [h.left, hdeal, specialMpd_sub, ratMpd_sub]
  · exact roundDown_nonneg 34 (cost_le h.nonneg hp (h.book.left id List.mem_cons_self))

/-- A maker with a NaN left takes the money away. -/
theorem Ahead.quote_nan {id : ℕ} {p : ℚ} (h : Ahead m (id :: ids) l e) (hp : 0 < p)
    (hprice : (m.order id).price = .finite p) (hnan : (m.order id).left = .nan)
    (hdigits : roundDown 34 (truncTo m.stockPrec (l / p)) = truncTo m.stockPrec (l / p)) :
    ∃ t, (marketBid special128).quote e.market e.taker (m.order id) = some (.trade t) ∧
      t.deal = .nan := by
  rw [← h.stockPrec] at hdigits
  rw [quote_finite h.nonneg hp h.left hprice (h.book.left id List.mem_cons_self) hdigits, hnan]
  refine ⟨_, rfl, ?_⟩
  show special128.mul (m.order id).price .nan = .nan
  rw [hprice]
  rfl

/-- What is seen at the next maker. -/
theorem Ahead.sizedAlong_cons {id : ℕ} (h : Ahead m (id :: ids) l e)
    (ih : ∀ (l : ℚ) (e : Execution Special), Ahead m ids l e →
      (SizedAlong real ids e ↔ Buys m ids l)) :
    SizedAlong real (id :: ids) e ↔ Buys m (id :: ids) l := by
  have hpos := h.book.price id List.mem_cons_self
  have hleft := h.book.left id List.mem_cons_self
  unfold SizedAlong Buys
  rw [h.left, h.order id List.mem_cons_self, h.stockPrec, cmp_eq_finite]
  refine or_congr_right ?_
  cases hprice : (m.order id).price with
  | nan =>
    constructor
    · rintro ⟨⟨_, _, _, -, hp, -⟩, -⟩
      cases hp
    · rintro ⟨_, hp, -⟩
      cases hp
  | infinity neg =>
    constructor
    · rintro ⟨⟨_, _, _, -, hp, -⟩, -⟩
      cases hp
    · rintro ⟨_, hp, -⟩
      cases hp
  | finite p =>
    have hp : 0 < p := by
      rw [hprice] at hpos
      exact cmp_pos_finite.mp hpos
    rw [takesLargest_iff h.nonneg hp]
    constructor
    · rintro ⟨hdigits, hmaker⟩
      by_cases hnan : (m.order id).left = .nan
      · obtain ⟨t, hquote, hdeal⟩ := h.quote_nan hp hprice hnan hdigits
        rw [hquote] at hmaker
        obtain ⟨⟨x, hx, -⟩, -⟩ := hmaker
        change special128.sub e.taker.left t.deal = _ at hx
        rw [h.left, hdeal] at hx
        cases hx
      · refine ⟨p, rfl, hnan, hdigits, ?_⟩
        rcases quote_cases (m := e.market) h.nonneg hp h.left hprice hleft hnan
          (by rw [h.stockPrec]; exact hdigits) with ⟨hzero, hquote⟩ | ⟨hzero, t, hquote, hdeal⟩
        all_goals rw [h.stockPrec] at hzero
        · rw [if_pos hzero]
          rw [hquote] at hmaker
          intro j hj
          rw [← h.order j (List.mem_cons_of_mem _ hj)]
          exact hmaker j (List.mem_cons_of_mem _ hj)
        · rw [if_neg hzero]
          rw [hquote] at hmaker
          rw [h.stockPrec] at hdeal
          exact (ih _ _ (h.trade real hp hdeal)).mp hmaker.2
    · rintro ⟨p', hp', hnan, hdigits, hmaker⟩
      obtain rfl := Special.finite.inj hp'
      refine ⟨hdigits, ?_⟩
      rcases quote_cases (m := e.market) h.nonneg hp h.left hprice hleft hnan
        (by rw [h.stockPrec]; exact hdigits) with ⟨hzero, hquote⟩ | ⟨hzero, t, hquote, hdeal⟩
      all_goals rw [h.stockPrec] at hzero
      · rw [hquote]
        rw [if_pos hzero] at hmaker
        intro j hj
        rw [h.order j hj]
        rcases List.mem_cons.mp hj with rfl | hj
        · rw [hprice]
          exact tooDear_of_zero h.nonneg hp hzero
        · exact hmaker j hj
      · rw [hquote]
        rw [if_neg hzero] at hmaker
        rw [h.stockPrec] at hdeal
        have hahead := h.trade real hp hdeal
        exact ⟨⟨_, hahead.left, hahead.nonneg⟩, (ih _ _ hahead).mpr hmaker⟩

theorem sizedAlong_iff (h : Ahead m ids l e) : SizedAlong real ids e ↔ Buys m ids l := by
  induction ids generalizing l e with
  | nil => exact Iff.rfl
  | cons id ids ih => exact h.sizedAlong_cons fun l e => ih

theorem Spends.refl (h : Ahead m ids l e) : Spends e e :=
  ⟨⟨l, h.left, h.nonneg⟩, l, [], h.left, by simp, h.nonneg⟩

/-- A deal, and what comes behind it. -/
theorem Spends.cons {e e₁ e' : Execution Special} {deal : ℚ} (hleft : e.taker.left = .finite l)
    (hnonneg : 0 ≤ l - deal) (hleft₁ : e₁.taker.left = .finite (roundDown 34 (l - deal)))
    (hdeals : e₁.deals = e.deals ++ [.finite deal]) (h : Spends e₁ e') : Spends e e' := by
  obtain ⟨hend, amount, deals, hamount, hdeals', hsum⟩ := h
  obtain rfl := Special.finite.inj (hleft₁.symm.trans hamount)
  refine ⟨hend, l, deal :: deals, hleft, ?_, ?_⟩
  · rw [hdeals', hdeals, List.append_assoc]
    rfl
  · rw [List.sum_cons]
    have := hsum.trans (roundDown_le 34 hnonneg)
    linarith

variable (real) in
/-- The loop ends, and the deals are paid out of the money there was. -/
theorem ends_of_buys (h : Ahead m ids l e) (hbuys : Buys m ids l) :
    ∃ e', executeLoop special128 real (marketBid special128) ids e = some e' ∧ Spends e e' := by
  induction ids generalizing l e with
  | nil => exact ⟨e, rfl, Spends.refl h⟩
  | cons id ids ih =>
    have hcmp : special128.cmp e.taker.left special128.zero = 0 ↔ l = 0 := by
      rw [h.left, cmp_eq_finite]
    unfold executeLoop
    by_cases hzero : l = 0
    · rw [if_pos (hcmp.mpr hzero)]
      exact ⟨e, rfl, Spends.refl h⟩
    rw [if_neg fun h0 => hzero (hcmp.mp h0)]
    obtain ⟨p, hprice, hnan, hdigits, hmaker⟩ := hbuys.resolve_left hzero
    have hpos := h.book.price id List.mem_cons_self
    rw [hprice] at hpos
    have hp : 0 < p := cmp_pos_finite.mp hpos
    have hleft := h.book.left id List.mem_cons_self
    rw [← h.stockPrec] at hdigits
    rw [h.order id List.mem_cons_self]
    rcases quote_cases h.nonneg hp h.left hprice hleft hnan hdigits with
      ⟨-, hquote⟩ | ⟨hticks, t, hquote, hdeal⟩
    · rw [hquote]
      exact ⟨e, rfl, Spends.refl h⟩
    · rw [hquote]
      rw [h.stockPrec] at hticks hdeal
      rw [if_neg hticks] at hmaker
      have hnext := h.trade real hp hdeal
      obtain ⟨e', hrun, hspends⟩ := ih hnext hmaker
      refine ⟨e', hrun, hspends.cons h.left (cost_le h.nonneg hp hleft) hnext.left ?_⟩
      unfold Execution.deals
      rw [executeTrade_trades, List.map_append, List.map_singleton, ← hdeal]
      rfl

end Loop

/-! ## The bid -/

/-- **A market bid finds its sizes, ends and stays within its amount exactly where its way along the
book leads past numbers of at most 34 digits.** -/
theorem bid_sized (real : Bool) (s : Statics Special) {params : List Json}
    {dictMarket : Dict String (Market Special)} {m : Market Special} {args : MarketArgs Special}
    (h : readMarketOrder special128 params dictMarket = .ok (m, args)) (hside : args.side = .bid)
    (hbook : AskBook m m.asks) :
    BidSized real
        (startMarket special128 s m args.userId args.side args.amount args.takerFee args.source) ↔
      ∃ a, args.amount = .finite a ∧ Buys m m.asks a := by
  have hpos : 0 < special128.cmp args.amount special128.zero := (readMarketOrder_ok h).2.amount
  have hahead : ∀ a, args.amount = .finite a → Ahead m m.asks a
      (startMarket special128 s m args.userId args.side args.amount args.takerFee args.source) :=
    fun a ha => by
    rw [ha] at hpos
    exact ⟨hbook, fun _ _ => rfl, rfl, ha, (cmp_pos_finite.mp hpos).le⟩
  constructor
  · rintro ⟨hvisits, e', -, -, a, -, ha, -⟩
    exact ⟨a, ha, (sizedAlong_iff (hahead a ha)).mp hvisits⟩
  · rintro ⟨a, ha, hbuys⟩
    refine ⟨(sizedAlong_iff (hahead a ha)).mpr hbuys, ?_⟩
    obtain ⟨e', hrun, hspends⟩ := ends_of_buys real (hahead a ha) hbuys
    refine ⟨e', ?_, hspends⟩
    rw [hside] at hrun ⊢
    exact hrun

section Examples

/-- An ask of two for three each. -/
def restingAsk : Order Special where
  id := 1
  type := .limit
  side := .ask
  userId := 2
  market := "BTCCNY"
  source := some "web"
  price := .finite 3
  amount := .finite 2
  takerFee := .finite 0
  makerFee := .finite 0
  left := .finite 2
  freeze := .finite 2
  dealStock := .finite 0
  dealMoney := .finite 0
  dealFee := .finite 0

def askedMarket : Market Special where
  name := "BTCCNY"
  stock := "BTC"
  money := "CNY"
  stockPrec := 8
  moneyPrec := 8
  feePrec := 4
  minAmount := .finite (1 / 1000)
  order := fun _ => restingAsk
  orders := {1}
  users := (∅ : Dict ℕ (List ℕ)).insert 2 [1]
  asks := [1]
  bids := []

def askedMarkets : Dict String (Market Special) :=
  (∅ : Dict String (Market Special)).insert "BTCCNY" askedMarket

/-- A market bid for an amount of money. -/
def marketBidParams (amount : String) : List Json :=
  [.integer 1, .string "BTCCNY", .integer 2, .string amount, .string "0", .string "web"]

theorem askBook_askedMarket : AskBook askedMarket askedMarket.asks where
  nodup := List.nodup_singleton 1
  price _ _ := cmp_pos_finite.mpr (by norm_num)
  left _ _ := cmp_pos_finite.mpr (by norm_num)

/-- The bid is read, and is one of the market. -/
theorem marketBid_read (amount : String) (a : Special)
    (h : (readMarketOrder special128 (marketBidParams amount) askedMarkets).toOption.map
      (fun r => (r.2.market, r.2.userId, r.2.side, r.2.amount)) = some ("BTCCNY", 1, .bid, a)) :
    ∃ args, readMarketOrder special128 (marketBidParams amount) askedMarkets =
      .ok (askedMarket, args) ∧ args.userId = 1 ∧ args.side = .bid ∧ args.amount = a := by
  cases hread : readMarketOrder special128 (marketBidParams amount) askedMarkets with
  | error r =>
    rw [hread] at h
    cases h
  | ok r =>
    obtain ⟨m, args⟩ := r
    rw [hread] at h
    have h : (args.market, args.userId, args.side, args.amount) = ("BTCCNY", 1, OrderSide.bid, a) :=
      Option.some.inj h
    obtain ⟨hmarket, huser, hside, hamount⟩ := by simpa using h
    have hfind := (readMarketOrder_ok hread).1
    rw [hmarket, askedMarkets, Dict.find_insert, if_pos rfl] at hfind
    obtain rfl := Option.some.inj hfind
    exact ⟨args, rfl, huser, hside, hamount⟩

/-- User 1 has ten of the money. -/
def fundedStatics : Statics Special where
  ledger := ⟨exampleAssets, (∅ : Dict BalanceKey Special).insert ⟨1, .available, "CNY"⟩ (.finite 10), []⟩
  orderIdStart := 1
  dealsIdStart := 0
  trades := []
  history := []
  messages := []

/-- A bid of six buys the two. -/
theorem bid_sized_six : ∃ args : MarketArgs Special,
    readMarketOrder special128 (marketBidParams "6") askedMarkets = .ok (askedMarket, args) ∧
      BidSized true (startMarket special128 fundedStatics askedMarket args.userId args.side args.amount
        args.takerFee args.source) := by
  obtain ⟨args, hread, -, hside, hamount⟩ :=
    marketBid_read "6" (.finite 6) (by decide +kernel)
  refine ⟨args, hread,
    (bid_sized true fundedStatics hread hside askBook_askedMarket).mpr
      ⟨6, hamount, Or.inr ⟨3, rfl, ?_⟩⟩⟩
  have hticks : truncTo (8 : ℕ) ((6 : ℚ) / 3) = 2 := by decide +kernel
  refine ⟨by decide, ?_, ?_⟩
  · show roundDown 34 (truncTo (8 : ℕ) ((6 : ℚ) / 3)) = truncTo (8 : ℕ) ((6 : ℚ) / 3)
    rw [hticks]
    decide +kernel
  · show if truncTo (8 : ℕ) ((6 : ℚ) / 3) = 0 then _ else _
    rw [if_neg (by rw [hticks]; norm_num)]
    trivial

/-- A NaN pays for no number of ticks: the inner loop is never left. -/
theorem sizeDown_nan (prec : ℕ) (price : Special) (rounds : ℕ) (amount : Special) :
    sizeDown special128 prec .nan price rounds amount = none := by
  induction rounds generalizing amount with
  | zero => rfl
  | succ rounds ih =>
    rw [sizeDown, specialMpd_cmp_to_nan, if_pos (by norm_num)]
    exact ih _

/-- A market order that is not refused. -/
def Admitted (real : Bool) (s : Statics Special) (m : Market Special) (args : MarketArgs Special) :
    Prop :=
  ∀ ret, marketPutMarketOrder special128 real s m args.userId args.side args.amount args.takerFee
    args.source ≠ some (refuse ret s m)

/-- The bid for a NaN is let in, and is never done. -/
theorem nan_admitted (takerFee : Special) (source : String) :
    marketPutMarketOrder special128 true fundedStatics askedMarket 1 .bid .nan takerFee source =
      none := by
  have hquote : ∀ taker : Order Special, taker.left = .nan →
      (marketBid special128).quote askedMarket taker (askedMarket.order 1) = none := by
    intro taker hleft
    unfold marketBid
    dsimp only
    rw [hleft, sizeDown_nan, Option.map_none]
  have hloop : ∀ e : Execution Special, e.market = askedMarket → e.taker.left = .nan →
      executeLoop special128 true (marketBid special128) [1] e = none := by
    intro e hm hleft
    unfold executeLoop
    rw [hleft, hm, hquote e.taker hleft, specialMpd_cmp_nan, if_neg (by norm_num)]
  have havailable : hasAvailable special128 fundedStatics 1 "CNY" .nan = true := by decide +kernel
  have hgive : askedMarket.giveAsset .bid = "CNY" := rfl
  have hbook : askedMarket.book OrderSide.bid.opposite = [1] := rfl
  unfold marketPutMarketOrder
  rw [hgive, havailable, hbook]
  have hcmp : ∀ b, ¬special128.cmp .nan b < 0 := fun b => by
    rw [specialMpd_cmp_nan]
    norm_num
  dsimp only
  rw [if_neg (by decide), if_neg (hcmp _)]
  have hrun := hloop ⟨fundedStatics.openOrder, askedMarket, newOrder special128
    fundedStatics.openOrder.orderIdStart .market askedMarket 1 .bid special128.zero .nan takerFee
    special128.zero source⟩ rfl rfl
  exact congrArg (Option.map (closeMarketOrder true)) hrun

/-- **A bid for a NaN is never sized.** -/
theorem nan_never_sized : ¬ ∀ (real : Bool) (s : Statics Special) (params : List Json)
    (dictMarket : Dict String (Market Special)) (m : Market Special) (args : MarketArgs Special),
      readMarketOrder special128 params dictMarket = .ok (m, args) → args.side = .bid →
      Admitted real s m args → AskBook m m.asks → BidSized real
        (startMarket special128 s m args.userId args.side args.amount args.takerFee args.source) :=
  fun hall => by
  obtain ⟨args, hread, huser, hside, hamount⟩ :=
    marketBid_read "NaN" .nan (by decide +kernel)
  have hadmitted : Admitted true fundedStatics askedMarket args := fun ret => by
    rw [huser, hside, hamount, nan_admitted]
    exact nofun
  have hvisits :=
    (hall true fundedStatics _ _ _ args hread hside hadmitted askBook_askedMarket).visits
  rw [hamount] at hvisits
  rcases hvisits with hzero | ⟨⟨l, p, a, -, -, ⟨rounds, hsize⟩, -⟩, -⟩
  · change (2 ^ 31 - 1 : ℤ) = 0 at hzero
    norm_num at hzero
  · change sizeDown special128 _ .nan _ _ _ = _ at hsize
    rw [sizeDown_nan] at hsize
    cases hsize

end Examples

end ViabtcExchange
