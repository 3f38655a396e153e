import ViabtcExchange.HistorySql
import ViabtcExchange.Replies
import ViabtcExchange.Specials

/-!
# What the handlers let in (`me_server.c`)

The handlers of orders and of balance updates read their numbers with `decimal` and hold them to
signs and bounds. A NaN compares as a large number: it passes for a positive amount, and only as a
fee rate is it too large. Where the precision is zero nothing is cut, and user ids and sides are
read modulo 2^32.

**Theorem (`numbers_meant`).** What is let in is meaningful where the amounts, prices and changes
are written as finite numbers, in whole units where the precision is zero, and the user and the side
are written as what they are.
-/

namespace ViabtcExchange

/-! ## Meaningful numbers -/

namespace Special

/-- A positive number of ticks. -/
def IsAmount (prec : ℕ) (a : Special) : Prop := ∃ x, a = .finite x ∧ 0 < x ∧ OnGrid prec x

/-- A rate in [0, 1), in whole ticks. -/
def IsRate (prec : ℕ) (a : Special) : Prop := ∃ x, a = .finite x ∧ 0 ≤ x ∧ x < 1 ∧ OnGrid prec x

/-- A number of ticks, of either sign. -/
def IsChange (prec : ℕ) (a : Special) : Prop := ∃ x, a = .finite x ∧ OnGrid prec x

end Special

/-- The integer at a place of the parameters. -/
def Names (params : List Json) (i n : ℕ) : Prop := params[i]? = some (.integer n)

structure LimitMeant (params : List Json) (m : Market Special) (args : LimitArgs Special) : Prop where
  userId : Names params 0 args.userId
  side : Names params 2 args.side.code
  amount : args.amount.IsAmount m.stockPrec
  price : args.price.IsAmount m.moneyPrec
  takerFee : args.takerFee.IsRate m.feePrec
  makerFee : args.makerFee.IsRate m.feePrec

structure MarketMeant (params : List Json) (m : Market Special) (args : MarketArgs Special) :
    Prop where
  userId : Names params 0 args.userId
  side : Names params 2 args.side.code
  amount : args.amount.IsAmount m.stockPrec
  takerFee : args.takerFee.IsRate m.feePrec

structure UpdateMeant (params : List Json) (prec : ℕ) (args : UpdateArgs Special) : Prop where
  userId : Names params 0 args.userId
  change : args.change.IsChange prec

/-! ## Plain parameters -/

section Plain

variable (round : ℚ → ℚ) (params : List Json)

/-- A number is written, in whole units if nothing is going to be cut. -/
def PlainNumber (prec i : ℕ) : Prop :=
  ∃ str x, params[i]? = some (.string str) ∧ readDecimal str = some x ∧ (prec = 0 → OnGrid 0 (round x))

/-- A number of 32 bits is written. -/
def PlainId (i : ℕ) : Prop := ∃ n : ℕ, Names params i n ∧ n < 2 ^ 32

def PlainSide (i : ℕ) : Prop := Names params i 1 ∨ Names params i 2

structure PlainLimit (m : Market Special) : Prop where
  userId : PlainId params 0
  side : PlainSide params 2
  amount : PlainNumber round params m.stockPrec 3
  price : PlainNumber round params m.moneyPrec 4
  takerFee : PlainNumber round params m.feePrec 5
  makerFee : PlainNumber round params m.feePrec 6

structure PlainMarket (m : Market Special) : Prop where
  userId : PlainId params 0
  side : PlainSide params 2
  amount : PlainNumber round params m.stockPrec 3
  takerFee : PlainNumber round params m.feePrec 4

structure PlainUpdate (prec : ℕ) : Prop where
  userId : PlainId params 0
  change : PlainNumber round params prec 4

end Plain

/-! ## One parameter at a time -/

section Read

variable {round : ℚ → ℚ} {params : List Json} {prec i : ℕ} {a : Special}

theorem readSpecial_ne_finite {neg : Bool} {cs : List Char} {x : ℚ} :
    readSpecial neg cs ≠ some (.finite x) := by
  unfold readSpecial
  dsimp only
  split_ifs <;> simp

/-- What `decimal` makes of a text: a cut number, or what is no number. -/
theorem decimal_special {str : String} (h : (specialMpd round).decimal str prec = some a) :
    (∃ x, readDecimal str = some x ∧
        a = .finite (if prec = 0 then round x else truncTo prec (round x))) ∨
      readDecimal str = none ∧ ∀ x, a ≠ .finite x := by
  unfold Mpd.decimal at h
  obtain ⟨r, hr, hcut⟩ := Option.map_eq_some_iff.mp h
  simp only [specialMpd] at hr
  cases hread : readDecimal str with
  | some x =>
    simp only [hread, Option.some.injEq] at hr
    subst hr hcut
    refine Or.inl ⟨x, rfl, ?_⟩
    unfold Mpd.cut
    split_ifs
    · rfl
    · rw [specialMpd_rescale, neg_neg]
  | none =>
    simp only [hread] at hr
    refine Or.inr ⟨rfl, fun x hx => ?_⟩
    cases r with
    | finite y => exact readSpecial_ne_finite hr
    | infinity neg =>
      unfold Mpd.cut at hcut
      split_ifs at hcut <;> exact absurd (hcut.trans hx) (by simp [specialMpd])
    | nan =>
      unfold Mpd.cut at hcut
      split_ifs at hcut <;> exact absurd (hcut.trans hx) (by simp [specialMpd])

/-- A number that was read is in whole ticks where it was written plainly. -/
theorem decimalAt_plain (h : decimalAt (specialMpd round) params prec i = .ok a) :
    a.IsChange prec ↔ PlainNumber round params prec i := by
  obtain ⟨str, hstr, hdecimal⟩ := decimalAt_ok.mp h
  constructor
  · rintro ⟨y, rfl, hgrid⟩
    rcases decimal_special hdecimal with ⟨x, hx, hy⟩ | ⟨-, hno⟩
    · refine ⟨str, x, hstr, hx, fun hprec => ?_⟩
      rw [if_pos hprec] at hy
      rw [← Special.finite.inj hy]
      simpa [hprec] using hgrid
    · exact absurd rfl (hno y)
  · rintro ⟨str', x, hstr', hx, hgrid⟩
    obtain rfl : str = str' := by simpa [hstr] using hstr'
    rcases decimal_special hdecimal with ⟨x', hx', rfl⟩ | ⟨hnone, -⟩
    · obtain rfl : x = x' := Option.some.inj (hx.symm.trans hx')
      refine ⟨_, rfl, ?_⟩
      split_ifs with hprec
      · simpa [hprec] using hgrid hprec
      · exact onGrid_truncTo _ _
    · rw [hnone] at hx
      cases hx

theorem positiveAt_plain (h : positiveAt (specialMpd round) params prec i = .ok a) :
    a.IsAmount prec ↔ PlainNumber round params prec i := by
  have hpos := positiveAt_ok h
  unfold positiveAt at h
  simp only [read_bind, check_ok] at h
  obtain ⟨a', hread, -, -, haa⟩ := h
  cases haa
  rw [← decimalAt_plain hread]
  refine exists_congr fun x => and_congr_right fun hx => ?_
  have hx0 : 0 < x := by
    subst hx
    simpa using hpos
  simp [hx0]

theorem feeAt_plain (h : feeAt (specialMpd round) params prec i = .ok a) :
    a.IsRate prec ↔ PlainNumber round params prec i := by
  have hrate := feeAt_ok h
  unfold feeAt at h
  simp only [read_bind, check_ok] at h
  obtain ⟨a', hread, -, -, haa⟩ := h
  cases haa
  rw [← decimalAt_plain hread]
  refine exists_congr fun x => and_congr_right fun hx => ?_
  have hx01 : 0 ≤ x ∧ x < 1 := by
    subst hx
    simpa [feeRateOk] using hrate
  simp [hx01]

/-- A user id that was read is the one that is written where that has 32 bits. -/
theorem userId_plain {n : ℤ} (h : integerAt params i = .ok n) :
    Names params i (toUint32 n) ↔ PlainId params i := by
  have hn := integerAt_ok.mp h
  unfold PlainId Names toUint32
  rw [hn]
  constructor
  · intro heq
    have heq : n = (n % 2 ^ 32).toNat := by simpa using heq
    refine ⟨_, congrArg some (congrArg Json.integer heq), ?_⟩
    omega
  · rintro ⟨k, hk, hlt⟩
    obtain rfl : n = k := by simpa using hk
    have : ((k : ℤ) % 2 ^ 32).toNat = k := by omega
    rw [this]

theorem side_plain {side : OrderSide} (h : sideAt params i = .ok side) :
    Names params i side.code ↔ PlainSide params i := by
  unfold sideAt at h
  obtain ⟨n, hn, hside⟩ := read_bind.mp h
  have hn := integerAt_ok.mp hn
  unfold PlainSide Names
  rw [hn]
  constructor
  · intro hcode
    cases side with
    | ask => exact Or.inl hcode
    | bid => exact Or.inr hcode
  · rintro (hone | htwo)
    · obtain rfl : n = 1 := by simpa using hone
      cases hside
      rfl
    · obtain rfl : n = 2 := by simpa using htwo
      cases hside
      rfl

end Read

/-! ## Requests -/

section Requests

variable {round : ℚ → ℚ} {params : List Json} {dictMarket : Dict String (Market Special)}
  {m : Market Special}

theorem limit_plain {args : LimitArgs Special}
    (h : readLimitOrder (specialMpd round) params dictMarket = .ok (m, args)) :
    LimitMeant params m args ↔ PlainLimit round params m := by
  unfold readLimitOrder at h
  simp only [read_bind] at h
  obtain ⟨-, -, userId, huser, ⟨name, m'⟩, -, side, hside, amount, hamount, price, hprice, takerFee,
    htaker, makerFee, hmaker, source, -, hargs⟩ := h
  cases hargs
  constructor
  · rintro ⟨h1, h2, h3, h4, h5, h6⟩
    exact ⟨(userId_plain huser).mp h1, (side_plain hside).mp h2, (positiveAt_plain hamount).mp h3,
      (positiveAt_plain hprice).mp h4, (feeAt_plain htaker).mp h5, (feeAt_plain hmaker).mp h6⟩
  · rintro ⟨h1, h2, h3, h4, h5, h6⟩
    exact ⟨(userId_plain huser).mpr h1, (side_plain hside).mpr h2, (positiveAt_plain hamount).mpr h3,
      (positiveAt_plain hprice).mpr h4, (feeAt_plain htaker).mpr h5, (feeAt_plain hmaker).mpr h6⟩

theorem market_plain {args : MarketArgs Special}
    (h : readMarketOrder (specialMpd round) params dictMarket = .ok (m, args)) :
    MarketMeant params m args ↔ PlainMarket round params m := by
  unfold readMarketOrder at h
  simp only [read_bind] at h
  obtain ⟨-, -, userId, huser, ⟨name, m'⟩, -, side, hside, amount, hamount, takerFee, htaker,
    source, -, hargs⟩ := h
  cases hargs
  constructor
  · rintro ⟨h1, h2, h3, h4⟩
    exact ⟨(userId_plain huser).mp h1, (side_plain hside).mp h2, (positiveAt_plain hamount).mp h3,
      (feeAt_plain htaker).mp h4⟩
  · rintro ⟨h1, h2, h3, h4⟩
    exact ⟨(userId_plain huser).mpr h1, (side_plain hside).mpr h2,
      (positiveAt_plain hamount).mpr h3, (feeAt_plain htaker).mpr h4⟩

theorem update_plain {dictAsset : Dict String AssetType} {args : UpdateArgs Special}
    (h : readUpdateBalance (specialMpd round) params (assetPrecShow dictAsset) = .ok args) :
    UpdateMeant params (assetPrecShow dictAsset args.asset).toNat args ↔
      PlainUpdate round params (assetPrecShow dictAsset args.asset).toNat := by
  unfold readUpdateBalance assetAt at h
  simp only [read_bind] at h
  obtain ⟨-, -, userId, huser, ⟨asset, prec⟩, ⟨asset', -, hprec⟩, business, -, businessId, -,
    change, hchange, detail, -, hargs⟩ := h
  cases hargs
  split_ifs at hprec
  cases hprec
  constructor
  · rintro ⟨h1, h2⟩
    exact ⟨(userId_plain huser).mp h1, (decimalAt_plain hchange).mp h2⟩
  · rintro ⟨h1, h2⟩
    exact ⟨(userId_plain huser).mpr h1, (decimalAt_plain hchange).mpr h2⟩

end Requests

/-- libmpdec in the context of `init_mpd`. -/
abbrev special128 : Mpd Special := specialMpd (roundDown 34)

/-- **What is let in is meaningful exactly where it is written plainly.** -/
theorem numbers_meant (params : List Json) (dictMarket : Dict String (Market Special))
    (dictAsset : Dict String AssetType) :
    (∀ m args, readLimitOrder special128 params dictMarket = .ok (m, args) →
      (LimitMeant params m args ↔ PlainLimit (roundDown 34) params m)) ∧
    (∀ m args, readMarketOrder special128 params dictMarket = .ok (m, args) →
      (MarketMeant params m args ↔ PlainMarket (roundDown 34) params m)) ∧
    ∀ args, readUpdateBalance special128 params (assetPrecShow dictAsset) = .ok args →
      (UpdateMeant params (assetPrecShow dictAsset args.asset).toNat args ↔
        PlainUpdate (roundDown 34) params (assetPrecShow dictAsset args.asset).toNat) :=
  ⟨fun _ _ => limit_plain, fun _ _ => market_plain, fun _ => update_plain⟩

section Examples

/-- A new market, over all numbers of libmpdec. -/
def specialMarkets : Dict String (Market Special) :=
  match marketCreate special128 exampleAssets ⟨"BTCCNY", "BTC", "CNY", 8, 8, 4, .finite (1 / 1000)⟩ with
  | some m => (∅ : Dict String (Market Special)).insert "BTCCNY" m
  | none => ∅

/-- A limit bid for an amount. -/
def bidParams (amount : String) : List Json :=
  [.integer 1, .string "BTCCNY", .integer 2, .string amount, .string "3", .string "0", .string "0",
    .string "web"]

def marketAskParams : List Json :=
  [.integer 1, .string "BTCCNY", .integer 1, .string "2", .string "0", .string "web"]

theorem exists_of_isOk {α : Type} {x : Except Refusal α} (h : x.isOk = true) : ∃ a, x = .ok a := by
  cases x with
  | error r => cases h
  | ok a => exact ⟨a, rfl⟩

/-- Numbers in whole units. -/
theorem plainNumber_of_whole {params : List Json} {prec i : ℕ} {str : String} (n : ℕ)
    (hstr : params[i]? = some (.string str)) (hread : readDecimal str = some n)
    (hround : roundDown 34 n = n) : PlainNumber (roundDown 34) params prec i :=
  ⟨str, n, hstr, hread, fun _ => ⟨n, by simp [hround]⟩⟩

theorem numbers_meant_whole :
    (∃ m args, readLimitOrder special128 (bidParams "2") specialMarkets = .ok (m, args) ∧
      LimitMeant (bidParams "2") m args) ∧
    (∃ m args, readMarketOrder special128 marketAskParams specialMarkets = .ok (m, args) ∧
      MarketMeant marketAskParams m args) ∧
    ∃ args, readUpdateBalance special128 depositParams (assetPrecShow exampleAssets) = .ok args ∧
      UpdateMeant depositParams (assetPrecShow exampleAssets args.asset).toNat args := by
  have hzero : readDecimal "0" = some ((0 : ℕ) : ℚ) := by decide +kernel
  have hone : readDecimal "1" = some ((1 : ℕ) : ℚ) := by decide +kernel
  have htwo : readDecimal "2" = some ((2 : ℕ) : ℚ) := by decide +kernel
  have hthree : readDecimal "3" = some ((3 : ℕ) : ℚ) := by decide +kernel
  have hround : ∀ n : ℕ, n < 4 → roundDown 34 (n : ℚ) = n := by decide +kernel
  obtain ⟨⟨m, args⟩, hlimit⟩ := exists_of_isOk
    (show (readLimitOrder special128 (bidParams "2") specialMarkets).isOk = true by decide +kernel)
  obtain ⟨⟨m', args'⟩, hmarket⟩ := exists_of_isOk
    (show (readMarketOrder special128 marketAskParams specialMarkets).isOk = true by decide +kernel)
  obtain ⟨args'', hupdate⟩ := exists_of_isOk
    (show (readUpdateBalance special128 depositParams (assetPrecShow exampleAssets)).isOk = true by
      decide +kernel)
  refine ⟨⟨m, args, hlimit, ?_⟩, ⟨m', args', hmarket, ?_⟩, args'', hupdate, ?_⟩
  · refine ((numbers_meant _ specialMarkets ∅).1 m args hlimit).mpr
      ⟨⟨1, rfl, by norm_num⟩, Or.inr rfl, ?_, ?_, ?_, ?_⟩
    · exact plainNumber_of_whole 2 rfl htwo (hround 2 (by norm_num))
    · exact plainNumber_of_whole 3 rfl hthree (hround 3 (by norm_num))
    · exact plainNumber_of_whole 0 rfl hzero (hround 0 (by norm_num))
    · exact plainNumber_of_whole 0 rfl hzero (hround 0 (by norm_num))
  · refine ((numbers_meant _ specialMarkets ∅).2.1 m' args' hmarket).mpr
      ⟨⟨1, rfl, by norm_num⟩, Or.inl rfl, ?_, ?_⟩
    · exact plainNumber_of_whole 2 rfl htwo (hround 2 (by norm_num))
    · exact plainNumber_of_whole 0 rfl hzero (hround 0 (by norm_num))
  · refine ((numbers_meant depositParams ∅ exampleAssets).2.2 args'' hupdate).mpr
      ⟨⟨1, rfl, by norm_num⟩, ?_⟩
    exact plainNumber_of_whole 1 rfl hone (hround 1 (by norm_num))

/-- **A limit order for a NaN is passed on.** -/
theorem nan_passed : ¬ ∀ (params : List Json) (dictMarket : Dict String (Market Special))
    (m : Market Special) (args : LimitArgs Special),
      readLimitOrder special128 params dictMarket = .ok (m, args) → LimitMeant params m args :=
  fun hall => by
  obtain ⟨⟨m, args⟩, hlimit⟩ := exists_of_isOk
    (show (readLimitOrder special128 (bidParams "NaN") specialMarkets).isOk = true by decide +kernel)
  obtain ⟨str, x, hstr, hread, -⟩ := (limit_plain hlimit).mp (hall _ _ m args hlimit) |>.amount
  obtain rfl : "NaN" = str := by simpa [bidParams] using hstr
  have hnone : readDecimal "NaN" = none := by decide +kernel
  rw [hnone] at hread
  cases hread

end Examples

end ViabtcExchange
