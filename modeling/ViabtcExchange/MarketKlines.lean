import ViabtcExchange.Kline
import ViabtcExchange.Lib.Buckets
import ViabtcExchange.Lib.Dict
import ViabtcExchange.Server

/-!
# The bars of a market (`market_update`, `mp_message.c`)

Each deal goes into four bars, one of each resolution. `MarketInfo.Counted` says that a bar is what
the deals under its key make of it, and every deal keeps that (`Counted.update`).

A day begins where `get_day_start` says, a parameter of `market_update`: `getDayStart` is that
function in a zone with a fixed offset.

**Theorem (`resolutions_agree`).** In exact decimals, with deals in the order of their times, a bar
is the merge of the finer bars inside it, and the summary of its deals.
-/

namespace ViabtcExchange

/-! ## Messages -/

structure DealMessage (D : Type) where
  timestamp : ℚ
  market : String
  price : D
  amount : D
  side : OrderSide
  id : ℕ
deriving DecidableEq, Repr

def Json.realValue : Option Json → ℚ
  | some (.real x) => x
  | _ => 0

def Json.integerValue : Option Json → ℤ
  | some (.integer n) => n
  | _ => 0

def Json.stringValue : Option Json → Option String
  | some (.string s) => some s
  | _ => none

/-- `on_deals_message`, up to its call of `market_update`. `none` is an invalid message. -/
def readDeal {D : Type} (mpd : Mpd D) : Json → Option (DealMessage D)
  | .array vs => do
    guard (12 ≤ vs.length)
    let timestamp := Json.realValue vs[(0 : ℕ)]?
    guard (timestamp ≠ 0)
    let market ← Json.stringValue vs[(1 : ℕ)]?
    let price ← mpd.decimal (← Json.stringValue vs[(6 : ℕ)]?) 0
    let amount ← mpd.decimal (← Json.stringValue vs[(7 : ℕ)]?) 0
    let side ← match toUint32 (Json.integerValue vs[(10 : ℕ)]?) with
      | 1 => some OrderSide.ask
      | 2 => some OrderSide.bid
      | _ => none
    let id := toUint64 (Json.integerValue vs[(11 : ℕ)]?)
    guard (id ≠ 0)
    return ⟨timestamp, market, price, amount, side, id⟩
  | _ => none

theorem readDeal_id_pos {D : Type} {mpd : Mpd D} {message : Json} {deal : DealMessage D}
    (h : readDeal mpd message = some deal) : 0 < deal.id := by
  unfold readDeal at h
  split at h
  · simp only [Option.bind_eq_bind, Option.bind_eq_some_iff] at h
    obtain ⟨-, -, -, -, market, -, str, -, price, -, str', -, amount, -, h⟩ := h
    have hend : ∀ {id : ℕ} {d : DealMessage D},
        ((guard (id ≠ 0) : Option Unit).bind fun _ => some d) = some deal → d.id = id →
          0 < deal.id := by
      intro id d hbind hid
      by_cases hzero : id = 0
      · rw [guard, if_neg (not_not.mpr hzero)] at hbind
        cases hbind
      · rw [guard, if_pos hzero] at hbind
        cases hbind
        exact hid ▸ Nat.pos_of_ne_zero hzero
    split at h
    · exact hend h rfl
    · exact hend h rfl
    · cases h
  · cases h

/-! ## Keys -/

inductive KlineType
  | sec
  | min
  | hour
  | day
deriving DecidableEq, Repr

/-- `get_day_start` where local time is `utc` seconds ahead of UTC: the midnight before. -/
def getDayStart (utc timestamp : ℤ) : ℤ := (timestamp + utc) / 86400 * 86400 - utc

/-- The division of C rounds towards zero. -/
def roundTo (unit timestamp : ℤ) : ℤ := timestamp.tdiv unit * unit

/-- The key of the bar that a time falls into. -/
def KlineType.start (dayStart : ℤ → ℤ) : KlineType → ℤ → ℤ
  | sec, timestamp => timestamp
  | min, timestamp => roundTo 60 timestamp
  | hour, timestamp => roundTo 3600 timestamp
  | day, timestamp => dayStart timestamp

section Update

variable {D : Type}

/-- `(time_t)timestamp`. -/
def DealMessage.timeSec (d : DealMessage D) : ℤ :=
  if 0 ≤ d.timestamp then ⌊d.timestamp⌋ else ⌈d.timestamp⌉

/-- `MARKET_DEALS_MAX`. -/
def marketDealsMax : ℕ := 10000

/-- `struct market_info`, with the four dictionaries under the types of their bars. -/
structure MarketInfo (D : Type) where
  last : D
  kline : KlineType → Dict ℤ (Kline D)
  update : Finset (KlineType × ℤ)
  deals : List (DealMessage D)
  dealsJson : List (DealMessage D)
  updateTime : ℚ

variable (mpd : Mpd D) (dayStart : ℤ → ℤ)

def createMarket : MarketInfo D where
  last := mpd.zero
  kline := fun _ => ∅
  update := ∅
  deals := []
  dealsJson := []
  updateTime := 0

namespace MarketInfo

/-- One of the four blocks of `market_update`, with its `add_update`. -/
def updateKline (info : MarketInfo D) (type : KlineType) (start : ℤ) (price amount : D) :
    MarketInfo D :=
  { info with
    kline := Function.update info.kline type ((info.kline type).insert start
      (addDeal mpd ((info.kline type).find start) price amount))
    update := insert (type, start) info.update }

/-- A node at the head, and one less at the tail when there are too many. -/
def pushDeal (list : List (DealMessage D)) (deal : DealMessage D) : List (DealMessage D) :=
  let list := deal :: list
  if list.length > marketDealsMax then list.dropLast else list

/-- `market_update`, of the market of the deal. -/
def marketUpdate (info : MarketInfo D) (deal : DealMessage D) (now : ℚ) : MarketInfo D :=
  let t := deal.timeSec
  let info := info.updateKline mpd .sec (KlineType.sec.start dayStart t) deal.price deal.amount
  let info := info.updateKline mpd .min (KlineType.min.start dayStart t) deal.price deal.amount
  let info := info.updateKline mpd .hour (KlineType.hour.start dayStart t) deal.price deal.amount
  let info := info.updateKline mpd .day (KlineType.day.start dayStart t) deal.price deal.amount
  { info with
    last := deal.price
    deals := info.deals ++ [deal]
    dealsJson := pushDeal info.dealsJson deal
    updateTime := now }

end MarketInfo

/-! ## Every bar counts its deals -/

/-- The deals that belong into a bar. -/
def barDeals (deals : List (DealMessage D)) (type : KlineType) (start : ℤ) :
    List (DealMessage D) :=
  bucket (fun d : DealMessage D => type.start dayStart d.timeSec) deals start

/-- The bar that deals make. -/
def foldBar (deals : List (DealMessage D)) : Option (Kline D) :=
  foldDeals mpd (deals.map fun d => (d.price, d.amount))

namespace MarketInfo

/-- Each bar is what its deals make of it. -/
def Counted (info : MarketInfo D) (deals : List (DealMessage D)) : Prop :=
  ∀ type start, (info.kline type).find start = foldBar mpd (barDeals dayStart deals type start)

variable {mpd dayStart} {info : MarketInfo D} {deals : List (DealMessage D)}

theorem kline_updateKline (type type' : KlineType) (start start' : ℤ) (price amount : D) :
    ((info.updateKline mpd type start price amount).kline type').find start' =
      if type' = type ∧ start' = start then
        some (addDeal mpd ((info.kline type').find start') price amount)
      else (info.kline type').find start' := by
  unfold updateKline
  dsimp only
  by_cases htype : type' = type
  · subst htype
    rw [Function.update_self, Dict.find_insert]
    by_cases hstart : start' = start
    · subst hstart
      simp
    · simp [hstart]
  · rw [Function.update_of_ne htype]
    simp [htype]

theorem kline_marketUpdate (deal : DealMessage D) (now : ℚ) (type : KlineType) (start : ℤ) :
    ((info.marketUpdate mpd dayStart deal now).kline type).find start =
      if start = type.start dayStart deal.timeSec then
        some (addDeal mpd ((info.kline type).find start) deal.price deal.amount)
      else (info.kline type).find start := by
  show ((MarketInfo.updateKline mpd _ _ _ _ _).kline type).find start = _
  cases type <;> simp only [kline_updateKline, reduceCtorEq, false_and, if_false, true_and]

theorem mem_update_marketUpdate (deal : DealMessage D) (now : ℚ) (type : KlineType) (start : ℤ) :
    (type, start) ∈ (info.marketUpdate mpd dayStart deal now).update ↔
      start = type.start dayStart deal.timeSec ∨ (type, start) ∈ info.update := by
  show (type, start) ∈ insert (KlineType.day, _) (insert (KlineType.hour, _)
    (insert (KlineType.min, _) (insert (KlineType.sec, _) info.update))) ↔ _
  cases type <;> simp [KlineType.start]

/-- A bar of what has come so far counts a deal more. -/
theorem bar_marketUpdate {type : KlineType} {start : ℤ} (deal : DealMessage D) (now : ℚ)
    (hold : (info.kline type).find start = foldBar mpd (barDeals dayStart deals type start)) :
    ((info.marketUpdate mpd dayStart deal now).kline type).find start =
      foldBar mpd (barDeals dayStart (deals ++ [deal]) type start) := by
  rw [kline_marketUpdate, hold]
  unfold barDeals foldBar
  rw [bucket_snoc]
  by_cases hstart : type.start dayStart deal.timeSec = start
  · rw [if_pos hstart.symm, if_pos hstart, List.map_append, List.map_singleton, foldDeals_snoc]
  · rw [if_neg (Ne.symm hstart), if_neg hstart]

/-- **A deal is counted in each of its bars.** -/
theorem Counted.update (h : info.Counted mpd dayStart deals) (deal : DealMessage D) (now : ℚ) :
    (info.marketUpdate mpd dayStart deal now).Counted mpd dayStart (deals ++ [deal]) :=
  fun type start => bar_marketUpdate deal now (h type start)

theorem counted_create : (createMarket mpd).Counted mpd dayStart [] := fun _ _ => rfl

variable (mpd dayStart) in
/-- The market after some deals, each with the time it came in. -/
def marketRun (deals : List (DealMessage D × ℚ)) : MarketInfo D :=
  deals.foldl (fun info d => info.marketUpdate mpd dayStart d.1 d.2) (createMarket mpd)

theorem counted_run (deals : List (DealMessage D × ℚ)) :
    (marketRun mpd dayStart deals).Counted mpd dayStart (deals.map Prod.fst) := by
  unfold marketRun
  induction deals using List.reverseRecOn with
  | nil => exact counted_create
  | append_singleton deals d ih =>
    rw [List.foldl_append, List.map_append]
    exact ih.update d.1 d.2

end MarketInfo

end Update

/-! ## The resolutions agree -/

section Resolutions

variable {D : Type}

/-- The bars that start in a stretch of time, in its order. -/
def barsInside (bars : Dict ℤ (Kline D)) (start length : ℤ) : List (Kline D) :=
  ((bars.keys.filter fun k => start ≤ k ∧ k < start + length).sort (· ≤ ·)).filterMap bars.find

theorem roundTo_eq {unit t : ℤ} (ht : 0 ≤ t) : roundTo unit t = t / unit * unit := by
  unfold roundTo
  rw [Int.tdiv_eq_ediv_of_nonneg ht]

/-- The times of bars do not fall while those of deals do not. -/
theorem start_mono {utc t t' : ℤ} (type : KlineType) (ht : 0 ≤ t) (hle : t ≤ t') :
    type.start (getDayStart utc) t ≤ type.start (getDayStart utc) t' := by
  have ht' : 0 ≤ t' := ht.trans hle
  cases type with
  | sec => exact hle
  | min =>
    simp only [KlineType.start, roundTo_eq ht, roundTo_eq ht']
    omega
  | hour =>
    simp only [KlineType.start, roundTo_eq ht, roundTo_eq ht']
    omega
  | day =>
    simp only [KlineType.start, getDayStart]
    omega

theorem timeSec_mono {d d' : DealMessage D} (h : 0 ≤ d.timestamp)
    (hle : d.timestamp ≤ d'.timestamp) :
    0 ≤ d.timeSec ∧ d.timeSec ≤ d'.timeSec := by
  unfold DealMessage.timeSec
  rw [if_pos h, if_pos (h.trans hle)]
  exact ⟨Int.floor_nonneg.mpr h, Int.floor_mono hle⟩

/-- Deals as they come: at times of the clock, one not before the other. -/
structure InOrder (deals : List (DealMessage D)) : Prop where
  nonneg : ∀ d ∈ deals, 0 ≤ d.timestamp
  sorted : deals.Pairwise fun d d' => d.timestamp ≤ d'.timestamp

theorem InOrder.starts {deals : List (DealMessage D)} (h : InOrder deals) (utc : ℤ)
    (type : KlineType) : deals.Pairwise fun d d' =>
      type.start (getDayStart utc) d.timeSec ≤ type.start (getDayStart utc) d'.timeSec := by
  refine h.sorted.imp_of_mem fun {d d'} hd _ hle => ?_
  obtain ⟨ht, hle⟩ := timeSec_mono (h.nonneg d hd) hle
  exact start_mono type ht hle

theorem InOrder.timeSec_nonneg {deals : List (DealMessage D)} (h : InOrder deals)
    {d : DealMessage D} (hd : d ∈ deals) : 0 ≤ d.timeSec :=
  (timeSec_mono (h.nonneg d hd) le_rfl).1

namespace MarketInfo

variable {info : MarketInfo ℚ} {deals : List (DealMessage ℚ)} {utc : ℤ}

theorem Counted.mem_keys (h : info.Counted exactDecimal (getDayStart utc) deals) {type : KlineType}
    {d : DealMessage ℚ} (hd : d ∈ deals) :
    type.start (getDayStart utc) d.timeSec ∈ (info.kline type).keys := by
  rw [Finmap.mem_keys]
  by_contra hnot
  have hnone := h type (type.start (getDayStart utc) d.timeSec)
  rw [Dict.find_eq_none.mpr hnot] at hnone
  have hmem : d ∈ barDeals (getDayStart utc) deals type (type.start (getDayStart utc) d.timeSec) :=
    (mem_bucket _).mpr ⟨hd, rfl⟩
  unfold foldBar at hnone
  cases hlist : barDeals (getDayStart utc) deals type (type.start (getDayStart utc) d.timeSec) with
  | nil =>
    rw [hlist] at hmem
    cases hmem
  | cons d' deals' =>
    rw [hlist, List.map_cons, foldDeals_eq] at hnone
    cases hnone

/-- A bar is the merge of the finer bars inside it, when its deals are those that fall into
these. -/
theorem Counted.merge (h : info.Counted exactDecimal (getDayStart utc) deals) (ho : InOrder deals)
    {fine coarse : KlineType} {start length : ℤ}
    (hinside : ∀ t : ℤ, 0 ≤ t → (coarse.start (getDayStart utc) t = start ↔
      start ≤ fine.start (getDayStart utc) t ∧ fine.start (getDayStart utc) t < start + length)) :
    (info.kline coarse).find start =
      mergeBars exactDecimal (barsInside (info.kline fine) start length) := by
  set keys := ((info.kline fine).keys.filter fun k => start ≤ k ∧ k < start + length).sort (· ≤ ·)
    with hkeys
  have hbars : barsInside (info.kline fine) start length =
      ((keys.map (barDeals (getDayStart utc) deals fine)).map
        (List.map fun d => (d.price, d.amount))).filterMap (foldDeals exactDecimal) := by
    rw [List.filterMap_map, List.filterMap_map]
    exact List.filterMap_congr fun k _ => h fine k
  have hflat : (keys.map (barDeals (getDayStart utc) deals fine)).flatten =
      barDeals (getDayStart utc) deals coarse start := by
    refine flatten_buckets_coarse (ho.starts utc fine) (Finset.sortedLT_sort _).pairwise fun d hd =>
      ?_
    rw [hkeys, Finset.mem_sort, Finset.mem_filter, hinside _ (ho.timeSec_nonneg hd)]
    exact ⟨fun hin => ⟨h.mem_keys hd, hin⟩, fun hin => hin.2⟩
  rw [hbars, mergeBars_foldDeals, h coarse start, foldBar, ← hflat, List.map_flatten]

/-- A bar that is there has deals, and is their summary. -/
theorem Counted.summary (h : info.Counted exactDecimal (getDayStart utc) deals) {type : KlineType}
    {start : ℤ} {bar : Kline ℚ} (hbar : (info.kline type).find start = some bar) :
    ∃ d ds, barDeals (getDayStart utc) deals type start = d :: ds ∧
      bar = ViabtcExchange.summary (d.price, d.amount) (ds.map fun d => (d.price, d.amount)) := by
  have hfold := (h type start).symm.trans hbar
  unfold foldBar at hfold
  cases hlist : barDeals (getDayStart utc) deals type start with
  | nil =>
    rw [hlist] at hfold
    cases hfold
  | cons d ds =>
    rw [hlist, List.map_cons, foldDeals_eq] at hfold
    exact ⟨d, ds, rfl, (Option.some.inj hfold).symm⟩

/-- The start of a bar that is there is the start of the time of a deal. -/
theorem Counted.start (h : info.Counted exactDecimal (getDayStart utc) deals) (ho : InOrder deals)
    {type : KlineType} {start : ℤ} {bar : Kline ℚ}
    (hbar : (info.kline type).find start = some bar) :
    ∃ t : ℤ, 0 ≤ t ∧ type.start (getDayStart utc) t = start := by
  obtain ⟨d, ds, hlist, -⟩ := h.summary hbar
  have hmem : d ∈ barDeals (getDayStart utc) deals type start := hlist ▸ List.mem_cons_self ..
  obtain ⟨hd, hstart⟩ := (mem_bucket _).mp hmem
  exact ⟨d.timeSec, ho.timeSec_nonneg hd, hstart⟩

variable (deals : List (DealMessage ℚ × ℚ)) (utc)

/-- **All resolutions agree.** -/
theorem resolutions_agree (ho : InOrder (deals.map Prod.fst)) :
    (∀ start bar, ((marketRun exactDecimal (getDayStart utc) deals).kline .min).find start =
      some bar → mergeBars exactDecimal (barsInside ((marketRun exactDecimal (getDayStart utc)
        deals).kline .sec) start 60) = some bar) ∧
    (∀ start bar, ((marketRun exactDecimal (getDayStart utc) deals).kline .hour).find start =
      some bar → mergeBars exactDecimal (barsInside ((marketRun exactDecimal (getDayStart utc)
        deals).kline .min) start 3600) = some bar) ∧
    (3600 ∣ utc → ∀ start bar, ((marketRun exactDecimal (getDayStart utc) deals).kline .day).find
      start = some bar →
        mergeBars exactDecimal (barsInside ((marketRun exactDecimal (getDayStart utc)
          deals).kline .hour) start 86400) = some bar ∧
        mergeBars exactDecimal (barsInside ((marketRun exactDecimal (getDayStart utc)
          deals).kline .min) start 86400) = some bar) ∧
    (∀ type start bar, ((marketRun exactDecimal (getDayStart utc) deals).kline type).find start =
      some bar → ∃ d ds, barDeals (getDayStart utc) (deals.map Prod.fst) type start = d :: ds ∧
        bar = ViabtcExchange.summary (d.price, d.amount) (ds.map fun d => (d.price, d.amount))) := by
  have h := @counted_run _ exactDecimal (getDayStart utc) deals
  refine ⟨fun start bar hbar => ?_, fun start bar hbar => ?_, fun hzone start bar hbar => ?_,
    fun type start bar hbar => h.summary hbar⟩
  · obtain ⟨t, ht, rfl⟩ := h.start ho hbar
    rw [← hbar]
    refine (h.merge ho fun t' ht' => ?_).symm
    simp only [KlineType.start, roundTo_eq ht, roundTo_eq ht']
    omega
  · obtain ⟨t, ht, rfl⟩ := h.start ho hbar
    rw [← hbar]
    refine (h.merge ho fun t' ht' => ?_).symm
    simp only [KlineType.start, roundTo_eq ht, roundTo_eq ht']
    omega
  · obtain ⟨t, ht, rfl⟩ := h.start ho hbar
    obtain ⟨k, rfl⟩ := hzone
    rw [← hbar]
    constructor
    · refine (h.merge ho fun t' ht' => ?_).symm
      simp only [KlineType.start, getDayStart, roundTo_eq ht']
      omega
    · refine (h.merge ho fun t' ht' => ?_).symm
      simp only [KlineType.start, getDayStart, roundTo_eq ht']
      omega

/-- Three deals in two hours. -/
def exampleDeals : List (DealMessage ℚ × ℚ) :=
  [(⟨7199 + 1 / 2, "BTCCNY", 10, 1, .ask, 1⟩, 0), (⟨7199 + 3 / 4, "BTCCNY", 12, 2, .bid, 2⟩, 0),
    (⟨7260, "BTCCNY", 9, 3, .ask, 3⟩, 0)]

theorem resolutions_agree_three :
    mergeBars exactDecimal (barsInside ((marketRun exactDecimal (getDayStart 3600)
      exampleDeals).kline .hour) (-3600) 86400) = some ⟨10, 9, 12, 9, 6, 61⟩ := by
  have ho : InOrder (exampleDeals.map Prod.fst) := by
    constructor
    · decide +kernel
    · decide +kernel
  have hbar : ((marketRun exactDecimal (getDayStart 3600) exampleDeals).kline .day).find (-3600) =
      some ⟨10, 9, 12, 9, 6, 61⟩ := by
    decide +kernel
  exact ((resolutions_agree 3600 exampleDeals ho).2.2.1 (dvd_refl _) _ _ hbar).1

end MarketInfo

end Resolutions

end ViabtcExchange
