import ViabtcExchange.KlineQuery

/-!
# The figures of a market (`get_market_status`, `get_market_status_today`)

The last `period` seconds are put together of bars: those of the seconds up to the next full minute,
and from there those of the minutes, up to `now`. A bar is merged if its dictionary has it, and the
two dictionaries are walked over by their keys.

The walk over the minutes ends before `now`, so where `now` is a full minute, the bar that begins
with it is left out. **Theorem (`status_window_iff`).** The figures are those of the deals of the
window exactly where `now` is no full minute, or no deal has come at `now` yet.
-/

namespace ViabtcExchange

/-! ## The figures -/

/-- `for (t = first; t < stop; t += interval)`. -/
def forBelow (first stop interval : ℤ) : List ℤ :=
  (List.range ((stop - first + interval - 1) / interval).toNat).map fun i : ℕ => first + i * interval

/-- What `get_market_status` replies. -/
structure MarketStatus (D : Type) where
  period : ℤ
  last : D
  opening : D
  close : D
  high : D
  low : D
  volume : D
  deal : D
deriving DecidableEq, Repr

/-- What `get_market_status_today` replies. -/
structure TodayStatus (D : Type) where
  opening : D
  last : D
  high : D
  low : D
  volume : D
  deal : D
deriving DecidableEq, Repr

section Figures

variable {D : Type}

/-- The next full minute. -/
def startMin (start : ℤ) : ℤ := roundTo 60 start + 60

namespace MarketInfo

variable (mpd : Mpd D) (info : MarketInfo D)

/-- The bars of the two loops, of seconds and of minutes. -/
def windowBars (start now : ℤ) : List (Kline D) :=
  (forBelow start (startMin start) 1).filterMap (info.kline .sec).find ++
    (forBelow (startMin start) now 60).filterMap (info.kline .min).find

def getMarketStatus (now period : ℤ) : MarketStatus D :=
  let kinfo := (mergeBars mpd (info.windowBars (now - period) now)).getD (.new mpd mpd.zero)
  { period := period
    last := info.last
    opening := kinfo.opening
    close := kinfo.close
    high := kinfo.high
    low := kinfo.low
    volume := kinfo.volume
    deal := kinfo.deal }

def getMarketStatusToday (dayStart : ℤ → ℤ) (now : ℤ) : TodayStatus D :=
  let start := dayStart now
  let klast := getLastKline (info.kline .day) (start - 86400) (start - 86400 * 30) 86400
  let bars := info.windowBars (now - 86400) now
  let volume := bars.foldl (fun volume info => mpd.add volume info.volume) mpd.zero
  let deal := bars.foldl (fun deal info => mpd.add deal info.deal) mpd.zero
  match (info.kline .day).find start, klast with
  | some today, _ => ⟨today.opening, today.close, today.high, today.low, volume, deal⟩
  | none, some klast => ⟨klast.close, klast.close, klast.close, klast.close, volume, deal⟩
  | none, none => ⟨mpd.zero, mpd.zero, mpd.zero, mpd.zero, volume, deal⟩

end MarketInfo

end Figures

/-! ## The walk -/

theorem mem_forBelow {first stop interval t : ℤ} (hpos : 0 < interval) :
    t ∈ forBelow first stop interval ↔ first ≤ t ∧ t < stop ∧ interval ∣ t - first := by
  have hcount : (stop - first + interval - 1) / interval = (stop - first - 1) / interval + 1 := by
    have hsplit : stop - first + interval - 1 = stop - first - 1 + 1 * interval := by ring
    rw [hsplit, Int.add_mul_ediv_right _ _ hpos.ne']
  have hiff := @Grid.exists_multiple_iff (stop - first - 1) interval (t - first) hpos
  unfold forBelow
  rw [hcount, List.mem_map]
  simp only [List.mem_range]
  constructor
  · rintro ⟨i, hi, rfl⟩
    obtain ⟨hzero, hle, hdvd⟩ := hiff.mp ⟨i, hi, by ring⟩
    exact ⟨by omega, by omega, hdvd⟩
  · rintro ⟨hfirst, hstop, hdvd⟩
    obtain ⟨i, hi, heq⟩ := hiff.mpr ⟨by omega, by omega, hdvd⟩
    exact ⟨i, hi, by omega⟩

/-- The next full minute is behind `start`, by a minute at most from 1970 on. -/
theorem startMin_spec (start : ℤ) : 60 ∣ startMin start ∧ start < startMin start := by
  unfold startMin roundTo
  have hsplit := Int.tmod_add_mul_tdiv start 60
  have hmod := Int.tmod_lt_of_pos start (show (0 : ℤ) < 60 by norm_num)
  exact ⟨⟨start.tdiv 60 + 1, by ring⟩, by omega⟩

section Walk

variable {start now : ℤ}

/-- The keys of the bars that are walked over. -/
def windowKeys (start now : ℤ) : List ℤ :=
  forBelow start (startMin start) 1 ++ forBelow (startMin start) now 60

theorem pairwise_windowKeys (start now : ℤ) : (windowKeys start now).Pairwise (· < ·) := by
  refine List.pairwise_append.mpr ⟨Grid.pairwise_steps _ (by norm_num) _, Grid.pairwise_steps _ (by norm_num) _,
    fun k hk k' hk' => ?_⟩
  obtain ⟨-, hlt, -⟩ := (mem_forBelow (by norm_num)).mp hk
  obtain ⟨hle, -, -⟩ := (mem_forBelow (by norm_num)).mp hk'
  exact hlt.trans_le hle

/-- The key of the bar that a time is counted with. -/
def windowKey (start t : ℤ) : ℤ := if t < startMin start then t else roundTo 60 t

/-- Before the next full minute that is the second. -/
theorem windowKey_eq_sec {t k : ℤ} (ht : 0 ≤ t) (hk : k < startMin start) :
    windowKey start t = k ↔ t = k := by
  obtain ⟨hdvd, -⟩ := startMin_spec start
  have hround := @roundTo_eq 60 t ht
  unfold windowKey
  split_ifs <;> omega

/-- From there on that is the minute. -/
theorem windowKey_eq_min {t k : ℤ} (ht : 0 ≤ t) (hk : startMin start ≤ k) :
    windowKey start t = k ↔ roundTo 60 t = k := by
  have hround := @roundTo_eq 60 t ht
  unfold windowKey
  split_ifs <;> omega

theorem windowKey_mono {t t' : ℤ} (ht : 0 ≤ t) (hle : t ≤ t') :
    windowKey start t ≤ windowKey start t' := by
  obtain ⟨hdvd, -⟩ := startMin_spec start
  have hround := @roundTo_eq 60 t ht
  have hround' := @roundTo_eq 60 t' (ht.trans hle)
  unfold windowKey
  split_ifs <;> omega

/-- The walk over the minutes would be at `now` next when it ends. -/
def NowLeftOut (start now : ℤ) : Prop := 60 ∣ now ∧ startMin start ≤ now

instance (start now : ℤ) : Decidable (NowLeftOut start now) := inferInstanceAs (Decidable (_ ∧ _))

/-- From 1970 on that is so at every full minute. -/
theorem nowLeftOut_iff (hnow : 0 < now) (hstart : start < now) :
    NowLeftOut start now ↔ 60 ∣ now := by
  refine ⟨And.left, fun hfull => ⟨hfull, ?_⟩⟩
  unfold startMin
  rcases le_or_gt 0 start with hnonneg | hneg
  · rw [roundTo_eq hnonneg]
    omega
  · have hround : roundTo 60 start ≤ 0 := by
      unfold roundTo
      have hsplit := Int.tmod_add_mul_tdiv start 60
      have hmod := Int.lt_tmod_of_pos start (show (0 : ℤ) < 60 by norm_num)
      omega
    omega

/-- **The seam**: what is walked over is the window up to `now`, but for `now` where it is left
out. -/
theorem windowKey_mem {t : ℤ} (ht : 0 ≤ t) (hnow : t ≤ now) :
    windowKey start t ∈ windowKeys start now ↔ start ≤ t ∧ ¬(NowLeftOut start now ∧ t = now) := by
  unfold NowLeftOut
  obtain ⟨hdvd, hlt⟩ := startMin_spec start
  unfold windowKeys windowKey
  rw [List.mem_append, mem_forBelow (by norm_num), mem_forBelow (by norm_num)]
  have hround := @roundTo_eq 60 t ht
  split_ifs with hsec
  · simp only [one_dvd, and_true]
    omega
  · rw [hround]
    omega

end Walk

/-! ## What the figures are of -/

/-- Bars from a time on are what their deals make of them. -/
def MarketInfo.Retained (dayStart : ℤ → ℤ) (info : MarketInfo ℚ) (deals : List (DealMessage ℚ))
    (start : ℤ) : Prop :=
  ∀ t, start ≤ t →
    (info.kline .sec).find t = foldBar exactDecimal (barDeals dayStart deals .sec t) ∧
      (info.kline .min).find t = foldBar exactDecimal (barDeals dayStart deals .min t)

/-- Prices, amounts and worth of some deals, the first and the last of them where they are in
order. -/
structure MarketStatus.CountsDeals (status : MarketStatus ℚ) (deals : List (DealMessage ℚ)) : Prop where
  volume : status.volume = (deals.map DealMessage.amount).sum
  deal : status.deal = (deals.map fun d => d.price * d.amount).sum
  high : deals ≠ [] → IsGreatest {p | ∃ d ∈ deals, d.price = p} status.high
  low : deals ≠ [] → IsLeast {p | ∃ d ∈ deals, d.price = p} status.low
  opening : (deals.Pairwise fun d d' => d.timeSec ≤ d'.timeSec) →
    ∀ d ∈ deals.head?, status.opening = d.price
  close : (deals.Pairwise fun d d' => d.timeSec ≤ d'.timeSec) →
    ∀ d ∈ deals.getLast?, status.close = d.price

structure TodayStatus.CountsDeals (status : TodayStatus ℚ) (deals : List (DealMessage ℚ)) : Prop where
  volume : status.volume = (deals.map DealMessage.amount).sum
  deal : status.deal = (deals.map fun d => d.price * d.amount).sum

/-- The deals of `start ≤ second ≤ now`, where none is later. -/
def windowDeals (deals : List (DealMessage ℚ)) (start now : ℤ) : List (DealMessage ℚ) :=
  deals.filter fun d => start ≤ d.timeSec ∧ d.timeSec ≤ now

/-- The deals that are walked over. -/
def seenDeals (deals : List (DealMessage ℚ)) (start now : ℤ) : List (DealMessage ℚ) :=
  ((windowKeys start now).map (bucket (fun d : DealMessage ℚ => windowKey start d.timeSec) deals)).flatten

section Seen

variable {deals : List (DealMessage ℚ)} {start now : ℤ}

/-- The walk merges the bars of the deals it sees. -/
theorem mergeBars_windowBars {dayStart : ℤ → ℤ} {info : MarketInfo ℚ}
    (hret : info.Retained dayStart deals start) (hpos : ∀ d ∈ deals, 0 ≤ d.timeSec) :
    info.windowBars start now = ((windowKeys start now).map fun k =>
      (bucket (fun d : DealMessage ℚ => windowKey start d.timeSec) deals k).map
        fun d => (d.price, d.amount)).filterMap (foldDeals exactDecimal) := by
  obtain ⟨hdvd, hlt⟩ := startMin_spec start
  unfold MarketInfo.windowBars windowKeys
  rw [List.map_append, List.filterMap_append, List.filterMap_map, List.filterMap_map]
  congr 1
  · refine List.filterMap_congr fun k hk => ?_
    obtain ⟨hfirst, hstop, -⟩ := (mem_forBelow (by norm_num)).mp hk
    rw [(hret k hfirst).1]
    have hdeals : barDeals dayStart deals .sec k =
        bucket (fun d : DealMessage ℚ => windowKey start d.timeSec) deals k :=
      List.filter_congr fun d hd => decide_eq_decide.mpr (windowKey_eq_sec (hpos d hd) hstop).symm
    rw [hdeals]
    rfl
  · refine List.filterMap_congr fun k hk => ?_
    obtain ⟨hfirst, -, -⟩ := (mem_forBelow (by norm_num)).mp hk
    rw [(hret k (by omega)).2]
    have hdeals : barDeals dayStart deals .min k =
        bucket (fun d : DealMessage ℚ => windowKey start d.timeSec) deals k :=
      List.filter_congr fun d hd => decide_eq_decide.mpr (windowKey_eq_min (hpos d hd) hfirst).symm
    rw [hdeals]
    rfl

/-- What the walk sees, in the order of the deals. -/
def countedDeals (deals : List (DealMessage ℚ)) (start now : ℤ) : List (DealMessage ℚ) :=
  deals.filter fun d => start ≤ d.timeSec ∧ ¬(NowLeftOut start now ∧ d.timeSec = now)

theorem filter_windowKeys (hdeals : ∀ d ∈ deals, 0 ≤ d.timeSec ∧ d.timeSec ≤ now) :
    deals.filter (fun d => windowKey start d.timeSec ∈ windowKeys start now) =
      countedDeals deals start now :=
  List.filter_congr fun d hd =>
    decide_eq_decide.mpr (windowKey_mem (hdeals d hd).1 (hdeals d hd).2)

theorem seenDeals_perm (hdeals : ∀ d ∈ deals, 0 ≤ d.timeSec ∧ d.timeSec ≤ now) :
    (seenDeals deals start now).Perm (countedDeals deals start now) := by
  rw [← filter_windowKeys hdeals]
  exact flatten_buckets_perm _ ((pairwise_windowKeys start now).imp ne_of_lt)

/-- Deals in order are seen in order. -/
theorem seenDeals_sorted (hdeals : ∀ d ∈ deals, 0 ≤ d.timeSec ∧ d.timeSec ≤ now)
    (hsorted : (countedDeals deals start now).Pairwise fun d d' => d.timeSec ≤ d'.timeSec) :
    seenDeals deals start now = countedDeals deals start now := by
  have hmem : ∀ d ∈ countedDeals deals start now, 0 ≤ d.timeSec ∧
      windowKey start d.timeSec ∈ windowKeys start now := by
    intro d hd
    rw [← filter_windowKeys hdeals] at hd
    obtain ⟨hd, hkey⟩ := List.mem_filter.mp hd
    exact ⟨(hdeals d hd).1, of_decide_eq_true hkey⟩
  have hbucket : ∀ k ∈ windowKeys start now,
      bucket (fun d : DealMessage ℚ => windowKey start d.timeSec) deals k =
        bucket (fun d : DealMessage ℚ => windowKey start d.timeSec) (countedDeals deals start now) k := by
    intro k hk
    rw [← filter_windowKeys hdeals]
    unfold bucket
    rw [List.filter_filter]
    refine List.filter_congr fun d _ => ?_
    by_cases hd : windowKey start d.timeSec = k <;> simp [hd, hk]
  unfold seenDeals
  rw [List.map_congr_left hbucket]
  exact flatten_buckets
    (hsorted.imp_of_mem fun {d d'} hd _ hle => windowKey_mono (hmem d hd).1 hle)
    (pairwise_windowKeys start now) fun d hd => (hmem d hd).2

end Seen

/-! ## The bar of the walk -/

theorem isGreatest_foldl_max {α : Type} [LinearOrder α] (a : α) (l : List α) :
    IsGreatest {x | x ∈ a :: l} (l.foldl max a) := by
  induction l using List.reverseRecOn with
  | nil => simp [IsGreatest, upperBounds]
  | append_singleton l b ih =>
    rw [List.foldl_append]
    obtain ⟨hmem, hle⟩ := ih
    constructor
    · rcases max_choice (l.foldl max a) b with h | h
      · have hold : l.foldl max a ∈ a :: l := hmem
        simp only [List.foldl_cons, List.foldl_nil, h]
        show _ ∈ a :: (l ++ [b])
        rw [← List.cons_append]
        exact List.mem_append_left _ hold
      · simp [h]
    · intro x hx
      have hx : x ∈ (a :: l) ++ [b] := hx
      rcases List.mem_append.mp hx with hx | hx
      · exact (hle hx).trans (le_max_left _ _)
      · rw [List.mem_singleton.mp hx]
        exact le_max_right _ _

theorem isLeast_foldl_min {α : Type} [LinearOrder α] (a : α) (l : List α) :
    IsLeast {x | x ∈ a :: l} (l.foldl min a) :=
  @isGreatest_foldl_max αᵒᵈ _ a l

section Bar

variable {deals seen : List (DealMessage ℚ)}

/-- A bar of deals has their figures, in whatever order they are. -/
theorem countsDeals_of_perm {status : MarketStatus ℚ} (kinfo : Kline ℚ)
    (hkinfo : (foldDeals exactDecimal (seen.map fun d => (d.price, d.amount))).getD
      (.new exactDecimal exactDecimal.zero) = kinfo)
    (hstatus : status = { status with
      opening := kinfo.opening, close := kinfo.close, high := kinfo.high, low := kinfo.low
      volume := kinfo.volume, deal := kinfo.deal })
    (hperm : seen.Perm deals)
    (hsorted : (deals.Pairwise fun d d' => d.timeSec ≤ d'.timeSec) → seen = deals) :
    status.CountsDeals deals := by
  rw [hstatus]
  cases seen with
  | nil =>
    obtain rfl := hperm.symm.eq_nil
    subst hkinfo
    exact ⟨rfl, rfl, fun h => absurd rfl h, fun h => absurd rfl h, fun _ => nofun, fun _ => nofun⟩
  | cons d ds =>
    rw [List.map_cons, foldDeals_eq, Option.getD_some] at hkinfo
    subst hkinfo
    have hprices : {p | ∃ d ∈ deals, d.price = p} =
        {p | p ∈ d.price :: ds.map DealMessage.price} := by
      ext p
      show (∃ d ∈ deals, d.price = p) ↔ p ∈ (d :: ds).map DealMessage.price
      rw [List.mem_map]
      simp only [hperm.mem_iff]
    have hmap : (ds.map fun d => (d.price, d.amount)).map Prod.fst = ds.map DealMessage.price := by
      rw [List.map_map]
      rfl
    refine ⟨?_, ?_, fun _ => ?_, fun _ => ?_, fun h => ?_, fun h => ?_⟩
    · rw [← (hperm.map DealMessage.amount).sum_eq]
      simp [summary, Function.comp_def]
    · rw [← (hperm.map fun d => d.price * d.amount).sum_eq]
      simp [summary, Function.comp_def]
    · rw [hprices]
      simp only [summary, hmap]
      exact isGreatest_foldl_max _ _
    · rw [hprices]
      simp only [summary, hmap]
      exact isLeast_foldl_min _ _
    · rw [← hsorted h]
      intro first hfirst
      obtain rfl : d = first := Option.some.inj hfirst
      rfl
    · rw [← hsorted h]
      intro last hlast
      have hmapped : ((d :: ds).map fun d => (d.price, d.amount)).getLast? =
          some (last.price, last.amount) := by
        rw [List.getLast?_map, hlast]
        rfl
      simp only [summary]
      rw [List.map_cons, List.getLast?_eq_some_getLast (List.cons_ne_nil _ _)] at hmapped
      rw [Option.some.inj hmapped]

end Bar

/-- The totals are those of the merged bar. -/
theorem totals_mergeBars {D : Type} (mpd : Mpd D) (bars : List (Kline D)) :
    bars.foldl (fun volume info => mpd.add volume info.volume) mpd.zero =
        ((mergeBars mpd bars).getD (.new mpd mpd.zero)).volume ∧
      bars.foldl (fun deal info => mpd.add deal info.deal) mpd.zero =
        ((mergeBars mpd bars).getD (.new mpd mpd.zero)).deal := by
  induction bars using List.reverseRecOn with
  | nil => exact ⟨rfl, rfl⟩
  | append_singleton bars bar ih =>
    have hmerge : mergeBars mpd (bars ++ [bar]) =
        some (((mergeBars mpd bars).getD (.new mpd bar.opening)).merge mpd bar) := by
      unfold mergeBars
      rw [List.foldl_append]
      rfl
    rw [List.foldl_append, List.foldl_append, ih.1, ih.2, hmerge, Option.getD_some]
    cases mergeBars mpd bars <;> exact ⟨rfl, rfl⟩

/-! ## Clearing -/

namespace MarketInfo

section Clear

variable {D : Type}

/-- `clear_dict`. -/
def clearDict (dict : Dict ℤ (Kline D)) (start : ℤ) : Dict ℤ (Kline D) :=
  Dict.filter (fun t _ => start ≤ t) dict

/-- `clear_kline`, of one market. -/
def clearKline (info : MarketInfo D) (secMax minMax hourMax now : ℤ) : MarketInfo D :=
  { info with
    kline := fun
      | .sec => clearDict (info.kline .sec) (now - secMax)
      | .min => clearDict (info.kline .min) (roundTo 60 now - minMax * 60)
      | .hour => clearDict (info.kline .hour) (hourMin now hourMax)
      | .day => info.kline .day }

end Clear

variable {dayStart : ℤ → ℤ} {info : MarketInfo ℚ} {deals : List (DealMessage ℚ)} {start : ℤ}

theorem Counted.retained (h : info.Counted exactDecimal dayStart deals) (start : ℤ) :
    info.Retained dayStart deals start := fun t _ => ⟨h .sec t, h .min t⟩

/-- A deal more is counted in the bars retained. -/
theorem Retained.update (h : info.Retained dayStart deals start) (deal : DealMessage ℚ) (now : ℚ) :
    (info.marketUpdate exactDecimal dayStart deal now).Retained dayStart (deals ++ [deal]) start :=
  fun t ht => ⟨bar_marketUpdate deal now (h t ht).1, bar_marketUpdate deal now (h t ht).2⟩

/-- What is not old enough to be cleared is retained. -/
theorem Retained.clear (h : info.Retained dayStart deals start) {secMax minMax now : ℤ}
    (hourMax : ℤ) (hsec : now - secMax ≤ start) (hmin : roundTo 60 now - minMax * 60 ≤ start) :
    (info.clearKline secMax minMax hourMax now).Retained dayStart deals start := by
  have hfind : ∀ (dict : Dict ℤ (Kline ℚ)) (limit t : ℤ), limit ≤ t →
      (clearDict dict limit).find t = dict.find t := by
    intro dict limit t ht
    refine Option.ext fun bar => ?_
    unfold clearDict
    rw [Dict.find_filter_eq_some]
    simp [ht]
  intro t ht
  exact ⟨(hfind _ _ _ (by omega)).trans (h t ht).1, (hfind _ _ _ (by omega)).trans (h t ht).2⟩

end MarketInfo

/-- A deal comes in, or the timer clears what is old. -/
inductive MarketAct where
  | deal (d : DealMessage ℚ) (now : ℚ)
  | clear (now : ℤ)

/-- The deals of some acts. -/
def dealsOf (acts : List MarketAct) : List (DealMessage ℚ) :=
  acts.filterMap fun
    | .deal d _ => some d
    | .clear _ => none

namespace MarketInfo

variable (dayStart : ℤ → ℤ) (secMax minMax hourMax : ℤ)

def act (info : MarketInfo ℚ) : MarketAct → MarketInfo ℚ
  | .deal d now => info.marketUpdate exactDecimal dayStart d now
  | .clear now => info.clearKline secMax minMax hourMax now

/-- A market after some acts. -/
def life (acts : List MarketAct) : MarketInfo ℚ :=
  acts.foldl (act dayStart secMax minMax hourMax) (createMarket exactDecimal)

/-- However deals and clearings come, what is not old enough for any of these is retained. -/
theorem retained_life {acts : List MarketAct} {start : ℤ}
    (h : ∀ now, .clear now ∈ acts → now - secMax ≤ start ∧ roundTo 60 now - minMax * 60 ≤ start) :
    (life dayStart secMax minMax hourMax acts).Retained dayStart (dealsOf acts) start := by
  induction acts using List.reverseRecOn with
  | nil => exact Counted.retained counted_create start
  | append_singleton acts a ih =>
    have hret := ih fun now hmem => h now (List.mem_append_left _ hmem)
    unfold life dealsOf at hret ⊢
    rw [List.foldl_append, List.filterMap_append]
    cases a with
    | deal d now => exact hret.update d now
    | clear now =>
      obtain ⟨hsec, hmin⟩ := h now (List.mem_append_right _ (List.mem_singleton_self _))
      simp only [List.filterMap_cons, List.filterMap_nil, List.append_nil]
      exact hret.clear hourMax hsec hmin

end MarketInfo

/-! ## The window -/

namespace MarketInfo

variable {dayStart : ℤ → ℤ} {info : MarketInfo ℚ} {deals : List (DealMessage ℚ)} {now period : ℤ}

/-- The figures are those of the deals that are walked over. -/
theorem Retained.status (hret : info.Retained dayStart deals (now - period))
    (hdeals : ∀ d ∈ deals, 0 ≤ d.timeSec ∧ d.timeSec ≤ now) :
    (info.getMarketStatus exactDecimal now period).CountsDeals
      (countedDeals deals (now - period) now) := by
  refine countsDeals_of_perm _ ?_ rfl (seenDeals_perm hdeals) (seenDeals_sorted hdeals)
  rw [mergeBars_windowBars hret fun d hd => (hdeals d hd).1, mergeBars_foldDeals, seenDeals,
    List.map_flatten, List.map_map]
  rfl

/-- So are the day's totals. -/
theorem Retained.today (hret : info.Retained dayStart deals (now - 86400))
    (hdeals : ∀ d ∈ deals, 0 ≤ d.timeSec ∧ d.timeSec ≤ now) :
    (info.getMarketStatusToday exactDecimal dayStart now).CountsDeals
      (countedDeals deals (now - 86400) now) := by
  have hstatus := hret.status hdeals
  obtain ⟨hvolume, hdeal⟩ := totals_mergeBars exactDecimal (info.windowBars (now - 86400) now)
  have htotals : (info.getMarketStatusToday exactDecimal dayStart now).volume =
        (info.getMarketStatus exactDecimal now 86400).volume ∧
      (info.getMarketStatusToday exactDecimal dayStart now).deal =
        (info.getMarketStatus exactDecimal now 86400).deal := by
    unfold getMarketStatusToday
    dsimp only
    split <;> exact ⟨hvolume, hdeal⟩
  exact ⟨htotals.1.trans hstatus.volume, htotals.2.trans hstatus.deal⟩

/-- All deals of the window are counted where none of `now` is left out. -/
theorem countedDeals_eq {start : ℤ} (hdeals : ∀ d ∈ deals, 0 ≤ d.timeSec ∧ d.timeSec ≤ now)
    (h : NowLeftOut start now → ∀ d ∈ deals, d.timeSec ≠ now) :
    countedDeals deals start now = windowDeals deals start now := by
  refine List.filter_congr fun d hd => decide_eq_decide.mpr ?_
  have hle := (hdeals d hd).2
  exact ⟨fun hin => ⟨hin.1, hle⟩, fun hin => ⟨hin.1, fun hout => h hout.1 d hd hout.2⟩⟩

/-- A deal left out is missing from the volume. -/
theorem volume_countedDeals_lt {start : ℤ} (hstart : start ≤ now)
    (hdeals : ∀ d ∈ deals, d.timeSec ≤ now) (hamount : ∀ d ∈ deals, 0 < d.amount)
    (hout : NowLeftOut start now) {d : DealMessage ℚ} (hd : d ∈ deals) (hnow : d.timeSec = now) :
    ((countedDeals deals start now).map DealMessage.amount).sum <
      ((windowDeals deals start now).map DealMessage.amount).sum := by
  have hperm := List.filter_append_perm (fun d : DealMessage ℚ => decide (d.timeSec = now))
    (windowDeals deals start now)
  have hrest : (windowDeals deals start now).filter (fun d => !decide (d.timeSec = now)) =
      countedDeals deals start now := by
    unfold windowDeals countedDeals
    rw [List.filter_filter]
    refine List.filter_congr fun d hd => ?_
    have hle := hdeals d hd
    by_cases hlast : d.timeSec = now <;> simp [hlast, hout, hle]
  have hlast : 0 < (((windowDeals deals start now).filter fun d => d.timeSec = now).map
      DealMessage.amount).sum := by
    refine List.sum_pos _ (fun a ha => ?_) (List.ne_nil_of_mem (List.mem_map_of_mem
      (List.mem_filter.mpr ⟨List.mem_filter.mpr ⟨hd, by simp [hnow, hstart]⟩, by simp [hnow]⟩)))
    obtain ⟨d', hd', rfl⟩ := List.mem_map.mp ha
    exact hamount d' (List.mem_of_mem_filter (List.mem_of_mem_filter hd'))
  rw [← (hperm.map DealMessage.amount).sum_eq, List.map_append, List.sum_append, hrest]
  linarith

/-- The figures of the last `period` seconds, and those of the day where these are a day. -/
def WindowExact (dayStart : ℤ → ℤ) (info : MarketInfo ℚ) (deals : List (DealMessage ℚ))
    (now period : ℤ) : Prop :=
  (info.getMarketStatus exactDecimal now period).CountsDeals (windowDeals deals (now - period) now) ∧
    (period = 86400 → (info.getMarketStatusToday exactDecimal dayStart now).CountsDeals
      (windowDeals deals (now - period) now))

/-- **The figures are those of the window** exactly where no deal of `now` is left out. -/
theorem status_window_iff (hret : info.Retained dayStart deals (now - period))
    (hdeals : ∀ d ∈ deals, 0 ≤ d.timeSec ∧ d.timeSec ≤ now) (hperiod : 0 < period) :
    ((NowLeftOut (now - period) now → ∀ d ∈ deals, d.timeSec ≠ now) →
      WindowExact dayStart info deals now period) ∧
    ((∀ d ∈ deals, 0 < d.amount) → WindowExact dayStart info deals now period →
      NowLeftOut (now - period) now → ∀ d ∈ deals, d.timeSec ≠ now) := by
  refine ⟨fun h => ⟨?_, ?_⟩, fun hamount h hout d hd hnow => ?_⟩
  · rw [← countedDeals_eq hdeals h]
    exact hret.status hdeals
  · rintro rfl
    rw [← countedDeals_eq hdeals h]
    exact hret.today hdeals
  · have hlt := volume_countedDeals_lt (by omega) (fun d hd => (hdeals d hd).2) hamount hout hd hnow
    rw [← h.1.volume, ← (hret.status hdeals).volume] at hlt
    exact lt_irrefl _ hlt

/-- A deal before a full minute and one at it, seen five seconds later. -/
theorem status_window_five : WindowExact (getDayStart 0) (marketRun exactDecimal (getDayStart 0) exampleDeals)
    (exampleDeals.map Prod.fst) 7265 3600 := by
  have hret : (marketRun exactDecimal (getDayStart 0) exampleDeals).Retained (getDayStart 0)
      (exampleDeals.map Prod.fst) (7265 - 3600) := (counted_run exampleDeals).retained _
  exact (status_window_iff hret (by decide +kernel) (by norm_num)).1 fun h =>
    absurd h (by decide +kernel)

/-- **A deal of this second is left out** when a minute begins with it. -/
theorem deal_left_out : ¬∀ (deals : List (DealMessage ℚ × ℚ)) (now period : ℤ),
    (∀ d ∈ deals.map Prod.fst, 0 ≤ d.timeSec ∧ d.timeSec ≤ now) → 0 < period →
      WindowExact (getDayStart 0) (marketRun exactDecimal (getDayStart 0) deals) (deals.map Prod.fst)
        now period := by
  intro hall
  obtain ⟨hstatus, -⟩ := hall exampleDeals 7260 3600 (by decide +kernel) (by norm_num)
  exact absurd hstatus.volume (by decide +kernel)

end MarketInfo

end ViabtcExchange
