import ViabtcExchange.KlineRuns
import ViabtcExchange.KlineSeries
import ViabtcExchange.MarketStatus

/-!
# Months (`get_market_kline_month`)

The bars of months are merged of those of days, which are stored under the midnights of local time.
`localtime` gives the month to begin with, `mktime` the midnight of its first day, and the loop
counts the months from there on. The bar before is looked for from that midnight back, but not
further than thirty days before the start that was asked for.

**Theorem (`month_series`).** The query replies one bar for each month, from that of the start to
that of the end, with all days of it that begin by the end.
-/

namespace ViabtcExchange

/-! ## The calendar -/

/-- The days from 1970 on to the first of a month, by the count of months since 1900. Years are
taken from March on here, so that the leap day is the last of its year. -/
def monthDays (month : ℤ) : ℤ :=
  365 * (1900 + (month - 2) / 12) + (1900 + (month - 2) / 12) / 4 -
    (1900 + (month - 2) / 12) / 100 + (1900 + (month - 2) / 12) / 400 +
      (153 * ((month - 2) % 12) + 2) / 5 - 719468

/-- The month of a day. The first guess is off by one at most. -/
def dayMonth (day : ℤ) : ℤ :=
  let month := 840 + day * 4800 / 146097
  if day < monthDays month then month - 1
  else if monthDays (month + 1) ≤ day then month + 1
  else month

example : [789, 11015, 11016, 17225].map dayMonth = [865, 1201, 1201, 1405] := by decide

/-- `tm_year` and `tm_mon` of `struct tm`. -/
structure TmMonth where
  year : ℤ
  mon : ℤ
deriving DecidableEq, Repr

namespace TmMonth

def count (tm : TmMonth) : ℤ := tm.year * 12 + tm.mon

/-- What `get_next_month` makes of its arguments. -/
def next (tm : TmMonth) : TmMonth :=
  if tm.mon = 11 then ⟨tm.year + 1, 0⟩ else ⟨tm.year, tm.mon + 1⟩

end TmMonth

/-- `localtime` where local time is `utc` seconds ahead of UTC. -/
def localMonth (utc timestamp : ℤ) : TmMonth :=
  let month := dayMonth ((timestamp + utc) / 86400)
  ⟨month / 12, month % 12⟩

/-- `mktime` of the first of a month. -/
def getMonthStart (utc : ℤ) (tm : TmMonth) : ℤ := monthDays tm.count * 86400 - utc

theorem monthDays_next (month : ℤ) :
    monthDays month + 28 ≤ monthDays (month + 1) ∧ monthDays (month + 1) ≤ monthDays month + 31 := by
  unfold monthDays
  obtain ⟨year, rest, hrest, rfl⟩ :
      ∃ year rest : ℤ, (0 ≤ rest ∧ rest ≤ 11) ∧ month = 12 * year + rest + 2 :=
    ⟨(month - 2) / 12, (month - 2) % 12, by omega, by omega⟩
  obtain rfl | rfl | rfl | rfl | rfl | rfl | rfl | rfl | rfl | rfl | rfl | rfl :
      rest = 0 ∨ rest = 1 ∨ rest = 2 ∨ rest = 3 ∨ rest = 4 ∨ rest = 5 ∨ rest = 6 ∨ rest = 7 ∨
        rest = 8 ∨ rest = 9 ∨ rest = 10 ∨ rest = 11 := by omega
  all_goals omega

theorem monthDays_strictMono : StrictMono monthDays :=
  strictMono_int_of_lt_succ fun month => by linarith [(monthDays_next month).1]

/-- A month begins at most a month away from where the mean length of a month has it. -/
theorem monthDays_mean (month : ℤ) : 146097 * (month - 841) ≤ 4800 * monthDays month ∧
    4800 * monthDays month ≤ 146097 * (month - 839) := by
  unfold monthDays
  omega

/-- A day is in its month. -/
theorem dayMonth_spec (day : ℤ) :
    monthDays (dayMonth day) ≤ day ∧ day < monthDays (dayMonth day + 1) := by
  have hmean := fun month => monthDays_mean month
  unfold dayMonth
  dsimp only
  split_ifs with hlt hle
  · have hbefore := (hmean (840 + day * 4800 / 146097 - 1)).2
    rw [sub_add_cancel]
    exact ⟨by omega, hlt⟩
  · have hafter := (hmean (840 + day * 4800 / 146097 + 1 + 1)).1
    exact ⟨hle, by omega⟩
  · exact ⟨not_lt.mp hlt, not_le.mp hle⟩

/-- There is only one month that a day is in. -/
theorem dayMonth_eq {day month : ℤ} (hle : monthDays month ≤ day) (hlt : day < monthDays (month + 1)) :
    dayMonth day = month := by
  obtain ⟨hle', hlt'⟩ := dayMonth_spec day
  have hnext := monthDays_strictMono.lt_iff_lt.mp (hle.trans_lt hlt')
  have hnext' := monthDays_strictMono.lt_iff_lt.mp (hle'.trans_lt hlt)
  omega

namespace TmMonth

@[simp] theorem count_next (tm : TmMonth) : tm.next.count = tm.count + 1 := by
  unfold next count
  split_ifs with hmon
  · rw [hmon]
    ring
  · ring

end TmMonth

@[simp] theorem count_localMonth (utc timestamp : ℤ) :
    (localMonth utc timestamp).count = dayMonth ((timestamp + utc) / 86400) := by
  unfold localMonth TmMonth.count
  dsimp only
  omega

theorem getMonthStart_lt_next (utc : ℤ) (tm : TmMonth) :
    getMonthStart utc tm < getMonthStart utc tm.next := by
  have hnext := (monthDays_next tm.count).1
  unfold getMonthStart
  rw [TmMonth.count_next]
  omega

/-- The midnight a month begins with, of any time in it, -/
def monthStart (utc timestamp : ℤ) : ℤ := getMonthStart utc (localMonth utc timestamp)

/-- and that of the next month. -/
def monthEnd (utc timestamp : ℤ) : ℤ := getMonthStart utc (localMonth utc timestamp).next

/-- A time is in its month. -/
theorem month_spec (utc timestamp : ℤ) :
    monthStart utc timestamp ≤ timestamp ∧ timestamp < monthEnd utc timestamp := by
  obtain ⟨hle, hlt⟩ := dayMonth_spec ((timestamp + utc) / 86400)
  unfold monthStart monthEnd getMonthStart
  rw [TmMonth.count_next, count_localMonth]
  omega

theorem count_localMonth_getMonthStart (utc : ℤ) (tm : TmMonth) :
    (localMonth utc (getMonthStart utc tm)).count = tm.count := by
  have hday : (getMonthStart utc tm + utc) / 86400 = monthDays tm.count := by
    unfold getMonthStart
    omega
  rw [count_localMonth, hday]
  exact dayMonth_eq le_rfl (by linarith [(monthDays_next tm.count).1])

/-- The month that begins with a midnight is found again. -/
theorem monthStart_getMonthStart (utc : ℤ) (tm : TmMonth) :
    monthStart utc (getMonthStart utc tm) = getMonthStart utc tm ∧
      monthEnd utc (getMonthStart utc tm) = getMonthStart utc tm.next := by
  unfold monthStart monthEnd
  constructor
  · rw [getMonthStart, count_localMonth_getMonthStart, getMonthStart]
  · rw [getMonthStart, TmMonth.count_next, count_localMonth_getMonthStart, getMonthStart,
      TmMonth.count_next]

/-! ## The query -/

section Query

variable {D : Type} (mpd : Mpd D)

/-- The inner loop: the midnights of a month that are not after `stop`. -/
def monthKeys (monStart monNext stop : ℤ) : List ℤ := forBelow monStart (min monNext (stop + 1)) 86400

/-- The loop over the months. -/
def monthOutputs (bars : Dict ℤ (Kline D)) (utc stop : ℤ) (klast : Option (Kline D)) (tm : TmMonth) :
    List (ℤ × Kline D) :=
  let monStart := getMonthStart utc tm
  if monStart ≤ stop then
    let monNext := getMonthStart utc tm.next
    match mergeBars mpd ((monthKeys monStart monNext stop).filterMap bars.find) with
    | some kinfo => (monStart, kinfo) :: monthOutputs bars utc stop (some kinfo) tm.next
    | none =>
      match klast with
      | none => monthOutputs bars utc stop none tm.next
      | some last =>
        let kinfo := Kline.new mpd last.close
        (monStart, kinfo) :: monthOutputs bars utc stop (some kinfo) tm.next
  else []
termination_by (stop + 1 - getMonthStart utc tm).toNat
decreasing_by all_goals have hlt := getMonthStart_lt_next utc tm; omega

def getMarketKlineMonth (info : MarketInfo D) (utc start stop : ℤ) : List (ℤ × Kline D) :=
  let tm := localMonth utc start
  let monStart := getMonthStart utc tm
  let kbefor := getLastKline (info.kline .day) (monStart - 86400) (start - 86400 * 30) 86400
  monthOutputs mpd (info.kline .day) utc stop kbefor tm

/-! ## A series of months -/

/-- The days of a month that begin by `stop`. -/
def monthBars (bars : Dict ℤ (Kline D)) (utc stop monStart : ℤ) : List (Kline D) :=
  barsInside bars monStart (min (monthEnd utc monStart) (stop + 1) - monStart)

/-- One bar for each month from `first` on that begins by `stop`, but for those before the first
close that is known. -/
structure MonthSeries (bars : Dict ℤ (Kline D)) (utc first stop : ℤ) (before : Option (Kline D))
    (out : List (ℤ × Kline D)) : Prop where
  month : ∀ p ∈ out, monthStart utc p.1 = p.1 ∧ first ≤ p.1 ∧ p.1 ≤ stop
  gapless : out.IsChain fun p q => q.1 = monthEnd utc p.1
  omitted : ∀ t, first ≤ t → monthStart utc t ≤ stop →
    (∃ p ∈ out, p.1 = monthStart utc t) ∨ before = none ∧ ∀ t', first ≤ t' → t' ≤ t →
      monthBars bars utc stop (monthStart utc t') = []
  carried : CarriedFrom mpd (monthBars bars utc stop) before out

end Query

section Lemmas

variable {D : Type} {mpd : Mpd D} {bars : Dict ℤ (Kline D)} {utc stop : ℤ} {tm : TmMonth}

/-- An inner loop meets all bars of its range that are stored in steps from its beginning. -/
theorem filterMap_forBelow {first last unit : ℤ} (hunit : 0 < unit)
    (hgrid : ∀ t bar, bars.find t = some bar → unit ∣ t - first) :
    (forBelow first last unit).filterMap bars.find = barsInside bars first (last - first) := by
  have hfilter : (forBelow first last unit).filterMap bars.find =
      ((forBelow first last unit).filter fun t => t ∈ bars.keys).filterMap bars.find := by
    rw [List.filterMap_filter]
    refine List.filterMap_congr fun t _ => ?_
    by_cases ht : t ∈ bars.keys
    · simp [ht]
    · simp only [ht, decide_false, Bool.false_eq_true, if_false]
      exact not_not.mp fun hfind => ht (Dict.mem_keys_iff.mpr hfind)
  rw [hfilter]
  unfold barsInside
  congr 1
  refine List.SortedLT.eq_of_mem_iff ((Grid.pairwise_steps first hunit _).filter _).sortedLT
    (Finset.sortedLT_sort _) fun t => ?_
  rw [List.mem_filter, decide_eq_true_iff, Finset.mem_sort, Finset.mem_filter, mem_forBelow hunit,
    add_sub_cancel]
  constructor
  · rintro ⟨⟨hle, hlt, -⟩, hmem⟩
    exact ⟨hmem, hle, hlt⟩
  · rintro ⟨hmem, hle, hlt⟩
    obtain ⟨bar, hbar⟩ := Option.ne_none_iff_exists'.mp (Dict.mem_keys_iff.mp hmem)
    exact ⟨⟨hle, hlt, hgrid t bar hbar⟩, hmem⟩

/-! ## The months that are walked over -/

/-- The starts of the months, as the loop counts them. -/
def monthStarts (utc stop : ℤ) (tm : TmMonth) : List ℤ :=
  if getMonthStart utc tm ≤ stop then getMonthStart utc tm :: monthStarts utc stop tm.next else []
termination_by (stop + 1 - getMonthStart utc tm).toNat
decreasing_by have hlt := getMonthStart_lt_next utc tm; omega

theorem monthOutputs_eq_carry (hbars : ∀ t bar, bars.find t = some bar → 86400 ∣ t + utc)
    (klast : Option (Kline D)) :
    monthOutputs mpd bars utc stop klast tm =
      carry mpd (monthBars bars utc stop) klast (monthStarts utc stop tm) := by
  have hfine : ∀ tm : TmMonth, (monthKeys (getMonthStart utc tm) (getMonthStart utc tm.next)
      stop).filterMap bars.find = monthBars bars utc stop (getMonthStart utc tm) := by
    intro tm
    unfold monthKeys monthBars
    rw [(monthStart_getMonthStart utc tm).2]
    refine filterMap_forBelow (by norm_num) fun t bar hbar => ?_
    have hmidnight : 86400 ∣ getMonthStart utc tm + utc :=
      ⟨monthDays tm.count, by unfold getMonthStart; ring⟩
    have hsub := dvd_sub (hbars t bar hbar) hmidnight
    rwa [add_sub_add_right_eq_sub] at hsub
  induction htm : monthStarts utc stop tm generalizing tm klast with
  | nil =>
    unfold monthStarts at htm
    split_ifs at htm with hle
    unfold monthOutputs
    dsimp only
    rw [if_neg hle]
    rfl
  | cons start starts ih =>
    unfold monthStarts at htm
    split_ifs at htm with hle
    obtain ⟨rfl, hrest⟩ := List.cons.inj htm
    unfold monthOutputs
    dsimp only
    rw [if_pos hle, hfine]
    unfold carry
    cases mergeBars mpd (monthBars bars utc stop (getMonthStart utc tm)) with
    | some kinfo => exact congrArg _ (ih _ hrest)
    | none =>
      cases klast with
      | none => exact ih _ hrest
      | some last => exact congrArg _ (ih _ hrest)

/-- Later times are in later months. -/
theorem monthStart_mono {t t' : ℤ} (h : t ≤ t') : monthStart utc t ≤ monthStart utc t' := by
  have hday : (t + utc) / 86400 ≤ (t' + utc) / 86400 := by omega
  have hmonth : dayMonth ((t + utc) / 86400) < dayMonth ((t' + utc) / 86400) + 1 :=
    monthDays_strictMono.lt_iff_lt.mp
      ((dayMonth_spec _).1.trans_lt (hday.trans_lt (dayMonth_spec _).2))
  have hdays := monthDays_strictMono.monotone (Int.lt_add_one_iff.mp hmonth)
  unfold monthStart getMonthStart
  rw [count_localMonth, count_localMonth]
  omega

/-- Months begin at the same time or one after the end of the other. -/
theorem monthEnd_le {t : ℤ} (h : getMonthStart utc tm < monthStart utc t) :
    getMonthStart utc tm.next ≤ monthStart utc t := by
  unfold monthStart getMonthStart at h ⊢
  rw [TmMonth.count_next]
  have hlt : tm.count < (localMonth utc t).count := monthDays_strictMono.lt_iff_lt.mp (by omega)
  have hdays := monthDays_strictMono.monotone hlt
  omega

theorem mem_monthStarts {t : ℤ} : t ∈ monthStarts utc stop tm ↔
    monthStart utc t = t ∧ getMonthStart utc tm ≤ t ∧ t ≤ stop := by
  fun_induction monthStarts utc stop tm with
  | case1 tm hle ih =>
    rw [List.mem_cons, ih]
    have hlt := getMonthStart_lt_next utc tm
    constructor
    · rintro (rfl | ⟨hmonth, hnext, hstop⟩)
      · exact ⟨(monthStart_getMonthStart utc tm).1, le_rfl, hle⟩
      · exact ⟨hmonth, hlt.le.trans hnext, hstop⟩
    · rintro ⟨hmonth, hfirst, hstop⟩
      rcases hfirst.eq_or_lt with heq | hless
      · exact Or.inl heq.symm
      · exact Or.inr ⟨hmonth, hmonth ▸ monthEnd_le (hmonth.symm ▸ hless), hstop⟩
  | case2 tm hle =>
    simp only [List.not_mem_nil, false_iff]
    rintro ⟨-, hfirst, hstop⟩
    exact hle (hfirst.trans hstop)

theorem isChain_monthStarts :
    (monthStarts utc stop tm).IsChain fun s s' => s' = monthEnd utc s := by
  fun_induction monthStarts utc stop tm with
  | case1 tm hle ih =>
    refine List.isChain_cons.mpr ⟨fun s hs => ?_, ih⟩
    rw [(monthStart_getMonthStart utc tm).2]
    unfold monthStarts at hs
    split_ifs at hs
    · exact (Option.some.inj hs).symm
    · cases hs
  | case2 tm hle => exact .nil

/-- The months come in their order. -/
theorem pairwise_monthStarts : (monthStarts utc stop tm).Pairwise (· < ·) := by
  fun_induction monthStarts utc stop tm with
  | case1 tm hle ih =>
    refine List.pairwise_cons.mpr ⟨fun s hs => ?_, ih⟩
    exact (getMonthStart_lt_next utc tm).trans_le (mem_monthStarts.mp hs).2.1
  | case2 tm hle => exact .nil

/-- The loop replies a series. -/
theorem monthSeries_outputs (hbars : ∀ t bar, bars.find t = some bar → 86400 ∣ t + utc)
    (before : Option (Kline D)) :
    MonthSeries mpd bars utc (getMonthStart utc tm) stop before
      (monthOutputs mpd bars utc stop before tm) := by
  rw [monthOutputs_eq_carry hbars]
  obtain ⟨skipped, hskipped, hnone, hcarried⟩ := @carry_spec _ mpd (monthBars bars utc stop) before
    (monthStarts utc stop tm)
  have hchain := @isChain_monthStarts utc stop tm
  have hsorted := @pairwise_monthStarts utc stop tm
  rw [hskipped] at hchain hsorted
  refine ⟨fun p hp => ?_, ?_, fun t hfirst hstop => ?_, hcarried⟩
  · exact mem_monthStarts.mp (hskipped ▸ List.mem_append_right _ (List.mem_map_of_mem hp))
  · exact (List.isChain_map _).mp (List.isChain_append.mp hchain).2.1
  · have hmem : ∀ t', getMonthStart utc tm ≤ t' → monthStart utc t' ≤ stop →
        monthStart utc t' ∈ skipped ∨
          ∃ p ∈ carry mpd (monthBars bars utc stop) before (monthStarts utc stop tm),
            p.1 = monthStart utc t' := by
      intro t' hfirst' hstop'
      have hin : monthStart utc t' ∈ monthStarts utc stop tm := by
        refine mem_monthStarts.mpr ⟨(monthStart_getMonthStart utc _).1, ?_, hstop'⟩
        rw [← (monthStart_getMonthStart utc tm).1]
        exact monthStart_mono hfirst'
      rw [hskipped] at hin
      rcases List.mem_append.mp hin with hin | hin
      · exact Or.inl hin
      · obtain ⟨p, hp, heq⟩ := List.mem_map.mp hin
        exact Or.inr ⟨p, hp, heq⟩
    rcases hmem t hfirst hstop with hskip | hout
    · refine Or.inr ⟨(hnone _ hskip).1, fun t' hfirst' hle => ?_⟩
      have hle' := @monthStart_mono utc _ _ hle
      rcases hmem t' hfirst' (hle'.trans hstop) with hskip' | ⟨p, hp, heq⟩
      · exact (hnone _ hskip').2
      · have hlt := (List.pairwise_append.mp hsorted).2.2 _ hskip _ (List.mem_map_of_mem hp)
        exact absurd (heq ▸ hle') (not_le.mpr hlt)
    · exact Or.inl hout

end Lemmas

section Results

/-- A deal is counted under a local midnight. -/
theorem getDayStart_dvd (utc t : ℤ) : 86400 ∣ getDayStart utc t + utc :=
  ⟨(t + utc) / 86400, by unfold getDayStart; ring⟩

/-- A day is in the month of its midnight. -/
theorem monthStart_getDayStart (utc t : ℤ) : monthStart utc (getDayStart utc t) = monthStart utc t := by
  have hday : (getDayStart utc t + utc) / 86400 = (t + utc) / 86400 := by
    unfold getDayStart
    omega
  unfold monthStart localMonth
  rw [hday]

theorem monthStart_monthStart (utc t : ℤ) : monthStart utc (monthStart utc t) = monthStart utc t :=
  (monthStart_getMonthStart utc _).1

theorem monthEnd_monthStart (utc t : ℤ) : monthEnd utc (monthStart utc t) = monthEnd utc t :=
  (monthStart_getMonthStart utc _).2

/-- The times of a month are those from its start up to its end. -/
theorem monthStart_eq_iff {utc t t' : ℤ} :
    monthStart utc t' = monthStart utc t ↔ monthStart utc t ≤ t' ∧ t' < monthEnd utc t := by
  constructor
  · intro heq
    have hend : monthEnd utc t' = monthEnd utc t := by
      rw [← monthEnd_monthStart utc t', heq, monthEnd_monthStart]
    exact heq ▸ hend ▸ month_spec utc t'
  · rintro ⟨hle, hlt⟩
    refine le_antisymm (not_lt.mp fun hless => ?_) ?_
    · exact absurd ((monthEnd_le hless).trans (month_spec utc t').1) (not_le.mpr hlt)
    · have hmono := @monthStart_mono utc _ _ hle
      rwa [monthStart_monthStart] at hmono

/-- In whatever run marketprice counts right, the bars of a market are those of its deals. -/
theorem MarketPrice.Running.counted {D : Type} {c : PriceSettings D}
    {seen : ℕ → List (DealMessage D)} {r : Redis D} {clock : ℚ} {p : MarketPrice D}
    (h : p.Running c seen r clock) {name : String} {info : MarketInfo D}
    (hinfo : p.dictMarket.find name = some info) :
    info.Counted c.mpd c.dayStart (bucket DealMessage.market (seen p.position) name) := by
  intro type start
  have hbar := h.bars name type start
  rw [MarketPrice.bar, hinfo] at hbar
  exact hbar

variable {info : MarketInfo ℚ} {deals : List (DealMessage ℚ)} {utc : ℤ}

/-- Bars of days are stored under local midnights. -/
theorem MarketInfo.Counted.midnight (h : info.Counted exactDecimal (getDayStart utc) deals) :
    ∀ t bar, (info.kline .day).find t = some bar → 86400 ∣ t + utc := by
  intro t bar hbar
  obtain ⟨d, ds, hlist, -⟩ := h.summary hbar
  have hmem : d ∈ barDeals (getDayStart utc) deals .day t := hlist ▸ List.mem_cons_self
  rw [← ((mem_bucket _).mp hmem).2]
  exact getDayStart_dvd utc _

/-- The days of a month make the bar of its deals. -/
theorem MarketInfo.Counted.month (h : info.Counted exactDecimal (getDayStart utc) deals)
    (ho : InOrder deals) (stop t : ℤ) :
    mergeBars exactDecimal (monthBars (info.kline .day) utc stop (monthStart utc t)) =
      foldBar exactDecimal (deals.filter fun d =>
        monthStart utc d.timeSec = monthStart utc t ∧ getDayStart utc d.timeSec ≤ stop) := by
  let inMonth : DealMessage ℚ → Bool := fun d =>
    monthStart utc d.timeSec = monthStart utc t ∧ getDayStart utc d.timeSec ≤ stop
  let length := min (monthEnd utc t) (stop + 1) - monthStart utc t
  set keys := ((info.kline .day).keys.filter fun k =>
    monthStart utc t ≤ k ∧ k < monthStart utc t + length).sort (· ≤ ·) with hkeys
  have hbars : monthBars (info.kline .day) utc stop (monthStart utc t) =
      ((keys.map (barDeals (getDayStart utc) deals .day)).map
        (List.map fun d => (d.price, d.amount))).filterMap (foldDeals exactDecimal) := by
    unfold monthBars barsInside
    rw [monthEnd_monthStart, List.filterMap_map, List.filterMap_map]
    exact List.filterMap_congr fun k _ => h .day k
  have hflat : (keys.map (barDeals (getDayStart utc) deals .day)).flatten =
      bucket inMonth deals true := by
    refine flatten_buckets_coarse (ho.starts utc .day) (Finset.sortedLT_sort _).pairwise
      fun d hd => ?_
    rw [hkeys, Finset.mem_sort, Finset.mem_filter, decide_eq_true_iff]
    have hday : monthStart utc d.timeSec = monthStart utc t ↔
        monthStart utc t ≤ getDayStart utc d.timeSec ∧ getDayStart utc d.timeSec < monthEnd utc t := by
      rw [← monthStart_getDayStart, monthStart_eq_iff]
    have hkey : KlineType.day.start (getDayStart utc) d.timeSec ∈ (info.kline .day).keys :=
      h.mem_keys hd
    simp only [KlineType.start, length, hday] at hkey ⊢
    constructor
    · rintro ⟨⟨hle, hlt⟩, hstop⟩
      exact ⟨hkey, hle, by omega⟩
    · rintro ⟨-, hle, hlt⟩
      exact ⟨⟨hle, by omega⟩, by omega⟩
  have hbucket : bucket inMonth deals true = deals.filter inMonth := by
    unfold bucket
    simp
  rw [hbars, mergeBars_foldDeals, ← List.map_flatten, hflat, hbucket]
  rfl

/-- **The query for months replies a series** of the bars of the deals of each month. -/
theorem month_series (h : info.Counted exactDecimal (getDayStart utc) deals) (ho : InOrder deals)
    (start stop : ℤ) :
    ∃ before, NewestBefore (info.kline .day) (start - 86400 * 30) (monthStart utc start) before ∧
      MonthSeries exactDecimal (info.kline .day) utc (monthStart utc start) stop before
        (getMarketKlineMonth exactDecimal info utc start stop) ∧
      ∀ t, mergeBars exactDecimal (monthBars (info.kline .day) utc stop (monthStart utc t)) =
        foldBar exactDecimal (deals.filter fun d =>
          monthStart utc d.timeSec = monthStart utc t ∧ getDayStart utc d.timeSec ≤ stop) := by
  refine ⟨_, newestBefore_of_steps (by norm_num) fun t bar hbar => ?_,
    monthSeries_outputs h.midnight _, h.month ho stop⟩
  have hmidnight : 86400 ∣ monthStart utc start + utc :=
    ⟨monthDays (localMonth utc start).count, by unfold monthStart getMonthStart; ring⟩
  have hsub := dvd_sub hmidnight (h.midnight t bar hbar)
  rwa [add_sub_add_right_eq_sub] at hsub

/-- A deal in January, two in March, and the end of the query between these. -/
def monthDeals : List (DealMessage ℚ × ℚ) :=
  [(⟨86400 * 20 + 1 / 2, "BTCCNY", 10, 1, .ask, 1⟩, 0), (⟨86400 * 60, "BTCCNY", 12, 2, .bid, 2⟩, 0),
    (⟨86400 * 80, "BTCCNY", 9, 3, .ask, 3⟩, 0)]

/-- February repeats the close of January. -/
theorem month_series_three :
    (getMarketKlineMonth exactDecimal (MarketInfo.marketRun exactDecimal (getDayStart 3600)
      monthDeals) 3600 (86400 * 15) (86400 * 70)).map (fun p => (p.1, p.2.close, p.2.volume)) =
        [(-3600, 10, 1), (86400 * 31 - 3600, 10, 0), (86400 * 59 - 3600, 12, 2)] ∧
    ∃ before, MonthSeries exactDecimal ((MarketInfo.marketRun exactDecimal (getDayStart 3600)
      monthDeals).kline .day) 3600 (-3600) (86400 * 70) before
        (getMarketKlineMonth exactDecimal (MarketInfo.marketRun exactDecimal (getDayStart 3600)
          monthDeals) 3600 (86400 * 15) (86400 * 70)) := by
  have ho : InOrder (monthDeals.map Prod.fst) := by
    constructor
    · decide +kernel
    · decide +kernel
  obtain ⟨before, -, hseries, -⟩ := month_series
    (@MarketInfo.counted_run _ exactDecimal (getDayStart 3600) monthDeals) ho
    (86400 * 15) (86400 * 70)
  exact ⟨by decide +kernel, before, hseries⟩

end Results

end ViabtcExchange
