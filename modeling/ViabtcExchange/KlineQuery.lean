import ViabtcExchange.MarketKlines

/-!
# Kline queries and time zones (`mp_message.c`, `ut_misc.c`)

A query walks over a grid: output intervals one after the other, and in each of them the keys of the
bars it merges. The bars of hours are stored at whole hours of UTC, those of days at the midnights
of `localtime` and `mktime`. The grids start at a midnight of `get_day_start`, or at a day of
`settings.timezone`, which `get_timezone_offset` makes of the hour and the day of the epoch alone.

**Theorem (`bars_found_iff`).** The queries find the bars if and only if local time is whole hours
ahead of UTC, or behind it.
-/

namespace ViabtcExchange

/-! ## The time zone -/

/-- The day of the month, of a number of days since the epoch. -/
def monthDay (days : ℤ) : ℤ :=
  let z := days + 719468
  let doe := z % 146097
  let yoe := (doe - doe / 1460 + doe / 36524 - doe / 146096) / 365
  let doy := doe - (365 * yoe + yoe / 4 - yoe / 100)
  let mp := (5 * doy + 2) / 153
  doy - (153 * mp + 2) / 5 + 1

example : [-1, 0, 30, 31, 58, 59, 789].map monthDay = [31, 1, 31, 1, 28, 1, 29] := by decide

/-- `tm_hour` of `localtime`. -/
def localHour (utc timestamp : ℤ) : ℤ := (timestamp + utc) % 86400 / 3600

/-- `get_timezone_offset`. -/
def getTimezoneOffset (utc : ℤ) : ℤ :=
  if monthDay ((0 + utc) / 86400) = 1 then -localHour utc 0 * 3600 else (24 - localHour utc 0) * 3600

/-! ## Walks -/

/-- The output intervals of a query: from `first` on, as long as they do not begin after `stop`. The
bars of an interval are `unit` apart. -/
structure Grid where
  first : ℤ
  stop : ℤ
  interval : ℤ
  unit : ℤ

namespace Grid

/-- `for (; start <= end; start += interval)`. -/
def starts (g : Grid) : List ℤ :=
  (List.range ((g.stop - g.first) / g.interval + 1).toNat).map fun i : ℕ => g.first + i * g.interval

/-- `for (int i = 0; i < step; ++i)`. -/
def keys (g : Grid) (start : ℤ) : List ℤ :=
  (List.range (g.interval / g.unit).toNat).map fun i : ℕ => start + i * g.unit

end Grid

section Queries

variable {D : Type} (mpd : Mpd D)

/-- `get_last_kline`: the first bar on the way back from `start` to `stop`. -/
def getLastKline (bars : Dict ℤ (Kline D)) (start stop interval : ℤ) : Option (Kline D) :=
  ((List.range ((start - stop) / interval + 1).toNat).map fun i : ℕ => start - i * interval).findSome?
    bars.find

/-- The loop of a query. An interval without bars repeats the last price, if there is one. -/
def outputs (bars : Dict ℤ (Kline D)) (g : Grid) (klast : Option (Kline D)) :
    List ℤ → List (ℤ × Kline D)
  | [] => []
  | start :: starts =>
    match mergeBars mpd ((g.keys start).filterMap bars.find) with
    | some kinfo => (start, kinfo) :: outputs bars g (some kinfo) starts
    | none =>
      match klast with
      | none => outputs bars g none starts
      | some last =>
        let kinfo := Kline.new mpd last.close
        (start, kinfo) :: outputs bars g (some kinfo) starts

/-- `while ((base + interval) <= start) base += interval;` -/
def advance (base interval start : ℤ) : ℤ :=
  if 0 < interval ∧ base + interval ≤ start then advance (base + interval) interval start else base
termination_by (start - base).toNat
decreasing_by omega

/-- `now / 3600 * 3600 - settings.hour_max * 3600`. -/
def hourMin (now hourMax : ℤ) : ℤ := roundTo 3600 now - hourMax * 3600

def hourGrid (utc startMin start stop interval : ℤ) : Grid :=
  let start := max start startMin
  ⟨advance (getDayStart utc start) interval start, stop, interval, 3600⟩

def dayGrid (utc start stop interval : ℤ) : Grid :=
  let timezone := getTimezoneOffset utc
  ⟨roundTo interval (start - timezone) + timezone, stop, interval, 86400⟩

def weekGrid (utc start stop interval : ℤ) : Grid :=
  let timezone := getTimezoneOffset utc
  let base := roundTo interval (start - timezone) - 3 * 86400 + timezone
  ⟨advance base interval start, stop, interval, 86400⟩

def getMarketKlineHour (info : MarketInfo D) (utc now hourMax start stop interval : ℤ) :
    List (ℤ × Kline D) :=
  let g := hourGrid utc (hourMin now hourMax) start stop interval
  let kbefor := getLastKline (info.kline .hour) (g.first - 3600) (hourMin now hourMax) 3600
  outputs mpd (info.kline .hour) g kbefor g.starts

def getMarketKlineDay (info : MarketInfo D) (utc start stop interval : ℤ) : List (ℤ × Kline D) :=
  let g := dayGrid utc start stop interval
  let kbefor := getLastKline (info.kline .day) (g.first - 86400) (g.first - 86400 * 30) 86400
  outputs mpd (info.kline .day) g kbefor g.starts

def getMarketKlineWeek (info : MarketInfo D) (utc start stop interval : ℤ) : List (ℤ × Kline D) :=
  let g := weekGrid utc start stop interval
  let kbefor := getLastKline (info.kline .day) (g.first - 86400) (g.first - 86400 * 30) 86400
  outputs mpd (info.kline .day) g kbefor g.starts

end Queries

/-! ## What a walk finds -/

namespace Grid

/-- A key is visited in exactly one output interval, and lies in it. -/
structure Finds (g : Grid) (key : ℤ) : Prop where
  once : ∃! start, start ∈ g.starts ∧ key ∈ g.keys start
  inside : ∀ start ∈ g.starts, key ∈ g.keys start → start ≤ key ∧ key < start + g.interval

variable {g : Grid} {key start : ℤ}

/-- The multiples of `interval` from 0 to `n`. -/
theorem exists_multiple_iff {n interval x : ℤ} (hpos : 0 < interval) :
    (∃ i : ℕ, i < (n / interval + 1).toNat ∧ (i : ℤ) * interval = x) ↔
      0 ≤ x ∧ x ≤ n ∧ interval ∣ x := by
  constructor
  · rintro ⟨i, hi, rfl⟩
    have hle : (i : ℤ) ≤ n / interval := by omega
    have hmul : (i : ℤ) * interval ≤ n := (Int.le_ediv_iff_mul_le hpos).mp hle
    exact ⟨by positivity, hmul, ⟨i, by ring⟩⟩
  · rintro ⟨hzero, hn, k, hk⟩
    have hk0 : 0 ≤ k := by
      by_contra hneg
      have hlt : interval * k < 0 := mul_neg_of_pos_of_neg hpos (not_le.mp hneg)
      omega
    have hle : k ≤ n / interval := by
      rw [Int.le_ediv_iff_mul_le hpos, mul_comm]
      omega
    refine ⟨k.toNat, by omega, ?_⟩
    rw [Int.toNat_of_nonneg hk0, mul_comm]
    omega

/-- Steps from `first` on go up. -/
theorem pairwise_steps (first : ℤ) {interval : ℤ} (hpos : 0 < interval) (n : ℕ) :
    ((List.range n).map fun i : ℕ => first + i * interval).Pairwise (· < ·) := by
  rw [List.pairwise_map]
  refine List.pairwise_lt_range.imp fun {i j} hij => ?_
  have hlt : (i : ℤ) * interval < j * interval :=
    mul_lt_mul_of_pos_right (by exact_mod_cast hij) hpos
  omega

theorem mem_starts (hpos : 0 < g.interval) : start ∈ g.starts ↔
    g.first ≤ start ∧ start ≤ g.stop ∧ g.interval ∣ start - g.first := by
  have hiff := @exists_multiple_iff (g.stop - g.first) g.interval (start - g.first) hpos
  unfold starts
  simp only [List.mem_map, List.mem_range]
  rw [sub_nonneg, sub_le_sub_iff_right] at hiff
  rw [← hiff]
  exact exists_congr fun i => and_congr_right fun _ => ⟨fun h => by omega, fun h => by omega⟩

theorem mem_keys (hunit : 0 < g.unit) (hdvd : g.unit ∣ g.interval) : key ∈ g.keys start ↔
    start ≤ key ∧ key < start + g.interval ∧ g.unit ∣ key - start := by
  obtain ⟨n, hn⟩ := hdvd
  have hdiv : g.interval / g.unit = n := by
    rw [hn, Int.mul_ediv_cancel_left _ hunit.ne']
  unfold keys
  simp only [List.mem_map, List.mem_range, hdiv]
  constructor
  · rintro ⟨i, hi, rfl⟩
    have hin : (i : ℤ) < n := by omega
    have hmul : (i : ℤ) * g.unit < g.interval := by
      rw [hn, mul_comm]
      exact mul_lt_mul_of_pos_left hin hunit
    have hnonneg : 0 ≤ (i : ℤ) * g.unit := by positivity
    exact ⟨by omega, by omega, ⟨i, by ring⟩⟩
  · rintro ⟨hle, hlt, k, hk⟩
    have hk0 : 0 ≤ k := by
      by_contra hneg
      have hneg : g.unit * k < 0 := mul_neg_of_pos_of_neg hunit (not_le.mp hneg)
      omega
    have hkn : k < n := by
      have hmul : g.unit * k < g.unit * n := by omega
      exact lt_of_mul_lt_mul_left hmul hunit.le
    refine ⟨k.toNat, by omega, ?_⟩
    rw [Int.toNat_of_nonneg hk0, mul_comm]
    omega

/-- A walk finds what lies behind its start on its own grid. -/
theorem finds_iff (hpos : 0 < g.interval) (hunit : 0 < g.unit) (hdvd : g.unit ∣ g.interval)
    (hstop : key ≤ g.stop) : g.Finds key ↔ g.first ≤ key ∧ g.unit ∣ key - g.first := by
  constructor
  · rintro ⟨⟨start, ⟨hstart, hkey⟩, -⟩, -⟩
    obtain ⟨hfirst, -, hgrid⟩ := (mem_starts hpos).mp hstart
    obtain ⟨hle, -, hon⟩ := (mem_keys hunit hdvd).mp hkey
    refine ⟨hfirst.trans hle, ?_⟩
    have hsum := dvd_add hon (hdvd.trans hgrid)
    rwa [sub_add_sub_cancel] at hsum
  · rintro ⟨hfirst, hgrid⟩
    have hmod := Int.emod_nonneg (key - g.first) hpos.ne'
    have hlt := Int.emod_lt_of_pos (key - g.first) hpos
    have hsplit := Int.emod_add_mul_ediv (key - g.first) g.interval
    have hmodle : (key - g.first) % g.interval ≤ key - g.first := by
      have hdiv : 0 ≤ (key - g.first) / g.interval := Int.ediv_nonneg (by omega) hpos.le
      have hmul := mul_nonneg hpos.le hdiv
      omega
    set start := key - (key - g.first) % g.interval with hstart
    have honStart : g.interval ∣ start - g.first := ⟨(key - g.first) / g.interval, by omega⟩
    refine ⟨⟨start, ⟨?_, ?_⟩, ?_⟩, fun start' _ hkey => ?_⟩
    · exact (mem_starts hpos).mpr ⟨by omega, by omega, honStart⟩
    · refine (mem_keys hunit hdvd).mpr ⟨by omega, by omega, ?_⟩
      have hdiff := dvd_sub hgrid (hdvd.trans honStart)
      rwa [sub_sub_sub_cancel_right] at hdiff
    · rintro start' ⟨hstart', hkey⟩
      obtain ⟨-, -, hon'⟩ := (mem_starts hpos).mp hstart'
      obtain ⟨hle', hlt', -⟩ := (mem_keys hunit hdvd).mp hkey
      have hdiff : g.interval ∣ start' - start := by
        have hsub := dvd_sub hon' honStart
        rwa [sub_sub_sub_cancel_right] at hsub
      have hzero := Int.eq_zero_of_abs_lt_dvd hdiff (abs_lt.mpr ⟨by omega, by omega⟩)
      omega
    · obtain ⟨hle, hlt, -⟩ := (mem_keys hunit hdvd).mp hkey
      exact ⟨hle, hlt⟩

end Grid

/-! ## Where the walks begin -/

theorem advance_spec {base interval start : ℤ} (hle : base ≤ start) :
    advance base interval start ≤ start ∧ interval ∣ advance base interval start - base := by
  fun_induction advance base interval start with
  | case1 base hmore ih =>
    obtain ⟨hend, hgrid⟩ := ih hmore.2
    refine ⟨hend, ?_⟩
    have hsum := dvd_add hgrid (dvd_refl interval)
    rwa [sub_add_eq_sub_sub, sub_add_cancel] at hsum
  | case2 base _ => exact ⟨hle, by simp⟩

/-- `settings.timezone` forgets the minutes, and is less than a day. -/
theorem timezone_spec (utc : ℤ) : 86400 ∣ getTimezoneOffset utc + utc / 3600 * 3600 ∧
    -86400 < getTimezoneOffset utc ∧ getTimezoneOffset utc ≤ 86400 := by
  unfold getTimezoneOffset localHour
  split_ifs <;> omega

theorem roundTo_le {unit t : ℤ} (hpos : 0 < unit) (ht : 0 ≤ t) :
    roundTo unit t ≤ t ∧ unit ∣ roundTo unit t := by
  rw [roundTo_eq ht]
  exact ⟨Int.ediv_mul_le t hpos.ne', ⟨t / unit, mul_comm _ _⟩⟩

/-- Less than a unit before zero is rounded to zero. -/
theorem roundTo_neg {unit t : ℤ} (ht : t < 0) (hlt : -unit < t) : roundTo unit t = 0 := by
  unfold roundTo
  have hneg : t.tdiv unit = 0 := by
    rw [← neg_neg t, Int.neg_tdiv, Int.tdiv_eq_zero_of_lt (by omega) (by omega), neg_zero]
  rw [hneg, zero_mul]

section Found

variable {utc startMin start stop interval t : ℤ}

/-- Hours are found where the midnights are whole hours. -/
theorem hour_found_iff (ht : 0 ≤ t) (hstart : start ≤ t) (hstop : t ≤ stop)
    (hmin : startMin ≤ KlineType.hour.start (getDayStart utc) t) (hon : 3600 ∣ startMin)
    (hpos : 0 < interval) (hunit : 3600 ∣ interval) :
    (hourGrid utc startMin start stop interval).Finds (KlineType.hour.start (getDayStart utc) t) ↔
      3600 ∣ utc := by
  have hkey : KlineType.hour.start (getDayStart utc) t = t / 3600 * 3600 := roundTo_eq ht
  have hbase : getDayStart utc (max start startMin) ≤ max start startMin := by
    unfold getDayStart
    omega
  obtain ⟨hle, hgrid⟩ := @advance_spec _ interval _ hbase
  rw [hkey] at hmin ⊢
  have hkeyStop : t / 3600 * 3600 ≤ stop := by omega
  rw [Grid.finds_iff (g := hourGrid utc startMin start stop interval) hpos
    (show (0 : ℤ) < 3600 by norm_num) hunit hkeyStop]
  have hfirst : (hourGrid utc startMin start stop interval).first =
      advance (getDayStart utc (max start startMin)) interval (max start startMin) := rfl
  have hday : 3600 ∣ getDayStart utc (max start startMin) + utc := by
    unfold getDayStart
    omega
  rw [← hfirst] at hle hgrid
  have hgrid := hunit.trans hgrid
  show _ ∧ (3600 : ℤ) ∣ _ ↔ _
  omega

/-- The keys of days are at the midnights. -/
theorem day_key_mod (utc t : ℤ) : 86400 ∣ KlineType.day.start (getDayStart utc) t + utc ∧
    KlineType.day.start (getDayStart utc) t ≤ t ∧
      t < KlineType.day.start (getDayStart utc) t + 86400 := by
  simp only [KlineType.start, getDayStart]
  omega

/-- Days are found where the midnights are whole hours, from local 1970 on. -/
theorem day_found_iff (hstart : start ≤ t) (hstop : t ≤ stop) (hzero : 0 < start)
    (hpos : 86400 ≤ interval) (hunit : 86400 ∣ interval) :
    (dayGrid utc start stop interval).Finds (KlineType.day.start (getDayStart utc) t) ↔
      3600 ∣ utc ∧ getTimezoneOffset utc ≤ t := by
  obtain ⟨hmod, hle, hlt⟩ := day_key_mod utc t
  obtain ⟨hzone, hlow, hhigh⟩ := timezone_spec utc
  set key := KlineType.day.start (getDayStart utc) t
  set timezone := getTimezoneOffset utc with htz
  have hkeyStop : key ≤ stop := by omega
  rw [Grid.finds_iff (g := dayGrid utc start stop interval) (show 0 < interval by omega)
    (show (0 : ℤ) < 86400 by norm_num) hunit hkeyStop]
  have hfirst : (dayGrid utc start stop interval).first =
      roundTo interval (start - timezone) + timezone := rfl
  show _ ∧ (86400 : ℤ) ∣ _ ↔ _
  rw [hfirst]
  rcases lt_or_ge (start - timezone) 0 with hneg | hnonneg
  · rw [roundTo_neg hneg (by omega)]
    omega
  · obtain ⟨hround, hgrid⟩ := @roundTo_le interval (start - timezone) (by omega) hnonneg
    have hgrid := hunit.trans hgrid
    omega

/-- Weeks as well, from any time on. -/
theorem week_found_iff (hstart : start ≤ t) (hstop : t ≤ stop) (hzero : 0 < start) :
    (weekGrid utc start stop (86400 * 7)).Finds (KlineType.day.start (getDayStart utc) t) ↔
      3600 ∣ utc := by
  obtain ⟨hmod, hle, hlt⟩ := day_key_mod utc t
  obtain ⟨hzone, hlow, hhigh⟩ := timezone_spec utc
  set key := KlineType.day.start (getDayStart utc) t
  set timezone := getTimezoneOffset utc with htz
  have hkeyStop : key ≤ stop := by omega
  have hround : roundTo (86400 * 7) (start - timezone) - 3 * 86400 + timezone ≤ start ∧
      86400 ∣ roundTo (86400 * 7) (start - timezone) := by
    rcases lt_or_ge (start - timezone) 0 with hneg | hnonneg
    · rw [roundTo_neg hneg (by omega)]
      omega
    · obtain ⟨hround, hgrid⟩ := @roundTo_le (86400 * 7) (start - timezone) (by omega) hnonneg
      omega
  obtain ⟨hfirstLe, hgrid⟩ := @advance_spec _ (86400 * 7) _ hround.1
  rw [Grid.finds_iff (g := weekGrid utc start stop (86400 * 7)) (show (0 : ℤ) < 86400 * 7 by norm_num)
    (show (0 : ℤ) < 86400 by norm_num) (show (86400 : ℤ) ∣ 86400 * 7 from ⟨7, rfl⟩) hkeyStop]
  have hfirst : (weekGrid utc start stop (86400 * 7)).first = advance (roundTo (86400 * 7)
      (start - timezone) - 3 * 86400 + timezone) (86400 * 7) start := rfl
  show _ ∧ (86400 : ℤ) ∣ _ ↔ _
  rw [← hfirst] at hfirstLe hgrid
  omega

end Found

section Claims

variable {D : Type}

/-- Where `on_cmd_market_kline` has each interval answered. -/
def hourInterval (interval : ℤ) : Prop :=
  3600 ≤ interval ∧ interval < 86400 ∧ interval % 3600 = 0 ∧ 86400 % interval = 0

def dayInterval (interval : ℤ) : Prop :=
  86400 ≤ interval ∧ interval < 86400 * 7 ∧ interval % 86400 = 0

/-- **Bars are found where local time is whole hours from UTC.** A deal in the range of a query has
its bars under these keys (`kline_marketUpdate`). -/
theorem bars_found_iff (utc now hourMax start stop : ℤ) (d : DealMessage D)
    (hd : 0 ≤ d.timestamp) (hnow : 0 ≤ now) (hzero : 0 < start) (hstart : start ≤ d.timeSec)
    (hstop : d.timeSec ≤ stop) :
    (∀ interval, hourInterval interval →
      hourMin now hourMax ≤ KlineType.hour.start (getDayStart utc) d.timeSec →
        ((hourGrid utc (hourMin now hourMax) start stop interval).Finds
          (KlineType.hour.start (getDayStart utc) d.timeSec) ↔ 3600 ∣ utc)) ∧
    (∀ interval, dayInterval interval →
      ((dayGrid utc start stop interval).Finds (KlineType.day.start (getDayStart utc) d.timeSec) ↔
        3600 ∣ utc ∧ getTimezoneOffset utc ≤ d.timeSec)) ∧
    ((weekGrid utc start stop (86400 * 7)).Finds (KlineType.day.start (getDayStart utc) d.timeSec) ↔
      3600 ∣ utc) := by
  have ht : 0 ≤ d.timeSec := (timeSec_mono hd le_rfl).1
  refine ⟨fun interval hint hmin => ?_, fun interval hint => ?_, week_found_iff hstart hstop hzero⟩
  · obtain ⟨hlow, -, hunit, -⟩ := hint
    have hon : 3600 ∣ hourMin now hourMax := by
      unfold hourMin
      rw [roundTo_eq hnow]
      omega
    exact hour_found_iff ht hstart hstop hmin hon (by omega) (Int.dvd_of_emod_eq_zero hunit)
  · obtain ⟨hlow, -, hunit⟩ := hint
    exact day_found_iff hstart hstop hzero hlow (Int.dvd_of_emod_eq_zero hunit)

def exampleDeal : DealMessage ℚ := ⟨1500000000 + 1 / 2, "BTCCNY", 10, 1, .ask, 1⟩

theorem bars_found_beijing :
    (hourGrid 28800 (hourMin 1500000060 87600) 1499999000 1500000060 7200).Finds 1499997600 ∧
      (dayGrid 28800 1499999000 1500000060 86400).Finds 1499961600 ∧
        (weekGrid 28800 1499999000 1500000060 (86400 * 7)).Finds 1499961600 := by
  have hhour : KlineType.hour.start (getDayStart 28800) exampleDeal.timeSec = 1499997600 := by
    decide +kernel
  have hday : KlineType.day.start (getDayStart 28800) exampleDeal.timeSec = 1499961600 := by
    decide +kernel
  obtain ⟨hours, days, weeks⟩ := bars_found_iff 28800 1500000060 87600 1499999000 1500000060
    exampleDeal (by decide +kernel) (by norm_num) (by norm_num) (by decide +kernel)
    (by decide +kernel)
  rw [hhour] at hours
  rw [hday] at days weeks
  refine ⟨(hours 7200 (by unfold hourInterval; omega) (by decide +kernel)).mpr (by norm_num), ?_,
    weeks.mpr (by norm_num)⟩
  exact (days 86400 (by unfold dayInterval; omega)).mpr ⟨by norm_num, by decide +kernel⟩

/-- **Half an hour is forgotten**: five and a half hours east of UTC, no bar of an hour is found. -/
theorem bars_not_found : ¬ ∀ (utc now hourMax start stop interval : ℤ) (d : DealMessage ℚ),
    0 ≤ d.timestamp → 0 ≤ now → 0 < start → start ≤ d.timeSec → d.timeSec ≤ stop →
      hourInterval interval →
        hourMin now hourMax ≤ KlineType.hour.start (getDayStart utc) d.timeSec →
          (hourGrid utc (hourMin now hourMax) start stop interval).Finds
            (KlineType.hour.start (getDayStart utc) d.timeSec) := by
  intro hall
  have hfound := hall 19800 1500000060 87600 1499999000 1500000060 3600 exampleDeal
    (by decide +kernel) (by norm_num) (by norm_num) (by decide +kernel) (by decide +kernel)
    (by unfold hourInterval; omega) (by decide +kernel)
  have hzone := (hour_found_iff (t := exampleDeal.timeSec) (by decide +kernel) (by decide +kernel)
    (by decide +kernel) (by decide +kernel) (by decide +kernel) (by norm_num) (by norm_num)).mp
      hfound
  exact absurd hzone (by norm_num)

end Claims

end ViabtcExchange
