import ViabtcExchange.Flushes
import ViabtcExchange.KlineQuery

/-!
# The series of a kline query (`get_market_kline_sec`, `_min` and `_hour`)

A query replies one bar for each multiple of its interval: where there are fine bars in the
interval, these merged, and otherwise a flat bar at the close of the bar before. The first bar
before is looked for backwards, not further than bars are kept.

`KlineSeries` says so with no mention of the loops. **Theorem (`kline_series`).** In UTC the three
queries reply such a series, whatever is stored and whatever range is asked for.

The inner loops look at whole minutes and hours only. No bars are stored under other times, in
whatever way the process and its Redis came to them (`stored_run`).
-/

namespace ViabtcExchange

section Queries

variable {D : Type} (mpd : Mpd D)

def secGrid (now secMax start stop interval : ℤ) : Grid :=
  ⟨roundTo interval (max start (now - secMax)), stop, interval, 1⟩

/-- `now / 60 * 60 - settings.min_max * 60`. -/
def minMin (now minMax : ℤ) : ℤ := roundTo 60 now - minMax * 60

def minGrid (now minMax start stop interval : ℤ) : Grid :=
  ⟨roundTo interval (max start (minMin now minMax)), stop, interval, 60⟩

def getMarketKlineSec (info : MarketInfo D) (now secMax start stop interval : ℤ) :
    List (ℤ × Kline D) :=
  let g := secGrid now secMax start stop interval
  let kbefor := getLastKline (info.kline .sec) (g.first - 1) (now - secMax) 1
  outputs mpd (info.kline .sec) g kbefor g.starts

def getMarketKlineMin (info : MarketInfo D) (now minMax start stop interval : ℤ) :
    List (ℤ × Kline D) :=
  let g := minGrid now minMax start stop interval
  let kbefor := getLastKline (info.kline .min) (g.first - 60) (minMin now minMax) 60
  outputs mpd (info.kline .min) g kbefor g.starts

/-! ## A series -/

/-- Each bar is the merge of what is stored in its interval, or flat at the close before. -/
def Carried (bars : Dict ℤ (Kline D)) (interval : ℤ) : Option (Kline D) → List (ℤ × Kline D) → Prop
  | _, [] => True
  | before, (start, bar) :: out =>
    (match barsInside bars start interval with
      | [] => ∃ last, before = some last ∧ bar = .new mpd last.close
      | fine => mergeBars mpd fine = some bar) ∧
    Carried bars interval (some bar) out

/-- One bar for each multiple of the interval from `first` to `stop`, but for those before the first
close that is known. -/
structure KlineSeries (bars : Dict ℤ (Kline D)) (interval first stop : ℤ) (before : Option (Kline D))
    (out : List (ℤ × Kline D)) : Prop where
  multiple : ∀ p ∈ out, interval ∣ p.1 ∧ first ≤ p.1 ∧ p.1 ≤ stop
  gapless : out.IsChain fun p q => q.1 = p.1 + interval
  omitted : ∀ start, interval ∣ start → first ≤ start → start ≤ stop →
    (∃ p ∈ out, p.1 = start) ∨ before = none ∧ ∀ start', interval ∣ start' → first ≤ start' →
      start' ≤ start → barsInside bars start' interval = []
  carried : Carried mpd bars interval before out

/-- The newest bar that is stored before `first`, but not before `oldest`. -/
def NewestBefore (bars : Dict ℤ (Kline D)) (oldest first : ℤ) : Option (Kline D) → Prop
  | some bar => ∃ t, oldest ≤ t ∧ t < first ∧ bars.find t = some bar ∧
      ∀ t', t < t' → t' < first → bars.find t' = none
  | none => ∀ t, oldest ≤ t → t < first → bars.find t = none

/-- The series from the multiple at or before `start`, or where bars are kept from. -/
def SeriesFrom (bars : Dict ℤ (Kline D)) (interval oldest start stop : ℤ) (out : List (ℤ × Kline D)) :
    Prop :=
  ∃ first before, interval ∣ first ∧ first ≤ max start oldest ∧ max start oldest < first + interval ∧
    NewestBefore bars oldest first before ∧ KlineSeries mpd bars interval first stop before out

end Queries

section Lemmas

variable {D : Type} {mpd : Mpd D} {bars : Dict ℤ (Kline D)} {g : Grid} {starts : List ℤ}

/-- Bars are stored on a grid. -/
def StoredOn (bars : Dict ℤ (Kline D)) (unit : ℤ) : Prop := ∀ t bar, bars.find t = some bar → unit ∣ t

/-! ## The bars of an interval -/

/-- The inner loop meets all bars of the interval, in the order of their times. -/
theorem barsInside_eq (hunit : 0 < g.unit) (hdvd : g.unit ∣ g.interval)
    (hgrid : StoredOn bars g.unit) {start : ℤ} (hstart : g.unit ∣ start) :
    (g.keys start).filterMap bars.find = barsInside bars start g.interval := by
  have hfilter : (g.keys start).filterMap bars.find =
      ((g.keys start).filter fun t => t ∈ bars.keys).filterMap bars.find := by
    rw [List.filterMap_filter]
    refine List.filterMap_congr fun t _ => ?_
    by_cases ht : t ∈ bars.keys
    · simp [ht]
    · simp only [ht, decide_false, Bool.false_eq_true, if_false]
      rw [Finmap.mem_keys] at ht
      exact Dict.find_eq_none.mpr ht
  rw [hfilter]
  unfold barsInside
  congr 1
  refine List.SortedLT.eq_of_mem_iff ((Grid.pairwise_steps start hunit _).filter _).sortedLT
    (Finset.sortedLT_sort _) fun t => ?_
  rw [List.mem_filter, decide_eq_true_iff, Finset.mem_sort, Finset.mem_filter,
    Grid.mem_keys hunit hdvd]
  constructor
  · rintro ⟨⟨hle, hlt, -⟩, hmem⟩
    exact ⟨hmem, hle, hlt⟩
  · rintro ⟨hmem, hle, hlt⟩
    refine ⟨⟨hle, hlt, dvd_sub ?_ hstart⟩, hmem⟩
    rw [Finmap.mem_keys] at hmem
    cases hfind : bars.find t with
    | none => exact absurd hmem (Dict.find_eq_none.mp hfind)
    | some bar => exact hgrid t bar hfind

/-! ## The newest bar before -/

/-- The search backwards finds the newest bar, of bars that are stored in steps from `first`. -/
theorem newestBefore_of_steps {unit oldest first : ℤ} (hunit : 0 < unit)
    (hgrid : ∀ t bar, bars.find t = some bar → unit ∣ first - t) :
    NewestBefore bars oldest first (getLastKline bars (first - unit) oldest unit) := by
  have hmem : ∀ t, t ∈ ((List.range ((first - unit - oldest) / unit + 1).toNat).map
      fun i : ℕ => first - unit - i * unit) ↔ oldest ≤ t ∧ t < first ∧ unit ∣ first - t := by
    intro t
    have hiff := @Grid.exists_multiple_iff (first - unit - oldest) unit (first - unit - t) hunit
    have hdvd : unit ∣ first - unit - t ↔ unit ∣ first - t := by
      rw [sub_right_comm]
      exact dvd_sub_left (dvd_refl unit)
    have hlast : t < first ∧ unit ∣ first - t ↔ 0 ≤ first - unit - t ∧ unit ∣ first - t := by
      refine and_congr_left fun hon => ⟨fun hlt => ?_, fun hle => by omega⟩
      have hle := Int.le_of_dvd (by omega) hon
      omega
    simp only [List.mem_map, List.mem_range]
    rw [hlast, ← hdvd]
    constructor
    · rintro ⟨i, hi, rfl⟩
      obtain ⟨hle, hlow, hon⟩ := hiff.mp ⟨i, hi, by ring⟩
      exact ⟨by omega, hle, hon⟩
    · rintro ⟨hlow, hle, hon⟩
      obtain ⟨i, hi, heq⟩ := hiff.mpr ⟨hle, by omega, hon⟩
      exact ⟨i, hi, by omega⟩
  have hsorted : ((List.range ((first - unit - oldest) / unit + 1).toNat).map
      fun i : ℕ => first - unit - i * unit).Pairwise (· > ·) := by
    rw [List.pairwise_map]
    refine List.pairwise_lt_range.imp fun {i j} hij => ?_
    have hlt : (i : ℤ) * unit < j * unit := mul_lt_mul_of_pos_right (by exact_mod_cast hij) hunit
    omega
  unfold getLastKline
  cases hfind : ((List.range ((first - unit - oldest) / unit + 1).toNat).map
      fun i : ℕ => first - unit - i * unit).findSome? bars.find with
  | none =>
    rw [List.findSome?_eq_none_iff] at hfind
    intro t hle hlt
    cases hbar : bars.find t with
    | none => rfl
    | some bar => exact hbar.symm.trans (hfind t ((hmem t).mpr ⟨hle, hlt, hgrid t bar hbar⟩))
  | some bar =>
    obtain ⟨later, t, earlier, hlist, hbar, hnone⟩ := List.findSome?_eq_some_iff.mp hfind
    rw [hlist] at hsorted
    obtain ⟨hle, hlt, -⟩ := (hmem t).mp (hlist ▸ by simp)
    refine ⟨t, hle, hlt, hbar, fun t' hlt' hfirst' => ?_⟩
    cases hbar' : bars.find t' with
    | none => rfl
    | some bar' =>
      have hin := (hmem t').mpr ⟨by omega, hfirst', hgrid t' bar' hbar'⟩
      rw [hlist, List.mem_append, List.mem_cons] at hin
      rcases hin with hin | rfl | hin
      · exact hbar'.symm.trans (hnone t' hin)
      · exact absurd hlt' (lt_irrefl _)
      · have hgt := (List.pairwise_cons.mp (List.pairwise_append.mp hsorted).2.1).1 t' hin
        omega

theorem newestBefore_getLastKline {unit oldest first : ℤ} (hunit : 0 < unit)
    (hgrid : StoredOn bars unit) (hfirst : unit ∣ first) :
    NewestBefore bars oldest first (getLastKline bars (first - unit) oldest unit) :=
  newestBefore_of_steps hunit fun t bar hbar => dvd_sub hfirst (hgrid t bar hbar)

/-! ## The outer loop -/

theorem mergeBars_cons (bar : Kline D) (fine : List (Kline D)) :
    ∃ kinfo, mergeBars mpd (bar :: fine) = some kinfo := by
  unfold mergeBars
  induction fine using List.reverseRecOn with
  | nil => exact ⟨_, rfl⟩
  | append_singleton fine item _ =>
    rw [← List.cons_append, List.foldl_append]
    exact ⟨_, rfl⟩

variable (mpd) in
/-- The loop over the starts, given the bars of each interval. -/
def carry (fine : ℤ → List (Kline D)) : Option (Kline D) → List ℤ → List (ℤ × Kline D)
  | _, [] => []
  | klast, start :: starts =>
    match mergeBars mpd (fine start) with
    | some kinfo => (start, kinfo) :: carry fine (some kinfo) starts
    | none =>
      match klast with
      | none => carry fine none starts
      | some last =>
        let kinfo := Kline.new mpd last.close
        (start, kinfo) :: carry fine (some kinfo) starts

variable (mpd) in
/-- Each bar is the merge of the bars of its interval, or flat at the close before. -/
def CarriedFrom (fine : ℤ → List (Kline D)) : Option (Kline D) → List (ℤ × Kline D) → Prop
  | _, [] => True
  | before, (start, bar) :: out =>
    (match fine start with
      | [] => ∃ last, before = some last ∧ bar = .new mpd last.close
      | bars => mergeBars mpd bars = some bar) ∧
    CarriedFrom fine (some bar) out

/-- The loop omits intervals only before it has a close. -/
theorem carry_spec (fine : ℤ → List (Kline D)) (klast : Option (Kline D)) (starts : List ℤ) :
    ∃ skipped, starts = skipped ++ (carry mpd fine klast starts).map Prod.fst ∧
      (∀ start ∈ skipped, klast = none ∧ fine start = []) ∧
      CarriedFrom mpd fine klast (carry mpd fine klast starts) := by
  induction starts generalizing klast with
  | nil => exact ⟨[], rfl, nofun, trivial⟩
  | cons start starts ih =>
    -- once there is a close nothing is omitted any more
    have hmore : ∀ kinfo, starts = (carry mpd fine (some kinfo) starts).map Prod.fst ∧
        CarriedFrom mpd fine (some kinfo) (carry mpd fine (some kinfo) starts) := by
      intro kinfo
      obtain ⟨skipped, hskipped, hnone, hcarried⟩ := ih (some kinfo)
      obtain rfl : skipped = [] := List.eq_nil_iff_forall_not_mem.mpr fun start hmem =>
        absurd (hnone start hmem).1 (Option.some_ne_none kinfo)
      exact ⟨hskipped, hcarried⟩
    unfold carry
    cases hfine : fine start with
    | nil =>
      cases klast with
      | none =>
        obtain ⟨skipped, hskipped, hnone, hcarried⟩ := ih none
        refine ⟨start :: skipped, by rw [List.cons_append]; exact congrArg _ hskipped, ?_, hcarried⟩
        exact List.forall_mem_cons.mpr ⟨⟨rfl, hfine⟩, hnone⟩
      | some last =>
        obtain ⟨hstarts, hcarried⟩ := hmore (.new mpd last.close)
        refine ⟨[], congrArg (start :: ·) hstarts, nofun, ?_, hcarried⟩
        rw [hfine]
        exact ⟨last, rfl, rfl⟩
    | cons bar bars =>
      obtain ⟨kinfo, hkinfo⟩ := @mergeBars_cons _ mpd bar bars
      obtain ⟨hstarts, hcarried⟩ := hmore kinfo
      rw [hkinfo]
      refine ⟨[], congrArg (start :: ·) hstarts, nofun, ?_, hcarried⟩
      rw [hfine]
      exact hkinfo

theorem outputs_eq_carry (hbars : ∀ start ∈ starts, (g.keys start).filterMap bars.find =
      barsInside bars start g.interval) (klast : Option (Kline D)) :
    outputs mpd bars g klast starts =
      carry mpd (fun start => barsInside bars start g.interval) klast starts := by
  induction starts generalizing klast with
  | nil => rfl
  | cons start starts ih =>
    obtain ⟨hstart, hbars⟩ := List.forall_mem_cons.mp hbars
    unfold outputs carry
    rw [hstart]
    cases mergeBars mpd (barsInside bars start g.interval) with
    | some kinfo => exact congrArg _ (ih hbars _)
    | none =>
      cases klast with
      | none => exact ih hbars none
      | some last => exact congrArg _ (ih hbars _)

theorem carried_iff {interval : ℤ} {before : Option (Kline D)} {out : List (ℤ × Kline D)} :
    Carried mpd bars interval before out ↔
      CarriedFrom mpd (fun start => barsInside bars start interval) before out := by
  induction out generalizing before with
  | nil => exact Iff.rfl
  | cons p out ih => exact and_congr_right fun _ => ih

theorem outputs_spec (hbars : ∀ start ∈ starts, (g.keys start).filterMap bars.find =
      barsInside bars start g.interval) (klast : Option (Kline D)) :
    ∃ skipped, starts = skipped ++ (outputs mpd bars g klast starts).map Prod.fst ∧
      (∀ start ∈ skipped, klast = none ∧ barsInside bars start g.interval = []) ∧
      Carried mpd bars g.interval klast (outputs mpd bars g klast starts) := by
  rw [outputs_eq_carry hbars, carried_iff]
  exact carry_spec _ klast starts

/-! ## The whole query -/

/-- The output intervals come one after the other. -/
theorem isChain_starts (g : Grid) : g.starts.IsChain fun s s' => s' = s + g.interval := by
  unfold Grid.starts
  rw [List.isChain_map, List.isChain_range]
  intro i _
  push_cast
  ring

/-- A query on a grid of its interval replies a series. -/
theorem klineSeries_outputs (hpos : 0 < g.interval) (hunit : 0 < g.unit)
    (hdvd : g.unit ∣ g.interval) (hgrid : StoredOn bars g.unit) (hfirst : g.interval ∣ g.first)
    (before : Option (Kline D)) :
    KlineSeries mpd bars g.interval g.first g.stop before (outputs mpd bars g before g.starts) := by
  have hstarts : ∀ start, start ∈ g.starts ↔ g.first ≤ start ∧ start ≤ g.stop ∧
      g.interval ∣ start := by
    intro start
    rw [Grid.mem_starts hpos, dvd_sub_left hfirst]
  obtain ⟨skipped, hskipped, hnone, hcarried⟩ := @outputs_spec _ mpd _ _ _ (fun start hstart =>
    barsInside_eq hunit hdvd hgrid (hdvd.trans ((hstarts start).mp hstart).2.2)) before
  have hchain := isChain_starts g
  have hsorted : g.starts.Pairwise (· < ·) := Grid.pairwise_steps g.first hpos _
  rw [hskipped] at hchain hsorted
  refine ⟨fun p hp => ?_, ?_, fun start hon hlow hhigh => ?_, hcarried⟩
  · have hmem : p.1 ∈ g.starts := hskipped ▸ List.mem_append_right _ (List.mem_map_of_mem hp)
    obtain ⟨hlow, hhigh, hon⟩ := (hstarts p.1).mp hmem
    exact ⟨hon, hlow, hhigh⟩
  · exact (List.isChain_map _).mp (List.isChain_append.mp hchain).2.1
  · have hmem := (hstarts start).mpr ⟨hlow, hhigh, hon⟩
    rw [hskipped] at hmem
    rcases List.mem_append.mp hmem with hmem | hmem
    · refine Or.inr ⟨(hnone start hmem).1, fun start' hon' hlow' hle => ?_⟩
      have hmem' := (hstarts start').mpr ⟨hlow', hle.trans hhigh, hon'⟩
      rw [hskipped] at hmem'
      rcases List.mem_append.mp hmem' with hmem' | hmem'
      · exact (hnone start' hmem').2
      · exact absurd ((List.pairwise_append.mp hsorted).2.2 start hmem start' hmem')
          (not_lt.mpr hle)
    · obtain ⟨p, hp, rfl⟩ := List.mem_map.mp hmem
      exact Or.inl ⟨p, hp, rfl⟩

end Lemmas

/-! ## The three queries -/

/-- Where `on_cmd_market_kline` has each interval answered, below hours. -/
def secInterval (interval : ℤ) : Prop := 0 < interval ∧ interval < 60 ∧ 60 % interval = 0

def minInterval (interval : ℤ) : Prop :=
  60 ≤ interval ∧ interval < 3600 ∧ interval % 60 = 0 ∧ 3600 % interval = 0

/-- A time that is not negative is rounded down. -/
theorem roundTo_spec {unit t : ℤ} (hpos : 0 < unit) (ht : 0 ≤ t) :
    unit ∣ roundTo unit t ∧ roundTo unit t ≤ t ∧ t < roundTo unit t + unit := by
  rw [roundTo_eq ht]
  have hsplit := Int.ediv_mul_add_emod t unit
  have hnonneg := Int.emod_nonneg t hpos.ne'
  have hlt := Int.emod_lt_of_pos t hpos
  exact ⟨⟨t / unit, mul_comm _ _⟩, by omega, by omega⟩

/-- In UTC a day begins at a multiple of 86400. -/
theorem getDayStart_utc (t : ℤ) : 86400 ∣ getDayStart 0 t ∧ getDayStart 0 t ≤ t := by
  unfold getDayStart
  omega

theorem lt_advance {base interval start : ℤ} (hpos : 0 < interval) :
    start < advance base interval start + interval := by
  fun_induction advance base interval start with
  | case1 base hmore ih => exact ih
  | case2 base hdone => omega

/-! ## What is stored -/

section Stored

variable {D : Type} {mpd : Mpd D} {dayStart : ℤ → ℤ}

/-- The times of a type that are looked at are the multiples of this. -/
def KlineType.unit : KlineType → ℤ
  | .sec | .day => 1
  | .min => 60
  | .hour => 3600

/-- Minutes are stored under whole minutes, hours under whole hours. -/
def MarketInfo.Stored (info : MarketInfo D) : Prop :=
  ∀ type : KlineType, StoredOn (info.kline type) type.unit

theorem KlineType.unit_dvd_start (type : KlineType) (t : ℤ) :
    type.unit ∣ type.start dayStart t := by
  cases type with
  | sec => exact one_dvd _
  | min => exact ⟨t.tdiv 60, mul_comm _ _⟩
  | hour => exact ⟨t.tdiv 3600, mul_comm _ _⟩
  | day => exact one_dvd _

theorem MarketInfo.stored_create : (createMarket mpd).Stored := fun _ _ _ hfind => nomatch hfind

theorem MarketInfo.Stored.update {info : MarketInfo D} (h : info.Stored) (deal : DealMessage D)
    (now : ℚ) :
    (info.marketUpdate mpd dayStart deal now).Stored := by
  intro type start bar hfind
  rw [MarketInfo.kline_marketUpdate] at hfind
  split_ifs at hfind with hstart
  · rw [hstart]
    exact type.unit_dvd_start _
  · exact h type start bar hfind

/-- What Redis has is stored so too, -/
def Redis.Whole (r : Redis D) : Prop :=
  ∀ name (type : KlineType), StoredOn (r.kline name type) type.unit

/-- and what the process has of any market. -/
def MarketPrice.Whole (p : MarketPrice D) : Prop :=
  ∀ name info, p.dictMarket.find name = some info → info.Stored

theorem MarketPrice.Whole.insert {p : MarketPrice D} (h : p.Whole) {name : String}
    {info : MarketInfo D} (hinfo : info.Stored) :
    MarketPrice.Whole { p with dictMarket := p.dictMarket.insert name info } := by
  intro name' info' hfind
  rw [Dict.find_insert] at hfind
  split_ifs at hfind
  · obtain rfl := Option.some.inj hfind
    exact hinfo
  · exact h name' info' hfind

theorem Redis.Whole.hset {r : Redis D} (h : r.Whole) {name : String} {type : KlineType} {start : ℤ}
    {kinfo : Kline D} (hstart : type.unit ∣ start) (applied : Bool) :
    (r.hset name type start kinfo applied).Whole := by
  cases applied with
  | false => exact h
  | true =>
    intro name' type' start' bar hfind
    replace hfind := (bar_hset type type' start start' kinfo name').symm.trans hfind
    split_ifs at hfind with hsame
    · obtain ⟨-, rfl, rfl⟩ := hsame
      exact hstart
    · exact h name' type' start' bar hfind

open Wire

/-- A command that writes no bars. -/
theorem triple_send_whole {A : Answer → Prop} {P : Prop} {exec : Bool → Redis D → Redis D}
    (hexec : ∀ applied r, (exec applied r).kline = r.kline) :
    Triple A (fun r => P ∧ r.Whole) (send exec) (fun _ r => P ∧ r.Whole) Redis.Whole :=
  triple_send (fun _ h => h.2) fun r a h _ => ⟨h.1, by
    unfold Redis.Whole
    rw [hexec]
    exact h.2⟩

/-- A flush writes bars under their own times. -/
theorem triple_flushOne_whole {A : Answer → Prop} {info : MarketInfo D} (hinfo : info.Stored)
    (name : String) (keys : List UpdateMark) :
    Triple A Redis.Whole (flushOne name info keys) (fun res r => res.2.Stored ∧ r.Whole)
      Redis.Whole := by
  have hbar : ∀ key, Triple A Redis.Whole (flushKline name info key) (fun _ => Redis.Whole) Redis.Whole := by
    intro key
    unfold flushKline
    cases hfind : (info.kline key.1).find key.2 with
    | none => exact triple_pure fun _ h => h
    | some kinfo =>
      refine triple_bind (triple_send (fun _ h => h) fun _ a h _ => ?_) fun _ =>
        triple_pure fun _ h => h
      exact h.hset (hinfo key.1 key.2 kinfo hfind) a.applied
  have hupdate : Triple A Redis.Whole (flushUpdate name info keys)
      (fun info' r => info'.Stored ∧ r.Whole) Redis.Whole :=
    triple_bind (triple_forEach (I := fun _ => Redis.Whole) (fun key _ => hbar key) keys) fun _ =>
      triple_pure fun _ h => ⟨hinfo, h⟩
  refine triple_bind hupdate fun info' => triple_bind (triple_send_whole ?_) fun replied => ?_
  · intro applied r
    cases applied <;> rfl
  split_ifs
  · exact triple_pure fun _ h => h
  · refine triple_bind (triple_send_whole ?_) fun replied => ?_
    · intro applied r
      cases applied <;> rfl
    split_ifs
    · refine triple_bind (triple_send_whole ?_) fun _ => triple_pure fun _ h => h
      intro applied r
      cases applied <;> rfl
    · exact triple_pure fun _ h => h
  · exact triple_pure fun _ h => h

theorem triple_flushMarkets_whole {A : Answer → Prop} (entries : List (String × List UpdateMark)) :
    ∀ {p : MarketPrice D}, p.Whole → Triple A Redis.Whole (flushMarkets p entries)
      (fun res r => res.2.Whole ∧ r.Whole) Redis.Whole := by
  induction entries with
  | nil => exact fun hp => triple_pure fun _ h => ⟨hp, h⟩
  | cons entry entries ih =>
    intro p hp
    obtain ⟨name, keys⟩ := entry
    unfold flushMarkets
    cases hinfo : p.dictMarket.find name with
    | none => exact ih hp
    | some info =>
      dsimp only
      split_ifs
      · exact ih hp
      · refine triple_bind (triple_flushOne_whole (hp name info hinfo) name keys)
          fun res r answers h hA => ?_
        have hput : MarketPrice.Whole { p with dictMarket := p.dictMarket.insert name res.2 } :=
          hp.insert h.1
        split_ifs
        · exact ih hput r answers h.2 hA
        · exact ⟨⟨hput, h.2⟩, hA⟩

theorem triple_flushMarket_whole {A : Answer → Prop} {p : MarketPrice D} (hp : p.Whole)
    (entries : List (String × List UpdateMark)) (now : ℚ) :
    Triple A Redis.Whole (flushMarket p entries now) (fun p' r => p'.Whole ∧ r.Whole)
      Redis.Whole := by
  refine triple_bind (triple_flushMarkets_whole entries hp) fun res => ?_
  split_ifs
  · refine triple_bind (triple_send_whole ?_) fun replied => triple_pure fun r h => ⟨?_, h.2⟩
    · intro applied r
      cases applied <;> rfl
    · split_ifs <;> exact h.1
  · exact triple_pure fun _ h => h

/-- What Redis has is loaded under its times. -/
theorem MarketPrice.whole_initMessage {c : PriceSettings D} {r : Redis D} {now : ℤ}
    {p : MarketPrice D} (hstart : initMessage c r now = some p) (h : r.Whole) : p.Whole := by
  have hload : ∀ name, (loadMarket c r now name).Stored := fun name type start bar hfind =>
    h name type start bar (Dict.find_filter_eq_some.mp hfind).1
  dsimp only [initMessage] at hstart
  split_ifs at hstart
  obtain rfl := Option.some.inj hstart
  intro name info
  dsimp only
  induction c.markets using List.reverseRecOn with
  | nil => exact nofun
  | append_singleton names name' ih =>
    rw [List.foldl_append]
    intro hfind
    replace hfind := (Dict.find_insert _ _ _ _).symm.trans hfind
    split_ifs at hfind
    · obtain rfl := Option.some.inj hfind
      exact hload name'
    · exact ih hfind

/-- **No bars are stored under other times**, in whatever run. -/
theorem stored_run {c : PriceSettings D} {log : List Json} {ok : PriceWorld D → PriceAct → Prop}
    {w₀ w : PriceWorld D} (hreached : PriceWorld.Reached c log ok w₀ w) (hredis : w₀.redis.Whole)
    (hprocess : ∀ p, w₀.process = some p → p.Whole) :
    w.redis.Whole ∧ ∀ p, w.process = some p → p.Whole := by
  induction hreached with
  | refl => exact ⟨hredis, hprocess⟩
  | step _ _ hstep ih =>
    obtain ⟨hredis, hprocess⟩ := ih
    cases hstep with
    | start _ hinit =>
      refine ⟨hredis, fun p hp => ?_⟩
      obtain rfl := Option.some.inj hp
      exact MarketPrice.whole_initMessage hinit hredis
    | @message r clock now p message _ _ =>
      refine ⟨hredis, fun p' hp' => ?_⟩
      obtain rfl := Option.some.inj hp'
      have hp := hprocess p rfl
      unfold MarketPrice.onDealsMessage
      cases readDeal c.mpd message with
      | none => exact hp
      | some deal =>
        refine hp.insert (MarketInfo.Stored.update ?_ deal now)
        cases hinfo : p.dictMarket.find deal.market with
        | none => exact MarketInfo.stored_create
        | some info => exact hp _ info hinfo
    | @flush r clock now p entries answers _ _ =>
      have hres := triple_flushMarket_whole (A := fun _ => True) (hprocess p rfl) entries
        now r answers hredis fun _ _ => trivial
      rcases hflush : flushMarket p entries now r answers with ⟨r', _ | ⟨p', answers'⟩⟩
      · rw [hflush] at hres
        exact ⟨hres, nofun⟩
      · rw [hflush] at hres
        refine ⟨hres.1.2, fun p'' hp'' => ?_⟩
        obtain rfl := Option.some.inj hp''
        exact hres.1.1
    | crash => exact ⟨hredis, nofun⟩

end Stored

section Claims

variable {D : Type} {mpd : Mpd D}

variable (mpd) in
/-- **The queries reply a series.** -/
theorem kline_series {info : MarketInfo D} (hstored : info.Stored)
    (now secMax minMax hourMax start stop : ℤ) (hstart : 0 < start) :
    (∀ interval, secInterval interval →
      SeriesFrom mpd (info.kline .sec) interval (now - secMax) start stop
        (getMarketKlineSec mpd info now secMax start stop interval)) ∧
    (∀ interval, minInterval interval →
      SeriesFrom mpd (info.kline .min) interval (minMin now minMax) start stop
        (getMarketKlineMin mpd info now minMax start stop interval)) ∧
    (∀ interval, hourInterval interval →
      SeriesFrom mpd (info.kline .hour) interval (hourMin now hourMax) start stop
        (getMarketKlineHour mpd info 0 now hourMax start stop interval)) := by
  have hround : ∀ interval oldest, 0 < interval → interval ∣ roundTo interval (max start oldest) ∧
      roundTo interval (max start oldest) ≤ max start oldest ∧
        max start oldest < roundTo interval (max start oldest) + interval :=
    fun interval oldest hpos => roundTo_spec hpos (hstart.le.trans (le_max_left _ _))
  refine ⟨fun interval hint => ?_, fun interval hint => ?_, fun interval hint => ?_⟩
  · obtain ⟨hon, hle, hlt⟩ := hround interval (now - secMax) hint.1
    have hgrid : StoredOn (info.kline .sec) 1 := fun t _ _ => one_dvd t
    exact ⟨_, _, hon, hle, hlt, newestBefore_getLastKline (by norm_num) hgrid (one_dvd _),
      klineSeries_outputs (g := secGrid now secMax start stop interval) hint.1
        (show (0 : ℤ) < 1 by norm_num) (one_dvd _) hgrid hon _⟩
  · have hpos : 0 < interval := lt_of_lt_of_le (by norm_num) hint.1
    have hunit : 60 ∣ interval := Int.dvd_of_emod_eq_zero hint.2.2.1
    have hgrid : StoredOn (info.kline .min) 60 := hstored .min
    obtain ⟨hon, hle, hlt⟩ := hround interval (minMin now minMax) hpos
    exact ⟨_, _, hon, hle, hlt,
      newestBefore_getLastKline (by norm_num) hgrid (hunit.trans hon),
      klineSeries_outputs (g := minGrid now minMax start stop interval) hpos
        (show (0 : ℤ) < 60 by norm_num) hunit hgrid hon _⟩
  · obtain ⟨hlow, -, hhour, hday⟩ := id hint
    have hpos : 0 < interval := lt_of_lt_of_le (by norm_num) hlow
    have hunit : 3600 ∣ interval := Int.dvd_of_emod_eq_zero hhour
    have hgrid : StoredOn (info.kline .hour) 3600 := hstored .hour
    obtain ⟨hmidnight, hbase⟩ := getDayStart_utc (max start (hourMin now hourMax))
    obtain ⟨hle, hsteps⟩ := @advance_spec _ interval _ hbase
    -- midnight is a multiple of the interval, and so is every step from it on
    have hon := (dvd_sub_left ((Int.dvd_of_emod_eq_zero hday).trans hmidnight)).mp hsteps
    exact ⟨_, _, hon, hle, lt_advance hpos,
      newestBefore_getLastKline (by norm_num) hgrid (hunit.trans hon),
      klineSeries_outputs (g := hourGrid 0 (hourMin now hourMax) start stop interval) hpos
        (show (0 : ℤ) < 3600 by norm_num) hunit hgrid hon _⟩

/-- The minutes without a deal repeat the close. -/
theorem kline_series_three :
    (getMarketKlineMin exactDecimal (MarketInfo.marketRun exactDecimal (getDayStart 0)
      MarketInfo.exampleDeals) 7500 60 7000 7400 60).map (fun p => (p.1, p.2.close, p.2.volume)) =
        [(7140, 12, 3), (7200, 12, 0), (7260, 9, 3), (7320, 9, 0), (7380, 9, 0)] ∧
    SeriesFrom exactDecimal ((MarketInfo.marketRun exactDecimal (getDayStart 0)
      MarketInfo.exampleDeals).kline .min) 60 (minMin 7500 60) 7000 7400
        (getMarketKlineMin exactDecimal (MarketInfo.marketRun exactDecimal (getDayStart 0)
          MarketInfo.exampleDeals) 7500 60 7000 7400 60) := by
  have hstored :
      (MarketInfo.marketRun exactDecimal (getDayStart 0) MarketInfo.exampleDeals).Stored :=
    ((MarketInfo.stored_create.update _ _).update _ _).update _ _
  refine ⟨by decide +kernel, ?_⟩
  exact (kline_series exactDecimal hstored 7500 0 60 0 7000 7400 (by norm_num)).2.1 60
    (by unfold minInterval; norm_num)

end Claims

end ViabtcExchange
