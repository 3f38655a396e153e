import ViabtcExchange.CachedReplies
import ViabtcExchange.DealsStream
import ViabtcExchange.MonthKlines

/-!
# The server of marketprice (`mp_server.c`)

marketprice answers about the markets from what it keeps of them. The figures and the bars are kept
as answers too, under the number of the command and the body of the request, and are given again as
long as they are not too old. The parameters are looked at before that, the interval of bars after
it.

**Theorem (`replies_recent`).** Whatever happens to the markets, and in whatever order clients ask:
an error is what a server without a cache would answer now, and any other answer is what it would
have answered to the same request not longer ago than the timeout.
-/

namespace ViabtcExchange

/-- The results. -/
inductive MarketReply (D : Type)
  | status (status : MarketStatus D)
  | kline (bars : List (ℤ × Kline D))
  | deals (deals : List (DealMessage D))
  | last (last : D)
  | today (status : TodayStatus D)
deriving DecidableEq

inductive MarketCommand
  | marketStatus
  | marketKline
  | marketDeals
  | marketLast
  | marketStatusToday
deriving DecidableEq

def MarketCommand.code : MarketCommand → ℕ
  | marketStatus => 301
  | marketKline => 302
  | marketDeals => 303
  | marketLast => 304
  | marketStatusToday => 305

/-- `utc` is the offset of the zone, as `price.dayStart` has it. -/
structure MarketSettings (D : Type) where
  price : PriceSettings D
  utc : ℤ
  cacheTimeout : ℚ
  loadb : String → Option Json

structure MarketServer (D : Type) where
  price : MarketPrice D
  cache : TimedCache String (MarketReply D)

variable {D : Type}

/-! ## The parameters -/

section Read

variable (c : MarketSettings D) (p : MarketPrice D) (now : ℤ) (params : List Json)

/-- `market_exist`. -/
def infoAt (i : ℕ) : Except Refusal (MarketInfo D) := do
  let market ← stringAt params i
  match p.dictMarket.find market with
  | some info => .ok info
  | none => .error .invalid

def readMarketStatus : Except Refusal (MarketInfo D × ℤ) := do
  check (params.length = 2)
  let info ← infoAt p params 0
  let period := toInt32 (Json.integerValue params[(1 : ℕ)]?)
  check (!(period ≤ 0 ∨ period > c.price.secMax))
  return (info, period)

/-- What a query of bars asks for. -/
structure KlineArgs (D : Type) where
  info : MarketInfo D
  start : ℤ
  stop : ℤ
  interval : ℤ

def readMarketKline : Except Refusal (KlineArgs D) := do
  check (params.length = 4)
  let info ← infoAt p params 0
  let start := Json.integerValue params[(1 : ℕ)]?
  check (!(start ≤ 0))
  let stop := min (Json.integerValue params[(2 : ℕ)]?) now
  check (!(stop ≤ 0 ∨ start > stop))
  let interval := toInt32 (Json.integerValue params[(3 : ℕ)]?)
  check (!(interval ≤ 0))
  return ⟨info, start, stop, interval⟩

structure DealsArgs (D : Type) where
  info : MarketInfo D
  limit : ℕ
  lastId : ℕ

def readMarketDeals : Except Refusal (DealsArgs D) := do
  check (params.length = 3)
  let info ← infoAt p params 0
  let limit := toInt32 (Json.integerValue params[(1 : ℕ)]?)
  check (!(limit ≤ 0 ∨ limit > marketDealsMax))
  let lastId ← integerAt params 2
  return ⟨info, limit.toNat, toUint64 lastId⟩

def readOneMarket : Except Refusal (MarketInfo D) := do
  check (params.length = 1)
  infoAt p params 0

end Read

/-- The bars of a query. Which intervals there are depends on how long they are. -/
def klineReply (c : MarketSettings D) (now : ℤ) (args : KlineArgs D) :
    Except Refusal (MarketReply D) :=
  let ⟨info, start, stop, interval⟩ := args
  let mpd := c.price.mpd
  if interval < 60 then do
    check (60 % interval = 0)
    return .kline (getMarketKlineSec mpd info now c.price.secMax start stop interval)
  else if interval < 3600 then do
    check (!(interval % 60 ≠ 0 ∨ 3600 % interval ≠ 0))
    return .kline (getMarketKlineMin mpd info now c.price.minMax start stop interval)
  else if interval < 86400 then do
    check (!(interval % 3600 ≠ 0 ∨ 86400 % interval ≠ 0))
    return .kline (getMarketKlineHour mpd info c.utc now c.price.hourMax start stop interval)
  else if interval < 86400 * 7 then do
    check (interval % 86400 = 0)
    return .kline (getMarketKlineDay mpd info c.utc start stop interval)
  else if interval = 86400 * 7 then
    .ok (.kline (getMarketKlineWeek mpd info c.utc start stop interval))
  else if interval = 86400 * 30 then
    .ok (.kline (getMarketKlineMonth mpd info c.utc start stop))
  else .error .invalid

/-! ## The server -/

namespace MarketServer

section Commands

variable (c : MarketSettings D) (m : MarketServer D) (now : ℚ) (key : String) (params : List Json)

def onCmdMarketStatus : TimedCache String (MarketReply D) × Except Refusal (MarketReply D) :=
  onParams m.cache (readMarketStatus c m.price params) fun args =>
    cachedReply c.cacheTimeout now m.cache key
      (.ok (.status (args.1.getMarketStatus c.price.mpd ⌊now⌋ args.2)))

def onCmdMarketKline : TimedCache String (MarketReply D) × Except Refusal (MarketReply D) :=
  onParams m.cache (readMarketKline m.price ⌊now⌋ params) fun args =>
    cachedReply c.cacheTimeout now m.cache key (klineReply c ⌊now⌋ args)

def onCmdMarketDeals : TimedCache String (MarketReply D) × Except Refusal (MarketReply D) :=
  onParams m.cache (readMarketDeals m.price params) fun args =>
    (m.cache, .ok (.deals (getMarketDeals args.limit args.lastId args.info.dealsJson 0)))

def onCmdMarketLast : TimedCache String (MarketReply D) × Except Refusal (MarketReply D) :=
  onParams m.cache (readOneMarket m.price params) fun info => (m.cache, .ok (.last info.last))

def onCmdMarketStatusToday : TimedCache String (MarketReply D) × Except Refusal (MarketReply D) :=
  onParams m.cache (readOneMarket m.price params) fun info =>
    cachedReply c.cacheTimeout now m.cache key
      (.ok (.today (info.getMarketStatusToday c.price.mpd c.price.dayStart ⌊now⌋)))

def onCmd : MarketCommand → TimedCache String (MarketReply D) × Except Refusal (MarketReply D)
  | .marketStatus => m.onCmdMarketStatus c now key params
  | .marketKline => m.onCmdMarketKline c now key params
  | .marketDeals => m.onCmdMarketDeals params
  | .marketLast => m.onCmdMarketLast params
  | .marketStatusToday => m.onCmdMarketStatusToday c now key params

/-- `svr_on_recv_pkg`, of a command that is known: `none` closes the connection. -/
def onRecvPkg (command : MarketCommand) (body : String) :
    MarketServer D × Option (Except Refusal (MarketReply D)) :=
  let key := toString command.code ++ body
  let r := onBody c.loadb m.cache body fun params => m.onCmd c now key params command
  ({ m with cache := r.1 }, r.2)

/-- `on_cache_timer`. -/
def onCacheTimer : MarketServer D := { m with cache := ∅ }

end Commands

end MarketServer

/-- What a server answers that keeps nothing. -/
def MarketPrice.reply (c : MarketSettings D) (p : MarketPrice D) (now : ℚ) (command : MarketCommand)
    (body : String) : Option (Except Refusal (MarketReply D)) :=
  ((⟨p, ∅⟩ : MarketServer D).onRecvPkg c now command body).2

/-! ## Runs -/

/-- The server with the clock. The markets as they were are recorded for the theorems only. -/
structure MarketWorld (D : Type) where
  server : MarketServer D
  clock : ℚ
  past : List (ℚ × MarketPrice D)

namespace MarketWorld

/-- One step. Messages and timers may make anything of the markets. -/
inductive Step (c : MarketSettings D) : MarketWorld D → MarketWorld D → Prop
  | price {w : MarketWorld D} (p : MarketPrice D) :
    Step c w { w with server := { w.server with price := p }, past := (w.clock, p) :: w.past }
  | wait {w : MarketWorld D} {now : ℚ} : w.clock ≤ now →
      Step c w { w with clock := now, past := (now, w.server.price) :: w.past }
  | request {w : MarketWorld D} (command : MarketCommand) (body : String) :
    Step c w { w with server := (w.server.onRecvPkg c w.clock command body).1 }
  | cacheTimer {w : MarketWorld D} : Step c w { w with server := w.server.onCacheTimer }

inductive Reached (c : MarketSettings D) : MarketWorld D → Prop
  | start (p : MarketPrice D) (clock : ℚ) : Reached c ⟨⟨p, ∅⟩, clock, [(clock, p)]⟩
  | step {w w' : MarketWorld D} : Reached c w → Step c w w' → Reached c w'

end MarketWorld

/-! ## As a server with a cache -/

namespace MarketCommand

/-- What is looked at before the cache. -/
def accepts (c : MarketSettings D) (p : MarketPrice D) (now : ℤ) (params : List Json) :
    MarketCommand → Except Refusal Unit
  | marketStatus => (readMarketStatus c p params).map fun _ => ()
  | marketKline => (readMarketKline p now params).map fun _ => ()
  | marketStatusToday => (readOneMarket p params).map fun _ => ()
  | marketDeals | marketLast => .ok ()

def computes (c : MarketSettings D) (p : MarketPrice D) (now : ℤ) (params : List Json) :
    MarketCommand → Except Refusal (MarketReply D)
  | marketStatus => do
    let args ← readMarketStatus c p params
    return .status (args.1.getMarketStatus c.price.mpd now args.2)
  | marketKline => do klineReply c now (← readMarketKline p now params)
  | marketDeals => do
    let args ← readMarketDeals p params
    return .deals (getMarketDeals args.limit args.lastId args.info.dealsJson 0)
  | marketLast => do return .last (← readOneMarket p params).last
  | marketStatusToday => do
    return .today ((← readOneMarket p params).getMarketStatusToday c.price.mpd c.price.dayStart now)

def kept : MarketCommand → Bool
  | marketStatus | marketKline | marketStatusToday => true
  | marketDeals | marketLast => false

end MarketCommand

section Server

variable (c : MarketSettings D)

def marketServer : CachingServer (MarketPrice D) (MarketCommand × String) String (Option Refusal)
    (MarketReply D) where
  timeout := c.cacheTimeout
  accept p now q := withParams c.loadb q.2 fun params => q.1.accepts c p ⌊now⌋ params
  key q := if q.1.kept then some (toString q.1.code ++ q.2) else none
  compute p now q := withParams c.loadb q.2 fun params => q.1.computes c p ⌊now⌋ params

end Server

variable {c : MarketSettings D}

section Command

variable {m : MarketServer D} {now : ℚ} {command : MarketCommand} {body : String}
  {params : List Json}

/-- Each command is asked for in one of the two ways. -/
theorem onCmd_eq (hbody : c.loadb body = some (.array params)) :
    let r := m.onCmd c now (toString command.code ++ body) params command
    let a := (marketServer c).answer m.price now m.cache (command, body)
    (r.1, some r.2) = (a.1, sent a.2) := by
  have haccept : (marketServer c).accept m.price now (command, body) =
      (command.accepts c m.price ⌊now⌋ params).mapError some := withParams_array hbody
  have hcompute : (marketServer c).compute m.price now (command, body) =
      (command.computes c m.price ⌊now⌋ params).mapError some := withParams_array hbody
  have hkey : command.kept = true →
      (marketServer c).key (command, body) = some (toString command.code ++ body) := fun h => if_pos h
  cases command with
  | marketStatus =>
    exact @kept_eq _ _ _ _ (marketServer c) _ _ _ m.cache (readMarketStatus c m.price params)
      (fun args => .ok (.status (args.1.getMarketStatus c.price.mpd ⌊now⌋ args.2))) _ (hkey rfl) haccept
      hcompute
  | marketKline =>
    exact @kept_eq _ _ _ _ (marketServer c) _ _ _ m.cache (readMarketKline m.price ⌊now⌋ params)
      (klineReply c ⌊now⌋) _ (hkey rfl) haccept hcompute
  | marketDeals =>
    exact @direct_eq _ _ _ _ (marketServer c) _ _ _ m.cache (readMarketDeals m.price params)
      (fun args => .deals (getMarketDeals args.limit args.lastId args.info.dealsJson 0)) rfl haccept
      hcompute
  | marketLast =>
    exact @direct_eq _ _ _ _ (marketServer c) _ _ _ m.cache (readOneMarket m.price params)
      (fun info => .last info.last) rfl haccept hcompute
  | marketStatusToday =>
    exact @kept_eq _ _ _ _ (marketServer c) _ _ _ m.cache (readOneMarket m.price params)
      (fun info => .ok (.today (info.getMarketStatusToday c.price.mpd c.price.dayStart ⌊now⌋)))
      _ (hkey rfl) haccept hcompute

/-- **The server is one with a cache.** -/
theorem onRecvPkg_eq : m.onRecvPkg c now command body =
    let a := (marketServer c).answer m.price now m.cache (command, body)
    (⟨m.price, a.1⟩, sent a.2) := by
  unfold MarketServer.onRecvPkg onBody
  dsimp only
  split
  · rename_i params hbody
    rw [onCmd_eq hbody]
  · rename_i hbody
    have hclosed : (marketServer c).accept m.price now (command, body) = .error none :=
      withParams_closed hbody
    rw [closed_eq hclosed]

end Command

/-- What the server answers that keeps nothing. -/
theorem reply_eq (p : MarketPrice D) (now : ℚ) (command : MarketCommand) (body : String) :
    p.reply c now command body = sent ((marketServer c).fresh p now (command, body)) := by
  unfold MarketPrice.reply
  rw [onRecvPkg_eq]
  exact answer_empty

/-! ## A key says what is asked -/

theorem length_code (command : MarketCommand) : (toString command.code).toList.length = 3 := by
  cases command <;> rfl

theorem code_injective {command command' : MarketCommand}
    (h : toString command.code = toString command'.code) : command = command' := by
  cases command <;> cases command' <;> first | rfl | exact absurd h (by decide)

theorem append_code_injective {command command' : MarketCommand} {body body' : String}
    (h : toString command.code ++ body = toString command'.code ++ body') :
    (command, body) = (command', body') := by
  have hlist := congrArg String.toList h
  rw [String.toList_append, String.toList_append] at hlist
  obtain ⟨hcode, hbody⟩ := List.append_inj hlist
    ((length_code command).trans (length_code command').symm)
  rw [code_injective (String.toList_inj.mp hcode), String.toList_inj.mp hbody]

theorem readMarketKline_interval {p : MarketPrice D} {now : ℤ} {params : List Json}
    {args : KlineArgs D} (h : readMarketKline p now params = .ok args) :
    args.interval = toInt32 (Json.integerValue params[(3 : ℕ)]?) := by
  simp only [readMarketKline, read_bind] at h
  obtain ⟨-, -, info, -, -, -, -, -, -, -, h⟩ := h
  rw [← Except.ok.inj h]

/-- Whether there are bars depends on the interval only. -/
theorem klineReply_ok {now now' : ℤ} {args args' : KlineArgs D} {reply : MarketReply D}
    (hinterval : args'.interval = args.interval) (h : klineReply c now args = .ok reply) :
    ∃ reply', klineReply c now' args' = .ok reply' := by
  obtain ⟨info, start, stop, interval⟩ := args
  obtain ⟨info', start', stop', interval'⟩ := args'
  obtain rfl : interval' = interval := hinterval
  unfold klineReply at h ⊢
  dsimp only at h ⊢
  split_ifs at h ⊢
  all_goals first
    | exact ⟨_, rfl⟩
    | cases h
    | (obtain ⟨u, hu, -⟩ := read_bind.mp h
       exact ⟨_, by rw [hu]; rfl⟩)

/-- What was answered once can be answered whenever it passes the checks. -/
theorem computes_ok {p p' : MarketPrice D} {now now' : ℤ} {params : List Json}
    {command : MarketCommand} {reply : MarketReply D} (hkept : command.kept = true)
    (h : command.computes c p now params = .ok reply)
    (haccept : command.accepts c p' now' params = .ok ()) :
    ∃ reply', command.computes c p' now' params = .ok reply' := by
  cases command with
  | marketDeals => cases hkept
  | marketLast => cases hkept
  | marketStatus =>
    obtain ⟨args, hargs⟩ := map_ok haccept
    exact ⟨_, read_bind.mpr ⟨args, hargs, rfl⟩⟩
  | marketStatusToday =>
    obtain ⟨args, hargs⟩ := map_ok haccept
    exact ⟨_, read_bind.mpr ⟨args, hargs, rfl⟩⟩
  | marketKline =>
    obtain ⟨args, hargs, hreply⟩ := read_bind.mp h
    obtain ⟨args', hargs'⟩ := map_ok haccept
    obtain ⟨reply', hreply'⟩ := @klineReply_ok D c now now' args args' _
      ((readMarketKline_interval hargs').trans (readMarketKline_interval hargs).symm) hreply
    exact ⟨reply', read_bind.mpr ⟨args', hargs', hreply'⟩⟩

theorem lawful_marketServer : (marketServer c).Lawful where
  key_inj := by
    rintro ⟨command, body⟩ ⟨command', body'⟩ key h h'
    simp only [marketServer, Option.ite_none_right_eq_some, Option.some.injEq] at h h'
    exact append_code_injective (h.2.trans h'.2.symm)
  stable := by
    rintro ⟨command, body⟩ p p' now now' reply e hkey h haccept herror
    have hkept : command.kept = true := by
      by_contra hnot
      exact hkey (if_neg hnot)
    obtain ⟨params, hbody, hreply⟩ := withParams_ok h
    obtain ⟨params', hbody', hok⟩ := withParams_ok haccept
    obtain rfl : params = params' := by
      rw [hbody] at hbody'
      exact (Json.array.inj (Option.some.inj hbody'))
    obtain ⟨reply', hreply'⟩ := computes_ok hkept hreply hok
    have hcompute : (marketServer c).compute p' now' (command, body) = .ok reply' := by
      rw [show (marketServer c).compute p' now' (command, body) = _ from withParams_array hbody,
        hreply']
      rfl
    rw [hcompute] at herror
    cases herror

/-! ## What is answered -/

namespace MarketWorld

variable {w w' : MarketWorld D}

def toCaching (w : MarketWorld D) : CachingServer.World (MarketPrice D) String (MarketReply D) :=
  ⟨w.server.price, w.clock, w.server.cache, w.past⟩

theorem toCaching_step (h : Step c w w') :
    (marketServer c).Step (fun _ _ => True) w.toCaching w'.toCaching := by
  cases h with
  | price p => exact .change trivial
  | wait hle => exact .wait hle
  | request command body =>
    have hask : (marketServer c).Step (fun _ _ => True) w.toCaching _ := .ask (command, body)
    unfold toCaching at hask ⊢
    rw [onRecvPkg_eq]
    exact hask
  | cacheTimer => exact .clear

theorem toCaching_reached (h : Reached c w) :
    (marketServer c).Reached (fun _ _ => True) (fun _ => True) w.toCaching := by
  induction h with
  | start p clock => exact .start trivial
  | step _ hstep ih => exact .step ih (toCaching_step hstep)

theorem past_subset (h : Step c w w') : w.past ⊆ w'.past := by
  cases h with
  | price p => exact List.subset_cons_self _ _
  | wait _ => exact List.subset_cons_self _ _
  | request command body => exact List.Subset.refl _
  | cacheTimer => exact List.Subset.refl _

/-- A result is what would have been answered within the timeout. -/
theorem result_recent (hgood : (marketServer c).Good w.toCaching) (htimeout : 0 ≤ c.cacheTimeout)
    {command : MarketCommand} {body : String} {result : MarketReply D}
    (hresult : (w.server.onRecvPkg c w.clock command body).2 = some (.ok result)) :
    ∃ time p, (time, p) ∈ w.past ∧ w.clock - c.cacheTimeout ≤ time ∧ time ≤ w.clock ∧
      p.reply c time command body = some (.ok result) := by
  have hrecent := CachingServer.answer_recent lawful_marketServer htimeout hgood (command, body)
  rw [onRecvPkg_eq] at hresult
  simp only [toCaching] at hrecent
  rw [sent_ok.mp hresult] at hrecent
  obtain ⟨-, time, p, hp, hle, hle', hfresh⟩ := hrecent
  exact ⟨time, p, hp, hle, hle', by rw [reply_eq, hfresh]; rfl⟩

/-- **Answers are not too old**: an error is what would be answered now, and a result what would
have been answered to the same request within the timeout. -/
theorem replies_recent (htimeout : 0 ≤ c.cacheTimeout) (hrun : Reached c w)
    (command : MarketCommand) (body : String) :
    match (w.server.onRecvPkg c w.clock command body).2 with
    | some (.ok result) =>
      (∃ result', w.server.price.reply c w.clock command body = some (.ok result')) ∧
        ∃ time p, (time, p) ∈ w.past ∧ w.clock - c.cacheTimeout ≤ time ∧ time ≤ w.clock ∧
          p.reply c time command body = some (.ok result)
    | reply => w.server.price.reply c w.clock command body = reply := by
  have hrecent := CachingServer.answer_recent lawful_marketServer htimeout
    (toCaching_reached hrun).good (command, body)
  have hanswer := congrArg Prod.snd (@onRecvPkg_eq D c w.server w.clock command body)
  simp only [toCaching] at hrecent
  simp only [hanswer, reply_eq]
  cases ha : ((marketServer c).answer w.server.price w.clock w.server.cache (command, body)).2 with
  | error e =>
    rw [ha] at hrecent
    dsimp only at hrecent
    rw [hrecent]
    cases e <;> rfl
  | ok result =>
    rw [ha] at hrecent
    obtain ⟨⟨result', hnow⟩, time, p, hp, hle, hle', hfresh⟩ := hrecent
    refine ⟨⟨result', by rw [hnow]; rfl⟩, time, p, hp, hle, hle', ?_⟩
    rw [hfresh]
    rfl

/-! ## An answer from the cache -/

def exampleMarketSettings : MarketSettings ℚ where
  price := ⟨exactDecimal, getDayStart 0, 86400, 1440, 720, ["BTCCNY"]⟩
  utc := 0
  cacheTimeout := 1 / 2
  loadb _ := some (.array [.string "BTCCNY", .integer 60])

/-- A market with a last price. -/
def pricedAt (last : ℚ) : MarketPrice ℚ where
  dictMarket := (∅ : Dict String (MarketInfo ℚ)).insert "BTCCNY"
    { createMarket exactDecimal with last := last }
  lastFlush := 0
  lastOffset := 0
  position := 0

/-- The figures are asked for, and then the price goes up. -/
def exampleMarketWorld : MarketWorld ℚ where
  server := { (((⟨pricedAt 5, ∅⟩ : MarketServer ℚ).onRecvPkg exampleMarketSettings 100 .marketStatus
    "body").1) with price := pricedAt 6 }
  clock := 401 / 4
  past := [(401 / 4, pricedAt 6), (100, pricedAt 6), (100, pricedAt 5)]

theorem exampleMarketWorld_reached : Reached exampleMarketSettings exampleMarketWorld :=
  .step (.step (.step (.start (pricedAt 5) 100) (.request .marketStatus "body")) (.price (pricedAt 6)))
    (.wait (by norm_num))

/-- The last price is still the one before. -/
theorem replies_recent_before :
    (∃ status, (exampleMarketWorld.server.onRecvPkg exampleMarketSettings exampleMarketWorld.clock
      .marketStatus "body").2 = some (.ok (.status status)) ∧ status.last = 5) ∧
    ∃ status, status.last = 5 ∧ ∃ time p, (time, p) ∈ exampleMarketWorld.past ∧ 399 / 4 ≤ time ∧
      p.reply exampleMarketSettings time .marketStatus "body" = some (.ok (.status status)) := by
  have hreply : (exampleMarketWorld.server.onRecvPkg exampleMarketSettings exampleMarketWorld.clock
      .marketStatus "body").2 = some (.ok (.status ⟨60, 5, 0, 0, 0, 0, 0, 0⟩)) := by
    decide +kernel
  have hrecent := replies_recent (by decide +kernel) exampleMarketWorld_reached .marketStatus "body"
  rw [hreply] at hrecent
  obtain ⟨-, time, p, hp, hle, -, hfresh⟩ := hrecent
  refine ⟨⟨_, hreply, rfl⟩, _, rfl, time, p, hp, ?_, hfresh⟩
  have hclock : exampleMarketWorld.clock - exampleMarketSettings.cacheTimeout = 399 / 4 := by
    decide +kernel
  rwa [hclock] at hle

end MarketWorld

end ViabtcExchange
