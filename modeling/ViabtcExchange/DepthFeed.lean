import ViabtcExchange.BookDepth
import ViabtcExchange.CachedReplies
import ViabtcExchange.DepthSync
import ViabtcExchange.NumberTexts
import ViabtcExchange.OrderQuery

/-!
# The depth of a market, from its book to the subscribers

matchengine makes a depth of the book of a market (`on_cmd_order_book_depth`), and gives it again to
who asks the same soon after. accessws asks for the depths that somebody has subscribed to, and sends
its subscribers what changed. In between are orders, other clients, and replies that are late or
lost.

`GoodDepth`, which `depth_in_sync` asks of the replies, is what matchengine sends
(`goodDepth_of_writes`).

**Theorem (`depth_feed`).** In exact decimals, a subscriber that was told a depth has the groups of
the book of the market as it was at one moment, and that was not longer before the reply was made
than the timeout.
-/

namespace ViabtcExchange

/-! ## matchengine -/

section Server

variable {D : Type} (mpd : DivMpd D)

structure DepthArgs (D : Type) where
  market : Market D
  limit : ℕ
  interval : D

def Engine.readOrderBookDepth (e : Engine D) (params : List Json) : Except Refusal (DepthArgs D) := do
  check (params.length = 3)
  let (_, m) ← marketAt params e.dictMarket 0
  let limit ← integerAt params 1
  check (!(toUint64 limit > orderBookMaxLen))
  let interval ← decimalAt mpd.toMpd params m.moneyPrec 2
  check (!(mpd.cmp interval mpd.zero < 0))
  return ⟨m, toUint64 limit, interval⟩

def DepthArgs.depth (args : DepthArgs D) : MarketDepth D :=
  if mpd.cmp args.interval mpd.zero = 0 then getDepth mpd args.market args.limit
  else getDepthMerge mpd args.market args.limit args.interval

/-- matchengine, of its depths. -/
structure BookServer (D : Type) where
  engine : Engine D
  cache : TimedCache String (MarketDepth D)

/-- The settings of matchengine, and JSON and numbers as texts. -/
structure DepthWire where
  cacheTimeout : ℚ
  loadb : String → Option Json
  dumps : List Json → String
  toSci : FiniteDecimal → Numeral

variable (wire : DepthWire) (b : BookServer D) (now : ℚ) (key : String) (params : List Json)

def BookServer.onCmdOrderBookDepth :
    TimedCache String (MarketDepth D) × Except Refusal (MarketDepth D) :=
  onParams b.cache (b.engine.readOrderBookDepth mpd params) fun args =>
    cachedReply wire.cacheTimeout now b.cache key (.ok (args.depth mpd))

/-- `svr_on_recv_pkg`, of `CMD_ORDER_BOOK_DEPTH`. -/
def BookServer.onRecvPkg (body : String) :
    BookServer D × Option (Except Refusal (MarketDepth D)) :=
  let key := toString 206 ++ body
  let r := onBody wire.loadb b.cache body fun params => b.onCmdOrderBookDepth mpd wire now key params
  ({ b with cache := r.1 }, r.2)

end Server

/-! ## A depth in JSON -/

section Written

variable (toSci : FiniteDecimal → Numeral)

/-- A price and an amount. How many zeros a number has at its end is not in its value. -/
def WritesUnit (entry : ℚ × ℚ) (unit : Json) : Prop :=
  ∃ price amount : FiniteDecimal, price.value = entry.1 ∧ amount.value = entry.2 ∧
    unit = .array (jsonArrayAppendNewMpd toSci (jsonArrayAppendNewMpd toSci [] price) amount)

def WritesDepth (depth : MarketDepth ℚ) (json : Json) : Prop :=
  ∃ asks bids, List.Forall₂ (WritesUnit toSci) depth.asks asks ∧
    List.Forall₂ (WritesUnit toSci) depth.bids bids ∧
    json = .object [("asks", .array asks), ("bids", .array bids)]

variable {toSci} (htoSci : ∀ d, (toSci d).value = d.value)

include htoSci

theorem readUnit_writes {entry : ℚ × ℚ} {unit : Json} (h : WritesUnit toSci entry unit) :
    readUnit exactDecimal unit = some entry := by
  obtain ⟨price, amount, hprice, hamount, rfl⟩ := h
  have htexts : unitTexts (.array (jsonArrayAppendNewMpd toSci
      (jsonArrayAppendNewMpd toSci [] price) amount)) =
      some (mpdText toSci price, mpdText toSci amount) := rfl
  simp only [readUnit, htexts, Option.bind_eq_bind, Option.bind_some, decimal_exact htoSci, hprice,
    hamount]
  rfl

/-- An amount that is not zero is not written as one. -/
theorem amount_ne_zero {entry : ℚ × ℚ} {unit : Json} (h : WritesUnit toSci entry unit)
    (hne : entry.2 ≠ 0) : (unitTexts unit).map Prod.snd ≠ some "0" := by
  obtain ⟨price, amount, -, hamount, rfl⟩ := h
  intro htext
  have hread := decimal_exact htoSci amount
  have hzero : mpdText toSci amount = "0" := Option.some.inj htext
  rw [hzero, hamount] at hread
  have hvalue : exactDecimal.decimal "0" 0 = some 0 := by decide +kernel
  exact hne (Option.some.inj (hvalue.symm.trans hread)).symm

theorem sideEntries_writes {entries : List (ℚ × ℚ)} {units : List Json}
    (h : List.Forall₂ (WritesUnit toSci) entries units) :
    sideEntries exactDecimal (some (.array units)) = entries := by
  show units.filterMap (readUnit exactDecimal) = entries
  induction h with
  | nil => rfl
  | cons hunit _ ih => rw [List.filterMap_cons, readUnit_writes htoSci hunit, ih]

omit htoSci in
theorem exists_of_mem_units {entries : List (ℚ × ℚ)} {units : List Json}
    (h : List.Forall₂ (WritesUnit toSci) entries units) {unit : Json} (hunit : unit ∈ units) :
    ∃ entry ∈ entries, WritesUnit toSci entry unit := by
  induction h with
  | nil => cases hunit
  | @cons entry unit' entries units hwrites _ ih =>
    rcases List.mem_cons.mp hunit with rfl | hunit
    · exact ⟨entry, List.mem_cons_self, hwrites⟩
    · obtain ⟨entry', hentry', hwrites'⟩ := ih hunit
      exact ⟨entry', List.mem_cons_of_mem _ hentry', hwrites'⟩

/-- What is in order, and not too long, is a good side. -/
theorem goodSide_writes {entries : List (ℚ × ℚ)} {units : List Json} {side : ℤ} {limit : ℕ}
    (h : List.Forall₂ (WritesUnit toSci) entries units) (hpos : ∀ entry ∈ entries, 0 < entry.2)
    (hsorted : Change.Sorted (before side) entries) (hsize : entries.length ≤ limit) :
    GoodSide exactDecimal side limit (some (.array units)) where
  array := ⟨units, rfl⟩
  numbers unit hunit := by
    obtain ⟨entry, -, hwrites⟩ := exists_of_mem_units h hunit
    rw [readUnit_writes htoSci hwrites]
    rfl
  amounts unit hunit := by
    obtain ⟨entry, hentry, hwrites⟩ := exists_of_mem_units h hunit
    exact amount_ne_zero htoSci hwrites (hpos entry hentry).ne'
  sorted := by
    rw [sideEntries_writes htoSci h]
    exact hsorted
  size := h.length_eq ▸ hsize

end Written

/-! ## The groups of a depth -/

section Groups

/-- What the asks are grouped by. -/
def askGroup (interval p : ℚ) : ℚ := if interval = 0 then p else ceilTo interval p

/-- What the bids are grouped by. -/
def bidGroup (interval p : ℚ) : ℚ := if interval = 0 then p else floorTo interval p

variable {n : ℕ} {args : DepthArgs ℚ}

theorem showsGroups_asks (h : BookOk n args.market) (hi : 0 ≤ args.interval) :
    ShowsGroups (· < ·) (askGroup args.interval) (args.market.sideOrders .ask) args.limit
      (args.depth exactDivMpd).asks := by
  have hpairwise := pairwise_asks (h.wf.sorted .ask)
  have hcmp : exactDivMpd.cmp args.interval exactDivMpd.zero = 0 ↔ args.interval = 0 :=
    ratMpd_cmp_eq id _ _
  unfold DepthArgs.depth askGroup
  by_cases hzero : args.interval = 0
  · simp only [if_pos (hcmp.mpr hzero), if_pos hzero]
    refine showsGroups_depthLoop (hpairwise.imp fun {o o'} hle => ⟨hle.not_gt, ?_⟩) args.limit
    rw [decide_eq_true_eq]
    exact (ratMpd_cmp_eq id o.price o'.price).trans eq_comm
  · have hpos : 0 < args.interval := lt_of_le_of_ne hi (Ne.symm hzero)
    simp only [if_neg (mt hcmp.mp hzero), if_neg hzero]
    have hprice : ∀ o ∈ args.market.sideOrders .ask,
        mergeAsk exactDivMpd args.interval o.price = ceilTo args.interval o.price := fun o ho => by
      obtain ⟨i, hi, rfl⟩ := mem_sideOrders.mp ho
      exact mergeAsk_eq hpos (h.price .ask i hi)
    show ShowsGroups _ _ _ _ (depthLoop exactDivMpd (mergeAsk exactDivMpd args.interval) _ _ _)
    rw [depthLoop_congr _ _ hprice]
    refine showsGroups_depthLoop (hpairwise.imp fun {o o'} hle => ⟨(ceilTo_mono hpos hle).not_gt, ?_⟩)
      args.limit
    rw [decide_eq_true_eq]
    exact (ratMpd_cmp_nonneg id _ _).trans (le_ceilTo_iff hpos hle)

theorem showsGroups_bids (h : BookOk n args.market) (hi : 0 ≤ args.interval) :
    ShowsGroups (· > ·) (bidGroup args.interval) (args.market.sideOrders .bid) args.limit
      (args.depth exactDivMpd).bids := by
  have hpairwise := pairwise_bids (h.wf.sorted .bid)
  have hcmp : exactDivMpd.cmp args.interval exactDivMpd.zero = 0 ↔ args.interval = 0 :=
    ratMpd_cmp_eq id _ _
  unfold DepthArgs.depth bidGroup
  by_cases hzero : args.interval = 0
  · simp only [if_pos (hcmp.mpr hzero), if_pos hzero]
    refine showsGroups_depthLoop (hpairwise.imp fun {o o'} hle => ⟨hle.not_gt, ?_⟩) args.limit
    rw [decide_eq_true_eq]
    exact (ratMpd_cmp_eq id o.price o'.price).trans eq_comm
  · have hpos : 0 < args.interval := lt_of_le_of_ne hi (Ne.symm hzero)
    simp only [if_neg (mt hcmp.mp hzero), if_neg hzero]
    have hprice : ∀ o ∈ args.market.sideOrders .bid,
        mergeBid exactDivMpd args.interval o.price = floorTo args.interval o.price := fun o ho => by
      obtain ⟨i, hi, rfl⟩ := mem_sideOrders.mp ho
      exact mergeBid_eq hpos (h.price .bid i hi)
    show ShowsGroups _ _ _ _ (depthLoop exactDivMpd (mergeBid exactDivMpd args.interval) _ _ _)
    rw [depthLoop_congr _ _ hprice]
    refine showsGroups_depthLoop
      (hpairwise.imp fun {o o'} hle => ⟨(floorTo_mono hpos hle).not_gt, ?_⟩) args.limit
    rw [decide_eq_true_eq]
    exact (ratMpd_cmp_le id _ _).trans (floorTo_le_iff hpos hle)

theorem ShowsGroups.length_le {lt : ℚ → ℚ → Prop} {groupOf : ℚ → ℚ} {orders : List (Order ℚ)}
    {limit : ℕ} {shown : List (ℚ × ℚ)} (h : ShowsGroups lt groupOf orders limit shown) :
    shown.length ≤ limit := by
  obtain ⟨gs, -, rfl⟩ := h
  rw [List.length_map]
  exact List.length_take_le _ _

/-- Something is left of every group. -/
theorem ShowsGroups.amount_pos {lt : ℚ → ℚ → Prop} {groupOf : ℚ → ℚ} {orders : List (Order ℚ)}
    {limit : ℕ} {shown : List (ℚ × ℚ)} (h : ShowsGroups lt groupOf orders limit shown)
    (hleft : ∀ o ∈ orders, 0 < o.left) : ∀ entry ∈ shown, 0 < entry.2 := by
  obtain ⟨gs, hgs, rfl⟩ := h
  intro entry hentry
  obtain ⟨g, hg, rfl⟩ := List.mem_map.mp hentry
  have hg := List.mem_of_mem_take hg
  refine List.sum_pos _ (fun x hx => ?_) (mt List.map_eq_nil_iff.mp (hgs.nonempty g hg))
  obtain ⟨o, ho, rfl⟩ := List.mem_map.mp hx
  exact hleft o (hgs.mem_of_mem hg ho)

/-- The groups of a book, as a subscriber has them. -/
structure ShowsBook (m : Market ℚ) (limit : ℕ) (interval : ℚ) (book : DepthBook) : Prop where
  asks : ∃ shown, ShowsGroups (· < ·) (askGroup interval) (m.sideOrders .ask) limit shown ∧
    book.asks = Change.ofEntries shown
  bids : ∃ shown, ShowsGroups (· > ·) (bidGroup interval) (m.sideOrders .bid) limit shown ∧
    book.bids = Change.ofEntries shown

variable {toSci : FiniteDecimal → Numeral} {json : Json}

/-- **What matchengine sends is a good depth**, and says what the groups of the book are. -/
theorem goodDepth_of_writes (htoSci : ∀ d, (toSci d).value = d.value) (h : BookOk n args.market)
    (hi : 0 ≤ args.interval) (hjson : WritesDepth toSci (args.depth exactDivMpd) json) :
    GoodDepth exactDecimal args.limit json ∧
      ShowsBook args.market args.limit args.interval (bookOf exactDecimal json) := by
  obtain ⟨asks, bids, hasks, hbids, rfl⟩ := hjson
  have hshowsAsks := showsGroups_asks h hi
  have hshowsBids := showsGroups_bids h hi
  have hleft : ∀ side, ∀ o ∈ args.market.sideOrders side, 0 < o.left := fun side o ho => by
    obtain ⟨i, hi, rfl⟩ := mem_sideOrders.mp ho
    exact h.left side i hi
  have hget : (Json.object [("asks", .array asks), ("bids", .array bids)]).get "asks" =
      some (.array asks) := rfl
  have hget' : (Json.object [("asks", .array asks), ("bids", .array bids)]).get "bids" =
      some (.array bids) := rfl
  refine ⟨⟨?_, ?_⟩, ⟨_, hshowsAsks, ?_⟩, ⟨_, hshowsBids, ?_⟩⟩
  · rw [hget]
    refine goodSide_writes htoSci hasks (hshowsAsks.amount_pos (hleft .ask)) ?_ hshowsAsks.length_le
    refine (List.pairwise_map.mp hshowsAsks.sorted).imp fun {e e'} hlt => ?_
    simpa [before] using hlt
  · rw [hget']
    refine goodSide_writes htoSci hbids (hshowsBids.amount_pos (hleft .bid)) ?_ hshowsBids.length_le
    refine (List.pairwise_map.mp hshowsBids.sorted).imp fun {e e'} hlt => ?_
    simpa [before] using hlt
  · unfold bookOf
    rw [hget, sideEntries_writes htoSci hasks]
  · unfold bookOf
    rw [hget', sideEntries_writes htoSci hbids]

end Groups

/-! ## As a server with a cache -/

section Caching

variable (wire : DepthWire)

def bookServer : CachingServer (Engine ℚ) String String (Option Refusal) (MarketDepth ℚ) where
  timeout := wire.cacheTimeout
  accept e _ body := withParams wire.loadb body fun params =>
    (e.readOrderBookDepth exactDivMpd params).map fun _ => ()
  key body := some (toString 206 ++ body)
  compute e _ body := withParams wire.loadb body fun params => do
    return (← e.readOrderBookDepth exactDivMpd params).depth exactDivMpd

variable {wire} {b : BookServer ℚ} {now : ℚ} {body : String}

theorem BookServer.onRecvPkg_eq : b.onRecvPkg exactDivMpd wire now body =
    let a := (bookServer wire).answer b.engine now b.cache body
    (⟨b.engine, a.1⟩, sent a.2) := by
  unfold BookServer.onRecvPkg onBody
  dsimp only
  split
  · rename_i params hbody
    have hkept : ((b.onCmdOrderBookDepth exactDivMpd wire now (toString 206 ++ body) params).1,
        some (b.onCmdOrderBookDepth exactDivMpd wire now (toString 206 ++ body) params).2) =
        (((bookServer wire).answer b.engine now b.cache body).1,
          sent ((bookServer wire).answer b.engine now b.cache body).2) :=
      @kept_eq _ _ _ _ (bookServer wire) b.engine now body b.cache
        (b.engine.readOrderBookDepth exactDivMpd params) (fun args => .ok (args.depth exactDivMpd)) _ rfl
        (withParams_array hbody) (withParams_array hbody)
    rw [hkept]
  · rename_i hbody
    have hclosed : (bookServer wire).accept b.engine now body = .error none := withParams_closed hbody
    rw [closed_eq hclosed]

theorem lawful_bookServer : (bookServer wire).Lawful where
  key_inj := by
    intro body body' key h h'
    have hkeys := (Option.some.inj h).trans (Option.some.inj h').symm
    have hlist := congrArg String.toList hkeys
    rw [String.toList_append, String.toList_append] at hlist
    exact String.toList_inj.mp (List.append_cancel_left hlist)
  stable := by
    intro body e e' now now' depth refusal _ h haccept herror
    obtain ⟨params, hbody, -⟩ := withParams_ok h
    obtain ⟨params', hbody', hok⟩ := withParams_ok haccept
    obtain ⟨args, hargs⟩ := map_ok hok
    have hcompute : (bookServer wire).compute e' now' body = .ok (args.depth exactDivMpd) := by
      refine (withParams_array hbody').trans ?_
      rw [hargs]
      rfl
    rw [hcompute] at herror
    cases herror

end Caching

/-! ## Runs -/

/-- What accessws asks for. -/
def depthRequest (key : DepthKey) : List Json :=
  [.string key.market, .integer key.limit, .string key.interval]

/-- A reply that is under way, with the time when it was made. `none` is an error. -/
structure DepthReply where
  key : DepthKey
  result : Option Json
  time : ℚ

/-- matchengine with the clock, accessws with its subscribers, and what is under way. The engine as
it was, and when the reply was made that accessws looked at last, are recorded for the theorems
only. -/
structure DepthFeed where
  server : BookServer ℚ
  clock : ℚ
  past : List (ℚ × Engine ℚ)
  ws : DepthWorld
  requests : List DepthKey
  replies : List DepthReply
  answered : DepthKey → ℚ

/-- The steps of sessions. -/
def DepthAct.OfSession : DepthAct → Prop
  | .subscribe .. | .unsubscribe _ | .close .. => True
  | _ => False

namespace DepthFeed

variable (c : DepthSettings ℚ) (wire : DepthWire)

/-- One step: the engine serves a request, time goes by, some client asks for a depth, the cache is
emptied, a session subscribes or leaves, accessws asks, is answered, and takes an answer, or
requests and replies are lost, or too late. -/
inductive Step : DepthFeed → DepthFeed → Prop
  | engine {w : DepthFeed} {op : Op ℚ} {e : Engine ℚ} :
    w.server.engine.step exactDecimal true op = some e →
      Step w { w with server := { w.server with engine := e }, past := (w.clock, e) :: w.past }
  | wait {w : DepthFeed} {now : ℚ} : w.clock ≤ now →
      Step w { w with clock := now, past := (now, w.server.engine) :: w.past }
  | asked {w : DepthFeed} (body : String) :
    Step w { w with server := (w.server.onRecvPkg exactDivMpd wire w.clock body).1 }
  | cacheTimer {w : DepthFeed} : Step w { w with server := { w.server with cache := ∅ } }
  | session {w : DepthFeed} {act : DepthAct} {ws : DepthWorld} : act.OfSession →
      DepthWorld.Step c w.ws act ws → Step w { w with ws }
  | tick {w : DepthFeed} {keys : List DepthKey} {ws : DepthWorld} :
    DepthWorld.Step c w.ws (.tick keys) ws → Step w { w with ws, requests := w.requests ++ keys }
  | answer {w : DepthFeed} {key : DepthKey} {server : BookServer ℚ} {depth : MarketDepth ℚ}
      {json : Json} : key ∈ w.requests →
    w.server.onRecvPkg exactDivMpd wire w.clock (wire.dumps (depthRequest key)) =
      (server, some (.ok depth)) → WritesDepth wire.toSci depth json →
      Step w { w with
        server
        requests := w.requests.erase key
        replies := ⟨key, some json, w.clock⟩ :: w.replies }
  | refuse {w : DepthFeed} {key : DepthKey} {server : BookServer ℚ} {refusal : Refusal} :
    key ∈ w.requests →
    w.server.onRecvPkg exactDivMpd wire w.clock (wire.dumps (depthRequest key)) =
      (server, some (.error refusal)) →
      Step w { w with
        server
        requests := w.requests.erase key
        replies := ⟨key, none, w.clock⟩ :: w.replies }
  | reply {w : DepthFeed} {key : DepthKey} {json : Json} {time : ℚ} {now : ℤ}
      {before after : List DepthReply} :
    w.replies = before ++ ⟨key, some json, time⟩ :: after → key ∈ w.ws.queries →
      Step w { w with
        ws := { w.ws with queries := w.ws.queries.erase key }.onReply c key json now
        replies := before ++ after
        answered := Function.update w.answered key time }
  | error {w : DepthFeed} {key : DepthKey} {time : ℚ} {ws : DepthWorld}
      {before after : List DepthReply} :
    w.replies = before ++ ⟨key, none, time⟩ :: after → DepthWorld.Step c w.ws (.error key) ws →
      Step w { w with ws, replies := before ++ after }
  | lose {w : DepthFeed} {queries requests : List DepthKey} {replies : List DepthReply}
      {ws : DepthWorld} :
    DepthWorld.Step c w.ws (.lose queries) ws → requests.Sublist w.requests →
      replies.Sublist w.replies → Step w { w with ws, requests, replies }

/-- Nobody has subscribed yet, and nothing is under way. -/
def start (e₀ : Engine ℚ) (clock : ℚ) (clients : Ses → DepthClient) : DepthFeed where
  server := ⟨e₀, ∅⟩
  clock := clock
  past := [(clock, e₀)]
  ws := ⟨∅, [], clients, ∅⟩
  requests := []
  replies := []
  answered := fun _ => clock

inductive Reached (e₀ : Engine ℚ) : DepthFeed → Prop
  | start (clock : ℚ) (clients : Ses → DepthClient) : Reached e₀ (start e₀ clock clients)
  | step {w w' : DepthFeed} : Reached e₀ w → Step c wire w w' → Reached e₀ w'

def toCaching (w : DepthFeed) : CachingServer.World (Engine ℚ) String (MarketDepth ℚ) :=
  ⟨w.server.engine, w.clock, w.server.cache, w.past⟩

/-- A book of a subscriber is that of one moment of the market. -/
def Shown (past : List (ℚ × Engine ℚ)) (key : DepthKey) (answered : ℚ) (book : DepthBook) : Prop :=
  ∃ time e m interval, (time, e) ∈ past ∧ answered - wire.cacheTimeout ≤ time ∧ time ≤ answered ∧
    e.dictMarket.find key.market = some m ∧
    exactDecimal.decimal key.interval m.moneyPrec = some interval ∧
    ShowsBook m key.limit interval book

structure Good (e₀ : Engine ℚ) (w : DepthFeed) : Prop where
  sane : ∀ entry ∈ w.past, Engine.Sane e₀ entry.2
  caching : (bookServer wire).Good w.toCaching
  sync : DepthWorld.Good c w.ws
  topics : ∀ key obj, w.ws.dictDepth.find key = some obj → key.limit < 2 ^ 31
  requests : ∀ key ∈ w.requests, key.limit < 2 ^ 31
  replies : ∀ reply ∈ w.replies, ∀ json, reply.result = some json →
    GoodDepth exactDecimal reply.key.limit json ∧
      Shown wire w.past reply.key reply.time (bookOf exactDecimal json)
  last : ∀ key result, w.ws.last key = some result →
    Shown wire w.past key (w.answered key) (bookOf exactDecimal result)

variable {c wire} {e₀ : Engine ℚ} {w w' : DepthFeed} {dictAsset : Dict String AssetType}
  {confs : List (MarketConf ℚ)}

theorem Shown.cons {past : List (ℚ × Engine ℚ)} {key : DepthKey} {answered : ℚ} {book : DepthBook}
    (h : Shown wire past key answered book) (entry : ℚ × Engine ℚ) :
    Shown wire (entry :: past) key answered book := by
  obtain ⟨time, e, m, interval, hmem, h⟩ := h
  exact ⟨time, e, m, interval, List.mem_cons_of_mem _ hmem, h⟩

/-! ## Steps of accessws -/

/-- A step that is no reply changes no depth that was sent. -/
theorem last_of_step {ws ws' : DepthWorld} {act : DepthAct} (hstep : DepthWorld.Step c ws act ws')
    (hact : ∀ key result now, act ≠ .reply key result now) {key : DepthKey} {result : Json}
    (hlast : ws'.last key = some result) : ws.last key = some result := by
  cases hstep with
  | @subscribe ses params =>
    rcases DepthWorld.subscribe_cases ws ses params with hshrinks | ⟨key', hsub⟩
    · exact hshrinks.last_eq hlast
    · rwa [hsub.last] at hlast
  | unsubscribe =>
    refine DepthWorld.Shrinks.last_eq ?_ hlast
    exact DepthWorld.shrinks_unsubscribe _ rfl fun _ _ => rfl
  | close =>
    refine DepthWorld.Shrinks.last_eq ?_ hlast
    exact DepthWorld.shrinks_unsubscribe _ rfl fun _ hne => Function.update_of_ne hne ..
  | tick => exact (DepthWorld.shrinks_onTimer _).last_eq hlast
  | reply => exact absurd rfl (hact _ _ _)
  | error =>
    refine DepthWorld.Shrinks.last_eq ?_ hlast
    exact DepthWorld.shrinks_erase rfl rfl
  | lose => exact hlast

theorem toInt32_lt (n : ℤ) : toInt32 n < 2 ^ 31 := by
  have hlt := @Int.bmod_lt n (2 ^ 32) (by norm_num)
  unfold toInt32
  norm_num at hlt ⊢
  exact hlt

theorem depthParams_limit {params : List Json} {key : DepthKey}
    (h : AwDepth.depthParams params = some key) : key.limit < 2 ^ 31 := by
  unfold AwDepth.depthParams at h
  split at h
  · rename_i market limit interval
    split at h
    · dsimp only at h
      split_ifs at h
      obtain rfl := Option.some.inj h
      have hlt := toInt32_lt (Json.integerValue (some limit))
      show (toInt32 (Json.integerValue (some limit))).toNat < 2 ^ 31
      omega
    · cases h
  · cases h

section Topics

variable {ws : DepthWorld} {key : DepthKey} {obj : Topic Ses DepthVal}
  (h : ∀ key obj, ws.dictDepth.find key = some obj → key.limit < 2 ^ 31)

include h

theorem topics_unsubscribe {ses : Ses} (hobj : (ws.dictDepth.unsubscribe ses).find key = some obj) :
    key.limit < 2 ^ 31 := by
  rw [Topics.find_unsubscribe] at hobj
  obtain ⟨obj', hobj', -⟩ := Option.map_eq_some_iff.mp hobj
  exact h _ _ hobj'

/-- A new topic has the limit of a parameter. -/
theorem topics_subscribe {ses : Ses} {params : List Json}
    (hobj : (ws.subscribe c ses params).dictDepth.find key = some obj) : key.limit < 2 ^ 31 := by
  have hdict : (ws.subscribe c ses params).dictDepth =
      (ws.dictDepth.onMethodDepthSubscribe c ses params).1 := by
    unfold DepthWorld.subscribe
    split
    · rename_i hsub
      rw [hsub]
    · rename_i hsub
      rw [hsub]
      dsimp only
      split <;> rfl
  rw [hdict] at hobj
  unfold AwDepth.onMethodDepthSubscribe AwDepth.depthSubscribe at hobj
  cases hparams : AwDepth.depthParams params with
  | none =>
    rw [hparams] at hobj
    exact h _ _ hobj
  | some key' =>
    simp only [hparams] at hobj
    split_ifs at hobj
    · dsimp only at hobj
      rw [Topics.find_subscribe] at hobj
      split_ifs at hobj with hkey
      · exact hkey ▸ depthParams_limit hparams
      · exact topics_unsubscribe h hobj
    · exact topics_unsubscribe h hobj

theorem topics_onReply {key' : DepthKey} {result : Json} {now : ℤ}
    (hobj : (ws.onReply c key' result now).dictDepth.find key = some obj) : key.limit < 2 ^ 31 := by
  unfold DepthWorld.onReply DepthWorld.deliver at hobj
  rcases DepthWorld.onMarketDepthReply_cases (c := c) ws.dictDepth key' result now with
    hreply | ⟨obj', val, update, hobj', -, hreply, -⟩
  · rw [hreply] at hobj
    exact h _ _ hobj
  · rw [hreply] at hobj
    dsimp only at hobj
    rw [Dict.find_insert] at hobj
    split_ifs at hobj with hkey
    · exact hkey ▸ h _ _ hobj'
    · exact h _ _ hobj

theorem topics_of_step {ws' : DepthWorld} {act : DepthAct} (hstep : DepthWorld.Step c ws act ws')
    (hobj : ws'.dictDepth.find key = some obj) : key.limit < 2 ^ 31 := by
  cases hstep with
  | subscribe => exact topics_subscribe h hobj
  | unsubscribe => exact topics_unsubscribe h hobj
  | close => exact topics_unsubscribe h hobj
  | tick => exact h _ _ ((Topics.find_sweep ..).mp hobj).1
  | @reply key' result now hquery hgood =>
    exact @topics_onReply c { ws with queries := ws.queries.erase key' } key obj h key' result now hobj
  | error =>
    dsimp only at hobj
    rw [Dict.find_erase] at hobj
    split_ifs at hobj
    exact h _ _ hobj
  | lose => exact h _ _ hobj

end Topics

/-- After a reply, what was sent of its depth shows the same book. -/
theorem last_onReply {ws : DepthWorld} {key : DepthKey} {result : Json} {now : ℤ}
    (hmpd : c.mpd = exactDecimal) (hsync : DepthWorld.Good c ws)
    (hgood : GoodDepth exactDecimal key.limit result) {key' : DepthKey} {result' : Json}
    (hlast : (ws.onReply c key result now).last key' = some result') :
    (key' = key ∧ bookOf exactDecimal result' = bookOf exactDecimal result) ∨
      (key' ≠ key ∧ ws.last key' = some result') := by
  rcases DepthWorld.onMarketDepthReply_cases (c := c) ws.dictDepth key result now with
    hreply | ⟨obj, val, update, hobj, hval, hreply, -⟩
  · -- nothing is new
    have hsame : (ws.onReply c key result now).last key' = ws.last key' := by
      unfold DepthWorld.onReply
      rw [hreply]
      rfl
    rw [hsame] at hlast
    by_cases hkey : key' = key
    · subst hkey
      refine Or.inl ⟨rfl, ?_⟩
      obtain ⟨obj, hobj, hval⟩ := Option.bind_eq_some_iff.mp hlast
      have hdepth := hsync.depths key' result' hlast
      unfold AwDepth.onMarketDepthReply at hreply
      simp only [hobj, hval] at hreply
      cases hdiff : getDepthDiff c.mpd result' result key'.limit with
      | none =>
        rw [hmpd] at hdepth hdiff
        exact bookOf_eq_of_getDepthDiff_none hdepth hgood hdiff
      | some diff =>
        simp only [hdiff] at hreply
        split_ifs at hreply <;> cases congrArg Prod.snd hreply
    · exact Or.inr ⟨hkey, hlast⟩
  · have hnew : (ws.onReply c key result now).last key' =
        if key' = key then some result else ws.last key' := by
      unfold DepthWorld.onReply DepthWorld.last DepthWorld.deliver
      rw [hreply]
      dsimp only
      rw [Dict.find_insert]
      split_ifs
      · exact hval
      · rfl
    rw [hnew] at hlast
    split_ifs at hlast with hkey
    · exact Or.inl ⟨hkey, by rw [Option.some.inj hlast]⟩
    · exact Or.inr ⟨hkey, hlast⟩

/-! ## Answers of matchengine -/

section Answer

variable {key : DepthKey} {args : DepthArgs ℚ} {e : Engine ℚ}

theorem readOrderBookDepth_ok (h : e.readOrderBookDepth exactDivMpd (depthRequest key) = .ok args) :
    e.dictMarket.find key.market = some args.market ∧ args.limit = toUint64 key.limit ∧
      exactDecimal.decimal key.interval args.market.moneyPrec = some args.interval ∧
      0 ≤ args.interval := by
  unfold Engine.readOrderBookDepth depthRequest at h
  simp only [read_bind, check_ok, integerAt_ok, decimalAt_ok] at h
  obtain ⟨-, -, ⟨name, m⟩, hm, limit, hlimit, -, -, interval, ⟨str, hstr, hinterval⟩, -, hsign, h⟩ := h
  obtain rfl := Except.ok.inj h
  simp only [marketAt, read_bind, stringAt_ok] at hm
  obtain ⟨market, hmarket, hfind⟩ := hm
  obtain rfl : key.market = market := Json.string.inj (Option.some.inj hmarket)
  obtain rfl : (key.limit : ℤ) = limit := Json.integer.inj (Option.some.inj hlimit)
  obtain rfl : key.interval = str := Json.string.inj (Option.some.inj hstr)
  have hm : e.dictMarket.find key.market = some m := by
    cases hcase : e.dictMarket.find key.market with
    | none => simp [hcase] at hfind
    | some m' =>
      simp only [hcase, Except.ok.injEq, Prod.mk.injEq] at hfind
      rw [hfind.2]
  have hnonneg : 0 ≤ interval := by
    by_contra hneg
    have hcmp : exactDivMpd.cmp interval exactDivMpd.zero < 0 :=
      (ratMpd_cmp_lt id interval 0).mpr (not_le.mp hneg)
    simp [hcmp] at hsign
  exact ⟨hm, rfl, hinterval, hnonneg⟩

/-- **What is answered shows the book of a moment.** -/
theorem Good.answered (h : Good c wire e₀ w) (htimeout : 0 ≤ wire.cacheTimeout)
    (htoSci : ∀ d, (wire.toSci d).value = d.value)
    (hwire : ∀ key, wire.loadb (wire.dumps (depthRequest key)) = some (.array (depthRequest key)))
    {server : BookServer ℚ} {depth : MarketDepth ℚ} {json : Json} (hkey : key ∈ w.requests)
    (hanswer : w.server.onRecvPkg exactDivMpd wire w.clock (wire.dumps (depthRequest key)) =
      (server, some (.ok depth)))
    (hjson : WritesDepth wire.toSci depth json) :
    GoodDepth exactDecimal key.limit json ∧
      Shown wire w.past key w.clock (bookOf exactDecimal json) := by
  have hrecent := CachingServer.answer_recent lawful_bookServer htimeout h.caching
    (wire.dumps (depthRequest key))
  rw [BookServer.onRecvPkg_eq] at hanswer
  have hsent := congrArg Prod.snd hanswer
  dsimp only [toCaching] at hrecent hsent
  cases ha : ((bookServer wire).answer w.server.engine w.clock w.server.cache
      (wire.dumps (depthRequest key))).2 with
  | error refusal =>
    rw [ha] at hsent
    cases refusal <;> cases hsent
  | ok depth' =>
    rw [ha] at hsent hrecent
    obtain rfl : depth' = depth := Except.ok.inj (Option.some.inj hsent)
    obtain ⟨-, time, e, hmem, hle, hle', hfresh⟩ := hrecent
    -- what a cache keeps was made of the parameters
    obtain ⟨args, hargs, rfl⟩ : ∃ args, e.readOrderBookDepth exactDivMpd (depthRequest key) = .ok args ∧
        args.depth exactDivMpd = depth' := by
      obtain ⟨params, hparams, hcompute⟩ := withParams_ok (CachingServer.compute_of_fresh hfresh)
      rw [hwire] at hparams
      obtain rfl := Json.array.inj (Option.some.inj hparams)
      obtain ⟨args, hargs, hdepth⟩ := read_bind.mp hcompute
      exact ⟨args, hargs, Except.ok.inj hdepth⟩
    obtain ⟨hm, hlimit, hinterval, hnonneg⟩ := readOrderBookDepth_ok hargs
    have hlt := h.requests key hkey
    have hlimit' : args.limit = key.limit := hlimit.trans (toUint64_natCast (by omega))
    obtain ⟨hgood, hshows⟩ := goodDepth_of_writes htoSci
      ((h.sane _ hmem).kept key.market _ hm).book hnonneg hjson
    rw [hlimit'] at hgood hshows
    exact ⟨hgood, time, e, args.market, args.interval, hmem, hle, hle', hm, hinterval, hshows⟩

end Answer

/-! ## Every step -/

theorem good_start (hinit : Engine.init exactDecimal dictAsset confs = some e₀) (clock : ℚ)
    (clients : Ses → DepthClient) : Good c wire e₀ (start e₀ clock clients) := by
  have hnone : ∀ key, (start e₀ clock clients).ws.dictDepth.find key = none := Dict.find_empty
  have hcaching : (bookServer wire).Reached (fun _ _ => True) (fun _ => True)
      (start e₀ clock clients).toCaching := .start trivial
  refine ⟨fun entry hentry => ?_, hcaching.good, DepthWorld.good_start rfl, fun key obj hobj => ?_,
    fun key hkey => (List.not_mem_nil hkey).elim, fun reply hreply => (List.not_mem_nil hreply).elim,
    fun key result hlast => ?_⟩
  · rw [List.mem_singleton.mp hentry]
    exact Engine.sane_init hinit
  · rw [hnone] at hobj
    cases hobj
  · rw [DepthWorld.last_none (hnone key)] at hlast
    cases hlast

theorem onRecvPkg_toCaching (w : DepthFeed) (body : String) :
    (bookServer wire).Step (fun _ _ => True) w.toCaching
      { w.toCaching with
        state := (w.server.onRecvPkg exactDivMpd wire w.clock body).1.engine
        cache := (w.server.onRecvPkg exactDivMpd wire w.clock body).1.cache } := by
  rw [BookServer.onRecvPkg_eq]
  exact .ask body

/-- The engine goes on, or time. -/
theorem Good.later (h : Good c wire e₀ w) {server : BookServer ℚ} {clock : ℚ}
    (hsane : Engine.Sane e₀ server.engine)
    (hcaching : (bookServer wire).Good
      ⟨server.engine, clock, server.cache, (clock, server.engine) :: w.past⟩) :
    Good c wire e₀ { w with server, clock, past := (clock, server.engine) :: w.past } where
  sane := List.forall_mem_cons.mpr ⟨hsane, h.sane⟩
  caching := hcaching
  sync := h.sync
  topics := h.topics
  requests := h.requests
  replies reply hreply json hjson :=
    (h.replies reply hreply json hjson).imp_right fun hshown => hshown.cons _
  last key result hlast := (h.last key result hlast).cons _

/-- accessws takes a step, or what is under way gets less. -/
theorem Good.aside (h : Good c wire e₀ w) {ws : DepthWorld} {requests : List DepthKey}
    {replies : List DepthReply} {act : DepthAct} (hmpd : c.mpd = exactDecimal)
    (hstep : DepthWorld.Step c w.ws act ws) (hact : ∀ key result now, act ≠ .reply key result now)
    (hrequests : ∀ key ∈ requests, key ∈ w.requests ∨ ∃ obj, ws.dictDepth.find key = some obj)
    (hreplies : ∀ reply ∈ replies, reply ∈ w.replies) :
    Good c wire e₀ { w with ws, requests, replies } where
  sane := h.sane
  caching := h.caching
  sync := (@DepthWorld.Good.step c w.ws ws id hmpd act h.sync hstep).1
  topics key obj hobj := topics_of_step h.topics hstep hobj
  requests key hkey := by
    rcases hrequests key hkey with hold | ⟨obj, hobj⟩
    · exact h.requests key hold
    · exact topics_of_step h.topics hstep hobj
  replies reply hreply := h.replies reply (hreplies reply hreply)
  last key result hlast := h.last key result (last_of_step hstep hact hlast)

/-- matchengine answers a request of accessws. -/
theorem Good.replied (h : Good c wire e₀ w) {key : DepthKey} {body : String} {result : Option Json}
    (hresult : ∀ json, result = some json → GoodDepth exactDecimal key.limit json ∧
      Shown wire w.past key w.clock (bookOf exactDecimal json)) :
    Good c wire e₀ { w with
      server := (w.server.onRecvPkg exactDivMpd wire w.clock body).1
      requests := w.requests.erase key
      replies := ⟨key, result, w.clock⟩ :: w.replies } where
  sane := h.sane
  caching := h.caching.step (onRecvPkg_toCaching w body)
  sync := h.sync
  topics := h.topics
  requests key' hkey' := h.requests key' (List.mem_of_mem_erase hkey')
  replies := List.forall_mem_cons.mpr ⟨hresult, h.replies⟩
  last := h.last

/-- accessws takes a reply. -/
theorem Good.taken (h : Good c wire e₀ w) (hmpd : c.mpd = exactDecimal) {key : DepthKey} {json : Json}
    {time : ℚ} {now : ℤ} {before after : List DepthReply}
    (hreplies : w.replies = before ++ ⟨key, some json, time⟩ :: after) (hquery : key ∈ w.ws.queries) :
    Good c wire e₀ { w with
      ws := { w.ws with queries := w.ws.queries.erase key }.onReply c key json now
      replies := before ++ after
      answered := Function.update w.answered key time } := by
  obtain ⟨hgood, hshown⟩ := h.replies ⟨key, some json, time⟩ (by simp [hreplies]) json rfl
  have hstep : DepthWorld.Step c w.ws (.reply key json now) _ := .reply hquery (by rw [hmpd]; exact hgood)
  have hsync : DepthWorld.Good c { w.ws with queries := w.ws.queries.erase key } :=
    ⟨h.sync.once, h.sync.depths, h.sync.limits, h.sync.books⟩
  refine ⟨h.sane, h.caching, (@DepthWorld.Good.step c w.ws _ id hmpd _ h.sync hstep).1,
    fun key' obj hobj => topics_of_step h.topics hstep hobj, h.requests,
    fun reply hreply => h.replies reply ?_, fun key' result hlast => ?_⟩
  · rw [hreplies]
    rcases List.mem_append.mp hreply with hmem | hmem
    · exact List.mem_append_left _ hmem
    · exact List.mem_append_right _ (List.mem_cons_of_mem _ hmem)
  · rcases last_onReply hmpd hsync hgood hlast with ⟨rfl, hbook⟩ | ⟨hne, hold⟩
    · rw [hbook]
      dsimp only
      rw [Function.update_self]
      exact hshown
    · dsimp only
      rw [Function.update_of_ne hne]
      exact h.last key' result hold

theorem Good.step (h : Good c wire e₀ w) (hmpd : c.mpd = exactDecimal)
    (htimeout : 0 ≤ wire.cacheTimeout) (htoSci : ∀ d, (wire.toSci d).value = d.value)
    (hwire : ∀ key, wire.loadb (wire.dumps (depthRequest key)) = some (.array (depthRequest key)))
    (hstep : Step c wire w w') : Good c wire e₀ w' := by
  cases hstep with
  | @engine op e hengine =>
    have hchange : (bookServer wire).Step (fun _ _ => True) w.toCaching _ := .change (s := e) trivial
    exact h.later ((h.sane _ h.caching.now).step roundsDown_id hengine) (h.caching.step hchange)
  | wait hle =>
    have hwait : (bookServer wire).Step (fun _ _ => True) w.toCaching _ := .wait hle
    exact h.later (h.sane _ h.caching.now) (h.caching.step hwait)
  | asked body =>
    exact ⟨h.sane, h.caching.step (onRecvPkg_toCaching w body), h.sync, h.topics, h.requests, h.replies,
      h.last⟩
  | cacheTimer =>
    have hclear : (bookServer wire).Step (fun _ _ => True) w.toCaching _ := .clear
    exact ⟨h.sane, h.caching.step hclear, h.sync, h.topics, h.requests, h.replies, h.last⟩
  | @session act ws hact hws =>
    refine h.aside hmpd hws (fun key result now heq => ?_) (fun _ => Or.inl) fun _ => id
    subst heq
    exact hact
  | @tick keys ws hws =>
    refine h.aside hmpd hws (fun _ _ _ heq => nomatch heq) (fun key hkey => ?_) fun _ => id
    refine (List.mem_append.mp hkey).imp_right fun hkey => ?_
    cases hws with
    | tick hnodup hkeys => exact Finmap.mem_iff.mp ((hkeys key).mp hkey)
  | @answer key server depth json hkey hanswer hjson =>
    have hresult := h.answered htimeout htoSci hwire hkey hanswer hjson
    have hserver := congrArg Prod.fst hanswer
    dsimp only at hserver
    subst hserver
    refine h.replied fun json' hjson' => ?_
    obtain rfl := Option.some.inj hjson'
    exact hresult
  | @refuse key server refusal hkey hanswer =>
    have hserver := congrArg Prod.fst hanswer
    dsimp only at hserver
    subst hserver
    exact h.replied fun json hjson => nomatch hjson
  | reply hreplies hquery => exact h.taken hmpd hreplies hquery
  | @error key time ws before after hreplies hws =>
    refine h.aside hmpd hws (fun _ _ _ heq => nomatch heq) (fun _ => Or.inl) fun reply hreply => ?_
    rw [hreplies]
    rcases List.mem_append.mp hreply with hmem | hmem
    · exact List.mem_append_left _ hmem
    · exact List.mem_append_right _ (List.mem_cons_of_mem _ hmem)
  | lose hws hrequests hreplies =>
    exact h.aside hmpd hws (fun _ _ _ heq => nomatch heq) (fun key hkey => Or.inl (hrequests.subset hkey))
      fun reply hreply => hreplies.subset hreply

theorem good_run (hinit : Engine.init exactDecimal dictAsset confs = some e₀)
    (hmpd : c.mpd = exactDecimal) (htimeout : 0 ≤ wire.cacheTimeout)
    (htoSci : ∀ d, (wire.toSci d).value = d.value)
    (hwire : ∀ key, wire.loadb (wire.dumps (depthRequest key)) = some (.array (depthRequest key)))
    (hrun : Reached c wire e₀ w) : Good c wire e₀ w := by
  induction hrun with
  | start clock clients => exact good_start hinit clock clients
  | step _ hstep ih => exact ih.step hmpd htimeout htoSci hwire hstep

/-- **Subscribers have the book of a moment**: that of the market within the timeout before the reply
was made that accessws looked at last. -/
theorem depth_feed (hinit : Engine.init exactDecimal dictAsset confs = some e₀)
    (hmpd : c.mpd = exactDecimal) (htimeout : 0 ≤ wire.cacheTimeout)
    (htoSci : ∀ d, (wire.toSci d).value = d.value)
    (hwire : ∀ key, wire.loadb (wire.dumps (depthRequest key)) = some (.array (depthRequest key)))
    (hrun : Reached c wire e₀ w) {ses : Ses} {key : DepthKey} {result : Json}
    (hhas : w.ws.dictDepth.Has ses key) (hlast : w.ws.last key = some result) :
    Shown wire w.past key (w.answered key) (w.ws.clients ses).book := by
  have hgood := good_run hinit hmpd htimeout htoSci hwire hrun
  rw [hgood.sync.books ses key result hhas hlast, hmpd]
  exact hgood.last key result hlast

/-! ## An ask -/

/-- The request of the example as it is written, and any other in letters. -/
def exampleDumps : List Json → String
  | [.string market, .integer limit, .string interval] =>
    if market = "BTCCNY" ∧ limit = 5 ∧ interval = "0" then "[\"BTCCNY\", 5, \"0\"]"
    else String.ofList (List.replicate limit.toNat 'a' ++ 'b' ::
      (List.replicate market.toList.length 'a' ++ 'b' :: (market.toList ++ interval.toList)))
  | _ => ""

def exampleLoadb (body : String) : Option Json :=
  if body = "[\"BTCCNY\", 5, \"0\"]" then some (.array (depthRequest DepthWorld.exampleDepthKey))
  else
    let limit := (body.toList.takeWhile (· = 'a')).length
    let texts := body.toList.drop (limit + 1)
    let length := (texts.takeWhile (· = 'a')).length
    let texts := texts.drop (length + 1)
    some (.array [.string (String.ofList (texts.take length)), .integer limit,
      .string (String.ofList (texts.drop length))])

def exampleWire : DepthWire := ⟨1 / 2, exampleLoadb, exampleDumps, FiniteDecimal.scientific⟩

theorem takeWhile_replicate (n : ℕ) (cs : List Char) :
    (List.replicate n 'a' ++ 'b' :: cs).takeWhile (· = 'a') = List.replicate n 'a' := by
  rw [List.takeWhile_append_of_pos (by simp)]
  simp

theorem exampleLoadb_dumps (key : DepthKey) :
    exampleLoadb (exampleDumps (depthRequest key)) = some (.array (depthRequest key)) := by
  unfold depthRequest exampleDumps
  dsimp only
  split_ifs with hkey
  · obtain ⟨market, interval, limit⟩ := key
    obtain ⟨rfl, hlimit, rfl⟩ := hkey
    obtain rfl : limit = 5 := by exact_mod_cast hlimit
    rfl
  · have hbody : ∀ cs, String.ofList (List.replicate (key.limit : ℤ).toNat 'a' ++ 'b' :: cs) ≠
        "[\"BTCCNY\", 5, \"0\"]" := by
      intro cs heq
      have hhead := congrArg (fun str : String => str.toList.head?) heq
      simp only [String.toList_ofList] at hhead
      cases hlimit : (key.limit : ℤ).toNat with
      | zero => simp [hlimit] at hhead
      | succ n => simp [hlimit, List.replicate_succ] at hhead
    unfold exampleLoadb
    rw [if_neg (hbody _)]
    simp only [String.toList_ofList, takeWhile_replicate, List.length_replicate]
    have hdrop : ∀ (n : ℕ) (cs : List Char), (List.replicate n 'a' ++ 'b' :: cs).drop (n + 1) = cs := by
      intro n cs
      rw [List.drop_append]
      simp
    simp only [hdrop, takeWhile_replicate, List.length_replicate, List.take_left', List.drop_left',
      String.ofList_toList, Int.toNat_natCast]

theorem Reached.run {ops : List (Op ℚ)} {e : Engine ℚ} (h : Reached c wire e₀ w)
    (hrun : w.server.engine.run exactDecimal true ops = some e) :
    ∃ past, Reached c wire e₀ { w with server := { w.server with engine := e }, past := past } := by
  induction ops generalizing w with
  | nil =>
    obtain rfl := Option.some.inj hrun
    exact ⟨w.past, h⟩
  | cons op ops ih =>
    rw [Engine.run_cons] at hrun
    obtain ⟨e', he', hrun⟩ := Option.bind_eq_some_iff.mp hrun
    have hnext := Reached.step h (@Step.engine c wire w op e' he')
    obtain ⟨past, hpast⟩ := ih hnext hrun
    exact ⟨past, hpast⟩

def exampleRequest : String := exampleDumps (depthRequest DepthWorld.exampleDepthKey)

/-- What is answered of an engine with one ask. -/
def answersAsk (e : Engine ℚ) : Bool :=
  match ((⟨e, ∅⟩ : BookServer ℚ).onRecvPkg exactDivMpd exampleWire 0 exampleRequest).2 with
  | some (.ok depth) => depth.asks = [(5, 2)] && depth.bids = []
  | _ => false

def askJson : Json :=
  .object [("asks", .array [.array [.string "5", .string "2"]]), ("bids", .array [])]

theorem writes_askJson {depth : MarketDepth ℚ} (hasks : depth.asks = [(5, 2)])
    (hbids : depth.bids = []) : WritesDepth FiniteDecimal.scientific depth askJson := by
  refine ⟨_, _, ?_, ?_, rfl⟩
  · rw [hasks]
    refine .cons ⟨⟨false, 5, 0⟩, ⟨false, 2, 0⟩, by decide +kernel, by decide +kernel, ?_⟩ .nil
    have h5 : mpdText FiniteDecimal.scientific ⟨false, 5, 0⟩ = "5" := by decide +kernel
    have h2 : mpdText FiniteDecimal.scientific ⟨false, 2, 0⟩ = "2" := by decide +kernel
    simp [jsonArrayAppendNewMpd, h5, h2]
  · rw [hbids]
    exact .nil

/-- matchengine and accessws at time 0. -/
def exampleFeed (server : BookServer ℚ) (past : List (ℚ × Engine ℚ)) (ws : DepthWorld)
    (requests : List DepthKey) (replies : List DepthReply) : DepthFeed :=
  ⟨server, 0, past, ws, requests, replies, fun _ => 0⟩

/-- accessws when it has taken the reply. -/
def exampleTold : DepthWorld :=
  { DepthWorld.exampleDepthAsked with
    queries := DepthWorld.exampleDepthAsked.queries.erase DepthWorld.exampleDepthKey }.onReply
      DepthWorld.exampleDepthSettings DepthWorld.exampleDepthKey askJson 0

/-- An ask, and a session that has subscribed. -/
theorem depth_feed_ask : ∃ (e₀ : Engine ℚ) (w : DepthFeed),
    Engine.init exactDecimal exampleAssets [exampleConf 8] = some e₀ ∧
    Reached DepthWorld.exampleDepthSettings exampleWire e₀ w ∧
    (w.ws.clients 7).book.asks.find 5 = some 2 ∧
    Shown exampleWire w.past DepthWorld.exampleDepthKey (w.answered DepthWorld.exampleDepthKey)
      (w.ws.clients 7).book := by
  have hcheck : (exampleRun exactDecimal 8 [deposit 1 "BTC" 1 10, limitOrder 1 .ask 2 5 0 0]).any
      answersAsk = true := by
    decide +kernel
  obtain ⟨e, hrun, hanswers⟩ := (Option.any_eq_true _ _).mp hcheck
  obtain ⟨e₀, hinit, hrun⟩ := Option.bind_eq_some_iff.mp hrun
  unfold answersAsk at hanswers
  split at hanswers
  · rename_i depth hdepth
    rw [Bool.and_eq_true, decide_eq_true_eq, decide_eq_true_eq] at hanswers
    obtain ⟨past, hengine⟩ := @Reached.run DepthWorld.exampleDepthSettings exampleWire e₀ _ _ e
      (.start 0 fun _ => ⟨0, ⟨∅, ∅⟩⟩) hrun
    have hsubscribed : Reached DepthWorld.exampleDepthSettings exampleWire e₀
        (exampleFeed ⟨e, ∅⟩ past (DepthWorld.exampleDepthStart.subscribe DepthWorld.exampleDepthSettings
          7 [.string "BTCCNY", .integer 5, .string "0"]) [] []) :=
      .step hengine (.session (show DepthAct.OfSession (.subscribe 7 _) from trivial) .subscribe)
    have hasked : Reached DepthWorld.exampleDepthSettings exampleWire e₀
        (exampleFeed ⟨e, ∅⟩ past DepthWorld.exampleDepthAsked [DepthWorld.exampleDepthKey] []) := by
      refine .step hsubscribed (.tick (.tick (by decide) fun key => ?_))
      rw [← Finmap.mem_keys, ← List.mem_toFinset]
      have hkeys : [DepthWorld.exampleDepthKey].toFinset =
          (DepthWorld.exampleDepthStart.subscribe DepthWorld.exampleDepthSettings 7
            [.string "BTCCNY", .integer 5, .string "0"]).dictDepth.sweep.keys := by
        decide +kernel
      rw [hkeys]
      rfl
    have hanswered := Reached.step hasked (@Step.answer _ _ (exampleFeed ⟨e, ∅⟩ past
      DepthWorld.exampleDepthAsked [DepthWorld.exampleDepthKey] []) DepthWorld.exampleDepthKey
      ((⟨e, ∅⟩ : BookServer ℚ).onRecvPkg exactDivMpd exampleWire 0 exampleRequest).1 depth askJson
      (List.mem_singleton_self _) (Prod.ext rfl hdepth) (writes_askJson hanswers.1 hanswers.2))
    have htaken := Reached.step hanswered (@Step.reply _ _ _ DepthWorld.exampleDepthKey askJson 0 0 [] []
      rfl (show DepthWorld.exampleDepthKey ∈ DepthWorld.exampleDepthAsked.queries by decide +kernel))
    have hbook : (exampleTold.clients 7).book.asks.find 5 = some 2 := by decide +kernel
    have hhas : exampleTold.dictDepth.Has 7 DepthWorld.exampleDepthKey := by decide +kernel
    have hlast : (exampleTold.last DepthWorld.exampleDepthKey).isSome = true := by decide +kernel
    obtain ⟨result, hresult⟩ := Option.isSome_iff_exists.mp hlast
    exact ⟨e₀, _, hinit, htaken, hbook, depth_feed hinit rfl (by decide +kernel)
      FiniteDecimal.value_scientific exampleLoadb_dumps htaken hhas hresult⟩
  · cases hanswers

end DepthFeed

end ViabtcExchange
