import ViabtcExchange.Lib.Wire
import ViabtcExchange.MarketKlines

/-!
# marketprice and its Redis (`mp_message.c`)

The process consumes the messages of the deals topic in the order of their offsets. Every ten
seconds `flush_market` writes the bars that were touched to Redis, each with a command of its own,
then the last prices and deals, and behind all markets the offset. A mark is dropped whether or not
its bar was written. A new process loads Redis and goes on behind the stored offset; no offset at
all is read as 0.

Any command of a flush may fail, and the process may die between any two of them.
-/

namespace ViabtcExchange

variable {D : Type}

/-! ## The process -/

/-- The variables of `mp_message.c`, and the offset of the message that is consumed next. -/
structure MarketPrice (D : Type) where
  dictMarket : Dict String (MarketInfo D)
  lastFlush : ℚ
  lastOffset : ℤ
  position : ℕ

/-- A bar in memory. -/
def MarketPrice.bar (p : MarketPrice D) (name : String) (type : KlineType) (start : ℤ) :
    Option (Kline D) :=
  (p.dictMarket.find name).bind fun info => (info.kline type).find start

/-- What never changes. `markets` is the answer to `market.list`. -/
structure PriceSettings (D : Type) where
  mpd : Mpd D
  dayStart : ℤ → ℤ
  secMax : ℤ
  minMax : ℤ
  hourMax : ℤ
  markets : List String

/-- `on_deals_message`: an invalid message leaves everything alone, `last_offset` too. -/
def MarketPrice.onDealsMessage (c : PriceSettings D) (p : MarketPrice D) (message : Json)
    (offset : ℕ) (now : ℚ) : MarketPrice D :=
  match readDeal c.mpd message with
  | none => { p with position := offset + 1 }
  | some deal =>
    let info := (p.dictMarket.find deal.market).getD (createMarket c.mpd)
    { p with
      dictMarket := p.dictMarket.insert deal.market (info.marketUpdate c.mpd c.dayStart deal now)
      lastOffset := offset
      position := offset + 1 }

/-! ## Redis -/

/-- The hashes `k:<market>:1s` … `k:<market>:1d`, and the other keys. Whether bars were written
since the offset was (`ahead`), and whether a bar was not written that should have been (`missed`),
is recorded for the theorems only. -/
structure Redis (D : Type) where
  kline : String → KlineType → Dict ℤ (Kline D)
  last : Dict String D
  deals : String → List (DealMessage D)
  offset : Option ℤ
  ahead : Bool
  missed : Bool

namespace Redis

def empty : Redis D := ⟨fun _ _ => ∅, ∅, fun _ => [], none, false, false⟩

/-- A stored bar. -/
def bar (r : Redis D) (name : String) (type : KlineType) (start : ℤ) : Option (Kline D) :=
  (r.kline name type).find start

/-- `HSET`. -/
def hset (name : String) (type : KlineType) (start : ℤ) (kinfo : Kline D) (applied : Bool)
    (r : Redis D) : Redis D :=
  if applied then
    { r with
      kline := Function.update r.kline name
        (Function.update (r.kline name) type ((r.kline name type).insert start kinfo))
      ahead := true }
  else { r with missed := true }

/-- `SET k:<market>:last`. -/
def setLast (name : String) (last : D) (applied : Bool) (r : Redis D) : Redis D :=
  if applied then { r with last := r.last.insert name last } else r

/-- `LPUSH`: the first to be pushed is the last in the list. -/
def lpush (name : String) (deals : List (DealMessage D)) (applied : Bool) (r : Redis D) : Redis D :=
  if applied then { r with deals := Function.update r.deals name (deals.reverse ++ r.deals name) }
  else r

/-- `LTRIM`. -/
def ltrim (name : String) (applied : Bool) (r : Redis D) : Redis D :=
  if applied then
    { r with deals := Function.update r.deals name ((r.deals name).take marketDealsMax) }
  else r

/-- `SET k:offset`. -/
def setOffset (offset : ℤ) (applied : Bool) (r : Redis D) : Redis D :=
  if applied then { r with offset := some offset, ahead := false } else r

end Redis

/-! ## Flushing -/

open Wire

/-- A key of `info->update`. -/
abbrev UpdateMark : Type := KlineType × ℤ

/-- `flush_kline`: a bar that is not there any more is passed over. -/
def flushKline (name : String) (info : MarketInfo D) (key : UpdateMark) : Wire (Redis D) Unit :=
  match (info.kline key.1).find key.2 with
  | none => pure ()
  | some kinfo => bind (send (Redis.hset name key.1 key.2 kinfo)) fun _ => pure ()

/-- `flush_update`, the marks in the order of the iterator: all of them are deleted. -/
def flushUpdate (name : String) (info : MarketInfo D) (keys : List UpdateMark) :
    Wire (Redis D) (MarketInfo D) :=
  bind (forEach (flushKline name info) keys) fun _ => pure { info with update := ∅ }

/-- `flush_deals`, and if it succeeded. The answer to `LTRIM` is not looked at. -/
def flushDeals (name : String) (info : MarketInfo D) : Wire (Redis D) (Bool × MarketInfo D) :=
  bind (send (Redis.lpush name info.deals)) fun replied =>
    if replied then
      bind (send (Redis.ltrim name)) fun _ => pure (true, { info with deals := [] })
    else pure (false, info)

/-- The body of the loop of `flush_market`, and if it goes on. -/
def flushOne (name : String) (info : MarketInfo D) (keys : List UpdateMark) :
    Wire (Redis D) (Bool × MarketInfo D) :=
  bind (flushUpdate name info keys) fun info =>
    bind (send (Redis.setLast name info.last)) fun replied =>
      if replied then if info.deals = [] then pure (true, info) else flushDeals name info
      else pure (false, info)

/-- The loop of `flush_market`, over the markets and the marks of each in the order of the
iterators, and if it came to its end. -/
def flushMarkets : MarketPrice D → List (String × List UpdateMark) →
    Wire (Redis D) (Bool × MarketPrice D)
  | p, [] => pure (true, p)
  | p, (name, keys) :: entries =>
    match p.dictMarket.find name with
    | none => flushMarkets p entries
    | some info =>
      if info.updateTime < p.lastFlush then flushMarkets p entries
      else
        bind (flushOne name info keys) fun r =>
          let p := { p with dictMarket := p.dictMarket.insert name r.2 }
          if r.1 then flushMarkets p entries else pure (false, p)

/-- `flush_market`, with a connection. -/
def flushMarket (p : MarketPrice D) (entries : List (String × List UpdateMark)) (now : ℚ) :
    Wire (Redis D) (MarketPrice D) :=
  bind (flushMarkets p entries) fun r =>
    if r.1 then
      bind (send (Redis.setOffset r.2.lastOffset)) fun replied =>
        pure (if replied then { r.2 with lastFlush := now } else r.2)
    else pure r.2

/-- `entries` is an order in which the iterators may visit the markets and their marks. -/
structure FlushOrder (p : MarketPrice D) (entries : List (String × List UpdateMark)) : Prop where
  nodup : (entries.map Prod.fst).Nodup
  markets : ∀ name, name ∈ entries.map Prod.fst ↔ name ∈ p.dictMarket
  marks : ∀ entry ∈ entries, ∀ info, p.dictMarket.find entry.1 = some info →
    entry.2.Nodup ∧ ∀ key, key ∈ entry.2 ↔ key ∈ info.update

/-! ## Loading -/

/-- From when on `load_market` loads bars. -/
def loadStart (c : PriceSettings D) (now : ℤ) : KlineType → ℤ
  | .sec => now - c.secMax
  | .min => roundTo 60 now - c.minMax * 60
  | .hour => roundTo 3600 now - c.hourMax * 3600
  | .day => 0

/-- `load_market_kline`. -/
def loadMarketKline (bars : Dict ℤ (Kline D)) (start : ℤ) : Dict ℤ (Kline D) :=
  bars.filter fun timestamp _ => !(start ≠ 0 ∧ timestamp < start)

def loadMarket (c : PriceSettings D) (r : Redis D) (now : ℤ) (name : String) : MarketInfo D :=
  { createMarket c.mpd with
    last := (r.last.find name).getD c.mpd.zero
    kline := fun type => loadMarketKline (r.kline name type) (loadStart c now type)
    dealsJson := (r.deals name).take marketDealsMax }

/-- `init_message`: the markets, and where to go on. -/
def initMessage (c : PriceSettings D) (r : Redis D) (now : ℤ) : Option (MarketPrice D) :=
  let lastOffset := r.offset.getD 0
  if lastOffset < 0 then none
  else
    some
      { dictMarket := c.markets.foldl (fun dict name => dict.insert name (loadMarket c r now name)) ∅
        lastFlush := 0
        lastOffset := lastOffset
        position := (lastOffset + 1).toNat }

/-! ## Runs -/

/-- Redis, the process if it is up, and the clock. -/
structure PriceWorld (D : Type) where
  redis : Redis D
  process : Option (MarketPrice D)
  clock : ℚ

inductive PriceAct
  | start (now : ℚ)
  | message (now : ℚ)
  | flush (entries : List (String × List UpdateMark)) (answers : List Answer) (now : ℚ)
  | crash

namespace PriceWorld

/-- One step, with the messages `log` in the topic. A flush without a connection does nothing. -/
inductive Step (c : PriceSettings D) (log : List Json) :
    PriceWorld D → PriceAct → PriceWorld D → Prop
  | start {r : Redis D} {clock now : ℚ} {p : MarketPrice D} :
    clock ≤ now → initMessage c r ⌊now⌋ = some p →
      Step c log ⟨r, none, clock⟩ (.start now) ⟨r, some p, now⟩
  | message {r : Redis D} {clock now : ℚ} {p : MarketPrice D} {message : Json} :
    clock ≤ now → log[p.position]? = some message →
      Step c log ⟨r, some p, clock⟩ (.message now)
        ⟨r, some (p.onDealsMessage c message p.position now), now⟩
  | flush {r : Redis D} {clock now : ℚ} {p : MarketPrice D}
      {entries : List (String × List UpdateMark)} {answers : List Answer} :
    clock ≤ now → FlushOrder p entries →
      Step c log ⟨r, some p, clock⟩ (.flush entries answers now)
        ⟨(flushMarket p entries now r answers).1,
          (flushMarket p entries now r answers).2.map Prod.fst, now⟩
  | crash {r : Redis D} {clock : ℚ} {p : MarketPrice D} :
    Step c log ⟨r, some p, clock⟩ .crash ⟨r, none, clock⟩

/-- The worlds after steps that are `ok` where they are taken. -/
inductive Reached (c : PriceSettings D) (log : List Json) (ok : PriceWorld D → PriceAct → Prop)
    (w₀ : PriceWorld D) : PriceWorld D → Prop
  | refl : Reached c log ok w₀ w₀
  | step {w w' : PriceWorld D} {act : PriceAct} :
    Reached c log ok w₀ w → ok w act → Step c log w act w' → Reached c log ok w₀ w'

end PriceWorld

end ViabtcExchange
