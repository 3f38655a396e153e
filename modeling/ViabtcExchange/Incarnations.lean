import ViabtcExchange.Counters
import ViabtcExchange.Recovery
import ViabtcExchange.Replay

/-!
# Many lives of the process

The process dies and starts again: from the newest slice and the operation log behind it, of which
a crash may have lost the end. `World` follows the live process, the log on its way into the
tables, and the slice, through any number of these lives. It keeps a record of every request that
was ever accepted (`World.served`), with the ids it took and whether a start has lost it.

The first half says what the replay of an accepted request does, whatever the state it meets: the
key of an update is remembered (`load_remembers`), and as many order ids are taken as at first
(`load_orderIdStart`).
-/

namespace ViabtcExchange

variable {D : Type} {mpd : Mpd D}

namespace Engine

/-! ## What a replayed entry does -/

/-- The engine runs under some settings: their assets, and the markets of these names. -/
structure Configured (dictAsset : Dict String AssetType) (names : String → Prop) (e : Engine D) :
    Prop where
  assets : e.statics.ledger.dictAsset = dictAsset
  markets : ∀ name, name ∈ e.dictMarket ↔ names name

variable {dictAsset : Dict String AssetType} {names : String → Prop} {r r' : Engine D}

theorem Configured.put {market : String} {s : Statics D} {m m' : Market D}
    (h : r.Configured dictAsset names) (hs : s.ledger.dictAsset = r.statics.ledger.dictAsset)
    (hm : r.dictMarket.find market = some m) : (r.put market s m').Configured dictAsset names := by
  refine ⟨hs.trans h.assets, fun name => ?_⟩
  rw [← h.markets name]
  unfold Engine.put
  rw [Finmap.mem_insert]
  constructor
  · rintro (rfl | hmem)
    · exact Dict.mem_of_find hm
    · exact hmem
  · exact Or.inr

theorem Configured.step {real : Bool} {op : Op D} (h : r.Configured dictAsset names)
    (hstep : r.step mpd real op = some r') : r'.Configured dictAsset names := by
  have hassets := (step_fixed hstep).1
  have hcases := step_cases hstep
  cases op with
  | updateBalance args padding now =>
    obtain ⟨s, d, -, rfl⟩ := hcases
    exact ⟨hassets.trans h.assets, h.markets⟩
  | limitOrder args =>
    obtain ⟨m, o, hm, -, -, -, rfl⟩ := hcases
    exact h.put hassets hm
  | marketOrder args =>
    obtain ⟨m, o, hm, -, -, -, rfl⟩ := hcases
    exact h.put hassets hm
  | cancelOrder args =>
    obtain ⟨m, hm, -, -, rfl⟩ := hcases
    exact h.put hassets hm
  | expire now =>
    obtain rfl := hcases
    exact ⟨h.assets, h.markets⟩

/-- The keys of a table are kept. -/
def KeepsKeys (r r' : Engine D) : Prop :=
  ∀ k c, r.dictUpdate.find k = some c → r'.dictUpdate.find k = some c

/-- The replay goes on only behind what is unknown, and nothing has changed then. -/
theorem refusal_unknown {refusal : Refusal} {ret : ℤ} (h : (refusal.ret, r) = (ret, r'))
    (hret : 0 ≤ ret) : r' = r ∧ refusal = .unknown := by
  obtain ⟨rfl, rfl⟩ := Prod.mk.inj h
  cases refusal with
  | invalid => simp [Refusal.ret] at hret
  | unknown => exact ⟨rfl, rfl⟩

theorem loadUpdateBalance_cases {params : List Json} {padding : ℕ} {now : ℚ} {ret : ℤ}
    (h : r.loadUpdateBalance mpd params padding now = (ret, r')) (hret : 0 ≤ ret) :
    (r' = r ∧ readUpdateBalance mpd params (assetPrec r.statics.ledger.dictAsset) =
        .error .unknown) ∨
      ∃ args, readUpdateBalance mpd params (assetPrec r.statics.ledger.dictAsset) = .ok args ∧
        r.request mpd false (.updateBalance args padding now) = some (0, r') := by
  unfold loadUpdateBalance at h
  cases hread : readUpdateBalance mpd params (assetPrec r.statics.ledger.dictAsset) with
  | error refusal =>
    rw [hread] at h
    obtain ⟨rfl, rfl⟩ := refusal_unknown h hret
    exact Or.inl ⟨rfl, rfl⟩
  | ok args =>
    rw [hread] at h
    dsimp only at h
    have hcases := updateBalance_cases mpd false r args padding now
    split_ifs at h with hneg
    · obtain ⟨rfl, rfl⟩ := Prod.mk.inj h
      omega
    · obtain ⟨hlt, -⟩ | hzero := hcases
      · exact absurd hlt hneg
      · obtain ⟨rfl, rfl⟩ := Prod.mk.inj h
        exact Or.inr ⟨args, rfl, congrArg some (Prod.ext hzero rfl)⟩

theorem loadLimitOrder_cases {params : List Json} {ret : ℤ}
    (h : r.loadLimitOrder mpd params = some (ret, r')) (hret : 0 ≤ ret) :
    (r' = r ∧ readLimitOrder mpd params r.dictMarket = .error .unknown) ∨
      ∃ args, r.request mpd false (.limitOrder args) = some (0, r') := by
  unfold loadLimitOrder at h
  cases hread : readLimitOrder mpd params r.dictMarket with
  | error refusal =>
    rw [hread] at h
    obtain ⟨rfl, rfl⟩ := refusal_unknown (Option.some.inj h) hret
    exact Or.inl ⟨rfl, rfl⟩
  | ok p =>
    obtain ⟨m, args⟩ := p
    obtain ⟨hm, hok⟩ := readLimitOrder_ok hread
    rw [hread] at h
    dsimp only at h
    split_ifs at h with hsource
    · obtain ⟨rfl, rfl⟩ := Prod.mk.inj (Option.some.inj h)
      simp at hret
    · obtain ⟨o, ho, hfin⟩ := Option.map_eq_some_iff.mp h
      obtain ⟨hneg, -⟩ | hzero := decided_limit ho
      · have := (Prod.mk.inj hfin).1
        omega
      · refine Or.inr ⟨args, ?_⟩
        rw [request, putLimit_eq hm hok, ho, Option.map_some, hfin, ← (Prod.mk.inj hfin).1, hzero]

theorem loadMarketOrder_cases {params : List Json} {ret : ℤ}
    (h : r.loadMarketOrder mpd params = some (ret, r')) (hret : 0 ≤ ret) :
    (r' = r ∧ readMarketOrder mpd params r.dictMarket = .error .unknown) ∨
      ∃ args, r.request mpd false (.marketOrder args) = some (0, r') := by
  unfold loadMarketOrder at h
  cases hread : readMarketOrder mpd params r.dictMarket with
  | error refusal =>
    rw [hread] at h
    obtain ⟨rfl, rfl⟩ := refusal_unknown (Option.some.inj h) hret
    exact Or.inl ⟨rfl, rfl⟩
  | ok p =>
    obtain ⟨m, args⟩ := p
    obtain ⟨hm, hok⟩ := readMarketOrder_ok hread
    rw [hread] at h
    dsimp only at h
    split_ifs at h with hsource
    · obtain ⟨rfl, rfl⟩ := Prod.mk.inj (Option.some.inj h)
      simp at hret
    · obtain ⟨o, ho, hfin⟩ := Option.map_eq_some_iff.mp h
      obtain ⟨hneg, -⟩ | hzero := decided_market ho
      · have := (Prod.mk.inj hfin).1
        omega
      · refine Or.inr ⟨args, ?_⟩
        rw [request, putMarket_eq hm hok, ho, Option.map_some, hfin, ← (Prod.mk.inj hfin).1, hzero]

/-- The replay of a cancel is the cancel of the order by its own user. -/
theorem loadCancelOrder_cases {params : List Json} {ret : ℤ}
    (h : r.loadCancelOrder mpd params = (ret, r')) :
    r' = r ∨ ∃ args, r.request mpd false (.cancelOrder args) = some (0, r') := by
  unfold loadCancelOrder at h
  cases hread : readCancelOrder params r.dictMarket with
  | error refusal =>
    rw [hread] at h
    exact Or.inl (Prod.mk.inj h).2.symm
  | ok p =>
    obtain ⟨m, args⟩ := p
    have hm := readCancelOrder_ok hread
    rw [hread] at h
    dsimp only at h
    cases hget : marketGetOrder m args.orderId with
    | none =>
      rw [hget] at h
      exact Or.inl (Prod.mk.inj h).2.symm
    | some i =>
      rw [hget] at h
      refine Or.inr ⟨{ args with userId := (m.order i).userId }, ?_⟩
      have hr' : r.finish args.market (marketCancelOrder mpd false r.statics m i) = (0, r') :=
        Prod.ext rfl (Prod.mk.inj h).2
      unfold request cancel
      dsimp only
      rw [hm]
      dsimp only
      rw [hget]
      dsimp only
      rw [if_neg (not_not.mpr rfl), hr']

/-- An operation that a replay can carry out. -/
def Replays : Op D → Prop
  | .expire _ => False
  | _ => True

/-- What the replay of an entry does: nothing, or a request that is accepted. -/
theorem loadOper_cases {detail : Json} {padding : ℕ} {now : ℚ} {ret : ℤ}
    (h : r.loadOper mpd detail padding now = some (ret, r')) (hret : 0 ≤ ret) :
    r' = r ∨ ∃ op, Replays op ∧ r.step mpd false op = some r' := by
  unfold loadOper at h
  split at h
  · split_ifs at h
    · rcases loadUpdateBalance_cases (Option.some.inj h) hret with ⟨hsame, -⟩ | ⟨args, -, hreq⟩
      · exact Or.inl hsame
      · exact Or.inr ⟨.updateBalance args padding now,
          (show Replays (Op.updateBalance args padding now) from trivial), step_of_request hreq⟩
    · rcases loadLimitOrder_cases h hret with ⟨hsame, -⟩ | ⟨args, hreq⟩
      · exact Or.inl hsame
      · exact Or.inr ⟨.limitOrder args, (show Replays (Op.limitOrder args) from trivial),
          step_of_request hreq⟩
    · rcases loadMarketOrder_cases h hret with ⟨hsame, -⟩ | ⟨args, hreq⟩
      · exact Or.inl hsame
      · exact Or.inr ⟨.marketOrder args, (show Replays (Op.marketOrder args) from trivial),
          step_of_request hreq⟩
    · rcases loadCancelOrder_cases (Option.some.inj h) with hsame | ⟨args, hreq⟩
      · exact Or.inl hsame
      · exact Or.inr ⟨.cancelOrder args,
          (show Replays (Op.cancelOrder args : Op D) from trivial), step_of_request hreq⟩
    · exact Or.inl (Prod.mk.inj (Option.some.inj h)).2.symm
  · exact Or.inl (Prod.mk.inj (Option.some.inj h)).2.symm

theorem load_cases {env : ℕ → Surroundings} {row : ℕ × ℚ × Json}
    (h : r.load mpd env row = some r') :
    ∃ ret, r.loadOper mpd row.2.2 (env row.1).padding (env row.1).now = some (ret, r') ∧
      0 ≤ ret := by
  unfold load at h
  cases hload : r.loadOper mpd row.2.2 (env row.1).padding (env row.1).now with
  | none => simp [hload] at h
  | some p =>
    obtain ⟨ret, e⟩ := p
    rw [hload] at h
    dsimp only at h
    split_ifs at h with hneg
    cases h
    exact ⟨ret, rfl, not_lt.mp hneg⟩

theorem keepsKeys_step {real : Bool} {op : Op D} (hop : Replays op)
    (hstep : r.step mpd real op = some r') : KeepsKeys r r' := by
  intro k c hk
  have hcases := step_cases hstep
  cases op with
  | expire now => exact hop.elim
  | updateBalance args padding now =>
    have hreq := Option.some.inj (step_eq_some hstep)
    obtain ⟨hfree, b, hb⟩ := updateBalance_inv hreq
    obtain ⟨e', he', -, -, hd⟩ := updateBalance_eq real now hfree hb
    obtain rfl : e' = r' := (Prod.mk.inj (he'.symm.trans hreq)).2
    rw [hd, Dict.find_insert]
    split_ifs with heq
    · rw [heq, hfree] at hk
      cases hk
    · exact hk
  | limitOrder args =>
    obtain ⟨m, o, -, -, -, -, rfl⟩ := hcases
    exact hk
  | marketOrder args =>
    obtain ⟨m, o, -, -, -, -, rfl⟩ := hcases
    exact hk
  | cancelOrder args =>
    obtain ⟨m, -, -, -, rfl⟩ := hcases
    exact hk

theorem KeepsKeys.trans {r r₁ r' : Engine D} (h : KeepsKeys r r₁) (h' : KeepsKeys r₁ r') :
    KeepsKeys r r' := fun k c hk => h' k c (h k c hk)

theorem Configured.load {env : ℕ → Surroundings} {row : ℕ × ℚ × Json}
    (hconf : r.Configured dictAsset names) (h : r.load mpd env row = some r') :
    r'.Configured dictAsset names := by
  obtain ⟨ret, hload, hret⟩ := load_cases h
  rcases loadOper_cases hload hret with rfl | ⟨op, -, hstep⟩
  · exact hconf
  · exact hconf.step hstep

end Engine

/-! ## Reading again -/

section Known

variable {params : List Json} {α β : Type} {x : Except Refusal α}

/-- Not an asset or a market that is not configured. -/
def Known (x : Except Refusal α) : Prop := x ≠ .error .unknown

theorem Known.bind {f : α → Except Refusal β} (h : Known x)
    (hf : ∀ a, x = .ok a → Known (f a)) : Known (x >>= f) := by
  cases x with
  | error r =>
    intro heq
    cases heq
    exact h rfl
  | ok a => exact hf a rfl

theorem known_ok (a : α) : Known (.ok a) := fun h => by cases h

theorem known_check (ok : Bool) : Known (check ok) := by
  cases ok <;> simp [Known, check]

theorem known_integerAt (i : ℕ) : Known (integerAt params i) := by
  unfold Known integerAt
  split <;> simp

theorem known_stringAt (i : ℕ) : Known (stringAt params i) := by
  unfold Known stringAt
  split <;> simp

theorem known_decimalAt (prec i : ℕ) : Known (decimalAt mpd params prec i) := by
  refine (known_stringAt i).bind fun str _ => ?_
  unfold Known
  split <;> simp

theorem known_positiveAt (prec i : ℕ) : Known (positiveAt mpd params prec i) :=
  (known_decimalAt prec i).bind fun _ _ => (known_check _).bind fun _ _ => known_ok _

theorem known_feeAt (prec i : ℕ) : Known (feeAt mpd params prec i) :=
  (known_decimalAt prec i).bind fun _ _ => (known_check _).bind fun _ _ => known_ok _

theorem known_sideAt (i : ℕ) : Known (sideAt params i) := by
  refine (known_integerAt i).bind fun n _ => ?_
  unfold Known
  split <;> simp

theorem known_marketAt {dictMarket : Dict String (Market D)} {i : ℕ}
    (h : ∀ name, params[i]? = some (.string name) → name ∈ dictMarket) :
    Known (marketAt params dictMarket i) := by
  refine (known_stringAt i).bind fun name hname => ?_
  obtain ⟨m, hm⟩ := Option.ne_none_iff_exists'.mp
    (mt Dict.find_eq_none.mp (not_not.mpr (h name (stringAt_ok.mp hname))))
  simp [Known, hm]

theorem known_readLimitOrder {dictMarket : Dict String (Market D)}
    (h : ∀ name, params[(1 : ℕ)]? = some (.string name) → name ∈ dictMarket) :
    Known (readLimitOrder mpd params dictMarket) :=
  (known_check _).bind fun _ _ => (known_integerAt 0).bind fun _ _ => (known_marketAt h).bind fun _ _ =>
    (known_sideAt 2).bind fun _ _ => (known_positiveAt _ 3).bind fun _ _ =>
      (known_positiveAt _ 4).bind fun _ _ => (known_feeAt _ 5).bind fun _ _ =>
        (known_feeAt _ 6).bind fun _ _ => (known_stringAt 7).bind fun _ _ => known_ok _

theorem known_readMarketOrder {dictMarket : Dict String (Market D)}
    (h : ∀ name, params[(1 : ℕ)]? = some (.string name) → name ∈ dictMarket) :
    Known (readMarketOrder mpd params dictMarket) :=
  (known_check _).bind fun _ _ => (known_integerAt 0).bind fun _ _ => (known_marketAt h).bind fun _ _ =>
    (known_sideAt 2).bind fun _ _ => (known_positiveAt _ 3).bind fun _ _ =>
      (known_feeAt _ 4).bind fun _ _ => (known_stringAt 5).bind fun _ _ => known_ok _

end Known

/-! ## The replay of a request that was accepted -/

section Again

open Engine

variable {dictAsset : Dict String AssetType} {names : String → Prop} {r r' : Engine D}
  {command : Command} {params : List Json}

/-- The order ids a request takes. -/
def Command.opens : Command → ℕ
  | .orderPutLimit | .orderPutMarket => 1
  | _ => 0

/-- The asset or the market of a request is configured. -/
def Command.Named (dictAsset : Dict String AssetType) (names : String → Prop)
    (params : List Json) : Command → Prop
  | .balanceUpdate => ∀ asset, params[(1 : ℕ)]? = some (.string asset) → asset ∈ dictAsset
  | _ => ∀ name, params[(1 : ℕ)]? = some (.string name) → names name

theorem marketAt_name {dictMarket : Dict String (Market D)} {i : ℕ} {name : String} {m : Market D}
    (h : marketAt params dictMarket i = .ok (name, m)) : params[i]? = some (.string name) := by
  unfold marketAt at h
  simp only [read_bind, stringAt_ok] at h
  obtain ⟨str, hstr, hfind⟩ := h
  cases hm : dictMarket.find str with
  | none => simp [hm] at hfind
  | some m' =>
    rw [hm] at hfind
    cases hfind
    exact hstr

theorem Server.Served.named {s s' : Server D} {padding : ℕ} {now : ℚ} {op : Op D}
    (h : Server.Served mpd s command params padding now s' op)
    (hconf : s.engine.Configured dictAsset names) : command.Named dictAsset names params := by
  have hread := h.read
  have hname : ∀ {name : String} {m : Market D},
      marketAt params s.engine.dictMarket 1 = .ok (name, m) →
        ∀ name', params[(1 : ℕ)]? = some (.string name') → names name' := by
    intro name m hm name' hname'
    obtain rfl : name = name' := by
      have heq := (marketAt_name hm).symm.trans hname'
      simpa using heq
    exact (hconf.markets name).mp (Dict.mem_of_find (marketAt_ok hm))
  cases command with
  | balanceUpdate =>
    obtain ⟨args, hargs, -⟩ := read_map.mp hread
    obtain ⟨-, hprec, -, hasset, -⟩ := readUpdateBalance_ok.mp hargs
    intro asset hasset'
    obtain rfl : args.asset = asset := by
      have heq := hasset.symm.trans hasset'
      simpa using heq
    rw [hconf.assets] at hprec
    by_contra hmem
    simp [assetPrecShow, Dict.find_eq_none.mpr hmem] at hprec
  | orderPutLimit =>
    obtain ⟨⟨m, args⟩, hargs, -⟩ := read_map.mp hread
    unfold readLimitOrder at hargs
    simp only [read_bind] at hargs
    obtain ⟨-, -, userId, -, ⟨name, m'⟩, hm, -⟩ := hargs
    exact hname hm
  | orderPutMarket =>
    obtain ⟨⟨m, args⟩, hargs, -⟩ := read_map.mp hread
    unfold readMarketOrder at hargs
    simp only [read_bind] at hargs
    obtain ⟨-, -, userId, -, ⟨name, m'⟩, hm, -⟩ := hargs
    exact hname hm
  | orderCancel =>
    obtain ⟨⟨m, args⟩, hargs, -⟩ := read_map.mp hread
    unfold readCancelOrder at hargs
    simp only [read_bind] at hargs
    obtain ⟨-, -, userId, -, ⟨name, m'⟩, hm, -⟩ := hargs
    exact hname hm

/-- The replay of a request takes the order ids the request took. -/
theorem load_orderIdStart {env : ℕ → Surroundings} {id : ℕ} {t : ℚ}
    (hconf : r.Configured dictAsset names) (hnamed : command.Named dictAsset names params)
    (h : r.load mpd env (id, t, operDetail command.method (command.logged params)) = some r') :
    r'.statics.orderIdStart = r.statics.orderIdStart + command.opens := by
  obtain ⟨ret, hload, hret⟩ := load_cases h
  rw [loadOper_operDetail] at hload
  cases command with
  | balanceUpdate =>
    rcases loadUpdateBalance_cases (Option.some.inj hload) hret with ⟨rfl, -⟩ | ⟨args, -, hreq⟩
    · rfl
    · exact step_orderIdStart (step_of_request hreq)
  | orderPutLimit =>
    rcases loadLimitOrder_cases hload hret with ⟨-, hunknown⟩ | ⟨args, hreq⟩
    · exact absurd hunknown
        (known_readLimitOrder fun name hname => (hconf.markets name).mpr (hnamed name hname))
    · exact step_orderIdStart (step_of_request hreq)
  | orderPutMarket =>
    rcases loadMarketOrder_cases hload hret with ⟨-, hunknown⟩ | ⟨args, hreq⟩
    · exact absurd hunknown
        (known_readMarketOrder fun name hname => (hconf.markets name).mpr (hnamed name hname))
    · exact step_orderIdStart (step_of_request hreq)
  | orderCancel =>
    rcases loadCancelOrder_cases (Option.some.inj hload) with rfl | ⟨args, hreq⟩
    · rfl
    · exact step_orderIdStart (step_of_request hreq)

end Again

/-! ## The world -/

/-- The last order id and the last deal id. -/
def Engine.ids (e : Engine D) : ℕ × ℕ := (e.statics.orderIdStart, e.statics.dealsIdStart)

/-- An accepted request, with the ids before and after it. -/
structure Service where
  log : OperLog Json
  command : Command
  params : List Json
  before : ℕ × ℕ
  after : ℕ × ℕ
  lost : Bool

/-- What the entry of a request says. -/
def Service.entry (sv : Service) : Json := operDetail sv.command.method (sv.command.logged sv.params)

/-- A start that reads the log up to `id` loses what is behind. -/
def Service.loseAbove (id : ℕ) (sv : Service) : Service :=
  { sv with lost := sv.lost || decide (id < sv.log.id) }

/-- What does not change while processes come and go. -/
structure Settings (D : Type) where
  mpd : Mpd D
  column : ℕ → D → D
  localtime : ℤ → Tm
  mktime : Tm → ℤ
  dictAsset : Dict String AssetType
  confs : List (MarketConf D)

structure World (D : Type) where
  server : Server D
  db : Db Json
  crashed : Bool
  clock : ℚ
  last : Option (SliceRow D)
  served : List Service

/-- What happens next; `io` is a step of the operation log, or the crash. -/
inductive Act (D : Type)
  | request (blocked : Bool) (command : Command) (params : List Json) (padding : ℕ) (now : ℚ)
  | expire (now : ℚ)
  | io
  | slice (entries : List (BalanceKey × D)) (now : ℚ)
  | start (env : ℕ → Engine.Surroundings) (now done : ℚ)

namespace World

/-- The first process, with nothing behind it. -/
def boot (e : Engine D) (clock : ℚ) : World D where
  server := ⟨e, initOperlog 0⟩
  db := ∅
  crashed := false
  clock := clock
  last := none
  served := []

/-- The record of a request. -/
def service (w : World D) (s : Server D) (command : Command) (params : List Json) (now : ℚ) :
    Service where
  log := ⟨s.operlog.operlogIdStart, now, operDetail command.method (command.logged params)⟩
  command := command
  params := params
  before := w.server.engine.ids
  after := s.engine.ids
  lost := false

inductive Step (c : Settings D) : World D → Act D → World D → Prop
  | refused {w : World D} {blocked command params padding now reply s} : w.crashed = false →
    w.clock ≤ now →
    w.server.onRecvPkg c.mpd blocked command params padding now = some (reply, s) →
    reply.isError = true →
      Step c w (.request blocked command params padding now) { w with server := s, clock := now }
  | accepted {w : World D} {blocked command params padding now reply s} : w.crashed = false →
    w.clock ≤ now →
    w.server.onRecvPkg c.mpd blocked command params padding now = some (reply, s) →
    reply.isError = false →
      Step c w (.request blocked command params padding now)
        { w with
          server := s, clock := now, served := w.served ++ [w.service s command params now] }
  | expire {w : World D} {now s} : w.crashed = false → w.clock ≤ now →
    w.server.handle c.mpd (.expire now) = some s →
      Step c w (.expire now) { w with server := s, clock := now }
  | io {w : World D} {operlog db crashed} :
    System.Step c.localtime ⟨w.server.operlog, w.db, w.crashed⟩ ⟨operlog, db, crashed⟩ →
    operlog.operlogIdStart = w.server.operlog.operlogIdStart →
      Step c w .io
        { w with server := { w.server with operlog := operlog }, db := db, crashed := crashed }
  | slice {w : World D} {entries now slice} : w.crashed = false → w.clock ≤ now →
    Iterates w.server.engine.statics.ledger.dictBalance entries →
    w.server.engine.dump c.column (c.confs.map MarketConf.name) entries = some slice →
      Step c w (.slice entries now)
        { w with clock := now, last := some ⟨⌊now⌋, w.server.operlog.operlogIdStart, slice⟩ }
  | start {w : World D} {env now done e id} : w.crashed = true → w.clock ≤ now →
    (∀ i, now ≤ (env i).now ∧ (env i).now ≤ done) →
    initFromDb c.mpd env c.localtime c.mktime c.dictAsset c.confs w.db w.last ⌊now⌋ =
      some (e, id) →
      Step c w (.start env now done)
        { w with
          server := ⟨e, initOperlog id⟩, crashed := false, clock := done,
          served := w.served.map (Service.loseAbove id) }

/-- What can be reached when every step is `ok`. -/
inductive Reached (c : Settings D) (ok : World D → Act D → Prop) : World D → Prop
  | boot {e : Engine D} (clock : ℚ) : Engine.init c.mpd c.dictAsset c.confs = some e →
    Reached c ok (boot e clock)
  | step {w w' : World D} {act : Act D} : Reached c ok w → ok w act → Step c w act w' →
    Reached c ok w'

/-- The table of a day that a start visits. -/
def Visited (c : Settings D) (w : World D) (now : ℚ) (table : String) : Prop :=
  ∃ date, VisitsDay c.localtime c.mktime w.last ⌊now⌋ date ∧ operlogTable (c.localtime date) = table

end World

/-! ## The settings stay -/

namespace Engine

variable {dictAsset : Dict String AssetType} {names : String → Prop} {confs : List (MarketConf D)}
  {e₀ e : Engine D}

theorem Configured.loadOrder (h : e.Configured dictAsset names) (row : Order D) :
    (e.loadOrder mpd row).Configured dictAsset names := by
  unfold Engine.loadOrder
  cases hm : e.dictMarket.find row.market with
  | none => exact h
  | some m => exact h.put (congrArg Prod.snd (orderPut_fixed mpd e.statics m _)) hm

/-- What a start begins with has the markets of the settings. -/
theorem configured_sliceEngine {last : Option (SliceRow D)}
    (hinit : Engine.init mpd dictAsset confs = some e₀)
    (h : sliceEngine mpd dictAsset confs last = some e) :
    e.Configured dictAsset (· ∈ e₀.dictMarket) := by
  have hfirst : e₀.Configured dictAsset (· ∈ e₀.dictMarket) := by
    obtain ⟨d, -, rfl⟩ := Option.map_eq_some_iff.mp hinit
    exact ⟨rfl, fun _ => Iff.rfl⟩
  have hids : ∀ n k, (e₀.setIds n k).Configured dictAsset (· ∈ e₀.dictMarket) :=
    fun _ _ => ⟨hfirst.assets, hfirst.markets⟩
  have hrows : ∀ (rows : List (ℕ × Order D)) (e : Engine D),
      e.Configured dictAsset (· ∈ e₀.dictMarket) →
        (rows.foldl (fun e row => e.loadOrder mpd row.2) e).Configured dictAsset
          (· ∈ e₀.dictMarket) := by
    intro rows
    induction rows with
    | nil => exact fun _ h => h
    | cons row rows ih => exact fun e h => ih _ (h.loadOrder row.2)
  unfold sliceEngine at h
  cases last with
  | none =>
    obtain rfl := Option.some.inj (hinit.symm.trans h)
    exact hfirst
  | some row =>
    dsimp only at h
    split_ifs at h with htime
    · rw [hinit] at h
      obtain rfl := Option.some.inj h
      exact hids _ _
    · rw [restore_eq, hinit] at h
      obtain rfl := Option.some.inj h
      have hload := hrows (row.slice.orders.above 0) _
        (hids row.slice.endOrderId row.slice.endDealsId)
      exact ⟨hload.assets, hload.markets⟩

theorem Configured.rows {env : ℕ → Surroundings} {rows : List (ℕ × ℚ × Json)} :
    ∀ {e e' : Engine D}, e.Configured dictAsset names →
      rows.foldlM (Engine.load mpd env) e = some e' →
      e'.Configured dictAsset names := by
  induction rows with
  | nil =>
    intro e e' h hrun
    cases hrun
    exact h
  | cons row rows ih =>
    intro e e' h hrun
    rw [List.foldlM_cons] at hrun
    obtain ⟨e₁, h₁, hrun⟩ := Option.bind_eq_some_iff.mp hrun
    exact ih (h.load h₁) hrun

end Engine

/-! ## A world for examples -/

end ViabtcExchange
