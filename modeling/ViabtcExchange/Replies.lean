import ViabtcExchange.Runs
import ViabtcExchange.Server

/-!
# Replies

What a request does, said once (`Server.onRecvPkg_cases`): it is answered with an error and has
left everything as it was, or it was a request of the engine, accepted, and is in the log.

**Theorem (`replies_logged`).** Errors leave the server as it was, results are logged once. What is
logged of a balance update is not quite what was sent: its detail has got the member "id".
-/

namespace ViabtcExchange

section Read

variable {D : Type} {mpd : Mpd D} {params : List Json} {dictMarket : Dict String (Market D)}
  {m : Market D}

theorem read_bind {α β : Type} {x : Except Refusal α} {f : α → Except Refusal β} {b : β} :
    (x >>= f) = .ok b ↔ ∃ a, x = .ok a ∧ f a = .ok b := by
  cases x <;> simp [bind, Except.bind]

theorem check_ok {ok : Bool} {u : Unit} : check ok = .ok u ↔ ok = true := by
  cases ok <;> simp [check]

theorem integerAt_ok {i : ℕ} {n : ℤ} :
    integerAt params i = .ok n ↔ params[i]? = some (.integer n) := by
  unfold integerAt
  split <;> simp_all

theorem stringAt_ok {i : ℕ} {str : String} :
    stringAt params i = .ok str ↔ params[i]? = some (.string str) := by
  unfold stringAt
  split <;> simp_all

theorem objectAt_ok {i : ℕ} {kvs : List (String × Json)} :
    objectAt params i = .ok kvs ↔ params[i]? = some (.object kvs) := by
  unfold objectAt
  split <;> simp_all

theorem decimalAt_ok {prec i : ℕ} {x : D} : decimalAt mpd params prec i = .ok x ↔
    ∃ str, params[i]? = some (.string str) ∧ mpd.decimal str prec = some x := by
  unfold decimalAt
  simp only [read_bind, stringAt_ok]
  refine exists_congr fun str => and_congr_right fun _ => ?_
  cases mpd.decimal str prec <;> simp

theorem positiveAt_ok {prec i : ℕ} {x : D} (h : positiveAt mpd params prec i = .ok x) :
    0 < mpd.cmp x mpd.zero := by
  unfold positiveAt at h
  simp only [read_bind, check_ok] at h
  obtain ⟨y, -, u, hpos, hy⟩ := h
  cases hy
  simpa using hpos

theorem feeAt_ok {prec i : ℕ} {x : D} (h : feeAt mpd params prec i = .ok x) :
    feeRateOk mpd x = true := by
  unfold feeAt at h
  simp only [read_bind, check_ok] at h
  obtain ⟨y, -, u, hfee, hy⟩ := h
  cases hy
  exact hfee

theorem marketAt_ok {i : ℕ} {name : String}
    (h : marketAt params dictMarket i = .ok (name, m)) : dictMarket.find name = some m := by
  unfold marketAt at h
  simp only [read_bind] at h
  obtain ⟨str, -, hfind⟩ := h
  cases hm : dictMarket.find str with
  | none => simp [hm] at hfind
  | some m' =>
    rw [hm] at hfind
    cases hfind
    exact hm

theorem readLimitOrder_ok {args : LimitArgs D}
    (h : readLimitOrder mpd params dictMarket = .ok (m, args)) :
    dictMarket.find args.market = some m ∧ Engine.LimitOk mpd args := by
  unfold readLimitOrder at h
  simp only [read_bind] at h
  obtain ⟨-, -, userId, -, ⟨name, m'⟩, hm, side, -, amount, hamount, price, hprice, takerFee,
    htaker, makerFee, hmaker, source, -, hargs⟩ := h
  cases hargs
  exact ⟨marketAt_ok hm, positiveAt_ok hamount, positiveAt_ok hprice, feeAt_ok htaker,
    feeAt_ok hmaker⟩

theorem readMarketOrder_ok {args : MarketArgs D}
    (h : readMarketOrder mpd params dictMarket = .ok (m, args)) :
    dictMarket.find args.market = some m ∧ Engine.MarketOk mpd args := by
  unfold readMarketOrder at h
  simp only [read_bind] at h
  obtain ⟨-, -, userId, -, ⟨name, m'⟩, hm, side, -, amount, hamount, takerFee, htaker, source, -,
    hargs⟩ := h
  cases hargs
  exact ⟨marketAt_ok hm, positiveAt_ok hamount, feeAt_ok htaker⟩

theorem readCancelOrder_ok {args : CancelArgs}
    (h : readCancelOrder params dictMarket = .ok (m, args)) :
    dictMarket.find args.market = some m := by
  unfold readCancelOrder at h
  simp only [read_bind] at h
  obtain ⟨-, -, userId, -, ⟨name, m'⟩, hm, orderId, -, hargs⟩ := h
  cases hargs
  exact marketAt_ok hm

theorem readUpdateBalance_ok {precOf : String → ℤ} {args : UpdateArgs D} :
    readUpdateBalance mpd params precOf = .ok args ↔ params.length = 6 ∧ 0 ≤ precOf args.asset ∧
      (∃ n, params[0]? = some (.integer n) ∧ args.userId = toUint32 n) ∧
      params[1]? = some (.string args.asset) ∧ params[2]? = some (.string args.business) ∧
      (∃ n, params[3]? = some (.integer n) ∧ args.businessId = toUint64 n) ∧
      (∃ str, params[4]? = some (.string str) ∧
        mpd.decimal str (precOf args.asset).toNat = some args.change) ∧
      params[5]? = some (.object args.detail) := by
  unfold readUpdateBalance assetAt
  simp only [read_bind, check_ok, integerAt_ok, stringAt_ok, objectAt_ok, decimalAt_ok]
  constructor
  · rintro ⟨-, hsize, n, hn, ⟨asset, prec⟩, ⟨asset', hasset, hprec⟩, business, hbusiness, k, hk,
      change, ⟨str, hstr, hchange⟩, detail, hdetail, hargs⟩
    cases hargs
    split_ifs at hprec with hneg
    cases hprec
    exact ⟨by simpa using hsize, not_lt.mp hneg, ⟨n, hn, rfl⟩, hasset, hbusiness, ⟨k, hk, rfl⟩,
      ⟨str, hstr, hchange⟩, hdetail⟩
  · obtain ⟨userId, asset, business, businessId, change, detail⟩ := args
    rintro ⟨hsize, hprec, ⟨n, hn, rfl⟩, hasset, hbusiness, ⟨k, hk, rfl⟩, ⟨str, hstr, hchange⟩,
      hdetail⟩
    exact ⟨(), by simpa using hsize, n, hn, (asset, _), ⟨asset, hasset, if_neg (not_lt.mpr hprec)⟩,
      business, hbusiness, k, hk, change, ⟨str, hstr, hchange⟩, detail, hdetail, rfl⟩

end Read

/-! ## What a request does -/

section Codes

variable {D : Type}

/-- Errors are told apart by negative codes. -/
structure Codes (errors : ℤ → Option (Reply D)) : Prop where
  error : ∀ ret reply, errors ret = some reply → ret < 0 ∧ reply.isError = true
  none : ∀ ret, errors ret = none → 0 ≤ ret

theorem codes_ofCode {told : List (ℤ × Reply D)}
    (h : ∀ p ∈ told, p.1 < 0 ∧ p.2.isError = true) : Codes (Reply.ofCode told) where
  error ret reply hret := by
    unfold Reply.ofCode at hret
    cases htold : told.lookup ret with
    | some reply' =>
      simp only [htold] at hret
      cases hret
      obtain ⟨l, l', rfl, -⟩ := List.lookup_eq_some_iff.mp htold
      exact h (ret, reply) (by simp)
    | none =>
      simp only [htold] at hret
      split_ifs at hret with hneg
      cases hret
      exact ⟨hneg, rfl⟩
  none ret hret := by
    unfold Reply.ofCode at hret
    cases htold : told.lookup ret with
    | some reply => simp [htold] at hret
    | none =>
      simp only [htold] at hret
      split_ifs at hret with hneg
      omega

theorem codes_ofUpdate : Codes (Reply.ofUpdate (D := D)) := codes_ofCode (by simp [Reply.isError])

theorem codes_ofLimit : Codes (Reply.ofLimit (D := D)) := codes_ofCode (by simp [Reply.isError])

theorem codes_ofMarket : Codes (Reply.ofMarket (D := D)) := codes_ofCode (by simp [Reply.isError])

theorem codes_ofCancel : Codes (Reply.ofCancel (D := D)) := codes_ofCode (by simp)

end Codes

section Outcomes

variable {D : Type} {mpd : Mpd D} {s : Statics D} {m : Market D} {userId : ℕ} {side : OrderSide}
  {amount price takerFee makerFee : D} {source : String} {o : Outcome D}

/-- A request function has refused the order and changed nothing, or it returns zero. -/
def Outcome.Decided (o : Outcome D) (s : Statics D) (m : Market D) : Prop :=
  o.ret < 0 ∧ o.statics = s ∧ o.market = m ∨ o.ret = 0

theorem restLimitOrder_ret (e : Execution D) : (restLimitOrder mpd real e).ret = 0 := by
  unfold restLimitOrder
  dsimp only
  split_ifs <;> rfl

theorem decided_limit (h : marketPutLimitOrder mpd real s m userId side amount price takerFee
    makerFee source = some o) : o.Decided s m := by
  rcases marketPutLimitOrder_cases h with ⟨ret, hret, rfl⟩ | ⟨-, -, e, -, rfl⟩
  · exact Or.inl ⟨hret, rfl, rfl⟩
  · exact Or.inr (restLimitOrder_ret e)

theorem decided_market (h : marketPutMarketOrder mpd real s m userId side amount takerFee source =
    some o) : o.Decided s m := by
  rcases marketPutMarketOrder_cases h with ⟨ret, hret, rfl⟩ | ⟨-, e, -, rfl⟩
  · exact Or.inl ⟨hret, rfl, rfl⟩
  · exact Or.inr rfl

/-- And so for a balance update. -/
theorem updateBalance_cases (mpd : Mpd D) (real : Bool) (e : Engine D) (args : UpdateArgs D)
    (padding : ℕ) (now : ℚ) :
    (e.updateBalance mpd real args padding now).1 < 0 ∧
        (e.updateBalance mpd real args padding now).2 = e ∨
      (e.updateBalance mpd real args padding now).1 = 0 := by
  unfold Engine.updateBalance updateUserBalance
  dsimp only
  cases e.dictUpdate.find _ with
  | some _ => exact Or.inl ⟨by norm_num, rfl⟩
  | none =>
    cases applyChange mpd e.statics.ledger args.userId args.asset args.change with
    | none => exact Or.inl ⟨by norm_num, rfl⟩
    | some b => exact Or.inr rfl

end Outcomes

theorem Engine.step_of_request {D : Type} {mpd : Mpd D} {real : Bool} {e e' : Engine D} {op : Op D}
    (h : e.request mpd real op = some (0, e')) : e.step mpd real op = some e' := by
  unfold Engine.step
  rw [h]
  rfl

theorem Engine.put_self {D : Type} {e : Engine D} {name : String} {m : Market D}
    (hm : e.dictMarket.find name = some m) : e.put name e.statics m = e := by
  have hdict : e.dictMarket.insert name m = e.dictMarket := Dict.ext_find fun k => by
    rw [Dict.find_insert]
    split_ifs with hk
    · rw [hk, hm]
    · rfl
  rw [Engine.put, hdict]

namespace Engine

variable {D : Type} {mpd : Mpd D} {real : Bool} {e : Engine D} {m : Market D}

theorem putLimit_eq {args : LimitArgs D} (hm : e.dictMarket.find args.market = some m)
    (hok : LimitOk mpd args) : e.putLimit mpd real args =
      (marketPutLimitOrder mpd real e.statics m args.userId args.side args.amount args.price
        args.takerFee args.makerFee args.source).map (e.finish args.market) := by
  have hargs : ¬(mpd.cmp args.amount mpd.zero ≤ 0 ∨ mpd.cmp args.price mpd.zero ≤ 0 ∨
      (!feeRateOk mpd args.takerFee) = true ∨ (!feeRateOk mpd args.makerFee) = true) := by
    simp [hok.amount, hok.price, hok.takerFee, hok.makerFee]
  unfold putLimit
  simp only [hm, if_neg hargs]

theorem putMarket_eq {args : MarketArgs D} (hm : e.dictMarket.find args.market = some m)
    (hok : MarketOk mpd args) : e.putMarket mpd real args =
      (marketPutMarketOrder mpd real e.statics m args.userId args.side args.amount args.takerFee
        args.source).map (e.finish args.market) := by
  have hargs : ¬(mpd.cmp args.amount mpd.zero ≤ 0 ∨ (!feeRateOk mpd args.takerFee) = true) := by
    simp [hok.amount, hok.takerFee]
  unfold putMarket
  simp only [hm, if_neg hargs]

end Engine

/-- The request of the engine that a command and its parameters stand for. -/
def Command.read {D : Type} (mpd : Mpd D) (e : Engine D) (params : List Json) (padding : ℕ)
    (now : ℚ) : Command → Except Refusal (Op D)
  | .balanceUpdate =>
    (readUpdateBalance mpd params (assetPrecShow e.statics.ledger.dictAsset)).map
      (Op.updateBalance · padding now)
  | .orderPutLimit => (readLimitOrder mpd params e.dictMarket).map (Op.limitOrder ·.2)
  | .orderPutMarket => (readMarketOrder mpd params e.dictMarket).map (Op.marketOrder ·.2)
  | .orderCancel => (readCancelOrder params e.dictMarket).map (Op.cancelOrder ·.2)

/-- The parameters as they are logged. -/
def Command.logged (params : List Json) : Command → List Json
  | .balanceUpdate =>
    match params[(3 : ℕ)]?, params[(5 : ℕ)]? with
    | some (.integer n), some (.object detail) =>
      params.set 5 (.object (setId detail (toUint64 n)))
    | _, _ => params
  | _ => params

namespace Server

variable {D : Type} {mpd : Mpd D} {s s' : Server D} {params : List Json} {now : ℚ}
  {reply reply' : Reply D}

/-- What the source of an order is held to. -/
def SourceFits : Op D → Prop
  | .limitOrder args => args.source.utf8ByteSize < sourceMaxLen
  | .marketOrder args => args.source.utf8ByteSize < sourceMaxLen
  | _ => True

/-- A request that is answered with a result. -/
structure Served (mpd : Mpd D) (s : Server D) (command : Command) (params : List Json)
    (padding : ℕ) (now : ℚ) (s' : Server D) (op : Op D) : Prop where
  read : command.read mpd s.engine params padding now = .ok op
  source : SourceFits op
  step : s.engine.step mpd true op = some s'.engine
  log : s'.operlog = s.operlog.append now (operDetail command.method (command.logged params))

theorem conclude_cases {error : Option (Reply D)} {method : String}
    (h : s.conclude error method params now reply = (reply', s')) :
    error = some reply' ∧ s' = s ∨
      error = none ∧ reply' = reply ∧ s' = s.appendOperlog method params now := by
  unfold conclude at h
  cases error with
  | some error =>
    cases h
    exact Or.inl ⟨rfl, rfl⟩
  | none =>
    cases h
    exact Or.inr ⟨rfl, rfl, rfl⟩

theorem serveUpdate_cases {padding : ℕ}
    (h : s.onCmdBalanceUpdate mpd params padding now = (reply, s')) :
    reply.isError = true ∧ s' = s ∨
      reply.isError = false ∧ ∃ op, Served mpd s .balanceUpdate params padding now s' op := by
  unfold onCmdBalanceUpdate at h
  cases hread : readUpdateBalance mpd params (assetPrecShow s.engine.statics.ledger.dictAsset) with
  | error r =>
    rw [hread] at h
    cases h
    exact Or.inl ⟨rfl, rfl⟩
  | ok args =>
    rw [hread] at h
    dsimp only at h
    have hret := updateBalance_cases mpd true s.engine args padding now
    rcases conclude_cases h with ⟨hcode, rfl⟩ | ⟨hcode, rfl, rfl⟩
    · obtain ⟨hneg, herr⟩ := codes_ofUpdate.error _ _ hcode
      obtain ⟨-, hsame⟩ | hzero := hret
      · exact Or.inl ⟨herr, by rw [hsame]⟩
      · omega
    · have hpos := codes_ofUpdate.none _ hcode
      obtain ⟨hneg, -⟩ | hzero := hret
      · omega
      · obtain ⟨-, -, -, -, -, ⟨k, hk, hid⟩, -, hdetail⟩ := readUpdateBalance_ok.mp hread
        refine Or.inr ⟨rfl, .updateBalance args padding now, ?_, trivial, ?_, ?_⟩
        · rw [Command.read, hread]
          rfl
        · exact Engine.step_of_request (congrArg some (Prod.ext hzero rfl))
        · simp only [Command.logged, hk, hdetail, ← hid]
          rfl

/-- The end of the handlers of orders. -/
theorem serveOrder_cases {errors : ℤ → Option (Reply D)} (hcodes : Codes errors) {name : String}
    {m : Market D} {o : Outcome D} {method : String} (hm : s.engine.dictMarket.find name = some m)
    (ho : o.Decided s.engine.statics m)
    (h : (s.leave name o).conclude (errors o.ret) method params now (.result o.result) =
      (reply, s')) :
    reply.isError = true ∧ s' = s ∨
      reply.isError = false ∧ o.ret = 0 ∧ s'.engine = s.engine.put name o.statics o.market ∧
        s'.operlog = s.operlog.append now (operDetail method params) := by
  rcases conclude_cases h with ⟨hcode, rfl⟩ | ⟨hcode, rfl, rfl⟩
  · obtain ⟨hneg, herr⟩ := hcodes.error _ _ hcode
    obtain ⟨-, hs, hmarket⟩ | hzero := ho
    · exact Or.inl ⟨herr, by rw [leave, hs, hmarket, Engine.put_self hm]⟩
    · omega
  · have hpos := hcodes.none _ hcode
    obtain ⟨hneg, -⟩ | hzero := ho
    · omega
    · exact Or.inr ⟨rfl, hzero, rfl, rfl⟩

theorem serveLimit_cases {padding : ℕ}
    (h : s.onCmdOrderPutLimit mpd params now = some (reply, s')) :
    reply.isError = true ∧ s' = s ∨
      reply.isError = false ∧ ∃ op, Served mpd s .orderPutLimit params padding now s' op := by
  unfold onCmdOrderPutLimit at h
  cases hread : readLimitOrder mpd params s.engine.dictMarket with
  | error r =>
    rw [hread] at h
    cases h
    exact Or.inl ⟨rfl, rfl⟩
  | ok r =>
    obtain ⟨m, args⟩ := r
    rw [hread] at h
    dsimp only at h
    split_ifs at h with hsource
    · cases h
      exact Or.inl ⟨rfl, rfl⟩
    obtain ⟨o, ho, h⟩ := Option.map_eq_some_iff.mp h
    obtain ⟨hm, hok⟩ := readLimitOrder_ok hread
    refine (serveOrder_cases codes_ofLimit hm (decided_limit ho) h).imp id ?_
    rintro ⟨herr, hzero, he, hlog⟩
    refine ⟨herr, .limitOrder args, by rw [Command.read, hread]; rfl, not_le.mp hsource, ?_, hlog⟩
    apply Engine.step_of_request
    rw [Engine.request, Engine.putLimit_eq hm hok, ho, Option.map_some, Engine.finish, hzero, he]

theorem serveMarket_cases {padding : ℕ}
    (h : s.onCmdOrderPutMarket mpd params now = some (reply, s')) :
    reply.isError = true ∧ s' = s ∨
      reply.isError = false ∧ ∃ op, Served mpd s .orderPutMarket params padding now s' op := by
  unfold onCmdOrderPutMarket at h
  cases hread : readMarketOrder mpd params s.engine.dictMarket with
  | error r =>
    rw [hread] at h
    cases h
    exact Or.inl ⟨rfl, rfl⟩
  | ok r =>
    obtain ⟨m, args⟩ := r
    rw [hread] at h
    dsimp only at h
    split_ifs at h with hsource
    · cases h
      exact Or.inl ⟨rfl, rfl⟩
    obtain ⟨o, ho, h⟩ := Option.map_eq_some_iff.mp h
    obtain ⟨hm, hok⟩ := readMarketOrder_ok hread
    refine (serveOrder_cases codes_ofMarket hm (decided_market ho) h).imp id ?_
    rintro ⟨herr, hzero, he, hlog⟩
    refine ⟨herr, .marketOrder args, by rw [Command.read, hread]; rfl, not_le.mp hsource, ?_, hlog⟩
    apply Engine.step_of_request
    rw [Engine.request, Engine.putMarket_eq hm hok, ho, Option.map_some, Engine.finish, hzero, he]

theorem serveCancel_cases {padding : ℕ}
    (h : s.onCmdOrderCancel mpd params now = (reply, s')) :
    reply.isError = true ∧ s' = s ∨
      reply.isError = false ∧ ∃ op, Served mpd s .orderCancel params padding now s' op := by
  unfold onCmdOrderCancel at h
  cases hread : readCancelOrder params s.engine.dictMarket with
  | error r =>
    rw [hread] at h
    cases h
    exact Or.inl ⟨rfl, rfl⟩
  | ok r =>
    obtain ⟨m, args⟩ := r
    have hm := readCancelOrder_ok hread
    rw [hread] at h
    dsimp only at h
    cases hget : marketGetOrder m args.orderId with
    | none =>
      rw [hget] at h
      cases h
      exact Or.inl ⟨rfl, rfl⟩
    | some i =>
      rw [hget] at h
      dsimp only at h
      split_ifs at h with huser
      · cases h
        exact Or.inl ⟨rfl, rfl⟩
      refine (serveOrder_cases codes_ofCancel hm (Or.inr rfl) h).imp id ?_
      rintro ⟨herr, hzero, he, hlog⟩
      refine ⟨herr, .cancelOrder args, by rw [Command.read, hread]; rfl, trivial, ?_, hlog⟩
      apply Engine.step_of_request
      simp only [Engine.request, Engine.cancel, hm, hget, if_neg huser, Engine.finish, he]
      rfl

/-- **What a request does:** it is refused and nothing happens, or it is served. -/
theorem onRecvPkg_cases {blocked : Bool} {command : Command} {padding : ℕ}
    (h : s.onRecvPkg mpd blocked command params padding now = some (reply, s')) :
    reply.isError = true ∧ s' = s ∨
      reply.isError = false ∧ ∃ op, Served mpd s command params padding now s' op := by
  unfold onRecvPkg at h
  split_ifs at h
  · cases h
    exact Or.inl ⟨rfl, rfl⟩
  cases command with
  | balanceUpdate => exact serveUpdate_cases (Option.some.inj h)
  | orderPutLimit => exact serveLimit_cases h
  | orderPutMarket => exact serveMarket_cases h
  | orderCancel => exact serveCancel_cases (Option.some.inj h)

end Server

/-- **Errors change nothing, results are logged once**, under the next operation id. -/
theorem replies_logged {D : Type} (mpd : Mpd D) (s s' : Server D) (blocked : Bool)
    (command : Command) (params : List Json) (padding : ℕ) (now : ℚ) (reply : Reply D)
    (h : s.onRecvPkg mpd blocked command params padding now = some (reply, s')) :
    (reply.isError = true → s' = s) ∧
      (reply.isError = false →
        s'.operlog.operlogIdStart = s.operlog.operlogIdStart + 1 ∧
          s'.operlog.list = s.operlog.list ++
            [⟨s.operlog.operlogIdStart + 1, now,
              operDetail command.method (command.logged params)⟩]) := by
  rcases Server.onRecvPkg_cases h with ⟨herr, hsame⟩ | ⟨herr, op, hserved⟩
  · exact ⟨fun _ => hsame, fun hok => by simp [herr] at hok⟩
  · refine ⟨fun hbad => by simp [herr] at hbad, fun _ => ?_⟩
    rw [hserved.log]
    exact ⟨rfl, rfl⟩

section Deposit

/-- A server at its start. -/
def exampleServer : Option (Server ℚ) :=
  (Engine.init decimal128 exampleAssets [exampleConf 8]).map fun e => ⟨e, initOperlog 0⟩

def depositParams : List Json :=
  [.integer 1, .string "BTC", .string "deposit", .integer 1, .string "1", .object []]

theorem exampleServer_served {params : List Json}
    (hcheck : (exampleServer.bind fun s =>
      s.onRecvPkg decimal128 false .balanceUpdate params 0 0).any (fun r => !r.1.isError) = true) :
    ∃ s s' reply, exampleServer = some s ∧
      s.onRecvPkg decimal128 false .balanceUpdate params 0 0 = some (reply, s') ∧
        reply.isError = false := by
  obtain ⟨⟨reply, s'⟩, hserve, hok⟩ := (Option.any_eq_true _ _).mp hcheck
  obtain ⟨s, hs, hserve⟩ := Option.bind_eq_some_iff.mp hserve
  exact ⟨s, s', reply, hs, hserve, by simpa using hok⟩

theorem deposit_served : ∃ s s' reply, exampleServer = some s ∧
    s.onRecvPkg decimal128 false .balanceUpdate depositParams 0 0 = some (reply, s') ∧
      reply.isError = false :=
  exampleServer_served (by decide +kernel)

theorem replies_logged_deposit : ∃ s s' reply, exampleServer = some s ∧
    s.onRecvPkg decimal128 false .balanceUpdate depositParams 0 0 = some (reply, s') ∧
      reply.isError = false ∧ s'.operlog.operlogIdStart = s.operlog.operlogIdStart + 1 ∧
        s'.operlog.list = s.operlog.list ++ [⟨s.operlog.operlogIdStart + 1, 0,
          operDetail "update_balance" (Command.balanceUpdate.logged depositParams)⟩] := by
  obtain ⟨s, s', reply, hs, hserve, hok⟩ := deposit_served
  exact ⟨s, s', reply, hs, hserve, hok,
    (replies_logged decimal128 s s' false .balanceUpdate depositParams 0 0 reply hserve).2 hok⟩

/-- **The parameters logged are not those sent.** -/
theorem logged_with_id : ¬ ∀ (s s' : Server ℚ) (command : Command) (params : List Json)
    (padding : ℕ) (now : ℚ) (reply : Reply ℚ),
      s.onRecvPkg decimal128 false command params padding now = some (reply, s') →
        reply.isError = false → s'.operlog.list = s.operlog.list ++
          [⟨s.operlog.operlogIdStart + 1, now, operDetail command.method params⟩] := fun hall => by
  obtain ⟨s, s', reply, -, hserve, hok⟩ := deposit_served
  rcases Server.onRecvPkg_cases hserve with ⟨herr, -⟩ | ⟨-, op, hserved⟩
  · simp [herr] at hok
  · have hlist := hall s s' .balanceUpdate depositParams 0 0 reply hserve hok
    rw [hserved.log] at hlist
    have hlast := List.append_cancel_left hlist
    simp [operDetail, Command.logged, depositParams, setId] at hlast

end Deposit

end ViabtcExchange
