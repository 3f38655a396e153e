import ViabtcExchange.Loop

/-!
# Accepted requests and runs

What an accepted request can do, said once: `marketPutLimitOrder_cases`,
`marketPutMarketOrder_cases` and `Engine.step_cases` invert the functions of the engine, and
`Engine.run_induction` carries an invariant of the steps along a run. `MarketInvariant` is the
special case of a property of every market by itself.
-/

namespace ViabtcExchange

section Cases

variable {D : Type} {mpd : Mpd D} {real : Bool} {s : Statics D} {m : Market D} {userId : ℕ}
  {side : OrderSide} {amount price takerFee makerFee : D} {source : String} {o : Outcome D}

/-- The execution a limit order starts with. -/
def startLimit (mpd : Mpd D) (s : Statics D) (m : Market D) (userId : ℕ) (side : OrderSide)
    (amount price takerFee makerFee : D) (source : String) : Execution D :=
  ⟨s.openOrder, m, newOrder mpd s.openOrder.orderIdStart .limit m userId side price amount takerFee
    makerFee source⟩

/-- The execution a market order starts with. -/
def startMarket (mpd : Mpd D) (s : Statics D) (m : Market D) (userId : ℕ) (side : OrderSide)
    (amount takerFee : D) (source : String) : Execution D :=
  ⟨s.openOrder, m, newOrder mpd s.openOrder.orderIdStart .market m userId side mpd.zero amount
    takerFee mpd.zero source⟩

theorem marketPutLimitOrder_cases
    (h : marketPutLimitOrder mpd real s m userId side amount price takerFee makerFee source =
      some o) :
    (∃ ret < 0, o = refuse ret s m) ∨
      hasAvailable mpd s userId (m.giveAsset side) (limitRequire mpd side amount price) = true ∧
      ¬mpd.cmp amount m.minAmount < 0 ∧
      ∃ e, executeLimitOrder mpd real
          (startLimit mpd s m userId side amount price takerFee makerFee source) = some e ∧
        o = restLimitOrder mpd real e := by
  unfold marketPutLimitOrder at h
  split_ifs at h with havail hmin
  · exact Or.inl ⟨-1, by norm_num, (Option.some.inj h).symm⟩
  · exact Or.inl ⟨-2, by norm_num, (Option.some.inj h).symm⟩
  · obtain ⟨e, he, ho⟩ := Option.map_eq_some_iff.mp h
    exact Or.inr ⟨by simpa using havail, hmin, e, he, ho.symm⟩

theorem marketPutMarketOrder_cases
    (h : marketPutMarketOrder mpd real s m userId side amount takerFee source = some o) :
    (∃ ret < 0, o = refuse ret s m) ∨
      hasAvailable mpd s userId (m.giveAsset side) amount = true ∧
      ∃ e, executeMarketOrder mpd real
          (startMarket mpd s m userId side amount takerFee source) = some e ∧
        o = closeMarketOrder real e := by
  unfold marketPutMarketOrder at h
  split_ifs at h with havail
  · exact Or.inl ⟨-1, by norm_num, (Option.some.inj h).symm⟩
  · cases hbook : m.book side.opposite with
    | nil =>
      rw [hbook] at h
      exact Or.inl ⟨-3, by norm_num, (Option.some.inj h).symm⟩
    | cons best _ =>
      rw [hbook] at h
      dsimp only at h
      split_ifs at h with hmin
      · exact Or.inl ⟨-2, by norm_num, (Option.some.inj h).symm⟩
      · obtain ⟨e, he, ho⟩ := Option.map_eq_some_iff.mp h
        exact Or.inr ⟨by simpa using havail, e, he, ho.symm⟩

end Cases

/-! ## Accepted requests -/

namespace Engine

variable {D : Type} {mpd : Mpd D} {real : Bool} {e e' : Engine D}

/-- The numbers of a limit order the handler lets through. -/
structure LimitOk (mpd : Mpd D) (args : LimitArgs D) : Prop where
  amount : 0 < mpd.cmp args.amount mpd.zero
  price : 0 < mpd.cmp args.price mpd.zero
  takerFee : feeRateOk mpd args.takerFee = true
  makerFee : feeRateOk mpd args.makerFee = true

/-- The numbers of a market order the handler lets through. -/
structure MarketOk (mpd : Mpd D) (args : MarketArgs D) : Prop where
  amount : 0 < mpd.cmp args.amount mpd.zero
  takerFee : feeRateOk mpd args.takerFee = true

/-- What an accepted request does, by kind. -/
def StepCases (mpd : Mpd D) (real : Bool) (e e' : Engine D) : Op D → Prop
  | .updateBalance args padding now =>
    ∃ s d, updateUserBalance mpd real e.statics e.dictUpdate args padding now = (0, s, d) ∧
      e' = { e with statics := s, dictUpdate := d }
  | .limitOrder args =>
    ∃ m o, e.dictMarket.find args.market = some m ∧ LimitOk mpd args ∧
      marketPutLimitOrder mpd real e.statics m args.userId args.side args.amount args.price
        args.takerFee args.makerFee args.source = some o ∧
      o.ret = 0 ∧ e' = e.put args.market o.statics o.market
  | .marketOrder args =>
    ∃ m o, e.dictMarket.find args.market = some m ∧ MarketOk mpd args ∧
      marketPutMarketOrder mpd real e.statics m args.userId args.side args.amount args.takerFee
        args.source = some o ∧
      o.ret = 0 ∧ e' = e.put args.market o.statics o.market
  | .cancelOrder args =>
    ∃ m, e.dictMarket.find args.market = some m ∧ args.orderId ∈ m.orders ∧
      (m.order args.orderId).userId = args.userId ∧
      e' = e.put args.market (marketCancelOrder mpd real e.statics m args.orderId).statics
        (marketCancelOrder mpd real e.statics m args.orderId).market
  | .expire now => e' = { e with dictUpdate := expireUpdates e.dictUpdate now }

theorem step_eq_some {op : Op D} (h : e.step mpd real op = some e') :
    e.request mpd real op = some (0, e') := by
  unfold step at h
  split at h
  · rename_i heq
    rw [heq, Option.some.inj h]
  · cases h

theorem step_cases {op : Op D} (h : e.step mpd real op = some e') :
    StepCases mpd real e e' op := by
  have hreq := step_eq_some h
  cases op with
  | updateBalance args padding now =>
    have hpair := Option.some.inj hreq
    unfold updateBalance at hpair
    refine ⟨_, _, Prod.ext (congrArg (·.1) hpair) rfl, (congrArg (·.2) hpair).symm⟩
  | limitOrder args =>
    simp only [request, putLimit] at hreq
    cases hm : e.dictMarket.find args.market with
    | none => simp [hm, invalidArgument] at hreq
    | some m =>
      simp only [hm] at hreq
      split_ifs at hreq with hargs
      · simp [invalidArgument] at hreq
      · obtain ⟨o, ho, hfin⟩ := Option.map_eq_some_iff.mp hreq
        simp only [not_or, not_le, Bool.not_eq_true', Bool.not_eq_false] at hargs
        obtain ⟨ha, hp, ht, hmk⟩ := hargs
        exact ⟨m, o, hm, ⟨ha, hp, ht, hmk⟩, ho, congrArg (·.1) hfin, (congrArg (·.2) hfin).symm⟩
  | marketOrder args =>
    simp only [request, putMarket] at hreq
    cases hm : e.dictMarket.find args.market with
    | none => simp [hm, invalidArgument] at hreq
    | some m =>
      simp only [hm] at hreq
      split_ifs at hreq with hargs
      · simp [invalidArgument] at hreq
      · obtain ⟨o, ho, hfin⟩ := Option.map_eq_some_iff.mp hreq
        simp only [not_or, not_le, Bool.not_eq_true', Bool.not_eq_false] at hargs
        exact ⟨m, o, hm, ⟨hargs.1, hargs.2⟩, ho, congrArg (·.1) hfin, (congrArg (·.2) hfin).symm⟩
  | cancelOrder args =>
    simp only [request, cancel] at hreq
    cases hm : e.dictMarket.find args.market with
    | none => simp [hm, invalidArgument] at hreq
    | some m =>
      simp only [hm, marketGetOrder] at hreq
      split_ifs at hreq with hmem
      · dsimp only at hreq
        split_ifs at hreq with huser
        · simp at hreq
        · exact ⟨m, hm, hmem, not_not.mp huser, (congrArg (·.2) (Option.some.inj hreq)).symm⟩
      · simp at hreq
  | expire now => exact (Prod.ext_iff.mp (Option.some.inj hreq)).2.symm

/-- `I name n m` for every market `m`, where `n` is the last order id. -/
def Markets (I : String → ℕ → Market D → Prop) (e : Engine D) : Prop :=
  ∀ name m, e.dictMarket.find name = some m → I name e.statics.orderIdStart m

/-- A property of single markets survives a step that keeps it in the market it works on. -/
theorem Markets.step {I : String → ℕ → Market D → Prop} {op : Op D}
    (hmono : ∀ name n n' m, n ≤ n' → I name n m → I name n' m)
    (hlimit : ∀ args m o, op = .limitOrder args → e.dictMarket.find args.market = some m →
      LimitOk mpd args →
      marketPutLimitOrder mpd real e.statics m args.userId args.side args.amount args.price
        args.takerFee args.makerFee args.source = some o →
      I args.market e.statics.orderIdStart m →
      e.statics.orderIdStart ≤ o.statics.orderIdStart ∧
        I args.market o.statics.orderIdStart o.market)
    (hmarket : ∀ args m o, op = .marketOrder args → e.dictMarket.find args.market = some m →
      MarketOk mpd args →
      marketPutMarketOrder mpd real e.statics m args.userId args.side args.amount args.takerFee
        args.source = some o →
      I args.market e.statics.orderIdStart m →
      e.statics.orderIdStart ≤ o.statics.orderIdStart ∧
        I args.market o.statics.orderIdStart o.market)
    (hcancel : ∀ args m, op = .cancelOrder args → e.dictMarket.find args.market = some m →
      args.orderId ∈ m.orders →
      I args.market e.statics.orderIdStart m →
      (marketCancelOrder mpd real e.statics m args.orderId).statics.orderIdStart =
          e.statics.orderIdStart ∧
        I args.market e.statics.orderIdStart
          (marketCancelOrder mpd real e.statics m args.orderId).market)
    (hupdate : ∀ s d args padding now, op = .updateBalance args padding now →
      updateUserBalance mpd real e.statics e.dictUpdate args padding now = (0, s, d) →
      s.orderIdStart = e.statics.orderIdStart)
    (h : e.Markets I) (hstep : e.step mpd real op = some e') : e'.Markets I := by
  have hput : ∀ name₀ s (m₀ : Market D), e.statics.orderIdStart ≤ s.orderIdStart →
      I name₀ s.orderIdStart m₀ → (e.put name₀ s m₀).Markets I := by
    intro name₀ s m₀ hle hI name m hm
    simp only [put, Dict.find_insert] at hm
    split_ifs at hm with hname
    · obtain rfl := Option.some.inj hm
      exact hname ▸ hI
    · exact hmono _ _ _ _ hle (h name m hm)
  have hcases := step_cases hstep
  cases op with
  | updateBalance args padding now =>
    obtain ⟨s, d, hupd, rfl⟩ := hcases
    intro name m hm
    rw [show ({ e with statics := s, dictUpdate := d } : Engine D).statics = s from rfl,
      hupdate s d args padding now rfl hupd]
    exact h name m hm
  | limitOrder args =>
    obtain ⟨m, o, hm, hok, hput', -, rfl⟩ := hcases
    obtain ⟨hle, hI⟩ := hlimit args m o rfl hm hok hput' (h _ m hm)
    exact hput _ _ _ hle hI
  | marketOrder args =>
    obtain ⟨m, o, hm, hok, hput', -, rfl⟩ := hcases
    obtain ⟨hle, hI⟩ := hmarket args m o rfl hm hok hput' (h _ m hm)
    exact hput _ _ _ hle hI
  | cancelOrder args =>
    obtain ⟨m, hm, hmem, -, rfl⟩ := hcases
    obtain ⟨heq, hI⟩ := hcancel args m rfl hm hmem (h _ m hm)
    exact hput _ _ _ heq.ge (heq ▸ hI)
  | expire now =>
    rw [hcases]
    exact h

/-! ## Runs -/

theorem run_nil : e.run mpd real [] = some e := rfl

theorem run_cons {op : Op D} {ops : List (Op D)} :
    e.run mpd real (op :: ops) = (e.step mpd real op).bind fun e => e.run mpd real ops := by
  simp only [run, List.foldlM_cons]
  rfl

theorem run_append (ops ops' : List (Op D)) :
    e.run mpd real (ops ++ ops') = (e.run mpd real ops).bind fun e => e.run mpd real ops' := by
  induction ops generalizing e with
  | nil => rfl
  | cons op ops ih =>
    rw [List.cons_append, run_cons, run_cons, Option.bind_assoc]
    exact congrArg _ (funext fun _ => ih)

/-- `Q` of every request of a run and the state it comes in. -/
def Along (mpd : Mpd D) (real : Bool) (Q : Engine D → Op D → Prop) (e : Engine D)
    (ops : List (Op D)) : Prop :=
  ∀ pre op post e₁, ops = pre ++ op :: post → e.run mpd real pre = some e₁ → Q e₁ op

variable {Q : Engine D → Op D → Prop}

theorem Along.prefix {ops ops' : List (Op D)} (h : Along mpd real Q e (ops ++ ops')) :
    Along mpd real Q e ops := fun pre op post e₁ hops hpre =>
  h pre op (post ++ ops') e₁ (by rw [hops]; simp) hpre

theorem Along.suffix (ops : List (Op D)) {ops' : List (Op D)} (h : Along mpd real Q e (ops ++ ops'))
    (hrun : e.run mpd real ops = some e') :
    Along mpd real Q e' ops' := fun pre op post e₁ hops hpre =>
  h (ops ++ pre) op post e₁ (by rw [hops]; simp) (by rw [run_append, hrun]; exact hpre)

theorem along_nil : Along mpd real Q e [] := fun pre op post _ hops => by
  cases pre <;> cases hops

theorem along_cons {op : Op D} {ops : List (Op D)} :
    Along mpd real Q e (op :: ops) ↔
      Q e op ∧ ∀ e', e.step mpd real op = some e' → Along mpd real Q e' ops := by
  constructor
  · intro h
    refine ⟨h [] op ops e rfl rfl, fun e' hstep => Along.suffix [op] h ?_⟩
    rw [run_cons, hstep]
    rfl
  · rintro ⟨hop, hops⟩ pre op' post e₁ heq hpre
    cases pre with
    | nil =>
      obtain ⟨rfl, rfl⟩ := List.cons.inj heq
      exact Option.some.inj hpre ▸ hop
    | cons op₁ pre =>
      obtain ⟨rfl, rfl⟩ := List.cons.inj heq
      rw [run_cons] at hpre
      obtain ⟨e', hstep, hpre⟩ := Option.bind_eq_some_iff.mp hpre
      exact hops e' hstep pre op' post e₁ rfl hpre

instance decidableAlong [∀ e op, Decidable (Q e op)] (e : Engine D) (ops : List (Op D)) :
    Decidable (Along mpd real Q e ops) :=
  match ops with
  | [] => isTrue along_nil
  | op :: ops =>
    match hstep : e.step mpd real op with
    | none => decidable_of_iff (Q e op) (by rw [along_cons]; simp [hstep])
    | some e' =>
      haveI := decidableAlong e' ops
      decidable_of_iff (Q e op ∧ Along mpd real Q e' ops) (by rw [along_cons]; simp [hstep])

/-- A property that every accepted request of a run preserves holds after the run. -/
theorem run_induction {P : Engine D → Prop}
    (hstep : ∀ e op e', P e → Q e op → e.step mpd real op = some e' → P e') {ops : List (Op D)}
    (hQ : Along mpd real Q e ops) (h : P e) (hrun : e.run mpd real ops = some e') : P e' := by
  induction ops generalizing e with
  | nil => exact Option.some.inj hrun ▸ h
  | cons op ops ih =>
    rw [run_cons] at hrun
    obtain ⟨e₁, he₁, hrun⟩ := Option.bind_eq_some_iff.mp hrun
    have hone : e.run mpd real [op] = some e₁ := by rw [run_cons, he₁]; rfl
    exact ih (Along.suffix [op] hQ hone) (hstep e op e₁ h (hQ [] op ops e rfl rfl) he₁) hrun

/-- Every market of a new engine was made by `market_create`. -/
theorem initTrade_find {dictAsset : Dict String AssetType} {confs : List (MarketConf D)}
    {d d' : Dict String (Market D)} (h : initTrade mpd dictAsset confs d = some d') {name : String}
    {m : Market D} (hm : d'.find name = some m) :
    d.find name = some m ∨
      ∃ conf ∈ confs, conf.name = name ∧ marketCreate mpd dictAsset conf = some m := by
  induction confs generalizing d with
  | nil =>
    obtain rfl := Option.some.inj h
    exact Or.inl hm
  | cons conf confs ih =>
    unfold initTrade at h
    cases hc : marketCreate mpd dictAsset conf with
    | none => simp [hc] at h
    | some m₁ =>
      simp only [hc] at h
      rcases ih h with hold | ⟨conf', hmem, hname, hcreate⟩
      · split_ifs at hold with hname
        · exact Or.inl hold
        · rw [Dict.find_insert] at hold
          split_ifs at hold with hkey
          · obtain rfl := Option.some.inj hold
            exact Or.inr ⟨conf, List.mem_cons_self, hkey.symm, hc⟩
          · exact Or.inl hold
      · exact Or.inr ⟨conf', List.mem_cons_of_mem _ hmem, hname, hcreate⟩

/-- Every market of the settings is there. -/
theorem initTrade_mem {dictAsset : Dict String AssetType} {confs : List (MarketConf D)}
    {d d' : Dict String (Market D)} (h : initTrade mpd dictAsset confs d = some d') :
    (∀ name ∈ d, name ∈ d') ∧ ∀ conf ∈ confs, conf.name ∈ d' := by
  induction confs generalizing d with
  | nil =>
    obtain rfl := Option.some.inj h
    exact ⟨fun _ => id, fun _ hconf => absurd hconf List.not_mem_nil⟩
  | cons conf confs ih =>
    unfold initTrade at h
    cases hc : marketCreate mpd dictAsset conf with
    | none => simp [hc] at h
    | some m =>
      simp only [hc] at h
      obtain ⟨hkeep, hmem⟩ := ih h
      have hstep : ∀ name, name ∈ d ∨ name = conf.name → name ∈ d' := by
        intro name hname
        apply hkeep
        split_ifs with hold
        · exact hname.elim id fun heq => heq ▸ hold
        · exact Finmap.mem_insert.mpr hname.symm
      refine ⟨fun name hname => hstep name (Or.inl hname), fun conf' hconf' => ?_⟩
      rcases List.mem_cons.mp hconf' with rfl | hconf'
      · exact hstep _ (Or.inr rfl)
      · exact hmem conf' hconf'

/-- A new engine has no balances, no ids given out and no output. -/
theorem init_statics {dictAsset : Dict String AssetType} {confs : List (MarketConf D)}
    (h : Engine.init mpd dictAsset confs = some e) :
    e.statics = ⟨⟨dictAsset, ∅, []⟩, 0, 0, [], [], []⟩ := by
  obtain ⟨d, -, rfl⟩ := Option.map_eq_some_iff.mp h
  rfl

/-- A new engine has no balances, and its markets are new. -/
theorem init_spec {dictAsset : Dict String AssetType} {confs : List (MarketConf D)}
    (h : Engine.init mpd dictAsset confs = some e) :
    e.statics.ledger = ⟨dictAsset, ∅, []⟩ ∧ e.statics.trades = [] ∧
      ∀ name m, e.dictMarket.find name = some m →
        ∃ conf ∈ confs, conf.name = name ∧ marketCreate mpd dictAsset conf = some m := by
  obtain ⟨d, hd, rfl⟩ := Option.map_eq_some_iff.mp h
  exact ⟨rfl, rfl, fun name m hm => (initTrade_find hd hm).resolve_left (by simp)⟩

/-- A new engine has every market of the settings. -/
theorem init_find {dictAsset : Dict String AssetType} {confs : List (MarketConf D)}
    (h : Engine.init mpd dictAsset confs = some e) {conf : MarketConf D} (hconf : conf ∈ confs) :
    ∃ m, e.dictMarket.find conf.name = some m := by
  obtain ⟨d, hd, rfl⟩ := Option.map_eq_some_iff.mp h
  exact Finmap.mem_iff.mp ((initTrade_mem hd).2 conf hconf)

/-- A new market has empty containers. -/
theorem marketCreate_spec {dictAsset : Dict String AssetType} {conf : MarketConf D}
    {m : Market D} (h : marketCreate mpd dictAsset conf = some m) :
    m.conf = conf ∧ m.orders = ∅ ∧ m.users = ∅ ∧ ∀ side, m.book side = [] := by
  unfold marketCreate at h
  split_ifs at h
  obtain rfl := Option.some.inj h
  exact ⟨rfl, rfl, rfl, fun side => by cases side <;> rfl⟩

/-- What `market_create` asks of a configuration: known assets, saved with enough digits for the
products of the market's numbers. -/
structure ConfOk (dictAsset : Dict String AssetType) (conf : MarketConf D)
    (stock money : AssetType) : Prop where
  findStock : dictAsset.find conf.stock = some stock
  findMoney : dictAsset.find conf.money = some money
  deal : conf.stockPrec + conf.moneyPrec ≤ money.precSave
  stockFee : conf.stockPrec + conf.feePrec ≤ stock.precSave
  moneyFee : conf.moneyPrec + conf.feePrec ≤ money.precSave

theorem marketCreate_confOk {dictAsset : Dict String AssetType} {conf : MarketConf D}
    {m : Market D} (h : marketCreate mpd dictAsset conf = some m) :
    ∃ stock money, ConfOk dictAsset conf stock money := by
  unfold marketCreate assetExist assetPrec at h
  cases hs : dictAsset.find conf.stock with
  | none => simp [hs] at h
  | some stock =>
    cases hm : dictAsset.find conf.money with
    | none => simp [hs, hm] at h
    | some money =>
      simp only [hs, hm] at h
      split_ifs at h with _ hdeal hstock hmoney
      exact ⟨stock, money, hs, hm, by omega, by omega, by omega⟩

end Engine

/-! ## A market for examples -/

def exampleAssets : Dict String AssetType :=
  Finmap.insert "BTC" ⟨20, 8⟩ (Finmap.insert "CNY" ⟨20, 8⟩ ∅)

def exampleConf (moneyPrec : ℕ) : MarketConf ℚ :=
  ⟨"BTCCNY", "BTC", "CNY", 8, moneyPrec, 4, 1 / 1000⟩

def deposit (userId : ℕ) (asset : String) (businessId : ℕ) (change : ℚ) : Op ℚ :=
  .updateBalance ⟨userId, asset, "deposit", businessId, change, []⟩ 0 0

def limitOrder (userId : ℕ) (side : OrderSide) (amount price takerFee makerFee : ℚ) : Op ℚ :=
  .limitOrder ⟨userId, "BTCCNY", side, amount, price, takerFee, makerFee, "web"⟩

def cancelOrder (userId orderId : ℕ) : Op ℚ := .cancelOrder ⟨userId, "BTCCNY", orderId⟩

/-- A run from the start, in a context. -/
def exampleRun (mpd : Mpd ℚ) (moneyPrec : ℕ) (ops : List (Op ℚ)) : Option (Engine ℚ) :=
  (Engine.init mpd exampleAssets [exampleConf moneyPrec]).bind fun e => e.run mpd true ops

/-- The market after a run from the start. -/
def exampleMarket (mpd : Mpd ℚ) (moneyPrec : ℕ) (ops : List (Op ℚ)) : Option (Market ℚ) :=
  (exampleRun mpd moneyPrec ops).bind fun e => e.dictMarket.find "BTCCNY"

/-- A run that goes through, and what a check of its market says. -/
theorem exampleMarket_spec {mpd : Mpd ℚ} {moneyPrec : ℕ} {ops : List (Op ℚ)}
    {check : Market ℚ → Bool} (h : (exampleMarket mpd moneyPrec ops).any check = true) :
    ∃ e₀ e m, Engine.init mpd exampleAssets [exampleConf moneyPrec] = some e₀ ∧
      e₀.run mpd true ops = some e ∧ e.dictMarket.find "BTCCNY" = some m ∧ check m = true := by
  obtain ⟨m, hm, hcheck⟩ := (Option.any_eq_true _ _).mp h
  obtain ⟨e, he, hfind⟩ := Option.bind_eq_some_iff.mp hm
  obtain ⟨e₀, hinit, hrun⟩ := Option.bind_eq_some_iff.mp he
  exact ⟨e₀, e, m, hinit, hrun, hfind, hcheck⟩

/-- A check of the engine a run starts with. -/
theorem exampleInit_spec {mpd : Mpd ℚ} {moneyPrec : ℕ} {e₀ : Engine ℚ} (check : Engine ℚ → Bool)
    (hinit : Engine.init mpd exampleAssets [exampleConf moneyPrec] = some e₀)
    (h : (Engine.init mpd exampleAssets [exampleConf moneyPrec]).all check = true) :
    check e₀ = true := by
  rw [hinit] at h
  exact h

end ViabtcExchange
