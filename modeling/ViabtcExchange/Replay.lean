import ViabtcExchange.Ledgers
import ViabtcExchange.Load
import ViabtcExchange.Replies

/-!
# The replay of the operation log

Two states are the same to a replay (`Engine.SameTo`) when they differ in nothing but what was
reported and what `dict_update` remembers. An accepted request of the live engine, replayed from a
state that is the same to it, is accepted again and leaves the same state: an order always, a
balance update if its change reads the same with both precisions of its asset and its key is not
in the table of the replay.

That table only grows: no timer runs while the log is replayed, and it keeps the keys that the
live engine has forgotten after a day. `Replayable` says of a log that its updates are read alike
and that no two of them have one key.

**Theorem (`replay_agrees`).** Whatever the live engine has accepted, if its log is replayable, the
replay from the same state accepts all of it and ends with the same balances, books and counters.
-/

namespace ViabtcExchange

variable {D : Type} {mpd : Mpd D}

namespace Engine

/-- What a replay gives back of a state. -/
def quiet (e : Engine D) : Engine D := { e.silent with dictUpdate := ∅ }

def SameTo (r e : Engine D) : Prop := r.quiet = e.quiet

theorem SameTo.statics {r e : Engine D} (h : r.SameTo e) :
    r.statics.silent = e.statics.silent := by
  have hq : r.quiet.statics = e.quiet.statics := congrArg Engine.statics h
  exact hq

theorem SameTo.dictMarket {r e : Engine D} (h : r.SameTo e) : r.dictMarket = e.dictMarket := by
  have hq : r.quiet.dictMarket = e.quiet.dictMarket := congrArg Engine.dictMarket h
  exact hq

theorem SameTo.ledger {r e : Engine D} (h : r.SameTo e) : r.statics.ledger = e.statics.ledger := by
  have hs : r.statics.silent.ledger = e.statics.silent.ledger := congrArg Statics.ledger h.statics
  exact hs

theorem sameTo_iff {r e : Engine D} : r.SameTo e ↔
    r.statics.silent = e.statics.silent ∧ r.dictMarket = e.dictMarket := by
  constructor
  · intro h
    exact ⟨h.statics, h.dictMarket⟩
  · rintro ⟨hs, hm⟩
    unfold SameTo quiet silent
    rw [hs, hm]

/-- An order, or the cancel of one. -/
def IsOrder : Op D → Prop
  | .limitOrder _ | .marketOrder _ | .cancelOrder _ => True
  | _ => False

/-- Orders do not look at `dict_update`. -/
theorem request_updates (mpd : Mpd D) (real : Bool) {op : Op D} (hop : IsOrder op) (e : Engine D)
    (d : Dict UpdateKey ℚ) :
    ({ e with dictUpdate := d } : Engine D).request mpd real op =
      (e.request mpd real op).map fun r => (r.1, { r.2 with dictUpdate := d }) := by
  cases op with
  | updateBalance args padding now => exact hop.elim
  | expire now => exact hop.elim
  | limitOrder args =>
    unfold request putLimit
    dsimp only
    cases e.dictMarket.find args.market with
    | none => rfl
    | some m =>
      dsimp only
      split_ifs
      · rfl
      · rw [Option.map_map]
        rfl
  | marketOrder args =>
    unfold request putMarket
    dsimp only
    cases e.dictMarket.find args.market with
    | none => rfl
    | some m =>
      dsimp only
      split_ifs
      · rfl
      · rw [Option.map_map]
        rfl
  | cancelOrder args =>
    unfold request cancel
    dsimp only
    cases e.dictMarket.find args.market with
    | none => rfl
    | some m =>
      dsimp only
      cases marketGetOrder m args.orderId with
      | none => rfl
      | some i =>
        dsimp only
        split_ifs <;> rfl

/-- Nor does what they do depend on anything that a replay does not give back. -/
theorem quiet_request (mpd : Mpd D) (real : Bool) {op : Op D} (hop : IsOrder op) (e : Engine D) :
    e.quiet.request mpd false op = (e.request mpd real op).map fun r => (r.1, r.2.quiet) := by
  unfold quiet
  rw [request_updates mpd false hop, silent_request mpd real e op, Option.map_map]
  rfl

/-- An accepted order is accepted again. -/
theorem SameTo.order {r e e' : Engine D} {real : Bool} {op : Op D} (h : r.SameTo e)
    (hop : IsOrder op) (hreq : e.request mpd real op = some (0, e')) :
    ∃ r', r.request mpd false op = some (0, r') ∧ r'.SameTo e' ∧ r'.dictUpdate = r.dictUpdate := by
  have hquiet := quiet_request mpd real hop e
  rw [← h, quiet_request mpd false hop, hreq, Option.map_some] at hquiet
  obtain ⟨⟨ret, r'⟩, hr, heq⟩ := Option.map_eq_some_iff.mp hquiet
  obtain ⟨rfl, hsame⟩ := Prod.mk.inj heq
  refine ⟨r', hr, hsame, ?_⟩
  have hself := request_updates mpd false hop r r.dictUpdate
  rw [show ({ r with dictUpdate := r.dictUpdate } : Engine D) = r from rfl, hr] at hself
  have hpair := Option.some.inj hself
  exact congrArg (fun p : ℤ × Engine D => p.2.dictUpdate) hpair

/-- The key under which `dict_update` keeps an update. -/
def keyOf (args : UpdateArgs D) (padding : ℕ) : UpdateKey :=
  updateKey args.userId args.asset args.business padding args.businessId

theorem updateBalance_inv {e e' : Engine D} {real : Bool} {args : UpdateArgs D} {padding : ℕ}
    {now : ℚ} (h : e.updateBalance mpd real args padding now = (0, e')) :
    e.dictUpdate.find (keyOf args padding) = none ∧
      ∃ b, applyChange mpd e.statics.ledger args.userId args.asset args.change = some b := by
  unfold updateBalance updateUserBalance at h
  dsimp only at h
  cases hfind : e.dictUpdate.find (keyOf args padding) with
  | some t =>
    rw [show updateKey _ _ _ _ _ = keyOf args padding from rfl, hfind] at h
    simp at h
  | none =>
    refine ⟨rfl, ?_⟩
    cases hb : applyChange mpd e.statics.ledger args.userId args.asset args.change with
    | some b => exact ⟨b, rfl⟩
    | none =>
      rw [show updateKey _ _ _ _ _ = keyOf args padding from rfl, hfind, hb] at h
      simp at h

theorem updateBalance_eq {e : Engine D} (real : Bool) {args : UpdateArgs D} {padding : ℕ} (now : ℚ)
    {b : Dict BalanceKey D} (hfresh : e.dictUpdate.find (keyOf args padding) = none)
    (hb : applyChange mpd e.statics.ledger args.userId args.asset args.change = some b) :
    ∃ e', e.updateBalance mpd real args padding now = (0, e') ∧
      e'.statics.silent = { e.statics.silent with
        ledger := { e.statics.ledger with dictBalance := b } } ∧
      e'.dictMarket = e.dictMarket ∧
      e'.dictUpdate = e.dictUpdate.insert (keyOf args padding) now := by
  unfold updateBalance updateUserBalance
  dsimp only
  rw [show updateKey _ _ _ _ _ = keyOf args padding from rfl, hfresh, hb]
  refine ⟨_, rfl, ?_, rfl, rfl⟩
  simp only [Statics.appendUserBalanceHistory, Statics.silent_append, Statics.silent_push]
  rfl

/-- An accepted balance update is accepted again, if its key is not taken. -/
theorem SameTo.update {r e e' : Engine D} {real : Bool} {args args' : UpdateArgs D}
    {padding padding' : ℕ} {now : ℚ} (now' : ℚ) (h : r.SameTo e)
    (huser : args'.userId = args.userId) (hasset : args'.asset = args.asset)
    (hchange : args'.change = args.change)
    (hfresh : r.dictUpdate.find (keyOf args' padding') = none)
    (hreq : e.updateBalance mpd real args padding now = (0, e')) :
    ∃ r', r.updateBalance mpd false args' padding' now' = (0, r') ∧ r'.SameTo e' ∧
      r'.dictUpdate = r.dictUpdate.insert (keyOf args' padding') now' := by
  obtain ⟨hfree, b, hb⟩ := updateBalance_inv hreq
  have hb' : applyChange mpd r.statics.ledger args'.userId args'.asset args'.change = some b := by
    rw [h.ledger, huser, hasset, hchange, hb]
  obtain ⟨e₁, he, hs, hm, -⟩ := updateBalance_eq real now hfree hb
  obtain ⟨r', hr, hs', hm', hd⟩ := updateBalance_eq false now' hfresh hb'
  obtain rfl : e₁ = e' := (Prod.mk.inj (he.symm.trans hreq)).2
  refine ⟨r', hr, sameTo_iff.mpr ⟨?_, ?_⟩, hd⟩
  · rw [hs, hs', h.statics, h.ledger]
  · rw [hm, hm', h.dictMarket]

/-! ## Loading what was logged -/

theorem loadLimitOrder_eq {r : Engine D} {params : List Json} {m : Market D} {args : LimitArgs D}
    (hread : readLimitOrder mpd params r.dictMarket = .ok (m, args))
    (hsource : args.source.utf8ByteSize < sourceMaxLen) :
    r.loadLimitOrder mpd params = r.request mpd false (.limitOrder args) := by
  obtain ⟨hm, hok⟩ := readLimitOrder_ok hread
  unfold loadLimitOrder
  rw [hread]
  dsimp only
  rw [if_neg (not_lt.mpr hsource.le), request, putLimit_eq hm hok]

theorem loadMarketOrder_eq {r : Engine D} {params : List Json} {m : Market D} {args : MarketArgs D}
    (hread : readMarketOrder mpd params r.dictMarket = .ok (m, args))
    (hsource : args.source.utf8ByteSize < sourceMaxLen) :
    r.loadMarketOrder mpd params = r.request mpd false (.marketOrder args) := by
  obtain ⟨hm, hok⟩ := readMarketOrder_ok hread
  unfold loadMarketOrder
  rw [hread]
  dsimp only
  rw [if_neg (not_lt.mpr hsource.le), request, putMarket_eq hm hok]

theorem loadCancelOrder_eq {r r' : Engine D} {params : List Json} {m : Market D} {args : CancelArgs}
    (hread : readCancelOrder params r.dictMarket = .ok (m, args))
    (hreq : r.request mpd false (.cancelOrder args) = some (0, r')) :
    r.loadCancelOrder mpd params = (0, r') := by
  have hm := readCancelOrder_ok hread
  unfold loadCancelOrder
  rw [hread]
  dsimp only
  have hreq := Option.some.inj hreq
  unfold cancel at hreq
  rw [hm] at hreq
  dsimp only at hreq
  cases hget : marketGetOrder m args.orderId with
  | none => simp [hget] at hreq
  | some i =>
    rw [hget] at hreq
    dsimp only at hreq ⊢
    split_ifs at hreq with huser
    · cases hreq
    · rw [hreq]
      rfl

end Engine

/-- What identifies an update. -/
def UpdateKey.bare (key : UpdateKey) : UpdateKey := { key with padding := 0 }

/-- What identifies the update that some parameters ask for. -/
def paramsKey (params : List Json) : Option UpdateKey :=
  match params[(0 : ℕ)]?, params[(1 : ℕ)]?, params[(2 : ℕ)]?, params[(3 : ℕ)]? with
  | some (.integer n), some (.string asset), some (.string business), some (.integer k) =>
    some (updateKey (toUint32 n) asset business 0 (toUint64 k))
  | _, _, _, _ => none

/-- The change reads the same with `prec_save` digits and with `prec_show` digits. -/
def ReadsAlike (mpd : Mpd D) (dictAsset : Dict String AssetType) (params : List Json) : Prop :=
  ∀ asset str, params[(1 : ℕ)]? = some (.string asset) → params[(4 : ℕ)]? = some (.string str) →
    mpd.decimal str (assetPrec dictAsset asset).toNat =
      mpd.decimal str (assetPrecShow dictAsset asset).toNat

theorem paramsKey_read {params : List Json} {precOf : String → ℤ} {args : UpdateArgs D}
    (h : readUpdateBalance mpd params precOf = .ok args) (padding : ℕ) :
    paramsKey params = some (Engine.keyOf args padding).bare := by
  obtain ⟨-, -, ⟨n, hn, huser⟩, hasset, hbusiness, ⟨k, hk, hid⟩, -, -⟩ := readUpdateBalance_ok.mp h
  simp only [paramsKey, hn, hasset, hbusiness, hk, Engine.keyOf, huser, hid]
  rfl

/-- An update that was read live and logged is read by the replay. -/
theorem readUpdateBalance_logged {params : List Json} {dictAsset : Dict String AssetType}
    {args : UpdateArgs D} (h : readUpdateBalance mpd params (assetPrecShow dictAsset) = .ok args)
    (halike : ReadsAlike mpd dictAsset params) :
    ∃ args', readUpdateBalance mpd (Command.balanceUpdate.logged params) (assetPrec dictAsset) =
        .ok args' ∧ args'.userId = args.userId ∧ args'.asset = args.asset ∧
      args'.business = args.business ∧ args'.businessId = args.businessId ∧
      args'.change = args.change := by
  obtain ⟨hsize, hprec, ⟨n, hn, huser⟩, hasset, hbusiness, ⟨k, hk, hid⟩, ⟨str, hstr, hchange⟩,
    hdetail⟩ := readUpdateBalance_ok.mp h
  have hsave : 0 ≤ assetPrec dictAsset args.asset := by
    unfold assetPrecShow at hprec
    unfold assetPrec
    cases hty : dictAsset.find args.asset with
    | none => simp [hty] at hprec
    | some ty => simp
  have hlogged : Command.balanceUpdate.logged params =
      params.set 5 (.object (setId args.detail args.businessId)) := by
    simp only [Command.logged, hk, hdetail, hid]
  refine ⟨{ args with detail := setId args.detail args.businessId }, ?_, rfl, rfl, rfl, rfl, rfl⟩
  rw [hlogged, readUpdateBalance_ok]
  have hne : ∀ i, i ≠ 5 →
      (params.set 5 (.object (setId args.detail args.businessId)))[i]? = params[i]? := by
    intro i hi
    rw [List.getElem?_set_ne (Ne.symm hi)]
  simp only [List.length_set, hne 0 (by omega), hne 1 (by omega), hne 2 (by omega),
    hne 3 (by omega), hne 4 (by omega)]
  refine ⟨hsize, hsave, ⟨n, hn, huser⟩, hasset, hbusiness, ⟨k, hk, hid⟩, ⟨str, hstr, ?_⟩, ?_⟩
  · rw [halike args.asset str hasset hstr, hchange]
  · rw [List.getElem?_set_self (by omega)]

theorem read_map {α β : Type} {x : Except Refusal α} {f : α → β} {b : β} :
    x.map f = .ok b ↔ ∃ a, x = .ok a ∧ f a = b := by
  cases x <;> simp [Except.map]

/-- A method and parameters that were logged are found again. -/
theorem loadOper_operDetail (r : Engine D) (command : Command) (params : List Json) (padding : ℕ)
    (now : ℚ) : r.loadOper mpd (operDetail command.method params) padding now =
      match command with
      | .balanceUpdate => some (r.loadUpdateBalance mpd params padding now)
      | .orderPutLimit => r.loadLimitOrder mpd params
      | .orderPutMarket => r.loadMarketOrder mpd params
      | .orderCancel => some (r.loadCancelOrder mpd params) := by
  cases command <;> rfl

/-- The keys the replay of a request adds to the table. -/
def AddsKey (command : Command) (params : List Json) (r r' : Engine D) : Prop :=
  ∀ k ∈ r'.dictUpdate, k ∈ r.dictUpdate ∨
    command = .balanceUpdate ∧ paramsKey params = some k.bare

/-- What lets a request be replayed. -/
def Loadable (mpd : Mpd D) (command : Command) (params : List Json) (r : Engine D) : Prop :=
  command = .balanceUpdate → ReadsAlike mpd r.statics.ledger.dictAsset params ∧
    ∀ k ∈ r.dictUpdate, paramsKey params ≠ some k.bare

open Engine in
theorem Engine.SameTo.load {s s' : Server D} {command : Command} {params : List Json} {padding : ℕ}
    {now : ℚ} {op : Op D} {r : Engine D} (h : r.SameTo s.engine)
    (hserved : Server.Served mpd s command params padding now s' op)
    (hload : Loadable mpd command params r) (padding' : ℕ) (now' : ℚ) :
    ∃ r', r.loadOper mpd (operDetail command.method (command.logged params)) padding' now' =
      some (0, r') ∧ r'.SameTo s'.engine ∧ AddsKey command params r r' := by
  have hreq := step_eq_some hserved.step
  have hread := hserved.read
  have hsource := hserved.source
  rw [loadOper_operDetail]
  cases command with
  | balanceUpdate =>
    obtain ⟨halike, hfresh⟩ := hload rfl
    obtain ⟨args, hargs, rfl⟩ := read_map.mp hread
    rw [← h.ledger] at hargs
    obtain ⟨args', hargs', huser, hasset, hbusiness, hid, hchange⟩ :=
      readUpdateBalance_logged hargs halike
    have hkey : ∀ padding, keyOf args' padding = keyOf args padding := fun padding => by
      unfold keyOf
      rw [huser, hasset, hbusiness, hid]
    have hfind : r.dictUpdate.find (keyOf args' padding') = none := by
      refine Dict.find_eq_none.mpr fun hmem => hfresh _ hmem ?_
      rw [hkey]
      exact paramsKey_read hargs padding'
    obtain ⟨r', hr, hsame, hd⟩ := h.update now' huser hasset hchange hfind (Option.some.inj hreq)
    refine ⟨r', ?_, hsame, fun k hk => ?_⟩
    · unfold loadUpdateBalance
      rw [hargs']
      dsimp only
      rw [hr]
      rfl
    · rw [hd] at hk
      rcases Finmap.mem_insert.mp hk with rfl | hk
      · exact Or.inr ⟨rfl, by rw [hkey]; exact paramsKey_read hargs padding'⟩
      · exact Or.inl hk
  | orderPutLimit =>
    obtain ⟨⟨m, args⟩, hargs, rfl⟩ := read_map.mp hread
    rw [← h.dictMarket] at hargs
    obtain ⟨r', hr, hsame, hd⟩ := h.order (show IsOrder (Op.limitOrder args) from trivial) hreq
    exact ⟨r', (loadLimitOrder_eq hargs hsource).trans hr, hsame, fun k hk => Or.inl (hd ▸ hk)⟩
  | orderPutMarket =>
    obtain ⟨⟨m, args⟩, hargs, rfl⟩ := read_map.mp hread
    rw [← h.dictMarket] at hargs
    obtain ⟨r', hr, hsame, hd⟩ := h.order (show IsOrder (Op.marketOrder args) from trivial) hreq
    exact ⟨r', (loadMarketOrder_eq hargs hsource).trans hr, hsame, fun k hk => Or.inl (hd ▸ hk)⟩
  | orderCancel =>
    obtain ⟨⟨m, args⟩, hargs, rfl⟩ := read_map.mp hread
    rw [← h.dictMarket] at hargs
    obtain ⟨r', hr, hsame, hd⟩ := h.order (show IsOrder (Op.cancelOrder args) from trivial) hreq
    exact ⟨r', congrArg some (loadCancelOrder_eq hargs hr), hsame, fun k hk => Or.inl (hd ▸ hk)⟩

/-! ## Replaying a log -/

/-- The parameters of an entry of the log that is a balance update. -/
def OperLog.updateParams (log : OperLog Json) : Option (List Json) :=
  match log.detail.get "method", log.detail.get "params" with
  | some (.string method), some (.array params) =>
    if method = Command.balanceUpdate.method then some params else none
  | _, _ => none

/-- A log whose updates are read alike, and have keys of their own. -/
structure Replayable (mpd : Mpd D) (dictAsset : Dict String AssetType) (known : Dict UpdateKey ℚ)
    (logs : List (OperLog Json)) : Prop where
  alike : ∀ log ∈ logs, ∀ params, log.updateParams = some params → ReadsAlike mpd dictAsset params
  fresh : ∀ log ∈ logs, ∀ params, log.updateParams = some params →
    ∀ k ∈ known, paramsKey params ≠ some k.bare
  once : logs.Pairwise fun log log' => ∀ params params', log.updateParams = some params →
    log'.updateParams = some params' → paramsKey params ≠ paramsKey params'

/-- The replay of the entries of a log. -/
def Engine.replay (mpd : Mpd D) (env : ℕ → Engine.Surroundings) (r : Engine D)
    (logs : List (OperLog Json)) : Option (Engine D) :=
  logs.foldlM (fun r log => r.load mpd env log.row) r

theorem updateParams_operDetail {id : ℕ} {now : ℚ} {command : Command} {params : List Json} :
    (⟨id, now, operDetail command.method params⟩ : OperLog Json).updateParams =
      if command = .balanceUpdate then some params else none := by
  cases command <;> rfl

theorem logged_getElem (params : List Json) {i : ℕ} (hi : i ≠ 5) :
    (Command.balanceUpdate.logged params)[i]? = params[i]? := by
  unfold Command.logged
  dsimp only
  split
  · rw [List.getElem?_set_ne (Ne.symm hi)]
  · rfl

theorem paramsKey_logged (params : List Json) :
    paramsKey (Command.balanceUpdate.logged params) = paramsKey params := by
  unfold paramsKey
  rw [logged_getElem _ (by omega), logged_getElem _ (by omega), logged_getElem _ (by omega),
    logged_getElem _ (by omega)]

theorem readsAlike_logged {dictAsset : Dict String AssetType} {params : List Json}
    (h : ReadsAlike mpd dictAsset (Command.balanceUpdate.logged params)) :
    ReadsAlike mpd dictAsset params := by
  intro asset str hasset hstr
  rw [← logged_getElem _ (by omega)] at hasset hstr
  exact h asset str hasset hstr

namespace Replayable

variable {dictAsset : Dict String AssetType} {known known' : Dict UpdateKey ℚ} {id : ℕ} {now : ℚ}
  {command : Command} {params : List Json} {logs : List (OperLog Json)} {r : Engine D}

/-- The first request of a log can be replayed, -/
theorem loadable (h : Replayable mpd r.statics.ledger.dictAsset r.dictUpdate
    (⟨id, now, operDetail command.method (command.logged params)⟩ :: logs)) :
    Loadable mpd command params r := by
  intro hcommand
  subst hcommand
  refine ⟨readsAlike_logged (h.alike _ List.mem_cons_self _ rfl), fun k hk => ?_⟩
  have hkey := h.fresh _ List.mem_cons_self _ rfl k hk
  rwa [paramsKey_logged] at hkey

/-- and what is left can be replayed after it. -/
theorem tail {r' : Engine D} (h : Replayable mpd dictAsset r.dictUpdate
    (⟨id, now, operDetail command.method (command.logged params)⟩ :: logs))
    (hadds : AddsKey command params r r') : Replayable mpd dictAsset r'.dictUpdate logs where
  alike log hlog := h.alike log (List.mem_cons_of_mem _ hlog)
  fresh log hlog params' hparams' k hk := by
    rcases hadds k hk with hk | ⟨rfl, hkey⟩
    · exact h.fresh log (List.mem_cons_of_mem _ hlog) params' hparams' k hk
    · have hne := (List.pairwise_cons.mp h.once).1 log hlog _ params' rfl hparams'
      rw [paramsKey_logged, hkey] at hne
      exact hne.symm
  once := (List.pairwise_cons.mp h.once).2

end Replayable

theorem Engine.replay_cons {env : ℕ → Engine.Surroundings} {r r₁ : Engine D} {log : OperLog Json}
    {logs : List (OperLog Json)}
    (h : r.loadOper mpd log.detail (env log.id).padding (env log.id).now = some (0, r₁)) :
    r.replay mpd env (log :: logs) = r₁.replay mpd env logs := by
  have hload : r.load mpd env log.row = some r₁ := by
    have hrow : r.loadOper mpd log.row.2.2 (env log.row.1).padding (env log.row.1).now =
        some (0, r₁) := h
    unfold load
    rw [hrow]
    rfl
  unfold replay
  rw [List.foldlM_cons, hload]
  rfl

namespace Server

/-- What one event does to the log, seen from the replay. -/
theorem handle_cases {s s' : Server D} {event : Event} (h : s.handle mpd event = some s') :
    s.engine.quiet = s'.engine.quiet ∧ s'.operlog = s.operlog ∨
      ∃ command params padding now op, Served mpd s command params padding now s' op := by
  cases event with
  | expire now =>
    cases h
    exact Or.inl ⟨rfl, rfl⟩
  | request blocked command params padding now =>
    obtain ⟨⟨reply, s₁⟩, hserve, rfl⟩ := Option.map_eq_some_iff.mp h
    rcases onRecvPkg_cases hserve with ⟨-, rfl⟩ | ⟨-, op, hserved⟩
    · exact Or.inl ⟨rfl, rfl⟩
    · exact Or.inr ⟨command, params, padding, now, op, hserved⟩

theorem Served.list {s s' : Server D} {command : Command} {params : List Json} {padding : ℕ}
    {now : ℚ} {op : Op D} (h : Served mpd s command params padding now s' op) :
    s'.operlog.list = s.operlog.list ++ [⟨s.operlog.operlogIdStart + 1, now,
      operDetail command.method (command.logged params)⟩] := by
  rw [h.log]
  rfl

theorem run_cons {s : Server D} {event : Event} {events : List Event} :
    s.run mpd (event :: events) = (s.handle mpd event).bind fun s => s.run mpd events := by
  unfold run
  rw [List.foldlM_cons]
  rfl

/-- The log only grows. -/
theorem run_list {events : List Event} : ∀ {s s' : Server D}, s.run mpd events = some s' →
    ∃ logs, s'.operlog.list = s.operlog.list ++ logs := by
  induction events with
  | nil =>
    intro s s' h
    cases h
    exact ⟨[], (List.append_nil _).symm⟩
  | cons event events ih =>
    intro s s' h
    rw [run_cons] at h
    obtain ⟨s₁, hs₁, h⟩ := Option.bind_eq_some_iff.mp h
    obtain ⟨logs, hlogs⟩ := ih h
    rcases handle_cases hs₁ with ⟨-, hsame⟩ | ⟨command, params, padding, now, op, hserved⟩
    · exact ⟨logs, hsame ▸ hlogs⟩
    · rw [hserved.list, List.append_assoc] at hlogs
      exact ⟨_, hlogs⟩

end Server

/-- The replay keeps up with the live run, from any state that is the same to it. -/
theorem Engine.SameTo.run {env : ℕ → Engine.Surroundings} {dictAsset : Dict String AssetType}
    {events : List Event} : ∀ {s s' : Server D} {logs : List (OperLog Json)} {r : Engine D},
      s.run mpd events = some s' → s'.operlog.list = s.operlog.list ++ logs →
      r.SameTo s.engine → s.engine.statics.ledger.dictAsset = dictAsset →
      Replayable mpd dictAsset r.dictUpdate logs →
      ∃ r', r.replay mpd env logs = some r' ∧ r'.SameTo s'.engine := by
  induction events with
  | nil =>
    intro s s' logs r h hlogs hsame hassets hrep
    cases h
    obtain rfl : logs = [] := by simpa using hlogs
    exact ⟨r, rfl, hsame⟩
  | cons event events ih =>
    intro s s' logs r h hlogs hsame hassets hrep
    rw [Server.run_cons] at h
    obtain ⟨s₁, hs₁, h⟩ := Option.bind_eq_some_iff.mp h
    rcases Server.handle_cases hs₁
      with ⟨hquiet, hlog⟩ | ⟨command, params, padding, now, op, hserved⟩
    · have hsame₁ : r.SameTo s₁.engine := Eq.trans hsame hquiet
      refine ih h (hlog ▸ hlogs) hsame₁ ?_ hrep
      rw [← hsame₁.ledger, hsame.ledger, hassets]
    · obtain ⟨logs₁, hlogs₁⟩ := Server.run_list h
      rw [hserved.list, List.append_assoc] at hlogs₁
      obtain rfl : logs = _ := List.append_cancel_left (hlogs.symm.trans hlogs₁)
      have hassets' : dictAsset = r.statics.ledger.dictAsset := by rw [hsame.ledger, hassets]
      rw [hassets'] at hrep
      obtain ⟨r₁, hr₁, hsame₁, hadds⟩ := hsame.load hserved hrep.loadable
        (env (s.operlog.operlogIdStart + 1)).padding (env (s.operlog.operlogIdStart + 1)).now
      have hcons : r.replay mpd env (⟨s.operlog.operlogIdStart + 1, now,
          operDetail command.method (command.logged params)⟩ :: logs₁) =
          r₁.replay mpd env logs₁ := replay_cons hr₁
      rw [List.singleton_append, hcons]
      refine ih h ?_ hsame₁ ?_ (hassets' ▸ hrep.tail hadds)
      · rw [hserved.list, List.append_assoc]
        exact hlogs₁
      · exact keep_step (fun l c h => (Ledger.call_dictAsset _ l c).trans h)
          (fun l u a x b hb h => h) hassets hserved.step

/-- **A replayable log is replayed** from the state the live run started from, to the state it
ended in: to the same balances, books and counters. -/
theorem replay_agrees (mpd : Mpd D) (env : ℕ → Engine.Surroundings) (s s' : Server D)
    (events : List Event) (logs : List (OperLog Json)) (h : s.run mpd events = some s')
    (hlogs : s'.operlog.list = s.operlog.list ++ logs)
    (hrep : Replayable mpd s.engine.statics.ledger.dictAsset s.engine.dictUpdate logs) :
    ∃ r, s.engine.replay mpd env logs = some r ∧
      r.statics.ledger.dictBalance = s'.engine.statics.ledger.dictBalance ∧
      r.dictMarket = s'.engine.dictMarket ∧
      r.statics.orderIdStart = s'.engine.statics.orderIdStart ∧
      r.statics.dealsIdStart = s'.engine.statics.dealsIdStart := by
  obtain ⟨r, hr, hsame⟩ := Engine.SameTo.run h hlogs rfl rfl hrep
  refine ⟨r, hr, ?_, hsame.dictMarket, ?_, ?_⟩
  · rw [hsame.ledger]
  · have hs : r.statics.silent.orderIdStart = s'.engine.statics.silent.orderIdStart :=
      congrArg Statics.orderIdStart hsame.statics
    exact hs
  · have hs : r.statics.silent.dealsIdStart = s'.engine.statics.silent.dealsIdStart :=
      congrArg Statics.dealsIdStart hsame.statics
    exact hs

section Examples

/-- A balance update of user 1. -/
def updateParams (change : String) : List Json :=
  [.integer 1, .string "BTC", .string "deposit", .integer 1, .string change, .object []]

def updateAt (change : String) (now : ℚ) : Event :=
  .request false .balanceUpdate (updateParams change) 0 now

/-- The live run of some events from the start, with what the replay of its log leaves. -/
def replayed (events : List Event) : Option (Engine ℚ × Option (Engine ℚ)) :=
  exampleServer.bind fun s => (s.run decimal128 events).map fun s' =>
    (s'.engine, s.engine.replay decimal128 (fun _ => ⟨0, 0⟩) s'.operlog.list)

theorem replayed_spec {events : List Event} {e : Engine ℚ} {r : Option (Engine ℚ)}
    (h : replayed events = some (e, r)) : ∃ s s', exampleServer = some s ∧
      s.run decimal128 events = some s' ∧ s'.operlog.list = s.operlog.list ++ s'.operlog.list ∧
      s'.engine = e ∧ s.engine.replay decimal128 (fun _ => ⟨0, 0⟩) s'.operlog.list = r := by
  obtain ⟨s, hs, h⟩ := Option.bind_eq_some_iff.mp h
  obtain ⟨s', hrun, hpair⟩ := Option.map_eq_some_iff.mp h
  obtain ⟨he, hr⟩ := Prod.mk.inj hpair
  refine ⟨s, s', hs, hrun, ?_, he, hr⟩
  obtain ⟨e₀, -, rfl⟩ := Option.map_eq_some_iff.mp hs
  rfl

/-- **A change with more digits than are shown** is cut when it arrives and not when it is
replayed. -/
theorem replay_disagrees : ¬ ∀ (env : ℕ → Engine.Surroundings) (s s' : Server ℚ)
    (events : List Event) (logs : List (OperLog Json)), s.run decimal128 events = some s' →
      s'.operlog.list = s.operlog.list ++ logs →
        ∃ r, s.engine.replay decimal128 env logs = some r ∧
          r.statics.ledger.dictBalance = s'.engine.statics.ledger.dictBalance := fun hall => by
  have hcheck : (replayed [updateAt "1.123456789" 0]).any (fun p => p.2.all fun r =>
      decide (r.statics.ledger.dictBalance ≠ p.1.statics.ledger.dictBalance)) = true := by
    decide +kernel
  obtain ⟨⟨e, r'⟩, hp, hne⟩ := (Option.any_eq_true _ _).mp hcheck
  obtain ⟨s, s', -, hrun, hlogs, rfl, rfl⟩ := replayed_spec hp
  obtain ⟨r, hr, heq⟩ := hall (fun _ => ⟨0, 0⟩) s s' _ _ hrun hlogs
  simp only [hr, Option.all_some, decide_eq_true_eq] at hne
  exact hne heq

/-- **An update that is repeated after a day** is accepted, and its log cannot be replayed. -/
theorem replay_refused : ∃ s s', exampleServer = some s ∧
    s.run decimal128 [updateAt "1" 0, .expire 86401, updateAt "1" 86401] = some s' ∧
      s.engine.replay decimal128 (fun _ => ⟨0, 0⟩) s'.operlog.list = none := by
  have hcheck : (replayed [updateAt "1" 0, .expire 86401, updateAt "1" 86401]).any
      (fun p => p.2.isNone) = true := by
    decide +kernel
  obtain ⟨⟨e, r⟩, hp, hnone⟩ := (Option.any_eq_true _ _).mp hcheck
  obtain ⟨s, s', hs, hrun, -, -, rfl⟩ := replayed_spec hp
  exact ⟨s, s', hs, hrun, Option.isNone_iff_eq_none.mp hnone⟩

theorem replay_agrees_deposit : ∃ s s' r, exampleServer = some s ∧
    s.run decimal128 [updateAt "1" 0] = some s' ∧
      s.engine.replay decimal128 (fun _ => ⟨0, 0⟩) s'.operlog.list = some r ∧
        r.statics.ledger.dictBalance = s'.engine.statics.ledger.dictBalance := by
  have hcheck : (replayed [updateAt "1" 0]).any (fun p => decide (p.1.statics.orderIdStart = 0)) =
      true := by
    decide +kernel
  obtain ⟨⟨e, r⟩, hp, -⟩ := (Option.any_eq_true _ _).mp hcheck
  obtain ⟨s, s', hs, hrun, hlogs, -, -⟩ := replayed_spec hp
  obtain ⟨e₀, hinit, rfl⟩ := Option.map_eq_some_iff.mp hs
  have hfind : decimal128.decimal "1" 20 = decimal128.decimal "1" 8 := by decide +kernel
  have hassets : e₀.statics.ledger.dictAsset = exampleAssets ∧ e₀.dictUpdate = ∅ := by
    obtain ⟨dictMarket, -, rfl⟩ := Option.map_eq_some_iff.mp hinit
    exact ⟨rfl, rfl⟩
  have hrep : Replayable decimal128 e₀.statics.ledger.dictAsset e₀.dictUpdate s'.operlog.list := by
    have hempty : ∀ (logs : List (OperLog Json)), ∀ log ∈ logs, ∀ params,
        log.updateParams = some params → ∀ k ∈ (∅ : Dict UpdateKey ℚ),
          paramsKey params ≠ some k.bare :=
      fun _ _ _ _ _ k hk => absurd hk Finmap.notMem_empty
    rw [hassets.1, hassets.2]
    rw [Server.run_cons] at hrun
    obtain ⟨s₁, hs₁, hone⟩ := Option.bind_eq_some_iff.mp hrun
    obtain rfl : s₁ = s' := Option.some.inj hone
    unfold updateAt Server.handle at hs₁
    obtain ⟨⟨reply, s₁⟩, hserve, rfl⟩ := Option.map_eq_some_iff.mp hs₁
    rcases Server.onRecvPkg_cases hserve with ⟨-, rfl⟩ | ⟨-, op, hserved⟩
    · exact ⟨by simp [initOperlog], hempty _, by simp [initOperlog]⟩
    · rw [hserved.list]
      refine ⟨fun log hlog params hparams => ?_, hempty _, List.pairwise_singleton _ _⟩
      obtain rfl := List.mem_singleton.mp hlog
      rw [updateParams_operDetail, if_pos rfl] at hparams
      obtain rfl := Option.some.inj hparams
      intro asset str hasset hstr
      rw [logged_getElem _ (by omega)] at hasset hstr
      obtain rfl : "BTC" = asset := by simpa [updateParams] using hasset
      obtain rfl : "1" = str := by simpa [updateParams] using hstr
      exact hfind
  obtain ⟨r, hr, hb, -⟩ := replay_agrees decimal128 (fun _ => ⟨0, 0⟩) ⟨e₀, initOperlog 0⟩ s' _ _
    hrun hlogs hrep
  exact ⟨_, s', r, hs, hrun, hr, hb⟩

end Examples

end ViabtcExchange
