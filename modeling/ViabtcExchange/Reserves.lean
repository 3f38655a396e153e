import ViabtcExchange.SolventRequests

/-!
# What the engine holds in reserve

`Engine.Solvent`: every entry of `dict_balance` is sound, no balance call has failed, and the FREEZE
balance of every user in every asset is what his open orders freeze in it, over all markets. A
request keeps this when it is paid for (`Engine.Solvent.step`), with amounts the context holds
exactly (`Engine.Pays`).

**Theorem (`Engine.calls_succeed`).** In a run whose limit orders are covered to their end, every
balance call of the matching engine returns other than `NULL`.

**Theorem (`Engine.frozen_eq_open`).** In a run without fees, in whole ticks, the frozen balances
are what the open orders freeze.
-/

namespace ViabtcExchange

/-- What a market freezes is not negative. -/
theorem frozenIn_nonneg {m : Market ℚ} {u : ℕ} {a : String}
    (h : ∀ s, ∀ j ∈ m.book s, 0 ≤ (m.order j).freeze) : 0 ≤ m.frozenIn u a := by
  have hside : ∀ s, 0 ≤ m.frozenOn s u := fun s => List.sum_nonneg fun x hx => by
    obtain ⟨j, hj, rfl⟩ := List.mem_map.mp hx
    split_ifs
    · exact h s j hj
    · exact le_rfl
  unfold Market.frozenIn
  split_ifs <;> linarith [hside .ask, hside .bid]

namespace Engine

/-- What the open orders of a user freeze in an asset, over all markets. -/
def frozenIn (e : Engine ℚ) (u : ℕ) (a : String) : ℚ := e.dictMarket.sum fun _ m => m.frozenIn u a

/-- The same, without one of the markets. -/
def frozenElsewhere (e : Engine ℚ) (name : String) (u : ℕ) (a : String) : ℚ :=
  Dict.sum (e.dictMarket.erase name) fun _ m => m.frozenIn u a

structure Solvent (F : ℚ → Prop) (e₀ e : Engine ℚ) : Prop where
  sane : Sane e₀ e
  sound : e.statics.ledger.Sound
  ok : e.statics.ledger.AllOk
  markets : e.Markets fun _ n m => Indexed True (Backed F m.stockPrec m.moneyPrec) n m
  frozen : ∀ u a, e.statics.ledger.balance ⟨u, .freeze, a⟩ = e.frozenIn u a

/-- The supply of every asset is small enough for the context. -/
def HasRoom (round : ℚ → ℚ) (e : Engine ℚ) : Prop :=
  Roomy round e.statics.ledger.dictAsset (supply e.statics.ledger.dictBalance)

/-- A request whose amounts the context holds, in whole ticks, and paid for. -/
def Pays (round : ℚ → ℚ) (F : ℚ → Prop) (e : Engine ℚ) : Op ℚ → Prop
  | .limitOrder args => e.HasRoom round ∧ ∀ m, e.dictMarket.find args.market = some m →
    OnGrid m.stockPrec args.amount ∧ OnGrid m.moneyPrec args.price ∧ F args.makerFee ∧
      LimitPays round F (startLimit (ratMpd round) e.statics m args.userId args.side args.amount
        args.price args.takerFee args.makerFee args.source)
  | .marketOrder args => e.HasRoom round ∧ ∀ m, e.dictMarket.find args.market = some m →
    MarketGrid e.statics.ledger.dictAsset m args.side args.amount
  | .cancelOrder _ => e.HasRoom round
  | _ => True

section Step

variable {round : ℚ → ℚ} {F : ℚ → Prop} {real : Bool} {e₀ e e' : Engine ℚ} {op : Op ℚ}
  {dictAsset : Dict String AssetType} {confs : List (MarketConf ℚ)} {name : String} {m m' : Market ℚ}
  {u : ℕ} {a : String}

theorem Solvent.freeze_nonneg (h : Solvent F e₀ e) (hm : e.dictMarket.find name = some m) :
    ∀ s, ∀ j ∈ m.book s, 0 ≤ (m.order j).freeze := fun s j hj => by
  have hindexed := h.markets name m hm
  exact ((hindexed.each j (hindexed.book.wf.mem s j hj)).freeze_pos (hindexed.book.left s j hj)
    (hindexed.book.price s j hj)).le

theorem Solvent.elsewhere_nonneg (h : Solvent F e₀ e) (name : String) (u : ℕ) (a : String) :
    0 ≤ e.frozenElsewhere name u a := by
  refine Finset.sum_nonneg fun k _ => ?_
  unfold Dict.entry
  cases hk : Dict.find (e.dictMarket.erase name) k with
  | none => exact le_rfl
  | some m =>
    rw [Dict.find_erase] at hk
    split_ifs at hk
    exact frozenIn_nonneg (h.freeze_nonneg hk)

theorem frozenIn_eq (hm : e.dictMarket.find name = some m) :
    e.frozenIn u a = e.frozenElsewhere name u a + m.frozenIn u a := by
  unfold frozenIn frozenElsewhere
  rw [Dict.sum_erase, Dict.entry, hm]
  simp

theorem frozenIn_put {s : Statics ℚ} :
    (e.put name s m').frozenIn u a = e.frozenElsewhere name u a + m'.frozenIn u a := by
  unfold frozenIn frozenElsewhere put
  rw [Dict.sum_insert, Dict.sum_erase]

/-- One market of the engine, with the others in the background. -/
theorem Solvent.market (h : Solvent F e₀ e) (hm : e.dictMarket.find name = some m) :
    ViabtcExchange.Solvent F (supply e.statics.ledger.dictBalance) (e.frozenElsewhere name)
      e.statics.orderIdStart e.statics.ledger m :=
  ⟨h.sound, h.ok, fun _ => le_rfl, h.markets name m hm, fun u a => by
    rw [h.frozen, frozenIn_eq hm]⟩

theorem Solvent.setting (hinit : Engine.init (ratMpd round) dictAsset confs = some e₀)
    (hd : RoundsDigits round) (h : Solvent F e₀ e) (hroom : e.HasRoom round)
    (hm : e.dictMarket.find name = some m) :
    ∃ stock money, Setting round (supply e.statics.ledger.dictBalance) (e.frozenElsewhere name)
      e.statics.ledger.dictAsset m stock money := by
  obtain ⟨stock, money, hok⟩ := h.sane.confOk hinit hm
  exact ⟨stock, money, hd, hroom, hok, h.elsewhere_nonneg name⟩

/-- The market goes back into the engine. -/
theorem Solvent.put {S : String → ℚ} {s : Statics ℚ} (h : Solvent F e₀ e)
    (hsane : Sane e₀ (e.put name s m')) (hle : e.statics.orderIdStart ≤ s.orderIdStart)
    (hm : ViabtcExchange.Solvent F S (e.frozenElsewhere name) s.orderIdStart s.ledger m') :
    Solvent F e₀ (e.put name s m') := by
  refine ⟨hsane, hm.sound, hm.ok, fun name' m hfind => ?_, fun u a => ?_⟩
  · simp only [Engine.put, Dict.find_insert] at hfind
    split_ifs at hfind
    · obtain rfl := Option.some.inj hfind
      exact hm.indexed
    · exact (h.markets name' m hfind).mono hle
  · rw [frozenIn_put]
    exact hm.frozen u a

/-- A balance update works on one AVAILABLE balance. -/
theorem applyChange_sound {l : Ledger ℚ} {b : Dict BalanceKey ℚ} {x : ℚ} (hr : RoundsDown round)
    (hs : l.Sound) (hrun : applyChange (ratMpd round) l u a x = some b) :
    ViabtcExchange.Sound l.dictAsset b ∧
      ∀ k, k ≠ ⟨u, .available, a⟩ → balanceOf b k = balanceOf l.dictBalance k := by
  unfold applyChange at hrun
  split_ifs at hrun
  · exact balanceAdd_sound hr hs hrun
  · exact balanceSub_sound hr hs hrun

/-- What an accepted balance update changes. -/
theorem updateUserBalance_cases {s s' : Statics ℚ} {d d' : Dict UpdateKey ℚ} {args : UpdateArgs ℚ}
    {padding : ℕ} {now : ℚ} {mpd : Mpd ℚ}
    (h : updateUserBalance mpd real s d args padding now = (0, s', d')) :
    ∃ b, applyChange mpd s.ledger args.userId args.asset args.change = some b ∧
      s'.ledger = { s.ledger with dictBalance := b } ∧ s'.trades = s.trades ∧
      s'.history = (({ s with ledger := { s.ledger with dictBalance := b } } :
        Statics ℚ).appendUserBalanceHistory mpd real args.userId args.asset args.business args.change
          (.update (.object (setId args.detail args.businessId)))).history := by
  unfold updateUserBalance at h
  dsimp only at h
  split at h
  · simp at h
  · split at h
    · simp at h
    · next b hb =>
      have hs := (Prod.ext_iff.mp (Prod.ext_iff.mp h).2).1
      dsimp only at hs
      subst hs
      refine ⟨b, hb, ?_, ?_, ?_⟩ <;> cases real <;> rfl

theorem Solvent.step (hinit : Engine.init (ratMpd round) dictAsset confs = some e₀)
    (hd : RoundsDigits round) (hF : ∀ y, F y → y ≤ 1) (h : Solvent F e₀ e)
    (hpays : e.Pays round F op) (hstep : e.step (ratMpd round) real op = some e') :
    Solvent F e₀ e' := by
  have hsane := h.sane.step hd.toRoundsDown hstep
  have hcases := step_cases hstep
  have htrivial : ∀ (S : String → ℚ) (other : ℕ → String → ℚ) n x e₁,
      TradeInvariant round real F S other n x e₁ fun _ _ => True := fun _ _ _ _ _ => by
    intro _ _ _ _ _ _ _ _ _ _ _
    trivial
  cases op with
  | updateBalance args padding now =>
    obtain ⟨s, d, hupd, rfl⟩ := hcases
    obtain ⟨b, hb, hl, -, -⟩ := updateUserBalance_cases hupd
    obtain ⟨hsound, hframe⟩ := applyChange_sound hd.toRoundsDown h.sound hb
    have hn : s.orderIdStart = e.statics.orderIdStart :=
      congrArg Prod.fst (updateUserBalance_fixed hupd)
    refine ⟨hsane, ?_, ?_, fun name m hm => ?_, fun u a => ?_⟩
    · change s.ledger.Sound
      rw [hl]
      exact hsound
    · change s.ledger.AllOk
      rw [hl]
      exact h.ok
    · rw [show ({ e with statics := s, dictUpdate := d } : Engine ℚ).statics = s from rfl, hn]
      exact h.markets name m hm
    · change s.ledger.balance _ = e.frozenIn u a
      rw [hl, ← h.frozen]
      exact hframe _ (by simp)
  | limitOrder args =>
    obtain ⟨m, o, hm, hok, hput, hret, rfl⟩ := hcases
    obtain ⟨hroom, hall⟩ := hpays
    obtain ⟨hgrid, hpgrid, hfee, hpays⟩ := hall m hm
    obtain ⟨hamount, hprice⟩ := limitOk_pos hok
    obtain ⟨stock, money, hset⟩ := h.setting hinit hd hroom hm
    obtain ⟨hsolvent, -⟩ := (h.market hm).putLimit hset ⟨hamount, hprice, hgrid, hpgrid, hfee⟩ hpays
      (I := fun _ _ => True) (htrivial _ _ _ _ _) trivial hput hret
    exact h.put hsane (bookOk_putLimit hd.toRoundsDown (h.markets _ m hm).book hamount hprice hput).1
      hsolvent
  | marketOrder args =>
    obtain ⟨m, o, hm, hok, hput, hret, rfl⟩ := hcases
    obtain ⟨hroom, hall⟩ := hpays
    have hamount : 0 < args.amount := (ratMpd_cmp_pos _ _ _).mp hok.amount
    have hfee : args.takerFee ≤ 1 := by
      have := hok.takerFee
      simp [feeRateOk] at this
      exact this.2.le
    obtain ⟨stock, money, hset⟩ := h.setting hinit hd hroom hm
    obtain ⟨hsolvent, -⟩ := (h.market hm).putMarket hset hF ⟨hamount, hall m hm, hfee⟩
      (I := fun _ _ => True) (htrivial _ _ _ _ _) trivial hput hret
    exact h.put hsane (bookOk_putMarket hd.toRoundsDown (h.markets _ m hm).book hamount hput).1
      hsolvent
  | cancelOrder args =>
    obtain ⟨m, hm, hmem, huser, rfl⟩ := hcases
    obtain ⟨stock, money, hset⟩ := h.setting hinit hd hpays hm
    obtain ⟨hsolvent, -⟩ := (h.market hm).cancel real hset hmem
    have hn := (bookOk_cancel round real e.statics (h.markets _ m hm).book hmem).1
    exact h.put hsane hn.ge (hn ▸ hsolvent)
  | expire now =>
    subst hcases
    exact ⟨hsane, h.sound, h.ok, h.markets, h.frozen⟩

theorem solvent_init (hinit : Engine.init (ratMpd round) dictAsset confs = some e₀) :
    Solvent F e₀ e₀ := by
  obtain ⟨hledger, -, hmarkets⟩ := init_spec hinit
  refine ⟨sane_init hinit, ?_, ?_, fun name m hm => ?_, fun u a => ?_⟩
  · rw [hledger]
    exact sound_empty dictAsset
  · rw [hledger]
    exact fun _ hc => by cases hc
  · obtain ⟨conf, -, -, hcreate⟩ := hmarkets name m hm
    exact indexed_init (c := True) (P := Backed F m.stockPrec m.moneyPrec) hinit name m hm
  · have hzero : e₀.frozenIn u a = 0 := Dict.sum_eq_zero fun name m hm => by
      obtain ⟨conf, -, -, hcreate⟩ := hmarkets name m hm
      have hbook := (marketCreate_spec hcreate).2.2.2
      simp [Market.frozenIn, Market.frozenOn, hbook]
    rw [hzero, hledger]
    simp [Ledger.balance, balanceOf]

/-- A run of requests that are paid for. -/
theorem solvent_run (hinit : Engine.init (ratMpd round) dictAsset confs = some e₀)
    (hd : RoundsDigits round) (hF : ∀ y, F y → y ≤ 1) {ops : List (Op ℚ)}
    (hpays : Along (ratMpd round) real (Pays round F) e₀ ops)
    (hrun : e₀.run (ratMpd round) real ops = some e) : Solvent F e₀ e :=
  run_induction (fun _ _ _ h hpays hstep => h.step hinit hd hF hpays hstep) hpays
    (solvent_init hinit) hrun

end Step

/-! ## Runs that are paid for -/

/-- The supply of every asset keeps a digit clear of the context. -/
def Small (e : Engine ℚ) : Prop :=
  ∀ a ∈ e.statics.ledger.dictAsset.keys,
    supply e.statics.ledger.dictBalance a < 10 ^ (33 - assetPrec e.statics.ledger.dictAsset a)

/-- The condition on a request: its numbers are in whole ticks, the supplies are small, and a
limit order is covered to its end. -/
def Funded (e : Engine ℚ) : Op ℚ → Prop
  | .limitOrder args => e.Small ∧ ∀ m, e.dictMarket.find args.market = some m →
    OnGrid m.stockPrec args.amount ∧ OnGrid m.moneyPrec args.price ∧
      LimitFunds (roundDown 34) e.statics.ledger.dictAsset (limitMatching decimal128 args.side)
        (m.book args.side.opposite) (startLimit decimal128 e.statics m args.userId args.side
          args.amount args.price args.takerFee args.makerFee args.source)
  | .marketOrder args => e.Small ∧ ∀ m, e.dictMarket.find args.market = some m →
    OnGrid m.stockPrec args.amount
  | .cancelOrder _ => e.Small
  | _ => True

section Runs

variable {real : Bool} {e₀ e : Engine ℚ} {op : Op ℚ} {dictAsset : Dict String AssetType}
  {confs : List (MarketConf ℚ)} {ops : List (Op ℚ)}

theorem Small.hasRoom (h : e.Small) : e.HasRoom (roundDown 34) := by
  intro a ty x hty hx hle
  have hprec : assetPrec e.statics.ledger.dictAsset a = ty.precSave := by
    simp [assetPrec, hty]
  have hsmall := h a (Finmap.mem_keys.mpr (Dict.mem_of_find hty))
  rw [hprec] at hsmall
  refine roundDown_of_onGrid hx ?_
  calc
    |x| ≤ 4 * supply e.statics.ledger.dictBalance a := hle
    _ < 4 * 10 ^ (33 - (ty.precSave : ℤ)) := by linarith
    _ ≤ 10 * 10 ^ (33 - (ty.precSave : ℤ)) := by
      have := ten_zpow_pos (33 - (ty.precSave : ℤ))
      linarith
    _ = 10 ^ ((34 : ℕ) - (ty.precSave : ℤ)) := by
      rw [← zpow_one_add₀ (by norm_num : (10 : ℚ) ≠ 0)]
      congr 1
      push_cast
      ring

/-- Amounts of a market order that are in whole ticks of stock fit the money, too. -/
theorem Sane.tick (hinit : Engine.init (ratMpd (roundDown 34)) dictAsset confs = some e₀)
    (h : Sane e₀ e) {name : String} {m : Market ℚ} (hm : e.dictMarket.find name = some m) {x : ℚ}
    (hx : OnGrid m.stockPrec x) (side : OrderSide) :
    MarketGrid e.statics.ledger.dictAsset m side x := by
  cases side with
  | ask => exact hx
  | bid =>
    intro ty hty
    obtain ⟨stock, money, hok⟩ := h.confOk hinit hm
    obtain rfl := Option.some.inj (hok.findMoney.symm.trans hty)
    exact hx.mono (by exact_mod_cast Nat.le_of_add_right_le hok.deal)

theorem pays_of_funded (hinit : Engine.init decimal128 dictAsset confs = some e₀) (h : Sane e₀ e)
    {e' : Engine ℚ} (hstep : e.step decimal128 real op = some e') (hfunded : e.Funded op) :
    e.Pays (roundDown 34) (· ≤ 1) op := by
  have hcases := step_cases hstep
  cases op with
  | limitOrder args =>
    obtain ⟨m, o, hm, hok, -⟩ := hcases
    obtain ⟨hsmall, hall⟩ := hfunded
    refine ⟨hsmall.hasRoom, fun m' hm' => ?_⟩
    obtain ⟨hgrid, hpgrid, hfunds⟩ := hall m' hm'
    have hfee : args.makerFee ≤ 1 := by
      have := hok.makerFee
      simp only [feeRateOk, Bool.not_eq_true', Bool.or_eq_false_iff, decide_eq_false_iff_not,
        ratMpd_cmp_nonneg, ratMpd_one, ge_iff_le, not_le] at this
      exact this.2.le
    exact ⟨hgrid, hpgrid, hfee, Or.inl hfunds⟩
  | marketOrder args =>
    obtain ⟨hsmall, hall⟩ := hfunded
    exact ⟨hsmall.hasRoom, fun m hm => h.tick hinit hm (hall m hm) args.side⟩
  | cancelOrder args => exact hfunded.hasRoom
  | updateBalance args padding now => trivial
  | expire now => trivial

/-- Every balance call of a funded run returns other than `NULL`. -/
theorem calls_succeed (hinit : Engine.init decimal128 dictAsset confs = some e₀)
    (hrun : e₀.run decimal128 real ops = some e)
    (hfunded : Along decimal128 real Funded e₀ ops) : e.statics.ledger.AllOk := by
  have hsolvent : Solvent (· ≤ 1) e₀ e := run_induction (fun e op e' h hf hstep =>
    h.step hinit roundsDigits_roundDown (fun _ h => h) (pays_of_funded hinit h.sane hstep hf) hstep)
    hfunded (solvent_init hinit) hrun
  exact hsolvent.ok

/-- The condition on a request of a run without fees: its numbers are in whole ticks. -/
def FreeInTicks (e : Engine ℚ) : Op ℚ → Prop
  | .limitOrder args => args.takerFee = 0 ∧ args.makerFee = 0 ∧
    ∀ m, e.dictMarket.find args.market = some m →
      OnGrid m.stockPrec args.amount ∧ OnGrid m.moneyPrec args.price
  | .marketOrder args => args.takerFee = 0 ∧ ∀ m, e.dictMarket.find args.market = some m →
    MarketGrid e.statics.ledger.dictAsset m args.side args.amount
  | _ => True

theorem pays_of_free (h : e.FreeInTicks op) : e.Pays id (· = 0) op := by
  have hroom : e.HasRoom id := fun _ _ _ _ _ _ => rfl
  cases op with
  | limitOrder args =>
    obtain ⟨htaker, hmaker, hall⟩ := h
    refine ⟨hroom, fun m hm => ?_⟩
    obtain ⟨hgrid, hpgrid⟩ := hall m hm
    exact ⟨hgrid, hpgrid, hmaker, Or.inr ⟨htaker, fun _ h => h⟩⟩
  | marketOrder args => exact ⟨hroom, h.2⟩
  | cancelOrder args => exact hroom
  | updateBalance args padding now => trivial
  | expire now => trivial

/-- Without fees the frozen balances are what the open orders freeze, and no call fails. -/
theorem frozen_eq_open (hinit : Engine.init exactDecimal dictAsset confs = some e₀)
    (hrun : e₀.run exactDecimal real ops = some e)
    (hfree : Along exactDecimal real FreeInTicks e₀ ops) :
    (∀ u a, balanceOf e.statics.ledger.dictBalance ⟨u, .freeze, a⟩ =
        e.dictMarket.sum fun _ m =>
          (if m.stock = a then (m.asks.map fun i =>
              if (m.order i).userId = u then (m.order i).freeze else 0).sum else 0) +
            if m.money = a then (m.bids.map fun i =>
              if (m.order i).userId = u then (m.order i).freeze else 0).sum else 0) ∧
      ∀ c ∈ e.statics.ledger.calls, c.2 = true := by
  have hsolvent : Solvent (· = 0) e₀ e := solvent_run hinit roundsDigits_id
    (fun _ h => h.trans_le zero_le_one) (fun pre op post e₁ hops hpre =>
      pays_of_free (hfree pre op post e₁ hops hpre)) hrun
  exact ⟨hsolvent.frozen, hsolvent.ok⟩

instance (p : ℤ) (x : ℚ) : Decidable (OnGrid p x) :=
  decidable_of_iff (truncTo p x = x) ⟨fun h => h ▸ onGrid_truncTo p x, truncTo_of_onGrid⟩

instance decidableCovers (r : BalanceKey → ℚ → ℚ) (b : BalanceKey → ℚ) :
    (ps : List (BalanceKey × ℚ)) → Decidable (Covers r b ps)
  | [] => isTrue trivial
  | p :: ps =>
    haveI := decidableCovers r (post r b p) ps
    inferInstanceAs (Decidable (0 ≤ b p.1 + p.2 ∧ Covers r (post r b p) ps))

instance (round : ℚ → ℚ) (dictAsset : Dict String AssetType) (x : Matching ℚ) (ids : List ℕ)
    (e : Execution ℚ) : Decidable (LimitFunds round dictAsset x ids e) := by
  unfold LimitFunds
  infer_instance

instance (e : Engine ℚ) : Decidable e.Small := by
  unfold Small
  infer_instance

instance (e : Engine ℚ) (op : Op ℚ) : Decidable (e.Funded op) := by
  refine op.casesOn ?_ ?_ ?_ ?_ ?_ <;> intros <;> dsimp only [Funded]
  all_goals infer_instance

instance (dictAsset : Dict String AssetType) (m : Market ℚ) (side : OrderSide) (x : ℚ) :
    Decidable (MarketGrid dictAsset m side x) := by
  refine side.casesOn ?_ ?_ <;> unfold MarketGrid
  all_goals infer_instance

instance (e : Engine ℚ) (op : Op ℚ) : Decidable (e.FreeInTicks op) := by
  refine op.casesOn ?_ ?_ ?_ ?_ ?_ <;> intros <;> dsimp only [FreeInTicks]
  all_goals infer_instance

end Runs

end Engine

/-! ## A fee that is not there -/

/-- The bid has the price of the ask it meets, and nothing for the fee. -/
def unfundedOps : List (Op ℚ) :=
  [deposit 1 "CNY" 1 5, deposit 2 "BTC" 2 5, limitOrder 2 .ask 5 1 0 0,
    limitOrder 1 .bid 5 1 (1 / 10) 0]

/-- A run from the start that a check of its end accepts. -/
theorem exampleRun_spec {mpd : Mpd ℚ} {moneyPrec : ℕ} {ops : List (Op ℚ)}
    {check : Engine ℚ → Bool} (h : (exampleRun mpd moneyPrec ops).any check = true) :
    ∃ e₀ e, Engine.init mpd exampleAssets [exampleConf moneyPrec] = some e₀ ∧
      e₀.run mpd true ops = some e ∧ check e = true := by
  obtain ⟨e, he, hcheck⟩ := (Option.any_eq_true _ _).mp h
  obtain ⟨e₀, hinit, hrun⟩ := Option.bind_eq_some_iff.mp he
  exact ⟨e₀, e, hinit, hrun, hcheck⟩

/-- The debit of the fee fails, and the order is accepted all the same. -/
theorem unfunded_fee :
    ∃ e₀ e, Engine.init decimal128 exampleAssets [exampleConf 8] = some e₀ ∧
      e₀.run decimal128 true unfundedOps = some e ∧ ¬e.statics.ledger.AllOk ∧
      (.sub 1 .available "CNY" (1 / 2), false) ∈ e.statics.ledger.calls := by
  obtain ⟨e₀, e, hinit, hrun, hcheck⟩ := exampleRun_spec
    (by decide +kernel : (exampleRun decimal128 8 unfundedOps).any (fun e =>
      decide ((.sub 1 .available "CNY" (1 / 2), false) ∈ e.statics.ledger.calls)) = true)
  have hmem := of_decide_eq_true hcheck
  exact ⟨e₀, e, hinit, hrun, fun hok => absurd (hok _ hmem) (by simp), hmem⟩

/-- The same with enough for the fee and for the rest of a larger bid, a market order, and a
cancelled rest. -/
def fundedOps : List (Op ℚ) :=
  [deposit 1 "CNY" 1 10, deposit 2 "BTC" 2 6, limitOrder 2 .ask 5 1 0 0,
    limitOrder 1 .bid 9 1 (1 / 10) (1 / 100),
    .marketOrder ⟨2, "BTCCNY", .ask, 1, 1 / 10, "web"⟩, cancelOrder 1 2]

theorem fundedOps_succeed :
    ∃ e₀ e, Engine.init decimal128 exampleAssets [exampleConf 8] = some e₀ ∧
      e₀.run decimal128 true fundedOps = some e ∧ e.statics.ledger.calls.length = 14 ∧
      e.statics.ledger.AllOk := by
  obtain ⟨e₀, e, hinit, hrun, hcheck⟩ := exampleRun_spec
    (by decide +kernel : (exampleRun decimal128 8 fundedOps).any (fun e =>
      decide (e.statics.ledger.calls.length = 14)) = true)
  have hfunded : Engine.Along decimal128 true Engine.Funded e₀ fundedOps :=
    of_decide_eq_true (exampleInit_spec (fun e₀ => decide (Engine.Along decimal128 true
      Engine.Funded e₀ fundedOps)) hinit (by decide +kernel))
  exact ⟨e₀, e, hinit, hrun, of_decide_eq_true hcheck, Engine.calls_succeed hinit hrun hfunded⟩

/-- A bid that rests with half of it filled, and another one that was cancelled. -/
def restingOps : List (Op ℚ) :=
  [deposit 1 "CNY" 1 20, deposit 2 "BTC" 2 6, limitOrder 2 .ask 5 1 0 0, limitOrder 1 .bid 10 1 0 0,
    limitOrder 1 .bid 3 (1 / 2) 0 0, cancelOrder 1 3]

theorem restingOps_frozen :
    ∃ e₀ e, Engine.init exactDecimal exampleAssets [exampleConf 8] = some e₀ ∧
      e₀.run exactDecimal true restingOps = some e ∧
      balanceOf e.statics.ledger.dictBalance ⟨1, .freeze, "CNY"⟩ = 5 ∧
      (e.dictMarket.sum fun _ m =>
        (if m.stock = "CNY" then (m.asks.map fun i =>
            if (m.order i).userId = 1 then (m.order i).freeze else 0).sum else 0) +
          if m.money = "CNY" then (m.bids.map fun i =>
            if (m.order i).userId = 1 then (m.order i).freeze else 0).sum else 0) = 5 ∧
      ∀ c ∈ e.statics.ledger.calls, c.2 = true := by
  obtain ⟨e₀, e, hinit, hrun, hcheck⟩ := exampleRun_spec
    (by decide +kernel : (exampleRun exactDecimal 8 restingOps).any (fun e =>
      decide (balanceOf e.statics.ledger.dictBalance ⟨1, .freeze, "CNY"⟩ = 5)) = true)
  have hfree : Engine.Along exactDecimal true Engine.FreeInTicks e₀ restingOps :=
    of_decide_eq_true (exampleInit_spec (fun e₀ => decide (Engine.Along exactDecimal true
      Engine.FreeInTicks e₀ restingOps)) hinit (by decide +kernel))
  obtain ⟨hfrozen, hok⟩ := Engine.frozen_eq_open hinit hrun hfree
  have hvalue := of_decide_eq_true hcheck
  exact ⟨e₀, e, hinit, hrun, hvalue, (hfrozen 1 "CNY").symm.trans hvalue, hok⟩

end ViabtcExchange
