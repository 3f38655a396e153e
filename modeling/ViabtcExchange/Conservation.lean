import ViabtcExchange.Exactness

/-!
# Conservation of assets

**Theorem (`Engine.supply_eq`).** In a run of funded requests whose fees and changes fit the
balances, the supply of an asset is the sum of the balance updates less the fees of the trades.

A fee that cannot be debited, or has more digits than the balance, breaks this: `unfunded_supply`.
-/

namespace ViabtcExchange

/-- The fees of a list of trades in an asset, as the matching computed them. -/
def feesIn (a : String) (trades : List (Trade ℚ)) : ℚ :=
  (trades.map fun trade => (if trade.askFeeAsset = a then trade.terms.askFee else 0) +
    if trade.bidFeeAsset = a then trade.terms.bidFee else 0).sum

/-- The balance updates of a list of requests in an asset. -/
def changesIn (a : String) (ops : List (Op ℚ)) : ℚ :=
  (ops.map fun
    | .updateBalance args _ _ => if args.asset = a then args.change else 0
    | _ => 0).sum

theorem feesIn_append (a : String) (trades trades' : List (Trade ℚ)) :
    feesIn a (trades ++ trades') = feesIn a trades + feesIn a trades' := by
  simp [feesIn]

section Conserved

variable {round : ℚ → ℚ} {S : String → ℚ} {l : Ledger ℚ} {cs : List (BalanceCall ℚ)} {a : String}

/-- Exact calls move the supply by what they post. -/
theorem ExactCalls.supply_callAll (hr : RoundsDown round) (h : ExactCalls round S l cs)
    (a : String) : ViabtcExchange.supply (l.callAll (ratMpd round) cs).dictBalance a =
      ViabtcExchange.supply l.dictBalance a + issued (postings cs) a :=
  supply_post (Ledger.callAll_spec hr h.good h.covers).1 h.keeps a

/-- The supply of an asset together with the fees taken out of it. -/
def Conserved (a : String) (total : ℚ) (s : Statics ℚ) : Prop :=
  supply s.ledger.dictBalance a + feesIn a s.trades = total

theorem stable_conserved (hr : RoundsDown round) (real : Bool) (a : String) (total : ℚ) :
    Stable round real (Conserved a total) where
  quiet {s s'} h hj := by
    have hl : s'.ledger = s.ledger := congrArg Prod.fst h
    have ht : s'.trades = s.trades := congrArg (fun p => p.2.1) h
    unfold Conserved
    rw [hl, ht]
    exact hj
  pay {S x e i t} h hask hbid hj := by
    have hsilent := silent_payTrade (ratMpd round) real x e i t
    rw [payTrade_false] at hsilent
    have hl : (payTrade (ratMpd round) real x e i t).ledger =
        e.statics.ledger.callAll (ratMpd round)
          (tradeCalls (ratMpd round) x e.market e.taker (e.market.order i) t) :=
      (congrArg (fun s : Statics ℚ => s.ledger) hsilent).symm
    have ht : (payTrade (ratMpd round) real x e i t).trades =
        e.statics.trades ++ [x.record e.market t] :=
      (congrArg (fun s : Statics ℚ => s.trades) hsilent).symm
    have hfees : feesIn a [x.record e.market t] =
        (if e.market.money = a then t.askFee else 0) +
          if x.bidFeeAsset e.market = a then t.bidFee else 0 := by
      simp [feesIn, Matching.record]
    unfold Conserved at hj ⊢
    rw [hl, ht, h.supply_callAll hr, issued_tradeCalls, feesIn_append, hfees, max_eq_left hask,
      max_eq_left hbid]
    linarith
  move {S s c} hc h hj := by
    have hl : (s.call (ratMpd round) c).ledger = s.ledger.callAll (ratMpd round) [c] := rfl
    have hzero : issued (postings [c]) a = 0 := by
      cases c with
      | add u type b x => cases hc
      | sub u type b x => cases hc
      | freeze u b x => by_cases hb : b = a <;> simp [BalanceCall.postings, issued, hb]
      | unfreeze u b x => by_cases hb : b = a <;> simp [BalanceCall.postings, issued, hb]
    unfold Conserved at hj ⊢
    rw [hl, h.supply_callAll hr, hzero, add_zero]
    exact hj

end Conserved

namespace Engine

variable {real : Bool} {e₀ e e' : Engine ℚ} {op : Op ℚ} {dictAsset : Dict String AssetType}
  {confs : List (MarketConf ℚ)} {ops : List (Op ℚ)} {a : String} {total : ℚ}

/-- What a run keeps while nothing is lost. -/
theorem Exact.pays (hinit : Engine.init decimal128 dictAsset confs = some e₀)
    (h : Solvent (fun y => 0 ≤ y ∧ y ≤ 1) e₀ e) (hexact : e.Exact op)
    (hstep : e.step decimal128 real op = some e') :
    e.Pays (roundDown 34) (fun y => 0 ≤ y ∧ y ≤ 1) op := by
  have hpays := pays_of_funded hinit h.sane hstep hexact.1
  have hcases := step_cases hstep
  cases op with
  | limitOrder args =>
    obtain ⟨m, o, hm, hok, -⟩ := hcases
    obtain ⟨hroom, hall⟩ := hpays
    refine ⟨hroom, fun m' hm' => ?_⟩
    obtain ⟨hgrid, hpgrid, hfee, hpays⟩ := hall m' hm'
    refine ⟨hgrid, hpgrid, ⟨(feeRateOk_iff.mp hok.makerFee).1, hfee⟩, ?_⟩
    exact Or.inl ((hexact.1.2 m' hm').2.2)
  | marketOrder args => exact hpays
  | cancelOrder args => exact hpays
  | updateBalance args padding now => trivial
  | expire now => trivial

/-- A request moves the supply, with the fees counted in, by its change. -/
theorem conserved_step (hinit : Engine.init decimal128 dictAsset confs = some e₀)
    (h : Solvent (fun y => 0 ≤ y ∧ y ≤ 1) e₀ e) (hexact : e.Exact op)
    (hstep : e.step decimal128 real op = some e') (hj : Conserved a total e.statics) :
    Conserved a (total + changesIn a [op]) e'.statics := by
  have hr := roundsDown_roundDown
  cases hop : op with
  | updateBalance args padding now =>
    subst hop
    obtain ⟨s, d, hupd, rfl⟩ := step_cases hstep
    obtain ⟨b, hb, hl, ht, -⟩ := updateUserBalance_cases hupd
    obtain ⟨hval, hkeep, -, -⟩ := hexact.2.2.applyChange h.sound hb
    change Conserved a _ s
    unfold Conserved at hj ⊢
    rw [hl, ht, supply_post hval hkeep a]
    have hchange : changesIn a [Op.updateBalance args padding now] =
        if args.asset = a then args.change else 0 := by
      simp [changesIn]
    rw [hchange, issued_cons, issued_nil]
    dsimp only
    linarith
  | _ =>
    have hnone : changesIn a [op] = 0 := by simp [hop, changesIn]
    rw [← hop, hnone, add_zero]
    refine Stable.step (stable_conserved hr real a total) hinit roundsDigits_roundDown
      (fun _ h => h) h (hexact.pays hinit h hstep) hexact.2.1 hstep (fun _ _ _ _ _ hupdate => ?_) hj
    rw [hop] at hupdate
    cases hupdate

/-- A run moves the supply, with the fees counted in, by its changes. -/
theorem conserved_run (hinit : Engine.init decimal128 dictAsset confs = some e₀)
    (h : Solvent (fun y => 0 ≤ y ∧ y ≤ 1) e₀ e) (hexact : Along decimal128 real Exact e ops)
    (hrun : e.run decimal128 real ops = some e') (hj : Conserved a total e.statics) :
    Conserved a (total + changesIn a ops) e'.statics := by
  induction ops generalizing e total with
  | nil =>
    obtain rfl := Option.some.inj hrun
    simpa [changesIn] using hj
  | cons op ops ih =>
    rw [run_cons] at hrun
    obtain ⟨e₁, hstep, hrun⟩ := Option.bind_eq_some_iff.mp hrun
    obtain ⟨hop, hops⟩ := along_cons.mp hexact
    have hsolvent := h.step hinit roundsDigits_roundDown (fun _ hy => hy.2) (hop.pays hinit h hstep)
      hstep
    have hnext := ih hsolvent (hops e₁ hstep) hrun (conserved_step hinit h hop hstep hj)
    have hsum : changesIn a (op :: ops) = changesIn a [op] + changesIn a ops := by
      simp [changesIn]
    rw [hsum, ← add_assoc]
    exact hnext

/-- The supply of an asset is what was put in, less the fees of the trades. -/
theorem supply_eq (hinit : Engine.init decimal128 dictAsset confs = some e₀)
    (hrun : e₀.run decimal128 real ops = some e) (hexact : Along decimal128 real Exact e₀ ops)
    (a : String) :
    supply e.statics.ledger.dictBalance a = changesIn a ops - feesIn a e.statics.trades := by
  have hstart : Conserved a 0 e₀.statics := by
    obtain ⟨hledger, htrades, -⟩ := init_spec hinit
    unfold Conserved
    rw [hledger, htrades]
    simp [supply, feesIn]
  have hend := conserved_run hinit (solvent_init hinit) hexact hrun hstart
  unfold Conserved at hend
  linarith

instance (dictAsset : Dict String AssetType) (k : BalanceKey) (x : ℚ) :
    Decidable (Fits dictAsset k x) := by
  unfold Fits
  infer_instance

instance (dictAsset : Dict String AssetType) (x : Matching ℚ) (m : Market ℚ) (t : Terms ℚ) :
    Decidable (ViabtcExchange.FeesFit dictAsset x m t) := by
  unfold ViabtcExchange.FeesFit
  infer_instance

instance (round : ℚ → ℚ) (x : Matching ℚ) (ids : List ℕ) (e : Execution ℚ) :
    Decidable (PlanFits round x ids e) := by
  unfold PlanFits
  infer_instance

instance (e : Engine ℚ) (op : Op ℚ) : Decidable (e.Exact op) := by
  refine op.casesOn ?_ ?_ ?_ ?_ ?_ <;> intros <;> dsimp only [Exact, Engine.FeesFit, ChangeFits]
  all_goals infer_instance

end Engine

/-- The fee is in the books of the trade, and still in the balances. -/
theorem unfunded_supply :
    ∃ e₀ e, Engine.init decimal128 exampleAssets [exampleConf 8] = some e₀ ∧
      e₀.run decimal128 true unfundedOps = some e ∧
      supply e.statics.ledger.dictBalance "CNY" = 5 ∧ changesIn "CNY" unfundedOps = 5 ∧
      feesIn "CNY" e.statics.trades = 1 / 2 ∧
      supply e.statics.ledger.dictBalance "CNY" ≠
        changesIn "CNY" unfundedOps - feesIn "CNY" e.statics.trades := by
  obtain ⟨e₀, e, hinit, hrun, hcheck⟩ := exampleRun_spec
    (by decide +kernel : (exampleRun decimal128 8 unfundedOps).any (fun e =>
      decide (supply e.statics.ledger.dictBalance "CNY" = 5 ∧
        feesIn "CNY" e.statics.trades = 1 / 2)) = true)
  obtain ⟨hsupply, hfees⟩ := of_decide_eq_true hcheck
  have hchanges : changesIn "CNY" unfundedOps = 5 := by decide +kernel
  refine ⟨e₀, e, hinit, hrun, hsupply, hchanges, hfees, ?_⟩
  rw [hsupply, hchanges, hfees]
  norm_num

theorem fundedOps_supply :
    ∃ e₀ e, Engine.init decimal128 exampleAssets [exampleConf 8] = some e₀ ∧
      e₀.run decimal128 true fundedOps = some e ∧ feesIn "CNY" e.statics.trades = 3 / 5 ∧
      supply e.statics.ledger.dictBalance "CNY" =
        changesIn "CNY" fundedOps - feesIn "CNY" e.statics.trades := by
  obtain ⟨e₀, e, hinit, hrun, hcheck⟩ := exampleRun_spec
    (by decide +kernel : (exampleRun decimal128 8 fundedOps).any (fun e =>
      decide (feesIn "CNY" e.statics.trades = 3 / 5)) = true)
  have hexact : Engine.Along decimal128 true Engine.Exact e₀ fundedOps :=
    of_decide_eq_true (exampleInit_spec (fun e₀ => decide (Engine.Along decimal128 true
      Engine.Exact e₀ fundedOps)) hinit (by decide +kernel))
  exact ⟨e₀, e, hinit, hrun, of_decide_eq_true hcheck, Engine.supply_eq hinit hrun hexact "CNY"⟩

end ViabtcExchange
