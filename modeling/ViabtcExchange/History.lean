import ViabtcExchange.Conservation

/-!
# The balance history (`me_history.c`)

Every row of the balance history has a change and the total balance right after it, AVAILABLE and
FREEZE together. Moves between the two write no row.

**Theorem (`Engine.history_chained`).** In a real run of exact requests, the rows of a user and an
asset form a chain: each balance is the one before plus the change. The last one is the balance of
the moment.
-/

namespace ViabtcExchange

/-! ## Chains of rows -/

/-- Each row's second entry is the one before plus its first. -/
def Chained (start : ℚ) : List (ℚ × ℚ) → Prop
  | [] => True
  | row :: rows => row.2 = start + row.1 ∧ Chained row.2 rows

/-- The second entry of the last row. -/
def lastBalance (start : ℚ) : List (ℚ × ℚ) → ℚ
  | [] => start
  | row :: rows => lastBalance row.2 rows

theorem lastBalance_append (start : ℚ) (rows : List (ℚ × ℚ)) (row : ℚ × ℚ) :
    lastBalance start (rows ++ [row]) = row.2 := by
  induction rows generalizing start with
  | nil => rfl
  | cons first rows ih => exact ih first.2

theorem chained_append (start : ℚ) (rows : List (ℚ × ℚ)) (row : ℚ × ℚ) :
    Chained start (rows ++ [row]) ↔
      Chained start rows ∧ row.2 = lastBalance start rows + row.1 := by
  induction rows generalizing start with
  | nil => simp [Chained, lastBalance]
  | cons first rows ih => simp only [List.cons_append, Chained, lastBalance, ih, and_assoc]

/-! ## Rows and balances -/

/-- AVAILABLE and FREEZE of a user in an asset. -/
def Ledger.total (l : Ledger ℚ) (u : ℕ) (a : String) : ℚ :=
  l.balance ⟨u, .available, a⟩ + l.balance ⟨u, .freeze, a⟩

/-- The rows so far are chained, down to the balances of the moment. -/
def Recorded (s : Statics ℚ) : Prop :=
  ∀ u a, Chained 0 (rowsOf u a s.history) ∧
    lastBalance 0 (rowsOf u a s.history) = s.ledger.total u a

section Rows

variable {round : ℚ → ℚ} {s s' : Statics ℚ} {l : Ledger ℚ} {u : ℕ} {a : String} {type : BalanceType}
  {d : ℚ} {cs : List (BalanceCall ℚ)}

/-- An exact posting moves one total. -/
theorem total_post {l' : Ledger ℚ} {r : BalanceKey → ℚ → ℚ}
    (hval : l'.balance = postAll r l.balance [(⟨u, type, a⟩, d)])
    (hkeep : Keeps r l.balance [(⟨u, type, a⟩, d)]) (u' : ℕ) (a' : String) :
    l'.total u' a' = l.total u' a' + if u = u' ∧ a = a' then d else 0 := by
  unfold Ledger.total
  rw [hval, postAll_apply hkeep, postAll_apply hkeep]
  simp only [posted_cons, posted_nil, add_zero]
  by_cases h : u = u' ∧ a = a'
  · obtain ⟨rfl, rfl⟩ := h
    cases type <;> simp <;> ring
  · have hno : ∀ type', (⟨u, type, a⟩ : BalanceKey) ≠ ⟨u', type', a'⟩ := fun type' heq =>
      h ⟨congrArg BalanceKey.userId heq, congrArg BalanceKey.asset heq⟩
    simp [hno, h]

/-- A row that follows its posting keeps the chain. -/
theorem Recorded.entry {business : String} {detail : Detail ℚ} {r : BalanceKey → ℚ → ℚ}
    (h : Recorded s) (hval : s'.ledger.balance = postAll r s.ledger.balance [(⟨u, type, a⟩, d)])
    (hkeep : Keeps r s.ledger.balance [(⟨u, type, a⟩, d)])
    (hrow : s'.history = s.history ++ [.balance u a business d (s'.ledger.total u a) detail]) :
    Recorded s' := by
  intro u' a'
  obtain ⟨hchain, hlast⟩ := h u' a'
  have htotal := total_post hval hkeep u' a'
  have hrows : rowsOf u' a' s'.history = rowsOf u' a' s.history ++
      if u = u' ∧ a = a' then [(d, s'.ledger.total u a)] else [] := by
    rw [hrow, rowsOf, List.filterMap_append]
    congr 1
    split_ifs with hk <;> simp [hk]
  rw [hrows, htotal]
  split_ifs with hk
  · obtain ⟨rfl, rfl⟩ := hk
    rw [if_pos ⟨rfl, rfl⟩] at htotal
    rw [chained_append, lastBalance_append, hlast]
    exact ⟨⟨hchain, htotal⟩, htotal⟩
  · rw [List.append_nil, add_zero]
    exact ⟨hchain, hlast⟩

/-- The total a row is written with is the total. -/
theorem balanceTotal_eq {b : Dict BalanceKey ℚ}
    (havail : round (balanceOf b ⟨u, .available, a⟩) = balanceOf b ⟨u, .available, a⟩)
    (htotal : round (balanceOf b ⟨u, .available, a⟩ + balanceOf b ⟨u, .freeze, a⟩) =
      balanceOf b ⟨u, .available, a⟩ + balanceOf b ⟨u, .freeze, a⟩) :
    balanceTotal (ratMpd round) b u a =
      balanceOf b ⟨u, .available, a⟩ + balanceOf b ⟨u, .freeze, a⟩ := by
  unfold balanceTotal balanceGet
  unfold balanceOf at *
  cases hb : b.find ⟨u, .available, a⟩ with
  | none =>
    rw [hb] at htotal
    cases hf : b.find ⟨u, .freeze, a⟩ with
    | none => simp
    | some w =>
      rw [hf] at htotal
      simpa using htotal
  | some v =>
    rw [hb] at havail htotal
    cases hf : b.find ⟨u, .freeze, a⟩ with
    | none => simpa using havail
    | some w =>
      rw [hf] at htotal
      simp only [Option.getD_some] at havail htotal
      simp [havail, htotal]

theorem total_le_supply (hs : l.Sound) (u : ℕ) (a : String) :
    l.total u a ≤ supply l.dictBalance a := by
  have hne : (⟨u, .available, a⟩ : BalanceKey) ≠ ⟨u, .freeze, a⟩ := by simp
  let S : Finset BalanceKey := {⟨u, .available, a⟩, ⟨u, .freeze, a⟩}
  calc l.total u a = ∑ k ∈ S, balanceOf l.dictBalance k := (Finset.sum_pair hne).symm
    _ ≤ ∑ k ∈ S ∪ l.dictBalance.keys with k.asset = a, balanceOf l.dictBalance k := by
        refine Finset.sum_le_sum_of_subset_of_nonneg (fun k hk => ?_) fun k _ _ => hs.nonneg k
        rw [Finset.mem_filter, Finset.mem_union]
        refine ⟨Or.inl hk, ?_⟩
        rcases Finset.mem_insert.mp hk with rfl | hk
        · rfl
        · rw [Finset.mem_singleton.mp hk]
    _ = supply l.dictBalance a := (supply_eq_sum Finset.subset_union_right a).symm

/-- The total a row is written with is the total, where the context holds it. -/
theorem Ledger.balanceTotal_eq (hs : l.Sound)
    (hround : ∀ y, Fits l.dictAsset ⟨u, .available, a⟩ y → 0 ≤ y → y ≤ l.total u a → round y = y) :
    balanceTotal (ratMpd round) l.dictBalance u a = l.total u a := by
  have hfits : ∀ type, Fits l.dictAsset ⟨u, .available, a⟩ (l.balance ⟨u, type, a⟩) := fun type =>
    fun ty hty => hs.onGrid (k := ⟨u, type, a⟩) hty
  have havail : 0 ≤ l.balance ⟨u, .available, a⟩ := hs.nonneg _
  have hfreeze : 0 ≤ l.balance ⟨u, .freeze, a⟩ := hs.nonneg _
  refine ViabtcExchange.balanceTotal_eq (hround _ (hfits _) havail ?_)
    (hround _ ((hfits _).add (hfits _)) (add_nonneg havail hfreeze) le_rfl)
  exact le_add_of_nonneg_right hfreeze

end Rows

/-! ## Entries -/

/-- A balance call that posts to one account, and the row written after it. -/
structure Entry (D : Type) where
  call : BalanceCall D
  userId : ℕ
  asset : String
  change : D
  detail : Detail D

section Entries

variable {D : Type} (mpd : Mpd D) (real : Bool)

def Statics.enter (s : Statics D) (en : Entry D) : Statics D :=
  (s.call mpd en.call).appendUserBalanceHistory mpd real en.userId en.asset "trade" en.change en.detail

/-- The entries of one party of a trade. -/
def legEntries (order : Order D) (t : Terms D) (leg : Leg D) : List (Entry D) :=
  let detail := fun feeRate => Detail.trade order.market order.id t.price t.amount feeRate
  ⟨.sub order.userId leg.giveType leg.giveAsset leg.give, order.userId, leg.giveAsset,
    mpd.negate leg.give, detail none⟩ ::
  ⟨.add order.userId .available leg.getAsset leg.get, order.userId, leg.getAsset, leg.get,
    detail none⟩ ::
  if mpd.cmp leg.fee mpd.zero > 0 then
    [⟨.sub order.userId .available leg.feeAsset leg.fee, order.userId, leg.feeAsset,
      mpd.negate leg.fee, detail (some leg.feeRate)⟩]
  else []

theorem payLeg_eq (s : Statics D) (order : Order D) (t : Terms D) (leg : Leg D) :
    payLeg mpd real s order t leg =
      (legEntries mpd order t leg).foldl (Statics.enter mpd real) s := by
  unfold payLeg legEntries
  split_ifs <;> rfl

theorem legEntries_calls (order : Order D) (t : Terms D) (leg : Leg D) :
    (legEntries mpd order t leg).map Entry.call = legCalls mpd order leg := by
  unfold legEntries legCalls
  split_ifs <;> rfl

end Entries

/-- The row of an entry says what its call posts. -/
def Entry.Fair (en : Entry ℚ) : Prop :=
  ∃ type, en.call.postings = [(⟨en.userId, type, en.asset⟩, en.change)]

theorem fair_legEntries {round : ℚ → ℚ} (order : Order ℚ) (t : Terms ℚ) (leg : Leg ℚ) :
    ∀ en ∈ legEntries (ratMpd round) order t leg, en.Fair := by
  intro en hen
  unfold legEntries at hen
  rcases List.mem_cons.mp hen with rfl | hen
  · exact ⟨_, rfl⟩
  rcases List.mem_cons.mp hen with rfl | hen
  · exact ⟨_, rfl⟩
  · split_ifs at hen
    · rw [List.mem_singleton.mp hen]
      exact ⟨_, rfl⟩
    · cases hen

section Payable

variable {round : ℚ → ℚ} {S : String → ℚ} {s : Statics ℚ} {l : Ledger ℚ} {c : BalanceCall ℚ}
  {cs : List (BalanceCall ℚ)} {u : ℕ} {a : String} {type : BalanceType} {d : ℚ}

/-- Exact calls that no total outgrows. -/
structure Payable (round : ℚ → ℚ) (S : String → ℚ) (l : Ledger ℚ) (cs : List (BalanceCall ℚ)) :
    Prop where
  good : ∀ c ∈ cs, c.Good round l.dictAsset
  covers : Covers (saved round l.dictAsset) l.balance (postings cs)
  keeps : Keeps (saved round l.dictAsset) l.balance (postings cs)
  sound : l.Sound
  room : Roomy round l.dictAsset S
  bound : ∀ u a, l.total u a + gained (postings cs) ⟨u, .available, a⟩ +
    gained (postings cs) ⟨u, .freeze, a⟩ ≤ 4 * S a

theorem ExactCalls.payable (h : ExactCalls round S l cs) : Payable round S l cs := by
  refine ⟨h.good, h.covers, h.keeps, h.sound, h.room, fun u a => ?_⟩
  have htotal := (total_le_supply h.sound u a).trans (h.supply a)
  have hnonneg : 0 ≤ l.total u a := add_nonneg (h.sound.nonneg _) (h.sound.nonneg _)
  have hgained := h.gained u a
  linarith

/-- One call less to make. -/
theorem Payable.tail (hr : RoundsDown round) (h : Payable round S l (c :: cs))
    (hc : c.postings = [(⟨u, type, a⟩, d)]) : Payable round S (l.call (ratMpd round) c) cs := by
  obtain ⟨hgood, hgoods⟩ := List.forall_mem_cons.mp h.good
  have hcov := h.covers
  have hkeep := h.keeps
  rw [postings_cons, hc, List.singleton_append] at hcov hkeep
  obtain ⟨hbal, -, hsound⟩ := Ledger.call_spec hr hgood (hc ▸ ⟨hcov.1, trivial⟩)
  rw [hc] at hbal
  refine ⟨by simpa using hgoods, ?_, ?_, hsound h.sound, by simpa using h.room, fun u' a' => ?_⟩
  · rw [hbal, Ledger.call_dictAsset]
    exact hcov.2
  · rw [hbal, Ledger.call_dictAsset]
    exact hkeep.2
  · have hbound := h.bound u' a'
    rw [total_post hbal ⟨hkeep.1, trivial⟩]
    rw [postings_cons, hc, List.singleton_append, gained_cons, gained_cons] at hbound
    by_cases hk : u = u' ∧ a = a'
    · obtain ⟨rfl, rfl⟩ := hk
      rw [if_pos ⟨rfl, rfl⟩]
      have hle := le_max_left d 0
      cases type <;> simp at hbound <;> linarith
    · have hno : ∀ type', (⟨u, type, a⟩ : BalanceKey) ≠ ⟨u', type', a'⟩ := fun type' heq =>
        hk ⟨congrArg BalanceKey.userId heq, congrArg BalanceKey.asset heq⟩
      rw [if_neg (hno .available), if_neg (hno .freeze)] at hbound
      rw [if_neg hk]
      linarith

/-- One entry keeps the chain. -/
theorem Recorded.enter (hr : RoundsDown round) {en : Entry ℚ} (hfair : en.Fair)
    (h : Payable round S s.ledger (en.call :: cs)) (hj : Recorded s) :
    Recorded (s.enter (ratMpd round) true en) := by
  obtain ⟨type, hpost⟩ := hfair
  have htail := h.tail hr hpost
  obtain ⟨hgood, -⟩ := List.forall_mem_cons.mp h.good
  have hcov := h.covers
  have hkeep := h.keeps
  rw [postings_cons, hpost, List.singleton_append] at hcov hkeep
  obtain ⟨hbal, -, -⟩ := Ledger.call_spec hr hgood (hpost ▸ ⟨hcov.1, trivial⟩)
  rw [hpost] at hbal
  have htotal : balanceTotal (ratMpd round) (s.ledger.call (ratMpd round) en.call).dictBalance
      en.userId en.asset = (s.ledger.call (ratMpd round) en.call).total en.userId en.asset := by
    refine Ledger.balanceTotal_eq htail.sound fun y hy hy0 hle => ?_
    obtain ⟨ty, hty⟩ := hgood.known
    have hasset : en.call.asset = en.asset := by
      cases hcall : en.call <;> rw [hcall] at hpost <;> simp [BalanceCall.postings] at hpost <;>
        simp [BalanceCall.asset, hpost]
    rw [hasset] at hty
    rw [Ledger.call_dictAsset] at hy
    refine h.room en.asset ty y hty (hy ty hty) ?_
    rw [abs_of_nonneg hy0]
    have hbound := htail.bound en.userId en.asset
    have h1 := gained_nonneg (postings cs) ⟨en.userId, .available, en.asset⟩
    have h2 := gained_nonneg (postings cs) ⟨en.userId, .freeze, en.asset⟩
    linarith
  have hrow : (s.enter (ratMpd round) true en).history = s.history ++
      [.balance en.userId en.asset "trade" en.change
        ((s.enter (ratMpd round) true en).ledger.total en.userId en.asset) en.detail] := by
    change s.history ++ [HistoryRow.balance en.userId en.asset "trade" en.change
      (balanceTotal (ratMpd round) (s.ledger.call (ratMpd round) en.call).dictBalance en.userId
        en.asset) en.detail] = _
    rw [htotal]
    rfl
  exact Recorded.entry hj hbal ⟨hkeep.1, trivial⟩ hrow

/-- A list of entries keeps the chain. -/
theorem Recorded.enterAll (hr : RoundsDown round) {ens : List (Entry ℚ)}
    (hfair : ∀ en ∈ ens, en.Fair) (h : Payable round S s.ledger (ens.map Entry.call))
    (hj : Recorded s) :
    Recorded (ens.foldl (Statics.enter (ratMpd round) true) s) := by
  induction ens generalizing s with
  | nil => exact hj
  | cons en ens ih =>
    obtain ⟨hen, hens⟩ := List.forall_mem_cons.mp hfair
    have hnext := Recorded.enter hr hen h hj
    obtain ⟨type, hpost⟩ := hen
    exact ih hens (h.tail hr hpost) hnext

end Payable

/-! ## Runs -/

/-- The chain is about the ledger and the balance rows only. -/
theorem Recorded.congr {s s' : Statics ℚ} (hl : s'.ledger = s.ledger)
    (hrows : ∀ u a, rowsOf u a s'.history = rowsOf u a s.history) (hj : Recorded s) :
    Recorded s' := by
  intro u a
  rw [hl, hrows]
  exact hj u a

theorem rowsOf_eq {s s' : Statics ℚ} (h : s'.accounts = s.accounts) (u : ℕ) (a : String) :
    rowsOf u a s'.history = rowsOf u a s.history :=
  congrFun (congrFun (congrArg (fun p => p.2.2) h) u) a

theorem stable_recorded {round : ℚ → ℚ} (hr : RoundsDown round) : Stable round true Recorded where
  quiet h hj := Recorded.congr (congrArg Prod.fst h) (rowsOf_eq h) hj
  pay {S x e i t} h _ _ hj := by
    let s := x.reportDeal true e.market (e.statics.openDeal (x.record e.market t)) e.taker
      (e.market.order i) t (e.statics.dealsIdStart + 1)
    have hs : s.accounts = (e.statics.openDeal (x.record e.market t)).accounts :=
      accounts_reportDeal true _ x e.market e.taker (e.market.order i) t _
    have hl : s.ledger = e.statics.ledger := congrArg Prod.fst hs
    let entries := legEntries (ratMpd round) e.taker t (x.takerLeg e.market e.taker t) ++
      legEntries (ratMpd round) (e.market.order i) t (x.makerLeg e.market (e.market.order i) t)
    have hpay : payTrade (ratMpd round) true x e i t =
        entries.foldl (Statics.enter (ratMpd round) true) s := by
      rw [List.foldl_append, ← payLeg_eq, ← payLeg_eq]
      rfl
    have hcalls : entries.map Entry.call =
        tradeCalls (ratMpd round) x e.market e.taker (e.market.order i) t := by
      rw [List.map_append, legEntries_calls, legEntries_calls, tradeCalls]
    have hfair : ∀ en ∈ entries, en.Fair := fun en hen => by
      rcases List.mem_append.mp hen with hen | hen
      · exact fair_legEntries _ _ _ en hen
      · exact fair_legEntries _ _ _ en hen
    rw [hpay]
    refine Recorded.enterAll (S := S) hr hfair ?_
      (Recorded.congr (s := e.statics) hl (fun u a => rowsOf_eq hs u a) hj)
    rw [hcalls, hl]
    exact h.payable
  move {S s c} hc h hj := by
    have htotal : ∀ u a, (s.call (ratMpd round) c).ledger.total u a =
        s.ledger.total u a := fun u a => by
      have hbal : (s.call (ratMpd round) c).ledger.balance = _ :=
        (Ledger.callAll_spec hr h.good h.covers).1
      unfold Ledger.total
      rw [hbal, postAll_apply h.keeps, postAll_apply h.keeps]
      cases c with
      | add u type b x => cases hc
      | sub u type b x => cases hc
      | freeze u' b x =>
        by_cases hk : u' = u ∧ b = a <;> simp [BalanceCall.postings, hk]
        ring
      | unfreeze u' b x =>
        by_cases hk : u' = u ∧ b = a <;> simp [BalanceCall.postings, hk]
        ring
    intro u a
    rw [htotal]
    exact hj u a

namespace Engine

variable {e₀ e e' : Engine ℚ} {op : Op ℚ} {dictAsset : Dict String AssetType}
  {confs : List (MarketConf ℚ)} {ops : List (Op ℚ)}

theorem recorded_step (hinit : Engine.init decimal128 dictAsset confs = some e₀)
    (h : Solvent (fun y => 0 ≤ y ∧ y ≤ 1) e₀ e) (hexact : e.Exact op)
    (hstep : e.step decimal128 true op = some e') (hj : Recorded e.statics) :
    Recorded e'.statics := by
  have hr := roundsDown_roundDown
  refine Stable.step (stable_recorded hr) hinit roundsDigits_roundDown (fun _ h => h) h
    (hexact.pays hinit h hstep) hexact.2.1 hstep (fun args padding now s d hop hupdate hj => ?_) hj
  subst hop
  obtain ⟨b, hb, hl, -, hrow⟩ := updateUserBalance_cases hupdate
  obtain ⟨hval, hkeep, h0, ty, hty, hgrid⟩ := hexact.2.2.applyChange h.sound hb
  obtain ⟨hsound, -⟩ := applyChange_sound hr h.sound hb
  have hbal : s.ledger.balance = postAll (saved (roundDown 34) e.statics.ledger.dictAsset)
      e.statics.ledger.balance [(⟨args.userId, .available, args.asset⟩, args.change)] := by
    rw [hl]
    exact hval
  have hs : s.ledger.Sound := by
    rw [hl]
    exact hsound
  have htotal : balanceTotal decimal128 s.ledger.dictBalance args.userId args.asset =
      s.ledger.total args.userId args.asset := by
    refine Ledger.balanceTotal_eq hs fun y hy hy0 hle => ?_
    rw [hl] at hy
    refine roundDown_of_onGrid (hy ty hty) ?_
    rw [abs_of_nonneg hy0]
    have hold := total_le_supply h.sound args.userId args.asset
    have hroom := (hexact.2.2 ty hty).2
    rw [total_post hbal hkeep, if_pos ⟨rfl, rfl⟩] at hle
    exact hle.trans_lt ((add_le_add hold (le_abs_self _)).trans_lt hroom)
  have hrow' : s.history = e.statics.history ++ [.balance args.userId args.asset args.business
      args.change (s.ledger.total args.userId args.asset)
      (.update (.object (setId args.detail args.businessId)))] := by
    rw [hrow, ← htotal, hl]
    rfl
  exact Recorded.entry hj hbal hkeep hrow'

theorem recorded_run (hinit : Engine.init decimal128 dictAsset confs = some e₀)
    (h : Solvent (fun y => 0 ≤ y ∧ y ≤ 1) e₀ e) (hexact : Along decimal128 true Exact e ops)
    (hrun : e.run decimal128 true ops = some e') (hj : Recorded e.statics) :
    Recorded e'.statics := by
  induction ops generalizing e with
  | nil =>
    obtain rfl := Option.some.inj hrun
    exact hj
  | cons op ops ih =>
    rw [run_cons] at hrun
    obtain ⟨e₁, hstep, hrun⟩ := Option.bind_eq_some_iff.mp hrun
    obtain ⟨hop, hops⟩ := along_cons.mp hexact
    have hsolvent := h.step hinit roundsDigits_roundDown (fun _ hy => hy.2) (hop.pays hinit h hstep)
      hstep
    exact ih hsolvent (hops e₁ hstep) hrun (recorded_step hinit h hop hstep hj)

/-- The balance history of a user in an asset is a chain, down to the balance of the moment. -/
theorem history_chained (hinit : Engine.init decimal128 dictAsset confs = some e₀)
    (hrun : e₀.run decimal128 true ops = some e) (hexact : Along decimal128 true Exact e₀ ops)
    (u : ℕ) (a : String) :
    Chained 0 (rowsOf u a e.statics.history) ∧
      lastBalance 0 (rowsOf u a e.statics.history) = e.statics.ledger.total u a := by
  have hstart : Recorded e₀.statics := by
    intro u a
    rw [init_statics hinit]
    exact ⟨trivial, (add_zero (0 : ℚ)).symm⟩
  exact recorded_run hinit (solvent_init hinit) hexact hrun hstart u a

end Engine

/-- The row of a fee that was not debited. -/
theorem unfunded_row :
    ∃ e₀ e, Engine.init decimal128 exampleAssets [exampleConf 8] = some e₀ ∧
      e₀.run decimal128 true unfundedOps = some e ∧
      rowsOf 1 "CNY" e.statics.history = [(5, 5), (-5, 0), (-1 / 2, 0)] ∧
      ¬Chained 0 (rowsOf 1 "CNY" e.statics.history) := by
  obtain ⟨e₀, e, hinit, hrun, hcheck⟩ := exampleRun_spec
    (by decide +kernel : (exampleRun decimal128 8 unfundedOps).any (fun e =>
      decide (rowsOf 1 "CNY" e.statics.history = [(5, 5), (-5, 0), (-1 / 2, 0)])) = true)
  have hrows := of_decide_eq_true hcheck
  refine ⟨e₀, e, hinit, hrun, hrows, fun h => ?_⟩
  rw [hrows] at h
  norm_num [Chained] at h

theorem fundedOps_history :
    ∃ e₀ e, Engine.init decimal128 exampleAssets [exampleConf 8] = some e₀ ∧
      e₀.run decimal128 true fundedOps = some e ∧
      (rowsOf 1 "CNY" e.statics.history).length = 4 ∧
      Chained 0 (rowsOf 1 "CNY" e.statics.history) := by
  obtain ⟨e₀, e, hinit, hrun, hcheck⟩ := exampleRun_spec
    (by decide +kernel : (exampleRun decimal128 8 fundedOps).any (fun e =>
      decide ((rowsOf 1 "CNY" e.statics.history).length = 4)) = true)
  have hexact : Engine.Along decimal128 true Engine.Exact e₀ fundedOps :=
    of_decide_eq_true (exampleInit_spec (fun e₀ => decide (Engine.Along decimal128 true
      Engine.Exact e₀ fundedOps)) hinit (by decide +kernel))
  exact ⟨e₀, e, hinit, hrun, of_decide_eq_true hcheck,
    (Engine.history_chained hinit hrun hexact 1 "CNY").1⟩

end ViabtcExchange
