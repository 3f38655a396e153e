import ViabtcExchange.Restart

/-!
# The containers in every life

`Market.WF` does not depend on the balances, nor on the numbers of the orders: it survives every
request, and every slice. What a slice makes of a market is said by `Entered`: just the rows of
this market are in its containers, and all of them rest in its book.

**Theorem (`Engine.Life.shaped`).** In every life the markets are those of the settings, their
containers are well formed, and no order id is in two markets.
-/

namespace ViabtcExchange

/-! ## Requests -/

section Requests

variable {round : ℚ → ℚ} {n : ℕ} {x : Matching ℚ} {e₀ e e' : Execution ℚ} {m : Market ℚ}
  {s : Statics ℚ} {real : Bool}

/-- The loop on its way, the numbers aside. -/
structure Visits (n : ℕ) (x : Matching ℚ) (e₀ : Execution ℚ) (ids : List ℕ) (e : Execution ℚ) :
    Prop where
  wf : e.market.WF n
  mem : ∀ i ∈ ids, i ∈ e.market.book x.side.opposite
  nodup : ids.Nodup
  face : SameFace e₀.taker e.taker
  conf : e.market.conf = e₀.market.conf
  orders : e.market.orders ⊆ e₀.market.orders

theorem Visits.step {id : ℕ} {ids : List ℕ} {t : Terms ℚ} (h : Visits n x e₀ (id :: ids) e) :
    Visits n x e₀ ids (executeTrade (ratMpd round) real x e id t) := by
  have hid := h.wf.mem _ id (h.mem id List.mem_cons_self)
  have htraded := executeTrade_market round real x e t h.wf hid
  obtain ⟨hfresh, hids⟩ := List.nodup_cons.mp h.nodup
  refine ⟨htraded.wf, fun i hi => ?_, hids, h.face.trans (sameFace_fillTaker _ x _ t),
    htraded.conf.trans h.conf, fun i hi => h.orders ?_⟩
  · have hmem := h.mem i (List.mem_cons_of_mem id hi)
    rw [htraded.book]
    split_ifs
    · exact (List.mem_erase_of_ne fun heq : i = id => hfresh (heq ▸ hi)).mpr hmem
    · exact hmem
  · by_cases hkept : (x.fillMaker (ratMpd round) e.market (e.market.order id) t).left ≠ 0 ∨
        orderStuck (ratMpd round) (payTrade (ratMpd round) real x e id t)
          (e.market.setOrder id (x.fillMaker (ratMpd round) e.market (e.market.order id) t)) id =
            true
    · rw [htraded.kept hkept] at hi
      exact hi
    · obtain ⟨hzero, hstuck⟩ := not_or.mp hkept
      rw [htraded.dropped (not_not.mp hzero) hstuck] at hi
      exact Finset.mem_of_mem_erase hi

theorem visits_execute (h : e.market.WF n) (hrun : x.execute (ratMpd round) real e = some e') :
    ∃ ids, Visits n x e ids e' := by
  obtain ⟨ids, hw, -⟩ := executeLoop_rule (ratMpd round) real x (P := Visits n x e)
    (fun _ _ _ _ h _ _ => h.step)
      ⟨h, fun _ hi => hi, h.nodup _, sameFace_refl _, rfl, subset_rfl⟩ hrun
  exact ⟨ids, hw⟩

theorem visits_limit (h : e.market.WF n)
    (hrun : executeLimitOrder (ratMpd round) real e = some e') :
    ∃ x ids, Visits n x e ids e' := by
  unfold executeLimitOrder at hrun
  split at hrun
  · exact ⟨_, visits_execute h hrun⟩
  · exact ⟨_, visits_execute h hrun⟩

theorem visits_market (h : e.market.WF n)
    (hrun : executeMarketOrder (ratMpd round) real e = some e') : ∃ x ids, Visits n x e ids e' := by
  unfold executeMarketOrder at hrun
  split at hrun
  · exact ⟨_, visits_execute h hrun⟩
  · exact ⟨_, visits_execute h hrun⟩

/-- The market `m` has become `m'`, the last order id `n'`: what has come into the dictionary has
a new id. -/
structure Moved (n : ℕ) (m : Market ℚ) (n' : ℕ) (m' : Market ℚ) : Prop where
  le : n ≤ n'
  conf : m'.conf = m.conf
  wf : m'.WF n'
  new : ∀ i ∈ m'.orders, i ∈ m.orders ∨ n < i

variable {userId : ℕ} {side : OrderSide} {amount price takerFee makerFee : ℚ} {source : String}
  {o : Outcome ℚ}

theorem moved_putLimit (h : m.WF s.orderIdStart)
    (hput : marketPutLimitOrder (ratMpd round) real s m userId side amount price takerFee makerFee
      source = some o) : Moved s.orderIdStart m o.statics.orderIdStart o.market := by
  rcases marketPutLimitOrder_cases hput with ⟨ret, -, rfl⟩ | ⟨-, -, e, hrun, rfl⟩
  · exact ⟨le_rfl, rfl, h, fun _ => Or.inl⟩
  · obtain ⟨x, ids, hw⟩ := visits_limit (e := startLimit (ratMpd round) s m userId side amount price
      takerFee makerFee source) h hrun
    have hstart : e.statics.orderIdStart = s.orderIdStart + 1 :=
      congrArg Prod.fst (executeLimitOrder_fixed hrun)
    have hid : e.taker.id = s.orderIdStart + 1 := hw.face.id
    by_cases hleft : e.taker.left = 0
    · obtain ⟨hm, hs⟩ := restLimitOrder_filled _ rfl real hleft
      have hn : (restLimitOrder (ratMpd round) real e).statics.orderIdStart = s.orderIdStart + 1 :=
        (congrArg Statics.orderIdStart hs).trans hstart
      rw [hn, hm]
      exact ⟨Nat.le_succ _, hw.conf, hw.wf.mono (Nat.le_succ _), fun i hi => Or.inl (hw.orders hi)⟩
    · obtain ⟨hrest, hs⟩ := restLimitOrder_rests round real hw.wf
        (by rw [hid]; exact Nat.lt_succ_self _) hw.face.type
        (hw.face.market.trans (congrArg MarketConf.name hw.conf).symm) hleft
      have hn : (restLimitOrder (ratMpd round) real e).statics.orderIdStart = e.taker.id :=
        (congrArg Statics.orderIdStart hs).trans (hstart.trans hid.symm)
      rw [hn]
      refine ⟨by omega, hrest.conf.trans hw.conf, hrest.wf, fun i hi => ?_⟩
      rw [hrest.orders] at hi
      rcases Finset.mem_insert.mp hi with rfl | hi
      · exact Or.inr (by omega)
      · exact Or.inl (hw.orders hi)

theorem moved_putMarket (h : m.WF s.orderIdStart)
    (hput : marketPutMarketOrder (ratMpd round) real s m userId side amount takerFee source =
      some o) : Moved s.orderIdStart m o.statics.orderIdStart o.market := by
  rcases marketPutMarketOrder_cases hput with ⟨ret, -, rfl⟩ | ⟨-, e, hrun, rfl⟩
  · exact ⟨le_rfl, rfl, h, fun _ => Or.inl⟩
  · obtain ⟨x, ids, hw⟩ := visits_market (e := startMarket (ratMpd round) s m userId side amount
      takerFee source) h hrun
    have hn : (closeMarketOrder real e).statics.orderIdStart = s.orderIdStart + 1 :=
      (congrArg Prod.fst (closeMarketOrder_fixed real e)).trans
        (congrArg Prod.fst (executeMarketOrder_fixed hrun))
    rw [hn]
    exact ⟨Nat.le_succ _, hw.conf, hw.wf.mono (Nat.le_succ _), fun i hi => Or.inl (hw.orders hi)⟩

theorem moved_cancel {id : ℕ} (h : m.WF s.orderIdStart) (hid : id ∈ m.orders) :
    Moved s.orderIdStart m (marketCancelOrder (ratMpd round) real s m id).statics.orderIdStart
      (marketCancelOrder (ratMpd round) real s m id).market := by
  have hfin := orderFinish_market round real
    (s.push real (.order .finish (m.order id) m.stock m.money)) h hid
  have hn : (marketCancelOrder (ratMpd round) real s m id).statics.orderIdStart = s.orderIdStart :=
    congrArg Prod.fst (marketCancelOrder_fixed (ratMpd round) real s m id)
  rw [hn]
  refine ⟨le_rfl, hfin.conf, hfin.wf, fun i hi => Or.inl ?_⟩
  by_cases hstuck : orderStuck (ratMpd round)
      (s.push real (.order .finish (m.order id) m.stock m.money)) m id = true
  · exact hfin.kept hstuck ▸ hi
  · exact Finset.mem_of_mem_erase (hfin.dropped hstuck ▸ hi)

end Requests

/-! ## The whole engine -/

namespace Engine

variable {round : ℚ → ℚ} {real : Bool} {d : Dict String (Market ℚ)} {e e' : Engine ℚ}

/-- The markets are those of `d`, well formed, and have no order id in common. -/
structure Shaped (d : Dict String (Market ℚ)) (e : Engine ℚ) : Prop where
  conf : ∀ name, (e.dictMarket.find name).map Market.conf = (d.find name).map Market.conf
  wf : ∀ name m, e.dictMarket.find name = some m → m.WF e.statics.orderIdStart
  pos : ∀ name m, e.dictMarket.find name = some m → ∀ i ∈ m.orders, 0 < i
  apart : ∀ {name name' m m' i}, e.dictMarket.find name = some m →
    e.dictMarket.find name' = some m' → i ∈ m.orders → i ∈ m'.orders → name = name'

theorem Shaped.put {name : String} {s : Statics ℚ} {m m' : Market ℚ} (h : Shaped d e)
    (hm : e.dictMarket.find name = some m)
    (hmoved : Moved e.statics.orderIdStart m s.orderIdStart m') : Shaped d (e.put name s m') := by
  have hfind : ∀ name', (e.put name s m').dictMarket.find name' =
      if name' = name then some m' else e.dictMarket.find name' := fun name' => Dict.find_insert ..
  -- an id of the market that has moved is in no other one
  have hother : ∀ {name' m₁ i}, e.dictMarket.find name' = some m₁ → i ∈ m'.orders →
      i ∈ m₁.orders → name = name' := by
    intro name' m₁ i hm₁ hi hi₁
    rcases hmoved.new i hi with hold | hnew
    · exact h.apart hm hm₁ hold hi₁
    · exact absurd ((h.wf name' m₁ hm₁).le i hi₁) (not_le.mpr hnew)
  refine ⟨fun name' => ?_, fun name' m₁ hm₁ => ?_, fun name' m₁ hm₁ i hi => ?_,
    fun {name₁ name₂ m₁ m₂ i} hm₁ hm₂ hi₁ hi₂ => ?_⟩
  · rw [hfind]
    split_ifs with hname
    · rw [hname, ← h.conf, hm, Option.map_some, Option.map_some, hmoved.conf]
    · exact h.conf name'
  · rw [hfind] at hm₁
    split_ifs at hm₁ with hname
    · exact Option.some.inj hm₁ ▸ hmoved.wf
    · exact (h.wf name' m₁ hm₁).mono hmoved.le
  · rw [hfind] at hm₁
    split_ifs at hm₁ with hname
    · obtain rfl := Option.some.inj hm₁
      exact (hmoved.new i hi).elim (h.pos _ m hm i) Nat.zero_lt_of_lt
    · exact h.pos name' m₁ hm₁ i hi
  · rw [hfind] at hm₁ hm₂
    split_ifs at hm₁ hm₂ with hname₁ hname₂ hname₂
    · exact hname₁.trans hname₂.symm
    · obtain rfl := Option.some.inj hm₁
      exact hname₁.trans (hother hm₂ hi₁ hi₂)
    · obtain rfl := Option.some.inj hm₂
      exact (hname₂.trans (hother hm₁ hi₂ hi₁)).symm
    · exact h.apart hm₁ hm₂ hi₁ hi₂

theorem Shaped.step {op : Op ℚ} (h : Shaped d e) (hstep : e.step (ratMpd round) real op = some e') :
    Shaped d e' := by
  have hcases := step_cases hstep
  cases op with
  | updateBalance args padding now =>
    obtain ⟨s, dict, hupd, rfl⟩ := hcases
    have hn : s.orderIdStart = e.statics.orderIdStart :=
      congrArg Prod.fst (updateUserBalance_fixed hupd)
    exact ⟨h.conf, fun name m hm => hn.symm ▸ h.wf name m hm, h.pos, h.apart⟩
  | limitOrder args =>
    obtain ⟨m, o, hm, -, hput, -, rfl⟩ := hcases
    exact h.put hm (moved_putLimit (h.wf _ m hm) hput)
  | marketOrder args =>
    obtain ⟨m, o, hm, -, hput, -, rfl⟩ := hcases
    exact h.put hm (moved_putMarket (h.wf _ m hm) hput)
  | cancelOrder args =>
    obtain ⟨m, hm, hid, -, rfl⟩ := hcases
    exact h.put hm (moved_cancel (h.wf _ m hm) hid)
  | expire now =>
    have heq : e' = { e with dictUpdate := expireUpdates e.dictUpdate now } := hcases
    rw [heq]
    exact ⟨h.conf, h.wf, h.pos, h.apart⟩

theorem shaped_init {dictAsset : Dict String AssetType} {confs : List (MarketConf ℚ)}
    (h : Engine.init (ratMpd round) dictAsset confs = some e) : Shaped e.dictMarket e := by
  have hempty : ∀ name m, e.dictMarket.find name = some m → m.orders = ∅ := by
    intro name m hm
    obtain ⟨conf, -, -, hcreate⟩ := (init_spec h).2.2 name m hm
    exact (marketCreate_spec hcreate).2.1
  refine ⟨fun _ => rfl, fun name m hm => (kept_init h name m hm).book.wf, fun name m hm i hi => ?_,
    fun {_ _ m m' i} hm hm' hi _ => ?_⟩
  · rw [hempty _ m hm] at hi
    exact absurd hi (Finset.notMem_empty i)
  · rw [hempty _ m hm] at hi
    exact absurd hi (Finset.notMem_empty i)

end Engine

/-! ## Loading -/

section Load

variable {round : ℚ → ℚ} {d : Dict String (Market ℚ)} {n : ℕ} {e e' : Engine ℚ}
  {rows : List (ℕ × Order ℚ)} {r : ℕ × Order ℚ}

/-- The order that `load_orders` lets rest for a row. -/
def enteredOrder (mpd : Mpd ℚ) (m : Market ℚ) (row : Order ℚ) : Order ℚ :=
  { loadedOrder mpd m row with freeze := restFreeze mpd (loadedOrder mpd m row) }

theorem loadedOrder_congr {m m' : Market ℚ} (mpd : Mpd ℚ) (h : m'.conf = m.conf) (row : Order ℚ) :
    loadedOrder mpd m' row = loadedOrder mpd m row := by
  have hmoney : m'.moneyPrec = m.moneyPrec := congrArg MarketConf.moneyPrec h
  have hstock : m'.stockPrec = m.stockPrec := congrArg MarketConf.stockPrec h
  have hfee : m'.feePrec = m.feePrec := congrArg MarketConf.feePrec h
  rw [loadedOrder, loadedOrder, hmoney, hstock, hfee]

theorem enteredOrder_congr {m m' : Market ℚ} (mpd : Mpd ℚ) (h : m'.conf = m.conf) (row : Order ℚ) :
    enteredOrder mpd m' row = enteredOrder mpd m row := by
  rw [enteredOrder, enteredOrder, loadedOrder_congr mpd h]

/-- The rows of a market named `name` are in its containers, and nothing else is. -/
structure Entered (round : ℚ → ℚ) (n : ℕ) (rows : List (ℕ × Order ℚ)) (name : String) (m : Market ℚ) :
    Prop where
  home : m.name = name
  wf : m.WF n
  mem : ∀ i, i ∈ m.orders ↔ ∃ r ∈ rows, r.1 = i ∧ r.2.market = name
  order : ∀ r ∈ rows, r.2.market = name → m.order r.1 = enteredOrder (ratMpd round) m r.2
  booked : ∀ i ∈ m.orders, i ∈ m.book (m.order i).side

/-- A row of a limit order, under its id. -/
structure ProperRow (r : ℕ × Order ℚ) : Prop where
  id : r.2.id = r.1
  type : r.2.type = .limit

/-- The rows of other markets do not matter. -/
theorem Entered.skip {name : String} {m : Market ℚ} (h : Entered round n rows name m) (hn : n ≤ r.1)
    (hr : r.2.market ≠ name) : Entered round r.1 (rows ++ [r]) name m := by
  refine ⟨h.home, h.wf.mono hn, fun i => ?_, fun r' hr' hname => ?_, h.booked⟩
  · rw [h.mem]
    constructor
    · rintro ⟨r', hr', heq⟩
      exact ⟨r', List.mem_append_left _ hr', heq⟩
    · rintro ⟨r', hr', heq⟩
      rcases List.mem_append.mp hr' with hr' | hr'
      · exact ⟨r', hr', heq⟩
      · rw [List.mem_singleton.mp hr'] at heq
        exact absurd heq.2 hr
  · rcases List.mem_append.mp hr' with hr' | hr'
    · exact h.order r' hr' hname
    · rw [List.mem_singleton.mp hr'] at hname
      exact absurd hname hr

/-- A row that is put comes to rest. -/
theorem Entered.put {name : String} {m m' : Market ℚ} (h : Entered round n rows name m)
    (hn : n < r.1) (hproper : ProperRow r) (hr : r.2.market = name)
    (hput : Rested m m' (loadedOrder (ratMpd round) m r.2)
      (restFreeze (ratMpd round) (loadedOrder (ratMpd round) m r.2))) :
    Entered round r.1 (rows ++ [r]) name m' := by
  have hid : (loadedOrder (ratMpd round) m r.2).id = r.1 := hproper.id
  have hself : m'.order r.1 = enteredOrder (ratMpd round) m r.2 := by
    rw [← hid, hput.order, Function.update_self, enteredOrder]
  have hnew : r.1 ∉ m.orders := fun hi => absurd (h.wf.le _ hi) (not_le.mpr hn)
  have hold : ∀ i ∈ m.orders, m'.order i = m.order i := by
    intro i hi
    rw [hput.order, hid, Function.update_of_ne]
    rintro rfl
    exact hnew hi
  refine ⟨(congrArg MarketConf.name hput.conf).trans h.home, hid ▸ hput.wf, fun i => ?_,
    fun r' hr' hname => ?_, fun i hi => ?_⟩
  · rw [hput.orders, hid, Finset.mem_insert, h.mem]
    constructor
    · rintro (rfl | ⟨r', hr', heq⟩)
      · exact ⟨r, List.mem_append_right _ (List.mem_singleton_self r), rfl, hr⟩
      · exact ⟨r', List.mem_append_left _ hr', heq⟩
    · rintro ⟨r', hr', rfl, hname⟩
      rcases List.mem_append.mp hr' with hr' | hr'
      · exact Or.inr ⟨r', hr', rfl, hname⟩
      · exact Or.inl (by rw [List.mem_singleton.mp hr'])
  · rw [enteredOrder_congr _ hput.conf]
    rcases List.mem_append.mp hr' with hr' | hr'
    · rw [hold _ ((h.mem _).mpr ⟨r', hr', rfl, hname⟩)]
      exact h.order r' hr' hname
    · rw [List.mem_singleton.mp hr']
      exact hself
  · rw [hput.orders, hid] at hi
    rcases Finset.mem_insert.mp hi with rfl | hi
    · rw [hself, ← hid]
      exact hput.book.mem_iff.mpr List.mem_cons_self
    · rw [hold i hi]
      by_cases hside : (m.order i).side = (loadedOrder (ratMpd round) m r.2).side
      · rw [hside]
        exact hput.book.mem_iff.mpr (List.mem_cons_of_mem _ (hside ▸ h.booked i hi))
      · rw [hput.other _ hside]
        exact h.booked i hi

namespace Engine

/-- The state `load_orders` is in after some rows. -/
structure EnteredRows (round : ℚ → ℚ) (d : Dict String (Market ℚ)) (n : ℕ) (rows : List (ℕ × Order ℚ))
    (e : Engine ℚ) : Prop where
  conf : ∀ name, (e.dictMarket.find name).map Market.conf = (d.find name).map Market.conf
  entered : ∀ name m, e.dictMarket.find name = some m → Entered round n rows name m

theorem EnteredRows.loadOrder (h : EnteredRows round d n rows e) (hn : n < r.1) (hr : ProperRow r) :
    EnteredRows round d r.1 (rows ++ [r]) (e.loadOrder (ratMpd round) r.2) := by
  unfold Engine.loadOrder
  cases hm : e.dictMarket.find r.2.market with
  | none =>
    refine ⟨h.conf, fun name m hm' => (h.entered name m hm').skip hn.le ?_⟩
    rintro rfl
    rw [hm] at hm'
    cases hm'
  | some m =>
    have hent := h.entered _ m hm
    obtain ⟨m', hput, hrest⟩ := orderPut_eq round (o := loadedOrder (ratMpd round) m r.2) e.statics
      hent.wf (hn.trans_le hr.id.ge) hr.type hent.home.symm
    dsimp only
    rw [hput]
    have hfind : ∀ s name, (e.put r.2.market s m').dictMarket.find name =
        if name = r.2.market then some m' else e.dictMarket.find name := fun s name =>
      Dict.find_insert ..
    refine ⟨fun name => ?_, fun name m₁ hm₁ => ?_⟩
    · rw [hfind]
      split_ifs with hname
      · rw [hname, ← h.conf, hm, Option.map_some, Option.map_some, hrest.conf]
      · exact h.conf name
    · rw [hfind] at hm₁
      split_ifs at hm₁ with hname
      · obtain rfl := Option.some.inj hm₁
        exact hname ▸ hent.put hn hr rfl hrest
      · exact (h.entered name m₁ hm₁).skip hn.le (Ne.symm hname)

theorem EnteredRows.mono {n' : ℕ} (h : EnteredRows round d n rows e) (hn : n ≤ n') :
    EnteredRows round d n' rows e :=
  ⟨h.conf, fun name m hm =>
    let hent := h.entered name m hm
    ⟨hent.home, hent.wf.mono hn, hent.mem, hent.order, hent.booked⟩⟩

/-- All rows of a table are entered, each in its market. -/
theorem EnteredRows.loadOrders {N : ℕ} (rows' : List (ℕ × Order ℚ))
    (h : EnteredRows round d n rows e) (hrows : ∀ r ∈ rows', ProperRow r)
    (hN : ∀ r ∈ rows', r.1 ≤ N) (hsorted : rows'.Pairwise fun r r' => r.1 < r'.1)
    (hn : ∀ r ∈ rows', n < r.1) (hnN : n ≤ N) :
    EnteredRows round d N (rows ++ rows')
      (rows'.foldl (fun e row => e.loadOrder (ratMpd round) row.2) e) := by
  induction rows' generalizing n e rows with
  | nil =>
    rw [List.append_nil]
    exact h.mono hnN
  | cons r rows' ih =>
    obtain ⟨hr, hrows⟩ := List.forall_mem_cons.mp hrows
    obtain ⟨hrN, hN⟩ := List.forall_mem_cons.mp hN
    obtain ⟨hrn, -⟩ := List.forall_mem_cons.mp hn
    obtain ⟨hlt, hsorted⟩ := List.pairwise_cons.mp hsorted
    have hrest := ih (h.loadOrder hrn hr) hrows hN hsorted hlt hrN
    rwa [List.append_assoc] at hrest

theorem EnteredRows.shaped (h : EnteredRows round d n rows e) (hpos : ∀ r ∈ rows, 0 < r.1)
    (hrows : rows.Pairwise fun r r' => r.1 < r'.1) (hn : e.statics.orderIdStart = n) :
    Shaped d e := by
  refine ⟨h.conf, fun name m hm => hn ▸ (h.entered name m hm).wf, fun name m hm i hi => ?_,
    fun {name name' m m' i} hm hm' hi hi' => ?_⟩
  · obtain ⟨r, hr, rfl, -⟩ := ((h.entered name m hm).mem i).mp hi
    exact hpos r hr
  obtain ⟨r, hr, rfl, rfl⟩ := ((h.entered name m hm).mem i).mp hi
  obtain ⟨r', hr', heq, rfl⟩ := ((h.entered name' m' hm').mem _).mp hi'
  have hkeys : (rows.map Prod.fst).Nodup := List.pairwise_map.mpr (hrows.imp fun h => h.ne)
  rw [List.inj_on_of_nodup_map hkeys hr hr' heq.symm]

/-- What `restore` makes of the rows of a slice. -/
theorem restore_entered {dictAsset : Dict String AssetType} {confs : List (MarketConf ℚ)}
    {slice : Slice ℚ} {e₀ : Engine ℚ} (hinit : Engine.init (ratMpd round) dictAsset confs = some e₀)
    (hrestore : restore (ratMpd round) dictAsset confs slice = some e')
    (hrows : ∀ r ∈ slice.orders.rows, ProperRow r ∧ 0 < r.1 ∧ r.1 ≤ slice.endOrderId) :
    EnteredRows round e₀.dictMarket slice.endOrderId slice.orders.rows e' ∧
      e'.statics.orderIdStart = slice.endOrderId := by
  rw [restore_eq, hinit, Option.map_some] at hrestore
  obtain rfl := Option.some.inj hrestore
  have habove : slice.orders.above 0 = slice.orders.rows :=
    List.filter_eq_self.mpr fun r hr => decide_eq_true (hrows r hr).2.1
  rw [habove]
  have hnew :
      EnteredRows round e₀.dictMarket 0 [] (e₀.setIds slice.endOrderId slice.endDealsId) := by
    refine ⟨fun _ => rfl, fun name m hm => ?_⟩
    obtain ⟨conf, -, hname, hcreate⟩ := (init_spec hinit).2.2 name m hm
    obtain ⟨hconf, horders, -, -⟩ := marketCreate_spec hcreate
    exact ⟨(congrArg MarketConf.name hconf).trans hname, (bookOk_create 0 hcreate).wf,
      fun i => by simp [horders], by simp, by simp [horders]⟩
  have hloaded := hnew.loadOrders slice.orders.rows (fun r hr => (hrows r hr).1)
    (fun r hr => (hrows r hr).2.2) slice.orders.sorted (fun r hr => (hrows r hr).2.1)
      (Nat.zero_le _)
  exact ⟨⟨hloaded.conf, hloaded.entered⟩, foldl_loadOrder_orderIdStart _ _ _⟩

/-- The rows of the orders of well-formed markets are proper. -/
theorem Shaped.properRow {column : ℕ → ℚ → ℚ} (h : Shaped d e) (hr : RowOf column e.dictMarket r) :
    ProperRow r ∧ 0 < r.1 ∧ r.1 ≤ e.statics.orderIdStart := by
  obtain ⟨name, m, side, i, hm, hi, rfl⟩ := hr
  have hwf := h.wf name m hm
  have hio := hwf.mem side i hi
  have hid : (m.order i).id = i := (hwf.named i hio).id
  exact ⟨⟨rfl, (hwf.named i hio).type⟩, hid.symm ▸ h.pos name m hm i hio,
    hid.trans_le (hwf.le i hio)⟩

variable {column : ℕ → ℚ → ℚ} {dictAsset : Dict String AssetType} {confs : List (MarketConf ℚ)}
  {ok : Engine ℚ → Prop} {e₀ : Engine ℚ}

/-- **The containers are well formed in every life**, whatever the balances and the slices. -/
theorem Life.shaped (hinit : Engine.init (ratMpd round) dictAsset confs = some e₀)
    (h : Life (ratMpd round) column dictAsset confs ok e) : Shaped e₀.dictMarket e := by
  induction h with
  | init hinit' =>
    obtain rfl := Option.some.inj (hinit.symm.trans hinit')
    exact shaped_init hinit
  | step _ hstep ih => exact ih.step hstep
  | restart _ _ _ hdump hrestore ih =>
    obtain ⟨orders, horders, rfl⟩ := Option.map_eq_some_iff.mp hdump
    have hrows := dumpOrders_rows (by simp [Table.empty]) horders
    obtain ⟨hent, hn⟩ := restore_entered hinit hrestore fun r hr => ih.properRow (hrows r hr)
    exact hent.shaped (fun r hr => (ih.properRow (hrows r hr)).2.1) orders.sorted hn

end Engine

end Load

end ViabtcExchange
