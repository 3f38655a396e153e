import ViabtcExchange.Slice
import ViabtcExchange.Uncrossed

/-!
# Lives of an engine, and the book after a restart

A life of the engine is any sequence of accepted requests, interrupted by restarts from a slice
of some state in between. The book is never crossed in a life whose slices could keep the prices
and the amounts left of the resting orders as they were (`Engine.Storable`): eight digits
behind the point and twenty-two before it.

**Theorem (`Engine.Life.uncrossed`).** In such a life every ask is above every bid, and every
resting order has something left.

`market_create` allows prices with more than eight digits, and the columns round those:
`crossed_after_restart` is a life that ends with an ask and a bid at one price.
-/

namespace ViabtcExchange

/-- What columns `DECIMAL(30, scale)` are for: numbers that fit come back. -/
def KeepsFitting (column : ℕ → ℚ → ℚ) : Prop :=
  ∀ (scale : ℕ) x, OnGrid scale x → |x| < 10 ^ (30 - scale) → column scale x = x

/-- Rounding as MySQL does it: to the nearest, halves away from zero. -/
def mysqlDecimal (scale : ℕ) (x : ℚ) : ℚ :=
  if 0 ≤ x then ⌊x * 10 ^ scale + 1 / 2⌋ / 10 ^ scale
  else -(⌊-x * 10 ^ scale + 1 / 2⌋ / 10 ^ scale)

theorem floor_half (n : ℤ) : ⌊(n : ℚ) + 1 / 2⌋ = n := by
  rw [Int.floor_intCast_add, Int.floor_eq_zero_iff.mpr (by norm_num), add_zero]

theorem keepsFitting_mysqlDecimal : KeepsFitting mysqlDecimal := by
  intro scale x ⟨n, hn⟩ _
  rw [zpow_natCast] at hn
  have hpow : (10 : ℚ) ^ scale ≠ 0 := pow_ne_zero _ (by norm_num)
  have hx : x = n / 10 ^ scale := by rw [← hn, mul_div_cancel_right₀ _ hpow]
  unfold mysqlDecimal
  split_ifs
  · rw [hn, floor_half, ← hx]
  · have hneg : -x * 10 ^ scale = ((-n : ℤ) : ℚ) := by
      push_cast
      rw [neg_mul, hn]
    rw [hneg, floor_half, hx]
    push_cast
    ring

/-- A number that comes back from a column of eight digits, and from `decimal` after that. -/
structure Fits8 (prec : ℕ) (x : ℚ) : Prop where
  grid : OnGrid 8 x
  bound : |x| < 10 ^ 22
  prec : prec = 0 ∨ OnGrid prec x

theorem Fits8.back {round : ℚ → ℚ} {column : ℕ → ℚ → ℚ} {prec : ℕ} {x : ℚ}
    (hcol : KeepsFitting column) (h : Fits8 prec x) :
    (ratMpd round).cut (column 8 x) prec = x := by
  rw [hcol 8 x h.grid h.bound]
  unfold Mpd.cut
  split_ifs with h0
  · rfl
  · rw [ratMpd_rescale, neg_neg]
    exact truncTo_of_onGrid (h.prec.resolve_left h0)

namespace Engine

/-- The prices and the amounts left of the resting orders survive a slice. -/
def Storable (e : Engine ℚ) : Prop :=
  ∀ name m, e.dictMarket.find name = some m → ∀ side, ∀ i ∈ m.book side,
    Fits8 m.moneyPrec (m.order i).price ∧ Fits8 m.stockPrec (m.order i).left

/-- The states of an engine in a life whose slices are taken in states that are `ok`. -/
inductive Life {D : Type} (mpd : Mpd D) (column : ℕ → D → D) (dictAsset : Dict String AssetType)
    (confs : List (MarketConf D)) (ok : Engine D → Prop) : Engine D → Prop
  | init {e} : Engine.init mpd dictAsset confs = some e → Life mpd column dictAsset confs ok e
  | step {real op e e'} : Life mpd column dictAsset confs ok e → e.step mpd real op = some e' →
      Life mpd column dictAsset confs ok e'
  | restart {entries slice e e'} : Life mpd column dictAsset confs ok e → ok e →
      Iterates e.statics.ledger.dictBalance entries →
      e.dump column (confs.map MarketConf.name) entries = some slice →
      restore mpd dictAsset confs slice = some e' → Life mpd column dictAsset confs ok e'

/-- Every ask is above every bid, and every resting order has something left. -/
def Uncrossed (e : Engine ℚ) : Prop :=
  ∀ name m, e.dictMarket.find name = some m →
    (∀ i ∈ m.asks, ∀ j ∈ m.bids, (m.order j).price < (m.order i).price) ∧
    ∀ side, ∀ i ∈ m.book side, 0 < (m.order i).left

end Engine

/-! ## The rows of a slice -/

section Dump

variable {D : Type} {column : ℕ → D → D} {d : Dict String (Market D)}

theorem Table.forall_insert {α : Type} {P : ℕ × α → Prop} {t : Table α} {r : ℕ × α}
    (ht : ∀ x ∈ t.rows, P x) (hr : P r) : ∀ x ∈ (t.insert r).rows, P x := by
  intro x hx
  rcases Table.mem_insertRow hx with rfl | hx
  · exact hr
  · exact ht x hx

/-- A row written for a resting order. -/
def RowOf (column : ℕ → D → D) (d : Dict String (Market D)) (r : ℕ × Order D) : Prop :=
  ∃ name m side i, d.find name = some m ∧ i ∈ m.book side ∧
    r = ((m.order i).id, sliceOrder column (m.order i))

theorem dumpOrdersList_rows {name : String} {m : Market D} (hm : d.find name = some m)
    (side : OrderSide) {t : Table (Order D)} (ht : ∀ r ∈ t.rows, RowOf column d r) :
    ∀ r ∈ (dumpOrdersList column m side t).rows, RowOf column d r := by
  have hfold : ∀ ids : List ℕ, (∀ i ∈ ids, i ∈ m.book side) → ∀ t : Table (Order D),
      (∀ r ∈ t.rows, RowOf column d r) →
      ∀ r ∈ (ids.foldl (fun table id =>
        table.insert ((m.order id).id, sliceOrder column (m.order id))) t).rows,
        RowOf column d r := by
    intro ids
    induction ids with
    | nil => exact fun _ _ ht => ht
    | cons i ids ih =>
      intro hids t ht
      obtain ⟨hi, hids⟩ := List.forall_mem_cons.mp hids
      exact ih hids _ (Table.forall_insert ht ⟨name, m, side, i, hm, hi, rfl⟩)
  exact hfold _ (fun _ hi => hi) t ht

theorem dumpOrders_rows {names : List String} {t t' : Table (Order D)}
    (ht : ∀ r ∈ t.rows, RowOf column d r) (h : dumpOrders column d names t = some t') :
    ∀ r ∈ t'.rows, RowOf column d r := by
  induction names generalizing t with
  | nil => exact Option.some.inj h ▸ ht
  | cons name names ih =>
    unfold dumpOrders at h
    cases hm : d.find name with
    | none => simp [hm] at h
    | some m =>
      simp only [hm] at h
      exact ih (dumpOrdersList_rows hm .bid (dumpOrdersList_rows hm .ask ht)) h

end Dump

/-! ## Loading them -/

section Load

variable {round : ℚ → ℚ} {column : ℕ → ℚ → ℚ} {d₀ src : Dict String (Market ℚ)} {n N : ℕ}

/-- A market on its way to be loaded: what rests in it also rests in the market of its name in
`src`, with the same price and as much left. -/
structure Loaded (d₀ src : Dict String (Market ℚ)) (n : ℕ) (name : String) (m : Market ℚ) :
    Prop where
  conf : (d₀.find name).map Market.conf = some m.conf
  wf : m.WF n
  copy : ∀ side, ∀ i ∈ m.book side, ∃ m₀, src.find name = some m₀ ∧ i ∈ m₀.book side ∧
    (m.order i).price = (m₀.order i).price ∧ (m.order i).left = (m₀.order i).left

theorem Loaded.mono {name : String} {m : Market ℚ} (h : Loaded d₀ src n name m) (hn : n ≤ N) :
    Loaded d₀ src N name m := ⟨h.conf, h.wf.mono hn, h.copy⟩

/-- What is loaded from sound books is a sound book. -/
theorem Loaded.bookOk {name : String} {m : Market ℚ} (h : Loaded d₀ src n name m)
    (hsrc : ∀ m₀, src.find name = some m₀ → BookOk N m₀) : BookOk n m where
  wf := h.wf
  left side i hi := by
    obtain ⟨m₀, hm₀, hi₀, -, hleft⟩ := h.copy side i hi
    exact hleft ▸ (hsrc m₀ hm₀).left side i hi₀
  price side i hi := by
    obtain ⟨m₀, hm₀, hi₀, hprice, -⟩ := h.copy side i hi
    exact hprice ▸ (hsrc m₀ hm₀).price side i hi₀
  gap i hi j hj := by
    obtain ⟨m₀, hm₀, hi₀, hprice, -⟩ := h.copy .ask i hi
    obtain ⟨m₁, hm₁, hj₁, hprice', -⟩ := h.copy .bid j hj
    obtain rfl := Option.some.inj (hm₀.symm.trans hm₁)
    rw [hprice, hprice']
    exact (hsrc m₀ hm₀).gap i hi₀ j hj₁

/-- The state `load_orders` is in after the rows up to `n`. -/
def Engine.Loading (d₀ src : Dict String (Market ℚ)) (n : ℕ) (e : Engine ℚ) : Prop :=
  ∀ name m, e.dictMarket.find name = some m → Loaded d₀ src n name m

variable {e₀ e : Engine ℚ} {r : ℕ × Order ℚ}

/-- A row enters the order it was written for. -/
theorem Engine.Loading.loadOrder (hcol : KeepsFitting column)
    (hsrc : e₀.Markets (Engine.Kept d₀)) (hstore : e₀.Storable)
    (hname : ∀ name m, d₀.find name = some m → m.name = name)
    (hrow : RowOf column e₀.dictMarket r) (hn : n < r.1) (h : e.Loading d₀ e₀.dictMarket n) :
    (e.loadOrder (ratMpd round) r.2).Loading d₀ e₀.dictMarket r.1 := by
  obtain ⟨name₀, m₀, side, i, hm₀, hi, rfl⟩ := hrow
  have hkept := hsrc name₀ m₀ hm₀
  have hio := hkept.book.wf.mem side i hi
  have hid : (m₀.order i).id = i := (hkept.book.wf.named i hio).id
  have hm₀name : m₀.name = name₀ := by
    obtain ⟨m, hm, hconf⟩ := Option.map_eq_some_iff.mp hkept.conf
    exact (congrArg MarketConf.name hconf).symm.trans (hname _ _ hm)
  have hrowmarket : (sliceOrder column (m₀.order i)).market = name₀ :=
    (hkept.book.wf.home i hio).trans hm₀name
  unfold Engine.loadOrder
  simp only [hrowmarket]
  cases hm : e.dictMarket.find name₀ with
  | none => exact fun name m hm' => (h name m hm').mono hn.le
  | some m =>
    have hload := h name₀ m hm
    have hconf : m.conf = m₀.conf := Option.some.inj (hload.conf.symm.trans hkept.conf)
    set o := loadedOrder (ratMpd round) m (sliceOrder column (m₀.order i)) with ho
    have hoid : o.id = i := hid
    have hoside : o.side = side := hkept.book.wf.side side i hi
    have hprice : o.price = (m₀.order i).price := by
      have hprec : m.moneyPrec = m₀.moneyPrec := congrArg MarketConf.moneyPrec hconf
      rw [ho, loadedOrder, hprec]
      exact (hstore name₀ m₀ hm₀ side i hi).1.back hcol
    have hleft : o.left = (m₀.order i).left := by
      have hprec : m.stockPrec = m₀.stockPrec := congrArg MarketConf.stockPrec hconf
      rw [ho, loadedOrder, hprec]
      exact (hstore name₀ m₀ hm₀ side i hi).2.back hcol
    obtain ⟨m', hput, hrest⟩ := orderPut_eq round (o := o) e.statics hload.wf
      (by rw [hoid, ← hid]; exact hn) (hkept.book.wf.named i hio).type
      ((hkept.book.wf.home i hio).trans (congrArg MarketConf.name hconf).symm)
    simp only [← ho, hput]
    intro name m₁ hm₁
    simp only [Engine.put, Dict.find_insert] at hm₁
    split_ifs at hm₁ with hsame
    · subst hsame
      obtain rfl := Option.some.inj hm₁
      refine ⟨hload.conf.trans (congrArg some hrest.conf.symm),
        by rw [← hid] at hoid; exact hoid ▸ hrest.wf, fun s j hj => ?_⟩
      have hnew : j = o.id ∧ s = o.side ∨ j ∈ m.book s := by
        by_cases hs : s = o.side
        · subst hs
          rcases List.mem_cons.mp (hrest.book.mem_iff.mp hj) with hj | hj
          · exact Or.inl ⟨hj, rfl⟩
          · exact Or.inr hj
        · exact Or.inr (hrest.other s hs ▸ hj)
      rcases hnew with ⟨rfl, rfl⟩ | hold
      · refine ⟨m₀, hm₀, ?_, ?_, ?_⟩
        · rw [hoid, hoside]
          exact hi
        · rw [hrest.order, Function.update_self, hoid]
          exact hprice
        · rw [hrest.order, Function.update_self, hoid]
          exact hleft
      · have hne : j ≠ o.id := fun hj' =>
          absurd (hload.wf.le j (hload.wf.mem s j hold))
            (by rw [hj', hoid, ← hid]; exact not_le.mpr hn)
        rw [hrest.order, Function.update_of_ne hne]
        exact hload.copy s j hold
    · exact (h name m₁ hm₁).mono hn.le

variable (round) in
/-- All rows of a table are entered. -/
theorem Engine.Loading.loadOrders (rows : List (ℕ × Order ℚ)) (hcol : KeepsFitting column)
    (hsrc : e₀.Markets (Engine.Kept d₀)) (hstore : e₀.Storable)
    (hname : ∀ name m, d₀.find name = some m → m.name = name)
    (hrows : ∀ r ∈ rows, RowOf column e₀.dictMarket r) (hN : ∀ r ∈ rows, r.1 ≤ N)
    (hsorted : rows.Pairwise fun r r' => r.1 < r'.1) (hn : ∀ r ∈ rows, n < r.1) (hnN : n ≤ N)
    (h : e.Loading d₀ e₀.dictMarket n) :
    (rows.foldl (fun e row => e.loadOrder (ratMpd round) row.2) e).Loading d₀ e₀.dictMarket N := by
  induction rows generalizing n e with
  | nil => exact fun name m hm => (h name m hm).mono hnN
  | cons r rows ih =>
    obtain ⟨hr, hrows⟩ := List.forall_mem_cons.mp hrows
    obtain ⟨hrN, hN⟩ := List.forall_mem_cons.mp hN
    obtain ⟨hrn, -⟩ := List.forall_mem_cons.mp hn
    obtain ⟨hlt, hsorted⟩ := List.pairwise_cons.mp hsorted
    exact ih hrows hN hsorted hlt hrN (h.loadOrder hcol hsrc hstore hname hr hrn)

end Load

/-! ## Lives -/

namespace Engine

variable {round : ℚ → ℚ} {column : ℕ → ℚ → ℚ} {dictAsset : Dict String AssetType}
  {confs : List (MarketConf ℚ)} {e e₀ e' : Engine ℚ}

/-- What `restore` computes: the orders in the order of their ids, then the balances. -/
theorem restore_eq {D : Type} (mpd : Mpd D) (dictAsset : Dict String AssetType)
    (confs : List (MarketConf D)) (slice : Slice D) :
    restore mpd dictAsset confs slice =
      (Engine.init mpd dictAsset confs).map fun e =>
        ((slice.orders.above 0).foldl (fun e row => e.loadOrder mpd row.2)
          (e.setIds slice.endOrderId slice.endDealsId)).loadBalances mpd slice.balances := by
  unfold restore
  cases Engine.init mpd dictAsset confs with
  | none => rfl
  | some e => simp [loadOrders_eq]

theorem loadOrder_orderIdStart {D : Type} (mpd : Mpd D) (e : Engine D) (row : Order D) :
    (e.loadOrder mpd row).statics.orderIdStart = e.statics.orderIdStart := by
  unfold loadOrder
  cases e.dictMarket.find row.market with
  | none => rfl
  | some m => exact congrArg Prod.fst (orderPut_fixed mpd e.statics m _)

theorem foldl_loadOrder_orderIdStart {D : Type} (mpd : Mpd D) (rows : List (ℕ × Order D))
    (e : Engine D) :
    (rows.foldl (fun e row => e.loadOrder mpd row.2) e).statics.orderIdStart =
      e.statics.orderIdStart := by
  induction rows generalizing e with
  | nil => rfl
  | cons row rows ih => exact (ih _).trans (loadOrder_orderIdStart mpd e row.2)

theorem loadOrder_dictAsset {D : Type} (mpd : Mpd D) (e : Engine D) (row : Order D) :
    (e.loadOrder mpd row).statics.ledger.dictAsset = e.statics.ledger.dictAsset := by
  unfold loadOrder
  cases e.dictMarket.find row.market with
  | none => rfl
  | some m => exact congrArg Prod.snd (orderPut_fixed mpd e.statics m _)

/-- A slice of a sound engine that could keep it restores a sound engine. -/
theorem kept_restore {entries : List (BalanceKey × ℚ)}
    {slice : Slice ℚ} (hcol : KeepsFitting column)
    (hinit : Engine.init (ratMpd round) dictAsset confs = some e₀)
    (h : e.Markets (Kept e₀.dictMarket)) (hstore : e.Storable)
    (hdump : e.dump column (confs.map MarketConf.name) entries = some slice)
    (hrestore : restore (ratMpd round) dictAsset confs slice = some e') :
    e'.Markets (Kept e₀.dictMarket) := by
  obtain ⟨orders, horders, rfl⟩ := Option.map_eq_some_iff.mp hdump
  rw [restore_eq, hinit, Option.map_some] at hrestore
  obtain rfl := Option.some.inj hrestore
  set N := e.statics.orderIdStart
  have hname : ∀ name m, e₀.dictMarket.find name = some m → m.name = name := fun name m hm => by
    obtain ⟨conf, -, hconf, hcreate⟩ := (init_spec hinit).2.2 name m hm
    rw [← hconf]
    exact congrArg MarketConf.name (marketCreate_spec hcreate).1
  have hrows : ∀ r ∈ orders.rows, RowOf column e.dictMarket r :=
    dumpOrders_rows (by simp [Table.empty]) horders
  have hN : ∀ r ∈ orders.rows, r.1 ≤ N := fun r hr => by
    obtain ⟨name, m, side, i, hm, hi, rfl⟩ := hrows r hr
    have hwf := (h name m hm).book.wf
    have hio := hwf.mem side i hi
    exact (hwf.named i hio).id.trans_le (hwf.le i hio)
  have hnew : (e₀.setIds N e.statics.dealsIdStart).Loading e₀.dictMarket e.dictMarket 0 := by
    intro name m hm
    obtain ⟨conf, -, -, hcreate⟩ := (init_spec hinit).2.2 name m hm
    have hm' : e₀.dictMarket.find name = some m := hm
    exact ⟨by rw [hm']; rfl, (bookOk_create 0 hcreate).wf, fun side i hi => by
      rw [(marketCreate_spec hcreate).2.2.2 side] at hi
      cases hi⟩
  have hloaded := hnew.loadOrders round (N := N) (orders.above 0) hcol h hstore
    hname (fun r hr => hrows r (List.mem_of_mem_filter hr))
    (fun r hr => hN r (List.mem_of_mem_filter hr)) (orders.sorted.sublist List.filter_sublist)
    (fun r hr => by simpa using (List.mem_filter.mp hr).2) (Nat.zero_le N)
  intro name m hm
  have hload := hloaded name m hm
  have hid : (Engine.loadBalances (ratMpd round) (dumpBalance column entries)
      ((orders.above 0).foldl (fun e row => e.loadOrder (ratMpd round) row.2)
        (e₀.setIds N e.statics.dealsIdStart))).statics.orderIdStart = N :=
    foldl_loadOrder_orderIdStart _ _ _
  rw [hid]
  exact ⟨hload.conf, hload.bookOk fun m₀ hm₀ => (h name m₀ hm₀).book⟩

theorem Life.kept (hr : RoundsDown round) (hcol : KeepsFitting column)
    (hinit : Engine.init (ratMpd round) dictAsset confs = some e₀)
    (h : Life (ratMpd round) column dictAsset confs Storable e) :
    e.Markets (Kept e₀.dictMarket) := by
  induction h with
  | init hinit' => exact Option.some.inj (hinit.symm.trans hinit') ▸ kept_init hinit
  | step _ hstep ih => exact kept_step hr ih hstep
  | restart _ hstore _ hdump hrestore ih => exact kept_restore hcol hinit ih hstore hdump hrestore

theorem Life.init_isSome {D : Type} {mpd : Mpd D} {column : ℕ → D → D}
    {confs : List (MarketConf D)} {ok : Engine D → Prop} {e : Engine D}
    (h : Life mpd column dictAsset confs ok e) :
    ∃ e₀, Engine.init mpd dictAsset confs = some e₀ := by
  induction h with
  | init hinit => exact ⟨_, hinit⟩
  | step _ _ ih => exact ih
  | restart _ _ _ _ _ ih => exact ih

theorem Life.run {D : Type} {mpd : Mpd D} {column : ℕ → D → D} {confs : List (MarketConf D)}
    {ok : Engine D → Prop} {real : Bool} {e e' : Engine D} {ops : List (Op D)}
    (h : Life mpd column dictAsset confs ok e) (hrun : e.run mpd real ops = some e') :
    Life mpd column dictAsset confs ok e' :=
  run_induction (Q := fun _ _ => True) (fun _ _ _ h _ hstep => h.step hstep)
    (fun _ _ _ _ _ _ => trivial) h hrun

/-- The book is never crossed in a life whose slices keep the prices and the amounts left. -/
theorem Life.uncrossed (hcol : KeepsFitting column)
    (h : Life decimal128 column dictAsset confs Storable e) : e.Uncrossed := by
  obtain ⟨e₀, hinit⟩ := h.init_isSome
  intro name m hm
  have hbook := (h.kept roundsDown_roundDown hcol hinit name m hm).book
  exact ⟨hbook.gap, hbook.left⟩

end Engine

/-! ## A market with ten digits in its prices -/

/-- An ask at `1.0000000004`, and a bid at `1.0000000001` that does not reach it. -/
def apartOps : List (Op ℚ) :=
  [deposit 1 "BTC" 1 1, deposit 2 "CNY" 2 10,
    limitOrder 1 .ask 1 (1 + 4 / 10 ^ 10) 0 0, limitOrder 2 .bid 1 (1 + 1 / 10 ^ 10) 0 0]

def apartEntries : List (BalanceKey × ℚ) :=
  [(⟨2, .freeze, "CNY"⟩, 1 + 1 / 10 ^ 10), (⟨2, .available, "CNY"⟩, 9 - 1 / 10 ^ 10),
    (⟨1, .freeze, "BTC"⟩, 1)]

def apart : Option (Engine ℚ) := exampleRun decimal128 10 apartOps

theorem apart_life (ok : Engine ℚ → Prop) :
    ∃ e, apart = some e ∧
      Engine.Life decimal128 mysqlDecimal exampleAssets [exampleConf 10] ok e := by
  have hsome : apart.isSome = true := by decide +kernel
  obtain ⟨e, he⟩ := Option.isSome_iff_exists.mp hsome
  have he' := he
  unfold apart exampleRun at he'
  obtain ⟨e₀, hinit, hrun⟩ := Option.bind_eq_some_iff.mp he'
  exact ⟨e, he, (Engine.Life.init hinit).run hrun⟩

theorem apart_uncrossed : ∃ e, apart = some e ∧ e.Uncrossed := by
  obtain ⟨e, he, hlife⟩ := apart_life Engine.Storable
  exact ⟨e, he, Engine.Life.uncrossed keepsFitting_mysqlDecimal hlife⟩

/-- The slice holds both orders at the price `1.00000000`. -/
def apartRestored : Option (Engine ℚ) :=
  (apart.bind fun e => e.dump mysqlDecimal ["BTCCNY"] apartEntries).bind fun slice =>
    Engine.restore decimal128 exampleAssets [exampleConf 10] slice

theorem apartRestored_book :
    (apartRestored.bind fun e => e.dictMarket.find "BTCCNY").map (fun m =>
      (m.asks, m.bids, (m.order 1).price, (m.order 2).price)) = some ([1], [2], 1, 1) := by
  simp only [apartRestored, Engine.restore_eq]
  decide +kernel

theorem crossed_after_restart :
    ∃ e, Engine.Life decimal128 mysqlDecimal exampleAssets [exampleConf 10] (fun _ => True) e ∧
      ¬e.Uncrossed := by
  obtain ⟨e, he, hlife⟩ := apart_life fun _ => True
  have hentries : (apart.map fun e => decide (Iterates e.statics.ledger.dictBalance apartEntries)) =
      some true := by decide +kernel
  rw [he, Option.map_some] at hentries
  obtain ⟨m, hm, hbook⟩ := Option.map_eq_some_iff.mp apartRestored_book
  obtain ⟨e', he', hfind⟩ := Option.bind_eq_some_iff.mp hm
  obtain ⟨slice, hslice, hrestore⟩ := Option.bind_eq_some_iff.mp he'
  rw [he] at hslice
  refine ⟨e', hlife.restart trivial (of_decide_eq_true (Option.some.inj hentries)) hslice hrestore,
    fun huncrossed => ?_⟩
  simp only [Prod.mk.injEq] at hbook
  obtain ⟨hasks, hbids, hask, hbid⟩ := hbook
  have hlt := (huncrossed "BTCCNY" m hfind).1 1 (by simp [hasks]) 2 (by simp [hbids])
  rw [hask, hbid] at hlt
  exact hlt.false

end ViabtcExchange
