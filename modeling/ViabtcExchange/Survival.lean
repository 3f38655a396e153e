import ViabtcExchange.Balances
import ViabtcExchange.Lives

/-!
# Open orders in a slice (`dump_orders`, `load_orders`)

`dump_orders` writes the books in their order, `load_orders` reads the rows in the order of their
ids and enters each with `order_put`, which computes anew what the order freezes and fails to freeze
it: there are no balances yet. Each number goes through a column of its own, the source through
none.

**Theorem (`survives_iff`).** In every life of the engine, a slice gives back the open orders, the
lists of the users and the balances as they were just when every order that is listed is in the
book, every number fits its column and its precision, what an order freezes is what `order_put`
computes, no balance is zero or does not fit, and no open order has a source. The last is true of
the orders that have come from an earlier slice only: `source_lost` is the shortest run that ends
otherwise.
-/

namespace ViabtcExchange

/-! ## Dumping the books -/

namespace Conn

section Fill

variable {D : Type} (column : ℕ → D → D) (accepts : ℕ → D → Bool)

/-- Orders are put into their table, and only a column can refuse them: what comes in has been
accepted, and everything comes in when each order is accepted and its id is free. -/
def FillOrders (db db' : SliceDb D) (orders : List (Order D)) : Prop :=
  ∀ t, db.orders = some t → ∃ t', db' = { db with orders := some t' } ∧ (∀ r ∈ t.rows, r ∈ t'.rows) ∧
    (∀ r ∈ t'.rows, r ∈ t.rows ∨
      ∃ o ∈ orders, orderAccepted accepts o = true ∧ r = orderRow column o) ∧
    ((∀ o ∈ orders, orderAccepted accepts o = true) → (orders.map Order.id).Nodup →
      (∀ o ∈ orders, ∀ r ∈ t.rows, r.1 ≠ o.id) → ∀ o ∈ orders, orderRow column o ∈ t'.rows)

variable {column accepts}

theorem fillOrders_nil (db : SliceDb D) : FillOrders column accepts db db [] := by
  intro t ht
  exact ⟨t, by rw [← ht], fun _ h => h, fun _ h => Or.inl h,
    fun _ _ _ o ho => absurd ho List.not_mem_nil⟩

theorem FillOrders.append {db db₁ db₂ : SliceDb D} {xs ys : List (Order D)}
    (h₁ : FillOrders column accepts db db₁ xs) (h₂ : FillOrders column accepts db₁ db₂ ys) :
    FillOrders column accepts db db₂ (xs ++ ys) := by
  intro t ht
  obtain ⟨t₁, rfl, hkeep₁, hin₁, hall₁⟩ := h₁ t ht
  obtain ⟨t₂, rfl, hkeep₂, hin₂, hall₂⟩ := h₂ t₁ rfl
  refine ⟨t₂, rfl, fun r hr => hkeep₂ r (hkeep₁ r hr), fun r hr => ?_,
    fun hacc hnodup hfresh o ho => ?_⟩
  · rcases hin₂ r hr with hr | ⟨o, ho, hr⟩
    · rcases hin₁ r hr with hr | ⟨o, ho, hr⟩
      · exact Or.inl hr
      · exact Or.inr ⟨o, List.mem_append_left _ ho, hr⟩
    · exact Or.inr ⟨o, List.mem_append_right _ ho, hr⟩
  · rw [List.map_append] at hnodup
    obtain ⟨hnodup₁, hnodup₂, hcross⟩ := List.nodup_append.mp hnodup
    rcases List.mem_append.mp ho with ho | ho
    · exact hkeep₂ _ (hall₁ (fun o ho => hacc o (List.mem_append_left _ ho)) hnodup₁
        (fun o ho => hfresh o (List.mem_append_left _ ho)) o ho)
    · refine hall₂ (fun o ho => hacc o (List.mem_append_right _ ho)) hnodup₂
        (fun o ho r hr heq => ?_) o ho
      rcases hin₁ r hr with hr | ⟨o', ho', -, rfl⟩
      · exact hfresh o (List.mem_append_right _ ho) r hr heq
      · exact hcross _ (List.mem_map_of_mem ho') _ (List.mem_map_of_mem ho) heq

theorem fillOrders_query {c c' : Conn D} {xs : List (Order D)} {ret : ℤ}
    (h : c.mysqlRealQuery column accepts (fun _ => .ok) (.insertOrders xs) = (ret, c')) :
    FillOrders column accepts c.db c'.db xs := by
  intro t ht
  by_cases hacc : xs.all (orderAccepted accepts) = true
  · cases hins : t.insertAll (xs.map (orderRow column)) with
    | none =>
      simp only [mysqlRealQuery, SliceDb.execute, hacc, if_true, ht, Option.bind_some, hins,
        Option.map_none] at h
      have hdb : c'.db = c.db := (congrArg (fun r => r.2.db) h).symm
      refine ⟨t, by rw [hdb, ← ht], fun _ h => h, fun _ h => Or.inl h, fun _ hnodup hfresh => ?_⟩
      obtain ⟨t', ht'⟩ := @Table.exists_insertAll _ (xs.map (orderRow column)) t
        (fun r hr r' hr' => by
          obtain ⟨o, ho, rfl⟩ := List.mem_map.mp hr
          exact hfresh o ho r' hr')
        (List.pairwise_map.mpr (List.pairwise_map.mp hnodup))
      rw [hins] at ht'
      cases ht'
    | some t' =>
      simp only [mysqlRealQuery, SliceDb.execute, hacc, if_true, ht, Option.bind_some, hins,
        Option.map_some] at h
      have hdb : c'.db = { c.db with orders := some t' } := (congrArg (fun r => r.2.db) h).symm
      refine ⟨t', hdb, fun r hr => (Table.mem_insertAll hins).mpr (Or.inr hr), fun r hr => ?_,
        fun _ _ _ o ho => (Table.mem_insertAll hins).mpr (Or.inl (List.mem_map_of_mem ho))⟩
      rcases (Table.mem_insertAll hins).mp hr with hr | hr
      · obtain ⟨o, ho, rfl⟩ := List.mem_map.mp hr
        exact Or.inr ⟨o, ho, List.all_eq_true.mp hacc o ho, rfl⟩
      · exact Or.inl hr
  · simp only [mysqlRealQuery, SliceDb.execute, hacc] at h
    have hdb : c'.db = c.db := (congrArg (fun r => r.2.db) h).symm
    refine ⟨t, by rw [hdb, ← ht], fun _ h => h, fun _ h => Or.inl h, fun hacc' => ?_⟩
    exact absurd (List.all_eq_true.mpr hacc') hacc

theorem dumpOrdersList_fill {orders : List (Order D)} {c c' : Conn D} {ret : ℤ}
    (h : dumpOrdersList column accepts (fun _ => .ok) orders c = (ret, c')) :
    ret = 0 ∧ FillOrders column accepts c.db c'.db orders := by
  have hfill := dumpRows_spec column accepts (fun _ => .ok) (FillOrders column accepts) (fun _ => True)
    (fun _ => rfl) (fun _ _ _ _ h => by cases h) (fun _ _ => trivial) fillOrders_nil
      FillOrders.append
    (fun hq _ => fillOrders_query hq) insertLimit orders [] h
  exact ⟨hfill.1, hfill.2.2 trivial⟩

end Fill

section Markets

variable {column : ℕ → ℚ → ℚ} {accepts : ℕ → ℚ → Bool} {d : Dict String (Market ℚ)} {e : Engine ℚ}

/-- Every open order is accepted by its columns. -/
def AllAccepted (accepts : ℕ → ℚ → Bool) (e : Engine ℚ) : Prop :=
  ∀ name m, e.dictMarket.find name = some m → ∀ side, ∀ i ∈ m.book side,
    orderAccepted accepts (m.order i) = true

/-- The table once the markets in `done` are dumped. -/
structure Filled (column : ℕ → ℚ → ℚ) (accepts : ℕ → ℚ → Bool) (e : Engine ℚ) (done : List String)
    (t : Table (Order ℚ)) : Prop where
  rows : ∀ r ∈ t.rows, ∃ name ∈ done, ∃ m side i, e.dictMarket.find name = some m ∧ i ∈ m.book side ∧
    orderAccepted accepts (m.order i) = true ∧ r = orderRow column (m.order i)
  all : AllAccepted accepts e →
    ∀ name ∈ done, ∀ m, e.dictMarket.find name = some m → HasBooks column t m

/-- The ids of the orders of a book. -/
theorem map_order_id {n : ℕ} {m : Market ℚ} (h : m.WF n) (side : OrderSide) :
    ((m.book side).map m.order).map Order.id = m.book side := by
  rw [List.map_map]
  conv_rhs => rw [← List.map_id (m.book side)]
  exact List.map_congr_left fun i hi => (h.named i (h.mem side i hi)).id

/-- A market that is dumped, for the first time or again. -/
theorem Filled.market {name : String} {m : Market ℚ} {done : List String} {db db₁ db₂ : SliceDb ℚ}
    {t : Table (Order ℚ)} (hshape : e.Shaped d) (hm : e.dictMarket.find name = some m)
    (h : Filled column accepts e done t) (ht : db.orders = some t)
    (h₁ : FillOrders column accepts db db₁ (m.asks.map m.order))
    (h₂ : FillOrders column accepts db₁ db₂ (m.bids.map m.order)) :
    ∃ t', db₂ = { db with orders := some t' } ∧ Filled column accepts e (done ++ [name]) t' := by
  have hwf := hshape.wf name m hm
  obtain ⟨t', hdb, hkeep, hin, hall⟩ := (h₁.append h₂) t ht
  have hids : (m.asks.map m.order ++ m.bids.map m.order).map Order.id = m.asks ++ m.bids := by
    rw [List.map_append]
    exact congrArg₂ (· ++ ·) (map_order_id hwf .ask) (map_order_id hwf .bid)
  have hbook : ∀ o, o ∈ m.asks.map m.order ++ m.bids.map m.order ↔
      ∃ side, ∃ i ∈ m.book side, o = m.order i := by
    intro o
    rw [List.mem_append, List.mem_map, List.mem_map]
    constructor
    · rintro (⟨i, hi, rfl⟩ | ⟨i, hi, rfl⟩)
      · exact ⟨.ask, i, hi, rfl⟩
      · exact ⟨.bid, i, hi, rfl⟩
    · rintro ⟨side, i, hi, rfl⟩
      cases side with
      | ask => exact Or.inl ⟨i, hi, rfl⟩
      | bid => exact Or.inr ⟨i, hi, rfl⟩
  have hname : name ∈ done ++ [name] := List.mem_append_right _ (List.mem_singleton_self name)
  refine ⟨t', hdb, fun r hr => ?_, fun hacc name' hname' m' hm' side i hi => ?_⟩
  · rcases hin r hr with hr | ⟨o, ho, hacc, rfl⟩
    · obtain ⟨name', hname', hrow⟩ := h.rows r hr
      exact ⟨name', List.mem_append_left _ hname', hrow⟩
    · obtain ⟨side, i, hi, rfl⟩ := (hbook o).mp ho
      exact ⟨name, hname, m, side, i, hm, hi, hacc, rfl⟩
  · by_cases hdone : name' ∈ done
    · exact hkeep _ (h.all hacc name' hdone m' hm' side i hi)
    · obtain rfl : name' = name :=
        List.mem_singleton.mp ((List.mem_append.mp hname').resolve_left hdone)
      obtain rfl := Option.some.inj (hm.symm.trans hm')
      refine hall (fun o ho => ?_) ?_ (fun o ho r hr heq => ?_) _ ((hbook _).mpr ⟨side, i, hi, rfl⟩)
      · obtain ⟨side, i, hi, rfl⟩ := (hbook o).mp ho
        exact hacc _ m hm side i hi
      · rw [hids]
        refine (hwf.nodup .ask).append (hwf.nodup .bid) fun i hask hbid => ?_
        have hside := (hwf.side .ask i hask).symm.trans (hwf.side .bid i hbid)
        cases hside
      -- the row of another market has another id
      · obtain ⟨side, i, hi, rfl⟩ := (hbook o).mp ho
        obtain ⟨name₁, hname₁, m₁, side₁, i₁, hm₁, hi₁, -, rfl⟩ := h.rows r hr
        have hio := hwf.mem side i hi
        have hio₁ := (hshape.wf name₁ m₁ hm₁).mem side₁ i₁ hi₁
        have hii₁ : i₁ = i := (((hshape.wf name₁ m₁ hm₁).named i₁ hio₁).id.symm.trans heq).trans
          (hwf.named i hio).id
        exact hdone (hshape.apart hm₁ hm (hii₁ ▸ hio₁) hio ▸ hname₁)

theorem dumpMarkets_fill (hshape : e.Shaped d) {names : List String} :
    ∀ {c : Conn ℚ} {t : Table (Order ℚ)} {done : List String},
      (∀ name ∈ names, ∃ m, e.dictMarket.find name = some m) → c.db.orders = some t →
        Filled column accepts e done t → ∃ c' t',
          dumpMarkets column accepts (fun _ => .ok) e.dictMarket names c = (0, c') ∧
            c'.db = { c.db with orders := some t' } ∧
              Filled column accepts e (done ++ names) t' := by
  induction names with
  | nil =>
    intro c t done _ ht h
    exact ⟨c, t, rfl, by rw [← ht], by rwa [List.append_nil]⟩
  | cons name names ih =>
    intro c t done hnames ht h
    obtain ⟨⟨m, hm⟩, hnames⟩ := List.forall_mem_cons.mp hnames
    cases hasks : dumpOrdersList column accepts (fun _ => .ok) (m.asks.map m.order) c with
    | mk ret₁ c₁ =>
      obtain ⟨rfl, hfill₁⟩ := dumpOrdersList_fill hasks
      cases hbids : dumpOrdersList column accepts (fun _ => .ok) (m.bids.map m.order) c₁ with
      | mk ret₂ c₂ =>
        obtain ⟨rfl, hfill₂⟩ := dumpOrdersList_fill hbids
        obtain ⟨t₂, hdb₂, hfilled₂⟩ := h.market hshape hm ht hfill₁ hfill₂
        obtain ⟨c', t', hrun, hdb', hfilled'⟩ := ih hnames (by rw [hdb₂]) hfilled₂
        refine ⟨c', t', ?_, by rw [hdb', hdb₂], ?_⟩
        · simp only [dumpMarkets, hm, hasks, hbids, lt_irrefl, if_false]
          exact hrun
        · rwa [List.append_assoc] at hfilled'

variable (column accepts) in
/-- What a dump writes when no statement fails but for what a column refuses. -/
theorem dumpToDb_fill (hshape : e.Shaped d) {markets : List String}
    (hmarkets : ∀ name ∈ markets, ∃ m, e.dictMarket.find name = some m)
    (entries : List (BalanceKey × ℚ)) (operlogIdStart : ℕ) (db : SliceDb ℚ) :
    ∃ t rows,
      (dumpToDb column accepts (fun _ => .ok) true markets entries operlogIdStart e db).2.db =
        ⟨some t, some rows,
          db.history ++ [(operlogIdStart, e.statics.orderIdStart, e.statics.dealsIdStart)]⟩ ∧
      Filled column accepts e markets t ∧ BalanceRows column accepts entries rows := by
  obtain ⟨orders, balances, history⟩ := db
  have hnew : Filled column accepts e [] .empty :=
    ⟨fun r hr => absurd hr List.not_mem_nil, fun _ name hname => absurd hname List.not_mem_nil⟩
  obtain ⟨c₁, t, horders, hdb₁, hfilled⟩ := dumpMarkets_fill hshape
    (c := ⟨⟨some .empty, balances, history⟩, [(.dropOrders, false), (.createOrders, false)]⟩)
    hmarkets rfl hnew
  obtain ⟨rows, hret, hdb₂, hrows⟩ := c₁.dumpBalance_rows column accepts entries
  refine ⟨t, rows, ?_, hfilled, hrows⟩
  simp [dumpToDb, dumpOrders, remake, mysqlRealQuery, SliceDb.execute, horders, hret, hdb₂, hdb₁,
    updateSliceHistory]

end Markets

end Conn

/-! ## One order -/

/-- A number that comes back from its column, and from `decimal` after that. -/
structure FitsColumn (scale prec : ℕ) (x : ℚ) : Prop where
  grid : OnGrid scale x
  bound : |x| < 10 ^ (30 - scale)
  prec : prec = 0 ∨ OnGrid prec x

theorem cut_mysqlStore_iff {round : ℚ → ℚ} {scale prec : ℕ} {x : ℚ} (hscale : scale ≤ 30) :
    (ratMpd round).cut (mysqlStore scale x) prec = x ↔ FitsColumn scale prec x := by
  constructor
  · intro h
    obtain ⟨hgrid, hbound⟩ := mysqlStore_bounds hscale x
    unfold Mpd.cut at h
    split_ifs at h with hprec
    · rw [h] at hgrid hbound
      exact ⟨hgrid, hbound, Or.inl hprec⟩
    · rw [ratMpd_rescale, neg_neg] at h
      have hx : OnGrid prec x := h ▸ onGrid_truncTo _ _
      refine ⟨?_, ?_, Or.inr hx⟩
      · rcases le_total (prec : ℤ) scale with hle | hle
        · exact hx.mono hle
        · rw [truncTo_of_onGrid (hgrid.mono hle)] at h
          exact h ▸ hgrid
      · calc |x| = |truncTo prec (mysqlStore scale x)| := by rw [h]
          _ ≤ |mysqlStore scale x| := abs_truncTo_le _ _
          _ < 10 ^ (30 - scale) := hbound
  · rintro ⟨hgrid, hbound, hprec⟩
    rw [keepsFitting_mysqlStore scale x hgrid hbound]
    unfold Mpd.cut
    split_ifs with h0
    · rfl
    · rw [ratMpd_rescale, neg_neg, truncTo_of_onGrid (hprec.resolve_left h0)]

theorem FitsColumn.accepted {strict : Bool} {scale prec : ℕ} {x : ℚ} (h : FitsColumn scale prec x) :
    mysqlAccepts strict scale x = true :=
  mysqlAccepts_of_fits h.grid h.bound

/-- An order whose numbers fit their columns, and which freezes what it would freeze if it came to
rest now. -/
structure OrderFits (round : ℚ → ℚ) (strict : Bool) (m : Market ℚ) (o : Order ℚ) : Prop where
  price : FitsColumn 8 m.moneyPrec o.price
  amount : FitsColumn 8 m.stockPrec o.amount
  takerFee : FitsColumn 4 m.feePrec o.takerFee
  makerFee : FitsColumn 4 m.feePrec o.makerFee
  left : FitsColumn 8 m.stockPrec o.left
  dealStock : FitsColumn 8 0 o.dealStock
  dealMoney : FitsColumn 16 0 o.dealMoney
  dealFee : FitsColumn 12 0 o.dealFee
  freeze : o.freeze = restFreeze (ratMpd round) o
  room : mysqlAccepts strict 8 o.freeze = true

/-- An order without the name of its source. -/
def Order.anonymous {D : Type} (o : Order D) : Order D := { o with source := none }

theorem enteredOrder_sliceOrder_iff {round : ℚ → ℚ} {strict : Bool} {m : Market ℚ} {o : Order ℚ} :
    orderAccepted (mysqlAccepts strict) o = true ∧
        enteredOrder (ratMpd round) m (sliceOrder mysqlStore o) = o.anonymous ↔
      OrderFits round strict m o := by
  constructor
  · rintro ⟨hacc, heq⟩
    simp only [orderAccepted, Bool.and_eq_true] at hacc
    have hprice := congrArg Order.price heq
    have hleft := congrArg Order.left heq
    have hrest : restFreeze (ratMpd round) (loadedOrder (ratMpd round) m (sliceOrder mysqlStore o)) =
        restFreeze (ratMpd round) o := by
      unfold restFreeze
      have hp : (loadedOrder (ratMpd round) m (sliceOrder mysqlStore o)).price = o.price := hprice
      have hl : (loadedOrder (ratMpd round) m (sliceOrder mysqlStore o)).left = o.left := hleft
      rw [hp, hl]
      rfl
    exact
      { price := (cut_mysqlStore_iff (by norm_num)).mp hprice
        amount := (cut_mysqlStore_iff (by norm_num)).mp (congrArg Order.amount heq)
        takerFee := (cut_mysqlStore_iff (by norm_num)).mp (congrArg Order.takerFee heq)
        makerFee := (cut_mysqlStore_iff (by norm_num)).mp (congrArg Order.makerFee heq)
        left := (cut_mysqlStore_iff (by norm_num)).mp hleft
        dealStock := (@cut_mysqlStore_iff round _ _ _ (by norm_num)).mp
          (congrArg Order.dealStock heq)
        dealMoney := (@cut_mysqlStore_iff round _ _ _ (by norm_num)).mp
          (congrArg Order.dealMoney heq)
        dealFee := (@cut_mysqlStore_iff round _ _ _ (by norm_num)).mp (congrArg Order.dealFee heq)
        freeze := (congrArg Order.freeze heq).symm.trans hrest
        room := by tauto }
  · intro h
    have hcut : ∀ {scale prec x}, scale ≤ 30 → FitsColumn scale prec x →
        (ratMpd round).cut (mysqlStore scale x) prec = x :=
          fun hs hx => (cut_mysqlStore_iff hs).mpr hx
    refine ⟨?_, ?_⟩
    · simp [orderAccepted, h.price.accepted, h.amount.accepted, h.takerFee.accepted, h.makerFee.accepted,
        h.left.accepted, h.dealStock.accepted, h.dealMoney.accepted, h.dealFee.accepted, h.room]
    · have hloaded : loadedOrder (ratMpd round) m (sliceOrder mysqlStore o) =
          { o with source := none, freeze := mysqlStore 8 o.freeze } := by
        simp only [loadedOrder, sliceOrder, hcut (by norm_num) h.price, hcut (by norm_num) h.amount,
          hcut (by norm_num) h.takerFee, hcut (by norm_num) h.makerFee, hcut (by norm_num) h.left,
          keepsFitting_mysqlStore 8 _ h.dealStock.grid h.dealStock.bound,
          keepsFitting_mysqlStore 16 _ h.dealMoney.grid h.dealMoney.bound,
          keepsFitting_mysqlStore 12 _ h.dealFee.grid h.dealFee.bound]
      rw [enteredOrder, hloaded, Order.anonymous]
      have hrest : restFreeze (ratMpd round) { o with source := none, freeze := mysqlStore 8 o.freeze } =
          o.freeze := h.freeze.symm ▸ rfl
      simp only [hrest]

/-! ## The whole engine -/

section Survives

variable {round : ℚ → ℚ} {strict : Bool} {e e' : Engine ℚ} {m m' : Market ℚ} {name : String}

/-- The market has the same open orders in the same queues, seen through `view`, and the same lists
of users. -/
structure Market.SameOrders (view : Order ℚ → Order ℚ) (m m' : Market ℚ) : Prop where
  book : ∀ side, m'.book side = m.book side
  order : ∀ side, ∀ i ∈ m.book side, m'.order i = view (m.order i)
  users : ∀ u, (m'.users.find u).getD [] = (m.users.find u).getD []

/-- The open orders, the lists of the users and the balances are the same. -/
structure Survives (view : Order ℚ → Order ℚ) (e e' : Engine ℚ) : Prop where
  markets : ∀ name m, e.dictMarket.find name = some m →
    ∃ m', e'.dictMarket.find name = some m' ∧ m.SameOrders view m'
  balances : e'.statics.ledger.dictBalance = e.statics.ledger.dictBalance

/-- What it takes for everything to survive but the sources: every order that is listed is in the
book, and the numbers fit. -/
structure AllFits (round : ℚ → ℚ) (strict : Bool) (e : Engine ℚ) : Prop where
  booked : ∀ name m, e.dictMarket.find name = some m → ∀ i ∈ m.orders, i ∈ m.book (m.order i).side
  orders : ∀ name m, e.dictMarket.find name = some m → ∀ side, ∀ i ∈ m.book side,
    OrderFits round strict m (m.order i)
  balances : ∀ key v, e.statics.ledger.dictBalance.find key = some v →
    v ≠ 0 ∧ OnGrid 16 v ∧ v < 10 ^ 14

/-- Containers with the same orders, each with its own face, are the same. -/
theorem Market.SameOrders.of_orders {n n' : ℕ} {view : Order ℚ → Order ℚ}
    (hview : ∀ o, SameFace o (view o)) (h : m.WF n) (h' : m'.WF n')
    (hmem : ∀ i, i ∈ m'.orders ↔ i ∈ m.orders)
    (horder : ∀ i ∈ m.orders, m'.order i = view (m.order i))
    (hbook : ∀ i ∈ m.orders, i ∈ m.book (m.order i).side)
    (hbook' : ∀ i ∈ m'.orders, i ∈ m'.book (m'.order i).side) : m.SameOrders view m' := by
  have hface : ∀ i ∈ m.orders, SameFace (m.order i) (m'.order i) := fun i hi =>
    (horder i hi).symm ▸ hview _
  refine ⟨fun side => ?_, fun side i hi => horder i (h.mem side i hi), fun u => ?_⟩
  · refine ((h'.sorted side).congr fun i hi => ?_).ext (h.sorted side) fun i =>
      ⟨fun hi => ?_, fun hi => ?_⟩
    · have hio := (hmem i).mp (h'.mem side i hi)
      cases side <;> simp only [Market.key, (hface i hio).price]
    · have hio := (hmem i).mp (h'.mem side i hi)
      have hside := (hface i hio).side.symm.trans (h'.side side i hi)
      exact hside ▸ hbook i hio
    · have hio := h.mem side i hi
      have hside := (hface i hio).side.trans (h.side side i hi)
      exact hside ▸ hbook' i ((hmem i).mpr hio)
  · obtain ⟨hsorted, hlist⟩ := h.userList_spec u
    obtain ⟨hsorted', hlist'⟩ := h'.userList_spec u
    refine hsorted'.ext hsorted fun i => ?_
    rw [hlist, hlist', hmem]
    exact and_congr_right fun hi => by rw [(hface i hi).userId]

theorem sameFace_anonymous (o : Order ℚ) : SameFace o o.anonymous := ⟨rfl, rfl, rfl, rfl, rfl, rfl⟩

variable {d : Dict String (Market ℚ)} {N : ℕ} {t : Table (Order ℚ)} {markets : List String}

/-- The row that an order of a restored market comes from. -/
theorem entered_row (hshape : e.Shaped d) (hent : e'.EnteredRows round d N t.rows)
    (hfill : Conn.Filled mysqlStore (mysqlAccepts strict) e markets t)
    (hm : e.dictMarket.find name = some m) (hm' : e'.dictMarket.find name = some m') {i : ℕ}
    (hi : i ∈ m'.orders) (hio : i ∈ m.orders) :
    orderAccepted (mysqlAccepts strict) (m.order i) = true ∧
      m'.order i = enteredOrder (ratMpd round) m' (sliceOrder mysqlStore (m.order i)) := by
  obtain ⟨r, hr, hri, hrname⟩ := ((hent.entered name m' hm').mem i).mp hi
  obtain ⟨name₁, -, m₁, side, j, hm₁, hj, hacc, rfl⟩ := hfill.rows r hr
  have hjo := (hshape.wf name₁ m₁ hm₁).mem side j hj
  have hij : (m₁.order j).id = j := ((hshape.wf name₁ m₁ hm₁).named j hjo).id
  obtain rfl : j = i := hij.symm.trans hri
  obtain rfl := hshape.apart hm hm₁ hio hjo
  obtain rfl := Option.some.inj (hm.symm.trans hm₁)
  have horder := (hent.entered _ m' hm').order _ hr hrname
  rw [hri] at horder
  exact ⟨hacc, horder⟩

/-- A restored market has the settings of the old one. -/
theorem restored_conf (hshape : e.Shaped d) (hent : e'.EnteredRows round d N t.rows)
    (hm : e.dictMarket.find name = some m) :
    ∃ m', e'.dictMarket.find name = some m' ∧ m'.conf = m.conf := by
  have hconf := (hent.conf name).trans (hshape.conf name).symm
  rw [hm] at hconf
  exact Option.map_eq_some_iff.mp hconf

/-- When the books survive a slice but for the sources. -/
theorem sameOrders_iff (hname : ∀ name m, d.find name = some m → m.name = name)
    (hshape : e.Shaped d) (hent : e'.EnteredRows round d N t.rows)
    (hfill : Conn.Filled mysqlStore (mysqlAccepts strict) e markets t)
    (hmarkets : ∀ name m, e.dictMarket.find name = some m → name ∈ markets) :
    (∀ name m, e.dictMarket.find name = some m →
        ∃ m', e'.dictMarket.find name = some m' ∧ m.SameOrders Order.anonymous m') ↔
      ∀ name m, e.dictMarket.find name = some m → (∀ i ∈ m.orders, i ∈ m.book (m.order i).side) ∧
        ∀ side, ∀ i ∈ m.book side, OrderFits round strict m (m.order i) := by
  constructor
  · intro hsame name m hm
    have hwf := hshape.wf name m hm
    obtain ⟨m', hm', hsame⟩ := hsame name m hm
    have hent' := hent.entered name m' hm'
    obtain ⟨m₁, hm₁, hconf⟩ := restored_conf hshape hent hm
    obtain rfl := Option.some.inj (hm'.symm.trans hm₁)
    refine ⟨fun i hi => ?_, fun side i hi => ?_⟩
    · have hlist := ((hwf.userList_spec (m.order i).userId).2 i).mpr ⟨hi, rfl⟩
      rw [← hsame.users] at hlist
      have hi' := (((hent'.wf.userList_spec _).2 i).mp hlist).1
      have hbook := hent'.booked i hi'
      rw [hsame.book] at hbook
      exact (hwf.side _ i hbook).symm ▸ hbook
    · have hi' := hent'.wf.mem side i (hsame.book side ▸ hi)
      obtain ⟨hacc, horder⟩ := entered_row hshape hent hfill hm hm' hi' (hwf.mem side i hi)
      rw [hsame.order side i hi, enteredOrder_congr _ hconf] at horder
      exact enteredOrder_sliceOrder_iff.mp ⟨hacc, horder.symm⟩
  · intro hfits name m hm
    have hwf := hshape.wf name m hm
    obtain ⟨m', hm', hconf⟩ := restored_conf hshape hent hm
    have hent' := hent.entered name m' hm'
    obtain ⟨hbooked, horders⟩ := hfits name m hm
    have hhome : ∀ {name m}, e.dictMarket.find name = some m → m.name = name := by
      intro name m hm
      have hconf := hshape.conf name
      rw [hm] at hconf
      obtain ⟨m₀, hm₀, hconf⟩ := Option.map_eq_some_iff.mp hconf.symm
      exact (congrArg MarketConf.name hconf).symm.trans (hname name m₀ hm₀)
    have hacc : Conn.AllAccepted (mysqlAccepts strict) e := fun name m hm side i hi =>
      (enteredOrder_sliceOrder_iff.mpr ((hfits name m hm).2 side i hi)).1
    have hmem : ∀ i, i ∈ m'.orders ↔ i ∈ m.orders := by
      intro i
      rw [hent'.mem]
      constructor
      · rintro ⟨r, hr, rfl, hrname⟩
        obtain ⟨name₁, -, m₁, side, j, hm₁, hj, -, rfl⟩ := hfill.rows r hr
        have hwf₁ := hshape.wf name₁ m₁ hm₁
        have hjo := hwf₁.mem side j hj
        obtain rfl : name₁ = name := ((hwf₁.home j hjo).trans (hhome hm₁)).symm.trans hrname
        obtain rfl := Option.some.inj (hm.symm.trans hm₁)
        have hij : (m.order j).id = j := (hwf₁.named j hjo).id
        exact (congrArg (· ∈ m.orders) hij).mpr hjo
      · intro hi
        have hrow := hfill.all hacc name (hmarkets name m hm) m hm _ i (hbooked i hi)
        exact ⟨_, hrow, (hwf.named i hi).id, (hwf.home i hi).trans (hhome hm)⟩
    refine ⟨m', hm',
      .of_orders sameFace_anonymous hwf hent'.wf hmem (fun i hi => ?_) hbooked hent'.booked⟩
    rw [(entered_row hshape hent hfill hm hm' ((hmem i).mpr hi) hi).2, enteredOrder_congr _ hconf]
    exact (enteredOrder_sliceOrder_iff.mpr (horders _ i (hbooked i hi))).2

/-- While orders are entered there is nothing to freeze. -/
theorem loadOrder_balances (row : Order ℚ) (h : e.statics.ledger.dictBalance = ∅) :
    (e.loadOrder (ratMpd round) row).statics.ledger.dictBalance = ∅ := by
  have hcall : ∀ (s : Statics ℚ) u a x, s.ledger.dictBalance = ∅ →
      (s.call (ratMpd round) (.freeze u a x)).ledger.dictBalance = ∅ := by
    intro s u a x hs
    have hnone : balanceFreeze (ratMpd round) s.ledger.dictAsset s.ledger.dictBalance u a x =
        none := by
      rw [hs, balanceFreeze, balanceMove]
      cases s.ledger.dictAsset.find a with
      | none => rfl
      | some ty => simp [balanceGet]
    simp only [Statics.call, Ledger.call, BalanceCall.run, hnone]
    exact hs
  have hput : ∀ (m : Market ℚ) o,
      (orderPut (ratMpd round) e.statics m o).1.ledger.dictBalance = ∅ := by
    intro m o
    unfold orderPut
    split_ifs
    · exact h
    · exact h
    · dsimp only
      split
      · exact h
      · split
        · exact h
        · exact hcall _ _ _ _ h
  unfold Engine.loadOrder
  cases e.dictMarket.find row.market with
  | none => exact h
  | some m => exact hput m _

/-- The balances after a restart are those of the table. -/
theorem restore_balances {dictAsset : Dict String AssetType} {confs : List (MarketConf ℚ)}
    {slice : Slice ℚ} (hrestore : Engine.restore (ratMpd round) dictAsset confs slice = some e') :
    e'.statics.ledger.dictBalance =
      slice.balances.foldl (loadBalance (ratMpd round) dictAsset) ∅ := by
  rw [Engine.restore_eq] at hrestore
  obtain ⟨e₀, hinit, rfl⟩ := Option.map_eq_some_iff.mp hrestore
  have hload : ∀ (rows : List (ℕ × Order ℚ)) (e : Engine ℚ),
      e.statics.ledger.dictBalance = ∅ → e.statics.ledger.dictAsset = dictAsset →
      (rows.foldl (fun e row => e.loadOrder (ratMpd round) row.2) e).statics.ledger.dictBalance = ∅ ∧
        (rows.foldl (fun e row => e.loadOrder (ratMpd round) row.2) e).statics.ledger.dictAsset =
          dictAsset := by
    intro rows
    induction rows with
    | nil => exact fun e h ha => ⟨h, ha⟩
    | cons row rows ih =>
      exact fun e h ha =>
        ih _ (loadOrder_balances row.2 h) ((Engine.loadOrder_dictAsset _ e row.2).trans ha)
  have hempty : e₀.statics.ledger.dictBalance = ∅ ∧ e₀.statics.ledger.dictAsset = dictAsset := by
    rw [Engine.init_statics hinit]
    exact ⟨rfl, rfl⟩
  obtain ⟨hb, ha⟩ := hload (slice.orders.above 0) (e₀.setIds slice.endOrderId slice.endDealsId)
    hempty.1 hempty.2
  simp only [Engine.loadBalances, hb, ha]

variable {column : ℕ → ℚ → ℚ} {dictAsset : Dict String AssetType} {confs : List (MarketConf ℚ)}
  {ok : Engine ℚ → Prop} {entries rows : List (BalanceKey × ℚ)} {operlogIdStart : ℕ}
  {db : SliceDb ℚ} {history : List (ℕ × ℕ × ℕ)}

/-- A restart from a slice: the rows it was written with, and the engine it gives. -/
structure Restarted (round : ℚ → ℚ) (strict : Bool) (dictAsset : Dict String AssetType)
    (d : Dict String (Market ℚ)) (markets : List String) (entries : List (BalanceKey × ℚ)) (e : Engine ℚ)
    (t : Table (Order ℚ)) (rows : List (BalanceKey × ℚ)) (e' : Engine ℚ) : Prop where
  home : ∀ name m, d.find name = some m → m.name = name
  shape : e.Shaped d
  known : ∀ name m, e.dictMarket.find name = some m → name ∈ markets
  filled : Conn.Filled mysqlStore (mysqlAccepts strict) e markets t
  written : Conn.BalanceRows mysqlStore (mysqlAccepts strict) entries rows
  entered : e'.EnteredRows round d e.statics.orderIdStart t.rows
  balances : e'.statics.ledger.dictBalance = rows.foldl (loadBalance (ratMpd round) dictAsset) ∅

theorem restarted {e₀ : Engine ℚ} (hinit : Engine.init (ratMpd round) dictAsset confs = some e₀)
    (hshape : e.Shaped e₀.dictMarket)
    (hdump : (Conn.dumpToDb mysqlStore (mysqlAccepts strict) (fun _ => .ok) true
      (confs.map MarketConf.name) entries operlogIdStart e db).2.db = ⟨some t, some rows, history⟩)
    (hrestore : Engine.restore (ratMpd round) dictAsset confs
      ⟨t, rows, e.statics.orderIdStart, e.statics.dealsIdStart⟩ = some e') :
    Restarted round strict dictAsset e₀.dictMarket (confs.map MarketConf.name) entries
      e t rows e' := by
  have hfound : ∀ name ∈ confs.map MarketConf.name, ∃ m, e.dictMarket.find name = some m := by
    intro name hmem
    obtain ⟨conf, hconf, rfl⟩ := List.mem_map.mp hmem
    obtain ⟨m₀, hm₀⟩ := Engine.init_find hinit hconf
    have hconf' := hshape.conf conf.name
    rw [hm₀] at hconf'
    obtain ⟨m, hm, -⟩ := Option.map_eq_some_iff.mp hconf'
    exact ⟨m, hm⟩
  obtain ⟨t', rows', hdb, hfill, hrows⟩ := Conn.dumpToDb_fill mysqlStore (mysqlAccepts strict) hshape
    hfound entries operlogIdStart db
  rw [hdump] at hdb
  obtain ⟨ht, hrows', -⟩ := SliceDb.mk.inj hdb
  obtain rfl := Option.some.inj ht
  obtain rfl := Option.some.inj hrows'
  have hproper : ∀ r ∈ t.rows, ProperRow r ∧ 0 < r.1 ∧ r.1 ≤ e.statics.orderIdStart := by
    intro r hr
    obtain ⟨name, -, m, side, i, hm, hi, -, rfl⟩ := hfill.rows r hr
    exact hshape.properRow ⟨name, m, side, i, hm, hi, rfl⟩
  refine ⟨fun name m hm => ?_, hshape, fun name m hm => ?_, hfill, hrows,
    (Engine.restore_entered hinit hrestore hproper).1, restore_balances hrestore⟩
  · obtain ⟨conf, -, hconf, hcreate⟩ := (Engine.init_spec hinit).2.2 name m hm
    exact (congrArg MarketConf.name (Engine.marketCreate_spec hcreate).1).trans hconf
  · have hconf := hshape.conf name
    rw [hm] at hconf
    obtain ⟨m₀, hm₀, -⟩ := Option.map_eq_some_iff.mp hconf.symm
    obtain ⟨conf, hmem, rfl, -⟩ := (Engine.init_spec hinit).2.2 name m₀ hm₀
    exact List.mem_map_of_mem hmem

/-- When everything survives a slice but the sources. -/
theorem Restarted.anonymous_iff
    (h : Restarted round strict dictAsset d markets entries e t rows e')
    (hs : Sound dictAsset e.statics.ledger.dictBalance)
    (hentries : Iterates e.statics.ledger.dictBalance entries) :
    Survives Order.anonymous e e' ↔ AllFits round strict e := by
  have hbooks := sameOrders_iff h.home h.shape h.entered h.filled h.known
  have hbalances : rows.foldl (loadBalance (ratMpd round) dictAsset) ∅ = _ ↔ _ :=
    loadRows_eq_iff hs hentries h.written
  rw [← h.balances] at hbalances
  constructor
  · rintro ⟨hm, hb⟩
    have h := hbooks.mp hm
    exact ⟨fun name m hm => (h name m hm).1, fun name m hm => (h name m hm).2, hbalances.mp hb⟩
  · rintro ⟨hbooked, horders, hb⟩
    exact ⟨hbooks.mpr fun name m hm => ⟨hbooked name m hm, horders name m hm⟩, hbalances.mpr hb⟩

/-- An order that comes from a slice has no source. -/
theorem Restarted.source (h : Restarted round strict dictAsset d markets entries e t rows e')
    (hm' : e'.dictMarket.find name = some m') {i : ℕ} (hi : i ∈ m'.orders) :
    (m'.order i).source = none := by
  have hent := h.entered.entered name m' hm'
  obtain ⟨r, hr, rfl, hrname⟩ := (hent.mem i).mp hi
  obtain ⟨name₁, -, m₁, side, j, -, -, -, rfl⟩ := h.filled.rows r hr
  rw [hent.order _ hr hrname]
  rfl

theorem Market.SameOrders.anonymous_iff
    (hsource : ∀ side, ∀ i ∈ m'.book side, (m'.order i).source = none) :
    m.SameOrders id m' ↔
      m.SameOrders Order.anonymous m' ∧ ∀ side, ∀ i ∈ m.book side, (m.order i).source = none := by
  have hview : ∀ o : Order ℚ, o.source = none → o.anonymous = o := by
    intro o ho
    rw [Order.anonymous, ← ho]
  constructor
  · intro h
    have hnone : ∀ side, ∀ i ∈ m.book side, (m.order i).source = none := by
      intro side i hi
      have horder : m'.order i = m.order i := h.order side i hi
      rw [← horder]
      exact hsource side i (h.book side ▸ hi)
    exact ⟨⟨h.book, fun side i hi => (h.order side i hi).trans (hview _ (hnone side i hi)).symm,
      h.users⟩, hnone⟩
  · rintro ⟨h, hnone⟩
    exact ⟨h.book, fun side i hi => (h.order side i hi).trans (hview _ (hnone side i hi)), h.users⟩

/-- **When a slice keeps everything:** when everything fits, and no open order has a source. -/
theorem survives_iff (hr : RoundsDown round)
    (hlife : Engine.Life (ratMpd round) column dictAsset confs ok e)
    (hentries : Iterates e.statics.ledger.dictBalance entries)
    (hdump : (Conn.dumpToDb mysqlStore (mysqlAccepts strict) (fun _ => .ok) true
      (confs.map MarketConf.name) entries operlogIdStart e db).2.db = ⟨some t, some rows, history⟩)
    (hrestore : Engine.restore (ratMpd round) dictAsset confs
      ⟨t, rows, e.statics.orderIdStart, e.statics.dealsIdStart⟩ = some e') :
    Survives id e e' ↔ AllFits round strict e ∧
      ∀ name m, e.dictMarket.find name = some m → ∀ side, ∀ i ∈ m.book side,
        (m.order i).source = none := by
  obtain ⟨e₀, hinit⟩ := hlife.init_isSome
  obtain ⟨hsound, hassets⟩ := hlife.sound hr
  have hs : Sound dictAsset e.statics.ledger.dictBalance := hassets ▸ hsound
  have hrestart := restarted hinit (hlife.shaped hinit) hdump hrestore
  have hlost : ∀ {name m'}, e'.dictMarket.find name = some m' → ∀ side, ∀ i ∈ m'.book side,
      (m'.order i).source = none := fun hm' side i hi =>
    hrestart.source hm' ((hrestart.entered.entered _ _ hm').wf.mem side i hi)
  rw [← hrestart.anonymous_iff hs hentries]
  constructor
  · rintro ⟨hmarkets, hbalances⟩
    have hboth : ∀ name m, e.dictMarket.find name = some m →
        ∃ m', e'.dictMarket.find name = some m' ∧ m.SameOrders Order.anonymous m' ∧
          ∀ side, ∀ i ∈ m.book side, (m.order i).source = none := by
      intro name m hm
      obtain ⟨m', hm', hsame⟩ := hmarkets name m hm
      exact ⟨m', hm', (Market.SameOrders.anonymous_iff (hlost hm')).mp hsame⟩
    refine ⟨⟨fun name m hm => ?_, hbalances⟩, fun name m hm => ?_⟩
    · obtain ⟨m', hm', hsame, -⟩ := hboth name m hm
      exact ⟨m', hm', hsame⟩
    · obtain ⟨m', -, -, hnone⟩ := hboth name m hm
      exact hnone
  · rintro ⟨⟨hmarkets, hbalances⟩, hnone⟩
    refine ⟨fun name m hm => ?_, hbalances⟩
    obtain ⟨m', hm', hsame⟩ := hmarkets name m hm
    exact ⟨m', hm', (Market.SameOrders.anonymous_iff (hlost hm')).mpr ⟨hsame, hnone name m hm⟩⟩

end Survives

/-! ## The source of an order -/

/-- An ask at rest. -/
def askOps : List (Op ℚ) := [deposit 1 "BTC" 1 1, limitOrder 1 .ask 1 1 0 0]

def askEntries : List (BalanceKey × ℚ) := [(⟨1, .freeze, "BTC"⟩, 1)]

/-- The tables a dump makes in the strict mode. -/
def dumpedSlice (entries : List (BalanceKey × ℚ)) (e : Engine ℚ) : SliceDb ℚ :=
  (Conn.dumpToDb mysqlStore (mysqlAccepts true) (fun _ => .ok) true
    (List.map MarketConf.name [exampleConf 8]) entries 0 e ⟨none, none, []⟩).2.db

/-- The engine that is restored from them. -/
def restoredFrom (e : Engine ℚ) (db : SliceDb ℚ) : Option (Engine ℚ) :=
  db.orders.bind fun t => db.balances.bind fun rows =>
    Engine.restore decimal128 exampleAssets [exampleConf 8]
      ⟨t, rows, e.statics.orderIdStart, e.statics.dealsIdStart⟩

/-- What the market has for the source of its first order. -/
def firstSource (e : Engine ℚ) : Option (List ℕ × Option String) :=
  (e.dictMarket.find "BTCCNY").map fun m => (m.asks, (m.order 1).source)

theorem askOps_restored :
    (exampleRun decimal128 8 askOps).any (fun e =>
      decide (Iterates e.statics.ledger.dictBalance askEntries) &&
        decide (firstSource e = some ([1], some "web")) &&
          (restoredFrom e (dumpedSlice askEntries e)).any fun e' =>
            decide (firstSource e' = some ([1], none))) = true := by
  simp only [restoredFrom, Engine.restore_eq]
  decide +kernel

/-- The run, its slice and what it is restored to. -/
theorem askOps_spec :
    ∃ e e' t rows history,
      Engine.Life decimal128 mysqlStore exampleAssets [exampleConf 8] (fun _ => True) e ∧
        Iterates e.statics.ledger.dictBalance askEntries ∧
          dumpedSlice askEntries e = ⟨some t, some rows, history⟩ ∧
            Engine.restore decimal128 exampleAssets [exampleConf 8]
                ⟨t, rows, e.statics.orderIdStart, e.statics.dealsIdStart⟩ = some e' ∧
              firstSource e = some ([1], some "web") ∧ firstSource e' = some ([1], none) := by
  obtain ⟨e, hsome, hcheck⟩ := (Option.any_eq_true _ _).mp askOps_restored
  rw [Bool.and_eq_true, Bool.and_eq_true] at hcheck
  obtain ⟨⟨hi, hsource⟩, hrestored⟩ := hcheck
  obtain ⟨e', he', hsource'⟩ := (Option.any_eq_true _ _).mp hrestored
  obtain ⟨t, ht, he'⟩ := Option.bind_eq_some_iff.mp he'
  obtain ⟨rows, hrows, he'⟩ := Option.bind_eq_some_iff.mp he'
  obtain ⟨e₀, hinit, hrun⟩ := Option.bind_eq_some_iff.mp hsome
  exact ⟨e, e', t, rows, _, (Engine.Life.init hinit).run hrun, of_decide_eq_true hi,
    by rw [← ht, ← hrows], he', of_decide_eq_true hsource, of_decide_eq_true hsource'⟩

/-- **An order forgets its source** in a slice. -/
theorem source_lost :
    ∃ e e' t rows history,
      Engine.Life decimal128 mysqlStore exampleAssets [exampleConf 8] (fun _ => True) e ∧
        Iterates e.statics.ledger.dictBalance askEntries ∧
          dumpedSlice askEntries e = ⟨some t, some rows, history⟩ ∧
            Engine.restore decimal128 exampleAssets [exampleConf 8]
                ⟨t, rows, e.statics.orderIdStart, e.statics.dealsIdStart⟩ = some e' ∧
              ¬ Survives id e e' := by
  obtain ⟨e, e', t, rows, history, hlife, hi, hdump, hrestore, hsource, hsource'⟩ := askOps_spec
  refine ⟨e, e', t, rows, history, hlife, hi, hdump, hrestore, fun hsame => ?_⟩
  obtain ⟨m, hm, hfirst⟩ := Option.map_eq_some_iff.mp hsource
  obtain ⟨m', hm', hfirst'⟩ := Option.map_eq_some_iff.mp hsource'
  obtain ⟨hasks, hweb⟩ := Prod.mk.inj hfirst
  obtain ⟨m₁, hm₁, hmarket⟩ := hsame.markets _ m hm
  obtain rfl := Option.some.inj (hm'.symm.trans hm₁)
  have horder : m'.order 1 = m.order 1 := hmarket.order .ask 1 (by
    change 1 ∈ m.asks
    rw [hasks]
    exact List.mem_singleton_self 1)
  rw [← horder, (Prod.mk.inj hfirst').2] at hweb
  cases hweb

theorem survives_iff_ask :
    ∃ e e', Engine.Life decimal128 mysqlStore exampleAssets [exampleConf 8] (fun _ => True) e ∧
      (Survives id e e' ↔ AllFits (roundDown 34) true e ∧
        ∀ name m, e.dictMarket.find name = some m → ∀ side, ∀ i ∈ m.book side,
          (m.order i).source = none) := by
  obtain ⟨e, e', t, rows, history, hlife, hi, hdump, hrestore, -, -⟩ := askOps_spec
  exact ⟨e, e', hlife, survives_iff roundsDown_roundDown hlife hi hdump hrestore⟩

end ViabtcExchange
