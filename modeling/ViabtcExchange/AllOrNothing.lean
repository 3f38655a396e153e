import ViabtcExchange.Listing
import ViabtcExchange.Runs

/-!
# Listing, all or nothing (`me_config.c`, `me_dump.c`)

`listing_update` frees the arrays of the settings before it reads the first row, and a row that it
cannot read leaves them half written. When it comes to its end the settings are those of the file
and the dictionaries have kept all they had, and `dump_orders` goes by the settings.

**Theorem (`listing_iff`).** `listing_update` is all or nothing exactly if the file is `Harmless`:
it fails before an array is freed, or what it writes is there already, or the file lists all that
the dictionaries have, with their precisions, and no new market.
-/

namespace ViabtcExchange

def MarketRow.prec {D : Type} (row : MarketRow D) : ℤ × ℤ × ℤ :=
  (row.stockPrec, row.moneyPrec, row.feePrec)

def Market.prec {D : Type} (m : Market D) : ℤ × ℤ × ℤ := (m.stockPrec, m.moneyPrec, m.feePrec)

namespace Configured

variable {D : Type} {c c' : Configured D} {decimal : String → Option D} {file : Option Json}
  {rows rows' : List Json} {ret : ℤ}

/-- The settings and the dictionaries describe the same assets and markets. -/
structure Describes (c : Configured D) : Prop where
  assetRow : ∀ row, some row ∈ c.assets → c.assetType row.name = some row.prec
  asset : ∀ name, c.assetType name ≠ none → ∃ row, some row ∈ c.assets ∧ row.name = name
  marketRow : ∀ row, some row ∈ c.markets →
    ∃ m, c.getMarket row.name = some (.created m) ∧ m.prec = row.prec
  market : ∀ name, c.getMarket name ≠ none → ∃ row, some row ∈ c.markets ∧ row.name = name
  written : none ∉ c.assets ∧ none ∉ c.markets

/-- The names `dump_orders` goes through. -/
def listedMarkets (c : Configured D) : List String :=
  c.markets.filterMap fun row => row.map MarketRow.name

/-- What has open orders or balances is listed. -/
structure StillListed (c c' : Configured D) : Prop where
  orders : ∀ name m, c.getMarket name = some (.created m) → m.orders.Nonempty →
    name ∈ c'.listedMarkets
  balances : ∀ k ∈ c.engine.statics.ledger.dictBalance.keys,
    ∃ row, some row ∈ c'.assets ∧ row.name = k.asset
  dumped : ∀ column, dumpOrders column c'.engine.dictMarket c'.listedMarkets .empty ≠ none

/-- `listing_update` returns `ret` and leaves `c'`. -/
structure AllOrNothing (c : Configured D) (ret : ℤ) (c' : Configured D) : Prop where
  nothing : ret < 0 → c'.assets = c.assets ∧ c'.markets = c.markets ∧
    (∀ name, c'.assetType name = c.assetType name) ∧ ∀ name, c'.getMarket name = c.getMarket name
  all : 0 ≤ ret → c'.Describes ∧ c.StillListed c'

/-! ## The condition -/

/-- The rows that are read of the assets are those of the settings, and have known names. -/
def AssetsStay (c : Configured D) (rows : List Json) : Prop :=
  arrayOf rows.length (rowsRead readAsset rows) = c.assets ∧
    ∀ row ∈ rowsRead readAsset rows, c.assetType row.name ≠ none

def MarketsStay (decimal : String → Option D) (c : Configured D) (rows : List Json) : Prop :=
  arrayOf rows.length (rowsRead (readMarket decimal) rows) = c.markets ∧
    ∀ row ∈ rowsRead (readMarket decimal) rows, c.getMarket row.name ≠ none

/-- The rows list all that is there, with its precisions, and no new market. -/
structure Complete (c : Configured D) (as : List AssetRow) (ms : List (MarketRow D)) : Prop where
  assetRow : ∀ row ∈ as, ∀ prec, c.assetType row.name = some prec → prec = row.prec
  assetRows : ∀ row ∈ as, ∀ row' ∈ as, row.name = row'.name → row.prec = row'.prec
  asset : ∀ name, c.assetType name ≠ none → ∃ row ∈ as, row.name = name
  marketRow : ∀ row ∈ ms, ∃ m, c.getMarket row.name = some (.created m) ∧ m.prec = row.prec
  market : ∀ name, c.getMarket name ≠ none → ∃ row ∈ ms, row.name = name
  balance : ∀ k ∈ c.engine.statics.ledger.dictBalance.keys, ∃ row ∈ as, row.name = k.asset

/-- A file that `listing_update` can take all or nothing of. -/
def Harmless (decimal : String → Option D) (c : Configured D) (file : Option Json) : Prop :=
  match fileRows file "assets" with
  | none => True
  | some rows =>
    if AllRead readAsset rows then
      match fileRows file "markets" with
      | none => c.AssetsStay rows
      | some rows' =>
        if AllRead (readMarket decimal) rows' then
          c.Complete (rowsRead readAsset rows) (rowsRead (readMarket decimal) rows')
        else c.AssetsStay rows ∧ c.MarketsStay decimal rows'
    else c.AssetsStay rows

/-! ## Nothing -/

/-- Nothing is added exactly if all names are known. -/
theorem or_find_eq_iff {α β : Type} {find : String → Option β} {name : α → String} (val : α → β)
    {as : List α} :
    (∀ k, (find k).or ((as.find? fun a => k = name a).map val) = find k) ↔
      ∀ a ∈ as, find (name a) ≠ none := by
  constructor
  · intro h a ha hnone
    have hadded := h (name a)
    rw [hnone, Option.none_or, Option.map_eq_none_iff, List.find?_eq_none] at hadded
    exact hadded a ha (by simp)
  · intro h k
    cases hk : find k with
    | some b => rfl
    | none =>
      rw [Option.none_or, Option.map_eq_none_iff, List.find?_eq_none]
      intro a ha hname
      exact h a ha (by rw [← of_decide_eq_true hname, hk])

/-- A name that is new comes from a row. -/
theorem exists_row_of_added {α β : Type} {old : Option β} {name : α → String} {val : α → β}
    {as : List α} {k : String} (hold : old = none)
    (h : old.or ((as.find? fun a => k = name a).map val) ≠ none) : ∃ a ∈ as, name a = k := by
  rw [hold, Option.none_or] at h
  cases hfind : as.find? fun a => k = name a with
  | none =>
    rw [hfind] at h
    exact absurd rfl h
  | some a =>
    have hname : k = name a := by simpa using List.find?_some hfind
    exact ⟨a, List.mem_of_find?_eq_some hfind, hname.symm⟩

theorem AssetsLoaded.stay_iff (h : AssetsLoaded c rows c') :
    (c'.assets = c.assets ∧ ∀ name, c'.assetType name = c.assetType name) ↔ c.AssetsStay rows := by
  unfold AssetsStay
  rw [h.assets, ← or_find_eq_iff AssetRow.prec]
  simp only [h.assetType]

theorem MarketsLoaded.stay_iff {c₁ : Configured D} (h : MarketsLoaded decimal c₁ rows c')
    (hsame : ∀ name, c₁.getMarket name = c.getMarket name) :
    (c'.markets = c.markets ∧ ∀ name, c'.getMarket name = c.getMarket name) ↔
      c.MarketsStay decimal rows := by
  unfold MarketsStay
  rw [h.markets, ← or_find_eq_iff fun _ => Slot.stack]
  simp only [h.getMarket, hsame]

theorem allOrNothing_neg_iff :
    AllOrNothing c (-1) c' ↔ c'.assets = c.assets ∧ c'.markets = c.markets ∧
      (∀ name, c'.assetType name = c.assetType name) ∧
        ∀ name, c'.getMarket name = c.getMarket name :=
  ⟨fun h => h.nothing (by norm_num), fun h => ⟨fun _ => h, fun h0 => absurd h0 (by norm_num)⟩⟩

/-! ## All -/

theorem arrayOf_allRead {α : Type} {read : Json → Option α} (h : AllRead read rows) :
    arrayOf rows.length (rowsRead read rows) = (rowsRead read rows).map some := by
  rw [arrayOf, (length_rowsRead_iff read rows).mpr h, Nat.sub_self, List.replicate_zero,
    List.append_nil]

/-- The state with the rows `as` and `ms` in the settings and in the dictionaries. -/
structure Took (c : Configured D) (as : List AssetRow) (ms : List (MarketRow D))
    (c' : Configured D) : Prop extends Extends c c' where
  assets : c'.assets = as.map some
  markets : c'.markets = ms.map some
  assetType : ∀ k, c'.assetType k =
    (c.assetType k).or ((as.find? fun row => k = row.name).map AssetRow.prec)
  getMarket : ∀ k, c'.getMarket k =
    (c.getMarket k).or ((ms.find? fun row => k = row.name).map fun _ => .stack)

theorem took_of_loaded {c₁ : Configured D} (h : AssetsLoaded c rows c₁)
    (hread : AllRead readAsset rows) (h' : MarketsLoaded decimal c₁ rows' c')
    (hread' : AllRead (readMarket decimal) rows') :
    Took c (rowsRead readAsset rows) (rowsRead (readMarket decimal) rows') c' := by
  refine ⟨h.toExtends.trans h'.toExtends, ?_, ?_, fun k => ?_, fun k => ?_⟩
  · rw [h'.assets, h.assets, arrayOf_allRead hread]
  · rw [h'.markets, arrayOf_allRead hread']
  · rw [h'.assetType, h.assetType]
  · rw [h'.getMarket, h.getMarket]

section Took

variable {as : List AssetRow} {ms : List (MarketRow D)}

theorem Took.mem_assets (h : Took c as ms c') {row : AssetRow} :
    some row ∈ c'.assets ↔ row ∈ as := by
  simp [h.assets]

theorem Took.mem_markets (h : Took c as ms c') {row : MarketRow D} :
    some row ∈ c'.markets ↔ row ∈ ms := by
  simp [h.markets]

theorem Took.mem_listed (h : Took c as ms c') {name : String} :
    name ∈ c'.listedMarkets ↔ ∃ row ∈ ms, row.name = name := by
  simp [listedMarkets, h.markets]

theorem Took.complete (h : Took c as ms c') (hdesc : c'.Describes) (hlisted : c.StillListed c') :
    c.Complete as ms := by
  have hrow : ∀ row ∈ as, c'.assetType row.name = some row.prec := fun row hmem =>
    hdesc.assetRow row (h.mem_assets.mpr hmem)
  refine ⟨fun row hmem prec hprec => ?_, fun row hmem row' hmem' hname => ?_, fun name hname => ?_,
    fun row hmem => ?_, fun name hname => ?_, fun k hk => ?_⟩
  · have hold := h.assetType row.name
    rw [hprec, Option.some_or, hrow row hmem] at hold
    exact (Option.some.inj hold).symm
  · have hfirst := hrow row hmem
    rw [hname, hrow row' hmem'] at hfirst
    exact (Option.some.inj hfirst).symm
  · obtain ⟨row, hmem, hname⟩ := hdesc.asset name (by
      rw [h.assetType]
      exact fun hnone => hname (Option.or_eq_none_iff.mp hnone).1)
    exact ⟨row, h.mem_assets.mp hmem, hname⟩
  · obtain ⟨m, hm, hprec⟩ := hdesc.marketRow row (h.mem_markets.mpr hmem)
    rw [h.getMarket] at hm
    cases hold : c.getMarket row.name with
    | some slot =>
      rw [hold, Option.some_or] at hm
      exact ⟨m, hm, hprec⟩
    | none =>
      rw [hold, Option.none_or] at hm
      obtain ⟨_, -, hslot⟩ := Option.map_eq_some_iff.mp hm
      cases hslot
  · obtain ⟨row, hmem, hname⟩ := hdesc.market name (by
      rw [h.getMarket]
      exact fun hnone => hname (Option.or_eq_none_iff.mp hnone).1)
    exact ⟨row, h.mem_markets.mp hmem, hname⟩
  · obtain ⟨row, hmem, hname⟩ := hlisted.balances k hk
    exact ⟨row, h.mem_assets.mp hmem, hname⟩

theorem Took.describes (h : Took c as ms c') (hall : c.Complete as ms) : c'.Describes := by
  refine ⟨fun row hmem => ?_, fun name hname => ?_, fun row hmem => ?_, fun name hname => ?_, ?_⟩
  · rw [h.mem_assets] at hmem
    rw [h.assetType]
    cases hold : c.assetType row.name with
    | some prec => rw [Option.some_or, hall.assetRow row hmem prec hold]
    | none =>
      rw [Option.none_or]
      cases hfind : as.find? fun row' => row.name = row'.name with
      | none =>
        rw [List.find?_eq_none] at hfind
        exact absurd (by simp) (hfind row hmem)
      | some row' =>
        have hname : row.name = row'.name := by simpa using List.find?_some hfind
        rw [Option.map_some, hall.assetRows row hmem row' (List.mem_of_find?_eq_some hfind) hname]
  · rw [h.assetType] at hname
    have hrow : ∃ row ∈ as, row.name = name := by
      by_cases hold : c.assetType name = none
      · exact exists_row_of_added hold hname
      · exact hall.asset name hold
    obtain ⟨row, hmem, hrow⟩ := hrow
    exact ⟨row, h.mem_assets.mpr hmem, hrow⟩
  · obtain ⟨m, hm, hprec⟩ := hall.marketRow row (h.mem_markets.mp hmem)
    refine ⟨m, ?_, hprec⟩
    rw [h.getMarket, hm, Option.some_or]
  · rw [h.getMarket] at hname
    have hrow : ∃ row ∈ ms, row.name = name := by
      by_cases hold : c.getMarket name = none
      · exact exists_row_of_added hold hname
      · exact hall.market name hold
    obtain ⟨row, hmem, hrow⟩ := hrow
    exact ⟨row, h.mem_markets.mpr hmem, hrow⟩
  · simp [h.assets, h.markets]

/-- `dump_orders` comes to its end where it finds every market. -/
theorem dumpOrders_ne_none {column : ℕ → D → D} {dictMarket : Dict String (Market D)}
    {names : List String} (h : ∀ name ∈ names, dictMarket.find name ≠ none) (t : Table (Order D)) :
    dumpOrders column dictMarket names t ≠ none := by
  induction names generalizing t with
  | nil => exact Option.some_ne_none t
  | cons name names ih =>
    obtain ⟨hname, hnames⟩ := List.forall_mem_cons.mp h
    unfold dumpOrders
    cases hfind : dictMarket.find name with
    | none => exact absurd hfind hname
    | some m => exact ih hnames _

theorem Took.stillListed (h : Took c as ms c') (hall : c.Complete as ms) : c.StillListed c' := by
  refine ⟨fun name m hm _ => ?_, fun k hk => ?_,
    fun column => dumpOrders_ne_none (fun name hname => ?_) _⟩
  · exact h.mem_listed.mpr (hall.market name (by rw [hm]; exact Option.some_ne_none _))
  · obtain ⟨row, hmem, hname⟩ := hall.balance k hk
    exact ⟨row, h.mem_assets.mpr hmem, hname⟩
  · obtain ⟨row, hmem, rfl⟩ := h.mem_listed.mp hname
    obtain ⟨m, hm, -⟩ := hall.marketRow row hmem
    rw [h.dictMarket, find_of_created hm]
    exact Option.some_ne_none m

end Took

theorem Updated.allOrNothing_iff (h : Updated decimal c file ret c') :
    AllOrNothing c ret c' ↔ c.Harmless decimal file := by
  unfold Harmless
  cases h with
  | unread hrows =>
    rw [hrows, allOrNothing_neg_iff]
    simp
  | badAsset hrows hload hread =>
    rw [hrows, allOrNothing_neg_iff]
    simp only [if_neg hread, ← hload.stay_iff, hload.markets, hload.getMarket]
    tauto
  | noMarkets hrows hload hread hrows' =>
    rw [hrows, hrows', allOrNothing_neg_iff]
    simp only [if_pos hread, ← hload.stay_iff, hload.markets, hload.getMarket]
    tauto
  | badMarket hrows hload hread hrows' hload' hread' =>
    rw [hrows, hrows', allOrNothing_neg_iff]
    simp only [if_pos hread, if_neg hread', ← hload.stay_iff, ← hload'.stay_iff hload.getMarket,
      hload'.assets, hload'.assetType]
    tauto
  | done hrows hload hread hrows' hload' hread' hret =>
    have htook := took_of_loaded hload hread hload' hread'
    rw [hrows, hrows']
    simp only [if_pos hread, if_pos hread']
    constructor
    · intro h
      obtain ⟨hdesc, hlisted⟩ := h.all hret
      exact htook.complete hdesc hlisted
    · intro hall
      exact ⟨fun hneg => absurd hret (not_le.mpr hneg),
        fun _ => ⟨htook.describes hall, htook.stillListed hall⟩⟩

/-- **`listing_update` is all or nothing exactly if the file is harmless.** -/
theorem listing_iff (decimal : String → Option D) (c : Configured D) (file : Option Json) :
    AllOrNothing c (c.listingUpdate decimal file).1 (c.listingUpdate decimal file).2 ↔
      c.Harmless decimal file :=
  (listingUpdate_updated decimal c file).allOrNothing_iff

end Configured

/-! ## A file without a market -/

/-- The two assets of `exampleAssets`, and no markets. -/
def noMarketsFile : Json :=
  .object [("assets", .array [.object [("name", .string "BTC"), ("prec_save", .integer 20),
      ("prec_show", .integer 8)], .object [("name", .string "CNY"), ("prec_save", .integer 20),
      ("prec_show", .integer 8)]]), ("markets", .array [])]

/-- An engine with the settings of `exampleConf 8`. -/
def exampleConfigured (e : Engine ℚ) : Configured ℚ where
  engine := e
  oddAssets := ∅
  strays := ∅
  assets := [some ⟨"BTC", 20, 8⟩, some ⟨"CNY", 20, 8⟩]
  markets := [some ⟨"BTCCNY", "BTC", "CNY", 4, 8, 8, 1 / 1000⟩]

/-- The file is taken, and the market with the open ask is not dumped any more. -/
theorem market_dropped :
    ∃ e m, exampleRun decimal128 8 [deposit 2 "BTC" 1 5, limitOrder 2 .ask 5 1 0 0] = some e ∧
      (exampleConfigured e).getMarket "BTCCNY" = some (.created m) ∧ m.asks = [1] ∧
      ((exampleConfigured e).listingUpdate decimal128.setString (some noMarketsFile)).1 = 0 ∧
      ((exampleConfigured e).listingUpdate decimal128.setString
        (some noMarketsFile)).2.listedMarkets = [] ∧
      ¬Configured.AllOrNothing (exampleConfigured e)
        ((exampleConfigured e).listingUpdate decimal128.setString (some noMarketsFile)).1
        ((exampleConfigured e).listingUpdate decimal128.setString (some noMarketsFile)).2 := by
  have hcheck : (exampleRun decimal128 8 [deposit 2 "BTC" 1 5, limitOrder 2 .ask 5 1 0 0]).any (fun e =>
      decide (((exampleConfigured e).listingUpdate decimal128.setString (some noMarketsFile)).1 =
        0 ∧ ((exampleConfigured e).listingUpdate decimal128.setString
          (some noMarketsFile)).2.listedMarkets = []) &&
        (e.dictMarket.find "BTCCNY").any fun m => decide (m.asks = [1] ∧ m.orders = {1})) = true := by
    decide +kernel
  obtain ⟨e, hrun, hcheck⟩ := (Option.any_eq_true _ _).mp hcheck
  obtain ⟨hlisted, hcheck⟩ := Bool.and_eq_true_iff.mp hcheck
  obtain ⟨hret, hnames⟩ := of_decide_eq_true hlisted
  obtain ⟨m, hm, hcheck⟩ := (Option.any_eq_true _ _).mp hcheck
  obtain ⟨hasks, horders⟩ := of_decide_eq_true hcheck
  have hmarket : (exampleConfigured e).getMarket "BTCCNY" = some (.created m) := by
    rw [Configured.getMarket, show (exampleConfigured e).engine = e from rfl, hm]
  refine ⟨e, m, hrun, hmarket, hasks, hret, hnames, fun hall => ?_⟩
  obtain ⟨-, hstill⟩ := hall.all hret.ge
  have hmem := hstill.orders "BTCCNY" m hmarket (by simp [horders])
  rw [hnames] at hmem
  cases hmem

end ViabtcExchange
