import ViabtcExchange.Load

/-!
# Listing (`me_config.c`, `me_balance.c`, `me_trade.c`)

`listing_update` reads the configuration file again while the engine runs. For the assets, and then
for the markets, it frees the array of the settings and allocates a new one, and goes through the
rows of the file: what has a new name is added to the dictionary, and the row is written into the
array. A row that cannot be read ends it there.

`dict_asset` copies what is added to it. `dict_market` does not: what is added to it is the address
of a variable of the loop (`Slot.stack`), not a market that `market_create` has made. What is read
through that address is nothing the model could say.

A negative `-__LINE__` is -1 here, and memory does not run out.
-/

namespace ViabtcExchange

variable {D : Type}

/-! ## Reading the file (`ut_config.c`) -/

/-- `read_cfg_str` without a default. -/
def readCfgStr (root : Json) (key : String) : Option String :=
  match root.get key with
  | some (.string str) => some str
  | _ => none

def readCfgInt (root : Json) (key : String) (required : Bool) (defaultVal : ℤ) : Option ℤ :=
  match root.get key with
  | none => if required then none else some defaultVal
  | some (.integer n) => some (toInt32 n)
  | some _ => none

/-- `decimal` is `decimal(str, 0)`. -/
def readCfgMpd (decimal : String → Option D) (root : Json) (key defaultVal : String) : Option D :=
  match root.get key with
  | none => decimal defaultVal
  | some (.string str) => decimal str
  | some _ => none

/-- `struct asset`. -/
structure AssetRow where
  name : String
  precSave : ℤ
  precShow : ℤ
deriving DecidableEq

def AssetRow.prec (row : AssetRow) : ℤ × ℤ := (row.precSave, row.precShow)

/-- `struct market`. -/
structure MarketRow (D : Type) where
  name : String
  stock : String
  money : String
  feePrec : ℤ
  stockPrec : ℤ
  moneyPrec : ℤ
  minAmount : D

/-- `ASSET_NAME_MAX_LEN`. -/
def assetNameMaxLen : ℕ := 15

/-- What `load_assets_listing` reads of a row. -/
def readAsset : Json → Option AssetRow
  | .object kvs => do
    let row := Json.object kvs
    let name ← readCfgStr row "name"
    let precSave ← readCfgInt row "prec_save" true 0
    let precShow ← readCfgInt row "prec_show" false precSave
    if name.utf8ByteSize > assetNameMaxLen then none else some ⟨name, precSave, precShow⟩
  | _ => none

/-- The objects `stock` and `money` of a row. -/
def readSide (row : Json) (key : String) : Option (String × ℤ) :=
  match row.get key with
  | some (.object kvs) => do
    let name ← readCfgStr (.object kvs) "name"
    let prec ← readCfgInt (.object kvs) "prec" true 0
    return (name, prec)
  | _ => none

/-- What `load_markets_listing` reads of a row. -/
def readMarket (decimal : String → Option D) : Json → Option (MarketRow D)
  | .object kvs => do
    let row := Json.object kvs
    let name ← readCfgStr row "name"
    let feePrec ← readCfgInt row "fee_prec" false 4
    let minAmount ← readCfgMpd decimal row "min_amount" "0.01"
    let (stock, stockPrec) ← readSide row "stock"
    let (money, moneyPrec) ← readSide row "money"
    return ⟨name, stock, money, feePrec, stockPrec, moneyPrec, minAmount⟩
  | _ => none

/-! ## The loaders -/

/-- The loop of `load_assets_listing` and `load_markets_listing`, over the rows from `i` on. -/
def loadRows {σ α : Type} (read : Json → Option α) (dictAdd : σ → α → Bool × σ) :
    List Json → ℕ → ℤ → List (Option α) → σ → ℤ × List (Option α) × σ
  | [], _, count, array, s => (count, array, s)
  | row :: rows, i, count, array, s =>
    match read row with
    | none => (-1, array, s)
    | some a =>
      let (added, s) := dictAdd s a
      loadRows read dictAdd rows (i + 1) (if added then count + 1 else count) (array.set i (some a)) s

/-- The engine with the part of its settings that `listing_update` writes. -/
structure Configured (D : Type) where
  engine : Engine D
  /-- The entries of `dict_asset` with a negative precision; the others are in the ledger. -/
  oddAssets : Dict String (ℤ × ℤ)
  /-- The names `load_markets_listing` has added to `dict_market`. -/
  strays : Finset String
  /-- `settings.assets`; what is not written yet is `none`. -/
  assets : List (Option AssetRow)
  markets : List (Option (MarketRow D))

/-- What an entry of `dict_market` points to. -/
inductive Slot (D : Type)
  | created (m : Market D)
  | stack

namespace Configured

/-- `get_asset_type`. -/
def assetType (c : Configured D) (name : String) : Option (ℤ × ℤ) :=
  match c.engine.statics.ledger.dictAsset.find name with
  | some ty => some (ty.precSave, ty.precShow)
  | none => c.oddAssets.find name

def getMarket (c : Configured D) (name : String) : Option (Slot D) :=
  match c.engine.dictMarket.find name with
  | some m => some (.created m)
  | none => if name ∈ c.strays then some .stack else none

theorem find_of_created {c : Configured D} {name : String} {m : Market D}
    (h : c.getMarket name = some (.created m)) : c.engine.dictMarket.find name = some m := by
  unfold getMarket at h
  split at h
  · rename_i hfind
    rw [hfind]
    cases h
    rfl
  · split_ifs at h
    cases h

/-- A new entry of `dict_asset`. -/
def insertAsset (c : Configured D) (name : String) (prec : ℤ × ℤ) : Configured D :=
  let ledger := c.engine.statics.ledger
  if 0 ≤ prec.1 ∧ 0 ≤ prec.2 then
    { c with
      engine :=
        { c.engine with
          statics :=
            { c.engine.statics with
              ledger :=
                { ledger with
                  dictAsset := ledger.dictAsset.insert name ⟨prec.1.toNat, prec.2.toNat⟩ } } } }
  else { c with oddAssets := c.oddAssets.insert name prec }

/-- `dict_add(dict_asset, name, &type)`. -/
def addAsset (c : Configured D) (row : AssetRow) : Bool × Configured D :=
  match c.assetType row.name with
  | some _ => (false, c)
  | none => (true, c.insertAsset row.name row.prec)

/-- `dict_add(dict_market, _market.name, &_market)`. -/
def addMarket (c : Configured D) (row : MarketRow D) : Bool × Configured D :=
  match c.getMarket row.name with
  | some _ => (false, c)
  | none => (true, { c with strays := insert row.name c.strays })

def loadAssetsListing (c : Configured D) (root : Json) (key : String) : ℤ × Configured D :=
  match root.get key with
  | some (.array rows) =>
    let (ret, assets, c) := loadRows readAsset addAsset rows 0 0 (List.replicate rows.length none) c
    (ret, { c with assets := assets })
  | _ => (-1, c)

variable (decimal : String → Option D)

def loadMarketsListing (c : Configured D) (root : Json) (key : String) : ℤ × Configured D :=
  match root.get key with
  | some (.array rows) =>
    let (ret, markets, c) :=
      loadRows (readMarket decimal) addMarket rows 0 0 (List.replicate rows.length none) c
    (ret, { c with markets := markets })
  | _ => (-1, c)

/-- What `json_load_file` gives of the file. -/
def listingUpdate (c : Configured D) (file : Option Json) : ℤ × Configured D :=
  match file with
  | some (.object kvs) =>
    let root := Json.object kvs
    let (ret, c) := c.loadAssetsListing root "assets"
    if ret < 0 then (-1, c)
    else
      let (ret', c) := c.loadMarketsListing decimal root "markets"
      if ret' < 0 then (-1, c) else (ret + ret', c)
  | _ => (-1, c)

end Configured

/-! ## What the loop makes of the rows -/

section Rows

variable {σ α β : Type} {read : Json → Option α} {dictAdd : σ → α → Bool × σ}

/-- The rows up to the first one that cannot be read. -/
def rowsRead (read : Json → Option α) : List Json → List α
  | [] => []
  | row :: rows =>
    match read row with
    | none => []
    | some a => a :: rowsRead read rows

def AllRead (read : Json → Option α) (rows : List Json) : Prop := ∀ row ∈ rows, read row ≠ none

instance (read : Json → Option α) (rows : List Json) : Decidable (AllRead read rows) :=
  decidable_of_iff (∀ row ∈ rows, (read row).isSome = true) (by simp [AllRead, Option.isSome_iff_ne_none])

/-- An array of `n` with the first entries written. -/
def arrayOf (n : ℕ) (as : List α) : List (Option α) :=
  as.map some ++ List.replicate (n - as.length) none

theorem length_rowsRead_iff (read : Json → Option α) (rows : List Json) :
    (rowsRead read rows).length = rows.length ↔ AllRead read rows := by
  unfold AllRead
  induction rows with
  | nil => simp [rowsRead]
  | cons row rows ih =>
    unfold rowsRead
    cases hrow : read row with
    | none => simp [hrow]
    | some a => simp [hrow, ih]

variable (read dictAdd) in
theorem loadRows_dict (rows : List Json) (i : ℕ) (count : ℤ) (array : List (Option α)) (s : σ) :
    (loadRows read dictAdd rows i count array s).2.2 =
      (rowsRead read rows).foldl (fun s a => (dictAdd s a).2) s := by
  induction rows generalizing i count array s with
  | nil => rfl
  | cons row rows ih =>
    unfold loadRows rowsRead
    cases read row with
    | none => rfl
    | some a => exact ih _ _ _ _

variable (read dictAdd) in
theorem loadRows_array (rows : List Json) (written : List (Option α)) (count : ℤ) (s : σ) :
    (loadRows read dictAdd rows written.length count (written ++ List.replicate rows.length none)
      s).2.1 = written ++ arrayOf rows.length (rowsRead read rows) := by
  induction rows generalizing written count s with
  | nil => rfl
  | cons row rows ih =>
    unfold loadRows rowsRead
    cases read row with
    | none => rfl
    | some a =>
      have hset : (written ++ List.replicate (row :: rows).length none).set
          written.length (some a) = (written ++ [some a]) ++ List.replicate rows.length none := by
        rw [List.set_append_right _ _ le_rfl, Nat.sub_self, List.length_cons, List.replicate_succ,
          List.set_cons_zero, List.append_assoc, List.singleton_append]
      have hnext := ih (written ++ [some a]) (if (dictAdd s a).1 then count + 1 else count)
        (dictAdd s a).2
      rw [List.length_append, List.length_singleton] at hnext
      dsimp only
      rw [hset, hnext, List.append_assoc]
      simp [arrayOf]

variable (read dictAdd) in
/-- The loop fails where a row cannot be read. -/
theorem loadRows_ret (rows : List Json) (i : ℕ) {count : ℤ} (hcount : 0 ≤ count)
    (array : List (Option α)) (s : σ) :
    (loadRows read dictAdd rows i count array s).1 < 0 ↔ ¬AllRead read rows := by
  rw [← length_rowsRead_iff]
  induction rows generalizing i count array s with
  | nil => simpa [loadRows, rowsRead] using hcount
  | cons row rows ih =>
    unfold loadRows rowsRead
    cases read row with
    | none => simp
    | some a =>
      have hnext : 0 ≤ if (dictAdd s a).1 then count + 1 else count := by
        split_ifs <;> omega
      rw [List.length_cons, List.length_cons, Nat.succ_inj]
      exact ih (i + 1) hnext _ _

/-- What names mean after the rows have been added: the first of a name that was not there
counts. -/
theorem find_added {name : α → String} {val : α → β} (find : σ → String → Option β)
    (hadd : ∀ s a k, find (dictAdd s a).2 k =
      (find s k).or (if k = name a then some (val a) else none)) (as :
      List α) (s : σ) (k : String) :
    find (as.foldl (fun s a => (dictAdd s a).2) s) k =
      (find s k).or ((as.find? fun a => k = name a).map val) := by
  induction as generalizing s with
  | nil => simp
  | cons a as ih =>
    rw [List.foldl_cons, ih, hadd, Option.or_assoc, List.find?_cons]
    by_cases hk : k = name a
    · simp [hk]
    · simp [hk]

end Rows

/-! ## What a loader leaves -/

namespace Configured

variable {c c' c'' : Configured D} {decimal : String → Option D}

/-- The engine goes on with what it has, and may know more assets. -/
structure Extends (c c' : Configured D) : Prop where
  dictMarket : c'.engine.dictMarket = c.engine.dictMarket
  orderIdStart : c'.engine.statics.orderIdStart = c.engine.statics.orderIdStart
  dictBalance : c'.engine.statics.ledger.dictBalance = c.engine.statics.ledger.dictBalance
  dictAsset : ∀ name ty, c.engine.statics.ledger.dictAsset.find name = some ty →
    c'.engine.statics.ledger.dictAsset.find name = some ty

theorem Extends.refl (c : Configured D) : Extends c c := ⟨rfl, rfl, rfl, fun _ _ h => h⟩

theorem Extends.trans (h : Extends c c') (h' : Extends c' c'') : Extends c c'' :=
  ⟨h'.dictMarket.trans h.dictMarket, h'.orderIdStart.trans h.orderIdStart,
    h'.dictBalance.trans h.dictBalance,
      fun name ty hty => h'.dictAsset name ty (h.dictAsset name ty hty)⟩

theorem extends_foldl {α : Type} {f : Configured D → α → Configured D}
    (hf : ∀ c a, Extends c (f c a)) (as : List α) (c : Configured D) :
    Extends c (as.foldl f c) := by
  induction as generalizing c with
  | nil => exact Extends.refl c
  | cons a as ih => exact (hf c a).trans (ih (f c a))

theorem extends_addAsset (c : Configured D) (row : AssetRow) : Extends c (c.addAsset row).2 := by
  unfold addAsset
  cases hrow : c.assetType row.name with
  | some _ => exact Extends.refl c
  | none =>
    dsimp only
    unfold insertAsset
    split_ifs
    · refine ⟨rfl, rfl, rfl, fun name ty hty => ?_⟩
      dsimp only
      rw [Dict.find_insert, if_neg, hty]
      rintro rfl
      simp [assetType, hty] at hrow
    · exact ⟨rfl, rfl, rfl, fun _ _ h => h⟩

theorem extends_addMarket (c : Configured D) (row : MarketRow D) :
    Extends c (c.addMarket row).2 := by
  unfold addMarket
  cases c.getMarket row.name with
  | some _ => exact Extends.refl c
  | none => exact ⟨rfl, rfl, rfl, fun _ _ h => h⟩

theorem assetType_addAsset (c : Configured D) (row : AssetRow) (k : String) :
    (c.addAsset row).2.assetType k =
      (c.assetType k).or (if k = row.name then some row.prec else none) := by
  unfold addAsset
  cases hrow : c.assetType row.name with
  | some p =>
    dsimp only
    by_cases hk : k = row.name
    · rw [hk, hrow, Option.some_or]
    · rw [if_neg hk, Option.or_none]
  | none =>
    dsimp only
    have hledger : c.engine.statics.ledger.dictAsset.find row.name = none := by
      unfold assetType at hrow
      cases hfind : c.engine.statics.ledger.dictAsset.find row.name with
      | none => rfl
      | some ty => simp [hfind] at hrow
    unfold insertAsset
    by_cases hk : k = row.name
    · rw [hk, hrow, if_pos rfl, Option.none_or]
      split_ifs with hprec
      · simpa [assetType, Dict.find_insert, AssetRow.prec] using hprec
      · simp [assetType, hledger, Dict.find_insert, AssetRow.prec]
    · rw [if_neg hk, Option.or_none]
      split_ifs
      · simp [assetType, Dict.find_insert, hk]
      · simp [assetType, Dict.find_insert, hk]

theorem getMarket_addMarket (c : Configured D) (row : MarketRow D) (k : String) :
    (c.addMarket row).2.getMarket k =
      (c.getMarket k).or (if k = row.name then some .stack else none) := by
  unfold addMarket
  cases hrow : c.getMarket row.name with
  | some slot =>
    dsimp only
    by_cases hk : k = row.name
    · rw [hk, hrow, Option.some_or]
    · rw [if_neg hk, Option.or_none]
  | none =>
    unfold getMarket at hrow ⊢
    dsimp only
    cases hfind : c.engine.dictMarket.find k with
    | some m => rfl
    | none =>
      by_cases hk : k = row.name
      · subst hk
        rw [hfind] at hrow
        simp only [ite_eq_right_iff, reduceCtorEq] at hrow
        rw [if_pos (Finset.mem_insert_self _ _), if_pos rfl, if_neg hrow, Option.none_or]
      · simp [hk]

theorem assetType_addMarket (c : Configured D) (row : MarketRow D) (k : String) :
    (c.addMarket row).2.assetType k = c.assetType k := by
  unfold addMarket
  cases c.getMarket row.name <;> rfl

/-- What a new entry keeps, another asset keeps. -/
theorem kept_addAsset {α : Type} (f : Configured D → α) {c : Configured D} {row : AssetRow}
    (h : ∀ name prec, f (c.insertAsset name prec) = f c) : f (c.addAsset row).2 = f c := by
  unfold addAsset
  cases c.assetType row.name with
  | some _ => rfl
  | none => exact h row.name _

theorem getMarket_addAsset (c : Configured D) (row : AssetRow) (k : String) :
    (c.addAsset row).2.getMarket k = c.getMarket k := by
  apply kept_addAsset fun c => c.getMarket k
  intro name prec
  unfold insertAsset
  split_ifs <;> rfl

theorem markets_addAsset (c : Configured D) (row : AssetRow) :
    (c.addAsset row).2.markets = c.markets := by
  apply kept_addAsset markets
  intro name prec
  unfold insertAsset
  split_ifs <;> rfl

theorem assets_addMarket (c : Configured D) (row : MarketRow D) :
    (c.addMarket row).2.assets = c.assets := by
  unfold addMarket
  cases c.getMarket row.name <;> rfl

theorem strays_addAsset (c : Configured D) (row : AssetRow) :
    (c.addAsset row).2.strays = c.strays := by
  apply kept_addAsset strays
  intro name prec
  unfold insertAsset
  split_ifs <;> rfl

/-- Only names that were not there are added. -/
theorem strays_foldl (rows : List (MarketRow D)) (c : Configured D) {name : String}
    (h : name ∈ (rows.foldl (fun c row => (c.addMarket row).2) c).strays) :
    name ∈ c.strays ∨ c.getMarket name = none := by
  induction rows generalizing c with
  | nil => exact Or.inl h
  | cons row rows ih =>
    rcases ih _ h with hmem | hnone
    · unfold addMarket at hmem
      cases hrow : c.getMarket row.name with
      | some _ =>
        simp only [hrow] at hmem
        exact Or.inl hmem
      | none =>
        simp only [hrow] at hmem
        rcases Finset.mem_insert.mp hmem with rfl | hmem
        · exact Or.inr hrow
        · exact Or.inl hmem
    · rw [getMarket_addMarket] at hnone
      exact Or.inr (Option.or_eq_none_iff.mp hnone).1

theorem foldl_eq {σ α γ : Type} {f : σ → α → σ} (view : σ → γ) (hf : ∀ s a, view (f s a) = view s)
    (as : List α) (s : σ) : view (as.foldl f s) = view s := by
  induction as generalizing s with
  | nil => rfl
  | cons a as ih => exact (ih (f s a)).trans (hf s a)

/-- The array of the assets written anew as far as the rows go, and their names in the
dictionary. -/
structure AssetsLoaded (c : Configured D) (rows : List Json) (c' : Configured D) : Prop
    extends Extends c c' where
  assets : c'.assets = arrayOf rows.length (rowsRead readAsset rows)
  markets : c'.markets = c.markets
  assetType : ∀ k, c'.assetType k = (c.assetType k).or
    (((rowsRead readAsset rows).find? fun row => k = row.name).map AssetRow.prec)
  getMarket : ∀ k, c'.getMarket k = c.getMarket k
  strays : c'.strays = c.strays

/-- The same for the markets. -/
structure MarketsLoaded (decimal : String → Option D) (c : Configured D) (rows : List Json)
    (c' : Configured D) : Prop extends Extends c c' where
  assets : c'.assets = c.assets
  markets : c'.markets = arrayOf rows.length (rowsRead (readMarket decimal) rows)
  assetType : ∀ k, c'.assetType k = c.assetType k
  getMarket : ∀ k, c'.getMarket k = (c.getMarket k).or
    (((rowsRead (readMarket decimal) rows).find? fun row => k = row.name).map fun _ => .stack)
  strays : ∀ name ∈ c'.strays, name ∈ c.strays ∨ c.getMarket name = none

theorem loadAssetsListing_spec (c : Configured D) {root : Json} {key : String} {rows : List Json}
    (h : root.get key = some (.array rows)) :
    AssetsLoaded c rows (c.loadAssetsListing root key).2 ∧
      ((c.loadAssetsListing root key).1 < 0 ↔ ¬AllRead readAsset rows) := by
  have harray := loadRows_array readAsset addAsset rows [] 0 c
  have hdict := loadRows_dict readAsset addAsset rows 0 0
    (List.replicate rows.length none) c
  have hret := loadRows_ret readAsset addAsset rows 0 le_rfl
    (List.replicate rows.length none) c
  unfold loadAssetsListing
  simp only [h]
  refine ⟨⟨?_, harray, ?_, fun k => ?_, fun k => ?_, ?_⟩, hret⟩
  · have hextends := extends_foldl extends_addAsset (rowsRead readAsset rows) c
    rw [← hdict] at hextends
    exact ⟨hextends.dictMarket, hextends.orderIdStart, hextends.dictBalance, hextends.dictAsset⟩
  · exact (congrArg markets hdict).trans (foldl_eq markets markets_addAsset _ c)
  · exact (congrArg (fun c : Configured D => c.assetType k) hdict).trans
      (find_added assetType assetType_addAsset _ c k)
  · exact (congrArg (fun c : Configured D => c.getMarket k) hdict).trans
      (foldl_eq (fun c : Configured D => c.getMarket k)
        (fun c row => getMarket_addAsset c row k) _ c)
  · exact (congrArg strays hdict).trans (foldl_eq strays strays_addAsset _ c)

variable (decimal) in
theorem loadMarketsListing_spec (c : Configured D) {root : Json} {key : String} {rows : List Json}
    (h : root.get key = some (.array rows)) :
    MarketsLoaded decimal c rows (c.loadMarketsListing decimal root key).2 ∧
      ((c.loadMarketsListing decimal root key).1 < 0 ↔ ¬AllRead (readMarket decimal) rows) := by
  have harray := loadRows_array (readMarket decimal) addMarket rows [] 0 c
  have hdict := loadRows_dict (readMarket decimal) addMarket rows 0 0
    (List.replicate rows.length none) c
  have hret := loadRows_ret (readMarket decimal) addMarket rows 0 le_rfl
    (List.replicate rows.length none) c
  unfold loadMarketsListing
  simp only [h]
  refine ⟨⟨?_, ?_, harray, fun k => ?_, fun k => ?_, fun name hname => ?_⟩, hret⟩
  · have hextends := extends_foldl extends_addMarket (rowsRead (readMarket decimal) rows) c
    rw [← hdict] at hextends
    exact ⟨hextends.dictMarket, hextends.orderIdStart, hextends.dictBalance, hextends.dictAsset⟩
  · exact (congrArg assets hdict).trans (foldl_eq assets assets_addMarket _ c)
  · exact (congrArg (fun c : Configured D => c.assetType k) hdict).trans
      (foldl_eq (fun c : Configured D => c.assetType k)
        (fun c row => assetType_addMarket c row k) _ c)
  · exact (congrArg (fun c : Configured D => c.getMarket k) hdict).trans
      (find_added getMarket getMarket_addMarket _ c k)
  · exact strays_foldl _ c (congrArg strays hdict ▸ hname)

/-- An array of the file. -/
def fileRows (file : Option Json) (key : String) : Option (List Json) :=
  match file with
  | some (.object kvs) =>
    match (Json.object kvs).get key with
    | some (.array rows) => some rows
    | _ => none
  | _ => none

theorem get_of_fileRows {kvs : List (String × Json)} {key : String} {rows : List Json}
    (h : fileRows (some (.object kvs)) key = some rows) :
    (Json.object kvs).get key = some (.array rows) := by
  unfold fileRows at h
  dsimp only at h
  split at h
  · rename_i hget
    rw [hget, Option.some.inj h]
  · cases h

theorem loadAssetsListing_unread {kvs : List (String × Json)} {key : String}
    (h : fileRows (some (.object kvs)) key = none) :
    c.loadAssetsListing (.object kvs) key = (-1, c) := by
  unfold fileRows at h
  unfold loadAssetsListing
  dsimp only at h
  split at h
  · cases h
  · rfl

theorem loadMarketsListing_unread {kvs : List (String × Json)} {key : String}
    (h : fileRows (some (.object kvs)) key = none) :
    c.loadMarketsListing decimal (.object kvs) key = (-1, c) := by
  unfold fileRows at h
  unfold loadMarketsListing
  dsimp only at h
  split at h
  · cases h
  · rfl

/-- What `listing_update` returns and leaves, by how far it comes. -/
inductive Updated (decimal : String → Option D) (c : Configured D) (file : Option Json) :
    ℤ → Configured D → Prop
  | unread : fileRows file "assets" = none → Updated decimal c file (-1) c
  | badAsset {rows c₁} : fileRows file "assets" = some rows → AssetsLoaded c rows c₁ →
    ¬AllRead readAsset rows → Updated decimal c file (-1) c₁
  | noMarkets {rows c₁} : fileRows file "assets" = some rows → AssetsLoaded c rows c₁ →
    AllRead readAsset rows → fileRows file "markets" = none → Updated decimal c file (-1) c₁
  | badMarket {rows c₁ rows' c₂} : fileRows file "assets" = some rows → AssetsLoaded c rows c₁ →
    AllRead readAsset rows → fileRows file "markets" = some rows' →
    MarketsLoaded decimal c₁ rows' c₂ → ¬AllRead (readMarket decimal) rows' →
    Updated decimal c file (-1) c₂
  | done {rows c₁ rows' c₂ ret} : fileRows file "assets" = some rows → AssetsLoaded c rows c₁ →
    AllRead readAsset rows → fileRows file "markets" = some rows' →
    MarketsLoaded decimal c₁ rows' c₂ → AllRead (readMarket decimal) rows' → 0 ≤ ret →
    Updated decimal c file ret c₂

theorem listingUpdate_updated (decimal : String → Option D) (c : Configured D)
    (file : Option Json) :
    Updated decimal c file (c.listingUpdate decimal file).1 (c.listingUpdate decimal file).2 := by
  cases file with
  | none => exact .unread rfl
  | some root =>
    cases root with
    | object kvs =>
      unfold listingUpdate
      dsimp only
      cases hrows : fileRows (some (.object kvs)) "assets" with
      | none =>
        rw [loadAssetsListing_unread hrows]
        exact .unread hrows
      | some rows =>
        obtain ⟨hload, hneg⟩ := loadAssetsListing_spec c (get_of_fileRows hrows)
        by_cases hread : AllRead readAsset rows
        · have hret : ¬(c.loadAssetsListing (.object kvs) "assets").1 < 0 := fun h => hneg.mp h hread
          rw [if_neg hret]
          cases hrows' : fileRows (some (.object kvs)) "markets" with
          | none =>
            rw [loadMarketsListing_unread hrows']
            exact .noMarkets hrows hload hread hrows'
          | some rows' =>
            obtain ⟨hload', hneg'⟩ := loadMarketsListing_spec decimal
              (c.loadAssetsListing (.object kvs) "assets").2 (get_of_fileRows hrows')
            by_cases hread' : AllRead (readMarket decimal) rows'
            · rw [if_neg fun h => hneg'.mp h hread']
              refine .done hrows hload hread hrows' hload' hread' (add_nonneg (not_lt.mp hret) ?_)
              exact not_lt.mp fun h => hneg'.mp h hread'
            · rw [if_pos (hneg'.mpr hread')]
              exact .badMarket hrows hload hread hrows' hload' hread'
        · rw [if_pos (hneg.mpr hread)]
          exact .badAsset hrows hload hread
    | _ => exact .unread rfl

end Configured

end ViabtcExchange
