import ViabtcExchange.Dump
import ViabtcExchange.Ledgers

/-!
# Balances in a slice (`dump_balance`, `load_balance`)

`dump_balance` writes the dictionary of the balances into a table with one column
`DECIMAL(30,16)` for the amounts; `load_balance` reads the table in pages into an empty one. A
number is rounded to sixteen digits behind the point when it is stored. What is too large for the
column is an error in the strict mode of MySQL, and is cut to the largest number otherwise.

**Theorem (`reload_eq_iff`).** In every life of the engine, the dictionary comes back as it was
just when each of its amounts is other than zero, has at most sixteen digits behind the point
and is below 10¹⁴. An asset may be saved with more digits than that: `reload_rounds` is a run that
ends with nineteen.
-/

namespace ViabtcExchange

/-! ## The column -/

/-- Storing a number in a column `DECIMAL(30, scale)`, outside the strict mode. -/
def mysqlStore (scale : ℕ) (x : ℚ) : ℚ :=
  let y := mysqlDecimal scale x
  if |y| < 10 ^ (30 - scale) then y
  else if 0 ≤ y then 10 ^ (30 - scale) - 1 / 10 ^ scale
  else 1 / 10 ^ scale - 10 ^ (30 - scale)

/-- Whether a number is taken by a column. -/
def mysqlAccepts (strict : Bool) (scale : ℕ) (x : ℚ) : Bool :=
  !strict || decide (|mysqlDecimal scale x| < 10 ^ (30 - scale))

theorem onGrid_mysqlDecimal (scale : ℕ) (x : ℚ) : OnGrid scale (mysqlDecimal scale x) := by
  have hpow : (10 : ℚ) ^ scale ≠ 0 := pow_ne_zero _ (by norm_num)
  have hgrid : ∀ n : ℤ, OnGrid scale ((n : ℚ) / 10 ^ scale) := fun n =>
    ⟨n, by rw [zpow_natCast, div_mul_cancel₀ _ hpow]⟩
  unfold mysqlDecimal
  split_ifs
  · exact hgrid _
  · exact (hgrid _).neg

theorem mysqlDecimal_nonneg {scale : ℕ} {x : ℚ} (hx : 0 ≤ x) : 0 ≤ mysqlDecimal scale x := by
  rw [mysqlDecimal, if_pos hx]
  have h : 0 ≤ ⌊x * 10 ^ scale + 1 / 2⌋ := Int.floor_nonneg.mpr (by positivity)
  exact div_nonneg (by exact_mod_cast h) (by positivity)

/-- What a column holds is a number it has room for. -/
theorem mysqlStore_bounds {scale : ℕ} (hscale : scale ≤ 30) (x : ℚ) :
    OnGrid scale (mysqlStore scale x) ∧ |mysqlStore scale x| < 10 ^ (30 - scale) := by
  have hpow : (0 : ℚ) < 10 ^ scale := by positivity
  have hmax : OnGrid scale ((10 : ℚ) ^ (30 - scale) - 1 / 10 ^ scale) := by
    refine ⟨10 ^ 30 - 1, ?_⟩
    rw [zpow_natCast, sub_mul, ← pow_add, Nat.sub_add_cancel hscale, one_div,
      inv_mul_cancel₀ hpow.ne']
    norm_num
  have hone : (1 : ℚ) / 10 ^ scale ≤ 10 ^ (30 - scale) := by
    rw [div_le_iff₀ hpow, ← pow_add, Nat.sub_add_cancel hscale]
    norm_num
  have hlt : |(10 : ℚ) ^ (30 - scale) - 1 / 10 ^ scale| < 10 ^ (30 - scale) := by
    rw [abs_of_nonneg (sub_nonneg.mpr hone)]
    exact sub_lt_self _ (by positivity)
  unfold mysqlStore
  dsimp only
  split_ifs with hroom hneg
  · exact ⟨onGrid_mysqlDecimal scale x, hroom⟩
  · exact ⟨hmax, hlt⟩
  · rw [← neg_sub, abs_neg]
    exact ⟨hmax.neg, hlt⟩

theorem mysqlStore_nonneg {x : ℚ} (hx : 0 ≤ x) : 0 ≤ mysqlStore 16 x := by
  have hy : 0 ≤ mysqlDecimal 16 x := mysqlDecimal_nonneg hx
  unfold mysqlStore
  dsimp only
  split_ifs
  · exact hy
  · norm_num

theorem keepsFitting_mysqlStore : KeepsFitting mysqlStore := by
  intro scale x hgrid hx
  have heq := keepsFitting_mysqlDecimal scale x hgrid hx
  unfold mysqlStore
  dsimp only
  rw [heq, if_pos hx]

theorem mysqlAccepts_of_fits {strict : Bool} {scale : ℕ} {x : ℚ} (hgrid : OnGrid scale x)
    (hx : |x| < 10 ^ (30 - scale)) : mysqlAccepts strict scale x = true := by
  simp [mysqlAccepts, keepsFitting_mysqlDecimal scale x hgrid hx, hx]

/-! ## One amount -/

/-- The entry that `balance_set` makes of an amount read from the table. -/
def reloaded (ty : AssetType) (r : ℚ) : Option ℚ :=
  if (if ty.precSave = 0 then r else truncTo ty.precSave r) = 0 then none
  else some (truncTo ty.precSave r)

/-- What comes back of an amount is this amount just when the column keeps it, and it is not
zero. -/
theorem reloaded_mysqlStore_iff {ty : AssetType} {v : ℚ} (hv : 0 ≤ v)
    (hgrid : OnGrid ty.precSave v) :
    reloaded ty (mysqlStore 16 v) = some v ↔ v ≠ 0 ∧ OnGrid 16 v ∧ v < 10 ^ 14 := by
  constructor
  · intro h
    have hr := mysqlStore_nonneg hv
    obtain ⟨hr16, hrlt⟩ := @mysqlStore_bounds 16 (by norm_num) v
    obtain ⟨hne, heq⟩ := Option.ite_none_left_eq_some.mp h
    have heq : truncTo ty.precSave (mysqlStore 16 v) = v := Option.some.inj heq
    refine ⟨?_, ?_, ?_⟩
    · rintro rfl
      have hstore : mysqlStore 16 0 = 0 :=
        keepsFitting_mysqlStore 16 0 (OnGrid.zero _) (by norm_num)
      rw [hstore, truncTo_of_onGrid (OnGrid.zero _), ite_self] at hne
      exact hne rfl
    · rcases le_total (ty.precSave : ℤ) 16 with hp | hp
      · exact hgrid.mono hp
      · rw [truncTo_of_onGrid (hr16.mono hp)] at heq
        exact heq ▸ hr16
    · calc v = truncTo ty.precSave (mysqlStore 16 v) := heq.symm
        _ ≤ mysqlStore 16 v := truncTo_le _ hr
        _ ≤ |mysqlStore 16 v| := le_abs_self _
        _ < 10 ^ 14 := hrlt
  · rintro ⟨hne, hgrid16, hlt⟩
    have hstore : mysqlStore 16 v = v :=
      keepsFitting_mysqlStore 16 v hgrid16 (by rw [abs_of_nonneg hv]; exact hlt)
    rw [reloaded, hstore, truncTo_of_onGrid hgrid, ite_self, if_neg hne]

/-! ## Loading the table -/

section Load

variable {D : Type} (mpd : Mpd D) (dictAsset : Dict String AssetType)

/-- `load_balance`, in pages. -/
def loadBalanceTable (table : Table (BalanceKey × D)) (b : Dict BalanceKey D) :
    Option (Dict BalanceKey D) :=
  (table.scan queryLimit queryLimit_pos (fun b row => some (loadBalance mpd dictAsset b row.2)) 0
    b).map Prod.fst

/-- A table whose rows have been numbered as they came in. -/
def AutoIncrement {α : Type} (table : Table α) (rows : List α) : Prop :=
  table.rows.map Prod.snd = rows ∧ ∀ r ∈ table.rows, 0 < r.1

/-- Loading in pages sets every balance of the table, in the order it was written in. -/
theorem loadBalanceTable_eq {table : Table (BalanceKey × D)} {rows : List (BalanceKey × D)}
    (h : AutoIncrement table rows) (b : Dict BalanceKey D) :
    loadBalanceTable mpd dictAsset table b = some (rows.foldl (loadBalance mpd dictAsset) b) := by
  obtain ⟨rfl, hpos⟩ := h
  have hfold : ∀ (rows : List (ℕ × BalanceKey × D)) (b : Dict BalanceKey D),
      rows.foldlM (fun b row => some (loadBalance mpd dictAsset b row.2)) b =
        some ((rows.map Prod.snd).foldl (loadBalance mpd dictAsset) b) := by
    intro rows
    induction rows with
    | nil => exact fun _ => rfl
    | cons row rows ih => exact fun b => ih _
  have habove : table.above 0 = table.rows :=
    List.filter_eq_self.mpr fun r hr => decide_eq_true (hpos r hr)
  rw [loadBalanceTable, Table.scan_eq, habove, hfold]
  rfl

end Load

section Reload

variable {round : ℚ → ℚ} {dictAsset : Dict String AssetType} {b : Dict BalanceKey ℚ}

theorem find_loadBalance {row : BalanceKey × ℚ} {ty : AssetType}
    (hty : dictAsset.find row.1.asset = some ty) (hr : 0 ≤ row.2) (k : BalanceKey) :
    (loadBalance (ratMpd round) dictAsset b row).find k =
      if k = row.1 then reloaded ty row.2 else b.find k := by
  have hcut : (ratMpd round).cut row.2 ty.precSave =
      if ty.precSave = 0 then row.2 else truncTo ty.precSave row.2 := by
    simp [Mpd.cut]
  have hnonneg : 0 ≤ (if ty.precSave = 0 then row.2 else truncTo ty.precSave row.2) := by
    split_ifs
    · exact hr
    · exact truncTo_nonneg _ hr
  have htrunc : truncTo ty.precSave (if ty.precSave = 0 then row.2 else truncTo ty.precSave row.2) =
      truncTo ty.precSave row.2 := by
    split_ifs
    · rfl
    · exact truncTo_of_onGrid (onGrid_truncTo _ _)
  simp only [loadBalance, hty, balanceSet, hcut, ratMpd_cmp_lt, ratMpd_cmp_eq, ratMpd_zero,
    not_lt.mpr hnonneg, if_false, reloaded]
  by_cases h0 : (if ty.precSave = 0 then row.2 else truncTo ty.precSave row.2) = 0
  · rw [if_pos h0, if_pos h0, Option.getD_some, balanceDel, Dict.find_erase]
  · rw [if_neg h0, if_neg h0, Option.getD_some, Dict.find_insert, ratMpd_rescale, neg_neg, htrunc]

/-- Rows of known assets, under different keys, are set independently of each other. -/
theorem find_loadRows {rows : List (BalanceKey × ℚ)} (hkeys : (rows.map Prod.fst).Nodup)
    (hrows : ∀ row ∈ rows, 0 ≤ row.2 ∧ ∃ ty, dictAsset.find row.1.asset = some ty)
    (b : Dict BalanceKey ℚ) (k : BalanceKey) :
    (k ∉ rows.map Prod.fst →
      (rows.foldl (loadBalance (ratMpd round) dictAsset) b).find k = b.find k) ∧
      ∀ r ty, (k, r) ∈ rows → dictAsset.find k.asset = some ty →
        (rows.foldl (loadBalance (ratMpd round) dictAsset) b).find k = reloaded ty r := by
  induction rows generalizing b with
  | nil => exact ⟨fun _ => rfl, fun _ _ h => absurd h List.not_mem_nil⟩
  | cons row rows ih =>
    obtain ⟨⟨hnonneg, ty₀, hty₀⟩, hrows⟩ := List.forall_mem_cons.mp hrows
    obtain ⟨hfresh, hkeys⟩ := List.nodup_cons.mp hkeys
    obtain ⟨hother, hrow⟩ := ih hkeys hrows (loadBalance (ratMpd round) dictAsset b row)
    constructor
    · intro hk
      rw [List.map_cons, List.mem_cons, not_or] at hk
      rw [List.foldl_cons, hother hk.2, find_loadBalance hty₀ hnonneg, if_neg hk.1]
    · intro r ty hmem hty
      rcases List.mem_cons.mp hmem with rfl | hmem
      · obtain rfl := Option.some.inj (hty₀.symm.trans hty)
        rw [List.foldl_cons, hother hfresh, find_loadBalance hty₀ hnonneg, if_pos rfl]
      · exact hrow r ty hmem hty

/-! ## The dictionary -/

/-- The entries of a dictionary have different keys. -/
theorem Iterates.nodup {K V : Type} {d : Dict K V} {entries : List (K × V)}
    (h : Iterates d entries) :
    (entries.map Prod.fst).Nodup := by
  have hkeys := Multiset.nodup_keys.mpr d.nodupKeys
  rw [h, Multiset.coe_keys] at hkeys
  simpa [List.keys, Function.comp_def] using Multiset.coe_nodup.mp hkeys

theorem Iterates.mem_iff {K V : Type} [DecidableEq K] {d : Dict K V} {entries : List (K × V)}
    (h : Iterates d entries) (k : K) (v : V) : (k, v) ∈ entries ↔ d.find k = some v := by
  rw [Dict.find, ← Option.mem_def, Finmap.mem_lookup_iff, h]
  simp

/-- What `dump_balance` leaves in its table when no statement fails but for what the column does not
take: some of the rows, all of them when every amount is taken. -/
def Conn.BalanceRows {D : Type} (column : ℕ → D → D) (accepts : ℕ → D → Bool)
    (entries rows : List (BalanceKey × D)) : Prop :=
  rows.Sublist (ViabtcExchange.dumpBalance column entries) ∧
    ((∀ kv ∈ entries, accepts 16 kv.2 = true) → rows = ViabtcExchange.dumpBalance column entries)

theorem Conn.dumpBalance_rows {D : Type} (column : ℕ → D → D) (accepts : ℕ → D → Bool)
    (entries : List (BalanceKey × D)) (c : Conn D) :
    ∃ rows, (c.dumpBalance column accepts (fun _ => .ok) entries).1 = 0 ∧
      (c.dumpBalance column accepts (fun _ => .ok) entries).2.db =
        { c.db with balances := some rows } ∧
        BalanceRows column accepts entries rows := by
  obtain ⟨⟨orders, balances, history⟩, sent⟩ := c
  cases hdump : dumpBalanceDict column accepts (fun _ => .ok) entries
      (⟨⟨orders, some [], history⟩, sent ++ [(.dropBalance, false), (.createBalance, false)]⟩ : Conn D) with
  | mk ret c' =>
    obtain ⟨rfl, -, hput, -⟩ := dumpBalanceDict_spec column accepts _ hdump
    obtain ⟨rows, hdb, hsub, hall⟩ := hput [] rfl
    refine ⟨rows, ?_, ?_, hsub, hall fun _ => rfl⟩
    · simp [dumpBalance, remake, mysqlRealQuery, SliceDb.execute, hdump]
    · simp [dumpBalance, remake, mysqlRealQuery, SliceDb.execute, hdump, hdb]

/-- What is loaded is what was dumped just when every amount is other than zero, and fits the
column. -/
theorem loadRows_eq_iff {b : Dict BalanceKey ℚ} {entries rows : List (BalanceKey × ℚ)}
    {strict : Bool} (hs : Sound dictAsset b) (hentries : Iterates b entries)
    (hrows : Conn.BalanceRows mysqlStore (mysqlAccepts strict) entries rows) :
    rows.foldl (loadBalance (ratMpd round) dictAsset) ∅ = b ↔
      ∀ key v, b.find key = some v → v ≠ 0 ∧ OnGrid 16 v ∧ v < 10 ^ 14 := by
  obtain ⟨hsub, hall⟩ := hrows
  have hmem : ∀ k r, (k, r) ∈ ViabtcExchange.dumpBalance mysqlStore entries →
      ∃ v, b.find k = some v ∧ r = mysqlStore 16 v := by
    intro k r h
    obtain ⟨⟨k', v⟩, hkv, heq⟩ := List.mem_map.mp h
    obtain ⟨rfl, rfl⟩ := Prod.mk.inj heq
    exact ⟨v, (hentries.mem_iff k' v).mp hkv, rfl⟩
  have hkeys : (rows.map Prod.fst).Nodup := by
    refine (hsub.map Prod.fst).nodup ?_
    rw [ViabtcExchange.dumpBalance, List.map_map]
    exact hentries.nodup
  have hgood : ∀ row ∈ rows, 0 ≤ row.2 ∧ ∃ ty, dictAsset.find row.1.asset = some ty := by
    intro row hrow
    obtain ⟨v, hv, heq⟩ := hmem row.1 row.2 (hsub.subset hrow)
    obtain ⟨hnonneg, ty, hty, -⟩ := hs _ v hv
    exact ⟨heq ▸ mysqlStore_nonneg hnonneg, ty, hty⟩
  have hload := @find_loadRows round _ _ hkeys hgood ∅
  constructor
  · intro heq key v hv
    obtain ⟨hnonneg, ty, hty, hgrid⟩ := hs key v hv
    refine (reloaded_mysqlStore_iff hnonneg hgrid).mp ?_
    obtain ⟨hfresh, hrow⟩ := hload key
    rw [heq, hv] at hfresh hrow
    by_cases hkey : key ∈ rows.map Prod.fst
    · obtain ⟨⟨key', r⟩, hr', rfl⟩ := List.mem_map.mp hkey
      obtain ⟨v', hv', rfl⟩ := hmem key' r (hsub.subset hr')
      obtain rfl := Option.some.inj (hv.symm.trans hv')
      exact (hrow _ ty hr' hty).symm
    · cases hfresh hkey
  · intro hfits
    have haccepts : ∀ kv ∈ entries, mysqlAccepts strict 16 kv.2 = true := by
      intro kv hkv
      have hv := (hentries.mem_iff kv.1 kv.2).mp hkv
      obtain ⟨-, hgrid, hlt⟩ := hfits _ _ hv
      exact mysqlAccepts_of_fits hgrid (by rw [abs_of_nonneg (hs _ _ hv).1]; exact hlt)
    obtain rfl := hall haccepts
    refine Dict.ext_find fun key => ?_
    obtain ⟨hfresh, hrow⟩ := hload key
    cases hv : b.find key with
    | none =>
      rw [hfresh, Dict.find_empty]
      intro hkey
      obtain ⟨⟨key', r⟩, hr', rfl⟩ := List.mem_map.mp hkey
      obtain ⟨v, hv', -⟩ := hmem key' r hr'
      rw [hv] at hv'
      cases hv'
    | some v =>
      obtain ⟨hnonneg, ty, hty, hgrid⟩ := hs key v hv
      have hrow' := hrow (mysqlStore 16 v) ty
        (List.mem_map.mpr ⟨(key, v), (hentries.mem_iff key v).mpr hv, rfl⟩) hty
      rw [hrow']
      exact (reloaded_mysqlStore_iff hnonneg hgrid).mpr (hfits key v hv)

/-- **When the balances survive a slice:** when each of them is other than zero, and fits the
column. -/
theorem reload_eq_iff {column : ℕ → ℚ → ℚ} {confs : List (MarketConf ℚ)} {ok : Engine ℚ → Prop}
    {e : Engine ℚ} {entries : List (BalanceKey × ℚ)} {c : Conn ℚ} {strict : Bool}
    {table : Table (BalanceKey × ℚ)} {rows : List (BalanceKey × ℚ)} (hr : RoundsDown round)
    (hlife : Engine.Life (ratMpd round) column dictAsset confs ok e)
    (hentries : Iterates e.statics.ledger.dictBalance entries)
    (hdump : (c.dumpBalance mysqlStore (mysqlAccepts strict) (fun _ => .ok) entries).2.db.balances = some rows)
    (htable : AutoIncrement table rows) :
    loadBalanceTable (ratMpd round) dictAsset table ∅ = some e.statics.ledger.dictBalance ↔
      ∀ key v, e.statics.ledger.dictBalance.find key = some v → v ≠ 0 ∧ OnGrid 16 v ∧ v < 10 ^ 14 := by
  obtain ⟨hsound, hassets⟩ := hlife.sound hr
  obtain ⟨rows', -, hdb, hrows⟩ := c.dumpBalance_rows mysqlStore (mysqlAccepts strict) entries
  rw [hdb] at hdump
  obtain rfl := Option.some.inj hdump
  rw [loadBalanceTable_eq _ _ htable, Option.some_inj]
  exact loadRows_eq_iff (hassets ▸ hsound) hentries hrows

end Reload

/-! ## Nineteen digits -/

/-- The table a dump of some entries makes, in the strict mode. -/
def dumpedRows (entries : List (BalanceKey × ℚ)) : Option (List (BalanceKey × ℚ)) :=
  ((⟨⟨none, none, []⟩, []⟩ : Conn ℚ).dumpBalance mysqlStore (mysqlAccepts true) (fun _ => .ok)
    entries).2.db.balances

/-- A trade of 0.00100001 at the price 10⁻⁸, with fees of a tenth of a percent. -/
def fractionOps : List (Op ℚ) :=
  [deposit 1 "BTC" 1 1, deposit 2 "CNY" 2 1,
    limitOrder 1 .ask (100001 / 10 ^ 8) (1 / 10 ^ 8) (1 / 1000) (1 / 1000),
    limitOrder 2 .bid (100001 / 10 ^ 8) (1 / 10 ^ 8) (1 / 1000) (1 / 1000)]

def fractionEntries : List (BalanceKey × ℚ) :=
  [(⟨1, .available, "BTC"⟩, 99899999 / 10 ^ 8), (⟨1, .available, "CNY"⟩, 99900999 / 10 ^ 19),
    (⟨2, .available, "BTC"⟩, 100001 / 10 ^ 8),
    (⟨2, .available, "CNY"⟩, 9999999999899898999 / 10 ^ 19)]

def fractionTable : Table (BalanceKey × ℚ) where
  rows :=
    [(1, ⟨1, .available, "BTC"⟩, 99899999 / 10 ^ 8), (2, ⟨1, .available, "CNY"⟩, 99901 / 10 ^ 16),
      (3, ⟨2, .available, "BTC"⟩, 100001 / 10 ^ 8),
      (4, ⟨2, .available, "CNY"⟩, 9999999999899899 / 10 ^ 16)]
  sorted := by decide

/-- **Balances come back rounded**, with more money than there was. -/
theorem reload_rounds :
    ∃ e, Engine.Life decimal128 mysqlStore exampleAssets [exampleConf 8] (fun _ => True) e ∧
      Iterates e.statics.ledger.dictBalance fractionEntries ∧
        dumpedRows fractionEntries = some (fractionTable.rows.map Prod.snd) ∧
          AutoIncrement fractionTable (fractionTable.rows.map Prod.snd) ∧
            loadBalanceTable decimal128 exampleAssets fractionTable ∅ ≠
              some e.statics.ledger.dictBalance := by
  have hcheck : (exampleRun decimal128 8 fractionOps).any (fun e =>
      decide (Iterates e.statics.ledger.dictBalance fractionEntries ∧
        dumpedRows fractionEntries = some (fractionTable.rows.map Prod.snd) ∧
          (fractionTable.rows.map Prod.snd).foldl (loadBalance decimal128 exampleAssets) ∅ ≠
            e.statics.ledger.dictBalance)) = true := by
    decide +kernel
  obtain ⟨e, hrun, hchecked⟩ := (Option.any_eq_true _ _).mp hcheck
  obtain ⟨e₀, hinit, hrun⟩ := Option.bind_eq_some_iff.mp hrun
  obtain ⟨hi, hdump, hne⟩ := of_decide_eq_true hchecked
  have htable : AutoIncrement fractionTable (fractionTable.rows.map Prod.snd) := ⟨rfl, by decide⟩
  refine ⟨e, (Engine.Life.init hinit).run hrun, hi, hdump, htable, fun heq => hne ?_⟩
  rw [loadBalanceTable_eq _ _ htable] at heq
  exact Option.some.inj heq

def depositTable : Table (BalanceKey × ℚ) := ⟨[(1, ⟨1, .available, "BTC"⟩, 1)], by decide⟩

theorem reload_eq_iff_deposit :
    ∃ e, exampleRun decimal128 8 [deposit 1 "BTC" 1 1] = some e ∧
      (loadBalanceTable decimal128 exampleAssets depositTable ∅ = some e.statics.ledger.dictBalance ↔
        ∀ key v, e.statics.ledger.dictBalance.find key = some v →
          v ≠ 0 ∧ OnGrid 16 v ∧ v < 10 ^ 14) := by
  have hcheck : (exampleRun decimal128 8 [deposit 1 "BTC" 1 1]).any (fun e =>
      decide (Iterates e.statics.ledger.dictBalance batchEntries ∧
        dumpedRows batchEntries = some batchEntries)) = true := by
    decide +kernel
  obtain ⟨e, hsome, hchecked⟩ := (Option.any_eq_true _ _).mp hcheck
  obtain ⟨e₀, hinit, hrun⟩ := Option.bind_eq_some_iff.mp hsome
  obtain ⟨hi, hdump⟩ := of_decide_eq_true hchecked
  have hlife : Engine.Life decimal128 mysqlStore exampleAssets [exampleConf 8] (fun _ => True) e :=
    (Engine.Life.init hinit).run hrun
  exact ⟨e, hsome, reload_eq_iff roundsDown_roundDown hlife hi hdump ⟨rfl, by decide⟩⟩

end ViabtcExchange
