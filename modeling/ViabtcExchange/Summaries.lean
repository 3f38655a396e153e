import ViabtcExchange.BalanceFeed
import ViabtcExchange.Balances
import ViabtcExchange.Conservation
import ViabtcExchange.Replies

/-!
# The summaries of assets and markets (`me_balance.c`, `me_market.c`, `me_server.c`)

`asset.summary` adds up the balances of all users, and `market.summary` the open orders on each side
of a book. Both walk a container while the context rounds every sum, and neither looks at the other.

**Theorem (`asset_summary_adds_up`).** In a run that loses no digit, the total of an asset is what
was put in less the fees, and splits into what is available and what is frozen; the frozen part is
what the summaries of the markets show on offer in that asset, with what the bids may still cost.
The counts are those of the users who have something.
-/

namespace ViabtcExchange

/-! ## The commands -/

section Commands

variable {D : Type} (mpd : Mpd D)

/-- What `balance_status` returns through its arguments. -/
structure BalanceStatus (D : Type) where
  total : D
  availableCount : ℕ
  available : D
  freezeCount : ℕ
  freeze : D
deriving DecidableEq, Repr

/-- The body of the loop of `balance_status`. -/
def BalanceStatus.count (asset : String) (s : BalanceStatus D) (entry : BalanceKey × D) :
    BalanceStatus D :=
  if entry.1.asset ≠ asset then s
  else
    let s := { s with total := mpd.add s.total entry.2 }
    match entry.1.type with
    | .available =>
      { s with
        availableCount := s.availableCount + 1
        available := mpd.add s.available entry.2 }
    | .freeze =>
      { s with
        freezeCount := s.freezeCount + 1
        freeze := mpd.add s.freeze entry.2 }

/-- `entries` is the dictionary in the order of its iterator. -/
def balanceStatus (entries : List (BalanceKey × D)) (asset : String) : BalanceStatus D :=
  entries.foldl (BalanceStatus.count mpd asset) ⟨mpd.zero, 0, mpd.zero, 0, mpd.zero⟩

structure AssetSummary (D : Type) where
  name : String
  totalBalance : D
  availableCount : ℕ
  availableBalance : D
  freezeCount : ℕ
  freezeBalance : D
deriving DecidableEq, Repr

def getAssetSummary (entries : List (BalanceKey × D)) (name : String) : AssetSummary D :=
  let s := balanceStatus mpd entries name
  ⟨name, s.total, s.availableCount, s.available, s.freezeCount, s.freeze⟩

/-- `asset_exist` for each of the assets that are asked for. -/
def summaryAssets (dictAsset : Dict String AssetType) : List Json → Except Refusal (List String)
  | [] => .ok []
  | .string asset :: params => do
    check (assetExist dictAsset asset)
    return asset :: (← summaryAssets dictAsset params)
  | _ :: _ => .error .invalid

/-- `assets` are the names of `settings.assets`. -/
def Engine.onCmdAssetSummary (e : Engine D) (entries : List (BalanceKey × D)) (assets : List String)
    (params : List Json) : Except Refusal (List (AssetSummary D)) := do
  if params.length = 0 then return assets.map (getAssetSummary mpd entries)
  else return (← summaryAssets e.statics.ledger.dictAsset params).map (getAssetSummary mpd entries)

structure MarketSummary (D : Type) where
  name : String
  askCount : ℕ
  askAmount : D
  bidCount : ℕ
  bidAmount : D
deriving DecidableEq, Repr

/-- `market_get_status` for one side: the sum of what is left. -/
def Market.sideAmount (m : Market D) (side : OrderSide) : D :=
  (m.book side).foldl (fun amount id => mpd.add amount (m.order id).left) mpd.zero

def getMarketSummary (name : String) (m : Market D) : MarketSummary D where
  name := name
  askCount := m.asks.length
  askAmount := m.sideAmount mpd .ask
  bidCount := m.bids.length
  bidAmount := m.sideAmount mpd .bid

/-- `get_market` for each of the markets that are asked for. -/
def summaryMarkets (dictMarket : Dict String (Market D)) :
    List Json → Except Refusal (List (String × Market D))
  | [] => .ok []
  | .string market :: params =>
    match dictMarket.find market with
    | none => .error .invalid
    | some m => do return (market, m) :: (← summaryMarkets dictMarket params)
  | _ :: _ => .error .invalid

/-- `none` where a market of the settings is not there: `market_get_status` then reads through a null
pointer. -/
def Engine.onCmdMarketSummary (e : Engine D) (markets : List String) (params : List Json) :
    Option (Except Refusal (List (MarketSummary D))) :=
  if params.length = 0 then
    (markets.mapM fun name => (e.dictMarket.find name).map (getMarketSummary mpd name)).map .ok
  else
    some do return (← summaryMarkets e.dictMarket params).map fun p => getMarketSummary mpd p.1 p.2

/-- The balances of an asset that are of a type. -/
def heldIn (entries : List (BalanceKey × D)) (asset : String) (type : BalanceType) : List D :=
  (entries.filter fun entry => entry.1.asset = asset ∧ entry.1.type = type).map Prod.snd

/-- The walk sums up the balances of the asset, and those of each type. -/
theorem balanceStatus_eq (entries : List (BalanceKey × D)) (asset : String) :
    balanceStatus mpd entries asset =
      { total := ((entries.filter fun entry => entry.1.asset = asset).map Prod.snd).foldl mpd.add
          mpd.zero
        availableCount := (heldIn entries asset .available).length
        available := (heldIn entries asset .available).foldl mpd.add mpd.zero
        freezeCount := (heldIn entries asset .freeze).length
        freeze := (heldIn entries asset .freeze).foldl mpd.add mpd.zero } := by
  have hwalk : ∀ (entries : List (BalanceKey × D)) (s : BalanceStatus D),
      entries.foldl (BalanceStatus.count mpd asset) s =
        { total := ((entries.filter fun entry => entry.1.asset = asset).map Prod.snd).foldl mpd.add
            s.total
          availableCount := s.availableCount + (heldIn entries asset .available).length
          available := (heldIn entries asset .available).foldl mpd.add s.available
          freezeCount := s.freezeCount + (heldIn entries asset .freeze).length
          freeze := (heldIn entries asset .freeze).foldl mpd.add s.freeze } := by
    intro entries
    induction entries with
    | nil => exact fun s => rfl
    | cons entry entries ih =>
      intro s
      obtain ⟨⟨user, type, name⟩, x⟩ := entry
      rw [List.foldl_cons, ih]
      by_cases hname : name = asset
      · cases type <;> simp [BalanceStatus.count, heldIn, hname, add_assoc, add_comm 1]
      · simp [BalanceStatus.count, heldIn, hname]
  rw [balanceStatus, hwalk]
  simp

end Commands

/-! ## Sums over the dictionary -/

section Sums

variable {dictAsset : Dict String AssetType} {b : Dict BalanceKey ℚ}
  {entries : List (BalanceKey × ℚ)} {a : String} {type : BalanceType} {ty : AssetType}

/-- Whatever order the iterator takes, a sum over the entries is the same. -/
theorem Iterates.sum_filter (h : Iterates b entries) (p : BalanceKey → Bool) :
    ((entries.filter fun entry => p entry.1).map Prod.snd).sum =
      b.sum fun k v => if p k then v else 0 := by
  have hfilter : ((entries.filter fun entry => p entry.1).map Prod.snd).sum =
      (entries.map fun entry => if p entry.1 then entry.2 else 0).sum := by
    clear h
    induction entries with
    | nil => rfl
    | cons entry entries ih => by_cases hp : p entry.1 <;> simp [hp, ih]
  have hkeys : b.keys = (entries.map Prod.fst).toFinset := by
    ext k
    rw [Dict.mem_keys_iff, List.mem_toFinset, List.mem_map, Option.ne_none_iff_exists']
    constructor
    · rintro ⟨v, hv⟩
      exact ⟨(k, v), (h.mem_iff k v).mpr hv, rfl⟩
    · rintro ⟨⟨k', v⟩, hmem, rfl⟩
      exact ⟨v, (h.mem_iff k' v).mp hmem⟩
  rw [hfilter, Dict.sum, hkeys, List.sum_toFinset _ h.nodup, List.map_map]
  refine congrArg List.sum (List.map_congr_left fun entry hentry => ?_)
  have hfind : b.find entry.1 = some entry.2 := (h.mem_iff entry.1 entry.2).mp hentry
  simp [Dict.entry, hfind]

/-- Some of the balances of an asset are no more than its supply. -/
theorem sum_le_supply (hs : Sound dictAsset b) {p : BalanceKey → Bool} (hp : ∀ k, p k → k.asset = a) :
    (b.sum fun k v => if p k then v else 0) ≤ supply b a := by
  refine Finset.sum_le_sum fun k _ => ?_
  unfold Dict.entry
  cases hk : b.find k with
  | none => exact le_rfl
  | some v =>
    have hv : 0 ≤ v := (hs k v hk).1
    simp only [Option.map_some, Option.getD_some]
    split_ifs with hpk hka
    · exact le_rfl
    · exact absurd (hp k hpk) hka
    · exact hv
    · exact le_rfl

/-- With room for the supply, the context adds up the balances of an asset exactly. -/
theorem Iterates.foldl_add (h : Iterates b entries) (hs : Sound dictAsset b)
    (hroom : Roomy (roundDown 34) dictAsset (supply b)) (hty : dictAsset.find a = some ty)
    {p : BalanceKey → Bool} (hp : ∀ k, p k → k.asset = a) :
    ((entries.filter fun entry => p entry.1).map Prod.snd).foldl decimal128.add decimal128.zero =
      b.sum fun k v => if p k then v else 0 := by
  have hle := sum_le_supply hs hp
  have hsum := h.sum_filter p
  have hnonneg : 0 ≤ supply b a := (hs.nonneg ⟨0, .available, a⟩).trans (balanceOf_le_supply hs _)
  have hparts : ∀ x ∈ (entries.filter fun entry => p entry.1).map Prod.snd,
      0 ≤ x ∧ OnGrid ty.precSave x := by
    intro x hx
    obtain ⟨entry, hentry, rfl⟩ := List.mem_map.mp hx
    obtain ⟨hmem, hpe⟩ := List.mem_filter.mp hentry
    obtain ⟨hpos, ty', hty', hgrid⟩ := hs _ _ ((h.mem_iff entry.1 entry.2).mp hmem)
    rw [hp _ hpe, hty] at hty'
    obtain rfl := Option.some.inj hty'
    exact ⟨hpos, hgrid⟩
  have hexact := foldl_add_exact (b := 0) (B := 4 * supply b a)
    (fun y hy hle => hroom a ty y hty hy hle) hparts le_rfl (OnGrid.zero _)
    (by rw [hsum]; linarith)
  rw [zero_add, hsum] at hexact
  exact hexact

/-- The supply is what is available and what is frozen. -/
theorem supply_split (b : Dict BalanceKey ℚ) (a : String) :
    supply b a = (b.sum fun k v => if k.asset = a ∧ k.type = .available then v else 0) +
      b.sum fun k v => if k.asset = a ∧ k.type = .freeze then v else 0 := by
  unfold supply Dict.sum
  rw [← Finset.sum_add_distrib]
  refine Finset.sum_congr rfl fun k _ => ?_
  unfold Dict.entry
  obtain ⟨u, type, a'⟩ := k
  cases b.find ⟨u, type, a'⟩ with
  | none => simp
  | some v => cases type <;> simp

/-- The balances of a type are those of the users. -/
theorem sum_type (b : Dict BalanceKey ℚ) (a : String) (type : BalanceType) {users : Finset ℕ}
    (husers : ∀ k ∈ b.keys, k.userId ∈ users) :
    (b.sum fun k v => if k.asset = a ∧ k.type = type then v else 0) =
      ∑ u ∈ users, balanceOf b ⟨u, type, a⟩ := by
  let key : ℕ → BalanceKey := fun u => ⟨u, type, a⟩
  have hkey : ∀ u ∈ users, ∀ u' ∈ users, key u = key u' → u = u' := fun u _ u' _ h => by
    simpa [key] using h
  rw [Dict.sum_eq_of_subset b _ (S := b.keys ∪ users.image key) Finset.subset_union_left,
    ← Finset.sum_image (f := balanceOf b) hkey]
  have hentry : ∀ k, b.entry (fun k v => if k.asset = a ∧ k.type = type then v else 0) k =
      if k.asset = a ∧ k.type = type then balanceOf b k else 0 := fun k => by
    unfold Dict.entry balanceOf
    cases b.find k <;> simp
  rw [Finset.sum_congr rfl fun k _ => hentry k, ← Finset.sum_filter]
  congr 1
  ext ⟨u, type', a'⟩
  simp only [Finset.mem_filter, Finset.mem_union, Finset.mem_image]
  constructor
  · rintro ⟨hmem | ⟨u', hu', heq⟩, rfl, rfl⟩
    · exact ⟨u, husers _ hmem, rfl⟩
    · exact ⟨u', hu', heq⟩
  · rintro ⟨u', hu', heq⟩
    obtain ⟨rfl, rfl, rfl⟩ := BalanceKey.mk.inj heq
    exact ⟨Or.inr ⟨u', hu', rfl⟩, rfl, rfl⟩

end Sums

/-! ## No entry is zero -/

/-- Every entry holds something. -/
def NoZero (b : Dict BalanceKey ℚ) : Prop := ∀ k v, b.find k = some v → 0 < v

section NoZero

variable {round : ℚ → ℚ} {dictAsset : Dict String AssetType} {b b' : Dict BalanceKey ℚ} {u : ℕ}
  {t src dst : BalanceType} {a : String} {ty : AssetType} {x : ℚ} {k : BalanceKey} {v : ℚ}

theorem NoZero.insert (h : NoZero b) (hv : 0 < v) : NoZero (b.insert k v) := by
  intro k' v' hfind
  rw [Dict.find_insert] at hfind
  split_ifs at hfind
  · exact Option.some.inj hfind ▸ hv
  · exact h k' v' hfind

theorem NoZero.erase (h : NoZero b) : NoZero (b.erase k) := by
  intro k' v' hfind
  rw [Dict.find_erase] at hfind
  split_ifs at hfind
  exact h k' v' hfind

/-- Adding what the balance can hold leaves no entry at zero. -/
theorem NoZero.add (h : NoZero b) (hty : dictAsset.find a = some ty) (hx : 0 ≤ x)
    (hkeep : saved round dictAsset ⟨u, t, a⟩ (balanceOf b ⟨u, t, a⟩ + x) =
      balanceOf b ⟨u, t, a⟩ + x) (hgrid : OnGrid ty.precSave x)
    (hrun : balanceAdd (ratMpd round) dictAsset b u t a x = some b') : NoZero b' := by
  rw [saved_of_find hty] at hkeep
  simp only [balanceAdd, hty, ratMpd_cmp_lt, ratMpd_zero, not_lt.mpr hx, if_false,
    balanceGet] at hrun
  cases hb : b.find ⟨u, t, a⟩ with
  | some r =>
    have hr : balanceOf b ⟨u, t, a⟩ = r := by simp [balanceOf, hb]
    rw [hr] at hkeep
    simp only [hb, ratMpd_add, ratMpd_rescale, neg_neg, hkeep, Option.some.injEq] at hrun
    subst hrun
    exact h.insert (add_pos_of_pos_of_nonneg (h _ _ hb) hx)
  | none =>
    simp only [hb, balanceSet, hty, ratMpd_cmp_lt, ratMpd_zero, not_lt.mpr hx, if_false,
      ratMpd_cmp_eq, ratMpd_rescale, neg_neg, truncTo_of_onGrid hgrid] at hrun
    split_ifs at hrun with hx0
    · exact Option.some.inj hrun ▸ h.erase
    · exact Option.some.inj hrun ▸ h.insert (lt_of_le_of_ne hx (Ne.symm hx0))

/-- An entry that goes down to zero is deleted. -/
theorem NoZero.lower {r : ℚ} (hr : RoundsDown round) (h : NoZero b) (hle : x ≤ r)
    (hkeep : truncTo ty.precSave (round (r - x)) = r - x) :
    NoZero (balanceLower (ratMpd round) b u t a ty r x) := by
  simp only [balanceLower, ratMpd_sub, ratMpd_zero, ratMpd_cmp_eq, ratMpd_rescale, neg_neg,
    balanceDel, hkeep]
  split_ifs with h0
  · exact h.erase
  · refine h.insert (lt_of_le_of_ne (sub_nonneg.mpr hle) fun hzero => h0 ?_)
    rw [← hzero, hr.zero]

theorem NoZero.sub (hr : RoundsDown round) (h : NoZero b) (hty : dictAsset.find a = some ty)
    (hkeep : saved round dictAsset ⟨u, t, a⟩ (balanceOf b ⟨u, t, a⟩ - x) =
      balanceOf b ⟨u, t, a⟩ - x)
    (hrun : balanceSub (ratMpd round) dictAsset b u t a x = some b') : NoZero b' := by
  rw [saved_of_find hty] at hkeep
  simp only [balanceSub, hty, balanceGet] at hrun
  split_ifs at hrun
  cases hb : b.find ⟨u, t, a⟩ with
  | none => simp [hb] at hrun
  | some r =>
    have hr' : balanceOf b ⟨u, t, a⟩ = r := by simp [balanceOf, hb]
    rw [hr'] at hkeep
    simp only [hb] at hrun
    split_ifs at hrun with hlt
    exact Option.some.inj hrun ▸ h.lower hr (not_lt.mp (by simpa using hlt)) hkeep

theorem NoZero.move (hr : RoundsDown round) (h : NoZero b) (hty : dictAsset.find a = some ty)
    (hgrid : OnGrid ty.precSave x)
    (hsrc : saved round dictAsset ⟨u, src, a⟩ (balanceOf b ⟨u, src, a⟩ - x) =
      balanceOf b ⟨u, src, a⟩ - x)
    (hdst : saved round dictAsset ⟨u, dst, a⟩ (balanceOf b ⟨u, dst, a⟩ + x) =
      balanceOf b ⟨u, dst, a⟩ + x)
    (hrun : balanceMove (ratMpd round) dictAsset b src dst u a x = some b') : NoZero b' := by
  rw [saved_of_find hty] at hsrc
  simp only [balanceMove, hty, balanceGet] at hrun
  split_ifs at hrun with hneg
  have hx : 0 ≤ x := not_lt.mp (by simpa using hneg)
  cases hb : b.find ⟨u, src, a⟩ with
  | none => simp [hb] at hrun
  | some r =>
    have hr' : balanceOf b ⟨u, src, a⟩ = r := by simp [balanceOf, hb]
    rw [hr'] at hsrc
    simp only [hb] at hrun
    split_ifs at hrun with hlt
    cases hadd : balanceAdd (ratMpd round) dictAsset b u dst a x with
    | none => simp [hadd] at hrun
    | some b₁ =>
      simp only [hadd] at hrun
      exact Option.some.inj hrun ▸
        (h.add hty hx hdst hgrid hadd).lower hr (not_lt.mp (by simpa using hlt)) hsrc

/-- A call that posts its amount exactly leaves no entry at zero. -/
theorem NoZero.run {c : BalanceCall ℚ} (hr : RoundsDown round) (h : NoZero b)
    (hc : c.Good round dictAsset)
    (hkeep : Keeps (saved round dictAsset) (balanceOf b) c.postings)
    (hfits : ∀ p ∈ c.postings, Fits dictAsset p.1 p.2)
    (hrun : c.run (ratMpd round) dictAsset b = some b') : NoZero b' := by
  obtain ⟨hx, ⟨ty, hty⟩, -⟩ := hc
  cases c with
  | add u t a x => exact h.add hty hx.le hkeep.1 (hfits _ (List.mem_singleton_self _) ty hty) hrun
  | sub u t a x =>
    have hty : dictAsset.find a = some ty := hty
    exact h.sub hr hty (by simpa [sub_eq_add_neg] using hkeep.1) hrun
  | freeze u a x =>
    have hty : dictAsset.find a = some ty := hty
    obtain ⟨hsrc, hdst, -⟩ := hkeep
    rw [post_of_ne _ _ (by simp)] at hdst
    exact h.move hr hty (hfits (⟨u, .freeze, a⟩, x) (by simp [BalanceCall.postings]) ty hty)
      (by simpa [sub_eq_add_neg] using hsrc) hdst hrun
  | unfreeze u a x =>
    have hty : dictAsset.find a = some ty := hty
    obtain ⟨hsrc, hdst, -⟩ := hkeep
    rw [post_of_ne _ _ (by simp)] at hdst
    exact h.move hr hty (hfits (⟨u, .available, a⟩, x) (by simp [BalanceCall.postings]) ty hty)
      (by simpa [sub_eq_add_neg] using hsrc) hdst hrun

theorem NoZero.callAll {l : Ledger ℚ} {cs : List (BalanceCall ℚ)} (hr : RoundsDown round)
    (h : NoZero l.dictBalance) (hc : ∀ c ∈ cs, c.Good round l.dictAsset)
    (hcov : Covers (saved round l.dictAsset) l.balance (postings cs))
    (hkeep : Keeps (saved round l.dictAsset) l.balance (postings cs))
    (hfits : ∀ p ∈ postings cs, Fits l.dictAsset p.1 p.2) :
    NoZero (l.callAll (ratMpd round) cs).dictBalance := by
  induction cs generalizing l with
  | nil => exact h
  | cons c cs ih =>
    obtain ⟨hgood, hgoods⟩ := List.forall_mem_cons.mp hc
    rw [postings_cons, covers_append] at hcov
    rw [postings_cons, keeps_append] at hkeep
    rw [postings_cons] at hfits
    obtain ⟨hbal, -, -⟩ := Ledger.call_spec hr hgood hcov.1
    obtain ⟨b', hrun, -, -⟩ := c.run_spec hr hgood hcov.1
    have hcall : NoZero (l.call (ratMpd round) c).dictBalance := by
      simp only [Ledger.call, hrun]
      exact h.run hr hgood hkeep.1 (fun p hp => hfits p (List.mem_append_left _ hp)) hrun
    rw [Ledger.callAll_cons]
    refine ih hcall (by simpa using hgoods) ?_ ?_ ?_
    · rw [hbal, Ledger.call_dictAsset]
      exact hcov.2
    · rw [hbal, Ledger.call_dictAsset]
      exact hkeep.2
    · rw [Ledger.call_dictAsset]
      exact fun p hp => hfits p (List.mem_append_right _ hp)

theorem stable_noZero (hr : RoundsDown round) (real : Bool) :
    Stable round real fun s => NoZero s.ledger.dictBalance where
  quiet {s s'} h hj := by
    have hl : s'.ledger = s.ledger := congrArg Prod.fst h
    rw [hl]
    exact hj
  pay {S x e i t} h hask hbid hj := by
    have hsilent := silent_payTrade (ratMpd round) real x e i t
    rw [payTrade_false] at hsilent
    have hl : (payTrade (ratMpd round) real x e i t).ledger =
        e.statics.ledger.callAll (ratMpd round)
          (tradeCalls (ratMpd round) x e.market e.taker (e.market.order i) t) :=
      (congrArg (fun s : Statics ℚ => s.ledger) hsilent).symm
    rw [hl]
    exact hj.callAll hr h.good h.covers h.keeps h.fits
  move {S s c} hc h hj := by
    have hcall := hj.callAll hr h.good h.covers h.keeps h.fits
    exact hcall

end NoZero

namespace Engine

variable {real : Bool} {e₀ e e' : Engine ℚ} {op : Op ℚ} {dictAsset : Dict String AssetType}
  {confs : List (MarketConf ℚ)} {ops : List (Op ℚ)} {a : String}

/-- A change that fits leaves no entry at zero. -/
theorem noZero_applyChange {l : Ledger ℚ} {u : ℕ} {change : ℚ} {b : Dict BalanceKey ℚ}
    {ty : AssetType} (h : NoZero l.dictBalance) (hty : l.dictAsset.find a = some ty)
    (hgrid : OnGrid ty.precSave change)
    (habs : roundDown 34 |change| = |change|)
    (hkeep : saved (roundDown 34) l.dictAsset ⟨u, .available, a⟩
      (l.balance ⟨u, .available, a⟩ + change) = l.balance ⟨u, .available, a⟩ + change)
    (hrun : applyChange decimal128 l u a change = some b) : NoZero b := by
  unfold applyChange at hrun
  simp only [ratMpd_abs, habs, ge_iff_le, ratMpd_zero, ratMpd_cmp_nonneg] at hrun
  split_ifs at hrun with hsign
  · rw [abs_of_nonneg hsign] at hrun
    exact h.add hty hsign hkeep hgrid hrun
  · rw [abs_of_neg (not_le.mp hsign)] at hrun
    exact h.sub roundsDown_roundDown hty (by rw [sub_neg_eq_add]; exact hkeep) hrun

/-- A run that loses no digit is solvent, and has no entry at zero. -/
theorem noZero_run (hinit : Engine.init decimal128 dictAsset confs = some e₀)
    (hexact : Along decimal128 real Exact e₀ ops) (hrun : e₀.run decimal128 real ops = some e) :
    Solvent (fun y => 0 ≤ y ∧ y ≤ 1) e₀ e ∧ NoZero e.statics.ledger.dictBalance := by
  have hr := roundsDown_roundDown
  refine run_induction (P := fun e => Solvent (fun y => 0 ≤ y ∧ y ≤ 1) e₀ e ∧
    NoZero e.statics.ledger.dictBalance) (fun e op e' hstart hop hstep => ?_) hexact
    ⟨solvent_init hinit, ?_⟩ hrun
  · obtain ⟨h, hj⟩ := hstart
    have hpays := hop.pays hinit h hstep
    refine ⟨h.step hinit roundsDigits_roundDown (fun _ hy => hy.2) hpays hstep, ?_⟩
    refine Stable.step (stable_noZero hr real) hinit roundsDigits_roundDown (fun _ h => h) h hpays
      hop.2.1 hstep (fun args padding now s d hupdate hupd hj => ?_) hj
    subst hupdate
    obtain ⟨b, hb, hl, -⟩ := updateUserBalance_cases hupd
    obtain ⟨-, hkeep, -, ty, hty, hgrid⟩ := hop.2.2.applyChange h.sound hb
    rw [hl]
    refine noZero_applyChange hj hty hgrid ?_ hkeep.1 hb
    obtain ⟨-, hroom⟩ := hop.2.2 ty hty
    have hsupply : 0 ≤ supply e.statics.ledger.dictBalance args.asset :=
      (h.sound.nonneg ⟨0, .available, args.asset⟩).trans (balanceOf_le_supply h.sound _)
    refine roundDown_of_onGrid (p := ty.precSave) ?_ (by rw [abs_abs]; push_cast; linarith)
    rcases abs_choice args.change with habs | habs <;> rw [habs]
    · exact hgrid
    · exact hgrid.neg
  · obtain ⟨hledger, -⟩ := init_spec hinit
    rw [hledger]
    exact fun k v hfind => by simp at hfind

end Engine

/-! ## What the summaries show -/

/-- A sum split by users. -/
theorem sum_users {users : Finset ℕ} {l : List ℕ} (user : ℕ → ℕ) (f : ℕ → ℚ)
    (h : ∀ i ∈ l, user i ∈ users) :
    ∑ u ∈ users, (l.map fun i => if user i = u then f i else 0).sum = (l.map f).sum := by
  induction l with
  | nil => simp
  | cons i l ih =>
    obtain ⟨hi, hl⟩ := List.forall_mem_cons.mp h
    simp only [List.map_cons, List.sum_cons, Finset.sum_add_distrib, ih hl, Finset.sum_ite_eq, hi,
      if_true]

/-- What the orders of a market hold in an asset: the stock on offer, and what the bids may cost. -/
def Market.heldFor (m : Market ℚ) (a : String) : ℚ :=
  (if m.stock = a then (m.asks.map fun i => (m.order i).left).sum else 0) +
    if m.money = a then (m.bids.map fun i => (m.order i).price * (m.order i).left).sum else 0

/-- The summary of an asset, next to the requests so far, the summaries of the markets and the
balances of the users. -/
structure AssetSummary.AddsUp (e : Engine ℚ) (ops : List (Op ℚ)) (s : AssetSummary ℚ) : Prop where
  parts : s.totalBalance = s.availableBalance + s.freezeBalance
  supplied : s.totalBalance = changesIn s.name ops - feesIn s.name e.statics.trades
  frozen : s.freezeBalance = e.dictMarket.sum fun name m =>
    (if m.stock = s.name then (getMarketSummary decimal128 name m).askAmount else 0) +
      if m.money = s.name then (m.bids.map fun i => (m.order i).price * (m.order i).left).sum else 0
  availableCount : s.availableCount =
    {u | 0 < e.statics.ledger.balance ⟨u, .available, s.name⟩}.ncard
  freezeCount : s.freezeCount = {u | 0 < e.statics.ledger.balance ⟨u, .freeze, s.name⟩}.ncard

/-- The users that have some of an asset are counted. -/
theorem Iterates.heldIn_length {b : Dict BalanceKey ℚ} {entries : List (BalanceKey × ℚ)}
    (h : Iterates b entries) (hz : NoZero b) (a : String) (type : BalanceType) :
    (heldIn entries a type).length = {u | 0 < balanceOf b ⟨u, type, a⟩}.ncard := by
  let held := entries.filter fun entry => entry.1.asset = a ∧ entry.1.type = type
  have hmem : ∀ entry ∈ held, entry ∈ entries ∧ entry.1 = ⟨entry.1.userId, type, a⟩ :=
    fun entry hentry => by
      obtain ⟨hin, hkey⟩ := List.mem_filter.mp hentry
      obtain ⟨rfl, rfl⟩ := of_decide_eq_true hkey
      exact ⟨hin, rfl⟩
  have hnodup : (held.map fun entry => entry.1.userId).Nodup := by
    have hkeys : (held.map Prod.fst).Nodup := h.nodup.sublist (List.filter_sublist.map _)
    have hmap : held.map (fun entry => entry.1.userId) =
        (held.map Prod.fst).map BalanceKey.userId := List.map_map.symm
    rw [hmap]
    refine hkeys.map_on fun k hk k' hk' heq => ?_
    obtain ⟨entry, hentry, rfl⟩ := List.mem_map.mp hk
    obtain ⟨entry', hentry', rfl⟩ := List.mem_map.mp hk'
    rw [(hmem entry hentry).2, (hmem entry' hentry').2, heq]
  have hset : {u | 0 < balanceOf b ⟨u, type, a⟩} =
      ((held.map fun entry => entry.1.userId).toFinset : Set ℕ) := by
    ext u
    simp only [Set.mem_ofPred_eq, List.coe_toFinset, List.mem_map]
    constructor
    · intro hpos
      have hin := (h.mem_iff _ _).mpr (find_of_pos hpos)
      exact ⟨_, List.mem_filter.mpr ⟨hin, by simp⟩, rfl⟩
    · rintro ⟨entry, hentry, rfl⟩
      obtain ⟨hin, hkey⟩ := hmem entry hentry
      have hfind := (h.mem_iff entry.1 entry.2).mp hin
      rw [← hkey, balanceOf, hfind]
      exact hz _ _ hfind
  rw [hset, Set.ncard_coe_finset, List.toFinset_card_of_nodup hnodup, List.length_map, heldIn,
    List.length_map]

namespace Engine

variable {real : Bool} {e₀ e : Engine ℚ} {dictAsset : Dict String AssetType} {F : ℚ → Prop}
  {confs : List (MarketConf ℚ)} {ops : List (Op ℚ)} {a : String}

/-- The users of the balances and of the open orders. -/
theorem exists_users (e : Engine ℚ) :
    ∃ users : Finset ℕ, (∀ k ∈ e.statics.ledger.dictBalance.keys, k.userId ∈ users) ∧
      ∀ name m, e.dictMarket.find name = some m → ∀ side, ∀ i ∈ m.book side,
        (m.order i).userId ∈ users := by
  let booked : String → Finset ℕ := fun name =>
    match e.dictMarket.find name with
    | none => ∅
    | some m => ((m.asks ++ m.bids).map fun i => (m.order i).userId).toFinset
  refine ⟨e.statics.ledger.dictBalance.keys.image BalanceKey.userId ∪
    e.dictMarket.keys.biUnion booked, fun k hk => ?_, fun name m hm side i hi => ?_⟩
  · exact Finset.mem_union_left _ (Finset.mem_image_of_mem _ hk)
  · refine Finset.mem_union_right _ (Finset.mem_biUnion.mpr
      ⟨name, Finmap.mem_keys.mpr (Dict.mem_of_find hm), ?_⟩)
    simp only [booked, hm, List.mem_toFinset, List.mem_map, List.mem_append]
    cases side with
    | ask => exact ⟨i, Or.inl hi, rfl⟩
    | bid => exact ⟨i, Or.inr hi, rfl⟩

/-- What is frozen in an asset is what the orders of the markets hold. -/
theorem Solvent.sum_freeze (h : Solvent F e₀ e) (a : String) :
    (e.statics.ledger.dictBalance.sum fun k v => if k.asset = a ∧ k.type = .freeze then v else 0) =
      e.dictMarket.sum fun _ m => m.heldFor a := by
  obtain ⟨users, hkeys, hbooks⟩ := exists_users e
  rw [sum_type _ a .freeze hkeys]
  have hfrozen : ∀ u ∈ users, balanceOf e.statics.ledger.dictBalance ⟨u, .freeze, a⟩ =
      e.dictMarket.sum fun _ m => m.frozenIn u a := fun u _ => h.frozen u a
  rw [Finset.sum_congr rfl hfrozen, Dict.sum_finset_sum]
  refine Dict.sum_congr fun name m hm => ?_
  have hbacked : ∀ side, ∀ i ∈ m.book side, (m.order i).freeze = restFreeze exactDecimal (m.order i) :=
    fun side i hi => ((h.markets name m hm).each i ((h.markets name m hm).book.wf.mem side i hi)).freeze
  have hside : ∀ side, ∑ u ∈ users, m.frozenOn side u =
      ((m.book side).map fun i => restFreeze exactDecimal (m.order i)).sum := fun side => by
    unfold Market.frozenOn
    rw [sum_users (fun i => (m.order i).userId) (fun i => (m.order i).freeze) (hbooks name m hm side)]
    exact congrArg List.sum (List.map_congr_left (hbacked side))
  have hask : ((m.book .ask).map fun i => restFreeze exactDecimal (m.order i)) =
      m.asks.map fun i => (m.order i).left := List.map_congr_left fun i hi => by
    unfold restFreeze
    rw [(h.markets name m hm).book.wf.side .ask i hi]
  have hbid : ((m.book .bid).map fun i => restFreeze exactDecimal (m.order i)) =
      m.bids.map fun i => (m.order i).price * (m.order i).left := List.map_congr_left fun i hi => by
    unfold restFreeze
    rw [(h.markets name m hm).book.wf.side .bid i hi]
    simp
  unfold Market.frozenIn Market.heldFor
  rw [Finset.sum_add_distrib, ← hask, ← hbid, ← hside, ← hside]
  congr 1
  · split_ifs
    · rfl
    · exact Finset.sum_const_zero
  · split_ifs
    · rfl
    · exact Finset.sum_const_zero

/-- What is on offer is not more than what is frozen. -/
theorem Solvent.asks_le_supply (h : Solvent F e₀ e) {name : String} {m : Market ℚ}
    (hm : e.dictMarket.find name = some m) :
    (m.asks.map fun i => (m.order i).left).sum ≤ supply e.statics.ledger.dictBalance m.stock := by
  have hpos : ∀ name m, e.dictMarket.find name = some m → ∀ side, ∀ i ∈ m.book side,
      0 < (m.order i).left ∧ 0 < (m.order i).price := fun name m hm side i hi =>
    ⟨(h.markets name m hm).book.left side i hi, (h.markets name m hm).book.price side i hi⟩
  have hasks : ∀ name m, e.dictMarket.find name = some m →
      0 ≤ (m.asks.map fun i => (m.order i).left).sum := fun name m hm =>
    List.sum_nonneg fun x hx => by
      obtain ⟨i, hi, rfl⟩ := List.mem_map.mp hx
      exact (hpos name m hm .ask i hi).1.le
  have hbids : ∀ name m, e.dictMarket.find name = some m →
      0 ≤ (m.bids.map fun i => (m.order i).price * (m.order i).left).sum := fun name m hm =>
    List.sum_nonneg fun x hx => by
      obtain ⟨i, hi, rfl⟩ := List.mem_map.mp hx
      exact mul_nonneg (hpos name m hm .bid i hi).2.le (hpos name m hm .bid i hi).1.le
  have hheld : ∀ name m, e.dictMarket.find name = some m → ∀ a, 0 ≤ m.heldFor a :=
    fun name m hm a => by
      unfold Market.heldFor
      split_ifs <;> linarith [hasks name m hm, hbids name m hm]
  have hfrozen := sum_le_supply (p := fun k => k.asset = m.stock ∧ k.type = .freeze) h.sound
    fun k hk => (of_decide_eq_true hk).1
  simp only [decide_eq_true_eq, h.sum_freeze m.stock] at hfrozen
  calc (m.asks.map fun i => (m.order i).left).sum
      ≤ m.heldFor m.stock := by
        unfold Market.heldFor
        rw [if_pos rfl]
        split_ifs <;> linarith [hbids name m hm]
    _ ≤ e.dictMarket.sum fun _ m' => m'.heldFor m.stock :=
        Dict.le_sum (f := fun _ m' => m'.heldFor m.stock) hm fun name m' hm' =>
          hheld name m' hm' m.stock
    _ ≤ supply e.statics.ledger.dictBalance m.stock := hfrozen

/-- `market_get_status` adds up the asks exactly. -/
theorem Solvent.askAmount (hinit : Engine.init decimal128 dictAsset confs = some e₀)
    (h : Solvent F e₀ e) (hroom : e.HasRoom (roundDown 34)) {name : String} {m : Market ℚ}
    (hm : e.dictMarket.find name = some m) :
    (getMarketSummary decimal128 name m).askAmount =
      (m.asks.map fun i => (m.order i).left).sum := by
  obtain ⟨stock, money, hok⟩ := h.sane.confOk hinit hm
  have hle := h.asks_le_supply hm
  have hnonneg : 0 ≤ supply e.statics.ledger.dictBalance m.stock :=
    (h.sound.nonneg ⟨0, .available, m.stock⟩).trans (balanceOf_le_supply h.sound _)
  have hparts : ∀ x ∈ m.asks.map fun i => (m.order i).left, 0 ≤ x ∧ OnGrid stock.precSave x := by
    intro x hx
    obtain ⟨i, hi, rfl⟩ := List.mem_map.mp hx
    have hbacked := (h.markets name m hm).each i ((h.markets name m hm).book.wf.mem .ask i hi)
    refine ⟨((h.markets name m hm).book.left .ask i hi).le, hbacked.left.mono ?_⟩
    have hprec : m.conf.stockPrec ≤ stock.precSave := Nat.le_of_add_right_le hok.stockFee
    exact_mod_cast hprec
  have hexact := foldl_add_exact (b := 0) (B := 4 * supply e.statics.ledger.dictBalance m.stock)
    (fun y hy hle => hroom m.stock stock y hok.findStock hy hle) hparts le_rfl (OnGrid.zero _)
    (by linarith)
  rw [zero_add, List.foldl_map] at hexact
  exact hexact

/-- The sums of `balance_status`, exact. -/
theorem Solvent.summary (h : Solvent F e₀ e) (hroom : e.HasRoom (roundDown 34))
    {entries : List (BalanceKey × ℚ)}
    (hentries : Iterates e.statics.ledger.dictBalance entries)
    (hasset : assetExist e.statics.ledger.dictAsset a = true) :
    (getAssetSummary decimal128 entries a).totalBalance = supply e.statics.ledger.dictBalance a ∧
      (getAssetSummary decimal128 entries a).availableBalance =
        (e.statics.ledger.dictBalance.sum fun k v =>
          if k.asset = a ∧ k.type = .available then v else 0) ∧
      (getAssetSummary decimal128 entries a).freezeBalance =
        (e.statics.ledger.dictBalance.sum fun k v =>
          if k.asset = a ∧ k.type = .freeze then v else 0) := by
  obtain ⟨ty, hty⟩ := Option.isSome_iff_exists.mp hasset
  have htotal := hentries.foldl_add (p := fun k => k.asset = a) h.sound hroom hty
    fun k hk => of_decide_eq_true hk
  have htype := fun type => hentries.foldl_add (p := fun k => k.asset = a ∧ k.type = type) h.sound
    hroom hty fun k hk => (of_decide_eq_true hk).1
  simp only [decide_eq_true_eq] at htotal htype
  simp only [getAssetSummary, balanceStatus_eq]
  exact ⟨htotal, htype .available, htype .freeze⟩

theorem mem_summaryAssets {dictAsset : Dict String AssetType} {params : List Json}
    {names : List String} (h : summaryAssets dictAsset params = .ok names) :
    ∀ name ∈ names, assetExist dictAsset name = true := by
  induction params generalizing names with
  | nil =>
    obtain rfl := Except.ok.inj h
    exact fun name hname => by cases hname
  | cons param params ih =>
    cases param with
    | string asset =>
      simp only [summaryAssets, read_bind, check_ok] at h
      obtain ⟨-, hasset, rest, hrest, hnames⟩ := h
      obtain rfl := Except.ok.inj hnames
      exact List.forall_mem_cons.mpr ⟨hasset, ih hrest⟩
    | _ => simp [summaryAssets] at h

/-- In a run that loses no digit, every summary of an asset adds up. -/
theorem asset_summary_adds_up (hinit : Engine.init decimal128 dictAsset confs = some e₀)
    (hrun : e₀.run decimal128 real ops = some e) (hexact : Along decimal128 real Exact e₀ ops)
    (hsmall : e.Small) {entries : List (BalanceKey × ℚ)}
    (hentries : Iterates e.statics.ledger.dictBalance entries) {assets : List String}
    (hassets : ∀ name ∈ assets, assetExist dictAsset name = true) {params : List Json}
    {summaries : List (AssetSummary ℚ)}
    (hreply : e.onCmdAssetSummary decimal128 entries assets params = .ok summaries) :
    ∀ s ∈ summaries, s.AddsUp e ops := by
  obtain ⟨hsolvent, hz⟩ := noZero_run hinit hexact hrun
  have hroom := hsmall.hasRoom
  have hknown : ∀ s ∈ summaries, ∃ a, assetExist e.statics.ledger.dictAsset a = true ∧
      s = getAssetSummary decimal128 entries a := by
    intro s hs
    unfold onCmdAssetSummary at hreply
    split_ifs at hreply
    · obtain rfl := Except.ok.inj hreply
      obtain ⟨a, ha, rfl⟩ := List.mem_map.mp hs
      refine ⟨a, ?_, rfl⟩
      rw [hsolvent.sane.assets, (init_spec hinit).1]
      exact hassets a ha
    · obtain ⟨names, hnames, hmap⟩ := read_bind.mp hreply
      obtain rfl := Except.ok.inj hmap
      obtain ⟨a, ha, rfl⟩ := List.mem_map.mp hs
      exact ⟨a, mem_summaryAssets hnames a ha, rfl⟩
  have hconserved : ∀ a, supply e.statics.ledger.dictBalance a =
      changesIn a ops - feesIn a e.statics.trades := by
    intro a
    have hstart : Conserved a 0 e₀.statics := by
      obtain ⟨hledger, htrades, -⟩ := init_spec hinit
      unfold Conserved
      rw [hledger, htrades]
      simp [supply, feesIn]
    have hend := conserved_run hinit (solvent_init hinit) hexact hrun hstart
    unfold Conserved at hend
    linarith
  intro s hs
  obtain ⟨a, ha, rfl⟩ := hknown s hs
  obtain ⟨htotal, havailable, hfreeze⟩ := hsolvent.summary hroom hentries ha
  refine ⟨?_, htotal.trans (hconserved a), ?_, ?_, ?_⟩
  · rw [htotal, havailable, hfreeze, supply_split]
  · rw [hfreeze, hsolvent.sum_freeze]
    refine Dict.sum_congr fun name m hm => ?_
    rw [hsolvent.askAmount hinit hroom hm]
    rfl
  · simp only [getAssetSummary, balanceStatus_eq]
    exact hentries.heldIn_length hz a .available
  · simp only [getAssetSummary, balanceStatus_eq]
    exact hentries.heldIn_length hz a .freeze

instance (e : Engine ℚ) : Decidable e.Small :=
  inferInstanceAs (Decidable (∀ a ∈ e.statics.ledger.dictAsset.keys, _ < _))

end Engine

/-- A bid and an ask of one user rest after two trades with fees. -/
def summaryOps : List (Op ℚ) :=
  [deposit 1 "CNY" 1 10, deposit 2 "BTC" 2 6, limitOrder 2 .ask 5 1 0 0,
    limitOrder 1 .bid 9 1 (1 / 10) (1 / 100),
    .marketOrder ⟨2, "BTCCNY", .ask, 1, 1 / 10, "web"⟩, limitOrder 1 .ask 2 4 0 0]

theorem asset_summary_adds_up_both :
    ∃ e₀ e entries, Engine.init decimal128 exampleAssets [exampleConf 8] = some e₀ ∧
      e₀.run decimal128 true summaryOps = some e ∧
      e.onCmdAssetSummary decimal128 entries ["BTC", "CNY"] [.string "CNY", .string "BTC"] =
        .ok [⟨"CNY", 47 / 5, 2, 32 / 5, 1, 3⟩, ⟨"BTC", 599 / 100, 1, 399 / 100, 1, 2⟩] ∧
      (⟨"CNY", 47 / 5, 2, 32 / 5, 1, 3⟩ : AssetSummary ℚ).AddsUp e summaryOps ∧
      (⟨"BTC", 599 / 100, 1, 399 / 100, 1, 2⟩ : AssetSummary ℚ).AddsUp e summaryOps := by
  let entries : List (BalanceKey × ℚ) :=
    [(⟨2, .available, "CNY"⟩, 59 / 10), (⟨1, .freeze, "BTC"⟩, 2), (⟨1, .available, "CNY"⟩, 1 / 2),
      (⟨1, .freeze, "CNY"⟩, 3), (⟨1, .available, "BTC"⟩, 399 / 100)]
  obtain ⟨e₀, e, hinit, hrun, hcheck⟩ := exampleRun_spec
    (by decide +kernel : (exampleRun decimal128 8 summaryOps).any (fun e =>
      decide (e.Small ∧ Iterates e.statics.ledger.dictBalance entries ∧
        (e.onCmdAssetSummary decimal128 entries ["BTC", "CNY"]
          [.string "CNY", .string "BTC"]).toOption =
            some [⟨"CNY", 47 / 5, 2, 32 / 5, 1, 3⟩, ⟨"BTC", 599 / 100, 1, 399 / 100, 1, 2⟩])) = true)
  obtain ⟨hsmall, hentries, hreply⟩ := of_decide_eq_true hcheck
  have hreply' : e.onCmdAssetSummary decimal128 entries ["BTC", "CNY"]
      [.string "CNY", .string "BTC"] = .ok
        [⟨"CNY", 47 / 5, 2, 32 / 5, 1, 3⟩, ⟨"BTC", 599 / 100, 1, 399 / 100, 1, 2⟩] := by
    cases hresult : e.onCmdAssetSummary decimal128 entries ["BTC", "CNY"]
        [.string "CNY", .string "BTC"] with
    | error refusal => simp [hresult, Except.toOption] at hreply
    | ok summaries => simpa [hresult, Except.toOption] using hreply
  have hexact : Engine.Along decimal128 true Engine.Exact e₀ summaryOps :=
    of_decide_eq_true (exampleInit_spec (fun e₀ => decide (Engine.Along decimal128 true
      Engine.Exact e₀ summaryOps)) hinit (by decide +kernel))
  have hadds := Engine.asset_summary_adds_up hinit hrun hexact hsmall hentries (by decide) hreply'
  exact ⟨e₀, e, entries, hinit, hrun, hreply', hadds _ (by simp), hadds _ (by simp)⟩

end ViabtcExchange
