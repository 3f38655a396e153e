import ViabtcExchange.Transfers
import ViabtcExchange.Update

/-!
# Whole units (`me_balance.c`)

The functions on balances round to the context and cut to `prec_save` digits. In whole units of
10^-prec_save nothing is cut: an entry that is to hold a positive amount holds a positive one, and
holds it exactly as long as it has no more than 34 digits (`Holds`).

**Theorem (`run_holds`).** A call for a number of units that succeeds leaves in every entry what it
is to hold, and there are no entries of zero.
-/

namespace ViabtcExchange

/-- The least amount of an asset with more digits than the context. -/
def ceiling (dictAsset : Dict String AssetType) (a : String) : ℚ := 10 ^ (34 - assetPrec dictAsset a)

/-- All balances fit the context. -/
def Below (dictAsset : Dict String AssetType) (b : Dict BalanceKey ℚ) : Prop :=
  ∀ k ∈ b.keys, balanceOf b k < ceiling dictAsset k.asset

theorem Below.lt {dictAsset : Dict String AssetType} {b : Dict BalanceKey ℚ} (h : Below dictAsset b)
    {k : BalanceKey} {v : ℚ} (hv : b.find k = some v) : v < ceiling dictAsset k.asset := by
  have hlt := h k (Finmap.mem_keys.mpr (Dict.mem_of_find hv))
  rwa [balanceOf, hv] at hlt

theorem ceiling_pos (dictAsset : Dict String AssetType) (a : String) : 0 < ceiling dictAsset a :=
  ten_zpow_pos _

theorem Below.balance_lt {dictAsset : Dict String AssetType} {b : Dict BalanceKey ℚ}
    (h : Below dictAsset b) (k : BalanceKey) : balanceOf b k < ceiling dictAsset k.asset := by
  cases hk : b.find k with
  | none =>
    rw [balanceOf, hk]
    exact ceiling_pos _ _
  | some v =>
    rw [balanceOf, hk]
    exact h.lt hk

/-- The entries are positive numbers of units. -/
structure Units (dictAsset : Dict String AssetType) (b : Dict BalanceKey ℚ) : Prop where
  pos : ∀ k v, b.find k = some v → 0 < v
  onGrid : ∀ k v, b.find k = some v → OnGrid (assetPrec dictAsset k.asset) v

/-- A call for a number of units. -/
def BalanceCall.Whole (dictAsset : Dict String AssetType) (c : BalanceCall ℚ) : Prop :=
  OnGrid (assetPrec dictAsset c.asset) c.amount

/-- What is stored of a number `x` of units. -/
structure Holds (p : ℤ) (x y : ℚ) : Prop where
  nonneg : 0 ≤ x
  onGrid : OnGrid p y
  zero : x = 0 → y = 0
  pos : 0 < x → 0 < y
  exact : y < 10 ^ (34 - p) → y = x

section Holds

variable {p : ℤ} {x y : ℚ}

theorem holds_self (hgrid : OnGrid p x) (hx : 0 ≤ x) : Holds p x x :=
  ⟨hx, hgrid, id, id, fun _ => rfl⟩

theorem onGrid_ceiling (p : ℤ) : OnGrid p (10 ^ (34 - p)) :=
  ⟨10 ^ 34, by rw [← zpow_add₀ (by norm_num : (10 : ℚ) ≠ 0)]; norm_num⟩

theorem lt_of_roundDown_lt {k : ℤ} (h : roundDown 34 x < 10 ^ k) : x < 10 ^ k := by
  by_contra hge
  have hround := roundDown_mono (n := 34) (by norm_num) (ten_zpow_pos k).le (not_lt.mp hge)
  have hunit := roundDown_unit (n := 34) (by norm_num) (-k)
  rw [neg_neg] at hunit
  rw [hunit] at hround
  exact absurd hround (not_le.mpr h)

/-- What is not held as it is comes to no less than the ceiling. -/
theorem lt_ceiling_of_trunc (hx : 0 ≤ x) (h : truncTo p (roundDown 34 x) < 10 ^ (34 - p)) :
    x < 10 ^ (34 - p) := by
  refine lt_of_roundDown_lt (lt_of_not_ge fun hge => ?_)
  have hle := le_truncTo_of_onGrid (onGrid_ceiling p) (roundDown_nonneg 34 hx) hge
  exact absurd hle (not_le.mpr h)

theorem holds_trunc (hgrid : OnGrid p x) (hx : 0 ≤ x) : Holds p x (truncTo p (roundDown 34 x)) := by
  refine ⟨hx, onGrid_truncTo _ _, fun hzero => ?_, truncTo_roundDown_pos (by norm_num) hgrid,
    fun hlt => ?_⟩
  · rw [hzero, roundDown_zero, truncTo_of_onGrid (OnGrid.zero p)]
  have hfits := lt_ceiling_of_trunc hx hlt
  rw [roundDown_of_onGrid hgrid (by rwa [abs_of_nonneg hx]), truncTo_of_onGrid hgrid]

/-- Nothing is stored of nothing. -/
theorem Holds.eq_zero (h : Holds p x y) (hy : y = 0) : x = 0 := by
  by_contra hne
  exact (h.pos (lt_of_le_of_ne h.nonneg (Ne.symm hne))).ne' hy

end Holds

/-! ## One function at a time -/

section Functions

variable {dictAsset : Dict String AssetType} {b b' : Dict BalanceKey ℚ} {u : ℕ} {type : BalanceType}
  {a : String} {ty : AssetType} {x : ℚ}

theorem assetPrec_eq (hty : dictAsset.find a = some ty) : assetPrec dictAsset a = ty.precSave := by
  rw [assetPrec, hty]

namespace Units

theorem nonneg (h : Units dictAsset b) (k : BalanceKey) : 0 ≤ balanceOf b k := by
  unfold balanceOf
  cases hk : b.find k with
  | none => simp
  | some v => exact (h.pos k v hk).le

theorem grid (h : Units dictAsset b) (k : BalanceKey) :
    OnGrid (assetPrec dictAsset k.asset) (balanceOf b k) := by
  unfold balanceOf
  cases hk : b.find k with
  | none => exact OnGrid.zero _
  | some v => exact h.onGrid k v hk

theorem find_eq (h : Units dictAsset b) (k : BalanceKey) : b.find k = entryOf (balanceOf b k) := by
  unfold balanceOf entryOf
  cases hk : b.find k with
  | none => simp
  | some v => simp [(h.pos k v hk).ne']

/-- An entry that is not touched. -/
theorem holds (h : Units dictAsset b) (k : BalanceKey) :
    Holds (assetPrec dictAsset k.asset) (balanceOf b k) (balanceOf b k) :=
  holds_self (h.grid k) (h.nonneg k)

end Units

/-- The entry `key` holds `x`, the others what they did. -/
def Stores (dictAsset : Dict String AssetType) (b b' : Dict BalanceKey ℚ) (key : BalanceKey)
    (x : ℚ) : Prop :=
  ∃ y, Holds (assetPrec dictAsset key.asset) x y ∧
    ∀ k, b'.find k = if k = key then entryOf y else b.find k

theorem stores_insert {key : BalanceKey} {y : ℚ} (h : Holds (assetPrec dictAsset key.asset) x y)
    (hx : 0 < x) : Stores dictAsset b (b.insert key y) key x := by
  refine ⟨y, h, fun k => ?_⟩
  rw [Dict.find_insert, entryOf, if_neg (h.pos hx).ne']

theorem stores_erase {key : BalanceKey} : Stores dictAsset b (b.erase key) key 0 := by
  refine ⟨0, holds_self (OnGrid.zero _) le_rfl, fun k => ?_⟩
  rw [Dict.find_erase, entryOf, if_pos rfl]

theorem balanceAdd_stores (h : Units dictAsset b) (hgrid : OnGrid (assetPrec dictAsset a) x)
    (hrun : balanceAdd decimal128 dictAsset b u type a x = some b') :
    0 ≤ x ∧ Stores dictAsset b b' ⟨u, type, a⟩ (balanceOf b ⟨u, type, a⟩ + x) := by
  unfold balanceAdd at hrun
  cases hty : dictAsset.find a with
  | none => simp [hty] at hrun
  | some ty =>
    have hprec := assetPrec_eq hty
    simp only [hty, ratMpd_zero, ratMpd_cmp_lt, balanceGet] at hrun
    split_ifs at hrun with hneg
    rw [not_lt] at hneg
    refine ⟨hneg, ?_⟩
    cases hfind : b.find ⟨u, type, a⟩ with
    | some r =>
      simp only [hfind] at hrun
      obtain rfl := Option.some.inj hrun
      have hr : balanceOf b ⟨u, type, a⟩ = r := by simp [balanceOf, hfind]
      have hpos : 0 < r + x := add_pos_of_pos_of_nonneg (h.pos _ _ hfind) hneg
      rw [hr]
      refine stores_insert ?_ hpos
      rw [ratMpd_rescale, ratMpd_add, neg_neg, ← hprec]
      refine holds_trunc (OnGrid.add ?_ hgrid) hpos.le
      rw [← hr]
      exact h.grid ⟨u, type, a⟩
    | none =>
      have hr : balanceOf b ⟨u, type, a⟩ = 0 := by simp [balanceOf, hfind]
      simp only [hfind, balanceSet, hty, ratMpd_zero, ratMpd_cmp_lt, ratMpd_cmp_eq] at hrun
      rw [if_neg (not_lt.mpr hneg)] at hrun
      rw [hr, zero_add]
      split_ifs at hrun with hzero
      · obtain rfl := Option.some.inj hrun
        rw [hzero]
        exact stores_erase
      · obtain rfl := Option.some.inj hrun
        refine stores_insert ?_ (lt_of_le_of_ne hneg (Ne.symm hzero))
        rw [ratMpd_rescale, neg_neg, ← hprec, truncTo_of_onGrid hgrid]
        exact holds_self hgrid hneg

theorem balanceLower_stores {r : ℚ} (hty : dictAsset.find a = some ty)
    (hgrid : OnGrid ty.precSave (r - x)) (hle : x ≤ r) :
    Stores dictAsset b (balanceLower decimal128 b u type a ty r x) ⟨u, type, a⟩ (r - x) := by
  have hprec := assetPrec_eq hty
  have hnonneg : 0 ≤ r - x := sub_nonneg.mpr hle
  unfold balanceLower
  simp only [ratMpd_sub, ratMpd_zero, ratMpd_cmp_eq, ratMpd_rescale, neg_neg]
  rcases hnonneg.eq_or_lt with hzero | hpos
  · rw [← hzero, roundDown_zero, if_pos rfl]
    exact stores_erase
  · rw [if_neg (roundDown_pos (by norm_num) hpos).ne']
    refine stores_insert ?_ hpos
    rw [← hprec] at hgrid ⊢
    exact holds_trunc hgrid hnonneg

theorem balanceSub_stores (h : Units dictAsset b) (hgrid : OnGrid (assetPrec dictAsset a) x)
    (hrun : balanceSub decimal128 dictAsset b u type a x = some b') :
    Stores dictAsset b b' ⟨u, type, a⟩ (balanceOf b ⟨u, type, a⟩ - x) := by
  unfold balanceSub at hrun
  cases hty : dictAsset.find a with
  | none => simp [hty] at hrun
  | some ty =>
    simp only [hty, ratMpd_zero, ratMpd_cmp_lt, balanceGet] at hrun
    split_ifs at hrun
    cases hfind : b.find ⟨u, type, a⟩ with
    | none => simp [hfind] at hrun
    | some r =>
      simp only [hfind] at hrun
      split_ifs at hrun with hlt
      obtain rfl := Option.some.inj hrun
      have hr : balanceOf b ⟨u, type, a⟩ = r := by simp [balanceOf, hfind]
      have hgridr := (h.grid ⟨u, type, a⟩).sub hgrid
      rw [hr, assetPrec_eq hty] at hgridr
      rw [hr]
      exact balanceLower_stores hty hgridr (not_lt.mp hlt)

theorem balanceMove_stores {src dst : BalanceType} (h : Units dictAsset b)
    (hgrid : OnGrid (assetPrec dictAsset a) x)
    (hrun : balanceMove decimal128 dictAsset b src dst u a x = some b') :
    ∃ b₁, Stores dictAsset b b₁ ⟨u, dst, a⟩ (balanceOf b ⟨u, dst, a⟩ + x) ∧
      Stores dictAsset b₁ b' ⟨u, src, a⟩ (balanceOf b ⟨u, src, a⟩ - x) := by
  unfold balanceMove at hrun
  cases hty : dictAsset.find a with
  | none => simp [hty] at hrun
  | some ty =>
    simp only [hty, ratMpd_zero, ratMpd_cmp_lt, balanceGet] at hrun
    split_ifs at hrun
    cases hfind : b.find ⟨u, src, a⟩ with
    | none => simp [hfind] at hrun
    | some r =>
      simp only [hfind] at hrun
      split_ifs at hrun with hlt
      cases hadd : balanceAdd decimal128 dictAsset b u dst a x with
      | none => simp [hadd] at hrun
      | some b₁ =>
        simp only [hadd] at hrun
        obtain rfl := Option.some.inj hrun
        have hr : balanceOf b ⟨u, src, a⟩ = r := by simp [balanceOf, hfind]
        have hgridr := (h.grid ⟨u, src, a⟩).sub hgrid
        rw [hr, assetPrec_eq hty] at hgridr
        rw [hr]
        exact ⟨b₁, (balanceAdd_stores h hgrid hadd).2,
          balanceLower_stores hty hgridr (not_lt.mp hlt)⟩

theorem Stores.holds {key : BalanceKey} (h : Units dictAsset b)
    (hstores : Stores dictAsset b b' key (balanceOf b key + x)) (k : BalanceKey) :
    ∃ y, Holds (assetPrec dictAsset k.asset) (balanceOf b k + posted [(key, x)] k) y ∧
      b'.find k = entryOf y := by
  obtain ⟨y, hy, hfind⟩ := hstores
  rw [posted_cons, posted_nil, add_zero, hfind]
  by_cases hk : k = key
  · subst hk
    rw [if_pos rfl, if_pos rfl]
    exact ⟨y, hy, rfl⟩
  · rw [if_neg (Ne.symm hk), if_neg hk, add_zero]
    exact ⟨_, h.holds k, h.find_eq k⟩

end Functions

/-! ## Calls -/

section Calls

variable {dictAsset : Dict String AssetType} {b b' : Dict BalanceKey ℚ} {c : BalanceCall ℚ}

/-- The two entries of a move. -/
theorem moved_holds {b₁ : Dict BalanceKey ℚ} {src dst : BalanceKey} {x : ℚ} (h : Units dictAsset b)
    (hne : src ≠ dst) (hadd : Stores dictAsset b b₁ dst (balanceOf b dst + x))
    (hsub : Stores dictAsset b₁ b' src (balanceOf b src - x)) (k : BalanceKey) :
    ∃ y, Holds (assetPrec dictAsset k.asset)
        (balanceOf b k + posted [(src, -x), (dst, x)] k) y ∧ b'.find k = entryOf y := by
  obtain ⟨y, hy, hfind⟩ := hsub
  rw [posted_cons, hfind]
  by_cases hk : k = src
  · subst hk
    rw [if_pos rfl, if_pos rfl, posted_cons, if_neg hne.symm, posted_nil, add_zero, add_zero,
      ← sub_eq_add_neg]
    exact ⟨y, hy, rfl⟩
  · rw [if_neg (Ne.symm hk), if_neg hk, zero_add]
    exact hadd.holds h k

/-- **What a call that succeeds leaves in every entry.** -/
theorem run_holds (h : Units dictAsset b) (hc : c.Whole dictAsset)
    (hrun : c.run decimal128 dictAsset b = some b') (k : BalanceKey) :
    ∃ y, Holds (assetPrec dictAsset k.asset) (balanceOf b k + posted c.postings k) y ∧
      b'.find k = entryOf y := by
  cases c with
  | add u type a x => exact (balanceAdd_stores h hc hrun).2.holds h k
  | sub u type a x =>
    have hstores := balanceSub_stores h hc hrun
    rw [sub_eq_add_neg] at hstores
    exact hstores.holds h k
  | freeze u a x =>
    obtain ⟨b₁, hadd, hsub⟩ := balanceMove_stores h hc hrun
    exact moved_holds h (by simp) hadd hsub k
  | unfreeze u a x =>
    obtain ⟨b₁, hadd, hsub⟩ := balanceMove_stores h hc hrun
    exact moved_holds h (by simp) hadd hsub k

theorem Units.run (h : Units dictAsset b) (hc : c.Whole dictAsset)
    (hrun : c.run decimal128 dictAsset b = some b') : Units dictAsset b' := by
  have hentry : ∀ k v, b'.find k = some v →
      0 < v ∧ OnGrid (assetPrec dictAsset k.asset) v := fun k v hv => by
    obtain ⟨y, hy, hfind⟩ := run_holds h hc hrun k
    rw [hfind, entryOf] at hv
    split_ifs at hv with hzero
    obtain rfl := Option.some.inj hv
    exact ⟨hy.pos (lt_of_le_of_ne hy.nonneg fun h0 => hzero (hy.zero h0.symm)), hy.onGrid⟩
  exact ⟨fun k v hv => (hentry k v hv).1, fun k v hv => (hentry k v hv).2⟩

/-- A call that changes the balances by its amount, as long as they fit the context. -/
def Ledger.Posts (l : Ledger ℚ) (c : BalanceCall ℚ) : Prop :=
  ∀ b, c.run decimal128 l.dictAsset l.dictBalance = some b → Below l.dictAsset b →
    ∀ k, balanceOf b k = l.balance k + posted c.postings k

theorem posts_of_whole {l : Ledger ℚ} (h : Units l.dictAsset l.dictBalance)
    (hc : c.Whole l.dictAsset) : l.Posts c := fun b hrun hbelow k => by
  obtain ⟨y, hy, hfind⟩ := run_holds h hc hrun k
  have hval : balanceOf b k = y := by rw [balanceOf, hfind, getD_entryOf]
  rw [hval]
  by_cases hzero : y = 0
  · rw [hzero]
    exact (hy.eq_zero hzero).symm
  · refine hy.exact (hbelow.lt ?_)
    rw [hfind, entryOf, if_neg hzero]

/-- Calls for numbers of units. -/
theorem units_callAll {cs : List (BalanceCall ℚ)} {l : Ledger ℚ}
    (h : Units l.dictAsset l.dictBalance) (hcs : ∀ c ∈ cs, c.Whole l.dictAsset) :
    Units l.dictAsset (l.callAll decimal128 cs).dictBalance ∧
      ∀ pre c post, cs = pre ++ c :: post → (l.callAll decimal128 pre).Posts c := by
  induction cs generalizing l with
  | nil =>
    refine ⟨h, fun pre c post heq => ?_⟩
    cases pre <;> cases heq
  | cons c cs ih =>
    obtain ⟨hc, hcs⟩ := List.forall_mem_cons.mp hcs
    have hcall : Units l.dictAsset (l.call decimal128 c).dictBalance := by
      unfold Ledger.call
      cases hrun : c.run decimal128 l.dictAsset l.dictBalance with
      | none => exact h
      | some b => exact h.run hc hrun
    have hdict := Ledger.call_dictAsset decimal128 l c
    rw [← hdict] at hcall hcs
    obtain ⟨hunits, hposts⟩ := ih hcall hcs
    rw [hdict] at hunits
    refine ⟨hunits, fun pre c' post heq => ?_⟩
    cases pre with
    | nil =>
      obtain ⟨rfl, rfl⟩ := List.cons.inj heq
      exact posts_of_whole h hc
    | cons c₁ pre =>
      obtain ⟨rfl, rfl⟩ := List.cons.inj heq
      exact hposts pre c' post rfl

end Calls

end ViabtcExchange
