import ViabtcExchange.Balance

/-!
# Balances as accounts

A balance call posts its amount to one account or moves it between two (`BalanceCall.postings`);
the account is then rounded by the context and cut to `prec_save` digits (`saved`). When the
assets are known, the amounts positive and the postings covered, a list of calls succeeds
throughout and posts just that.

**Theorem (`Ledger.callAll_spec`).** Covered calls all return other than `NULL`, and leave the
balances their postings make.

**Theorem (`supply_post`).** When nothing is rounded or cut, the supply of an asset moves by the
sum of the postings in that asset; a freeze or an unfreeze leaves it alone. In any case it moves
by no more (`supply_post_le`).
-/

namespace ViabtcExchange

/-- A balance as a number, zero when there is no entry. -/
def balanceOf (b : Dict BalanceKey ℚ) (k : BalanceKey) : ℚ := (b.find k).getD 0

/-- Every entry is a non-negative amount of a known asset, on the grid it is saved at. -/
def Sound (dictAsset : Dict String AssetType) (b : Dict BalanceKey ℚ) : Prop :=
  ∀ k v, b.find k = some v →
    0 ≤ v ∧ ∃ ty, dictAsset.find k.asset = some ty ∧ OnGrid ty.precSave v

section Values

variable {dictAsset : Dict String AssetType} {b b' : Dict BalanceKey ℚ} {k : BalanceKey}
  {ty : AssetType} {v x : ℚ}

theorem balanceOf_insert (b : Dict BalanceKey ℚ) (k k' : BalanceKey) (v : ℚ) :
    balanceOf (b.insert k v) k' = if k' = k then v else balanceOf b k' := by
  rw [balanceOf, Dict.find_insert]
  split_ifs <;> rfl

theorem balanceOf_erase (b : Dict BalanceKey ℚ) (k k' : BalanceKey) :
    balanceOf (b.erase k) k' = if k' = k then 0 else balanceOf b k' := by
  rw [balanceOf, Dict.find_erase]
  split_ifs <;> rfl

theorem sound_empty (dictAsset : Dict String AssetType) : Sound dictAsset ∅ := by
  intro k v h
  simp at h

theorem Sound.insert (hs : Sound dictAsset b) (hty : dictAsset.find k.asset = some ty)
    (hv : 0 ≤ v) (hg : OnGrid ty.precSave v) : Sound dictAsset (b.insert k v) := by
  intro k' v' h
  rw [Dict.find_insert] at h
  split_ifs at h with hk
  · obtain rfl := Option.some.inj h
    exact ⟨hv, ty, by rw [hk]; exact hty, hg⟩
  · exact hs k' v' h

theorem Sound.erase (hs : Sound dictAsset b) (k : BalanceKey) : Sound dictAsset (b.erase k) := by
  intro k' v' h
  rw [Dict.find_erase] at h
  split_ifs at h
  exact hs k' v' h

theorem Sound.nonneg (hs : Sound dictAsset b) (k : BalanceKey) : 0 ≤ balanceOf b k := by
  unfold balanceOf
  cases h : b.find k with
  | none => simp
  | some v => exact (hs k v h).1

/-- A balance is on the grid of its asset, whether it has an entry or not. -/
theorem Sound.onGrid (hs : Sound dictAsset b) (hty : dictAsset.find k.asset = some ty) :
    OnGrid ty.precSave (balanceOf b k) := by
  unfold balanceOf
  cases h : b.find k with
  | none => exact OnGrid.zero _
  | some v =>
    obtain ⟨-, ty', hty', hg⟩ := hs k v h
    rw [hty] at hty'
    obtain rfl := Option.some.inj hty'
    exact hg

end Values

/-! ## One function at a time -/

section Functions

variable {round : ℚ → ℚ} {dictAsset : Dict String AssetType} {b b' : Dict BalanceKey ℚ} {u : ℕ}
  {t src dst : BalanceType} {a : String} {ty : AssetType} {x : ℚ}

/-- `balance_add` of a non-negative amount always succeeds, and truncates the sum. -/
theorem balanceAdd_eq (hr : RoundsDown round) (hty : dictAsset.find a = some ty) (hx : 0 ≤ x)
    (hround : round x = x) :
    ∃ b', balanceAdd (ratMpd round) dictAsset b u t a x = some b' ∧
      (∀ k, balanceOf b' k =
        if k = ⟨u, t, a⟩ then truncTo ty.precSave (round (balanceOf b k + x)) else balanceOf b k) ∧
      (Sound dictAsset b → Sound dictAsset b') := by
  simp only [balanceAdd, hty, ratMpd_cmp_lt, ratMpd_zero, not_lt.mpr hx, if_false, balanceGet]
  cases hb : b.find ⟨u, t, a⟩ with
  | some r =>
    refine ⟨_, rfl, fun k => ?_, fun hs => ?_⟩
    · rw [balanceOf_insert]
      split_ifs with hk
      · subst hk
        simp [balanceOf, hb]
      · rfl
    · refine hs.insert hty ?_ (by simpa using onGrid_truncTo _ _)
      simpa using truncTo_nonneg _ (hr.nonneg (add_nonneg (hs _ _ hb).1 hx))
  | none =>
    have hzero : balanceOf b ⟨u, t, a⟩ = 0 := by simp [balanceOf, hb]
    simp only [balanceSet, hty, ratMpd_cmp_lt, ratMpd_zero, not_lt.mpr hx, if_false,
      ratMpd_cmp_eq, balanceDel]
    split_ifs with hx0
    · refine ⟨_, rfl, fun k => ?_, fun hs => hs.erase _⟩
      rw [balanceOf_erase]
      split_ifs with hk
      · rw [hk, hzero, hx0, add_zero, hr.zero, truncTo_of_onGrid (OnGrid.zero _)]
      · rfl
    · refine ⟨_, rfl, fun k => ?_, fun hs => ?_⟩
      · rw [balanceOf_insert]
        split_ifs with hk
        · simp [hk, hzero, hround]
        · rfl
      · exact hs.insert hty (by simpa using truncTo_nonneg _ hx)
          (by simpa using onGrid_truncTo _ _)

theorem balanceOf_lower (ty : AssetType) (r x : ℚ) (k : BalanceKey) :
    balanceOf (balanceLower (ratMpd round) b u t a ty r x) k =
      if k = ⟨u, t, a⟩ then truncTo ty.precSave (round (r - x)) else balanceOf b k := by
  simp only [balanceLower, ratMpd_sub, ratMpd_zero, ratMpd_cmp_eq, ratMpd_rescale,
    neg_neg, balanceDel]
  split_ifs with h0 hk hk
  · rw [balanceOf_erase, if_pos hk, h0, truncTo_of_onGrid (OnGrid.zero _)]
  · rw [balanceOf_erase, if_neg hk]
  · rw [balanceOf_insert, if_pos hk]
  · rw [balanceOf_insert, if_neg hk]

theorem Sound.lower {r : ℚ} (hr : RoundsDown round) (hs : Sound dictAsset b)
    (hty : dictAsset.find a = some ty) (hx : x ≤ r) :
    Sound dictAsset (balanceLower (ratMpd round) b u t a ty r x) := by
  simp only [balanceLower, ratMpd_sub, ratMpd_zero, ratMpd_cmp_eq, ratMpd_rescale,
    neg_neg, balanceDel]
  split_ifs
  · exact hs.erase _
  · exact hs.insert hty (truncTo_nonneg _ (hr.nonneg (sub_nonneg.mpr hx))) (onGrid_truncTo _ _)

/-- A positive balance has an entry. -/
theorem find_of_pos {k : BalanceKey} (h : 0 < balanceOf b k) :
    b.find k = some (balanceOf b k) := by
  unfold balanceOf at h ⊢
  cases hk : b.find k with
  | none => simp [hk] at h
  | some v => rfl

/-- `balance_sub` succeeds on a positive amount that is there, and truncates what remains. -/
theorem balanceSub_eq (hr : RoundsDown round) (hty : dictAsset.find a = some ty) (hx : 0 < x)
    (hle : x ≤ balanceOf b ⟨u, t, a⟩) :
    ∃ b', balanceSub (ratMpd round) dictAsset b u t a x = some b' ∧
      (∀ k, balanceOf b' k =
        if k = ⟨u, t, a⟩ then truncTo ty.precSave (round (balanceOf b k - x)) else balanceOf b k) ∧
      (Sound dictAsset b → Sound dictAsset b') := by
  have hb := find_of_pos (hx.trans_le hle)
  simp only [balanceSub, hty, ratMpd_cmp_lt, ratMpd_zero, not_lt.mpr hx.le, if_false, balanceGet,
    hb, not_lt.mpr hle]
  refine ⟨_, rfl, fun k => ?_, fun hs => hs.lower hr hty hle⟩
  rw [balanceOf_lower]
  split_ifs with hk
  · rw [hk]
  · rfl

variable (dst) in
/-- `balance_freeze` and `balance_unfreeze` succeed on a positive amount that is there. -/
theorem balanceMove_eq (hr : RoundsDown round) (hty : dictAsset.find a = some ty) (hx : 0 < x)
    (hround : round x = x) (hle : x ≤ balanceOf b ⟨u, src, a⟩) :
    ∃ b', balanceMove (ratMpd round) dictAsset b src dst u a x = some b' ∧
      (∀ k, balanceOf b' k =
        if k = ⟨u, src, a⟩ then truncTo ty.precSave (round (balanceOf b k - x))
        else if k = ⟨u, dst, a⟩ then truncTo ty.precSave (round (balanceOf b k + x))
        else balanceOf b k) ∧
      (Sound dictAsset b → Sound dictAsset b') := by
  have hb := find_of_pos (hx.trans_le hle)
  obtain ⟨b₁, hadd, hval, hsound⟩ := balanceAdd_eq (b := b) (u := u) (t := dst) hr hty hx.le hround
  simp only [balanceMove, hty, ratMpd_cmp_lt, ratMpd_zero, not_lt.mpr hx.le, if_false, balanceGet,
    hb, not_lt.mpr hle, hadd]
  refine ⟨_, rfl, fun k => ?_, fun hs => (hsound hs).lower hr hty hle⟩
  rw [balanceOf_lower]
  split_ifs with hk hk'
  · rw [hk]
  · rw [hval, if_pos hk']
  · rw [hval, if_neg hk']

end Functions

/-! ## Calls as postings -/

/-- What a call does to the accounts when it succeeds. -/
def BalanceCall.postings : BalanceCall ℚ → List (BalanceKey × ℚ)
  | .add u t a x => [(⟨u, t, a⟩, x)]
  | .sub u t a x => [(⟨u, t, a⟩, -x)]
  | .freeze u a x => [(⟨u, .available, a⟩, -x), (⟨u, .freeze, a⟩, x)]
  | .unfreeze u a x => [(⟨u, .freeze, a⟩, -x), (⟨u, .available, a⟩, x)]

def BalanceCall.asset {D : Type} : BalanceCall D → String
  | .add _ _ a _ | .sub _ _ a _ | .freeze _ a _ | .unfreeze _ a _ => a

def BalanceCall.amount {D : Type} : BalanceCall D → D
  | .add _ _ _ x | .sub _ _ _ x | .freeze _ _ x | .unfreeze _ _ x => x

/-- A call for a positive amount of a known asset, which the context can hold if it is to be added
somewhere. -/
structure BalanceCall.Good (round : ℚ → ℚ) (dictAsset : Dict String AssetType)
    (c : BalanceCall ℚ) : Prop where
  pos : 0 < c.amount
  known : ∃ ty, dictAsset.find c.asset = some ty
  held : match c with
    | .sub _ _ _ _ => True
    | _ => round c.amount = c.amount

/-- An amount as it is stored: rounded, and cut to the digits the asset is saved with. -/
def saved (round : ℚ → ℚ) (dictAsset : Dict String AssetType) (k : BalanceKey) (x : ℚ) : ℚ :=
  match dictAsset.find k.asset with
  | some ty => truncTo ty.precSave (round x)
  | none => round x

/-- The amounts on the grid an account is saved at. -/
def Fits (dictAsset : Dict String AssetType) (k : BalanceKey) (x : ℚ) : Prop :=
  ∀ ty, dictAsset.find k.asset = some ty → OnGrid ty.precSave x

theorem saved_of_find {round : ℚ → ℚ} {dictAsset : Dict String AssetType} {k : BalanceKey}
    {ty : AssetType} (h : dictAsset.find k.asset = some ty) (x : ℚ) :
    saved round dictAsset k x = truncTo ty.precSave (round x) := by
  simp only [saved, h]

theorem drops_saved {round : ℚ → ℚ} (hr : RoundsDown round) (dictAsset : Dict String AssetType) :
    Drops (saved round dictAsset) := by
  intro k x hx
  unfold saved
  cases dictAsset.find k.asset with
  | none => exact ⟨hr.nonneg hx, hr.le x hx⟩
  | some ty =>
    exact ⟨truncTo_nonneg _ (hr.nonneg hx), (truncTo_le _ (hr.nonneg hx)).trans (hr.le x hx)⟩

theorem saved_of_fits {round : ℚ → ℚ} {dictAsset : Dict String AssetType} {k : BalanceKey} {x : ℚ}
    (hx : Fits dictAsset k x) (hround : round x = x) : saved round dictAsset k x = x := by
  unfold saved
  cases h : dictAsset.find k.asset with
  | none => exact hround
  | some ty =>
    dsimp only
    rw [hround, truncTo_of_onGrid (hx ty h)]

theorem Fits.add {dictAsset : Dict String AssetType} {k : BalanceKey} {x y : ℚ}
    (hx : Fits dictAsset k x) (hy : Fits dictAsset k y) : Fits dictAsset k (x + y) :=
  fun ty hty => (hx ty hty).add (hy ty hty)

theorem Sound.fits {dictAsset : Dict String AssetType} {b : Dict BalanceKey ℚ}
    (hs : Sound dictAsset b) (k : BalanceKey) : Fits dictAsset k (balanceOf b k) :=
  fun _ hty => hs.onGrid hty

section Postings

variable {round : ℚ → ℚ} {dictAsset : Dict String AssetType} {b : Dict BalanceKey ℚ} {u : ℕ}
  {t src dst : BalanceType} {a : String} {ty : AssetType} {x : ℚ}

theorem balanceAdd_post (hr : RoundsDown round) (hty : dictAsset.find a = some ty) (hx : 0 ≤ x)
    (hround : round x = x) :
    ∃ b', balanceAdd (ratMpd round) dictAsset b u t a x = some b' ∧
      balanceOf b' = postAll (saved round dictAsset) (balanceOf b) [(⟨u, t, a⟩, x)] ∧
      (Sound dictAsset b → Sound dictAsset b') := by
  obtain ⟨b', hrun, hval, hsound⟩ := balanceAdd_eq (b := b) (u := u) (t := t) hr hty hx hround
  refine ⟨b', hrun, funext fun k => ?_, hsound⟩
  rw [hval, postAll_cons, postAll_nil]
  split_ifs with hk
  · subst hk
    rw [post_self, saved_of_find hty]
  · rw [post_of_ne _ _ (Ne.symm hk)]

theorem balanceSub_post (hr : RoundsDown round) (hty : dictAsset.find a = some ty) (hx : 0 < x)
    (hcov : 0 ≤ balanceOf b ⟨u, t, a⟩ + -x) :
    ∃ b', balanceSub (ratMpd round) dictAsset b u t a x = some b' ∧
      balanceOf b' = postAll (saved round dictAsset) (balanceOf b) [(⟨u, t, a⟩, -x)] ∧
      (Sound dictAsset b → Sound dictAsset b') := by
  obtain ⟨b', hrun, hval, hsound⟩ := balanceSub_eq hr hty hx (by linarith)
  refine ⟨b', hrun, funext fun k => ?_, hsound⟩
  rw [hval, postAll_cons, postAll_nil]
  split_ifs with hk
  · subst hk
    rw [post_self, saved_of_find hty, sub_eq_add_neg]
  · rw [post_of_ne _ _ (Ne.symm hk)]

theorem balanceMove_post (hr : RoundsDown round) (hne : src ≠ dst)
    (hty : dictAsset.find a = some ty) (hx : 0 < x) (hround : round x = x)
    (hcov : 0 ≤ balanceOf b ⟨u, src, a⟩ + -x) :
    ∃ b', balanceMove (ratMpd round) dictAsset b src dst u a x = some b' ∧
      balanceOf b' = postAll (saved round dictAsset) (balanceOf b)
        [(⟨u, src, a⟩, -x), (⟨u, dst, a⟩, x)] ∧
      (Sound dictAsset b → Sound dictAsset b') := by
  obtain ⟨b', hrun, hval, hsound⟩ := balanceMove_eq dst hr hty hx hround (by linarith)
  refine ⟨b', hrun, funext fun k => ?_, hsound⟩
  have hkeys : (⟨u, src, a⟩ : BalanceKey) ≠ ⟨u, dst, a⟩ := by simpa using hne
  rw [hval, postAll_cons, postAll_cons, postAll_nil]
  by_cases hdst : k = ⟨u, dst, a⟩
  · subst hdst
    rw [if_neg hkeys.symm, if_pos rfl, post_self, post_of_ne _ _ hkeys, saved_of_find hty]
  · rw [if_neg hdst, post_of_ne _ _ (Ne.symm hdst)]
    split_ifs with hk
    · subst hk
      rw [post_self, saved_of_find hty, sub_eq_add_neg]
    · rw [post_of_ne _ _ (Ne.symm hk)]

/-- A covered call returns other than `NULL` and posts its amount. -/
theorem BalanceCall.run_spec {c : BalanceCall ℚ} (hr : RoundsDown round)
    (hc : c.Good round dictAsset)
    (hcov : Covers (saved round dictAsset) (balanceOf b) c.postings) :
    ∃ b', c.run (ratMpd round) dictAsset b = some b' ∧
      balanceOf b' = postAll (saved round dictAsset) (balanceOf b) c.postings ∧
      (Sound dictAsset b → Sound dictAsset b') := by
  obtain ⟨hx, ⟨ty, hty⟩, hround⟩ := hc
  cases c with
  | add u t a x => exact balanceAdd_post hr hty hx.le hround
  | sub u t a x => exact balanceSub_post hr hty hx hcov.1
  | freeze u a x => exact balanceMove_post hr (by decide) hty hx hround hcov.1
  | unfreeze u a x => exact balanceMove_post hr (by decide) hty hx hround hcov.1

/-- `balance_sub` keeps soundness whatever the amount, and works on one account. -/
theorem balanceSub_sound {b' : Dict BalanceKey ℚ} (hr : RoundsDown round) (hs : Sound dictAsset b)
    (hrun : balanceSub (ratMpd round) dictAsset b u t a x = some b') :
    Sound dictAsset b' ∧ ∀ k, k ≠ ⟨u, t, a⟩ → balanceOf b' k = balanceOf b k := by
  unfold balanceSub at hrun
  cases hty : dictAsset.find a with
  | none => simp [hty] at hrun
  | some ty =>
    simp only [hty] at hrun
    split_ifs at hrun
    cases hb : balanceGet b u t a with
    | none => simp [hb] at hrun
    | some r =>
      simp only [hb] at hrun
      split_ifs at hrun with hlt
      obtain rfl := Option.some.inj hrun
      refine ⟨hs.lower hr hty (not_lt.mp (by simpa using hlt)), fun k hk => ?_⟩
      rw [balanceOf_lower, if_neg hk]

/-- `balance_add` keeps soundness whatever the amount, and works on one account. -/
theorem balanceAdd_sound {b' : Dict BalanceKey ℚ} (hr : RoundsDown round) (hs : Sound dictAsset b)
    (hrun : balanceAdd (ratMpd round) dictAsset b u t a x = some b') :
    Sound dictAsset b' ∧ ∀ k, k ≠ ⟨u, t, a⟩ → balanceOf b' k = balanceOf b k := by
  unfold balanceAdd at hrun
  cases hty : dictAsset.find a with
  | none => simp [hty] at hrun
  | some ty =>
    simp only [hty] at hrun
    split_ifs at hrun with hneg
    have hx : 0 ≤ x := not_lt.mp (by simpa using hneg)
    cases hb : balanceGet b u t a with
    | some r =>
      simp only [hb] at hrun
      obtain rfl := Option.some.inj hrun
      refine ⟨hs.insert hty ?_ (by simpa using onGrid_truncTo _ _), fun k hk => ?_⟩
      · simpa using truncTo_nonneg _ (hr.nonneg (add_nonneg (hs _ _ hb).1 hx))
      · rw [balanceOf_insert, if_neg hk]
    | none =>
      simp only [hb, balanceSet, hty] at hrun
      split_ifs at hrun
      · obtain rfl := Option.some.inj hrun
        refine ⟨hs.erase _, fun k hk => ?_⟩
        rw [balanceDel, balanceOf_erase, if_neg hk]
      · obtain rfl := Option.some.inj hrun
        refine ⟨hs.insert hty (by simpa using truncTo_nonneg _ hx)
          (by simpa using onGrid_truncTo _ _), fun k hk => ?_⟩
        rw [balanceOf_insert, if_neg hk]

end Postings

/-! ## Lists of calls -/

/-- What a list of calls posts. -/
def postings (cs : List (BalanceCall ℚ)) : List (BalanceKey × ℚ) :=
  cs.flatMap BalanceCall.postings

@[simp] theorem postings_nil : postings [] = [] := rfl

@[simp] theorem postings_cons (c : BalanceCall ℚ) (cs : List (BalanceCall ℚ)) :
    postings (c :: cs) = c.postings ++ postings cs := rfl

theorem postings_append (cs ds : List (BalanceCall ℚ)) :
    postings (cs ++ ds) = postings cs ++ postings ds := List.flatMap_append

namespace Ledger

/-- The balances of a ledger. -/
def balance (l : Ledger ℚ) : BalanceKey → ℚ := balanceOf l.dictBalance

def Sound (l : Ledger ℚ) : Prop := ViabtcExchange.Sound l.dictAsset l.dictBalance

/-- Every call made so far returned other than `NULL`. -/
def AllOk {D : Type} (l : Ledger D) : Prop := ∀ c ∈ l.calls, c.2 = true

variable {round : ℚ → ℚ} {l : Ledger ℚ} {c : BalanceCall ℚ} {cs : List (BalanceCall ℚ)}

theorem call_spec (hr : RoundsDown round) (hc : c.Good round l.dictAsset)
    (hcov : Covers (saved round l.dictAsset) l.balance c.postings) :
    (l.call (ratMpd round) c).balance = postAll (saved round l.dictAsset) l.balance c.postings ∧
      (l.AllOk → (l.call (ratMpd round) c).AllOk) ∧
      (l.Sound → (l.call (ratMpd round) c).Sound) := by
  obtain ⟨b', hrun, hval, hsound⟩ := c.run_spec hr hc hcov
  simp only [call, hrun]
  refine ⟨hval, fun hok d hd => ?_, hsound⟩
  rcases List.mem_append.mp hd with hd | hd
  · exact hok d hd
  · rw [List.mem_singleton.mp hd]

theorem callAll_spec (hr : RoundsDown round) (hc : ∀ c ∈ cs, c.Good round l.dictAsset)
    (hcov : Covers (saved round l.dictAsset) l.balance (postings cs)) :
    (l.callAll (ratMpd round) cs).balance =
      postAll (saved round l.dictAsset) l.balance (postings cs) ∧
      (l.AllOk → (l.callAll (ratMpd round) cs).AllOk) ∧
      (l.Sound → (l.callAll (ratMpd round) cs).Sound) := by
  induction cs generalizing l with
  | nil => exact ⟨rfl, fun h => h, fun h => h⟩
  | cons c cs ih =>
    obtain ⟨hgood, hgoods⟩ := List.forall_mem_cons.mp hc
    rw [postings_cons, covers_append] at hcov
    obtain ⟨hbal, hok, hsound⟩ := call_spec hr hgood hcov.1
    obtain ⟨hbal', hok', hsound'⟩ := ih (l := l.call (ratMpd round) c) (by simpa using hgoods)
      (by rw [hbal, call_dictAsset]; exact hcov.2)
    refine ⟨?_, fun h => hok' (hok h), fun h => hsound' (hsound h)⟩
    rw [callAll_cons, hbal', hbal, call_dictAsset, postings_cons, postAll_append]

end Ledger

/-! ## The supply of an asset -/

/-- The sum of AVAILABLE and FREEZE over all users. -/
def supply (b : Dict BalanceKey ℚ) (asset : String) : ℚ :=
  b.sum fun k v => if k.asset = asset then v else 0

/-- What a list of postings adds to the supply of an asset. -/
def issued (ps : List (BalanceKey × ℚ)) (asset : String) : ℚ :=
  (ps.map fun p => if p.1.asset = asset then p.2 else 0).sum

@[simp] theorem issued_nil (a : String) : issued [] a = 0 := rfl

@[simp] theorem issued_cons (p : BalanceKey × ℚ) (ps : List (BalanceKey × ℚ)) (a : String) :
    issued (p :: ps) a = (if p.1.asset = a then p.2 else 0) + issued ps a := by
  simp [issued]

theorem issued_append (ps qs : List (BalanceKey × ℚ)) (a : String) :
    issued (ps ++ qs) a = issued ps a + issued qs a := by
  simp [issued]

/-- The supply as a sum of balances over any set of keys that holds all entries. -/
theorem supply_eq_sum {b : Dict BalanceKey ℚ} {S : Finset BalanceKey} (hS : b.keys ⊆ S)
    (a : String) :
    supply b a = ∑ k ∈ S with k.asset = a, balanceOf b k := by
  rw [supply, Dict.sum_eq_of_subset b _ hS, Finset.sum_filter]
  refine Finset.sum_congr rfl fun k _ => ?_
  unfold Dict.entry balanceOf
  cases b.find k <;> simp

section Supply

variable {round : ℚ → ℚ} {dictAsset : Dict String AssetType} {b b' : Dict BalanceKey ℚ}
  {ps : List (BalanceKey × ℚ)}

/-- A set of keys that holds all entries, before and after. -/
theorem supply_sums (h : balanceOf b' = postAll (saved round dictAsset) (balanceOf b) ps)
    (a : String) :
    ∃ S : Finset BalanceKey, supply b a = ∑ k ∈ S, balanceOf b k ∧
      supply b' a = ∑ k ∈ S, postAll (saved round dictAsset) (balanceOf b) ps k ∧
      (ps.map fun p => if p.1 ∈ S then p.2 else 0).sum = issued ps a := by
  let S := b.keys ∪ b'.keys ∪ (ps.map Prod.fst).toFinset
  have hb : b.keys ⊆ S := fun k hk => by simp [S, hk]
  have hb' : b'.keys ⊆ S := fun k hk => by simp [S, hk]
  have hps : ∀ p ∈ ps, p.1 ∈ S := fun p hp => by
    simp only [S, Finset.mem_union, List.mem_toFinset]
    exact Or.inr (List.mem_map_of_mem hp)
  refine ⟨S.filter fun k => k.asset = a, supply_eq_sum hb a, by rw [supply_eq_sum hb', h],
    congrArg List.sum (List.map_congr_left fun p hp => ?_)⟩
  simp [hps p hp]

/-- Exact postings move the supply of an asset by what they post in it. -/
theorem supply_post (h : balanceOf b' = postAll (saved round dictAsset) (balanceOf b) ps)
    (hkeep : Keeps (saved round dictAsset) (balanceOf b) ps) (a : String) :
    supply b' a = supply b a + issued ps a := by
  obtain ⟨S, hb, hb', hps⟩ := supply_sums h a
  rw [hb, hb', sum_postAll hkeep, hps]

/-- Covered postings move the supply of an asset by no more than they post in it. -/
theorem supply_post_le (hr : RoundsDown round)
    (h : balanceOf b' = postAll (saved round dictAsset) (balanceOf b) ps)
    (hcov : Covers (saved round dictAsset) (balanceOf b) ps) (a : String) :
    supply b' a ≤ supply b a + issued ps a := by
  obtain ⟨S, hb, hb', hps⟩ := supply_sums h a
  rw [hb, hb', ← hps]
  exact sum_postAll_le (drops_saved hr dictAsset) hcov S

/-- A balance is a part of the supply of its asset. -/
theorem balanceOf_le_supply (hs : Sound dictAsset b) (k : BalanceKey) :
    balanceOf b k ≤ supply b k.asset := by
  rw [supply_eq_sum (S := insert k b.keys) (Finset.subset_insert _ _)]
  exact Finset.single_le_sum (f := balanceOf b) (fun j _ => hs.nonneg j) (by simp)

end Supply

end ViabtcExchange
