import ViabtcExchange.BalanceSpec

/-!
# Freezing and unfreezing (`me_balance.c`)

The functions of `Balance` return the new dictionary, or nothing. The source works in place: it
writes an entry, rescales it and writes it again, and what is written before a `NULL` stays
written. `InPlace` follows it write by write; each function comes to the one of `Balance`
(`InPlace.balanceMove_eq`), so that a call that returns `NULL` has written nothing.

**Theorem (`freeze_unfreeze`).** On entries that are positive multiples of the unit of their asset
and fit the context, a freeze moves exactly its amount, it fails only for the three reasons of its
checks, and an unfreeze of the same amount takes it back.
-/

namespace ViabtcExchange

/-! ## In place -/

namespace InPlace

section Functions

variable {D : Type} (mpd : Mpd D) (dictAsset : Dict String AssetType) (b : Dict BalanceKey D)

def balanceSet (userId : ℕ) (type : BalanceType) (asset : String) (amount : D) :
    Option D × Dict BalanceKey D :=
  match dictAsset.find asset with
  | none => (none, b)
  | some ty =>
    if mpd.cmp amount mpd.zero < 0 then (none, b)
    else if mpd.cmp amount mpd.zero = 0 then (some mpd.zero, balanceDel b userId type asset)
    else
      let result := mpd.rescale amount (-ty.precSave)
      match balanceGet b userId type asset with
      | some _ => (some result, b.insert ⟨userId, type, asset⟩ result)
      | none =>
        -- `dict_add` enters a copy of the amount, which is then rescaled
        let b := b.insert ⟨userId, type, asset⟩ amount
        (some result, b.insert ⟨userId, type, asset⟩ result)

def balanceAdd (userId : ℕ) (type : BalanceType) (asset : String) (amount : D) :
    Option D × Dict BalanceKey D :=
  match dictAsset.find asset with
  | none => (none, b)
  | some ty =>
    if mpd.cmp amount mpd.zero < 0 then (none, b)
    else
      match balanceGet b userId type asset with
      | some result =>
        let result := mpd.add result amount
        let b := b.insert ⟨userId, type, asset⟩ result
        let result := mpd.rescale result (-ty.precSave)
        (some result, b.insert ⟨userId, type, asset⟩ result)
      | none => balanceSet mpd dictAsset b userId type asset amount

/-- The end of `balance_sub`, `balance_freeze` and `balance_unfreeze`, on the entry `result` points
at. -/
def balanceLower (userId : ℕ) (type : BalanceType) (asset : String) (ty : AssetType)
    (result amount : D) : Option D × Dict BalanceKey D :=
  let result := mpd.sub result amount
  let b := b.insert ⟨userId, type, asset⟩ result
  if mpd.cmp result mpd.zero = 0 then (some mpd.zero, balanceDel b userId type asset)
  else
    let result := mpd.rescale result (-ty.precSave)
    (some result, b.insert ⟨userId, type, asset⟩ result)

def balanceSub (userId : ℕ) (type : BalanceType) (asset : String) (amount : D) :
    Option D × Dict BalanceKey D :=
  match dictAsset.find asset with
  | none => (none, b)
  | some ty =>
    if mpd.cmp amount mpd.zero < 0 then (none, b)
    else
      match balanceGet b userId type asset with
      | none => (none, b)
      | some result =>
        if mpd.cmp result amount < 0 then (none, b)
        else balanceLower mpd b userId type asset ty result amount

/-- `balance_freeze` and `balance_unfreeze`. `balance_add` works on the entry of the other type, so
that the one found first is still what it was. -/
def balanceMove (src dst : BalanceType) (userId : ℕ) (asset : String) (amount : D) :
    Option D × Dict BalanceKey D :=
  match dictAsset.find asset with
  | none => (none, b)
  | some ty =>
    if mpd.cmp amount mpd.zero < 0 then (none, b)
    else
      match balanceGet b userId src asset with
      | none => (none, b)
      | some result =>
        if mpd.cmp result amount < 0 then (none, b)
        else
          match balanceAdd mpd dictAsset b userId dst asset amount with
          | (none, b) => (none, b)
          | (some _, b) => balanceLower mpd b userId src asset ty result amount

def balanceFreeze (userId : ℕ) (asset : String) (amount : D) : Option D × Dict BalanceKey D :=
  balanceMove mpd dictAsset b .available .freeze userId asset amount

def balanceUnfreeze (userId : ℕ) (asset : String) (amount : D) : Option D × Dict BalanceKey D :=
  balanceMove mpd dictAsset b .freeze .available userId asset amount

end Functions

/-! ## What a call comes to -/

/-- A call in place has returned, or failed and written nothing, as `next` says. -/
def ComesTo {D : Type} (b : Dict BalanceKey D) (call : Option D × Dict BalanceKey D)
    (next : Option (Dict BalanceKey D)) : Prop :=
  call.1.isSome = next.isSome ∧ call.2 = next.getD b

section Equations

variable {D : Type} (mpd : Mpd D) (dictAsset : Dict String AssetType) (b : Dict BalanceKey D)
  (u : ℕ) (type : BalanceType) (a : String) (x : D)

/-- What is written to an entry before it is deleted is gone. -/
theorem del_insert (v : D) :
    balanceDel (b.insert ⟨u, type, a⟩ v : Dict BalanceKey D) u type a = balanceDel b u type a := by
  refine Dict.ext_find fun k' => ?_
  rw [balanceDel, balanceDel, Dict.find_erase, Dict.find_erase]
  split_ifs with hk
  · rfl
  · rw [Dict.find_insert, if_neg hk]

theorem balanceSet_eq : ComesTo b (balanceSet mpd dictAsset b u type a x)
    (ViabtcExchange.balanceSet mpd dictAsset b u type a x) := by
  unfold balanceSet ViabtcExchange.balanceSet ComesTo
  cases dictAsset.find a with
  | none => simp
  | some ty =>
    dsimp only
    split_ifs
    · simp
    · simp
    · cases balanceGet b u type a <;> simp

theorem balanceAdd_eq : ComesTo b (balanceAdd mpd dictAsset b u type a x)
    (ViabtcExchange.balanceAdd mpd dictAsset b u type a x) := by
  unfold balanceAdd ViabtcExchange.balanceAdd
  cases dictAsset.find a with
  | none => simp [ComesTo]
  | some ty =>
    dsimp only
    split_ifs
    · simp [ComesTo]
    · cases balanceGet b u type a with
      | none => exact balanceSet_eq mpd dictAsset b u type a x
      | some result => simp [ComesTo]

theorem balanceLower_eq (ty : AssetType) (result : D) :
    ComesTo b (balanceLower mpd b u type a ty result x)
      (some (ViabtcExchange.balanceLower mpd b u type a ty result x)) := by
  unfold balanceLower ViabtcExchange.balanceLower ComesTo
  dsimp only
  split_ifs
  · simp [del_insert]
  · simp

theorem balanceSub_eq : ComesTo b (balanceSub mpd dictAsset b u type a x)
    (ViabtcExchange.balanceSub mpd dictAsset b u type a x) := by
  unfold balanceSub ViabtcExchange.balanceSub
  cases dictAsset.find a with
  | none => simp [ComesTo]
  | some ty =>
    dsimp only
    split_ifs
    · simp [ComesTo]
    · cases balanceGet b u type a with
      | none => simp [ComesTo]
      | some result =>
        dsimp only
        split_ifs
        · simp [ComesTo]
        · exact balanceLower_eq mpd b u type a x ty result

/-- A transfer in place does what `balanceMove` says, or nothing. -/
theorem balanceMove_eq (src dst : BalanceType) :
    ComesTo b (balanceMove mpd dictAsset b src dst u a x)
      (ViabtcExchange.balanceMove mpd dictAsset b src dst u a x) := by
  unfold balanceMove ViabtcExchange.balanceMove
  cases dictAsset.find a with
  | none => simp [ComesTo]
  | some ty =>
    dsimp only
    split_ifs
    · simp [ComesTo]
    · cases balanceGet b u src a with
      | none => simp [ComesTo]
      | some result =>
        dsimp only
        split_ifs
        · simp [ComesTo]
        · obtain ⟨hret, hnext⟩ := balanceAdd_eq mpd dictAsset b u dst a x
          cases hadd : ViabtcExchange.balanceAdd mpd dictAsset b u dst a x with
          | none =>
            rw [hadd] at hret hnext
            cases hcall : balanceAdd mpd dictAsset b u dst a x with
            | mk ret b' =>
              rw [hcall] at hret hnext
              obtain rfl : ret = none := by simpa using hret
              obtain rfl : b' = b := hnext
              simp [ComesTo]
          | some b₁ =>
            rw [hadd] at hret hnext
            cases hcall : balanceAdd mpd dictAsset b u dst a x with
            | mk ret b' =>
              rw [hcall] at hret hnext
              obtain ⟨result', rfl⟩ := Option.isSome_iff_exists.mp hret
              obtain rfl : b' = b₁ := hnext
              exact balanceLower_eq mpd b' u src a x ty result

end Equations

end InPlace

/-! ## Exact transfers -/

/-- The value an entry has to have for a balance: there is none for zero. -/
def entryOf (x : ℚ) : Option ℚ := if x = 0 then none else some x

theorem getD_entryOf (x : ℚ) : (entryOf x).getD 0 = x := by
  unfold entryOf
  split_ifs with h
  · exact h.symm
  · rfl

theorem entryOf_ne_zero {x : ℚ} (h : entryOf x = some 0) : False := by
  unfold entryOf at h
  split_ifs at h with h0
  exact h0 (Option.some.inj h)

/-- The entries are positive multiples of the unit of their asset, and the two balances of a user
fit the context together. -/
structure Regular (dictAsset : Dict String AssetType) (b : Dict BalanceKey ℚ) : Prop where
  pos : ∀ k v, b.find k = some v → 0 < v
  onGrid : ∀ k v ty, b.find k = some v → dictAsset.find k.asset = some ty → OnGrid ty.precSave v
  room : ∀ u a ty, dictAsset.find a = some ty →
    balanceOf b ⟨u, .available, a⟩ + balanceOf b ⟨u, .freeze, a⟩ < 10 ^ (34 - (ty.precSave : ℤ))

section Exact

variable {dictAsset : Dict String AssetType} {b b' : Dict BalanceKey ℚ} {u : ℕ}
  {src dst : BalanceType} {a : String} {ty : AssetType} {x : ℚ}

namespace Regular

theorem nonneg (h : Regular dictAsset b) (k : BalanceKey) : 0 ≤ balanceOf b k := by
  unfold balanceOf
  cases hk : b.find k with
  | none => simp
  | some v => exact (h.pos k v hk).le

/-- An entry is there exactly when the balance is not zero. -/
theorem find_eq (h : Regular dictAsset b) (k : BalanceKey) :
    b.find k = entryOf (balanceOf b k) := by
  unfold balanceOf entryOf
  cases hk : b.find k with
  | none => simp
  | some v => simp [(h.pos k v hk).ne']

theorem grid (h : Regular dictAsset b) {k : BalanceKey} (hty : dictAsset.find k.asset = some ty) :
    OnGrid ty.precSave (balanceOf b k) := by
  unfold balanceOf
  cases hk : b.find k with
  | none => exact OnGrid.zero _
  | some v => exact h.onGrid k v ty hk hty

/-- The two balances of a user fit the context, in either order. -/
theorem room_of_ne (h : Regular dictAsset b) (hne : src ≠ dst) (u : ℕ)
    (hty : dictAsset.find a = some ty) :
    balanceOf b ⟨u, src, a⟩ + balanceOf b ⟨u, dst, a⟩ < 10 ^ (34 - (ty.precSave : ℤ)) := by
  have hroom := h.room u a ty hty
  cases src <;> cases dst
  · exact absurd rfl hne
  · exact hroom
  · rw [add_comm]
    exact hroom
  · exact absurd rfl hne

/-- Numbers of the grid up to the sum of the two balances have no more digits than the context. -/
theorem round_eq (h : Regular dictAsset b) (hne : src ≠ dst) (hty : dictAsset.find a = some ty)
    {y : ℚ} (hgrid : OnGrid ty.precSave y) (h0 : 0 ≤ y)
    (hle : y ≤ balanceOf b ⟨u, src, a⟩ + balanceOf b ⟨u, dst, a⟩) : roundDown 34 y = y := by
  refine roundDown_of_onGrid hgrid ?_
  rw [abs_of_nonneg h0]
  exact hle.trans_lt (h.room_of_ne hne u hty)

end Regular

/-- `balance_add` of an amount that the other balance holds adds exactly that. -/
theorem Regular.add_exact (h : Regular dictAsset b) (hne : src ≠ dst)
    (hty : dictAsset.find a = some ty) (hgrid : OnGrid ty.precSave x) (hx : 0 ≤ x)
    (hle : x ≤ balanceOf b ⟨u, src, a⟩) :
    ∃ b', balanceAdd decimal128 dictAsset b u dst a x = some b' ∧
      ∀ k, b'.find k =
        if k = ⟨u, dst, a⟩ then entryOf (balanceOf b ⟨u, dst, a⟩ + x) else b.find k := by
  have hdst : 0 ≤ balanceOf b ⟨u, dst, a⟩ := h.nonneg _
  unfold balanceAdd
  simp only [hty, ratMpd_zero, ratMpd_cmp_lt, not_lt.mpr hx, if_false, balanceGet]
  cases hfind : b.find ⟨u, dst, a⟩ with
  | some f =>
    have hf : balanceOf b ⟨u, dst, a⟩ = f := by simp [balanceOf, hfind]
    have hpos : 0 < f + x := add_pos_of_pos_of_nonneg (h.pos _ _ hfind) hx
    have hsum : OnGrid ty.precSave (f + x) := hf ▸ (h.grid hty).add hgrid
    have hround : roundDown 34 (f + x) = f + x :=
      @round_eq _ _ u _ _ _ _ h hne hty _ hsum hpos.le (by rw [hf]; linarith)
    refine ⟨_, rfl, fun k => ?_⟩
    rw [Dict.find_insert]
    simp [hf, entryOf, hpos.ne', hround, truncTo_of_onGrid hsum]
  | none =>
    have hf : balanceOf b ⟨u, dst, a⟩ = 0 := by simp [balanceOf, hfind]
    simp only [balanceSet, hty, ratMpd_zero, ratMpd_cmp_lt, ratMpd_cmp_eq, not_lt.mpr hx, if_false]
    by_cases h0 : x = 0
    · -- nothing is added, and there is nothing to delete
      rw [if_pos h0]
      refine ⟨_, rfl, fun k => ?_⟩
      rw [balanceDel, Dict.find_erase, hf, h0, add_zero]
      simp [entryOf]
    · rw [if_neg h0]
      refine ⟨_, rfl, fun k => ?_⟩
      rw [Dict.find_insert, hf, zero_add]
      simp [entryOf, h0, truncTo_of_onGrid hgrid]

/-- When a transfer succeeds, and what it leaves. -/
theorem Regular.move_exact (h : Regular dictAsset b) (hne : src ≠ dst)
    (hgrid : ∀ ty, dictAsset.find a = some ty → OnGrid ty.precSave x) :
    ((balanceMove decimal128 dictAsset b src dst u a x).isSome ↔
      a ∈ dictAsset ∧ 0 ≤ x ∧ ∃ v, b.find ⟨u, src, a⟩ = some v ∧ x ≤ v) ∧
    ∀ b', balanceMove decimal128 dictAsset b src dst u a x = some b' →
      ∀ k, b'.find k =
        if k = ⟨u, src, a⟩ then entryOf (balanceOf b k - x)
        else if k = ⟨u, dst, a⟩ then entryOf (balanceOf b k + x)
        else b.find k := by
  unfold balanceMove
  cases hty : dictAsset.find a with
  | none => simp [Dict.find_eq_none.mp hty]
  | some ty =>
    simp only [Dict.mem_of_find hty, true_and, ratMpd_zero, ratMpd_cmp_lt, balanceGet]
    by_cases hx : x < 0
    · simp [hx]
    rw [if_neg hx]
    rw [not_lt] at hx
    cases hfind : b.find ⟨u, src, a⟩ with
    | none => simp
    | some v =>
      have hv : balanceOf b ⟨u, src, a⟩ = v := by simp [balanceOf, hfind]
      by_cases hle : v < x
      · simp [hle]
      rw [not_lt] at hle
      obtain ⟨b₁, hadd, hfind₁⟩ := h.add_exact hne hty (hgrid ty hty) hx (hv.symm ▸ hle)
      simp only [not_lt.mpr hle, if_false, hadd]
      refine ⟨by simp [hx, hle], fun b' hb' k => ?_⟩
      obtain rfl := Option.some.inj hb'
      have hgridv : OnGrid ty.precSave (v - x) := (hv ▸ h.grid hty).sub (hgrid ty hty)
      have hround : roundDown 34 (v - x) = v - x :=
        @round_eq _ _ u _ _ _ _ h hne hty _ hgridv (sub_nonneg.mpr hle)
          (by rw [hv]; linarith [h.nonneg ⟨u, dst, a⟩])
      have hlower : Dict.find (balanceLower decimal128 b₁ u src a ty v x) k =
          if k = ⟨u, src, a⟩ then entryOf (v - x) else b₁.find k := by
        simp only [balanceLower, ratMpd_sub, ratMpd_zero, ratMpd_cmp_eq, ratMpd_rescale, neg_neg,
          hround, truncTo_of_onGrid hgridv, balanceDel, entryOf]
        by_cases h0 : v - x = 0
        · rw [if_pos h0, if_pos h0, Dict.find_erase]
        · rw [if_neg h0, if_neg h0, Dict.find_insert]
      rw [hlower]
      by_cases hk : k = ⟨u, src, a⟩
      · rw [if_pos hk, if_pos hk, hk, hv]
      · rw [if_neg hk, if_neg hk, hfind₁]
        split_ifs with hk'
        · rw [hk']
        · rfl

/-- A transfer keeps the sum of the two balances, and leaves entries that are regular. -/
theorem Regular.move (h : Regular dictAsset b) (hne : src ≠ dst)
    (hgrid : ∀ ty, dictAsset.find a = some ty → OnGrid ty.precSave x)
    (hrun : balanceMove decimal128 dictAsset b src dst u a x = some b') :
    Regular dictAsset b' := by
  obtain ⟨hiff, hall⟩ := @h.move_exact _ _ u _ _ a x hne hgrid
  obtain ⟨-, hx, v, hv, hle⟩ := hiff.mp (by rw [hrun]; rfl)
  have hfind := hall b' hrun
  have hsrc : x ≤ balanceOf b ⟨u, src, a⟩ := by simpa [balanceOf, hv] using hle
  have hkeys : (⟨u, src, a⟩ : BalanceKey) ≠ ⟨u, dst, a⟩ := by simpa using hne
  have hbal : ∀ k, balanceOf b' k =
      if k = ⟨u, src, a⟩ then balanceOf b k - x
      else if k = ⟨u, dst, a⟩ then balanceOf b k + x
      else balanceOf b k := fun k => by
    rw [balanceOf, hfind]
    split_ifs
    · exact getD_entryOf _
    · exact getD_entryOf _
    · rfl
  have hnonneg : ∀ k, 0 ≤ balanceOf b' k := fun k => by
    rw [hbal]
    split_ifs with hk hk'
    · rw [hk]
      exact sub_nonneg.mpr hsrc
    · exact add_nonneg (h.nonneg k) hx
    · exact h.nonneg k
  refine ⟨fun k v hk => ?_, fun k v ty hk hty => ?_, fun u' a' ty hty => ?_⟩
  · have hval : balanceOf b' k = v := by simp [balanceOf, hk]
    refine lt_of_le_of_ne (hval ▸ hnonneg k) fun h0 => ?_
    subst h0
    rw [hfind] at hk
    split_ifs at hk
    · exact entryOf_ne_zero hk
    · exact entryOf_ne_zero hk
    · exact (h.pos k 0 hk).false
  · have hval : balanceOf b' k = v := by simp [balanceOf, hk]
    rw [← hval, hbal]
    split_ifs with hk₁ hk₂
    · subst hk₁
      exact (h.grid hty).sub (hgrid ty hty)
    · subst hk₂
      exact (h.grid hty).add (hgrid ty hty)
    · exact h.grid hty
  · by_cases hua : u' = u ∧ a' = a
    · obtain ⟨rfl, rfl⟩ := hua
      have hsum : balanceOf b' ⟨u', src, a'⟩ + balanceOf b' ⟨u', dst, a'⟩ =
          balanceOf b ⟨u', src, a'⟩ + balanceOf b ⟨u', dst, a'⟩ := by
        rw [hbal, hbal, if_pos rfl, if_neg hkeys.symm, if_pos rfl]
        ring
      refine lt_of_eq_of_lt ?_ (h.room_of_ne hne u' hty)
      cases src <;> cases dst
      · exact absurd rfl hne
      · exact hsum
      · rw [add_comm, hsum]
      · exact absurd rfl hne
    · have hother : ∀ type, balanceOf b' ⟨u', type, a'⟩ =
          balanceOf b ⟨u', type, a'⟩ := fun type => by
        have hkey : ∀ type', (⟨u', type, a'⟩ : BalanceKey) ≠ ⟨u, type', a⟩ := fun type' heq =>
          hua ⟨congrArg BalanceKey.userId heq, congrArg BalanceKey.asset heq⟩
        rw [hbal, if_neg (hkey src), if_neg (hkey dst)]
      rw [hother, hother]
      exact h.room u' a' ty hty

/-- The transfer back brings back the entries there were. -/
theorem Regular.move_back (h : Regular dictAsset b) (hne : src ≠ dst)
    (hgrid : ∀ ty, dictAsset.find a = some ty → OnGrid ty.precSave x)
    (hrun : balanceMove decimal128 dictAsset b src dst u a x = some b')
    (hback : 0 < x ∨ (b.find ⟨u, dst, a⟩).isSome) :
    balanceMove decimal128 dictAsset b' dst src u a x = some b := by
  have h' := h.move hne hgrid hrun
  obtain ⟨hiff, hall⟩ := @h.move_exact _ _ u _ _ a x hne hgrid
  obtain ⟨hmem, hx, -⟩ := hiff.mp (by rw [hrun]; rfl)
  have hfind := hall b' hrun
  have hkeys : (⟨u, src, a⟩ : BalanceKey) ≠ ⟨u, dst, a⟩ := by simpa using hne
  have hpos : 0 < balanceOf b ⟨u, dst, a⟩ + x := by
    rcases hback with hx | hsome
    · exact add_pos_of_nonneg_of_pos (h.nonneg _) hx
    · obtain ⟨f, hf⟩ := Option.isSome_iff_exists.mp hsome
      have hval : balanceOf b ⟨u, dst, a⟩ = f := by simp [balanceOf, hf]
      exact add_pos_of_pos_of_nonneg (hval ▸ h.pos _ _ hf) hx
  have hdst : b'.find ⟨u, dst, a⟩ = some (balanceOf b ⟨u, dst, a⟩ + x) := by
    rw [hfind, if_neg hkeys.symm, if_pos rfl, entryOf, if_neg hpos.ne']
  obtain ⟨hiff', hall'⟩ := @h'.move_exact _ _ u _ _ a x hne.symm hgrid
  obtain ⟨b₂, hrun₂⟩ := Option.isSome_iff_exists.mp
    (hiff'.mpr ⟨hmem, hx, _, hdst, le_add_of_nonneg_left (h.nonneg _)⟩)
  rw [hrun₂]
  refine congrArg some (Dict.ext_find fun k => ?_)
  rw [hall' b₂ hrun₂, h.find_eq k]
  by_cases hd : k = ⟨u, dst, a⟩
  · rw [if_pos hd, hd, balanceOf, hdst, Option.getD_some, add_sub_cancel_right]
  · rw [if_neg hd]
    by_cases hs : k = ⟨u, src, a⟩
    · rw [if_pos hs, balanceOf, hfind, if_pos hs, getD_entryOf, sub_add_cancel]
    · rw [if_neg hs, hfind, if_neg hs, if_neg hd, h.find_eq k]

/-- **Freezing.** A freeze succeeds exactly when the asset is known, the amount is not negative and
an AVAILABLE entry holds it. It then moves the amount and nothing else, and an unfreeze of the
amount takes it back; a freeze or an unfreeze that fails has written nothing. -/
theorem freeze_unfreeze (h : Regular dictAsset b)
    (hgrid : ∀ ty, dictAsset.find a = some ty → OnGrid ty.precSave x) :
    let frozen := InPlace.balanceFreeze decimal128 dictAsset b u a x
    let unfrozen := InPlace.balanceUnfreeze decimal128 dictAsset frozen.2 u a x
    (frozen.1.isSome ↔ a ∈ dictAsset ∧ 0 ≤ x ∧ ∃ v, b.find ⟨u, .available, a⟩ = some v ∧ x ≤ v) ∧
    (frozen.1.isSome →
      (∀ k, frozen.2.find k =
        if k = ⟨u, .available, a⟩ then entryOf (balanceOf b k - x)
        else if k = ⟨u, .freeze, a⟩ then entryOf (balanceOf b k + x)
        else b.find k) ∧
      (0 < x ∨ (b.find ⟨u, .freeze, a⟩).isSome → unfrozen.1.isSome ∧ unfrozen.2 = b)) ∧
    (frozen.1 = none → frozen.2 = b) ∧
    ∀ b₀ u a x, (InPlace.balanceUnfreeze decimal128 dictAsset b₀ u a x).1 = none →
      (InPlace.balanceUnfreeze decimal128 dictAsset b₀ u a x).2 = b₀ := by
  intro frozen unfrozen
  have hne : BalanceType.available ≠ BalanceType.freeze := by decide
  obtain ⟨hret, hnext⟩ : InPlace.ComesTo b frozen
      (balanceMove decimal128 dictAsset b .available .freeze u a x) :=
    InPlace.balanceMove_eq decimal128 dictAsset b u a x .available .freeze
  obtain ⟨hret', hnext'⟩ : InPlace.ComesTo frozen.2 unfrozen
      (balanceMove decimal128 dictAsset frozen.2 .freeze .available u a x) :=
    InPlace.balanceMove_eq decimal128 dictAsset frozen.2 u a x .freeze .available
  obtain ⟨hiff, hall⟩ := @h.move_exact _ _ u _ _ a x hne hgrid
  refine ⟨hret ▸ hiff, fun hsome => ?_, fun hnone => ?_, fun b₀ u a x hnone => ?_⟩
  · obtain ⟨b', hrun⟩ := Option.isSome_iff_exists.mp (hret ▸ hsome)
    obtain rfl : frozen.2 = b' := by rw [hnext, hrun, Option.getD_some]
    refine ⟨hall _ hrun, fun hback => ?_⟩
    have hmove := h.move_back hne hgrid hrun hback
    rw [hmove] at hret' hnext'
    exact ⟨hret', hnext'⟩
  · rw [hnone, Option.isSome_none, eq_comm, Option.isSome_eq_false_iff, Option.isNone_iff_eq_none]
      at hret
    rw [hnext, hret, Option.getD_none]
  · obtain ⟨hret, hnext⟩ := InPlace.balanceMove_eq decimal128 dictAsset b₀ u a x .freeze .available
    unfold InPlace.balanceUnfreeze at hnone ⊢
    rw [hnone, Option.isSome_none, eq_comm, Option.isSome_eq_false_iff, Option.isNone_iff_eq_none]
      at hret
    rw [hnext, hret, Option.getD_none]

end Exact

/-! ## A balance that is frozen whole -/

/-- BTC, kept with 20 digits. -/
def bitcoinOnly : Dict String AssetType := (∅ : Dict String AssetType).insert "BTC" ⟨20, 8⟩

/-- User 1 has 5 BTC. -/
def fiveBitcoins : Dict BalanceKey ℚ :=
  (∅ : Dict BalanceKey ℚ).insert ⟨1, .available, "BTC"⟩ 5

theorem regular_fiveBitcoins : Regular bitcoinOnly fiveBitcoins := by
  have hasset : ∀ a ty, bitcoinOnly.find a = some ty → a = "BTC" ∧ ty = ⟨20, 8⟩ := fun a ty h => by
    rw [bitcoinOnly, Dict.find_insert, Dict.find_empty] at h
    split_ifs at h with ha
    exact ⟨ha, (Option.some.inj h).symm⟩
  have hentry : ∀ k v, fiveBitcoins.find k = some v → v = 5 := fun k v h => by
    rw [fiveBitcoins, Dict.find_insert, Dict.find_empty] at h
    split_ifs at h
    exact (Option.some.inj h).symm
  refine ⟨fun k v h => ?_, fun k v ty h hty => ?_, fun u a ty hty => ?_⟩
  · rw [hentry k v h]
    norm_num
  · rw [hentry k v h]
    exact OnGrid.mono (p := 0) ⟨5, by norm_num⟩ (Int.natCast_nonneg _)
  · obtain ⟨rfl, rfl⟩ := hasset a ty hty
    rw [fiveBitcoins, balanceOf_insert, balanceOf_insert]
    by_cases hu : u = 1
    · subst hu
      rw [if_pos rfl, if_neg (by decide)]
      norm_num [balanceOf]
    · simp [hu, balanceOf]

theorem fiveBitcoins_frozen :
    (InPlace.balanceFreeze decimal128 bitcoinOnly fiveBitcoins 1 "BTC" 5).1.isSome ∧
      (InPlace.balanceUnfreeze decimal128 bitcoinOnly
        (InPlace.balanceFreeze decimal128 bitcoinOnly fiveBitcoins 1 "BTC" 5).2 1 "BTC" 5).2 =
        fiveBitcoins := by
  obtain ⟨hiff, hmoved, -⟩ := freeze_unfreeze (u := 1) (a := "BTC") (x := 5) regular_fiveBitcoins
    fun ty _ => OnGrid.mono (p := 0) ⟨5, by norm_num⟩ (Int.natCast_nonneg _)
  have hsome := hiff.mpr ⟨by decide, by norm_num, 5, rfl, le_rfl⟩
  exact ⟨hsome, ((hmoved hsome).2 (Or.inl (by norm_num))).2⟩

end ViabtcExchange
