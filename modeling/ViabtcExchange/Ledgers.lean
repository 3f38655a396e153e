import ViabtcExchange.BalanceSpec
import ViabtcExchange.Restart

/-!
# The balances in every life

What every balance call keeps, whatever its arguments and whether it succeeds, every request keeps,
and the loading of a slice too. So in every life of the engine, with slices of any states in
between, no balance is negative, and each is on the grid its asset is saved at
(`Engine.Life.sound`).
-/

namespace ViabtcExchange

/-! ## What the calls keep -/

section Rule

variable {D : Type} {mpd : Mpd D} {P : Ledger D → Prop}

theorem keep_callAll (hP : ∀ l c, P l → P (l.call mpd c)) {cs : List (BalanceCall D)} {l : Ledger D}
    (h : P l) : P (l.callAll mpd cs) := by
  induction cs generalizing l with
  | nil => exact h
  | cons c cs ih => exact ih (hP l c h)

theorem keep_orderFinish (hP : ∀ l c, P l → P (l.call mpd c)) {s : Statics D} (m : Market D)
    (id : ℕ) (h : P s.ledger) : P (orderFinish mpd false s m id).1.ledger := by
  rw [orderFinish_statics]
  split_ifs
  · exact hP _ _ h
  · exact h

theorem keep_orderPut (hP : ∀ l c, P l → P (l.call mpd c)) {s : Statics D} (m : Market D)
    (order : Order D) (h : P s.ledger) : P (orderPut mpd s m order).1.ledger := by
  rcases orderPut_statics mpd s m order with hs | hs
  · rw [hs]
    exact h
  · rw [hs]
    exact hP _ _ h

theorem keep_execute (hP : ∀ l c, P l → P (l.call mpd c)) {x : Matching D} {e e' : Execution D}
    (h : P e.statics.ledger) (hrun : x.execute mpd false e = some e') : P e'.statics.ledger := by
  have hstep : ∀ id e t, P e.statics.ledger →
      P (executeTrade mpd false x e id t).statics.ledger := by
    intro id e t h
    have hpay : P (payTrade mpd false x e id t).ledger := by
      rw [payTrade_false]
      exact keep_callAll hP h
    simp only [executeTrade, settleMaker, Statics.push_false]
    split_ifs
    · exact keep_orderFinish hP _ _ hpay
    · exact hpay
  obtain ⟨_, hend, -⟩ := executeLoop_rule mpd false x (P := fun _ e => P e.statics.ledger)
    (fun id _ e t h _ _ => hstep id e t h) h hrun
  exact hend

/-- **What every balance call and every update keep, every request keeps.** -/
theorem Engine.keep_step (hP : ∀ l c, P l → P (l.call mpd c))
    (hupdate : ∀ l u a x b, applyChange mpd l u a x = some b → P l → P { l with dictBalance := b })
    {real : Bool} {e e' : Engine D} {op : Op D} (h : P e.statics.ledger)
    (hstep : e.step mpd real op = some e') : P e'.statics.ledger := by
  have hsilent : e.silent.step mpd false op = some e'.silent := by
    rw [Engine.silent_step mpd real, hstep]
    rfl
  change P e'.silent.statics.ledger
  have hcases := Engine.step_cases hsilent
  have h : P e.silent.statics.ledger := h
  cases op with
  | updateBalance args padding now =>
    obtain ⟨s, d, hupd, heq⟩ := hcases
    rw [heq]
    unfold updateUserBalance at hupd
    dsimp only at hupd
    split at hupd
    · cases hupd
    · split at hupd
      · cases hupd
      · rename_i b hb
        obtain ⟨-, hs, -⟩ := Prod.mk.inj hupd |>.imp_right Prod.mk.inj
        rw [← hs]
        exact hupdate _ _ _ _ _ hb h
  | limitOrder args =>
    obtain ⟨m, o, -, -, hput, -, heq⟩ := hcases
    rw [heq]
    rcases marketPutLimitOrder_cases hput with ⟨ret, -, rfl⟩ | ⟨-, -, ex, hrun, rfl⟩
    · exact h
    · have hex : P ex.statics.ledger := by
        unfold executeLimitOrder at hrun
        split at hrun
        · exact keep_execute hP h hrun
        · exact keep_execute hP h hrun
      change P (restLimitOrder mpd false ex).statics.ledger
      unfold restLimitOrder
      dsimp only
      split_ifs
      · exact hex
      · exact keep_orderPut hP _ _ hex
  | marketOrder args =>
    obtain ⟨m, o, -, -, hput, -, heq⟩ := hcases
    rw [heq]
    rcases marketPutMarketOrder_cases hput with ⟨ret, -, rfl⟩ | ⟨-, ex, hrun, rfl⟩
    · exact h
    · unfold executeMarketOrder at hrun
      split at hrun
      · exact keep_execute hP h hrun
      · exact keep_execute hP h hrun
  | cancelOrder args =>
    obtain ⟨m, -, -, -, heq⟩ := hcases
    rw [heq]
    exact keep_orderFinish hP _ _ h
  | expire now =>
    have heq : e'.silent = { e.silent with dictUpdate := expireUpdates e.silent.dictUpdate now } :=
      hcases
    rw [heq]
    exact h

/-- And the loading of a slice keeps it, when every entry that is set does. -/
theorem Engine.keep_restore (hP : ∀ l c, P l → P (l.call mpd c))
    (hload : ∀ (l : Ledger D) row, P l →
      P { l with dictBalance := loadBalance mpd l.dictAsset l.dictBalance row })
    {dictAsset : Dict String AssetType} {confs : List (MarketConf D)} {slice : Slice D}
    {e : Engine D} (hempty : P ⟨dictAsset, ∅, []⟩)
    (hrestore : restore mpd dictAsset confs slice = some e) : P e.statics.ledger := by
  rw [restore_eq] at hrestore
  obtain ⟨e₀, hinit, rfl⟩ := Option.map_eq_some_iff.mp hrestore
  have hrow : ∀ (e : Engine D) row, P e.statics.ledger →
      P (e.loadOrder mpd row).statics.ledger := by
    intro e row h
    unfold loadOrder
    cases e.dictMarket.find row.market with
    | none => exact h
    | some m => exact keep_orderPut hP m _ h
  have horders : ∀ (rows : List (ℕ × Order D)) (e : Engine D), P e.statics.ledger →
      P (rows.foldl (fun e row => e.loadOrder mpd row.2) e).statics.ledger := by
    intro rows
    induction rows with
    | nil => exact fun _ h => h
    | cons row rows ih => exact fun e h => ih _ (hrow e row.2 h)
  have hbalances : ∀ (rows : List (BalanceKey × D)) (l : Ledger D), P l →
      P { l with dictBalance := rows.foldl (loadBalance mpd l.dictAsset) l.dictBalance } := by
    intro rows
    induction rows with
    | nil => exact fun _ h => h
    | cons row rows ih =>
      exact fun l h =>
        ih { l with dictBalance := loadBalance mpd l.dictAsset l.dictBalance row } (hload l row h)
  refine hbalances slice.balances _ (horders _ _ ?_)
  change P e₀.statics.ledger
  rw [init_statics hinit]
  exact hempty

end Rule

/-! ## Soundness -/

section Sound

variable {round : ℚ → ℚ} {dictAsset : Dict String AssetType} {b b' : Dict BalanceKey ℚ} {u : ℕ}
  {t src dst : BalanceType} {a : String} {x : ℚ}

theorem balanceMove_sound (hr : RoundsDown round) (hs : Sound dictAsset b)
    (hrun : balanceMove (ratMpd round) dictAsset b src dst u a x = some b') :
    Sound dictAsset b' := by
  unfold balanceMove at hrun
  cases hty : dictAsset.find a with
  | none => simp [hty] at hrun
  | some ty =>
    simp only [hty] at hrun
    split_ifs at hrun
    cases hb : balanceGet b u src a with
    | none => simp [hb] at hrun
    | some r =>
      simp only [hb] at hrun
      split_ifs at hrun with hlt
      cases hadd : balanceAdd (ratMpd round) dictAsset b u dst a x with
      | none => simp [hadd] at hrun
      | some b₁ =>
        simp only [hadd, Option.some.injEq] at hrun
        subst hrun
        exact (balanceAdd_sound hr hs hadd).1.lower hr hty (not_lt.mp (by simpa using hlt))

/-- `balance_set` keeps soundness whatever the amount. -/
theorem balanceSet_sound (hs : Sound dictAsset b)
    (hrun : balanceSet (ratMpd round) dictAsset b u t a x = some b') : Sound dictAsset b' := by
  unfold balanceSet at hrun
  cases hty : dictAsset.find a with
  | none => simp [hty] at hrun
  | some ty =>
    simp only [hty] at hrun
    split_ifs at hrun with hneg
    · obtain rfl := Option.some.inj hrun
      exact hs.erase _
    · obtain rfl := Option.some.inj hrun
      have hx : 0 ≤ x := not_lt.mp (by simpa using hneg)
      exact hs.insert hty (by simpa using truncTo_nonneg _ hx) (by simpa using onGrid_truncTo _ _)

theorem loadBalance_sound (hs : Sound dictAsset b) (row : BalanceKey × ℚ) :
    Sound dictAsset (loadBalance (ratMpd round) dictAsset b row) := by
  unfold loadBalance
  cases hfind : dictAsset.find row.1.asset with
  | none => exact hs
  | some ty =>
    dsimp only
    cases hb : balanceSet (ratMpd round) dictAsset b row.1.userId row.1.type row.1.asset
        ((ratMpd round).cut row.2 ty.precSave) with
    | none => exact hs
    | some b => exact balanceSet_sound hs hb

theorem Ledger.Sound.call {l : Ledger ℚ} (hr : RoundsDown round) (c : BalanceCall ℚ) (h : l.Sound) :
    (l.call (ratMpd round) c).Sound := by
  unfold Ledger.call
  cases hrun : c.run (ratMpd round) l.dictAsset l.dictBalance with
  | none => exact h
  | some b =>
    cases c with
    | add => exact (balanceAdd_sound hr h hrun).1
    | sub => exact (balanceSub_sound hr h hrun).1
    | freeze => exact balanceMove_sound hr h hrun
    | unfreeze => exact balanceMove_sound hr h hrun

/-- **No balance is ever negative or off its grid**, whatever the requests and the slices. -/
theorem Engine.Life.sound {column : ℕ → ℚ → ℚ} {confs : List (MarketConf ℚ)} {ok : Engine ℚ → Prop}
    {e : Engine ℚ} (hr : RoundsDown round)
    (h : Life (ratMpd round) column dictAsset confs ok e) :
    e.statics.ledger.Sound ∧ e.statics.ledger.dictAsset = dictAsset := by
  set P : Ledger ℚ → Prop := fun l => l.Sound ∧ l.dictAsset = dictAsset
  have hcall : ∀ l c, P l → P (l.call (ratMpd round) c) := fun l c h =>
    ⟨h.1.call hr c, (Ledger.call_dictAsset _ l c).trans h.2⟩
  have hempty : P ⟨dictAsset, ∅, []⟩ := ⟨sound_empty dictAsset, rfl⟩
  induction h with
  | init hinit => exact (init_statics hinit) ▸ hempty
  | step _ hstep ih =>
    refine keep_step (P := P) hcall (fun l u a x b hb h => ⟨?_, h.2⟩) ih hstep
    unfold applyChange at hb
    split_ifs at hb
    · exact (balanceAdd_sound hr h.1 hb).1
    · exact (balanceSub_sound hr h.1 hb).1
  | restart _ _ _ _ hrestore _ =>
    exact keep_restore (P := P) hcall (fun l row h => ⟨loadBalance_sound h.1 row, h.2⟩)
      hempty hrestore

end Sound

end ViabtcExchange
