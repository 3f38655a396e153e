import ViabtcExchange.Book
import ViabtcExchange.Silent

/-!
# The matching loop

`executeLoop_rule` is the induction behind every statement about matching: a property of the
execution and of the makers still to visit that every trade preserves holds when the loop ends (and
it ends, `executeLoop_isSome`, unless some quote does not). The rest of the module says once what
one trade does: to the containers (`settleMaker_market`), and to the file-scope variables when
nothing is reported (`payTrade_false`, `settleMaker_statics`).
-/

namespace ViabtcExchange

section Rule

variable {D : Type} (mpd : Mpd D) (real : Bool) (x : Matching D)

/-- Why a loop ends: no maker is left, the taker is filled, or the next maker does not trade. -/
def Stopped (ids : List ℕ) (e : Execution D) : Prop :=
  ids = [] ∨ mpd.cmp e.taker.left mpd.zero = 0 ∨
    ∃ id ids', ids = id :: ids' ∧ x.quote e.market e.taker (e.market.order id) = some .stop

/-- An invariant of the makers still to visit and the execution holds when the loop ends. -/
theorem executeLoop_rule {P : List ℕ → Execution D → Prop}
    (hstep : ∀ id ids e t, P (id :: ids) e → mpd.cmp e.taker.left mpd.zero ≠ 0 →
      x.quote e.market e.taker (e.market.order id) = some (.trade t) →
      P ids (executeTrade mpd real x e id t))
    {ids : List ℕ} {e e' : Execution D} (h : P ids e)
    (hrun : executeLoop mpd real x ids e = some e') :
    ∃ ids', P ids' e' ∧ Stopped mpd x ids' e' := by
  induction ids generalizing e with
  | nil => exact Option.some.inj hrun ▸ ⟨[], h, Or.inl rfl⟩
  | cons id ids ih =>
    unfold executeLoop at hrun
    by_cases hleft : mpd.cmp e.taker.left mpd.zero = 0
    · rw [if_pos hleft] at hrun
      exact Option.some.inj hrun ▸ ⟨id :: ids, h, Or.inr (Or.inl hleft)⟩
    · rw [if_neg hleft] at hrun
      cases hq : x.quote e.market e.taker (e.market.order id) with
      | none => simp [hq] at hrun
      | some q =>
        cases q with
        | stop =>
          simp only [hq] at hrun
          exact Option.some.inj hrun ▸ ⟨id :: ids, h, Or.inr (Or.inr ⟨id, ids, rfl, hq⟩)⟩
        | trade t =>
          simp only [hq] at hrun
          exact ih (hstep id ids e t h hleft hq) hrun

/-- The loop ends when every quote it asks for does. -/
theorem executeLoop_isSome {P : List ℕ → Execution D → Prop}
    (hquote : ∀ id ids e, P (id :: ids) e → mpd.cmp e.taker.left mpd.zero ≠ 0 →
      x.quote e.market e.taker (e.market.order id) ≠ none)
    (hstep : ∀ id ids e t, P (id :: ids) e → mpd.cmp e.taker.left mpd.zero ≠ 0 →
      x.quote e.market e.taker (e.market.order id) = some (.trade t) →
      P ids (executeTrade mpd real x e id t))
    {ids : List ℕ} {e : Execution D} (h : P ids e) :
    ∃ e', executeLoop mpd real x ids e = some e' := by
  induction ids generalizing e with
  | nil => exact ⟨e, rfl⟩
  | cons id ids ih =>
    unfold executeLoop
    by_cases hleft : mpd.cmp e.taker.left mpd.zero = 0
    · rw [if_pos hleft]
      exact ⟨e, rfl⟩
    · rw [if_neg hleft]
      have hsome := hquote id ids e h hleft
      cases hq : x.quote e.market e.taker (e.market.order id) with
      | none => exact absurd hq hsome
      | some q =>
        cases q with
        | stop => exact ⟨e, rfl⟩
        | trade t => exact ih (hstep id ids e t h hleft hq)

end Rule

/-! ## One trade, the containers -/

section Containers

variable {round : ℚ → ℚ} {n : ℕ} {m : Market ℚ} {i : ℕ} {maker : Order ℚ}

/-- What a trade that leaves the maker `i` as `maker` makes of the containers. -/
structure Traded (n : ℕ) (m m' : Market ℚ) (i : ℕ) (maker : Order ℚ) (stuck : Prop) : Prop where
  wf : m'.WF n
  conf : m'.conf = m.conf
  order : m'.order = Function.update m.order i maker
  book : ∀ side, m'.book side = if maker.left = 0 then (m.book side).erase i else m.book side
  kept : maker.left ≠ 0 ∨ stuck → m'.orders = m.orders
  dropped : maker.left = 0 → ¬stuck → m'.orders = m.orders.erase i

theorem Market.WF.setOrder (h : m.WF n) (hface : SameFace (m.order i) maker) :
    (m.setOrder i maker).WF n := by
  refine h.congr_order fun j => ?_
  rw [Function.update_apply]
  split_ifs with hj
  · rw [hj]
    exact hface
  · exact ⟨rfl, rfl, rfl, rfl, rfl, rfl⟩

theorem settleMaker_market (real : Bool) (s : Statics ℚ) (h : m.WF n) (hi : i ∈ m.orders)
    (hface : SameFace (m.order i) maker) :
    Traded n m (settleMaker (ratMpd round) real s m i maker).2 i maker
      (orderStuck (ratMpd round) s (m.setOrder i maker) i = true) := by
  have hwf : (m.setOrder i maker).WF n := h.setOrder hface
  unfold settleMaker
  simp only [ratMpd_zero, ratMpd_cmp_eq]
  by_cases hleft : maker.left = 0
  · rw [if_pos hleft]
    have hfin := orderFinish_market round real
      (s.push real (.order .finish maker (m.setOrder i maker).stock (m.setOrder i maker).money))
      hwf (i := i) hi
    have hstuck : ∀ msg, orderStuck (ratMpd round) (s.push real msg) (m.setOrder i maker) i =
        orderStuck (ratMpd round) s (m.setOrder i maker) i := fun msg => by cases real <;> rfl
    rw [hstuck] at hfin
    refine ⟨hfin.wf, hfin.conf, hfin.order, fun side => ?_, fun hk => ?_, fun _ => hfin.dropped⟩
    · rw [if_pos hleft]
      exact hfin.book side
    · exact hfin.kept (hk.resolve_left fun hne => hne hleft)
  · rw [if_neg hleft]
    refine ⟨hwf, rfl, rfl, fun side => ?_, fun _ => rfl, fun h0 => absurd h0 hleft⟩
    rw [if_neg hleft]
    rfl

end Containers

/-! ## One trade, the file-scope variables -/

section Statics

variable {D : Type} (mpd : Mpd D)

/-- The balance calls of one party. -/
def legCalls (order : Order D) (leg : Leg D) : List (BalanceCall D) :=
  .sub order.userId leg.giveType leg.giveAsset leg.give ::
  .add order.userId .available leg.getAsset leg.get ::
  if mpd.cmp leg.fee mpd.zero > 0 then [.sub order.userId .available leg.feeAsset leg.fee] else []

/-- The balance calls of a trade. -/
def tradeCalls (x : Matching D) (m : Market D) (taker maker : Order D) (t : Terms D) :
    List (BalanceCall D) :=
  legCalls mpd taker (x.takerLeg m taker t) ++ legCalls mpd maker (x.makerLeg m maker t)

/-- A trade as it is recorded. -/
def Matching.record (x : Matching D) (m : Market D) (t : Terms D) : Trade D :=
  ⟨t, m.money, x.bidFeeAsset m⟩

theorem payLeg_false (s : Statics D) (order : Order D) (t : Terms D) (leg : Leg D) :
    payLeg mpd false s order t leg =
      { s with ledger := s.ledger.callAll mpd (legCalls mpd order leg) } := by
  unfold payLeg legCalls
  split_ifs <;> rfl

theorem payTrade_false (x : Matching D) (e : Execution D) (id : ℕ) (t : Terms D) :
    payTrade mpd false x e id t =
      { e.statics.openDeal (x.record e.market t) with
        ledger := e.statics.ledger.callAll mpd
          (tradeCalls mpd x e.market e.taker (e.market.order id) t) } := by
  simp only [payTrade, reportDeal_false, payLeg_false, tradeCalls, Ledger.callAll_append]
  rfl

theorem orderFinish_statics (s : Statics D) (m : Market D) (id : ℕ) :
    (orderFinish mpd false s m id).1 =
      if m.frozen mpd id then s.call mpd (m.unfreezeCall id) else s := by
  unfold orderFinish
  by_cases hstuck : orderStuck mpd s m id = true
  · have hfrozen : m.frozen mpd id = true := (Bool.and_eq_true _ _ ▸ hstuck).1
    rw [if_pos hstuck, if_pos hfrozen]
  · rw [if_neg hstuck]
    simp only [Statics.append_false, ite_self]

/-- A filled maker that freezes nothing any more is finished without a balance call. -/
theorem settleMaker_statics (s : Statics D) (m : Market D) (id : ℕ) (maker : Order D)
    (h : mpd.cmp maker.left mpd.zero = 0 → ¬mpd.cmp maker.freeze mpd.zero > 0) :
    (settleMaker mpd false s m id maker).1 = s := by
  unfold settleMaker
  dsimp only
  split_ifs with hleft
  · rw [Statics.push_false, orderFinish_statics, if_neg]
    simpa [Market.frozen] using h hleft
  · rfl

/-- The balance calls of a trade whose maker is left with nothing to unfreeze. -/
theorem executeTrade_ledger (real : Bool) (x : Matching D) (e : Execution D) (id : ℕ) (t : Terms D)
    (h : mpd.cmp (x.fillMaker mpd e.market (e.market.order id) t).left mpd.zero = 0 →
      ¬mpd.cmp (x.fillMaker mpd e.market (e.market.order id) t).freeze mpd.zero > 0) :
    (executeTrade mpd real x e id t).statics.ledger =
      e.statics.ledger.callAll mpd (tradeCalls mpd x e.market e.taker (e.market.order id) t) := by
  have hsilent := congrArg (fun e : Execution D => e.statics.ledger)
    (silent_executeTrade mpd real x e id t)
  refine Eq.trans hsilent.symm ?_
  have hstatics : (executeTrade mpd false x e.silent id t).statics =
      payTrade mpd false x e.silent id t := settleMaker_statics mpd _ _ _ _ h
  rw [hstatics, payTrade_false]
  rfl

/-- What matching leaves alone: the last order id, and the assets. -/
def Statics.fixed (s : Statics D) : ℕ × Dict String AssetType := (s.orderIdStart, s.ledger.dictAsset)

@[simp] theorem Statics.fixed_silent (s : Statics D) : s.silent.fixed = s.fixed := rfl

@[simp] theorem Statics.fixed_call (s : Statics D) (c : BalanceCall D) :
    (s.call mpd c).fixed = s.fixed :=
  Prod.ext rfl (Ledger.call_dictAsset mpd s.ledger c)

@[simp] theorem Statics.fixed_append (real : Bool) (s : Statics D) (row : HistoryRow D) :
    (s.append real row).fixed = s.fixed := by cases real <;> rfl

@[simp] theorem Statics.fixed_push (real : Bool) (s : Statics D) (msg : Message D) :
    (s.push real msg).fixed = s.fixed := by cases real <;> rfl

/-- An order that comes to rest freezes what it may still have to give. Where it is refused by a
container, nothing is called. -/
theorem orderPut_statics (s : Statics D) (m : Market D) (order : Order D) :
    (orderPut mpd s m order).1 = s ∨
      (orderPut mpd s m order).1 =
        s.call mpd (.freeze order.userId (m.giveAsset order.side) (restFreeze mpd order)) := by
  unfold orderPut
  split_ifs
  · exact Or.inl rfl
  · exact Or.inl rfl
  · dsimp only
    split
    · exact Or.inl rfl
    · split
      · exact Or.inl rfl
      · right
        cases order.side <;> rfl

theorem orderPut_fixed (s : Statics D) (m : Market D) (order : Order D) :
    (orderPut mpd s m order).1.fixed = s.fixed := by
  rcases orderPut_statics mpd s m order with h | h
  · rw [h]
  · rw [h, Statics.fixed_call]

theorem orderFinish_fixed (s : Statics D) (m : Market D) (id : ℕ) :
    (orderFinish mpd false s m id).1.fixed = s.fixed := by
  rw [orderFinish_statics]
  split_ifs
  · exact Statics.fixed_call mpd s _
  · rfl

theorem executeTrade_fixed (real : Bool) (x : Matching D) (e : Execution D) (id : ℕ)
    (t : Terms D) : (executeTrade mpd real x e id t).statics.fixed = e.statics.fixed := by
  have hpay : ∀ e : Execution D, (payTrade mpd false x e id t).fixed =
      e.statics.fixed := fun e => by
    rw [payTrade_false]
    exact Prod.ext rfl (Ledger.callAll_dictAsset mpd e.statics.ledger _)
  have hfalse : ∀ e : Execution D,
      (executeTrade mpd false x e id t).statics.fixed = e.statics.fixed := fun e => by
    simp only [executeTrade, settleMaker, Statics.push_false]
    split_ifs
    · exact (orderFinish_fixed mpd _ _ _).trans (hpay e)
    · exact hpay e
  have h := congrArg (fun e : Execution D => e.statics.fixed)
    (silent_executeTrade mpd real x e id t)
  exact h.symm.trans (hfalse e.silent)

theorem orderFinish_trades (s : Statics D) (m : Market D) (id : ℕ) :
    (orderFinish mpd false s m id).1.trades = s.trades := by
  rw [orderFinish_statics]
  split_ifs <;> rfl

/-- A trade is recorded, whatever its balance calls return. -/
theorem executeTrade_trades (real : Bool) (x : Matching D) (e : Execution D) (id : ℕ)
    (t : Terms D) :
    (executeTrade mpd real x e id t).statics.trades =
      e.statics.trades ++ [x.record e.market t] := by
  have hfalse : ∀ e : Execution D, (executeTrade mpd false x e id t).statics.trades =
      e.statics.trades ++ [x.record e.market t] := fun e => by
    simp only [executeTrade, settleMaker, Statics.push_false]
    split_ifs
    · rw [orderFinish_trades, payTrade_false]
      rfl
    · rw [payTrade_false]
      rfl
  have h := congrArg (fun e : Execution D => e.statics.trades)
    (silent_executeTrade mpd real x e id t)
  exact h.symm.trans (hfalse e.silent)

theorem executeLoop_fixed (real : Bool) (x : Matching D) {ids : List ℕ}
    {e e' : Execution D} (h : executeLoop mpd real x ids e = some e') :
    e'.statics.fixed = e.statics.fixed := by
  obtain ⟨_, hP, -⟩ := executeLoop_rule mpd real x
    (P := fun _ e₁ => e₁.statics.fixed = e.statics.fixed)
    (fun id _ e₁ t hP _ _ => (executeTrade_fixed mpd real x e₁ id t).trans hP) rfl h
  exact hP

end Statics

end ViabtcExchange
