import ViabtcExchange.Uncrossed

/-!
# The two counters

An accepted order takes one order id, and a deal one deal id; nothing else moves the counters, and
nothing moves them back (`Engine.step_orderIdStart`, `Engine.step_dealsIdStart`).
-/

namespace ViabtcExchange

variable {D : Type} {mpd : Mpd D} {real : Bool}

/-! ## The last deal id -/

section Deals

variable (mpd)

@[simp] theorem Statics.dealsIdStart_append (s : Statics D) (row : HistoryRow D) :
    (s.append real row).dealsIdStart = s.dealsIdStart := by
  cases real <;> rfl

@[simp] theorem Statics.dealsIdStart_push (s : Statics D) (msg : Message D) :
    (s.push real msg).dealsIdStart = s.dealsIdStart := by
  cases real <;> rfl

theorem orderPut_dealsIdStart (s : Statics D) (m : Market D) (order : Order D) :
    (orderPut mpd s m order).1.dealsIdStart = s.dealsIdStart := by
  rcases orderPut_statics mpd s m order with h | h
  · rw [h]
  · rw [h]
    rfl

theorem orderFinish_dealsIdStart (s : Statics D) (m : Market D) (id : ℕ) :
    (orderFinish mpd real s m id).1.dealsIdStart = s.dealsIdStart := by
  have hfalse : (orderFinish mpd false s.silent m id).1.dealsIdStart = s.dealsIdStart := by
    rw [orderFinish_statics]
    split_ifs <;> rfl
  rw [silent_orderFinish mpd real] at hfalse
  exact hfalse

/-- A trade takes one deal id. -/
theorem executeTrade_dealsIdStart (x : Matching D) (e : Execution D) (id : ℕ) (t : Terms D) :
    (executeTrade mpd real x e id t).statics.dealsIdStart = e.statics.dealsIdStart + 1 := by
  have hpay : (payTrade mpd false x e.silent id t).dealsIdStart = e.statics.dealsIdStart + 1 := by
    rw [payTrade_false]
    rfl
  have hfalse : (executeTrade mpd false x e.silent id t).statics.dealsIdStart =
      e.statics.dealsIdStart + 1 := by
    simp only [executeTrade, settleMaker, Statics.push_false]
    split_ifs
    · exact (orderFinish_dealsIdStart mpd _ _ _).trans hpay
    · exact hpay
  rw [silent_executeTrade mpd real] at hfalse
  exact hfalse

theorem restLimitOrder_dealsIdStart (e : Execution D) :
    (restLimitOrder mpd real e).statics.dealsIdStart = e.statics.dealsIdStart := by
  unfold restLimitOrder
  by_cases hleft : mpd.cmp e.taker.left mpd.zero = 0
  · simp [hleft]
  · simp [hleft, orderPut_dealsIdStart]

theorem updateUserBalance_dealsIdStart {s s' : Statics D} {d d' : Dict UpdateKey ℚ}
    {args : UpdateArgs D} {padding : ℕ} {now : ℚ}
    (h : updateUserBalance mpd real s d args padding now = (0, s', d')) :
    s'.dealsIdStart = s.dealsIdStart := by
  unfold updateUserBalance at h
  dsimp only at h
  split at h
  · cases h
  · split at h
    · cases h
    · obtain ⟨-, hs, -⟩ := Prod.mk.inj h |>.imp_right Prod.mk.inj
      rw [← hs]
      simp [Statics.appendUserBalanceHistory]

theorem execute_dealsIdStart {x : Matching D} {e e' : Execution D}
    (h : x.execute mpd real e = some e') : e.statics.dealsIdStart ≤ e'.statics.dealsIdStart := by
  obtain ⟨-, hle, -⟩ := executeLoop_rule mpd real x
    (P := fun _ e₁ => e.statics.dealsIdStart ≤ e₁.statics.dealsIdStart)
    (fun id _ e₁ t hle _ _ => by
      rw [executeTrade_dealsIdStart]
      exact hle.trans (Nat.le_succ _)) le_rfl h
  exact hle

end Deals

/-! ## What a request does to the counters -/

/-- The order ids a request takes. -/
def Op.opens : Op D → ℕ
  | .limitOrder _ | .marketOrder _ => 1
  | _ => 0

namespace Engine

variable {e e' : Engine D} {op : Op D}

theorem step_orderIdStart (h : e.step mpd real op = some e') :
    e'.statics.orderIdStart = e.statics.orderIdStart + op.opens := by
  have hcases := step_cases h
  cases op with
  | updateBalance args padding now =>
    obtain ⟨s, d, hupd, rfl⟩ := hcases
    exact congrArg Prod.fst (updateUserBalance_fixed hupd)
  | limitOrder args =>
    obtain ⟨m, o, -, -, hput, hzero, rfl⟩ := hcases
    rcases marketPutLimitOrder_cases hput with ⟨ret, hret, rfl⟩ | ⟨-, -, ex, hrun, rfl⟩
    · exact absurd hzero hret.ne
    · exact congrArg Prod.fst
        ((restLimitOrder_fixed mpd real ex).trans (executeLimitOrder_fixed hrun))
  | marketOrder args =>
    obtain ⟨m, o, -, -, hput, hzero, rfl⟩ := hcases
    rcases marketPutMarketOrder_cases hput with ⟨ret, hret, rfl⟩ | ⟨-, ex, hrun, rfl⟩
    · exact absurd hzero hret.ne
    · exact congrArg Prod.fst
        ((closeMarketOrder_fixed real ex).trans (executeMarketOrder_fixed hrun))
  | cancelOrder args =>
    obtain ⟨m, -, -, -, rfl⟩ := hcases
    exact congrArg Prod.fst (marketCancelOrder_fixed mpd real e.statics m args.orderId)
  | expire now =>
    obtain rfl := hcases
    rfl

theorem step_dealsIdStart (h : e.step mpd real op = some e') :
    e.statics.dealsIdStart ≤ e'.statics.dealsIdStart := by
  have hcases := step_cases h
  cases op with
  | updateBalance args padding now =>
    obtain ⟨s, d, hupd, rfl⟩ := hcases
    exact (updateUserBalance_dealsIdStart mpd hupd).ge
  | limitOrder args =>
    obtain ⟨m, o, -, -, hput, hzero, rfl⟩ := hcases
    rcases marketPutLimitOrder_cases hput with ⟨ret, hret, rfl⟩ | ⟨-, -, ex, hrun, rfl⟩
    · exact absurd hzero hret.ne
    · have hle : e.statics.dealsIdStart ≤ ex.statics.dealsIdStart := by
        unfold executeLimitOrder at hrun
        split at hrun
        · exact execute_dealsIdStart mpd hrun
        · exact execute_dealsIdStart mpd hrun
      exact hle.trans (restLimitOrder_dealsIdStart mpd ex).ge
  | marketOrder args =>
    obtain ⟨m, o, -, -, hput, hzero, rfl⟩ := hcases
    rcases marketPutMarketOrder_cases hput with ⟨ret, hret, rfl⟩ | ⟨-, ex, hrun, rfl⟩
    · exact absurd hzero hret.ne
    · have hle : e.statics.dealsIdStart ≤ ex.statics.dealsIdStart := by
        unfold executeMarketOrder at hrun
        split at hrun
        · exact execute_dealsIdStart mpd hrun
        · exact execute_dealsIdStart mpd hrun
      refine hle.trans (le_of_eq ?_)
      simp [closeMarketOrder, put]
  | cancelOrder args =>
    obtain ⟨m, -, -, -, rfl⟩ := hcases
    refine le_of_eq ?_
    simp [marketCancelOrder, put, orderFinish_dealsIdStart]
  | expire now =>
    obtain rfl := hcases
    exact le_rfl

end Engine

end ViabtcExchange
